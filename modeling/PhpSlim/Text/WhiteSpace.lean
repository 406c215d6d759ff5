/-!
# White space around names

The characters with the Unicode property White_Space, and names compared without them and without
regard to the case of ASCII letters.
-/

namespace PhpSlim.Text

/-- The ranges of White_Space, both ends included. -/
def whiteSpaceRanges : List (Nat × Nat) :=
  [(0x09, 0x0D), (0x20, 0x20), (0x85, 0x85), (0xA0, 0xA0), (0x1680, 0x1680), (0x2000, 0x200A),
    (0x2028, 0x2029), (0x202F, 0x202F), (0x205F, 0x205F), (0x3000, 0x3000)]

def isWhiteSpace (c : Char) : Bool :=
  whiteSpaceRanges.any fun r => decide (r.1 ≤ c.toNat) && decide (c.toNat ≤ r.2)

/-- The list without the elements at its two ends that satisfy `p`. -/
def stripEnds (p : Char → Bool) (s : List Char) : List Char :=
  ((s.dropWhile p).reverse.dropWhile p).reverse

/-- The text without the white space at its two ends. -/
def trim (s : String) : String :=
  String.ofList (stripEnds isWhiteSpace s.toList)

/-- Equality up to the case of ASCII letters. -/
def sameName (a b : String) : Bool :=
  a.toList.map Char.toLower == b.toList.map Char.toLower

/-- Folding the case moves the capitals of ASCII and nothing else. -/
theorem toNat_toLower (c : Char) :
    c.toLower.toNat = if 65 ≤ c.toNat ∧ c.toNat ≤ 90 then c.toNat + 32 else c.toNat := by
  unfold Char.toLower
  split
  · rename_i h
    have hcapital : 65 ≤ c.toNat ∧ c.toNat ≤ 90 := h
    have hmoved : (c.val + ('a'.val - 'A'.val)).toNat = (c.toNat + 32) % 2 ^ 32 := rfl
    rw [if_pos hcapital]
    exact hmoved.trans (Nat.mod_eq_of_lt (by omega))
  · rename_i h
    exact (if_neg h).symm

end PhpSlim.Text
