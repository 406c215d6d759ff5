import Mathlib
import PhpSlim.Glob.Parser

/-!
# What a glob matches

The byte strings that a pattern stands for, said by its parts; the test by derivatives decides just
these. A sequence of parts matches what its parts match one after the other.
-/

namespace PhpSlim.Proofs
open PhpSlim.Glob

/-- The byte strings that a pattern stands for. -/
def Matches : Pattern → List UInt8 → Prop
  | .empty, s => s = []
  | .byte b, s => s = [b]
  | .any, s => ∃ b, s = [b]
  | .oneOf set, s => ∃ b, set.contains b = true ∧ s = [b]
  | .many, _ => True
  | .both p q, s => ∃ u v, s = u ++ v ∧ Matches p u ∧ Matches q v
  | .either p q, s => Matches p s ∨ Matches q s
  | .group p, s => Matches p s

lemma nullable_iff (p : Pattern) : p.nullable = true ↔ Matches p [] := by
  induction p with
  | empty => simp [Pattern.nullable, Matches]
  | byte b => simp [Pattern.nullable, Matches]
  | any => simp [Pattern.nullable, Matches]
  | oneOf set => simp [Pattern.nullable, Matches]
  | many => simp [Pattern.nullable, Matches]
  | both p q hp hq => simp [Pattern.nullable, Matches, hp, hq]
  | either p q hp hq => simp [Pattern.nullable, Matches, hp, hq]
  | group p hp => simpa [Pattern.nullable, Matches] using hp

lemma matches_both_cons {p q : Pattern} {b : UInt8} {s : List UInt8} :
    Matches (.both p q) (b :: s) ↔
      (∃ u v, s = u ++ v ∧ Matches p (b :: u) ∧ Matches q v) ∨
        (Matches p [] ∧ Matches q (b :: s)) := by
  constructor
  · rintro ⟨u, v, hs, hp, hq⟩
    cases u with
    | nil =>
      rw [List.nil_append] at hs
      exact .inr ⟨hp, hs ▸ hq⟩
    | cons c u =>
      obtain ⟨rfl, rfl⟩ := List.cons.inj hs
      exact .inl ⟨u, v, rfl, hp, hq⟩
  · rintro (⟨u, v, rfl, hp, hq⟩ | ⟨hp, hq⟩)
    · exact ⟨b :: u, v, rfl, hp, hq⟩
    · exact ⟨[], b :: s, rfl, hp, hq⟩

/-- The derivatives by a byte match what may follow that byte. -/
lemma matches_cons_iff (p : Pattern) (b : UInt8) (s : List UInt8) :
    Matches p (b :: s) ↔ ∃ q ∈ p.derivatives b, Matches q s := by
  induction p generalizing s with
  | empty => simp [Pattern.derivatives, Matches]
  | byte c =>
    rw [Pattern.derivatives, Matches, List.cons.injEq]
    by_cases hc : c = b
    · simp [hc, Matches]
    · simp [hc, Ne.symm hc]
  | any => simp [Pattern.derivatives, Matches]
  | oneOf set =>
    rw [Pattern.derivatives, Matches]
    by_cases hb : set.contains b = true
    · simp [hb, Matches]
    · rw [if_neg hb]
      simp only [List.not_mem_nil, false_and, exists_false, iff_false, not_exists, List.cons.injEq]
      rintro c ⟨hc, rfl, -⟩
      exact hb hc
  | many => simp [Pattern.derivatives, Matches]
  | both p q hp hq =>
    have hfirst : (∃ r ∈ (p.derivatives b).map (Pattern.both · q), Matches r s) ↔
        ∃ u v, s = u ++ v ∧ Matches p (b :: u) ∧ Matches q v := by
      simp only [List.mem_map, exists_exists_and_eq_and, Matches, hp]
      constructor
      · rintro ⟨r, hr, u, v, rfl, hu, hv⟩
        exact ⟨u, v, rfl, ⟨r, hr, hu⟩, hv⟩
      · rintro ⟨u, v, rfl, ⟨r, hr, hu⟩, hv⟩
        exact ⟨r, hr, u, v, rfl, hu, hv⟩
    rw [matches_both_cons, Pattern.derivatives, ← hfirst, ← nullable_iff, hq]
    by_cases hnull : p.nullable = true
    · simp [hnull, or_and_right, exists_or]
    · simp [hnull]
  | either p q hp hq => simp [Pattern.derivatives, Matches, hp, hq, or_and_right, exists_or]
  | group p hp => simpa [Pattern.derivatives, Matches] using hp s

lemma anyMatches_iff (patterns : List Pattern) (s : List UInt8) :
    Pattern.anyMatches patterns s = true ↔ ∃ p ∈ patterns, Matches p s := by
  induction s generalizing patterns with
  | nil => simp [Pattern.anyMatches, nullable_iff]
  | cons b s ih =>
    rw [Pattern.anyMatches, ih]
    simp only [List.mem_eraseDups, List.mem_flatMap, matches_cons_iff _ b s]
    constructor
    · rintro ⟨q, ⟨p, hp, hq⟩, hs⟩
      exact ⟨p, hp, q, hq, hs⟩
    · rintro ⟨p, hp, q, hq, hs⟩
      exact ⟨q, ⟨p, hp, hq⟩, hs⟩

/-- The test by derivatives decides what a pattern stands for. -/
theorem matchesAll_iff (p : Pattern) (s : List UInt8) : p.matchesAll s = true ↔ Matches p s := by
  simp [Pattern.matchesAll, anyMatches_iff]

lemma matches_sequence_append {ps qs : List Pattern} {s : List UInt8} :
    Matches (.sequence (ps ++ qs)) s ↔
      ∃ u v, s = u ++ v ∧ Matches (.sequence ps) u ∧ Matches (.sequence qs) v := by
  induction ps generalizing s with
  | nil =>
    constructor
    · intro h
      exact ⟨[], s, rfl, rfl, h⟩
    · rintro ⟨u, v, rfl, rfl, hv⟩
      exact hv
  | cons p ps ih =>
    constructor
    · rintro ⟨u, v, rfl, hu, hv⟩
      obtain ⟨x, y, rfl, hx, hy⟩ := ih.mp hv
      exact ⟨u ++ x, y, by simp, ⟨u, x, rfl, hu, hx⟩, hy⟩
    · rintro ⟨u, v, rfl, ⟨x, y, rfl, hx, hy⟩, hv⟩
      exact ⟨x, y ++ v, by simp, hx, ih.mpr ⟨y, v, rfl, hy, hv⟩⟩

lemma matches_sequence_singleton {p : Pattern} {s : List UInt8} :
    Matches (.sequence [p]) s ↔ Matches p s := by
  simp [Pattern.sequence, Matches]

lemma matches_literal {bytes s : List UInt8} : Matches (.literal bytes) s ↔ s = bytes := by
  induction bytes generalizing s with
  | nil => rfl
  | cons b bytes ih =>
    constructor
    · rintro ⟨u, v, rfl, rfl, hv⟩
      rw [ih.mp hv]
      rfl
    · rintro rfl
      exact ⟨[b], bytes, rfl, rfl, ih.mpr rfl⟩

lemma matches_trailing {s : List UInt8} :
    Matches Item.trailing.toPattern s ↔ ∃ rest, s = 0x2F :: rest := by
  constructor
  · rintro ⟨u, v, rfl, rfl, -⟩
    exact ⟨v, rfl⟩
  · rintro ⟨rest, rfl⟩
    exact ⟨[0x2F], rest, rfl, rfl, trivial⟩

end PhpSlim.Proofs
