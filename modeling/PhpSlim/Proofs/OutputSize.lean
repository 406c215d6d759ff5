import PhpSlim.Proofs.CharsetReencoding
import PhpSlim.Proofs.NeededBlanks

/-!
# No pass makes a file larger

Every pass leaves out characters and puts spaces in place of some. A space can be written in every
charset and takes no more bytes there than any other character, so what could be read can be written
again, in no more bytes.
-/

namespace PhpSlim.Proofs
open PhpSlim.Text PhpSlim.Blanks PhpSlim.Comments PhpSlim.Charset

/-- `out` is `text` with some characters left out and spaces in place of some. -/
def Thinned (text out : List Char) : Prop :=
  List.SublistForall₂ (fun o c => o = c ∨ o = ' ') out text

lemma Thinned.refl (text : List Char) : Thinned text text := by
  induction text with
  | nil => exact .nil
  | cons c text ih => exact .cons (.inl rfl) ih

lemma Thinned.trans {a b c : List Char} (h : Thinned a b) (h' : Thinned b c) : Thinned a c := by
  have htrans : IsTrans Char fun o c => o = c ∨ o = ' ' := by
    refine ⟨?_⟩
    rintro x y z (rfl | rfl) hyz
    · exact hyz
    · exact .inr rfl
  exact List.SublistForall₂.is_trans.trans c b a h' h

lemma Thinned.append {a b a' b' : List Char} (h : Thinned a b) (h' : Thinned a' b') :
    Thinned (a ++ a') (b ++ b') := by
  induction h with
  | @nil a =>
    induction a with
    | nil => exact h'
    | cons c a ih => exact .cons_right ih
  | cons hc _ ih => exact .cons hc ih
  | cons_right _ ih => exact .cons_right ih

/-- The blank that is written at most for the blanks that a place holds back. -/
def held : Place → List Char
  | .copied => []
  | .tag _ => []
  | .tagEnd => []
  | .tagBlank => []
  | .lineStart => []
  | .word _ => []
  | .wordBlank _ b => [b]
  | .operator _ => []
  | .operatorBlank _ b => [b]
  | .dot => []
  | .dotBlank => [' ']
  | .number => []
  | .numberBlank => [' ']

lemma held_of_not_isWaiting {p : Place} (h : isWaiting p = false) : held p = [] := by
  cases p <;> simp_all [held, isWaiting]

lemma gap_eq_nil_or_held (p : Place) (c : Char) : p.gap c = [] ∨ p.gap c = held p := by
  cases p with
  | wordBlank w b =>
    rw [gap_wordBlank, held]
    split_ifs <;> simp
  | operatorBlank o b =>
    rw [gap_operatorBlank, held]
    split_ifs <;> simp
  | dotBlank =>
    rw [gap_dotBlank, held]
    split_ifs <;> simp
  | numberBlank =>
    rw [gap_numberBlank, held]
    split_ifs <;> simp
  | _ => exact .inl rfl

lemma thinned_blank (p : Place) (b : Char) :
    Thinned (held p ++ [b]) ((p.blank b).1 ++ held (p.blank b).2) := by
  have hkeep : Thinned [b] [b] := .refl [b]
  have hspace : Thinned [b] [' '] := .cons (.inr rfl) .nil
  cases p with
  | wordBlank c first => exact .cons (.inl rfl) .nil
  | operatorBlank o last => exact .cons_right hkeep
  | dot => exact hspace
  | dotBlank => exact .cons (.inl rfl) .nil
  | number => exact hspace
  | numberBlank => exact .cons (.inl rfl) .nil
  | copied => exact hkeep
  | tag left => exact hkeep
  | tagEnd => exact hkeep
  | tagBlank => exact .nil
  | lineStart => exact .nil
  | word c => exact hkeep
  | operator o => exact hkeep

lemma thinned_step (p : Place) (c : Char) (r : Region) :
    Thinned (held p ++ [c]) ((p.step c r).1 ++ held (p.step c r).2) := by
  by_cases h : p = .copied ∨ isCodeBlank (c, r) = false
  · obtain ⟨hout, hnext⟩ := step_writes h
    rw [hout, held_of_not_isWaiting hnext, List.append_nil]
    refine Thinned.append ?_ (.refl [c])
    rcases gap_eq_nil_or_held p c with hgap | hgap
    · rw [hgap]
      exact .nil
    · rw [hgap]
      exact .refl _
  · obtain ⟨hp, hb⟩ := not_or.mp h
    obtain ⟨hc, rfl⟩ : isBlank c = true ∧ r = .code := by simpa [isCodeBlank] using hb
    rw [step_blank hp hc]
    exact thinned_blank p c

lemma thinned_squeeze (p : Place) (l : List (Char × Region)) :
    Thinned (held p ++ l.map Prod.fst) (squeeze p l) := by
  induction l generalizing p with
  | nil =>
    cases p with
    | wordBlank w b => exact .refl [b]
    | _ => exact .nil
  | cons x l ih =>
    obtain ⟨c, r⟩ := x
    have hstep := (thinned_step p c r).append (.refl (l.map Prod.fst))
    have hrest := Thinned.append (.refl (p.step c r).1) (ih (p.step c r).2)
    rw [List.append_assoc, List.append_assoc, List.singleton_append] at hstep
    exact hstep.trans hrest

lemma written_eq (s : State) (c : Char) (r : Region) (next : Option Char) :
    written s c r next = none ∨ written s c r next = some c ∨ written s c r next = some ' ' := by
  unfold written
  split <;> (try split_ifs) <;> simp

lemma thinned_erase (s : State) (l : List (Char × Region)) :
    Thinned (l.map Prod.fst) (erase s l) := by
  induction l generalizing s with
  | nil => exact .nil
  | cons x l ih =>
    obtain ⟨c, r⟩ := x
    have hrest := ih (s.step c r (l.head?.map Prod.fst))
    have hfirst : Thinned [c] (written s c r (l.head?.map Prod.fst)).toList := by
      rcases written_eq s c r (l.head?.map Prod.fst) with h | h | h <;> rw [h]
      · exact .nil
      · exact .refl [c]
      · exact .cons (.inr rfl) .nil
    exact hfirst.append hrest

lemma thinned_apply (stage : Stage) (text : List Char) : Thinned text (stage.apply text) := by
  have hlabel : (label text).map Prod.fst = text := label_map_fst _ text
  cases stage with
  | comments =>
    have h := thinned_erase {} (label text)
    rwa [hlabel] at h
  | spaces =>
    have h := thinned_squeeze .copied (label text)
    rwa [hlabel] at h

lemma thinned_run (stages : List Stage) (text : List Char) : Thinned text (Stage.run stages text) :=
  run_induction Thinned.refl Thinned.trans thinned_apply stages text

lemma length_flatMap_le_of_thinned {α : Type} {f : Char → List α}
    (hf : ∀ c, (f ' ').length ≤ (f c).length) {text out : List Char} (h : Thinned text out) :
    (out.flatMap f).length ≤ (text.flatMap f).length := by
  induction h with
  | nil => simp
  | cons hc _ ih =>
    rw [List.flatMap_cons, List.flatMap_cons, List.length_append, List.length_append]
    rcases hc with rfl | rfl
    · omega
    · have hspace := hf (by assumption)
      omega
  | cons_right _ ih =>
    rw [List.flatMap_cons, List.length_append]
    omega

lemma encode_of_thinned_singleByte {cs : Charset} {max : Nat} (hmax : 0x20 ≤ max)
    {text out : List Char} (h : Thinned text out) {offset : Nat} {bytes : List UInt8}
    (hb : SingleByte.encode cs max offset text = .ok bytes) (offset' : Nat) :
    ∃ w, SingleByte.encode cs max offset' out = .ok w ∧ w.length ≤ bytes.length := by
  induction h generalizing offset offset' bytes with
  | nil => exact ⟨[], rfl, Nat.zero_le _⟩
  | @cons o c out text hc _ ih =>
    rw [SingleByte.encode] at hb
    split_ifs at hb with hle
    obtain ⟨rest, hrest, rfl⟩ := eq_cons_of_bind_eq_ok hb
    obtain ⟨w, hw, hlength⟩ := ih hrest (offset' + o.utf8Size)
    have ho : o.toNat ≤ max := by
      rcases hc with rfl | rfl
      · exact hle
      · exact hmax
    refine ⟨UInt8.ofNat o.toNat :: w, ?_, Nat.succ_le_succ hlength⟩
    rw [SingleByte.encode, if_pos ho, hw]
    rfl
  | @cons_right out c text _ ih =>
    rw [SingleByte.encode] at hb
    split_ifs at hb with hle
    obtain ⟨rest, hrest, rfl⟩ := eq_cons_of_bind_eq_ok hb
    obtain ⟨w, hw, hlength⟩ := ih hrest offset'
    exact ⟨w, hw, hlength.trans (Nat.le_succ _)⟩

lemma encode_of_thinned {cs : Charset} {text out : List Char} (h : Thinned text out)
    {bytes : List UInt8} (hb : cs.encode text = .ok bytes) :
    ∃ w, cs.encode out = .ok w ∧ w.length ≤ bytes.length := by
  cases cs with
  | utf8 =>
    obtain rfl : Utf8.encode text = bytes := by simpa [encode] using hb
    refine ⟨_, rfl, length_flatMap_le_of_thinned (fun c => ?_) h⟩
    rw [String.length_utf8EncodeChar, String.length_utf8EncodeChar]
    exact c.utf8Size_pos
  | utf16 =>
    obtain rfl : Utf16.encode text = bytes := by simpa [encode] using hb
    refine ⟨_, rfl, ?_⟩
    have hsplit (c : Char) : (Utf16.split ' ').length ≤ (Utf16.split c).length := by
      have hspace : (Utf16.split ' ').length = 1 := rfl
      rw [hspace, Utf16.split]
      split_ifs <;> simp
    have hle := length_flatMap_le_of_thinned hsplit h
    simp only [Utf16.encode, List.length_append, length_bytes]
    omega
  | ascii => exact encode_of_thinned_singleByte (by decide) h hb 0
  | latin1 => exact encode_of_thinned_singleByte (by decide) h hb 0

/-- Whether bytes begin with a byte order mark of UTF-16. -/
def Marked (bytes : List UInt8) : Prop :=
  Utf16.bigMark <+: bytes ∨ Utf16.littleMark <+: bytes

lemma length_splitMark (bytes : List UInt8) :
    (Marked bytes → (Utf16.splitMark bytes).2.2.length + 2 = bytes.length) ∧
      (Utf16.splitMark bytes).2.2.length ≤ bytes.length := by
  rcases splitMark_cases bytes with ⟨rest, rfl, hsplit⟩ | ⟨rest, rfl, hsplit⟩ | ⟨hlittle, hbig, hsplit⟩
  · rw [hsplit]
    exact ⟨fun _ => rfl, Nat.le_add_right _ 2⟩
  · rw [hsplit]
    exact ⟨fun _ => rfl, Nat.le_add_right _ 2⟩
  · rw [hsplit]
    exact ⟨fun hmarked => absurd hmarked (not_or.mpr ⟨hbig, hlittle⟩), Nat.le_refl _⟩

lemma length_encode_of_decode_utf16 {bytes : List UInt8} {text : List Char}
    (h : Utf16.decode bytes = .ok text) :
    (Utf16.encode text).length = (Utf16.splitMark bytes).2.2.length + 2 := by
  obtain ⟨heven, hunits⟩ := units_of_decode h
  rw [Utf16.encode, hunits, List.length_append, length_bytes, length_units]
  simp only [Utf16.bigMark, List.length_cons, List.length_nil]
  omega

lemma length_encode_of_decode {cs : Charset} {bytes : List UInt8} {text : List Char}
    (h : cs.decode bytes = .ok text) :
    ∃ w, cs.encode text = .ok w ∧
      ((cs ≠ .utf16 ∨ Marked bytes) → w.length = bytes.length) ∧ w.length ≤ bytes.length + 2 := by
  by_cases hcs : cs = .utf16
  · subst hcs
    have hlength := length_encode_of_decode_utf16 h
    obtain ⟨hmarked, hle⟩ := length_splitMark bytes
    refine ⟨_, rfl, ?_, by omega⟩
    rintro (hne | hm)
    · exact absurd rfl hne
    · have hbytes := hmarked hm
      omega
  · exact ⟨bytes, encode_of_decode_of_ne hcs h, fun _ => rfl, Nat.le_add_right _ _⟩

/-- What could be read in a charset can, after any stages, be written in the same charset, in no
more bytes than it had; only to UTF-16 without a byte order mark the two bytes of a mark may be
added. -/
theorem run_encodes_within_input_size (cs : Charset) (bytes : List UInt8) (text : List Char)
    (stages : List Stage) (h : cs.decode bytes = .ok text) :
    ∃ w, cs.encode (Stage.run stages text) = .ok w ∧
      ((cs ≠ .utf16 ∨ Marked bytes) → w.length ≤ bytes.length) ∧ w.length ≤ bytes.length + 2 := by
  obtain ⟨w₀, hw₀, hequal, hmark⟩ := length_encode_of_decode h
  obtain ⟨w, hw, hle⟩ := encode_of_thinned (thinned_run stages text) hw₀
  refine ⟨w, hw, ?_, hle.trans hmark⟩
  intro hcase
  exact hle.trans_eq (hequal hcase)

/-- `<?php a/**/1` with the low bytes first. -/
theorem run_encodes_within_input_size_low_bytes_first :
    decode .utf16 [0xFF, 0xFE, 0x3C, 0, 0x3F, 0, 0x70, 0, 0x68, 0, 0x70, 0, 0x20, 0, 0x61, 0,
        0x2F, 0, 0x2A, 0, 0x2A, 0, 0x2F, 0, 0x31, 0] = .ok "<?php a/**/1".toList ∧
      ∃ w, encode .utf16 (Stage.run Stage.all "<?php a/**/1".toList) = .ok w ∧ w.length ≤ 26 := by
  have hdecode : decode .utf16 [0xFF, 0xFE, 0x3C, 0, 0x3F, 0, 0x70, 0, 0x68, 0, 0x70, 0, 0x20, 0,
      0x61, 0, 0x2F, 0, 0x2A, 0, 0x2A, 0, 0x2F, 0, 0x31, 0] = .ok "<?php a/**/1".toList := by
    decide +kernel
  obtain ⟨w, hw, hle, -⟩ := run_encodes_within_input_size .utf16 _ _ Stage.all hdecode
  exact ⟨hdecode, w, hw, hle (.inr (.inr (by decide)))⟩

end PhpSlim.Proofs
