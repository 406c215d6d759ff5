import Mathlib
import PhpSlim.Text.WhiteSpace

/-!
# Texts without what stands at their ends

What is taken off the ends of a text are characters of one kind only, and as many as there are. This
fixes what remains, and says it without taking anything off.
-/

namespace PhpSlim.Proofs
open PhpSlim.Text

variable {p : Char → Bool} {s front core back : List Char}

/-- Whether a text is `core` with more characters of the kind `p` at its two ends, while `core`
itself neither begins nor ends with one. -/
def StripsTo (p : Char → Bool) (s core : List Char) : Prop :=
  ∃ front back, s = front ++ core ++ back ∧ (∀ c ∈ front, p c = true) ∧ (∀ c ∈ back, p c = true) ∧
    (∀ c ∈ core.head?, p c = false) ∧ ∀ c ∈ core.getLast?, p c = false

lemma stripEnds_padded (hfront : ∀ c ∈ front, p c = true) (hback : ∀ c ∈ back, p c = true) :
    stripEnds p (front ++ core ++ back) = stripEnds p core := by
  have hreverse : ∀ c ∈ back.reverse, p c = true := fun c hc => hback c (List.mem_reverse.mp hc)
  rw [stripEnds, stripEnds, List.append_assoc, List.dropWhile_append_of_pos hfront,
    List.dropWhile_append]
  split_ifs with hcore
  · rw [List.isEmpty_iff.mp hcore, List.dropWhile_eq_nil_iff.mpr hback]
  · rw [List.reverse_append, List.dropWhile_append_of_pos hreverse]

lemma dropWhile_of_head (h : ∀ c ∈ s.head?, p c = false) : s.dropWhile p = s := by
  cases s with
  | nil => rfl
  | cons c s =>
    have hc : ¬p c = true := by simpa using h c
    exact List.dropWhile_cons_of_neg hc

lemma head_dropWhile {c : Char} (hc : c ∈ (s.dropWhile p).head?) : p c = false := by
  have hnot := List.head?_dropWhile_not p s
  rw [Option.mem_def.mp hc] at hnot
  simpa using hnot

/-- Stripping a text gives the one text that remains of it. -/
theorem stripsTo_iff : StripsTo p s core ↔ stripEnds p s = core := by
  constructor
  · rintro ⟨front, back, rfl, hfront, hback, hhead, hlast⟩
    rw [List.getLast?_eq_head?_reverse] at hlast
    rw [stripEnds_padded hfront hback, stripEnds, dropWhile_of_head hhead, dropWhile_of_head hlast,
      List.reverse_reverse]
  · rintro rfl
    have hfront := List.takeWhile_append_dropWhile (p := p) (l := s)
    have hback := List.takeWhile_append_dropWhile (p := p) (l := (s.dropWhile p).reverse)
    rw [← List.reverse_inj, List.reverse_reverse, List.reverse_append] at hback
    refine ⟨s.takeWhile p, ((s.dropWhile p).reverse.takeWhile p).reverse, ?_, ?_, ?_, ?_, ?_⟩
    · rw [stripEnds, List.append_assoc, hback, hfront]
    · exact fun c hc => List.mem_takeWhile_imp hc
    · exact fun c hc => List.mem_takeWhile_imp (List.mem_reverse.mp hc)
    · intro c hc
      have hhead : c ∈ (s.dropWhile p).head? := by
        rw [← hback, List.head?_append]
        exact Option.or_eq_some_iff.mpr (.inl hc)
      exact head_dropWhile hhead
    · intro c hc
      rw [stripEnds, List.getLast?_reverse] at hc
      exact head_dropWhile hc

lemma stripsTo_stripEnds (p : Char → Bool) (s : List Char) : StripsTo p s (stripEnds p s) :=
  stripsTo_iff.mpr rfl

lemma stripEnds_stripEnds (p : Char → Bool) (s : List Char) :
    stripEnds p (stripEnds p s) = stripEnds p s := by
  obtain ⟨front, back, hs, hfront, hback, -⟩ := stripsTo_stripEnds p s
  have hstripped := congrArg (stripEnds p) hs
  rw [stripEnds_padded hfront hback] at hstripped
  exact hstripped.symm

lemma stripEnds_map {f : Char → Char} (h : ∀ c, p (f c) = p c) (s : List Char) :
    stripEnds p (s.map f) = (stripEnds p s).map f := by
  have hcomp : p ∘ f = p := funext h
  simp only [stripEnds, List.dropWhile_map, hcomp, ← List.map_reverse]

end PhpSlim.Proofs
