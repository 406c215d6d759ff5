import PhpSlim.Proofs.NeededBlanks

/-!
# Compacting twice

In a compacted text every blank is needed, but for some beside dots: a number that was set apart from
a dot is not always set apart again. Hence a second compaction changes nothing exactly if the blanks
beside dots are steady, which they are where no number is set apart, and there are texts where it
does change something.
-/

namespace PhpSlim.Proofs
open PhpSlim.Text PhpSlim.Blanks

/-- The place before the blanks that are held back. -/
def beforeHeld : Place → Place
  | .copied => .copied
  | .tag left => .tag left
  | .tagEnd => .tagEnd
  | .tagBlank => .tagBlank
  | .lineStart => .lineStart
  | .word w => .word w
  | .wordBlank w _ => .word w
  | .operator o => .operator o
  | .operatorBlank o _ => .operator o
  | .dot => .dot
  | .dotBlank => .dot
  | .number => .number
  | .numberBlank => .number

/-- The places at which a compaction can stand behind the number character `x`. -/
def BehindNumberChar (x : Char) (p : Place) : Prop :=
  p = .number ∨ (x = '.' ∧ (p = .operator '.' ∨ p = .dot)) ∨ (x ≠ '.' ∧ p = .word x)

/-- A first compaction stands at `p` and a second one, which reads what the first has written, at `q`:
both stand at the same place, or behind the same number character. -/
def Again (p q : Place) : Prop :=
  beforeHeld p = q ∨
    ∃ x, isNumberChar x = true ∧ BehindNumberChar x (beforeHeld p) ∧ BehindNumberChar x q

/-- Whether blanks are written at once. -/
def isVerbatim : Place → Bool
  | .copied => true
  | .tag _ => true
  | .tagEnd => true
  | .tagBlank => false
  | .lineStart => false
  | .word _ => false
  | .wordBlank _ _ => false
  | .operator _ => false
  | .operatorBlank _ _ => false
  | .dot => false
  | .dotBlank => false
  | .number => false
  | .numberBlank => false

lemma eq_dot_of_isOperator {c : Char} (hc : isNumberChar c = true) (h : isOperator c = true) :
    c = '.' := by
  have hall : ∀ o ∈ operators, isNumberChar o = true → o = '.' := by simp [operators, isNumberChar]
  exact hall c (by simpa [isOperator] using h) hc

lemma not_isLineBreak_of_isNumberChar {c : Char} (hc : isNumberChar c = true) :
    isLineBreak c = false := by
  by_contra h
  simp only [isLineBreak, Bool.not_eq_false, Bool.or_eq_true, beq_iff_eq] at h
  rcases h with rfl | rfl <;> simp [isNumberChar] at hc

lemma behindNumberChar_ink {p : Place} (hp : isVerbatim p = false) {c : Char} (hc : isNumberChar c = true) :
    BehindNumberChar c (p.ink c) := by
  unfold Place.ink
  split
  · simp [isVerbatim] at hp
  · simp [isVerbatim] at hp
  · split_ifs with hn hl hd ho
    · exact .inl rfl
    · simp [not_isLineBreak_of_isNumberChar hc] at hl
    · simp only [Bool.and_eq_true, beq_iff_eq] at hd
      exact .inr (.inl ⟨hd.1, .inr rfl⟩)
    · obtain rfl := eq_dot_of_isOperator hc ho
      exact .inr (.inl ⟨rfl, .inl rfl⟩)
    · refine .inr (.inr ⟨?_, rfl⟩)
      rintro rfl
      simp [isOperator, operators] at ho

lemma ink_of_not_isNumberChar {p : Place} (hp : isVerbatim p = false) {c : Char}
    (hc : isNumberChar c = false) :
    p.ink c = if isLineBreak c then .lineStart else if isOperator c then .operator c else .word c := by
  have hstart : Place.startsNumber c = false := by
    by_contra h
    rw [isNumberChar_of_startsNumber (by simpa using h)] at hc
    cases hc
  have hdot : (c == '.') = false := by
    by_contra h
    simp only [Bool.not_eq_false, beq_iff_eq] at h
    simp [h, isNumberChar] at hc
  unfold Place.ink
  split
  · simp [isVerbatim] at hp
  · simp [isVerbatim] at hp
  · simp [hstart, hc, hdot]

lemma beforeHeld_of_not_isWaiting {p : Place} (h : isWaiting p = false) : beforeHeld p = p := by
  cases p <;> simp_all [beforeHeld, isWaiting]

lemma again_ink {p q : Place} (hp : isVerbatim p = false) (hq : isVerbatim q = false) (c : Char) :
    Again (p.ink c) (q.ink c) := by
  have hheld := beforeHeld_of_not_isWaiting (not_isWaiting_ink p c)
  by_cases hc : isNumberChar c = true
  · exact .inr ⟨c, hc, hheld.symm ▸ behindNumberChar_ink hp hc, behindNumberChar_ink hq hc⟩
  · have hc : isNumberChar c = false := by simpa using hc
    left
    rw [hheld, ink_of_not_isNumberChar hp hc, ink_of_not_isNumberChar hq hc]

lemma again_self {p : Place} (hp : isWaiting p = false) : Again p p :=
  .inl (beforeHeld_of_not_isWaiting hp)

lemma BehindNumberChar.not_isVerbatim {x : Char} {p : Place} (h : BehindNumberChar x p) :
    isVerbatim p = false := by
  rcases h with rfl | ⟨-, rfl | rfl⟩ | ⟨-, rfl⟩ <;> rfl

lemma isVerbatim_beforeHeld (p : Place) : isVerbatim (beforeHeld p) = isVerbatim p := by
  cases p <;> rfl

lemma Again.isVerbatim_eq {p q : Place} (h : Again p q) : isVerbatim q = isVerbatim p := by
  rcases h with rfl | ⟨x, -, hp, hq⟩
  · exact isVerbatim_beforeHeld p
  · rw [hq.not_isVerbatim, ← isVerbatim_beforeHeld p, hp.not_isVerbatim]

lemma beforeHeld_of_isVerbatim {p : Place} (h : isVerbatim p = true) : beforeHeld p = p := by
  cases p <;> simp_all [beforeHeld, isVerbatim]

lemma Again.eq_of_isVerbatim {p q : Place} (h : Again p q) (hp : isVerbatim p = true) : q = p := by
  rcases h with rfl | ⟨x, -, hx, -⟩
  · exact beforeHeld_of_isVerbatim hp
  · rw [← isVerbatim_beforeHeld, hx.not_isVerbatim] at hp
    cases hp

lemma ne_copied_of_not_isVerbatim {p : Place} (h : isVerbatim p = false) : p ≠ .copied := by
  rintro rfl
  cases h

lemma step_of_isVerbatim {p : Place} (h : isVerbatim p = true) (c : Char) (r : Region) :
    (p.step c r).1 = [c] ∧ isWaiting (p.step c r).2 = false ∧ ∀ b next, needed p b next = true := by
  by_cases hx : p = .copied ∨ isCodeBlank (c, r) = false
  · obtain ⟨hout, hw⟩ := step_writes hx
    have hnone : isWaiting p = false := by cases p <;> simp_all [isVerbatim, isWaiting]
    have hg := gap_of_not_waiting hnone (c := c)
    refine ⟨by rw [hout, hg]; rfl, hw, ?_⟩
    cases p <;> simp_all [isVerbatim, needed]
  · obtain ⟨hp, hb⟩ := not_or.mp hx
    obtain ⟨hc, rfl⟩ : isBlank c = true ∧ r = .code := by simpa [isCodeBlank] using hb
    rw [step_blank hp hc]
    cases p <;> simp_all [isVerbatim, needed, Place.blank, isWaiting]

lemma blank_of_not_isVerbatim {p : Place} (h : isVerbatim p = false) (b : Char) :
    (p.blank b).1 = [] ∧ beforeHeld (p.blank b).2 = beforeHeld p ∧ isVerbatim (p.blank b).2 = false := by
  cases p <;> simp_all [isVerbatim, Place.blank, beforeHeld]

lemma again_step {p q : Place} (hp : isVerbatim p = false) (hq : isVerbatim q = false) {c : Char}
    {r : Region} (hx : isCodeBlank (c, r) = false) : Again (p.step c r).2 (q.step c r).2 := by
  rw [step_ink (ne_copied_of_not_isVerbatim hp) hx, step_ink (ne_copied_of_not_isVerbatim hq) hx]
  dsimp only
  split_ifs
  · exact again_ink hp hq c
  · exact again_self rfl

/-- What `needed` asks of blanks beside dots: before a dot a blank keeps a digit from it, behind a dot
it keeps a digit or a dot from it, and behind a spaced dot or a number set apart by one it is a space
with something behind it. -/
def steady (p : Place) (b : Char) (next : Option Char) : Bool :=
  match p with
  | .copied => true
  | .tag _ => true
  | .tagEnd => true
  | .tagBlank => true
  | .lineStart => true
  | .word w => next != some '.' || fuses w '.'
  | .wordBlank _ _ => true
  | .operator o => o != '.' || next.any Place.startsNumber
  | .operatorBlank _ _ => true
  | .dot => b == ' ' && next.any Place.startsNumber
  | .dotBlank => true
  | .number => b == ' ' && next.isSome
  | .numberBlank => true

lemma fuses_dot (c : Char) : fuses '.' c = Place.startsNumber c := by
  have hdigit : Char.isDigit '.' = false := rfl
  rw [Bool.eq_iff_iff]
  simp [fuses, fusedPairs, hdigit, Place.startsNumber, or_comm]

lemma eq_dot_of_fuses {x c : Char} (hx : isNumberChar x = true) (hd : x ≠ '.')
    (h : fuses x c = true) : c = '.' := by
  have hpair : fusedPairs.contains (x, c) = false := by
    by_contra hp
    have hall : ∀ y ∈ fusedPairs, isNumberChar y.1 = true → y.1 = '.' := by
      simp [fusedPairs, isNumberChar]
    exact hd (hall (x, c) (by simpa using hp) hx)
  simp only [fuses, hpair, Bool.false_or, Bool.or_eq_true, Bool.and_eq_true, beq_iff_eq] at h
  rcases h with h | h
  · exact h.2
  · exact absurd h.1 hd

lemma dot_or_not_closes_of_startsNumber {c : Char} (h : Place.startsNumber c = true) :
    c = '.' ∨ Place.closes c = false := by
  have hc := isNumberChar_of_startsNumber h
  by_cases ho : isOperator c = true
  · exact .inl (eq_dot_of_isOperator hc ho)
  · right
    rw [Place.closes, not_isLineBreak_of_isNumberChar hc, Bool.or_false]
    simpa using ho

lemma eq_blank_of_gap {p : Place} {b c : Char} (hg : p.gap c = [b]) :
    isWaiting p = true ∧ ((beforeHeld p).blank b).2 = p := by
  cases p with
  | wordBlank w d =>
    rw [gap_wordBlank] at hg
    split_ifs at hg
    obtain rfl : d = b := by simpa using hg
    exact ⟨rfl, rfl⟩
  | operatorBlank o d =>
    rw [gap_operatorBlank] at hg
    split_ifs at hg
    obtain rfl : d = b := by simpa using hg
    exact ⟨rfl, rfl⟩
  | dotBlank => exact ⟨rfl, rfl⟩
  | numberBlank => exact ⟨rfl, rfl⟩
  | _ => cases hg

lemma dot_or_not_closes_of_gap {p : Place} {x b c : Char} (hx : isNumberChar x = true)
    (hp : BehindNumberChar x (beforeHeld p)) (hg : p.gap c = [b]) : c = '.' ∨ Place.closes c = false := by
  cases p with
  | wordBlank w d =>
    obtain ⟨hd, rfl⟩ : x ≠ '.' ∧ w = x := by simpa [BehindNumberChar, beforeHeld] using hp
    rw [gap_wordBlank] at hg
    split_ifs at hg with hc
    by_cases hcl : Place.closes c = true
    · exact .inl (eq_dot_of_fuses hx hd (by simpa [hcl] using hc))
    · exact .inr (by simpa using hcl)
  | operatorBlank o d =>
    obtain ⟨-, rfl⟩ : x = '.' ∧ o = '.' := by simpa [BehindNumberChar, beforeHeld] using hp
    rw [gap_operatorBlank] at hg
    split_ifs at hg with hf
    rw [fuses_dot] at hf
    exact dot_or_not_closes_of_startsNumber hf
  | dotBlank =>
    rw [gap_dotBlank] at hg
    split_ifs at hg with hc
    exact dot_or_not_closes_of_startsNumber hc
  | numberBlank =>
    rw [gap_numberBlank] at hg
    split_ifs at hg with hc
    simpa using hc
  | _ => cases hg

lemma needed_of_gap {p : Place} {b c : Char} (hg : p.gap c = [b]) :
    needed (beforeHeld p) b (some c) = true := by
  obtain ⟨hw, hp⟩ := eq_blank_of_gap hg
  have hheld : isWaiting (beforeHeld p) = false := by cases p <;> rfl
  rw [← hp] at hw
  rw [← gap_blank_iff hheld hw, hp]
  exact hg

/-- A blank that the first compaction writes before `c` is needed for the second one too, unless it
stands beside a dot and is not steady there. -/
lemma needed_of_steady {p q : Place} (h : Again p q) {b c : Char} (hg : p.gap c = [b])
    (hs : steady q b (some c) = true) : needed q b (some c) = true := by
  rcases h with rfl | ⟨x, hx, hpx, hqx⟩
  · exact needed_of_gap hg
  · have hc := dot_or_not_closes_of_gap hx hpx hg
    rcases hqx with rfl | ⟨-, rfl | rfl⟩ | ⟨-, rfl⟩
    · have hb : b = ' ' := by simpa [steady] using hs
      simpa [needed, hb] using hc
    · simpa [steady, needed, fuses_dot] using hs
    · exact hs
    · rcases hc with rfl | hc
      · have hf : fuses x '.' = true := by simpa [steady] using hs
        simp [needed, hf]
      · simp [needed, hc]

lemma needed_finish_of_steady {w b : Char} {q : Place} (h : Again (.wordBlank w b) q)
    (hs : steady q b none = true) : needed q b none = true := by
  rcases h with rfl | ⟨x, -, hp, hq⟩
  · rfl
  · obtain ⟨hd, -⟩ : x ≠ '.' ∧ w = x := by simpa [BehindNumberChar, beforeHeld] using hp
    rcases hq with rfl | ⟨hx, -⟩ | ⟨-, rfl⟩
    · simp [steady] at hs
    · exact absurd hx hd
    · rfl

lemma gap_cases (p : Place) (c : Char) : p.gap c = [] ∨ ∃ b, p.gap c = [b] := by
  have h := length_gap_le p c
  have hle : slack p ≤ 1 := by
    unfold slack
    split_ifs <;> omega
  rcases hg : p.gap c with _ | ⟨b, _ | ⟨d, gap⟩⟩
  · exact .inl rfl
  · exact .inr ⟨b, rfl⟩
  · simp only [hg, List.length_cons] at h
    omega

/-- The relation `R` between a first compaction, a second one behind what the first has written, and
the text that is left holds on, and every blank written on the way meets `ok`. -/
structure Keeps (R : Place → Place → List (Char × Region) → Prop)
    (ok : Place → Char → Option Char → Bool) : Prop where
  verbatim {p q : Place} {c : Char} {r : Region} {l : List (Char × Region)} :
    R p q ((c, r) :: l) → isVerbatim p = true →
      q = p ∧ (∀ next, ok p c next = true) ∧ R (p.step c r).2 (p.step c r).2 l
  plain {p q : Place} {x : Char × Region} {l : List (Char × Region)} :
    R p q (x :: l) → isVerbatim p = false → isVerbatim q = false
  blank {p q : Place} {b : Char} {l : List (Char × Region)} :
    R p q ((b, .code) :: l) → isVerbatim p = false → isBlank b = true → R (p.blank b).2 q l
  touch {p q : Place} {c : Char} {r : Region} {l : List (Char × Region)} :
    R p q ((c, r) :: l) → isVerbatim p = false → isCodeBlank (c, r) = false → p.gap c = [] →
      R (p.step c r).2 (q.step c r).2 l
  gap {p q : Place} {b c : Char} {r : Region} {l : List (Char × Region)} :
    R p q ((c, r) :: l) → isVerbatim p = false → isCodeBlank (c, r) = false → p.gap c = [b] →
      ok q b (some c) = true ∧ R (p.step c r).2 ((q.blank b).2.step c r).2 l
  finish {q : Place} {w b : Char} : R (.wordBlank w b) q [] → ok q b none = true

lemma Keeps.blanksMeet {R : Place → Place → List (Char × Region) → Prop}
    {ok : Place → Char → Option Char → Bool} (hR : Keeps R ok) {p q : Place}
    {l : List (Char × Region)} (h : R p q l) (hb : HoldsBlanks p) :
    blanksMeet ok q (squeezeLabelled p l) = true := by
  induction l generalizing p q with
  | nil =>
    cases p with
    | wordBlank w b => simp [squeezeLabelled, Place.finish, Proofs.blanksMeet, hR.finish h]
    | _ => rfl
  | cons x l ih =>
    obtain ⟨c, r⟩ := x
    have hnext := (hb.step c r).1
    rw [squeezeLabelled]
    by_cases hv : isVerbatim p = true
    · obtain ⟨rfl, hok, hrest⟩ := hR.verbatim h hv
      rw [(step_of_isVerbatim hv c r).1, withRegion_singleton, List.singleton_append,
        Proofs.blanksMeet, ih hrest hnext]
      simp [hok]
    have hp : isVerbatim p = false := by simpa using hv
    have hq := ne_copied_of_not_isVerbatim (hR.plain h hp)
    by_cases hx : isCodeBlank (c, r) = true
    · obtain ⟨hc, rfl⟩ : isBlank c = true ∧ r = .code := by simpa [isCodeBlank] using hx
      rw [step_blank (ne_copied_of_not_isVerbatim hp) hc] at hnext ⊢
      rw [(blank_of_not_isVerbatim hp c).1, withRegion_nil, List.nil_append]
      exact ih (hR.blank h hp hc) hnext
    have hx : isCodeBlank (c, r) = false := by simpa using hx
    rw [(step_writes (.inr hx)).1, withRegion_append_singleton]
    rcases gap_cases p c with hg | ⟨b, hg⟩
    · rw [hg, List.map_nil, List.nil_append, List.singleton_append,
        blanksMeet_cons_of_not_isCodeBlank hx]
      exact ih (hR.touch h hp hx hg) hnext
    · obtain ⟨hok, hrest⟩ := hR.gap h hp hx hg
      have hblank : isBlank b = true := hb.gap c b (by simp [hg])
      rw [hg, List.map_singleton, List.singleton_append, List.cons_append, List.singleton_append,
        blanksMeet_cons_blank hq hblank, blanksMeet_cons_of_not_isCodeBlank hx, ih hrest hnext,
        Bool.and_true]
      exact hok

lemma keeps_again :
    Keeps (fun p q _ => Again p q) (fun p b next => !steady p b next || needed p b next) where
  verbatim {p q c r l} h hv := by
    obtain ⟨-, hw, hn⟩ := step_of_isVerbatim hv c r
    exact ⟨h.eq_of_isVerbatim hv, by simp [hn], again_self hw⟩
  plain h hp := h.isVerbatim_eq.trans hp
  blank {p q b l} h hp _ := by
    rw [Again, (blank_of_not_isVerbatim hp b).2.1]
    exact h
  touch h hp hx _ := again_step hp (h.isVerbatim_eq.trans hp) hx
  gap {p q b c r l} h hp hx hg := by
    have hn := needed_of_steady h hg
    have hq := (blank_of_not_isVerbatim (h.isVerbatim_eq.trans hp) b).2.2
    refine ⟨?_, again_step hp hq hx⟩
    cases hs : steady q b (some c) <;> simp_all
  finish {q w b} h := by
    have hn := needed_finish_of_steady h
    cases hs : steady q b none <;> simp_all

lemma steady_of_needed {p : Place} {b : Char} {next : Option Char} (h : needed p b next = true) :
    steady p b next = true := by
  cases p with
  | word w =>
    by_cases hd : next = some '.'
    · have hf : fuses w '.' = true := by simpa [needed, hd, Place.closes, isOperator, operators] using h
      simp [steady, hf]
    · simp [steady, hd]
  | operator o =>
    by_cases ho : o = '.'
    · simpa [needed, steady, ho, funext fuses_dot] using h
    · simp [steady, ho]
  | dot => exact h
  | number =>
    obtain ⟨hb, hn⟩ : b = ' ' ∧ _ := by simpa [needed] using h
    cases next with
    | none => simp at hn
    | some c => simp [steady, hb]
  | _ => rfl

lemma blanksMeet_of_imp {ok₁ ok₂ ok : Place → Char → Option Char → Bool}
    (h : ∀ p b next, ok₁ p b next = true → ok₂ p b next = true → ok p b next = true) {p : Place}
    {l : List (Char × Region)} (h₁ : blanksMeet ok₁ p l = true) (h₂ : blanksMeet ok₂ p l = true) :
    blanksMeet ok p l = true := by
  induction l generalizing p with
  | nil => rfl
  | cons x l ih =>
    obtain ⟨c, r⟩ := x
    simp only [blanksMeet, Bool.and_eq_true, Bool.or_eq_true] at h₁ h₂ ⊢
    refine ⟨?_, ih h₁.2 h₂.2⟩
    rcases h₁.1 with hx | hok₁
    · exact .inl hx
    rcases h₂.1 with hx | hok₂
    · exact .inl hx
    exact .inr (h _ _ _ hok₁ hok₂)

lemma blanksMeet_needed_iff_steady (text : List Char) :
    blanksMeet needed .copied (label (compact text)) = true ↔
      blanksMeet steady .copied (label (compact text)) = true := by
  constructor
  · intro h
    exact blanksMeet_of_imp (fun _ _ _ hn _ => steady_of_needed hn) h h
  · intro h
    have hagain : Again .copied .copied := again_self rfl
    have himp := keeps_again.blanksMeet hagain trivial (l := label text)
    rw [← label_compact] at himp
    refine blanksMeet_of_imp ?_ himp h
    intro p b next hor hs
    simpa [hs] using hor

/-- Whether compaction sets a number apart from a dot. -/
def setsApart (p : Place) : List (Char × Region) → Bool
  | [] => false
  | (c, r) :: rest => (p.step c r).2 == .number || setsApart (p.step c r).2 rest

lemma setsApart_cons_eq_false {p : Place} {c : Char} {r : Region} {l : List (Char × Region)} :
    setsApart p ((c, r) :: l) = false ↔
      (p.step c r).2 ≠ .number ∧ setsApart (p.step c r).2 l = false := by
  simp [setsApart]

/-- A first and a second compaction that have met no number set apart: they stand at the same place,
unless the blank before a dot went. -/
def Plainly (p q : Place) : Prop :=
  beforeHeld p ≠ .number ∧ (q = beforeHeld p ∨ (beforeHeld p = .dot ∧ q = .operator '.'))

lemma plainly_self {p : Place} (hw : isWaiting p = false) (hn : p ≠ .number) : Plainly p p := by
  have hheld := beforeHeld_of_not_isWaiting hw
  exact ⟨hheld.symm ▸ hn, .inl hheld.symm⟩

lemma Plainly.not_isWaiting {p q : Place} (h : Plainly p q) : isWaiting q = false ∧ q ≠ .number := by
  obtain ⟨hn, rfl | ⟨-, rfl⟩⟩ := h
  · refine ⟨?_, hn⟩
    cases p <;> rfl
  · exact ⟨rfl, by simp⟩

lemma ink_ne_number {p : Place} (hw : isWaiting p = false) (hn : p ≠ .number) (c : Char) :
    p.ink c ≠ .number := by
  have hd : p ≠ .dotBlank := by
    rintro rfl
    cases hw
  unfold Place.ink
  split
  · simp
  · simp
  · split_ifs with h <;> simp_all

lemma eq_tagBlank_of_ink_eq_dot {p : Place} (hw : isWaiting p = false) {c : Char}
    (h : p.ink c = .dot) : p = .tagBlank := by
  unfold Place.ink at h
  split at h
  · cases h
  · cases h
  · split_ifs at h with hn hl hd
    obtain ⟨-, hs⟩ := Bool.and_eq_true_iff.mp hd
    cases p <;> simp_all [Place.spacedDot, isWaiting]

lemma Plainly.ink {p q : Place} (h : Plainly p q) (hp : isVerbatim p = false)
    (hq : isVerbatim q = false) {c : Char} (hn : p.ink c ≠ .number) : Plainly (p.ink c) (q.ink c) := by
  obtain ⟨hw, hqn⟩ := h.not_isWaiting
  have hheld := beforeHeld_of_not_isWaiting (not_isWaiting_ink p c)
  rw [Plainly, hheld]
  refine ⟨hn, ?_⟩
  by_cases hc : isNumberChar c = true
  · have hqn := ink_ne_number hw hqn c
    rcases behindNumberChar_ink hp hc with hp' | ⟨rfl, hp' | hp'⟩ | ⟨hd, hp'⟩
    · exact absurd hp' hn
    · -- The second compaction sees a blank before the dot only behind a tag, and so does the first.
      left
      rcases behindNumberChar_ink hq hc with hq' | ⟨-, hq' | hq'⟩ | ⟨hd, -⟩
      · exact absurd hq' hqn
      · rw [hp', hq']
      · obtain rfl := eq_tagBlank_of_ink_eq_dot hw hq'
        obtain ⟨-, heq | ⟨-, heq⟩⟩ := h
        · obtain rfl : p = .tagBlank := by cases p <;> simp [beforeHeld] at heq ⊢
          rfl
        · cases heq
      · exact absurd rfl hd
    · rcases behindNumberChar_ink hq hc with hq' | ⟨-, hq' | hq'⟩ | ⟨hd, -⟩
      · exact absurd hq' hqn
      · exact .inr ⟨hp', hq'⟩
      · exact .inl (hq'.trans hp'.symm)
      · exact absurd rfl hd
    · left
      rcases behindNumberChar_ink hq hc with hq' | ⟨rfl, -⟩ | ⟨-, hq'⟩
      · exact absurd hq' hqn
      · exact absurd rfl hd
      · rw [hp', hq']
  · have hc : isNumberChar c = false := by simpa using hc
    left
    rw [ink_of_not_isNumberChar hp hc, ink_of_not_isNumberChar hq hc]

lemma Plainly.isVerbatim_eq {p q : Place} (h : Plainly p q) : isVerbatim q = isVerbatim p := by
  obtain ⟨-, rfl | ⟨hd, rfl⟩⟩ := h
  · exact isVerbatim_beforeHeld p
  · rw [← isVerbatim_beforeHeld p, hd]
    rfl

lemma Plainly.step {p q : Place} (h : Plainly p q) (hp : isVerbatim p = false) {c : Char} {r : Region}
    (hx : isCodeBlank (c, r) = false) (hn : (p.step c r).2 ≠ .number) :
    Plainly (p.step c r).2 (q.step c r).2 := by
  have hq := h.isVerbatim_eq.trans hp
  rw [step_ink (ne_copied_of_not_isVerbatim hp) hx] at hn ⊢
  rw [step_ink (ne_copied_of_not_isVerbatim hq) hx]
  dsimp only at hn ⊢
  split_ifs at hn ⊢
  · exact h.ink hp hq hn
  · exact plainly_self rfl (by simp)

lemma keeps_plainly : Keeps (fun p q l => Plainly p q ∧ setsApart p l = false) steady where
  verbatim {p q c r l} h hv := by
    obtain ⟨h, hs⟩ := h
    obtain ⟨hn, hs⟩ := setsApart_cons_eq_false.mp hs
    obtain ⟨-, hw, hneeded⟩ := step_of_isVerbatim hv c r
    have hheld := beforeHeld_of_isVerbatim hv
    refine ⟨?_, fun next => steady_of_needed (hneeded c next), plainly_self hw hn, hs⟩
    obtain ⟨-, rfl | ⟨hd, -⟩⟩ := h
    · exact hheld
    · rw [hheld] at hd
      rw [hd] at hv
      cases hv
  plain h hp := h.1.isVerbatim_eq.trans hp
  blank {p q b l} h hp hb := by
    obtain ⟨h, hs⟩ := h
    obtain ⟨-, hs⟩ := setsApart_cons_eq_false.mp hs
    rw [step_blank (ne_copied_of_not_isVerbatim hp) hb] at hs
    refine ⟨?_, hs⟩
    rw [Plainly, (blank_of_not_isVerbatim hp b).2.1]
    exact h
  touch {p q c r l} h hp hx hg := by
    obtain ⟨h, hs⟩ := h
    obtain ⟨hn, hs⟩ := setsApart_cons_eq_false.mp hs
    exact ⟨h.step hp hx hn, hs⟩
  gap {p q b c r l} h hp hx hg := by
    obtain ⟨h, hs⟩ := h
    obtain ⟨hn, hs⟩ := setsApart_cons_eq_false.mp hs
    obtain ⟨-, rfl | ⟨hd, rfl⟩⟩ := h
    · rw [(eq_blank_of_gap hg).2]
      exact ⟨steady_of_needed (needed_of_gap hg), plainly_self (step_writes (.inr hx)).2 hn, hs⟩
    · obtain rfl : p = .dotBlank := by
        have hw := (eq_blank_of_gap hg).1
        cases p <;> simp_all [beforeHeld, isWaiting]
      rw [gap_dotBlank] at hg
      split_ifs at hg with hc
      refine ⟨by simp [steady, hc], ?_, hs⟩
      rw [step_ink (by simp) hx] at hn ⊢
      rw [step_ink (by simp [Place.blank]) hx]
      by_cases hr : r = .code
      · simp [hr, Place.ink, hc] at hn
      · simp only [if_neg hr]
        exact plainly_self rfl (by simp)
  finish {q w b} h := by
    obtain ⟨⟨-, rfl | ⟨hd, -⟩⟩, -⟩ := h
    · rfl
    · cases hd

lemma blanksMeet_steady_of_not_setsApart {text : List Char} (h : setsApart .copied (label text) = false) :
    blanksMeet steady .copied (label (compact text)) = true := by
  have hplain : Plainly .copied .copied := plainly_self rfl (by simp)
  have hmeet := keeps_plainly.blanksMeet ⟨hplain, h⟩ trivial
  rwa [← label_compact] at hmeet

/-- A second compaction changes nothing exactly if the blanks that the first one left beside dots are
steady, and so whenever the first one set no number apart from a dot. -/
theorem compact_twice_iff_steady (text : List Char) :
    (compact (compact text) = compact text ↔
        blanksMeet steady .copied (label (compact text)) = true) ∧
      (setsApart .copied (label text) = false → compact (compact text) = compact text) := by
  have hiff : compact (compact text) = compact text ↔
      blanksMeet steady .copied (label (compact text)) = true := by
    rw [compact_eq_self_iff, blanksMeet_needed_iff_steady]
  refine ⟨hiff, ?_⟩
  intro h
  exact hiff.mpr (blanksMeet_steady_of_not_setsApart h)

theorem compact_twice_iff_steady_around_dots :
    let text := "<?php\n  $a  .  'b' . $c [ 0 ] - - 1 . f ( ) ; ?> x . 1 . y".toList
    setsApart .copied (label text) = false ∧ compact text ≠ text ∧
      compact (compact text) = compact text := by
  have h : setsApart .copied
      (label "<?php\n  $a  .  'b' . $c [ 0 ] - - 1 . f ( ) ; ?> x . 1 . y".toList) = false := by
    decide
  exact ⟨h, by decide, (compact_twice_iff_steady _).2 h⟩

/-- The blank behind `0x1F` is written once: the second compaction sees no blank before the dot in
front of the number, so it takes the number for a word that may touch the next dot. -/
theorem compact_again_drops_blank :
    let text := "<?php echo 'a' . 0x1F . 'b';".toList
    compact text = "<?php echo 'a'. 0x1F .'b';".toList ∧
      compact (compact text) = "<?php echo 'a'. 0x1F.'b';".toList ∧
      compact (compact text) ≠ compact text := by
  decide

end PhpSlim.Proofs
