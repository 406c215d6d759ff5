import PhpSlim.Proofs.TokenBoundaries

/-!
# Needed blanks

Compaction leaves a text as it is exactly if every blank of its code is needed where it stands: the
place before it and the character behind it decide.
-/

namespace PhpSlim.Proofs
open PhpSlim.Text PhpSlim.Blanks

/-- Whether `ok` holds of every blank of code: of the place before it, the blank itself and the
character behind it. -/
def blanksMeet (ok : Place → Char → Option Char → Bool) (p : Place) : List (Char × Region) → Bool
  | [] => true
  | (c, r) :: rest =>
    (!isCodeBlank (c, r) || ok p c (rest.head?.map Prod.fst)) && blanksMeet ok (p.step c r).2 rest

/-- Whether compaction keeps the blank `b` behind place `p` as it is if `next` follows. -/
def needed (p : Place) (b : Char) (next : Option Char) : Bool :=
  match p with
  | .copied => true
  | .tag _ => true
  | .tagEnd => true
  | .tagBlank => false
  | .lineStart => false
  | .word w => next.all fun c => !Place.closes c || fuses w c
  | .wordBlank _ _ => false
  | .operator o => next.any (fuses o)
  | .operatorBlank _ _ => false
  | .dot => b == ' ' && next.any Place.startsNumber
  | .dotBlank => false
  | .number => b == ' ' && next.any fun c => c == '.' || !Place.closes c
  | .numberBlank => false

lemma blanksMeet_cons_blank {ok : Place → Char → Option Char → Bool} {p : Place} {b : Char}
    (hp : p ≠ .copied) (hb : isBlank b = true) (rest : List (Char × Region)) :
    blanksMeet ok p ((b, .code) :: rest) =
      (ok p b (rest.head?.map Prod.fst) && blanksMeet ok (p.blank b).2 rest) := by
  have hx : isCodeBlank (b, .code) = true := by simp [isCodeBlank, hb]
  simp [blanksMeet, hx, step_blank hp hb]

lemma blanksMeet_cons_of_not_isCodeBlank {ok : Place → Char → Option Char → Bool} {x : Char × Region}
    (hx : isCodeBlank x = false) (p : Place) (rest : List (Char × Region)) :
    blanksMeet ok p (x :: rest) = blanksMeet ok (p.step x.1 x.2).2 rest := by
  simp [blanksMeet, hx]

lemma blanksMeet_needed_cons {p : Place} {c : Char} {r : Region}
    (h : p = .copied ∨ isCodeBlank (c, r) = false) (rest : List (Char × Region)) :
    blanksMeet needed p ((c, r) :: rest) = blanksMeet needed (p.step c r).2 rest := by
  rcases h with rfl | h
  · simp [blanksMeet, needed]
  · exact blanksMeet_cons_of_not_isCodeBlank h p rest

def slack (p : Place) : Nat :=
  if isWaiting p then 1 else 0

lemma length_gap_le (p : Place) (c : Char) : (p.gap c).length ≤ slack p := by
  cases p with
  | wordBlank w b =>
    rw [gap_wordBlank]
    split_ifs <;> simp [slack, isWaiting]
  | operatorBlank o b =>
    rw [gap_operatorBlank]
    split_ifs <;> simp [slack, isWaiting]
  | dotBlank =>
    rw [gap_dotBlank]
    split_ifs <;> simp [slack, isWaiting]
  | numberBlank =>
    rw [gap_numberBlank]
    split_ifs <;> simp [slack, isWaiting]
  | _ => exact Nat.zero_le _

lemma step_writes {p : Place} {c : Char} {r : Region} (h : p = .copied ∨ isCodeBlank (c, r) = false) :
    (p.step c r).1 = p.gap c ++ [c] ∧ isWaiting (p.step c r).2 = false := by
  by_cases hp : p = .copied
  · subst hp
    rw [step_copied]
    refine ⟨rfl, ?_⟩
    dsimp only
    split_ifs
    · exact not_isWaiting_enter c
    · rfl
  · rw [step_ink hp (h.resolve_left hp)]
    refine ⟨rfl, ?_⟩
    dsimp only
    split_ifs
    · exact not_isWaiting_ink p c
    · rfl

lemma length_step_le (p : Place) (c : Char) (r : Region) :
    (p.step c r).1.length + slack (p.step c r).2 ≤ 1 + slack p := by
  by_cases h : p = .copied ∨ isCodeBlank (c, r) = false
  · obtain ⟨hout, hnext⟩ := step_writes h
    have hg := length_gap_le p c
    have hs : slack (p.step c r).2 = 0 := by simp [slack, hnext]
    rw [hout, hs, List.length_append, List.length_singleton]
    omega
  · obtain ⟨hp, hb⟩ := not_or.mp h
    obtain ⟨hc, rfl⟩ : isBlank c = true ∧ r = .code := by simpa [isCodeBlank] using hb
    rw [step_blank hp hc]
    cases p <;> simp [Place.blank, slack, isWaiting]

lemma length_squeeze_le (p : Place) (l : List (Char × Region)) :
    (squeeze p l).length ≤ l.length + slack p := by
  induction l generalizing p with
  | nil => cases p <;> simp [squeeze, Place.finish, slack, isWaiting]
  | cons x l ih =>
    obtain ⟨c, r⟩ := x
    have hstep := length_step_le p c r
    have hrest := ih (p.step c r).2
    rw [squeeze, List.length_append, List.length_cons]
    omega

lemma gap_blank_iff {q : Place} {b : Char} (hq : isWaiting q = false)
    (hw : isWaiting (q.blank b).2 = true) (c : Char) :
    (q.blank b).2.gap c = [b] ↔ needed q b (some c) = true := by
  cases q with
  | word w =>
    simp only [Place.blank, gap_wordBlank, needed, Option.all_some]
    cases Place.closes c <;> cases fuses w c <;> simp
  | operator o =>
    simp only [Place.blank, gap_operatorBlank, needed, Option.any_some]
    cases fuses o c <;> simp
  | dot =>
    simp only [Place.blank, gap_dotBlank, needed, Option.any_some]
    cases Place.startsNumber c <;> simp [@eq_comm _ ' ' b]
  | number =>
    simp only [Place.blank, gap_numberBlank, needed, Option.any_some]
    cases c == '.' || !Place.closes c <;> simp [@eq_comm _ ' ' b]
  | _ => simp_all [Place.blank, isWaiting]

lemma finish_blank_iff {q : Place} {b : Char} (hq : isWaiting q = false)
    (hw : isWaiting (q.blank b).2 = true) :
    (q.blank b).2.finish = [b] ↔ needed q b none = true := by
  cases q <;> simp_all [Place.blank, isWaiting, Place.finish, needed]

lemma blank_of_isWaiting {p : Place} (h : isWaiting p = true) (c : Char) :
    (p.blank c).1 = [] ∧ isWaiting (p.blank c).2 = true := by
  cases p <;> simp_all [Place.blank, isWaiting]

lemma needed_of_isWaiting {p : Place} (h : isWaiting p = true) (b : Char) (next : Option Char) :
    needed p b next = false := by
  cases p <;> simp_all [needed, isWaiting]

lemma ne_copied_of_isWaiting {p : Place} (h : isWaiting p = true) : p ≠ .copied := by
  rintro rfl
  simp [isWaiting] at h

lemma blank_cases {p : Place} (hp : p ≠ .copied) (hw : isWaiting p = false) (b : Char) :
    ((p.blank b).1 = [b] ∧ isWaiting (p.blank b).2 = false ∧ ∀ next, needed p b next = true) ∨
      ((p.blank b).1 = [] ∧ isWaiting (p.blank b).2 = false ∧ ∀ next, needed p b next = false) ∨
      ((p.blank b).1 = [] ∧ isWaiting (p.blank b).2 = true) := by
  cases p <;> simp_all [Place.blank, isWaiting, needed]

lemma squeeze_ne_of_length_lt {p : Place} {l : List (Char × Region)} {out : List Char}
    (h : l.length + slack p < out.length) : squeeze p l ≠ out := by
  rintro rfl
  have hle := length_squeeze_le p l
  omega

/-- Compaction from place `p` on leaves a text as it is exactly if its blanks are needed. So does
compaction from behind a blank `b` that is held back, if that blank is needed too. -/
lemma squeeze_eq_iff (l : List (Char × Region)) :
    (∀ p, isWaiting p = false → (squeeze p l = l.map Prod.fst ↔ blanksMeet needed p l = true)) ∧
      ∀ q b, isWaiting q = false → isWaiting (q.blank b).2 = true →
        (squeeze (q.blank b).2 l = b :: l.map Prod.fst ↔
          needed q b (l.head?.map Prod.fst) = true ∧ blanksMeet needed (q.blank b).2 l = true) := by
  induction l with
  | nil =>
    refine ⟨?_, ?_⟩
    · intro p hp
      cases p <;> simp_all [squeeze, Place.finish, blanksMeet, isWaiting]
    · intro q b hq hw
      simpa [squeeze, blanksMeet] using finish_blank_iff hq hw
  | cons x l ih =>
    obtain ⟨c, r⟩ := x
    obtain ⟨ih, ihHeld⟩ := ih
    refine ⟨?_, ?_⟩
    · intro p hw
      by_cases h : p = .copied ∨ isCodeBlank (c, r) = false
      · obtain ⟨hout, hnext⟩ := step_writes h
        rw [blanksMeet_needed_cons h, squeeze, hout, gap_of_not_waiting hw, List.nil_append,
          List.singleton_append, List.map_cons, List.cons_inj_right, ih _ hnext]
      · obtain ⟨hp, hb⟩ := not_or.mp h
        obtain ⟨hc, rfl⟩ : isBlank c = true ∧ r = .code := by simpa [isCodeBlank] using hb
        rw [blanksMeet_cons_blank hp hc, squeeze, step_blank hp hc]
        rcases blank_cases hp hw c with ⟨hout, hnext, hn⟩ | ⟨hout, hnext, hn⟩ | ⟨hout, hnext⟩
        · rw [hout, List.singleton_append, List.map_cons, List.cons_inj_right, ih _ hnext, hn,
            Bool.true_and]
        · rw [hout, List.nil_append, hn, Bool.false_and]
          refine iff_of_false (squeeze_ne_of_length_lt ?_) (by simp)
          simp [slack, hnext]
        · rw [hout, List.nil_append, List.map_cons, ihHeld p c hw hnext, Bool.and_eq_true]
    · intro q b hq hw
      have hp := ne_copied_of_isWaiting hw
      by_cases hb : isCodeBlank (c, r) = true
      · -- A second blank is dropped.
        obtain ⟨hc, rfl⟩ : isBlank c = true ∧ r = .code := by simpa [isCodeBlank] using hb
        obtain ⟨hout, hnext⟩ := blank_of_isWaiting hw c
        rw [blanksMeet_cons_blank hp hc, squeeze, step_blank hp hc, hout, List.nil_append,
          needed_of_isWaiting hw, Bool.false_and]
        refine iff_of_false (squeeze_ne_of_length_lt ?_) (by simp)
        simp [slack, hnext]
      · have h : (q.blank b).2 = .copied ∨ isCodeBlank (c, r) = false := .inr (by simpa using hb)
        obtain ⟨hout, hnext⟩ := step_writes h
        rw [blanksMeet_needed_cons h, squeeze, hout, List.map_cons, List.head?_cons, Option.map_some,
          ← gap_blank_iff hq hw, ← ih _ hnext]
        constructor
        · intro he
          have hlength := length_gap_le (q.blank b).2 c
          generalize (q.blank b).2.gap c = gap at he hlength ⊢
          cases gap with
          | nil => exact absurd (List.cons.inj he).2 (squeeze_ne_of_length_lt (by simp [slack, hnext]))
          | cons d gap =>
            obtain rfl : gap = [] := by simpa [slack, hw] using hlength
            simpa using he
        · rintro ⟨hg, hl⟩
          rw [hg, hl]
          rfl

/-- Compaction leaves a text as it is exactly if every blank of its code is needed. -/
theorem compact_eq_self_iff (text : List Char) :
    compact text = text ↔ blanksMeet needed .copied (label text) = true := by
  have h := (squeeze_eq_iff (label text)).1 .copied rfl
  rwa [label, label_map_fst] at h

end PhpSlim.Proofs
