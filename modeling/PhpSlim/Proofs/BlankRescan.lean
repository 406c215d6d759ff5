import PhpSlim.Blanks
import PhpSlim.Proofs.Reading

/-!
# Reading compacted text

`squeezeLabelled` is the compaction carried out on labelled text: what it keeps keeps its region and
the blanks it writes are blanks of code. The main result is that reading the compacted text from
scratch finds exactly these regions, so no blank that goes changes how anything else is read.
-/

namespace PhpSlim.Proofs
open PhpSlim.Text PhpSlim.Blanks

/-- A blank of code, the only thing that compaction removes or writes. -/
def isCodeBlank (x : Char × Region) : Bool :=
  isBlank x.1 && x.2 == .code

/-- Written characters with their regions: the last has region `r`, blanks of code precede it. -/
def withRegion (r : Region) (out : List Char) : List (Char × Region) :=
  out.dropLast.map (·, Region.code) ++ out.getLast?.toList.map (·, r)

/-- The compaction of labelled text from place `p` on, with the regions of what is written. -/
def squeezeLabelled (p : Place) : List (Char × Region) → List (Char × Region)
  | [] => p.finish.map (·, .code)
  | (c, r) :: rest => withRegion r (p.step c r).1 ++ squeezeLabelled (p.step c r).2 rest

@[simp] lemma withRegion_nil (r : Region) : withRegion r [] = [] := rfl

@[simp] lemma withRegion_append_singleton (r : Region) (gap : List Char) (c : Char) :
    withRegion r (gap ++ [c]) = gap.map (·, Region.code) ++ [(c, r)] := by
  simp [withRegion]

@[simp] lemma withRegion_singleton (r : Region) (c : Char) : withRegion r [c] = [(c, r)] := rfl

/-- The reading `s` of a text and the reading `s'` of what is written for it up to place `p`: they
agree but for the remembered character, and that differs only where it is idle on one side and, on
the other, idle or the operator that the place remembers. -/
def InStep (p : Place) (s s' : Scan) : Prop :=
  s'.region = s.region ∧ s'.escaped = s.escaped ∧
    match p with
    | .copied => s.region ≠ .code ∧ s'.prev = s.prev
    | .tag _ => s.region = .code ∧ s'.prev = s.prev
    | .tagEnd => s.region = .code ∧ s'.prev = s.prev
    | .operator o => s.region = .code ∧ s.prev = some o ∧ s'.prev = some o
    | .operatorBlank o b => s.region = .code ∧ isBlank b = true ∧ Idle s.prev ∧ s'.prev = some o
    | .wordBlank _ b => s.region = .code ∧ isBlank b = true ∧ Idle s.prev ∧ Idle s'.prev
    | _ => s.region = .code ∧ Idle s.prev ∧ Idle s'.prev

lemma InStep.region_eq_code {p : Place} {s s' : Scan} (h : InStep p s s') (hp : p ≠ .copied) :
    s.region = .code := by
  obtain ⟨-, -, h⟩ := h
  cases p <;> first | exact absurd rfl hp | exact h.1

lemma inStep_enter {s : Scan} {c : Char} {after : List Char} (h : s.region ≠ .code)
    (h₁ : (s.step c after).region = .code) :
    InStep (Place.enter c) (s.step c after) (s.step c after) := by
  unfold Place.enter
  split_ifs with hq hl
  · exact ⟨rfl, rfl, h₁, rfl⟩
  · have hi := enter_idle h h₁ (by simpa using hq)
    exact ⟨rfl, rfl, h₁, hi, hi⟩
  · have hi := enter_idle h h₁ (by simpa using hq)
    exact ⟨rfl, rfl, h₁, hi, hi⟩

lemma idle_of_isNumberChar {c : Char} (h : isNumberChar c = true) : Idle (some c) := by
  apply idle_some <;> rintro rfl <;> simp [isNumberChar] at h

lemma isNumberChar_of_startsNumber {c : Char} (h : Place.startsNumber c = true) :
    isNumberChar c = true := by
  simp only [Place.startsNumber, isNumberChar, Bool.or_eq_true, Char.isAlphanum] at h ⊢
  tauto

lemma inStep_ink {p : Place} {s : Scan} {c : Char} {after : List Char} (h : s.region = .code)
    (h₁ : (s.step c after).region = .code) :
    InStep (p.ink c) (s.step c after) (s.step c after) := by
  have hs := region_step_eq_code h h₁
  have hprev : (s.step c after).prev = some c := by rw [hs]
  unfold Place.ink
  split
  · exact ⟨rfl, rfl, h₁, rfl⟩
  · exact ⟨rfl, rfl, h₁, rfl⟩
  · split_ifs with hn hl hd ho
    · have hi : Idle (some c) := by
        simp only [Bool.or_eq_true, Bool.and_eq_true] at hn
        rcases hn with hn | hn
        · exact idle_of_isNumberChar (isNumberChar_of_startsNumber hn.2)
        · exact idle_of_isNumberChar hn.2
      exact ⟨rfl, rfl, h₁, hprev ▸ hi, hprev ▸ hi⟩
    · have hi := idle_of_isLineBreak hl
      exact ⟨rfl, rfl, h₁, hprev ▸ hi, hprev ▸ hi⟩
    · have hi : Idle (some c) := by
        simp only [Bool.and_eq_true, beq_iff_eq] at hd
        rw [hd.1]
        exact idle_some (by decide) (by decide)
      exact ⟨rfl, rfl, h₁, hprev ▸ hi, hprev ▸ hi⟩
    · exact ⟨rfl, rfl, h₁, hprev, hprev⟩
    · have hi := idle_of_not_isOperator (Bool.not_eq_true _ ▸ ho)
      exact ⟨rfl, rfl, h₁, hprev ▸ hi, hprev ▸ hi⟩

lemma inStep_blank {p : Place} {s s' : Scan} {c : Char} (h : InStep p s s') (hp : p ≠ .copied)
    (hc : isBlank c = true) (after : List Char) :
    ((p.blank c).1 = [] ∧ InStep (p.blank c).2 (s.step c after) s') ∨
      ((p.blank c).1 = [c] ∧ InStep (p.blank c).2 (s.step c after) (s.step c after)) := by
  have hcode := h.region_eq_code hp
  have hi := idle_of_isBlank hc
  rw [step_of_isBlank hcode hc]
  obtain ⟨hr, he, h⟩ := h
  cases p with
  | copied => exact absurd rfl hp
  | tag left => exact .inr ⟨rfl, rfl, rfl, hcode, rfl⟩
  | tagEnd => exact .inr ⟨rfl, rfl, rfl, hcode, hi, hi⟩
  | tagBlank => exact .inl ⟨rfl, hr, he, hcode, hi, h.2.2⟩
  | lineStart => exact .inl ⟨rfl, hr, he, hcode, hi, h.2.2⟩
  | word w => exact .inl ⟨rfl, hr, he, hcode, hc, hi, h.2.2⟩
  | wordBlank w b => exact .inl ⟨rfl, hr, he, hcode, h.2.1, hi, h.2.2.2⟩
  | operator o => exact .inl ⟨rfl, hr, he, hcode, hc, hi, h.2.2⟩
  | operatorBlank o b => exact .inl ⟨rfl, hr, he, hcode, hc, hi, h.2.2.2⟩
  | dot => exact .inl ⟨rfl, hr, he, hcode, hi, h.2.2⟩
  | dotBlank => exact .inl ⟨rfl, hr, he, hcode, hi, h.2.2⟩
  | number => exact .inl ⟨rfl, hr, he, hcode, hi, h.2.2⟩
  | numberBlank => exact .inl ⟨rfl, hr, he, hcode, hi, h.2.2⟩

lemma step_copied (c : Char) (r : Region) :
    Place.copied.step c r = ([c], if r = .code then Place.enter c else .copied) := by
  cases r <;> rfl

lemma step_blank {p : Place} {c : Char} (hp : p ≠ .copied) (hc : isBlank c = true) :
    p.step c .code = p.blank c := by
  cases p <;> first | exact absurd rfl hp | simp [Place.step, hc]

lemma step_ink {p : Place} {c : Char} {r : Region} (hp : p ≠ .copied)
    (hc : isCodeBlank (c, r) = false) :
    p.step c r = (p.gap c ++ [c], if r = .code then p.ink c else .copied) := by
  cases p <;> first | exact absurd rfl hp | (cases r <;> simp_all [Place.step, isCodeBlank])

lemma isCodeBlank_of_not_isBlank {c : Char} (hc : isBlank c = false) (r : Region) :
    isCodeBlank (c, r) = false := by
  simp [isCodeBlank, hc]

lemma head_squeeze_copied (s : Scan) (rest : List Char) :
    (squeeze .copied (s.label rest)).head? = rest.head? := by
  cases rest with
  | nil => rfl
  | cons c rest => simp [Scan.label, squeeze, step_copied]

lemma gap_wordBlank (w b c : Char) :
    (Place.wordBlank w b).gap c = if Place.closes c && !fuses w c then [] else [b] := rfl

lemma gap_operatorBlank (o b c : Char) :
    (Place.operatorBlank o b).gap c = if fuses o c then [b] else [] := rfl

lemma gap_dotBlank (c : Char) :
    Place.dotBlank.gap c = if Place.startsNumber c then [' '] else [] := rfl

lemma gap_numberBlank (c : Char) :
    Place.numberBlank.gap c = if c == '.' || !Place.closes c then [' '] else [] := rfl

lemma gap_ink (p : Place) (c d : Char) : (p.ink c).gap d = [] := by
  unfold Place.ink
  split
  · rfl
  · rfl
  · split_ifs <;> rfl

lemma gap_enter (c d : Char) : (Place.enter c).gap d = [] := by
  unfold Place.enter
  split_ifs <;> rfl

lemma squeeze_cons_of_gap_eq_nil {p : Place} {c : Char} (hc : isBlank c = false)
    (hg : ∀ d, p.gap d = []) (s : Scan) (rest : List Char) :
    ∃ q : Place, (∀ d, q.gap d = []) ∧
      squeeze p (s.label (c :: rest)) = c :: squeeze q ((s.step c rest).label rest) := by
  by_cases hp : p = .copied
  · refine ⟨_, ?_, by simp [hp, Scan.label, squeeze, step_copied]; rfl⟩
    intro d
    split_ifs
    · exact gap_enter c d
    · rfl
  · refine ⟨_, ?_, by simp [Scan.label, squeeze, step_ink hp (isCodeBlank_of_not_isBlank hc _), hg]; rfl⟩
    intro d
    split_ifs
    · exact gap_ink p c d
    · rfl

lemma prefix_squeeze_of_gap_eq_nil {w : List Char} (hw : ∀ c ∈ w, isBlank c = false) {p : Place}
    (hg : ∀ d, p.gap d = []) {s : Scan} {rest : List Char} (h : w <+: rest) :
    w <+: squeeze p (s.label rest) := by
  induction w generalizing p s rest with
  | nil => exact List.nil_prefix
  | cons c w ih =>
    obtain ⟨rest, rfl⟩ := h
    obtain ⟨q, hq, he⟩ := squeeze_cons_of_gap_eq_nil (hw c (by simp)) hg s (w ++ rest)
    rw [List.cons_append, he]
    exact List.cons_prefix_cons.mpr
      ⟨rfl, ih (fun d hd => hw d (by simp [hd])) hq (List.prefix_append w rest)⟩

lemma head_squeeze_hash {p : Place} {s : Scan} {rest : List Char} (h : s.region = .code)
    (hp : p ≠ .copied) :
    let s₁ := s.step '#' rest
    (squeeze (p.step '#' s₁.region).2 (s₁.label rest)).head? = some '[' ↔ rest.head? = some '[' := by
  dsimp only
  rw [step_ink hp (isCodeBlank_of_not_isBlank rfl _)]
  have ht := turn_step s '#' rest
  generalize s.step '#' rest = s₁ at ht
  by_cases h₁ : s₁.region = .code
  · have ha : rest.head? = some '[' := by
      cases ht <;> simp_all
    obtain ⟨rest, rfl⟩ := List.head?_eq_some_iff.mp ha
    obtain ⟨q, -, he⟩ := squeeze_cons_of_gap_eq_nil (c := '[') rfl (gap_ink p '#') s₁ rest
    simp [h₁, he]
  · rw [if_neg h₁, head_squeeze_copied]

lemma prefix_squeeze_outside {s : Scan} (h : s.region = .outside) {w : List Char} (hw : '?' ∉ w)
    (rest : List Char) : w <+: squeeze .copied (s.label rest) ↔ w <+: rest := by
  induction w generalizing s rest with
  | nil => simp
  | cons a w ih =>
    cases rest with
    | nil => simp [Scan.label, squeeze, Place.finish]
    | cons c rest =>
      simp only [Scan.label, squeeze, step_copied, List.singleton_append, List.cons_prefix_cons]
      refine and_congr_right ?_
      rintro rfl
      have h₁ := region_step_outside h (List.ne_of_not_mem_cons hw).symm rest
      rw [h₁]
      exact ih h₁ (by simp_all) rest

lemma prefix_squeeze_php {s : Scan} {rest : List Char} (h : s.region = .outside) :
    let s₁ := s.step '?' rest
    ['p', 'h', 'p'] <+: squeeze (Place.copied.step '?' s₁.region).2 (s₁.label rest) ↔
      ['p', 'h', 'p'] <+: rest := by
  dsimp only
  rw [step_copied]
  have hs : (s.step '?' rest).region = .code ∧ ['p', 'h', 'p'] <+: rest ∨
      (s.step '?' rest).region = .outside := by
    have ht := turn_step s '?' rest
    generalize s.step '?' rest = s₁ at ht
    cases ht <;> simp_all
  rcases hs with ⟨h₁, ha⟩ | h₁
  · rw [if_pos h₁]
    exact iff_of_true (prefix_squeeze_of_gap_eq_nil (by simp [isBlank]) (gap_enter '?') ha) ha
  · rw [if_neg (by simp [h₁])]
    exact prefix_squeeze_outside h₁ (by decide) rest

lemma InStep.gap {p : Place} {s s' : Scan} (h : InStep p s s') (c : Char) :
    (p.gap c = [] ∧
      (s'.prev = s.prev ∨ (joins s.prev c = false ∧ joins s'.prev c = false))) ∨
    ∃ b, isBlank b = true ∧ p.gap c = [b] ∧ Idle s.prev := by
  obtain ⟨-, -, h⟩ := h
  cases p with
  | copied => exact .inl ⟨rfl, .inl h.2⟩
  | tag left => exact .inl ⟨rfl, .inl h.2⟩
  | tagEnd => exact .inl ⟨rfl, .inl h.2⟩
  | operator o => exact .inl ⟨rfl, .inl (h.2.2.trans h.2.1.symm)⟩
  | wordBlank w b =>
    rw [gap_wordBlank]
    split_ifs
    · exact .inl ⟨rfl, .inr ⟨h.2.2.1.joins_eq_false c, h.2.2.2.joins_eq_false c⟩⟩
    · exact .inr ⟨b, h.2.1, rfl, h.2.2.1⟩
  | operatorBlank o b =>
    rw [gap_operatorBlank]
    split_ifs with hf
    · exact .inr ⟨b, h.2.1, rfl, h.2.2.1⟩
    · have hj := joins_of_not_fuses (Bool.not_eq_true _ ▸ hf)
      exact .inl ⟨rfl, .inr ⟨h.2.2.1.joins_eq_false c, h.2.2.2 ▸ hj⟩⟩
  | dotBlank =>
    rw [gap_dotBlank]
    split_ifs
    · exact .inr ⟨' ', rfl, rfl, h.2.1⟩
    · exact .inl ⟨rfl, .inr ⟨h.2.1.joins_eq_false c, h.2.2.joins_eq_false c⟩⟩
  | numberBlank =>
    rw [gap_numberBlank]
    split_ifs
    · exact .inr ⟨' ', rfl, rfl, h.2.1⟩
    · exact .inl ⟨rfl, .inr ⟨h.2.1.joins_eq_false c, h.2.2.joins_eq_false c⟩⟩
  | _ => exact .inl ⟨rfl, .inr ⟨h.2.1.joins_eq_false c, h.2.2.joins_eq_false c⟩⟩

lemma label_gap_append {p : Place} {s s' : Scan} {c : Char} (h : InStep p s s') (hp : p ≠ .copied)
    (hc : isBlank c = false) (rest : List Char) :
    let s₁ := s.step c rest
    let out := squeeze (p.step c s₁.region).2 (s₁.label rest)
    s'.label (p.gap c ++ c :: out) = (p.gap c).map (·, Region.code) ++ (c, s₁.region) :: s₁.label out := by
  intro s₁ out
  have hcode := h.region_eq_code hp
  obtain ⟨hr, he, -⟩ := id h
  have hash : s.region = .code → c = '#' → (out.head? = some '[' ↔ rest.head? = some '[') := by
    rintro - rfl
    exact head_squeeze_hash hcode hp
  have tag : s.region = .outside → c = '?' → (['p', 'h', 'p'] <+: out ↔ ['p', 'h', 'p'] <+: rest) := by
    simp [hcode]
  rcases h.gap c with ⟨hg, hprev⟩ | ⟨b, hb, hg, hidle⟩
  · have hstep : s'.step c out = s₁ := step_congr hr he (hprev.imp_right fun h => ⟨hcode, h⟩) hash tag
    rw [hg, List.nil_append, Scan.label, hstep, List.map_nil, List.nil_append]
  · have hblank := step_of_isBlank (hr.trans hcode) hb (c :: out)
    have hstep : (s'.step b (c :: out)).step c out = s₁ := by
      rw [hblank]
      have hj := (idle_of_isBlank hb).joins_eq_false c
      exact step_congr hr he (.inr ⟨hcode, hidle.joins_eq_false c, hj⟩) hash tag
    have hregion : (s'.step b (c :: out)).region = .code := by rw [hblank]; exact hr.trans hcode
    simp only [hg, List.singleton_append, Scan.label, hstep, hregion, List.map_cons, List.map_nil]

lemma label_copied {s s' : Scan} (h : InStep .copied s s') (c : Char) (rest : List Char) :
    let s₁ := s.step c rest
    let out := squeeze (Place.copied.step c s₁.region).2 (s₁.label rest)
    s'.label (c :: out) = (c, s₁.region) :: s₁.label out := by
  intro s₁ out
  obtain ⟨hr, he, hcode, hprev⟩ := h
  have tag : s.region = .outside → c = '?' → (['p', 'h', 'p'] <+: out ↔ ['p', 'h', 'p'] <+: rest) := by
    rintro hout rfl
    exact prefix_squeeze_php hout
  have hstep : s'.step c out = s₁ := step_congr hr he (.inl hprev) (fun hc => absurd hc hcode) tag
  rw [Scan.label, hstep]

/-- Reading what is written from place `p` on finds every character in its old region. -/
theorem label_squeeze {p : Place} {s s' : Scan} (h : InStep p s s') (rest : List Char) :
    s'.label (squeeze p (s.label rest)) = squeezeLabelled p (s.label rest) := by
  induction rest generalizing p s s' with
  | nil =>
    obtain ⟨hr, -, h⟩ := h
    cases p with
    | wordBlank w b =>
      simp [Scan.label, squeeze, squeezeLabelled, Place.finish,
        step_of_isBlank (hr.trans h.1) h.2.1, hr.trans h.1]
    | _ => rfl
  | cons c rest ih =>
    simp only [Scan.label, squeeze, squeezeLabelled]
    by_cases hp : p = .copied
    · subst hp
      have hnext : InStep (Place.copied.step c (s.step c rest).region).2 (s.step c rest)
          (s.step c rest) := by
        rw [step_copied]
        dsimp only
        split_ifs with h₁
        · exact inStep_enter h.2.2.1 h₁
        · exact ⟨rfl, rfl, h₁, rfl⟩
      have hlabel := label_copied h c rest
      dsimp only at hlabel
      rw [ih hnext] at hlabel
      simpa [step_copied] using hlabel
    have hcode := h.region_eq_code hp
    by_cases hb : isBlank c = true
    · have h₁ : (s.step c rest).region = .code := by rw [step_of_isBlank hcode hb]; exact hcode
      rw [h₁, step_blank hp hb]
      rcases inStep_blank h hp hb rest with ⟨hw, hnext⟩ | ⟨hw, hnext⟩
      · rw [hw, withRegion_nil, List.nil_append, List.nil_append]
        exact ih hnext
      · have hstep (out : List Char) : s'.step c out = s.step c rest :=
          step_congr h.1 h.2.1 (.inr ⟨hcode, joins_of_isBlank hb _, joins_of_isBlank hb _⟩)
            (by rintro - rfl; simp [isBlank] at hb) (by simp [hcode])
        rw [hw, withRegion_singleton, List.singleton_append, List.singleton_append, Scan.label, hstep,
          h₁, ih hnext]
    · rw [Bool.not_eq_true] at hb
      have hnext : InStep (p.step c (s.step c rest).region).2 (s.step c rest) (s.step c rest) := by
        rw [step_ink hp (isCodeBlank_of_not_isBlank hb _)]
        dsimp only
        split_ifs with h₁
        · exact inStep_ink hcode h₁
        · exact ⟨rfl, rfl, h₁, rfl⟩
      have hlabel := label_gap_append h hp hb rest
      dsimp only at hlabel
      rw [ih hnext] at hlabel
      simpa [step_ink hp (isCodeBlank_of_not_isBlank hb _)] using hlabel

/-- Reading compacted text from scratch finds the regions that the compaction left. -/
theorem label_compact (text : List Char) :
    label (compact text) = squeezeLabelled .copied (label text) := by
  have h : InStep .copied {} {} := ⟨rfl, rfl, by simp, rfl⟩
  exact label_squeeze h text

/-- What a place has held back is a blank. -/
def HoldsBlanks : Place → Prop
  | .wordBlank _ b => isBlank b = true
  | .operatorBlank _ b => isBlank b = true
  | _ => True

lemma HoldsBlanks.gap {p : Place} (h : HoldsBlanks p) (c : Char) : ∀ b ∈ p.gap c, isBlank b = true := by
  intro b hb
  cases p with
  | wordBlank w d =>
    rw [gap_wordBlank] at hb
    split_ifs at hb
    · simp at hb
    · exact List.mem_singleton.mp hb ▸ h
  | operatorBlank o d =>
    rw [gap_operatorBlank] at hb
    split_ifs at hb
    · exact List.mem_singleton.mp hb ▸ h
    · simp at hb
  | dotBlank =>
    rw [gap_dotBlank] at hb
    split_ifs at hb
    · exact List.mem_singleton.mp hb ▸ rfl
    · simp at hb
  | numberBlank =>
    rw [gap_numberBlank] at hb
    split_ifs at hb
    · exact List.mem_singleton.mp hb ▸ rfl
    · simp at hb
  | _ => exact absurd hb List.not_mem_nil

lemma HoldsBlanks.finish {p : Place} (h : HoldsBlanks p) : ∀ b ∈ p.finish, isBlank b = true := by
  intro b hb
  cases p <;> simp_all [HoldsBlanks, Place.finish]

lemma HoldsBlanks.blank {p : Place} (h : HoldsBlanks p) {c : Char} (hc : isBlank c = true) :
    HoldsBlanks (p.blank c).2 := by
  cases p <;> first | exact h | exact hc

lemma holdsBlanks_ink (p : Place) (c : Char) : HoldsBlanks (p.ink c) := by
  unfold Place.ink
  split
  · trivial
  · trivial
  · split_ifs <;> trivial

lemma holdsBlanks_enter (c : Char) : HoldsBlanks (Place.enter c) := by
  unfold Place.enter
  split_ifs <;> trivial

lemma blank_writes (p : Place) (c : Char) : (p.blank c).1 = [] ∨ (p.blank c).1 = [c] := by
  cases p <;> simp [Place.blank]

lemma HoldsBlanks.step {p : Place} (h : HoldsBlanks p) (c : Char) (r : Region) :
    HoldsBlanks (p.step c r).2 ∧
      (withRegion r (p.step c r).1).filter (!isCodeBlank ·) = [(c, r)].filter (!isCodeBlank ·) := by
  by_cases hp : p = .copied
  · rw [hp, step_copied]
    refine ⟨?_, rfl⟩
    dsimp only
    split_ifs
    · exact holdsBlanks_enter c
    · trivial
  by_cases hb : isCodeBlank (c, r) = true
  · obtain ⟨hc, rfl⟩ : isBlank c = true ∧ r = .code := by simpa [isCodeBlank] using hb
    rw [step_blank hp hc]
    refine ⟨h.blank hc, ?_⟩
    rcases blank_writes p c with hw | hw <;> simp [hw, hb]
  · rw [Bool.not_eq_true] at hb
    rw [step_ink hp hb, withRegion_append_singleton, List.filter_append]
    have hg : ((p.gap c).map (·, Region.code)).filter (!isCodeBlank ·) = [] := by
      simp only [List.filter_eq_nil_iff, List.mem_map]
      rintro x ⟨b, hb, rfl⟩
      simp [isCodeBlank, h.gap c b hb]
    refine ⟨?_, by rw [hg, List.nil_append]⟩
    dsimp only
    split_ifs
    · exact holdsBlanks_ink p c
    · trivial

lemma filter_squeezeLabelled {p : Place} (h : HoldsBlanks p) (l : List (Char × Region)) :
    (squeezeLabelled p l).filter (!isCodeBlank ·) = l.filter (!isCodeBlank ·) := by
  induction l generalizing p with
  | nil =>
    simp only [squeezeLabelled, List.filter_nil, List.filter_eq_nil_iff, List.mem_map]
    rintro x ⟨b, hb, rfl⟩
    simp [isCodeBlank, h.finish b hb]
  | cons x l ih =>
    obtain ⟨c, r⟩ := x
    obtain ⟨hnext, hw⟩ := h.step c r
    rw [squeezeLabelled, List.filter_append, hw, ih hnext, ← List.filter_append, List.singleton_append]

/-- Compaction touches blanks of code only, and changes how no other character is read: without its
blanks of code, the compacted text read from scratch is the text, character by character and region
by region. -/
theorem compact_touches_only_code_blanks (text : List Char) :
    (label text).filter (!isCodeBlank ·) = (label (compact text)).filter (!isCodeBlank ·) := by
  have h : HoldsBlanks .copied := trivial
  rw [label_compact, filter_squeezeLabelled h]

end PhpSlim.Proofs
