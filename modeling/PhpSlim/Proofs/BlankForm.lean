import PhpSlim.Proofs.CompactTwice

/-!
# The blanks of compacted text

No blank of code that compaction leaves stands beside another blank or a line break, and none stands
beside an operator that would not fuse with what is on the other side of it. Dots, the end of a
comment and the blank that belongs to an opening tag are excepted.
-/

namespace PhpSlim.Proofs
open PhpSlim.Text PhpSlim.Blanks

/-- An opening tag as it is read behind text outside PHP. -/
def openTag : List (Char × Region) :=
  [('<', .outside), ('?', .code), ('p', .code), ('h', .code), ('p', .code)]

/-- Whether labelled text ends with the slash of a `*/` that closes a comment. -/
def EndsBlock (front : List (Char × Region)) : Prop :=
  ∃ c, [(c, .blockComment), ('/', .code)] <:+ front

/-- The last character of labelled text is `a`. -/
def EndsWith (front : List (Char × Region)) (a : Char) : Prop :=
  ∃ r, front.getLast? = some (a, r)

/-- A blank stands between the character `a` and what follows, `next`, for a reason; `closed` says
that `a` closes a block comment. -/
structure Justified (a : Char) (closed : Prop) (next : Option Char) : Prop where
  before : isBlank a = false ∧ isLineBreak a = false
  after : ∀ c, next = some c → isBlank c = false ∧ isLineBreak c = false
  beforeOperator : ∀ c, next = some c → isOperator c = true → c ≠ '.' → fuses a c = true
  behindOperator : isOperator a = true → a ≠ '.' → ¬closed → ∃ c, next = some c ∧ fuses a c = true

/-- Whether every blank of code in labelled text that stands behind `front` belongs to an opening
tag or is justified. -/
def Tidy (front : List (Char × Region)) : List (Char × Region) → Prop
  | [] => True
  | x :: rest =>
    (isCodeBlank x = true → openTag <:+ front ∨ ∃ a, EndsWith front a ∧
      Justified a (EndsBlock front) (rest.head?.map Prod.fst)) ∧ Tidy (front ++ [x]) rest

lemma tidy_cons_of_not_isCodeBlank {front rest : List (Char × Region)} {x : Char × Region}
    (hx : isCodeBlank x = false) (h : Tidy (front ++ [x]) rest) : Tidy front (x :: rest) :=
  ⟨by simp [hx], h⟩

lemma Tidy.at {front mid behind : List (Char × Region)} {x : Char × Region}
    (h : Tidy front (mid ++ x :: behind)) : Tidy (front ++ mid) (x :: behind) := by
  induction mid generalizing front with
  | nil => rwa [List.append_nil]
  | cons y mid ih =>
    have hrest := ih h.2
    rwa [List.append_assoc, List.singleton_append] at hrest

lemma ink_of_fuses {a c : Char} (h : fuses a c = true) :
    isBlank c = false ∧ isLineBreak c = false := by
  constructor
  · by_contra hc
    simp only [isBlank, Bool.not_eq_false, Bool.or_eq_true, beq_iff_eq] at hc
    rcases hc with rfl | rfl <;> simp [fuses, fusedPairs] at h
  · by_contra hc
    simp only [isLineBreak, Bool.not_eq_false, Bool.or_eq_true, beq_iff_eq] at hc
    rcases hc with rfl | rfl <;> simp [fuses, fusedPairs] at h

lemma ink_of_isOperator {c : Char} (h : isOperator c = true) :
    isBlank c = false ∧ isLineBreak c = false := by
  have hall : operators.all (fun o => !isBlank o && !isLineBreak o) = true := by decide
  simpa using List.all_eq_true.mp hall c (by simpa [isOperator] using h)

lemma ink_of_isNumberChar {c : Char} (h : isNumberChar c = true) :
    isBlank c = false ∧ isLineBreak c = false := by
  refine ⟨?_, not_isLineBreak_of_isNumberChar h⟩
  by_contra hc
  simp only [isBlank, Bool.not_eq_false, Bool.or_eq_true, beq_iff_eq] at hc
  rcases hc with rfl | rfl <;> simp [isNumberChar] at h

/-- The last character written is `w`: no blank, no line break, and no operator unless it closes a
block comment. -/
def EndsWord (front : List (Char × Region)) (w : Char) : Prop :=
  EndsWith front w ∧ isBlank w = false ∧ isLineBreak w = false ∧
    (isOperator w = true → EndsBlock front)

/-- The last characters written begin an opening tag, and `left` letters of it are still to come. -/
def EndsInTag (front : List (Char × Region)) (rest : List Char) (left : Nat) : Prop :=
  ∃ done todo : List Char, ['p', 'h', 'p'] = done ++ todo ∧ todo.length = left ∧ todo ≠ [] ∧
    todo <+: rest ∧ [('<', Region.outside), ('?', .code)] ++ done.map (·, .code) <:+ front

/-- What has been written when compaction stands at a place, with `rest` to read and the scan `s` of
what was read. -/
def Stands (s : Scan) (front : List (Char × Region)) (rest : List Char) : Place → Prop
  | .copied =>
    (s.region = .outside ∧ s.prev = none) ∨
      ∃ c, front.getLast? = some (c, s.region) ∧ (s.region = .outside → s.prev = some c)
  | .tag left => EndsInTag front rest left
  | .tagEnd => openTag <:+ front
  | .tagBlank => True
  | .lineStart => True
  | .word w => EndsWord front w
  | .wordBlank w _ => EndsWord front w
  | .operator o => EndsWith front o ∧ isOperator o = true
  | .operatorBlank o _ => EndsWith front o ∧ isOperator o = true
  | .dot => EndsWith front '.'
  | .dotBlank => EndsWith front '.'
  | .number => ∃ a, EndsWith front a ∧ isNumberChar a = true
  | .numberBlank => ∃ a, EndsWith front a ∧ isNumberChar a = true

lemma endsWith_concat (front : List (Char × Region)) (c : Char) (r : Region) :
    EndsWith (front ++ [(c, r)]) c :=
  ⟨r, by simp⟩

lemma justified_gap {p : Place} {s : Scan} {front : List (Char × Region)} {rest : List Char}
    {b c : Char} (h : Stands s front rest p) (hc : isBlank c = false) (hg : p.gap c = [b]) :
    ∃ a, EndsWith front a ∧ Justified a (EndsBlock front) (some c) := by
  cases p with
  | wordBlank w d =>
    obtain ⟨hw, hblank, hbreak, hop⟩ := h
    rw [gap_wordBlank] at hg
    split_ifs at hg with hkeep
    have hneeds : Place.closes c = true → fuses w c = true := by
      intro hcloses
      simpa [hcloses] using hkeep
    refine ⟨w, hw, ⟨hblank, hbreak⟩, ?_, ?_, ?_⟩
    · rintro d ⟨⟩
      refine ⟨hc, ?_⟩
      by_contra hl
      have hl : isLineBreak c = true := by simpa using hl
      have hf := hneeds (by simp [Place.closes, hl])
      simp [(ink_of_fuses hf).2] at hl
    · rintro d ⟨⟩ ho -
      exact hneeds (by simp [Place.closes, ho])
    · intro ho _ hnot
      exact absurd (hop ho) hnot
  | operatorBlank o d =>
    obtain ⟨ho, hop⟩ := h
    rw [gap_operatorBlank] at hg
    split_ifs at hg with hf
    refine ⟨o, ho, ink_of_isOperator hop, ?_, ?_, ?_⟩
    · rintro d ⟨⟩
      exact ink_of_fuses hf
    · rintro d ⟨⟩ - -
      exact hf
    · intro _ _ _
      exact ⟨c, rfl, hf⟩
  | dotBlank =>
    rw [gap_dotBlank] at hg
    split_ifs at hg with hstart
    have hnumber := isNumberChar_of_startsNumber hstart
    refine ⟨'.', h, ⟨rfl, rfl⟩, ?_, ?_, ?_⟩
    · rintro d ⟨⟩
      exact ink_of_isNumberChar hnumber
    · rintro d ⟨⟩ ho hdot
      exact absurd (eq_dot_of_isOperator hnumber ho) hdot
    · intro _ hdot _
      exact absurd rfl hdot
  | numberBlank =>
    obtain ⟨a, ha, hnumber⟩ := h
    rw [gap_numberBlank] at hg
    split_ifs at hg with hkeep
    have hdot : Place.closes c = true → c = '.' := by
      intro hcloses
      simpa [hcloses] using hkeep
    refine ⟨a, ha, ink_of_isNumberChar hnumber, ?_, ?_, ?_⟩
    · rintro d ⟨⟩
      refine ⟨hc, ?_⟩
      by_contra hl
      have hl : isLineBreak c = true := by simpa using hl
      obtain rfl := hdot (by simp [Place.closes, hl])
      simp [isLineBreak] at hl
    · rintro d ⟨⟩ ho hne
      exact absurd (hdot (by simp [Place.closes, ho])) hne
    · intro ho hne _
      exact absurd (eq_dot_of_isOperator hnumber ho) hne
  | _ => cases hg

lemma justified_finish {p : Place} {s : Scan} {front : List (Char × Region)} {b : Char}
    (h : Stands s front [] p) (hf : p.finish = [b]) :
    ∃ a, EndsWith front a ∧ Justified a (EndsBlock front) none := by
  cases p with
  | wordBlank w d =>
    obtain ⟨hw, hblank, hbreak, hop⟩ := h
    exact ⟨w, hw, ⟨hblank, hbreak⟩, by simp, by simp, fun ho _ hnot => absurd (hop ho) hnot⟩
  | _ => cases hf

lemma prev_step_outside {s : Scan} {c : Char} {after : List Char}
    (h : (s.step c after).region = .outside) : (s.step c after).prev = some c := by
  have ht := turn_step s c after
  generalize s.step c after = s₁ at ht h
  cases ht <;> simp_all

lemma stands_copied {s : Scan} {c : Char} {rest : List Char} (front : List (Char × Region)) :
    Stands (s.step c rest) (front ++ [(c, (s.step c rest).region)]) rest .copied :=
  .inr ⟨c, by simp, prev_step_outside⟩

lemma stands_enter {s : Scan} {front : List (Char × Region)} {c : Char} {rest : List Char}
    (h : Stands s front (c :: rest) .copied) (hs : s.region ≠ .code)
    (h₁ : (s.step c rest).region = .code) :
    isBlank c = false ∧
      Stands (s.step c rest) (front ++ [(c, .code)]) rest (Place.enter c) := by
  have ht := turn_step s c rest
  generalize s.step c rest = s₁ at ht h₁
  cases ht with
  | openTag hout hc hp ha =>
    subst hc
    refine ⟨rfl, [], ['p', 'h', 'p'], rfl, rfl, by simp, ha, ?_⟩
    rcases h with ⟨-, hnone⟩ | ⟨d, hlast, hprev⟩
    · simp [hnone] at hp
    · obtain rfl : d = '<' := by simpa [hp] using (hprev hout).symm
      obtain ⟨init, rfl⟩ := List.getLast?_eq_some_iff.mp hlast
      exact ⟨init, by simp [hout]⟩
  | endLine hr hc =>
    subst hc
    exact ⟨rfl, trivial⟩
  | endBlock hr hc =>
    subst hc
    refine ⟨rfl, endsWith_concat front '/' .code, rfl, rfl, fun _ => ?_⟩
    rcases h with ⟨hout, -⟩ | ⟨d, hlast, -⟩
    · simp [hr] at hout
    · obtain ⟨init, rfl⟩ := List.getLast?_eq_some_iff.mp hlast
      exact ⟨d, init, by simp [hr]⟩
  | closeQuote hr hc =>
    rcases hc with rfl | rfl
    · exact ⟨rfl, endsWith_concat front _ .code, rfl, rfl, by simp [isOperator, operators]⟩
    · exact ⟨rfl, endsWith_concat front _ .code, rfl, rfl, by simp [isOperator, operators]⟩
  | _ => simp_all

lemma stands_tag {s : Scan} {front : List (Char × Region)} {left : Nat} {c : Char}
    {rest : List Char} (h : EndsInTag front (c :: rest) left) :
    (c = 'p' ∨ c = 'h') ∧ Stands s (front ++ [(c, .code)]) rest ((Place.tag left).ink c) := by
  obtain ⟨done, todo, hphp, hlen, hne, hread, init, hfront⟩ := h
  obtain ⟨d, todo, rfl⟩ := List.exists_cons_of_ne_nil hne
  obtain ⟨rfl, hrest⟩ : d = c ∧ todo <+: rest := List.cons_prefix_cons.mp hread
  have hletter : d = 'p' ∨ d = 'h' := by
    have hmem : d ∈ ['p', 'h', 'p'] := by simp [hphp]
    simp only [List.mem_cons, List.not_mem_nil, or_false] at hmem
    tauto
  refine ⟨hletter, ?_⟩
  have hwritten : init ++ ([('<', Region.outside), ('?', .code)] ++ (done ++ [d]).map (·, .code)) =
      front ++ [(d, .code)] := by
    rw [← hfront]
    simp
  cases todo with
  | nil =>
    obtain rfl : left = 1 := hlen.symm
    refine ⟨init, ?_⟩
    rw [← hwritten, ← hphp]
    rfl
  | cons e todo =>
    obtain rfl : left = todo.length + 2 := hlen.symm
    exact ⟨done ++ [d], e :: todo, by simp [hphp], rfl, by simp, hrest, init, hwritten⟩

lemma stands_ink {p : Place} {s s' : Scan} {front : List (Char × Region)} {c : Char}
    {rest : List Char} (h : Stands s front (c :: rest) p) (hp : p ≠ .copied)
    (hc : isBlank c = false) :
    Stands s' (front ++ ((p.gap c).map (·, Region.code) ++ [(c, .code)])) rest (p.ink c) := by
  by_cases htag : ∃ left, p = .tag left
  · obtain ⟨left, rfl⟩ := htag
    exact (stands_tag h).2
  rw [← List.append_assoc]
  have hend := endsWith_concat (front ++ (p.gap c).map (·, Region.code)) c .code
  unfold Place.ink
  split
  · exact absurd ⟨_, rfl⟩ htag
  · exact absurd ⟨_, rfl⟩ htag
  · split_ifs with hn hl hd ho
    · refine ⟨c, hend, ?_⟩
      simp only [Bool.or_eq_true, Bool.and_eq_true] at hn
      rcases hn with ⟨-, hn⟩ | ⟨-, hn⟩
      · exact isNumberChar_of_startsNumber hn
      · exact hn
    · trivial
    · simp only [Bool.and_eq_true, beq_iff_eq] at hd
      obtain ⟨rfl, -⟩ := hd
      exact hend
    · exact ⟨hend, ho⟩
    · exact ⟨hend, hc, by simpa using hl, fun h => absurd h ho⟩

lemma stands_blank {p : Place} {s s' : Scan} {front : List (Char × Region)} {b : Char}
    {rest : List Char} (h : Stands s front (b :: rest) p) (hp : p ≠ .copied)
    (hb : isBlank b = true) :
    ((p.blank b).1 = [] ∧ Stands s' front rest (p.blank b).2) ∨
      ((p.blank b).1 = [b] ∧ openTag <:+ front ∧
        Stands s' (front ++ [(b, .code)]) rest (p.blank b).2) := by
  cases p with
  | copied => exact absurd rfl hp
  | tag left => rcases (stands_tag (s := s) h).1 with rfl | rfl <;> cases hb
  | tagEnd => exact .inr ⟨rfl, h, trivial⟩
  | _ => exact .inl ⟨rfl, h⟩

lemma tidy_gap {p : Place} {s : Scan} {front behind : List (Char × Region)} {c : Char} {r : Region}
    {rest : List Char} (h : Stands s front rest p) (hc : isBlank c = false)
    (hrest : Tidy (front ++ ((p.gap c).map (·, Region.code) ++ [(c, r)])) behind) :
    Tidy front ((p.gap c).map (·, Region.code) ++ [(c, r)] ++ behind) := by
  have hink := isCodeBlank_of_not_isBlank hc r
  rcases gap_cases p c with hg | ⟨b, hg⟩
  · rw [hg] at hrest ⊢
    exact tidy_cons_of_not_isCodeBlank hink hrest
  · have hjust := justified_gap h hc hg
    rw [hg, List.map_singleton, List.singleton_append, ← List.singleton_append, ← List.append_assoc]
      at hrest
    rw [hg]
    exact ⟨fun _ => .inr hjust, tidy_cons_of_not_isCodeBlank hink hrest⟩

lemma tidy_squeezeLabelled {p : Place} {s : Scan} {front : List (Char × Region)} {rest : List Char}
    (h : Stands s front rest p) (hp : p = .copied ↔ s.region ≠ .code) :
    Tidy front (squeezeLabelled p (s.label rest)) := by
  induction rest generalizing p s front with
  | nil =>
    cases p with
    | wordBlank w b => exact ⟨fun _ => .inr (justified_finish h rfl), trivial⟩
    | _ => trivial
  | cons c rest ih =>
    simp only [Scan.label, squeezeLabelled]
    by_cases hcopied : p = .copied
    · subst hcopied
      have hs : s.region ≠ .code := hp.mp rfl
      rw [step_copied, withRegion_singleton, List.singleton_append]
      by_cases h₁ : (s.step c rest).region = .code
      · obtain ⟨hc, hnext⟩ := stands_enter h hs h₁
        rw [if_pos h₁, h₁]
        exact tidy_cons_of_not_isCodeBlank (isCodeBlank_of_not_isBlank hc _)
          (ih hnext (by simp [enter_ne_copied, h₁]))
      · rw [if_neg h₁]
        exact tidy_cons_of_not_isCodeBlank (by simp [isCodeBlank, h₁])
          (ih (stands_copied front) (by simp [h₁]))
    have hcode : s.region = .code := by
      by_contra hcode
      exact hcopied (hp.mpr hcode)
    by_cases hb : isBlank c = true
    · have h₁ : (s.step c rest).region = .code := by
        rw [step_of_isBlank hcode hb]
        exact hcode
      have hq : (p.blank c).2 = .copied ↔ (s.step c rest).region ≠ .code := by
        simp [blank_ne_copied hcopied, h₁]
      rw [h₁, step_blank hcopied hb]
      rcases stands_blank h hcopied hb with ⟨hw, hnext⟩ | ⟨hw, htag, hnext⟩
      · rw [hw, withRegion_nil, List.nil_append]
        exact ih hnext hq
      · rw [hw, withRegion_singleton, List.singleton_append]
        exact ⟨fun _ => .inl htag, ih hnext hq⟩
    · have hc : isBlank c = false := by simpa using hb
      rw [step_ink hcopied (isCodeBlank_of_not_isBlank hc _), withRegion_append_singleton]
      refine tidy_gap h hc (ih ?_ (place_step_copied (ink_ne_copied p c)))
      by_cases h₁ : (s.step c rest).region = .code
      · rw [if_pos h₁, h₁]
        exact stands_ink h hcopied hc
      · rw [if_neg h₁, ← List.append_assoc]
        exact stands_copied _

/-- Every blank of code in a compacted text, but for the one that belongs to an opening tag, stands
behind a character that is neither a blank nor a line break, and before no other one. An operator on
either side of it would fuse with the character on the other side; only dots and the end of a
comment are excepted. -/
theorem compact_leaves_only_justified_blanks (text : List Char)
    {front behind : List (Char × Region)} {b : Char}
    (h : label (compact text) = front ++ (b, .code) :: behind) (hb : isBlank b = true)
    (htag : ¬openTag <:+ front) :
    ∃ a, EndsWith front a ∧ Justified a (EndsBlock front) (behind.head?.map Prod.fst) := by
  have hstart : Stands {} [] text .copied := .inl ⟨rfl, rfl⟩
  have htidy := tidy_squeezeLabelled hstart (by simp)
  rw [← label, ← label_compact, h] at htidy
  have hblank : isCodeBlank (b, .code) = true := by simp [isCodeBlank, hb]
  exact (htidy.at.1 hblank).resolve_left htag

theorem compact_leaves_only_justified_blanks_between_pluses :
    let text := "<?php\n $a  +  + $b /* c */ - 1;".toList
    let front := label "<?php\n$a+".toList
    let behind := (label (compact text)).drop 10
    label (compact text) = front ++ (' ', .code) :: behind ∧ behind.head? = some ('+', .code) ∧
      ∃ a, EndsWith front a ∧ Justified a (EndsBlock front) (behind.head?.map Prod.fst) := by
  refine ⟨by decide, by decide, ?_⟩
  exact compact_leaves_only_justified_blanks "<?php\n $a  +  + $b /* c */ - 1;".toList (b := ' ')
    (by decide) (by decide) (by decide)

end PhpSlim.Proofs
