import PhpSlim.Proofs.CommentRescan

/-!
# The exact effect of removing comments

`uncommented` says what becomes of a labelled text without its comments by taking each comment as a
whole: `firstComment` cuts it off, `Comment.stays` is what it leaves. Reading the text whose comments
were removed gives exactly this.
-/

namespace PhpSlim.Proofs
open PhpSlim.Text PhpSlim.Comments

/-- A comment, by the characters between its opener and its end. -/
inductive Comment where
  | line (inside : List Char)
  | block (inside : List Char) (closed : Bool)
  deriving DecidableEq, Repr

/-- The characters at the beginning of a labelled text that lie in region `r`. -/
def inside (r : Region) (l : List (Char × Region)) : List Char :=
  (l.takeWhile (·.2 == r)).map Prod.fst

def behind (r : Region) (l : List (Char × Region)) : List (Char × Region) :=
  l.dropWhile (·.2 == r)

/-- The comment with which a labelled text begins, and the text behind it. A line comment ends before
its line break, a block comment with the slash that closes it. -/
def firstComment : List (Char × Region) → Option (Comment × List (Char × Region))
  | ('#', .lineComment) :: l => some (.line (inside .lineComment l), behind .lineComment l)
  | ('/', .code) :: ('/', .lineComment) :: l =>
    some (.line (inside .lineComment l), behind .lineComment l)
  | ('/', .code) :: ('*', .blockComment) :: l =>
    some (.block (inside .blockComment l) !(behind .blockComment l).isEmpty,
      (behind .blockComment l).tail)
  | _ => none

/-- The line breaks of a comment: each `\n`, and each `\r` directly before one. -/
def lineBreaks (next : Option Char) : List Char → List Char
  | [] => []
  | c :: rest =>
    if c = '\n' ∨ (c = '\r' ∧ rest.head?.or next = some '\n') then c :: lineBreaks next rest
    else lineBreaks next rest

/-- Two characters that must not come to touch. -/
def HeldApart (last next : Option Char) : Prop :=
  ∃ b a, last = some b ∧ next = some a ∧
    ((isWordChar b = true ∧ isWordChar a = true) ∨ fuses b a = true)

lemma glues_iff_heldApart (last next : Option Char) : glues last next = true ↔ HeldApart last next := by
  unfold HeldApart
  cases last <;> cases next <;> simp [glues]

instance (last next : Option Char) : Decidable (HeldApart last next) :=
  decidable_of_iff _ (glues_iff_heldApart last next)

/-- What a comment leaves between `last`, the last character written, and `next`, the one behind the
comment: its line breaks, or one space in place of a closed block comment on one line that held the
two apart. -/
def Comment.stays (last next : Option Char) : Comment → List Char
  | line inside => lineBreaks next inside
  | block inside closed =>
    if '\n' ∈ inside then lineBreaks none inside
    else if closed = true ∧ HeldApart last next then [' '] else []

lemma length_behind_le (r : Region) (l : List (Char × Region)) : (behind r l).length ≤ l.length :=
  (List.dropWhile_sublist _).length_le

lemma length_firstComment {l rest : List (Char × Region)} {k : Comment}
    (h : firstComment l = some (k, rest)) : rest.length < l.length := by
  unfold firstComment at h
  split at h
  · rename_i l
    obtain ⟨-, rfl⟩ : _ = k ∧ _ = rest := by simpa using h
    have := length_behind_le .lineComment l
    simp only [List.length_cons]
    omega
  · rename_i l
    obtain ⟨-, rfl⟩ : _ = k ∧ _ = rest := by simpa using h
    have := length_behind_le .lineComment l
    simp only [List.length_cons]
    omega
  · rename_i l
    obtain ⟨-, rfl⟩ : _ = k ∧ _ = rest := by simpa using h
    have := length_behind_le .blockComment l
    simp only [List.length_cons, List.length_tail]
    omega
  · cases h

/-- Labelled text without its comments; `last` is the character written before it. -/
def uncommented (last : Option Char) (l : List (Char × Region)) : List (Char × Region) :=
  match _h : firstComment l with
  | some (k, rest) =>
    let left := k.stays last (rest.head?.map Prod.fst)
    left.map (·, Region.code) ++ uncommented (left.getLast?.or last) rest
  | none =>
    match l with
    | [] => []
    | x :: rest => x :: uncommented (some x.1) rest
termination_by l.length
decreasing_by
  · exact length_firstComment _h
  · simp

lemma uncommented_comment {last : Option Char} {l rest : List (Char × Region)} {k : Comment}
    (h : firstComment l = some (k, rest)) :
    uncommented last l =
      (k.stays last (rest.head?.map Prod.fst)).map (·, Region.code) ++
        uncommented ((k.stays last (rest.head?.map Prod.fst)).getLast?.or last) rest := by
  rw [uncommented]
  split
  · rename_i h'
    rw [h] at h'
    cases h'
    rfl
  · rename_i h'
    rw [h] at h'
    cases h'

lemma uncommented_cons {last : Option Char} {x : Char × Region} {rest : List (Char × Region)}
    (h : firstComment (x :: rest) = none) :
    uncommented last (x :: rest) = x :: uncommented (some x.1) rest := by
  rw [uncommented]
  split
  · rename_i h'
    rw [h] at h'
    cases h'
  · rfl

lemma inside_cons_self (r : Region) (c : Char) (l : List (Char × Region)) :
    inside r ((c, r) :: l) = c :: inside r l := by
  simp [inside]

lemma behind_cons_self (r : Region) (c : Char) (l : List (Char × Region)) :
    behind r ((c, r) :: l) = behind r l := by
  simp [behind]

lemma inside_cons_of_ne {r r' : Region} (h : r' ≠ r) (c : Char) (l : List (Char × Region)) :
    inside r ((c, r') :: l) = [] := by
  simp [inside, h]

lemma behind_cons_of_ne {r r' : Region} (h : r' ≠ r) (c : Char) (l : List (Char × Region)) :
    behind r ((c, r') :: l) = (c, r') :: l := by
  simp [behind, h]

lemma head_inside_or_behind (r : Region) (l : List (Char × Region)) :
    (inside r l).head?.or ((behind r l).head?.map Prod.fst) = l.head?.map Prod.fst := by
  cases l with
  | nil => rfl
  | cons x l =>
    obtain ⟨c, r'⟩ := x
    by_cases h : r' = r
    · rw [h, inside_cons_self]
      rfl
    · rw [inside_cons_of_ne h, behind_cons_of_ne h]
      rfl

lemma written_inside {st : State} {c : Char} {next : Option Char} (h : isComment st.region = true) :
    written st c st.region next = if breaksLine c next then some c else none := by
  simp only [isComment, Bool.or_eq_true, beq_iff_eq] at h
  rcases h with h | h
  · exact written_lineComment h
  · rw [h]
    exact written_blockComment h

lemma lineBreaks_cons (next : Option Char) (c : Char) (rest : List Char) :
    lineBreaks next (c :: rest) =
      (if breaksLine c (rest.head?.or next) then some c else none).toList ++ lineBreaks next rest := by
  by_cases h : breaksLine c (rest.head?.or next) = true
  · rw [lineBreaks, if_pos ((breaksLine_iff _ _).mp h), if_pos h]
    rfl
  · rw [lineBreaks, if_neg (mt (breaksLine_iff _ _).mpr h), if_neg h]
    rfl

lemma getLast_toList_append_or (w last : Option Char) (l : List Char) :
    (w.toList ++ l).getLast?.or last = l.getLast?.or (w.or last) := by
  rw [List.getLast?_append, Option.or_assoc]
  cases w <;> rfl

lemma getLast_append_toList_or (w last : Option Char) (l : List Char) :
    (l ++ w.toList).getLast?.or last = w.or (l.getLast?.or last) := by
  rw [List.getLast?_append, Option.or_assoc]
  cases w <;> rfl

lemma eraseLabelled_inside {st : State} {s : Scan} {rest : List Char} (h : Tracks st s rest.head?)
    (hc : isComment s.region = true) :
    ∃ (st' : State) (s' : Scan) (rest' : List Char),
      behind s.region (s.label rest) = s'.label rest' ∧ s'.region = s.region ∧
      Tracks st' s' rest'.head? ∧ rest'.length ≤ rest.length ∧
      (∀ d tail, rest' = d :: tail → (s'.step d tail).region ≠ s.region) ∧
      st'.last = (lineBreaks rest'.head? (inside s.region (s.label rest))).getLast?.or st.last ∧
      (s.region = .blockComment →
        st'.broken = (st.broken || decide ('\n' ∈ inside s.region (s.label rest)))) ∧
      eraseLabelled st (s.label rest) =
        (lineBreaks rest'.head? (inside s.region (s.label rest))).map (·, Region.code) ++
          eraseLabelled st' (s'.label rest') := by
  induction rest generalizing st s with
  | nil => exact ⟨st, s, [], rfl, rfl, h, le_rfl, by simp, rfl, by simp [Scan.label, inside], rfl⟩
  | cons c rest ih =>
    by_cases h₁ : (s.step c rest).region = s.region
    · obtain ⟨st', s', rest', hbehind, hr', ht', hle, hstop, hlast, hbroken, herase⟩ :=
        ih (h.step rest) (h₁ ▸ hc)
      have hst : st.region = s.region := h.1
      have hw : written st c s.region rest.head? = if breaksLine c rest.head? then some c else none := by
        rw [← hst]
        exact written_inside (hst ▸ hc)
      have hlabel : s.label (c :: rest) = (c, s.region) :: (s.step c rest).label rest := by
        rw [Scan.label, h₁]
      have hnext : (inside s.region ((s.step c rest).label rest)).head?.or rest'.head? = rest.head? := by
        have := head_inside_or_behind s.region ((s.step c rest).label rest)
        rwa [← h₁, hbehind, label_head, label_head, h₁] at this
      rw [h₁] at hbehind hr' hstop hlast hbroken herase
      rw [eraseLabelled_label_cons, h₁, hw, hlabel, inside_cons_self, behind_cons_self]
      refine ⟨st', s', rest', hbehind, hr', ht', hle.trans (Nat.le_succ _), hstop, ?_, ?_, ?_⟩
      · rw [lineBreaks_cons, hnext, getLast_toList_append_or, hlast]
        simp only [State.step, hw]
      · intro hb
        rw [hbroken hb]
        simp [State.step, hst, hb, Bool.or_assoc, Bool.beq_eq_decide_eq, eq_comm]
      · rw [lineBreaks_cons, hnext, herase, settled_of_isComment hc, List.map_append, List.append_assoc]
    · have hi : inside s.region (s.label (c :: rest)) = [] := inside_cons_of_ne h₁ c _
      rw [hi]
      refine ⟨st, s, c :: rest, behind_cons_of_ne h₁ c _, rfl, h, le_rfl, ?_, rfl, by simp, rfl⟩
      rintro d tail hd
      cases hd
      exact h₁

/-! ### Whole comments -/

lemma uncommented_nil (last : Option Char) : uncommented last [] = [] := by
  rw [uncommented]
  rfl

lemma firstComment_eq_none {c : Char} {r : Region} {l : List (Char × Region)}
    (hr : isComment r = false) (ho : r = .code → opens c (l.head?.map Prod.fst) = false) :
    firstComment ((c, r) :: l) = none := by
  unfold firstComment
  split <;> simp_all [isComment, opens]

/-- The reading stands where no comment has begun, or right before the end of a line comment. -/
def Ready (s : Scan) (next : Option Char) : Prop :=
  (isComment s.region = false ∧ (s.region = .code → s.prev = some '/' → opens '/' next = false)) ∨
    (s.region = .lineComment ∧ ∀ d, next = some d → d = '\n')

lemma region_step_hash {s : Scan} {after : List Char} (h : s.region = .code)
    (h₁ : isComment (s.step '#' after).region = true) :
    (s.step '#' after).region = .lineComment := by
  have ht := turn_step s '#' after
  generalize s.step '#' after = s₁ at ht h₁
  cases ht <;> simp_all [isComment]

lemma prev_step_endLine {s : Scan} {after : List Char} (h : s.region = .lineComment) :
    (s.step '\n' after).prev = some '\n' := by
  have ht := turn_step s '\n' after
  generalize s.step '\n' after = s₁ at ht
  cases ht <;> simp_all

lemma region_step_lineComment {s : Scan} {c : Char} {after : List Char} (h : s.region = .lineComment) :
    (s.step c after).region = if c = '\n' then .code else .lineComment := by
  have ht := turn_step s c after
  generalize s.step c after = s₁ at ht
  cases ht <;> simp_all

lemma lineBreaks_of_ne {next : Option Char} (hn : next ≠ some '\n') (l : List Char) :
    lineBreaks next l = lineBreaks none l := by
  induction l with
  | nil => rfl
  | cons c l ih => cases l <;> simp_all [lineBreaks]

lemma lineBreaks_eq_nil {l : List Char} (h : '\n' ∉ l) : lineBreaks none l = [] := by
  induction l with
  | nil => rfl
  | cons c l ih =>
    have hc : ¬ (c = '\n' ∨ (c = '\r' ∧ l.head?.or none = some '\n')) := by
      rintro (rfl | ⟨-, hl⟩)
      · simp at h
      · rw [Option.or_none] at hl
        exact h (List.mem_cons_of_mem c (List.mem_of_mem_head? hl))
    rw [lineBreaks, if_neg hc, ih (fun hl => h (List.mem_cons_of_mem c hl))]

section
variable {st : State} {s : Scan} {rest : List Char}
  (ih : ∀ {st' : State} {s' : Scan} {rest' : List Char}, rest'.length ≤ rest.length →
    Tracks st' s' rest'.head? → Ready s' rest'.head? →
    uncommented st'.last (s'.label rest') = eraseLabelled st' (s'.label rest'))
include ih

lemma eraseLabelled_line (h : Tracks st s rest.head?) (hs : s.region = .lineComment) :
    let l := s.label rest
    let left := (Comment.line (inside .lineComment l)).stays st.last
      ((behind .lineComment l).head?.map Prod.fst)
    eraseLabelled st l =
      left.map (·, Region.code) ++ uncommented (left.getLast?.or st.last) (behind .lineComment l) := by
  obtain ⟨st', s', rest', hbehind, hr', ht', hle, hstop, hlast, -, herase⟩ :=
    eraseLabelled_inside h (by rw [hs]; rfl)
  rw [hs] at hbehind hr' hstop hlast herase
  have hready : Ready s' rest'.head? := by
    refine .inr ⟨hr', ?_⟩
    intro d hd
    obtain ⟨tail, rfl⟩ := List.head?_eq_some_iff.mp hd
    have hne := hstop d tail rfl
    rw [region_step_lineComment hr'] at hne
    simpa using hne
  dsimp only [Comment.stays]
  rw [hbehind, label_head, herase, ← hlast, ih hle ht' hready]

lemma eraseLabelled_block (h : Tracks st s rest.head?) (hs : s.region = .blockComment)
    (hb : st.broken = false) :
    let l := s.label rest
    let left := (Comment.block (inside .blockComment l) !(behind .blockComment l).isEmpty).stays
      st.last ((behind .blockComment l).tail.head?.map Prod.fst)
    eraseLabelled st l =
      left.map (·, Region.code) ++ uncommented (left.getLast?.or st.last) (behind .blockComment l).tail := by
  obtain ⟨st', s', rest', hbehind, hr', ht', hle, hstop, hlast, hbroken, herase⟩ :=
    eraseLabelled_inside h (by rw [hs]; rfl)
  rw [hs] at hbehind hr' hstop hlast hbroken herase
  have hbroken := hbroken rfl
  rw [hb, Bool.false_or] at hbroken
  dsimp only
  generalize inside .blockComment (s.label rest) = body at hlast hbroken herase ⊢
  cases rest' with
  | nil =>
    -- The comment is not closed.
    have hleft : (Comment.block body false).stays st.last none = lineBreaks none body := by
      by_cases hn : '\n' ∈ body
      · simp [Comment.stays, hn]
      · simp [Comment.stays, hn, lineBreaks_eq_nil]
    rw [hbehind, herase]
    simp only [Scan.label, List.isEmpty_nil, Bool.not_true, List.tail_nil, List.head?_nil,
      Option.map_none, hleft, uncommented_nil, eraseLabelled]
  | cons d tail =>
    obtain ⟨rfl, hcode, hprev⟩ := step_of_leaves_block hr' (hstop d tail rfl)
    have hw : written st' '/' (s'.step '/' tail).region tail.head? =
        if !st'.broken && glues st'.last tail.head? then some ' ' else none := by
      rw [hcode, written_close (ht'.1.trans hr')]
    have hbreaks : lineBreaks (some '/') body = lineBreaks none body := lineBreaks_of_ne (by simp) body
    rw [List.head?_cons, hbreaks] at hlast herase
    have hleft : (Comment.block body true).stays st.last tail.head? =
        lineBreaks none body ++ (written st' '/' (s'.step '/' tail).region tail.head?).toList := by
      rw [hw, hbroken]
      by_cases hn : '\n' ∈ body
      · simp [Comment.stays, hn]
      · rw [lineBreaks_eq_nil hn] at hlast ⊢
        have hlast : st'.last = st.last := hlast
        by_cases hg : HeldApart st.last tail.head?
        · simp [Comment.stays, hn, hlast, hg, (glues_iff_heldApart _ _).mpr hg]
        · simp [Comment.stays, hn, hlast, hg, mt (glues_iff_heldApart _ _).mp hg]
    have hready : Ready (s'.step '/' tail) tail.head? := by
      refine .inl ⟨by rw [hcode]; rfl, ?_⟩
      simp [hprev]
    have hrest := ih ((Nat.le_succ _).trans hle) (ht'.step tail) hready
    have hlast' : (st'.step '/' (s'.step '/' tail).region tail.head?).last =
        (written st' '/' (s'.step '/' tail).region tail.head?).or
          ((lineBreaks none body).getLast?.or st.last) := by
      rw [← hlast]
      rfl
    rw [hbehind, herase, eraseLabelled_label_cons, ← hrest, hlast']
    simp only [Scan.label, List.isEmpty_cons, Bool.not_false, List.tail_cons, label_head, hleft]
    rw [getLast_append_toList_or, hcode, List.map_append, List.append_assoc]
    rfl

lemma eraseLabelled_slash (h : Tracks st s rest.head?) (hs : s.region = .code)
    (hp : s.prev = some '/') (ho : opens '/' rest.head? = true) :
    eraseLabelled st (s.label rest) = uncommented st.last (('/', .code) :: s.label rest) := by
  obtain ⟨d, rest, rfl, hregion⟩ := label_of_opens hs hp ho
  have ih' {st' : State} {s' : Scan} {rest' : List Char} (hle : rest'.length ≤ rest.length) :=
    @ih st' s' rest' (Nat.le_succ_of_le hle)
  have hst : st.region = .code := h.1.trans hs
  have hnext := h.step rest
  rw [eraseLabelled_label_cons, Scan.label]
  generalize s.step d rest = s₁ at hregion hnext ⊢
  have hbroken : (st.step d s₁.region rest.head?).broken = false := by simp [State.step, hst]
  have hcomment : isComment s₁.region = true := by
    rcases hregion with ⟨-, h₁⟩ | ⟨-, h₁⟩
    · rw [h₁]
      rfl
    · rw [h₁]
      rfl
  have hw : written st d s₁.region rest.head? = none := written_enter hst hcomment
  have hlast : (st.step d s₁.region rest.head?).last = st.last := by
    simp only [State.step, hw, Option.none_or]
  rw [hw, Option.toList_none, List.map_nil, List.nil_append]
  rcases hregion with ⟨rfl, h₁⟩ | ⟨rfl, h₁⟩
  · have hfirst : firstComment (('/', .code) :: ('/', s₁.region) :: s₁.label rest) =
        some (.line (inside .lineComment (s₁.label rest)),
          behind .lineComment (s₁.label rest)) := by
      rw [h₁]
      rfl
    rw [uncommented_comment hfirst, eraseLabelled_line ih' hnext h₁, hlast]
  · have hfirst : firstComment (('/', .code) :: ('*', s₁.region) :: s₁.label rest) =
        some (.block (inside .blockComment (s₁.label rest))
            !(behind .blockComment (s₁.label rest)).isEmpty,
          (behind .blockComment (s₁.label rest)).tail) := by
      rw [h₁]
      rfl
    rw [uncommented_comment hfirst, eraseLabelled_block ih' hnext h₁ hbroken, hlast]

end

/-- Removing comments one character at a time leaves what remains when each is taken as a whole. -/
lemma uncommented_label {st : State} {s : Scan} {rest : List Char} (h : Tracks st s rest.head?)
    (hready : Ready s rest.head?) :
    uncommented st.last (s.label rest) = eraseLabelled st (s.label rest) := by
  induction hn : rest.length using Nat.strong_induction_on generalizing st s rest with
  | _ n ih =>
    cases rest with
    | nil => exact uncommented_nil _
    | cons c rest =>
      have ih' {st' : State} {s' : Scan} {rest' : List Char} (hle : rest'.length ≤ rest.length)
          (ht' : Tracks st' s' rest'.head?) (hready' : Ready s' rest'.head?) :
          uncommented st'.last (s'.label rest') = eraseLabelled st' (s'.label rest') :=
        ih rest'.length (hn ▸ Nat.lt_succ_of_le hle) ht' hready' rfl
      obtain ⟨st₁, w, hnext, hedit, hlast, -, hlabelled⟩ := erase_step h rest
      rw [hlabelled, Scan.label]
      generalize hs₁ : s.step c rest = s₁ at hnext hedit ⊢
      cases hedit with
      | copy hs h₁ hprev hj ho =>
        have hnone : firstComment ((c, s₁.region) :: s₁.label rest) = none :=
          firstComment_eq_none h₁ (by rwa [label_head])
        have hready₁ : Ready s₁ rest.head? := by
          refine .inl ⟨h₁, ?_⟩
          intro hcode hslash
          obtain rfl : c = '/' := by simpa [hprev] using hslash
          exact ho hcode
        have hrest := ih' le_rfl hnext hready₁
        rw [hlast] at hrest
        rw [uncommented_cons hnone, ← hrest, settled_of_not_isComment h₁]
        rfl
      | slash hs h₁ hprev hc ho =>
        subst hc
        have hrest := eraseLabelled_slash ih' hnext h₁ hprev ho
        rw [hlast, ← h₁] at hrest
        exact hrest.symm
      | enter hs h₁ hc =>
        rcases hready with ⟨-, hready⟩ | ⟨hline, -⟩
        · rcases hc with rfl | ⟨hp, ho⟩
          · have hline : s₁.region = .lineComment := hs₁ ▸ region_step_hash hs (hs₁ ▸ h₁)
            have hfirst : firstComment (('#', s₁.region) :: s₁.label rest) =
                some (.line (inside .lineComment (s₁.label rest)),
                  behind .lineComment (s₁.label rest)) := by
              rw [hline]
              rfl
            rw [uncommented_comment hfirst, eraseLabelled_line ih' hnext hline, hlast]
            rfl
          · rw [List.head?_cons] at hready
            rw [hready hs hp] at ho
            cases ho
        · simp [hline] at hs
      | lineBreak hs hc h₁ =>
        rcases hready with ⟨hready, -⟩ | ⟨hline, hready⟩
        · simp [hready] at hs
        · obtain rfl := hready c rfl
          have hcode : s₁.region = .code := by rw [← hs₁, region_step_lineComment hline]; rfl
          have hprev : s₁.prev = some '\n' := hs₁ ▸ prev_step_endLine hline
          have hnone : firstComment (('\n', s₁.region) :: s₁.label rest) = none :=
            firstComment_eq_none (by rw [hcode]; rfl) (by simp [opens])
          have hrest := ih' le_rfl hnext (.inl ⟨by rw [hcode]; rfl, by simp [hprev]⟩)
          rw [hlast] at hrest
          rw [uncommented_cons hnone, ← hrest, hcode]
          rfl
      | body hs h₁ hc =>
        rcases hready with ⟨hready, -⟩ | ⟨hline, hready⟩
        · simp [hready] at hs
        · obtain rfl := hready c rfl
          simp [breaksLine] at hc
      | close hs h₁ hc =>
        rcases hready with ⟨hready, -⟩ | ⟨hline, -⟩
        · simp [hs, isComment] at hready
        · simp [hline] at hs

lemma erase_of_commentFree {st : State} {s : Scan} {rest : List Char} (h : Tracks st s rest.head?)
    (hs : isComment s.region = false) (hfree : ∀ x ∈ s.label rest, isComment x.2 = false) :
    erase st (s.label rest) = rest := by
  induction rest generalizing st s with
  | nil => rfl
  | cons c rest ih =>
    obtain ⟨st₁, w, hnext, hedit, -, herase, -⟩ := erase_step h rest
    have h₁ : isComment (s.step c rest).region = false := hfree (c, _) List.mem_cons_self
    have hrest : ∀ x ∈ (s.step c rest).label rest, isComment x.2 = false :=
      fun x hx => hfree x (List.mem_cons_of_mem _ hx)
    rw [herase, ih hnext h₁ hrest]
    cases hedit with
    | copy => rfl
    | slash _ hcode hprev _ ho =>
      -- The slash would begin a comment, so the next character would be part of it.
      obtain ⟨d, tail, rfl, hd⟩ := label_of_opens hcode hprev ho
      have hfree := hrest (d, _) List.mem_cons_self
      rcases hd with ⟨-, hd⟩ | ⟨-, hd⟩
      · simp [hd, isComment] at hfree
      · simp [hd, isComment] at hfree
    | enter _ hcomment => simp [hcomment] at h₁
    | lineBreak hcomment => simp [hcomment] at hs
    | body hcomment => simp [hcomment] at hs
    | close hblock => simp [hblock, isComment] at hs

lemma strip_of_commentFree {text : List Char} (h : CommentFree text) : strip text = text := by
  have ht : Tracks {} {} text.head? := ⟨rfl, rfl⟩
  exact erase_of_commentFree ht rfl h

/-- For each line break of a text, whether it stands directly behind a `\r`; `before` is the
character before the text. -/
def crlf (before : Option Char) : List Char → List Bool
  | [] => []
  | c :: rest => if c = '\n' then (before == some '\r') :: crlf (some c) rest else crlf (some c) rest

lemma crlf_toList_append {w : Option Char} (hw : w ≠ some '\n') (before : Option Char)
    (out : List Char) : crlf before (w.toList ++ out) = crlf (w.or before) out := by
  cases w with
  | none => rfl
  | some d =>
    have hd : d ≠ '\n' := by simpa using hw
    rw [Option.toList_some, List.singleton_append, crlf, if_neg hd, Option.some_or]

lemma Edit.eq_of_breaksLine {st : State} {s s₁ : Scan} {c : Char} {next w : Option Char}
    (h : Edit st s s₁ c next w) (hc : breaksLine c next = true) : w = some c := by
  rw [breaksLine_iff] at hc
  cases h with
  | copy => rfl
  | lineBreak => rfl
  | slash _ _ _ hslash => simp [hslash] at hc
  | enter _ _ hopen => rcases hc with rfl | ⟨rfl, -⟩ <;> simp [opens] at hopen
  | body _ _ hbody => simp [(breaksLine_iff c next).mpr hc] at hbody
  | close _ _ hslash => simp [hslash] at hc

lemma Edit.ne_newline {st : State} {s s₁ : Scan} {c : Char} {next w : Option Char}
    (h : Edit st s s₁ c next w) (hc : c ≠ '\n') : w ≠ some '\n' := by
  cases h with
  | copy => simpa using hc
  | lineBreak => simpa using hc
  | close => split_ifs <;> simp
  | _ => simp

/-- Removing comments keeps the `\r` before each line break; `before` is the character before the
text that is still to be read. -/
lemma crlf_erase {st : State} {s : Scan} {rest : List Char} {before : Option Char}
    (h : Tracks st s rest.head?)
    (hr : before = some '\r' → rest.head? = some '\n' → st.last = some '\r') :
    List.Forall₂ (fun a b => a = true → b = true) (crlf before rest)
      (crlf st.last (erase st (s.label rest))) := by
  induction rest generalizing st s before with
  | nil => exact .nil
  | cons c rest ih =>
    obtain ⟨st₁, w, hnext, hedit, hlast, herase, -⟩ := erase_step h rest
    rw [herase]
    by_cases hn : c = '\n'
    · subst hn
      obtain rfl := hedit.eq_of_breaksLine rfl
      rw [crlf, if_pos rfl, Option.toList_some, List.singleton_append, crlf, if_pos rfl]
      refine .cons ?_ ?_
      · intro hb
        simpa using hr (by simpa using hb) rfl
      · rw [Option.some_or] at hlast
        rw [← hlast]
        exact ih hnext (by simp [hlast])
    · have hw := hedit.ne_newline hn
      rw [crlf, if_neg hn, crlf_toList_append hw, ← hlast]
      refine ih hnext ?_
      intro hc hhead
      obtain rfl : c = '\r' := by simpa using hc
      rw [hlast, hedit.eq_of_breaksLine (by simp [breaksLine, hhead])]
      rfl

/-- Reading the text whose comments were removed gives the labelled text without its comments, so
what remains keeps its order and its regions. A second removal finds nothing to remove, and a line
break behind a `\r` stays behind one. -/
theorem strip_removes_exactly_the_comments (text : List Char) :
    label (strip text) = uncommented none (label text) ∧
      strip (strip text) = strip text ∧
      List.Forall₂ (fun a b => a = true → b = true) (crlf none text) (crlf none (strip text)) := by
  have h : Tracks {} {} text.head? := ⟨rfl, rfl⟩
  refine ⟨?_, ?_, ?_⟩
  · have hready : Ready {} text.head? := .inl ⟨rfl, by simp⟩
    rw [label_strip]
    exact (uncommented_label h hready).symm
  · exact strip_of_commentFree (commentFree_strip text)
  · exact crlf_erase h (by simp)

example : strip "<?php a/**/b/*c\r\n*/ . 1 // d".toList = "<?php a b\r\n . 1 ".toList := by
  decide

end PhpSlim.Proofs
