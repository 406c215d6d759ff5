import PhpSlim.Comments
import PhpSlim.Proofs.Reading

/-!
# Reading text without its comments

`eraseLabelled` is the removal of comments carried out on labelled text. `Edit` lists how the removal
treats one character. The main result is that reading the remaining text from scratch finds every
character in its old region, and the line breaks and spaces left by comments in code.
-/

namespace PhpSlim.Proofs
open PhpSlim.Text PhpSlim.Comments

/-- The region of what is written for a character of region `r`: what comments leave is code. -/
def settled (r : Region) : Region :=
  if isComment r then .code else r

/-- The removal of comments from labelled text, with the regions of what is written. -/
def eraseLabelled (st : State) : List (Char × Region) → List (Char × Region)
  | [] => []
  | (c, r) :: rest =>
    let next := rest.head?.map Prod.fst
    (written st c r next).toList.map (·, settled r) ++ eraseLabelled (st.step c r next) rest

lemma settled_of_not_isComment {r : Region} (h : isComment r = false) : settled r = r := by
  simp [settled, h]

lemma isComment_settled (r : Region) : isComment (settled r) = false := by
  cases r <;> rfl

lemma settled_of_isComment {r : Region} (h : isComment r = true) : settled r = .code := by
  simp [settled, h]

lemma settled_of_lineBreak {r r₁ : Region} {p : Prop} (h : isComment r = true)
    (h₁ : r₁ = r ∨ (r = .lineComment ∧ r₁ = .code ∧ p)) : settled r₁ = .code := by
  rcases h₁ with rfl | ⟨-, rfl, -⟩
  · exact settled_of_isComment h
  · rfl

lemma isProtected_of_settled {r : Region} (h : settled r = .code) : isProtected r = false := by
  cases r <;> simp_all [settled, isProtected, isComment]

@[simp] lemma label_head (s : Scan) (rest : List Char) :
    (s.label rest).head?.map Prod.fst = rest.head? := by
  cases rest <;> rfl

lemma erase_label_cons (st : State) (s : Scan) (c : Char) (rest : List Char) :
    erase st (s.label (c :: rest)) =
      (written st c (s.step c rest).region rest.head?).toList ++
        erase (st.step c (s.step c rest).region rest.head?) ((s.step c rest).label rest) := by
  simp only [Scan.label, erase, label_head]

lemma eraseLabelled_label_cons (st : State) (s : Scan) (c : Char) (rest : List Char) :
    eraseLabelled st (s.label (c :: rest)) =
      (written st c (s.step c rest).region rest.head?).toList.map (·, settled (s.step c rest).region) ++
        eraseLabelled (st.step c (s.step c rest).region rest.head?) ((s.step c rest).label rest) := by
  simp only [Scan.label, eraseLabelled, label_head]

lemma glues_of_not_word {b : Char} (hw : isWordChar b = false) (hf : ∀ a, fuses b a = false)
    (next : Option Char) : glues (some b) next = false := by
  cases next with
  | none => rfl
  | some a => simp [glues, hw, hf]

lemma glues_space (next : Option Char) : glues (some ' ') next = false := by
  apply glues_of_not_word
  · decide
  · intro a
    simp [fuses, fusedPairs]

lemma glues_of_isLineBreak {b : Char} (h : isLineBreak b = true) (next : Option Char) :
    glues (some b) next = false := by
  simp only [isLineBreak, Bool.or_eq_true, beq_iff_eq] at h
  rcases h with rfl | rfl
  · exact glues_of_not_word (by decide) (by simp [fuses, fusedPairs]) next
  · exact glues_of_not_word (by decide) (by simp [fuses, fusedPairs]) next

lemma breaksLine_iff (c : Char) (next : Option Char) :
    breaksLine c next = true ↔ c = '\n' ∨ (c = '\r' ∧ next = some '\n') := by
  simp [breaksLine]

lemma isLineBreak_of_breaksLine {c : Char} {next : Option Char} (h : breaksLine c next = true) :
    isLineBreak c = true := by
  rcases (breaksLine_iff c next).mp h with rfl | ⟨rfl, -⟩ <;> rfl

lemma joins_of_not_glues {last : Option Char} {c : Char} (h : glues last (some c) = false) :
    joins last c = false := by
  cases last with
  | none => simp [joins]
  | some b =>
    simp only [glues, Bool.or_eq_false_iff] at h
    exact joins_of_not_fuses h.2

section Written
variable {st : State} {c : Char} {r : Region} {next : Option Char}

lemma written_code (h : st.region = .code) :
    written st c .code next = if opens c next then none else some c := by
  unfold written
  rw [h]

lemma written_enter (h : st.region = .code) (hr : isComment r = true) :
    written st c r next = none := by
  cases r <;> simp_all [written, isComment]

lemma written_copy (h : isProtected st.region = true ∨ (st.region = .code ∧ isProtected r = true)) :
    written st c r next = some c := by
  unfold written
  cases hs : st.region <;> cases r <;> simp_all [isProtected]

lemma written_lineComment (h : st.region = .lineComment) :
    written st c r next = if breaksLine c next then some c else none := by
  unfold written
  rw [h]

lemma written_blockComment (h : st.region = .blockComment) :
    written st c .blockComment next = if breaksLine c next then some c else none := by
  unfold written
  rw [h]

lemma written_close (h : st.region = .blockComment) :
    written st c .code next = if !st.broken && glues st.last next then some ' ' else none := by
  unfold written
  rw [h]

end Written

lemma region_step_slash {s : Scan} {c : Char} (h : s.region = .code) (hp : s.prev = some '/')
    (ho : opens '/' (some c) = true) (after : List Char) :
    (c = '/' ∧ (s.step c after).region = .lineComment) ∨
      (c = '*' ∧ (s.step c after).region = .blockComment) := by
  have ht := turn_step s c after
  generalize s.step c after = s₁ at ht
  obtain rfl | rfl : c = '/' ∨ c = '*' := by simpa [opens] using ho
  · cases ht <;> simp_all [joins]
  · cases ht <;> simp_all [joins]

lemma label_of_opens {s : Scan} {rest : List Char} (h : s.region = .code) (hp : s.prev = some '/')
    (ho : opens '/' rest.head? = true) :
    ∃ d tail, rest = d :: tail ∧ ((d = '/' ∧ (s.step d tail).region = .lineComment) ∨
      (d = '*' ∧ (s.step d tail).region = .blockComment)) := by
  cases rest with
  | nil => simp [opens] at ho
  | cons d tail => exact ⟨d, tail, rfl, region_step_slash h hp ho tail⟩

/-- What the removal remembers, seen beside the reading of the text. In code the last character
written is the one before the current character, or a comment has just ended there and the two need
not be kept apart, or the current character begins a comment with a slash that was not written. -/
def Tracks (st : State) (s : Scan) (next : Option Char) : Prop :=
  st.region = s.region ∧
    match s.region with
    | .code => (s.prev = st.last ∧ (s.prev = some '/' → opens '/' next = false)) ∨
        (s.prev = none ∧ glues st.last next = false) ∨
        (s.prev = some '/' ∧ opens '/' next = true)
    | .lineComment => True
    | .blockComment => st.broken = true → ∃ b, st.last = some b ∧ isLineBreak b = true
    | _ => s.prev = st.last

lemma Tracks.step {st : State} {s : Scan} {c : Char} (h : Tracks st s (some c)) (rest : List Char) :
    Tracks (st.step c (s.step c rest).region rest.head?) (s.step c rest) rest.head? := by
  have ht := turn_step s c rest
  generalize s.step c rest = s₁ at ht ⊢
  obtain ⟨hr, h⟩ := h
  cases ht with
  | text hs => simp_all [Tracks, State.step, written]
  | openTag hs hc hp ha => simp_all [Tracks, State.step, written]
  | code hs hj hash =>
    refine ⟨rfl, ?_⟩
    simp only [hs, State.step, written_code (hr.trans hs)]
    by_cases ho : opens c rest.head? = true
    · obtain rfl : c = '/' := by simp_all [opens]
      exact .inr (.inr ⟨rfl, ho⟩)
    · rw [if_neg ho]
      refine .inl ⟨rfl, ?_⟩
      intro hc
      obtain rfl : c = '/' := by simpa using hc
      simpa using ho
  | slashes hs hc hp => simp_all [Tracks, State.step]
  | slashStar hs hc hp => simp_all [Tracks, State.step]
  | hash hs hc ha => simp_all [Tracks, State.step]
  | openQuote hs q hq => rcases hq with ⟨rfl, rfl⟩ | ⟨rfl, rfl⟩ <;> simp_all [Tracks, State.step, written]
  | closeTag hs hc hp => simp_all [Tracks, State.step, written]
  | line hs hc => simp_all [Tracks, State.step]
  | endLine hs hc => simp_all [Tracks, State.step, written, breaksLine]
  | block hs =>
    refine ⟨rfl, ?_⟩
    simp only [hs, State.step, written_blockComment (hr.trans hs)] at h ⊢
    by_cases hb : breaksLine c rest.head? = true
    · intro _
      rw [if_pos hb]
      exact ⟨c, rfl, isLineBreak_of_breaksLine hb⟩
    · intro hbroken
      rw [if_neg hb]
      have hn : c ≠ '\n' := by
        rintro rfl
        simp [breaksLine] at hb
      exact h (by simpa [hr, hs, hn] using hbroken)
  | endBlock hs hc =>
    refine ⟨rfl, .inr (.inl ⟨rfl, ?_⟩)⟩
    simp only [hs, State.step, written_close (hr.trans hs)] at h ⊢
    by_cases hg : (!st.broken && glues st.last rest.head?) = true
    · rw [if_pos hg]
      exact glues_space _
    · rw [if_neg hg]
      by_cases hb : st.broken = true
      · obtain ⟨b, hlast, hbreak⟩ := h hb
        rw [hlast]
        exact glues_of_isLineBreak hbreak _
      · simpa [hb] using hg
  | quoted hs e => rcases hs with hs | hs <;> simp_all [Tracks, State.step, written]
  | closeQuote hs hc =>
    have hslash : c ≠ '/' := by rcases hc with rfl | rfl <;> decide
    rcases hs with hs | hs <;> simp_all [Tracks, State.step, written]

/-- In code, the last character written reads `c` as the character before `c` does, unless `c`
completes the beginning of a comment. -/
lemma Tracks.agree {st : State} {s : Scan} {c : Char} (h : Tracks st s (some c))
    (hs : s.region = .code) (hc : opens '/' (some c) = false ∨ joins s.prev c = false) :
    s.prev = st.last ∨ (s.region = .code ∧ joins s.prev c = false ∧ joins st.last c = false) := by
  obtain ⟨-, h⟩ := h
  simp only [hs] at h
  rcases h with h | ⟨hp, hg⟩ | ⟨hp, ho⟩
  · exact .inl h.1
  · exact .inr ⟨hs, by simp [hp, joins], joins_of_not_glues hg⟩
  · have hj : joins s.prev c = true := by simpa [hp, joins, opens] using ho
    simp_all

/-- How the removal treats a character `c` that `s` reads and `next` follows, and what it writes:
characters outside comments are copied, the slash and the character that begin a comment go, line
breaks of a comment stay (the one behind a line comment ends it), and the end of a block comment
that held two tokens apart on one line leaves a space. -/
inductive Edit (st : State) (s s₁ : Scan) (c : Char) (next : Option Char) : Option Char → Prop
  | copy (h : isComment s.region = false) (h₁ : isComment s₁.region = false)
      (hprev : s₁.prev = some c)
      (hj : s.prev = st.last ∨
        (s.region = .code ∧ joins s.prev c = false ∧ joins st.last c = false))
      (ho : s₁.region = .code → opens c next = false) :
      Edit st s s₁ c next (some c)
  | slash (h : s.region = .code) (h₁ : s₁.region = .code) (hprev : s₁.prev = some '/')
      (hc : c = '/') (ho : opens '/' next = true) : Edit st s s₁ c next none
  | enter (h : s.region = .code) (h₁ : isComment s₁.region = true)
      (hc : c = '#' ∨ (s.prev = some '/' ∧ opens '/' (some c) = true)) : Edit st s s₁ c next none
  | lineBreak (h : isComment s.region = true) (hc : breaksLine c next = true)
      (h₁ : s₁.region = s.region ∨ (s.region = .lineComment ∧ s₁.region = .code ∧ c = '\n')) :
      Edit st s s₁ c next (some c)
  | body (h : isComment s.region = true) (h₁ : s₁.region = s.region)
      (hc : breaksLine c next = false) : Edit st s s₁ c next none
  | close (h : s.region = .blockComment) (h₁ : s₁.region = .code) (hc : c = '/') :
      Edit st s s₁ c next (if !st.broken && glues st.last next then some ' ' else none)

/-- Every character is treated in one of these ways. -/
theorem edit_step {st : State} {s : Scan} {c : Char} (h : Tracks st s (some c)) (rest : List Char) :
    Edit st s (s.step c rest) c rest.head? (written st c (s.step c rest).region rest.head?) := by
  have ht := turn_step s c rest
  generalize s.step c rest = s₁ at ht ⊢
  obtain ⟨region, prev, escaped, spent⟩ := s
  obtain ⟨hr, hlast⟩ := id h
  cases ht with
  | text hs =>
    cases hs
    rw [written_copy (.inl (by rw [hr]; rfl))]
    exact .copy rfl rfl rfl (.inl hlast) (by simp)
  | openTag hs hc hp ha =>
    cases hs
    rw [written_copy (.inl (by rw [hr]; rfl))]
    exact .copy rfl rfl rfl (.inl hlast) (by simp [hc, opens])
  | code hs hj hash =>
    cases hs
    rw [written_code hr]
    split_ifs with ho
    · obtain ⟨rfl, -⟩ : c = '/' ∧ _ := by simpa [opens] using ho
      exact .slash rfl rfl rfl rfl ho
    · exact .copy rfl rfl rfl (h.agree rfl (.inr hj)) (fun _ => by simpa using ho)
  | slashes hs hc hp =>
    rw [written_enter (hr.trans hs) rfl]
    exact .enter hs rfl (.inr ⟨hp, by simp [hc, opens]⟩)
  | slashStar hs hc hp =>
    rw [written_enter (hr.trans hs) rfl]
    exact .enter hs rfl (.inr ⟨hp, by simp [hc, opens]⟩)
  | hash hs hc ha =>
    rw [written_enter (hr.trans hs) rfl]
    exact .enter hs rfl (.inl hc)
  | openQuote hs q hq =>
    cases hs
    have hq' : isProtected q = true ∧ isComment q = false ∧ opens '/' (some c) = false := by
      rcases hq with ⟨rfl, rfl⟩ | ⟨rfl, rfl⟩ <;> exact ⟨rfl, rfl, rfl⟩
    have hcode : q ≠ .code := by rcases hq with ⟨rfl, -⟩ | ⟨rfl, -⟩ <;> decide
    rw [written_copy (.inr ⟨hr, hq'.1⟩)]
    exact .copy rfl hq'.2.1 rfl (h.agree rfl (.inl hq'.2.2)) (fun h₁ => absurd h₁ hcode)
  | closeTag hs hc hp =>
    cases hs
    cases hc
    rw [written_copy (.inr ⟨hr, rfl⟩)]
    exact .copy rfl rfl rfl (h.agree rfl (.inl rfl)) (by simp)
  | line hs hc =>
    cases hs
    rw [written_lineComment hr]
    split_ifs with hb
    · exact .lineBreak rfl hb (.inl rfl)
    · exact .body rfl rfl (by simpa using hb)
  | endLine hs hc =>
    have hb : breaksLine c rest.head? = true := by simp [hc, breaksLine]
    rw [written_lineComment (hr.trans hs), if_pos hb]
    exact .lineBreak (by simp_all [isComment]) hb (.inr ⟨hs, rfl, hc⟩)
  | block hs =>
    cases hs
    rw [written_blockComment hr]
    split_ifs with hb
    · exact .lineBreak rfl hb (.inl rfl)
    · exact .body rfl rfl (by simpa using hb)
  | endBlock hs hc =>
    rw [written_close (hr.trans hs)]
    exact .close hs rfl hc
  | quoted hs e =>
    rcases hs with hs | hs <;> cases hs <;> rw [written_copy (.inl (by rw [hr]; rfl))]
    · exact .copy rfl rfl rfl (.inl hlast) (by simp)
    · exact .copy rfl rfl rfl (.inl hlast) (by simp)
  | closeQuote hs hc =>
    have ho : opens c rest.head? = false := by rcases hc with rfl | rfl <;> simp [opens]
    rcases hs with hs | hs <;> cases hs <;> rw [written_copy (.inl (by rw [hr]; rfl))]
    · exact .copy rfl rfl rfl (.inl hlast) (fun _ => ho)
    · exact .copy rfl rfl rfl (.inl hlast) (fun _ => ho)

/-- One character of a text whose comments are removed: what is written for it, and the state of the
removal behind it. -/
theorem erase_step {st : State} {s : Scan} {c : Char} (h : Tracks st s (some c)) (rest : List Char) :
    ∃ (st₁ : State) (w : Option Char), Tracks st₁ (s.step c rest) rest.head? ∧
      Edit st s (s.step c rest) c rest.head? w ∧ st₁.last = w.or st.last ∧
      erase st (s.label (c :: rest)) = w.toList ++ erase st₁ ((s.step c rest).label rest) ∧
      eraseLabelled st (s.label (c :: rest)) =
        w.toList.map (·, settled (s.step c rest).region) ++
          eraseLabelled st₁ ((s.step c rest).label rest) :=
  ⟨_, _, h.step rest, edit_step h rest, rfl, erase_label_cons .., eraseLabelled_label_cons ..⟩

lemma prefix_erase_outside {st : State} {s : Scan} (hr : st.region = s.region)
    (h : s.region = .outside) {w : List Char} (hw : '?' ∉ w) (rest : List Char) :
    w <+: erase st (s.label rest) ↔ w <+: rest := by
  induction w generalizing st s rest with
  | nil => simp
  | cons a w ih =>
    cases rest with
    | nil => simp [Scan.label, erase]
    | cons c rest =>
      rw [erase_label_cons, written_copy (.inl (by rw [hr, h]; rfl)), Option.toList_some,
        List.singleton_append, List.cons_prefix_cons, List.cons_prefix_cons]
      refine and_congr_right ?_
      rintro rfl
      have h₁ := region_step_outside h (List.ne_of_not_mem_cons hw).symm rest
      exact ih rfl h₁ (by simp_all) rest

lemma prefix_erase_code {st : State} {s : Scan} (hr : st.region = .code) (h : s.region = .code)
    {w : List Char} (hw : ∀ c ∈ w, c ∉ delimiters) {rest : List Char} (hp : w <+: rest) :
    w <+: erase st (s.label rest) := by
  induction w generalizing st s rest with
  | nil => exact List.nil_prefix
  | cons c w ih =>
    obtain ⟨rest, rfl⟩ := hp
    have hc := hw c (by simp)
    have h₁ := region_step_of_not_mem_delimiters h hc (w ++ rest)
    have ho (next : Option Char) : opens c next = false := by
      have hslash : c ≠ '/' := by rintro rfl; simp [delimiters] at hc
      simp [opens, hslash]
    rw [List.cons_append, erase_label_cons, h₁, written_code hr, ho, if_neg (by simp),
      Option.toList_some, List.singleton_append]
    exact List.cons_prefix_cons.mpr
      ⟨rfl, ih rfl h₁ (fun d hd => hw d (by simp [hd])) (List.prefix_append w rest)⟩

lemma head_erase_hash {st : State} {s : Scan} {rest : List Char} (hr : st.region = .code)
    (h : s.region = .code) (ha : rest.head? = some '[') :
    (erase st (s.label rest)).head? = some '[' := by
  obtain ⟨rest, rfl⟩ := List.head?_eq_some_iff.mp ha
  have hp : ['['] <+: erase st (s.label ('[' :: rest)) :=
    prefix_erase_code hr h (by simp [delimiters]) (by simp)
  obtain ⟨out, he⟩ := hp
  simp [← he]

lemma prefix_erase_php {st₁ : State} {s : Scan} {rest : List Char} (h : s.region = .outside)
    (hst : st₁.region = (s.step '?' rest).region) :
    ['p', 'h', 'p'] <+: erase st₁ ((s.step '?' rest).label rest) ↔ ['p', 'h', 'p'] <+: rest := by
  have ht := turn_step s '?' rest
  generalize s.step '?' rest = s₁ at ht hst ⊢
  have hs : s₁.region = .code ∧ ['p', 'h', 'p'] <+: rest ∨ s₁.region = .outside := by
    cases ht <;> simp_all
  rcases hs with ⟨h₁, ha⟩ | h₁
  · exact iff_of_true (prefix_erase_code (hst.trans h₁) h₁ (by simp [delimiters]) ha) ha
  · exact prefix_erase_outside hst h₁ (by decide) rest

lemma step_copied_char {st₁ : State} {s s' : Scan} {c : Char} {rest : List Char}
    (hst : st₁.region = (s.step c rest).region) (h₁ : isComment (s.step c rest).region = false)
    (hr : s'.region = s.region) (he : s'.escaped = s.escaped)
    (hp : s'.prev = s.prev ∨
      (s.region = .code ∧ joins s.prev c = false ∧ joins s'.prev c = false)) :
    s'.step c (erase st₁ ((s.step c rest).label rest)) = s.step c rest := by
  refine step_congr hr he hp ?_ ?_
  · rintro hcode rfl
    have ht := turn_step s '#' rest
    generalize s.step '#' rest = s₁ at ht hst h₁ ⊢
    have ha : s₁.region = .code ∧ rest.head? = some '[' := by
      cases ht <;> simp_all [isComment]
    exact iff_of_true (head_erase_hash (hst.trans ha.1) ha.1 ha.2) ha.2
  · rintro hout rfl
    exact prefix_erase_php hout hst

lemma label_blank_cons {s : Scan} {d : Char} (h : s.region = .code)
    (hd : isBlank d = true ∨ isLineBreak d = true) (out : List Char) :
    s.label (d :: out) = (d, .code) :: ({ s with prev := some d, spent := false } : Scan).label out := by
  have hstep : s.step d out = { s with prev := some d, spent := false } := by
    rcases hd with hd | hd
    · exact step_of_isBlank h hd out
    · exact step_of_isLineBreak h hd out
  rw [Scan.label, hstep, h]

/-- Reading what is written from state `st` on finds every character in its old region. -/
theorem label_erase {st : State} {s s' : Scan} {rest : List Char} (h : Tracks st s rest.head?)
    (hr : s'.region = settled s.region) (he : s'.escaped = s.escaped) (hp : s'.prev = st.last) :
    s'.label (erase st (s.label rest)) = eraseLabelled st (s.label rest) := by
  induction rest generalizing st s s' with
  | nil => rfl
  | cons c rest ih =>
    obtain ⟨st₁, w, hnext, hedit, hlast, herase, hlabelled⟩ := erase_step h rest
    have hescaped : settled (s.step c rest).region = .code → s'.escaped = (s.step c rest).escaped := by
      intro h₁
      rw [he, escaped_step (isProtected_of_settled h₁)]
    rw [herase, hlabelled]
    cases hedit with
    | copy hs h₁ hprev hj ho =>
      have hstep := step_copied_char hnext.1 h₁ (hr.trans (settled_of_not_isComment hs)) he
        (by rw [hp]; tauto)
      have hlabel := ih hnext (settled_of_not_isComment h₁).symm rfl (hprev.trans hlast.symm)
      rw [Option.toList_some, List.singleton_append, Scan.label, hstep, hlabel]
      simp [settled_of_not_isComment h₁]
    | slash hs h₁ hprev hc ho =>
      have hcode : settled (s.step c rest).region = .code := by rw [h₁]; rfl
      exact ih hnext (by rw [hr, hs, h₁]) (hescaped hcode) (hp.trans hlast.symm)
    | enter hs h₁ hc =>
      have hcode := settled_of_isComment h₁
      exact ih hnext (by rw [hr, hs, hcode]; rfl) (hescaped hcode) (hp.trans hlast.symm)
    | body hs h₁ hc =>
      have hcode := settled_of_isComment (h₁ ▸ hs)
      exact ih hnext (by rw [hr, h₁]) (hescaped hcode) (hp.trans hlast.symm)
    | lineBreak hs hc h₁ =>
      have hcode := settled_of_lineBreak hs h₁
      have hbreak := isLineBreak_of_breaksLine hc
      have hs' := hr.trans (settled_of_isComment hs)
      have hlabel : ({ s' with prev := some c, spent := false } : Scan).label _ = _ :=
        ih hnext (hs'.trans hcode.symm) (hescaped hcode) hlast.symm
      rw [Option.toList_some, List.singleton_append, label_blank_cons hs' (.inr hbreak), hlabel, hcode]
      rfl
    | close hs h₁ hc =>
      have hcode : settled (s.step c rest).region = .code := by rw [h₁]; rfl
      have hs' : s'.region = .code := by rw [hr, hs]; rfl
      by_cases hg : (!st.broken && glues st.last rest.head?) = true
      · rw [if_pos hg] at hlast ⊢
        have hlabel : ({ s' with prev := some ' ', spent := false } : Scan).label _ = _ :=
          ih hnext (hs'.trans hcode.symm) (hescaped hcode) hlast.symm
        rw [Option.toList_some, List.singleton_append, label_blank_cons hs' (.inl rfl), hlabel, hcode]
        rfl
      · rw [if_neg hg] at hlast ⊢
        exact ih hnext (hs'.trans hcode.symm) (hescaped hcode) (hp.trans hlast.symm)

/-- Reading the text without its comments from scratch finds the regions that their removal left. -/
theorem label_strip (text : List Char) : label (strip text) = eraseLabelled {} (label text) := by
  have h : Tracks {} {} text.head? := ⟨rfl, rfl⟩
  exact label_erase h rfl rfl rfl

/-- A text in which no comment is read. -/
def CommentFree (text : List Char) : Prop :=
  ∀ x ∈ label text, isComment x.2 = false

lemma isComment_eraseLabelled (st : State) (l : List (Char × Region)) :
    ∀ x ∈ eraseLabelled st l, isComment x.2 = false := by
  induction l generalizing st with
  | nil => simp [eraseLabelled]
  | cons y l ih =>
    intro x hx
    rcases List.mem_append.mp hx with hx | hx
    · obtain ⟨c, -, rfl⟩ := List.mem_map.mp hx
      exact isComment_settled y.2
    · exact ih _ x hx

lemma commentFree_strip (text : List Char) : CommentFree (strip text) := by
  intro x hx
  rw [label_strip] at hx
  exact isComment_eraseLabelled _ _ x hx

end PhpSlim.Proofs
