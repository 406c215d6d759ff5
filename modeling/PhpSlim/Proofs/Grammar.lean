import PhpSlim.Proofs.Reading
import PhpSlim.Region.Cursor

/-!
# The grammar of regions

`construct` takes one construct of the grammar off the front of a text: a tag, a whole comment, a
whole string or a single character. `constructs` reads a text construct by construct. The main
result is that reading one character at a time finds the same regions.
-/

namespace PhpSlim.Proofs
open PhpSlim.Text

/-- The length of the part of `text` before the first place where `ends` holds of what stands before
and behind it; without such a place, the length of `text`. -/
def extent (ends : List Char → List Char → Bool) (text : List Char) : Nat :=
  ((List.range text.length).find? fun n => ends (text.take n) (text.drop n)).getD text.length

def endsLine (_before behind : List Char) : Bool :=
  behind.head? == some '\n'

def endsBlock (_before behind : List Char) : Bool :=
  ['*', '/'].isPrefixOf behind

/-- The number of backslashes at the end of a text. -/
def backslashes (before : List Char) : Nat :=
  (before.reverse.takeWhile (· == '\\')).length

def endsString (quote : Char) (before behind : List Char) : Bool :=
  behind.head? == some quote && backslashes before % 2 == 0

/-- The inside of a comment or of a string, of region `r`, with the delimiter that ends it. The
characters of the delimiter have the regions `close`. -/
def stretch (r : Region) (ends : List Char → List Char → Bool) (close : List Region)
    (text : List Char) : List (Char × Region) :=
  (text.take (extent ends text)).map (·, r) ++ (text.drop (extent ends text)).zip close

inductive Mode where
  | outside
  | code
  deriving DecidableEq

/-- The construct at the front of a text, and the mode behind it. -/
def construct : Mode → List Char → List (Char × Region) × Mode
  | m, [] => ([], m)
  | .outside, c :: rest =>
    if ['<', '?', 'p', 'h', 'p'] <+: c :: rest then
      ([('<', .outside), ('?', .code), ('p', .code), ('h', .code), ('p', .code)], .code)
    else ([(c, .outside)], .outside)
  | .code, c :: rest =>
    if ['/', '/'] <+: c :: rest then
      ([('/', .code), ('/', .lineComment)] ++ stretch .lineComment endsLine [.code] rest.tail, .code)
    else if ['/', '*'] <+: c :: rest then
      ([('/', .code), ('*', .blockComment)] ++
        stretch .blockComment endsBlock [.blockComment, .code] rest.tail, .code)
    else if c = '#' ∧ rest.head? ≠ some '[' then
      (('#', .lineComment) :: stretch .lineComment endsLine [.code] rest, .code)
    else if c = '\'' then
      (('\'', .singleQuoted) :: stretch .singleQuoted (endsString '\'') [.code] rest, .code)
    else if c = '"' then
      (('"', .doubleQuoted) :: stretch .doubleQuoted (endsString '"') [.code] rest, .code)
    else if ['?', '>'] <+: c :: rest then ([('?', .code), ('>', .outside)], .outside)
    else ([(c, .code)], .code)

lemma construct_length_pos (m : Mode) (c : Char) (rest : List Char) :
    0 < (construct m (c :: rest)).1.length := by
  cases m with
  | outside =>
    simp only [construct]
    split_ifs <;> simp
  | code =>
    simp only [construct]
    split_ifs <;> simp

/-- The constructs of a text, with the region of every character. -/
def constructs (m : Mode) (text : List Char) : List (Char × Region) :=
  match text with
  | [] => []
  | c :: rest =>
    let front := construct m (c :: rest)
    front.1 ++ constructs front.2 ((c :: rest).drop front.1.length)
  termination_by text.length
  decreasing_by
    have h := construct_length_pos m c rest
    simp only [List.length_drop, List.length_cons]
    omega

lemma extent_cons (ends : List Char → List Char → Bool) (c : Char) (rest : List Char) :
    extent ends (c :: rest) =
      if ends [] (c :: rest) then 0 else extent (fun before => ends (c :: before)) rest + 1 := by
  unfold extent
  rw [List.length_cons, List.range_succ_eq_map, List.find?_cons]
  by_cases h : ends [] (c :: rest) = true
  · simp [h]
  · simp only [List.take_zero, List.drop_zero, h, Bool.false_eq_true, ite_false, List.find?_map,
      Function.comp_def, List.take_succ_cons, List.drop_succ_cons]
    cases (List.range rest.length).find? fun n => ends (c :: rest.take n) (rest.drop n) <;> rfl

section
variable {r : Region} {ends : List Char → List Char → Bool} {close : List Region}

lemma stretch_nil : stretch r ends close [] = [] := by
  simp [stretch]

lemma stretch_of_ends {c : Char} {rest : List Char} (h : ends [] (c :: rest) = true) :
    stretch r ends close (c :: rest) = (c :: rest).zip close := by
  simp [stretch, extent_cons, h]

lemma stretch_of_not_ends {c : Char} {rest : List Char} (h : ends [] (c :: rest) = false) :
    stretch r ends close (c :: rest) =
      (c, r) :: stretch r (fun before => ends (c :: before)) close rest := by
  simp [stretch, extent_cons, h]

end

/-- The reading `s` stands between two constructs. Nothing is asked of it at the end of a text. -/
def Between (m : Mode) (s : Scan) : List Char → Prop
  | [] => True
  | c :: rest =>
    match m with
    | .outside => s.region = .outside ∧ (s.prev = some '<' → ¬ ['?', 'p', 'h', 'p'] <+: c :: rest)
    | .code => s.region = .code ∧ joins s.prev c = false

lemma between_code_of_idle {s : Scan} (h : s.region = .code) (hp : Idle s.prev) (text : List Char) :
    Between .code s text := by
  cases text with
  | nil => trivial
  | cons c rest => exact ⟨h, hp.joins_eq_false c⟩

/-- The reading of `text` from `s` on begins with `front`, and stands between two constructs there. -/
def ReadsTo (s : Scan) (text : List Char) (front : List (Char × Region)) (m : Mode) : Prop :=
  ∃ s', s.label text = front ++ s'.label (text.drop front.length) ∧
    Between m s' (text.drop front.length)

lemma ReadsTo.cons {s : Scan} {c : Char} {rest : List Char} {front : List (Char × Region)} {m : Mode}
    {r : Region} (h : ReadsTo (s.step c rest) rest front m) (hr : (s.step c rest).region = r) :
    ReadsTo s (c :: rest) ((c, r) :: front) m := by
  obtain ⟨s', hl, hb⟩ := h
  refine ⟨s', ?_, hb⟩
  rw [Scan.label, hr, hl]
  rfl

lemma readsTo_nil {m : Mode} {s : Scan} {text : List Char} (h : Between m s text) :
    ReadsTo s text [] m :=
  ⟨s, rfl, h⟩

/-- Reads a stretch: `I` is what holds of the text read, the reading and the text left as long as the
stretch lasts. -/
lemma readsTo_stretch {r : Region} (ends : List Char → List Char → Bool) {close : List Region}
    (I : List Char → Scan → List Char → Prop)
    (stay : ∀ before s c rest, I before s (c :: rest) → ends before (c :: rest) = false →
      (s.step c rest).region = r ∧ I (before ++ [c]) (s.step c rest) rest)
    (stop : ∀ before s c rest, I before s (c :: rest) → ends before (c :: rest) = true →
      ReadsTo s (c :: rest) ((c :: rest).zip close) .code)
    (before : List Char) {s : Scan} {text : List Char} (h : I before s text) :
    ReadsTo s text (stretch r (fun more => ends (before ++ more)) close text) .code := by
  induction text generalizing before s with
  | nil =>
    rw [stretch_nil]
    exact readsTo_nil trivial
  | cons c rest ih =>
    by_cases he : ends before (c :: rest) = true
    · rw [stretch_of_ends (by simpa using he)]
      exact stop before s c rest h he
    · rw [Bool.not_eq_true] at he
      obtain ⟨hr, hnext⟩ := stay before s c rest h he
      have hrest := ih (before ++ [c]) hnext
      simp only [List.append_assoc, List.singleton_append] at hrest
      rw [stretch_of_not_ends (by simpa using he)]
      exact hrest.cons hr

lemma readsTo_lineComment {s : Scan} (h : s.region = .lineComment) (text : List Char) :
    ReadsTo s text (stretch .lineComment endsLine [.code] text) .code := by
  refine readsTo_stretch endsLine (fun _ s _ => s.region = .lineComment) ?_ ?_ [] h
  · intro _ s c rest hs he
    have hc : c ≠ '\n' := by simpa [endsLine] using he
    have hr : (s.step c rest).region = .lineComment := by
      have ht := turn_step s c rest
      generalize s.step c rest = s₁ at ht
      cases ht <;> simp_all
    exact ⟨hr, hr⟩
  · intro _ s c rest hs he
    obtain rfl : c = '\n' := by simpa [endsLine] using he
    obtain ⟨hr, hp⟩ : (s.step '\n' rest).region = .code ∧ (s.step '\n' rest).prev = some '\n' := by
      have ht := turn_step s '\n' rest
      generalize s.step '\n' rest = s₁ at ht
      cases ht <;> simp_all
    have hi : Idle (s.step '\n' rest).prev := hp ▸ idle_some (by decide) (by decide)
    rw [List.zip_cons_cons, List.zip_nil_right]
    exact (readsTo_nil (between_code_of_idle hr hi rest)).cons hr

lemma readsTo_blockComment {s : Scan} (h : s.region = .blockComment) (hp : s.prev = none)
    (text : List Char) :
    ReadsTo s text (stretch .blockComment endsBlock [.blockComment, .code] text) .code := by
  refine readsTo_stretch endsBlock
    (fun _ s rest => s.region = .blockComment ∧ (s.prev = some '*' → rest.head? ≠ some '/'))
    ?_ ?_ [] ⟨h, by simp [hp]⟩
  · intro _ s c rest hs he
    have hstep : s.step c rest = { s with prev := some c, spent := false } := by
      obtain ⟨region, prev, escaped, spent⟩ := s
      obtain ⟨rfl, hprev⟩ := hs
      have hslash : (c == '/' && prev == some '*') = false := by
        by_contra hc
        simp only [Bool.not_eq_false, Bool.and_eq_true, beq_iff_eq] at hc
        exact hprev hc.2 (by simp [hc.1])
      simp [Scan.step, Scan.classify, Scan.advance, hslash]
    rw [hstep]
    refine ⟨hs.1, hs.1, ?_⟩
    intro hc hrest
    obtain rfl : c = '*' := by simpa using hc
    obtain ⟨rest, rfl⟩ := List.head?_eq_some_iff.mp hrest
    simp [endsBlock] at he
  · intro _ s c rest hs he
    obtain ⟨after, ha⟩ := List.isPrefixOf_iff_prefix.mp he
    obtain ⟨rfl, rfl⟩ : '*' = c ∧ '/' :: after = rest := by simpa using ha
    obtain ⟨region, prev, escaped, spent⟩ := s
    obtain ⟨rfl, -⟩ := hs
    rw [List.zip_cons_cons, List.zip_cons_cons, List.zip_nil_right]
    refine ReadsTo.cons (ReadsTo.cons (readsTo_nil ?_) rfl) rfl
    exact between_code_of_idle rfl idle_none after

lemma backslashes_append (before : List Char) (c : Char) :
    backslashes (before ++ [c]) = if c = '\\' then backslashes before + 1 else 0 := by
  by_cases h : c = '\\' <;> simp [backslashes, h]

/-- The strings of code, by their region and their quote. -/
def IsString (q : Region) (quote : Char) : Prop :=
  (q = .singleQuoted ∧ quote = '\'') ∨ (q = .doubleQuoted ∧ quote = '"')

lemma step_quoted {s : Scan} {q : Region} {quote : Char} (h : s.region = q) (hq : IsString q quote)
    (c : Char) (rest : List Char) :
    s.step c rest =
      if c = quote ∧ s.escaped = false then { s with region := .code, prev := some c, spent := false }
      else { s with prev := some c, escaped := c == '\\' && !s.escaped, spent := false } := by
  obtain ⟨region, prev, escaped, spent⟩ := s
  obtain rfl : region = q := h
  rcases hq with ⟨rfl, rfl⟩ | ⟨rfl, rfl⟩
  · by_cases hc : c = '\'' <;> cases escaped <;>
      simp [Scan.step, Scan.classify, Scan.readQuoted, Scan.advance, hc]
  · by_cases hc : c = '"' <;> cases escaped <;>
      simp [Scan.step, Scan.classify, Scan.readQuoted, Scan.advance, hc]

lemma readsTo_quoted {s : Scan} {q : Region} {quote : Char} (h : s.region = q)
    (hq : IsString q quote) (he : s.escaped = false) (text : List Char) :
    ReadsTo s text (stretch q (endsString quote) [.code] text) .code := by
  -- The reading stands behind an open backslash iff an odd number of backslashes precedes it.
  refine readsTo_stretch (endsString quote)
    (fun before s _ => s.region = q ∧ s.escaped = decide (backslashes before % 2 = 1))
    ?_ ?_ [] ⟨h, by simp [he, backslashes]⟩
  · rintro before s c rest ⟨hs, hesc⟩ hend
    have hopen : ¬ (c = quote ∧ s.escaped = false) := by
      rintro ⟨rfl, hfalse⟩
      rw [hfalse] at hesc
      have hodd : ¬ backslashes before % 2 = 1 := by simpa using hesc.symm
      have heven : backslashes before % 2 = 0 := by omega
      simp [endsString, heven] at hend
    rw [step_quoted hs hq, if_neg hopen]
    refine ⟨hs, hs, ?_⟩
    rw [backslashes_append]
    by_cases hc : c = '\\'
    · have hiff : decide ((backslashes before + 1) % 2 = 1) = !decide (backslashes before % 2 = 1) := by
        rw [← decide_not, decide_eq_decide]
        omega
      rw [if_pos hc, hiff, ← hesc, hc]
      rfl
    · simp [hc]
  · rintro before s c rest ⟨hs, hesc⟩ hend
    simp only [endsString, List.head?_cons, Bool.and_eq_true, beq_iff_eq, Option.some.injEq] at hend
    obtain ⟨rfl, heven⟩ := hend
    have hclose : s.escaped = false := by
      rw [hesc, heven]
      rfl
    have hstep := step_quoted hs hq c rest
    rw [if_pos ⟨rfl, hclose⟩] at hstep
    have hi : Idle (some c) := by
      rcases hq with ⟨-, rfl⟩ | ⟨-, rfl⟩ <;> exact idle_some (by decide) (by decide)
    rw [List.zip_cons_cons, List.zip_nil_right]
    refine (readsTo_nil (between_code_of_idle ?_ ?_ rest)).cons ?_
    · rw [hstep]
    · rw [hstep]
      exact hi
    · rw [hstep]

lemma ReadsTo.plain {s : Scan} {c : Char} {rest : List Char} {front : List (Char × Region)} {m : Mode}
    (h : ReadsTo { s with prev := some c, spent := false } rest front m) (hs : s.region = .code)
    (hj : joins s.prev c = false) (hash : c = '#' → rest.head? = some '[') (hsingle : c ≠ '\'')
    (hdouble : c ≠ '"') : ReadsTo s (c :: rest) ((c, .code) :: front) m := by
  have hstep : s.step c rest = { s with prev := some c, spent := false } := by
    have ht := turn_step s c rest
    generalize s.step c rest = s₁ at ht
    cases ht with
    | openQuote _ q hq => rcases hq with ⟨-, hc⟩ | ⟨-, hc⟩ <;> contradiction
    | _ => simp_all [joins]
  rw [← hstep] at h
  exact h.cons (by rw [hstep]; exact hs)

lemma readsTo_construct_outside {s : Scan} {c : Char} {rest : List Char}
    (h : Between .outside s (c :: rest)) :
    ReadsTo s (c :: rest) (construct .outside (c :: rest)).1 (construct .outside (c :: rest)).2 := by
  obtain ⟨region, prev, escaped, spent⟩ := s
  obtain ⟨rfl, hp⟩ := h
  dsimp only at hp
  simp only [construct]
  split_ifs with htag
  · obtain ⟨after, ha⟩ := htag
    obtain ⟨rfl, rfl⟩ : '<' = c ∧ '?' :: 'p' :: 'h' :: 'p' :: after = rest := by simpa using ha
    refine ReadsTo.cons (ReadsTo.cons (ReadsTo.cons (ReadsTo.cons (ReadsTo.cons
      (readsTo_nil ?_) rfl) rfl) rfl) rfl) rfl
    exact between_code_of_idle rfl (idle_some (by decide) (by decide)) after
  · have hstep : (Scan.mk .outside prev escaped spent).step c rest =
        { region := .outside, prev := some c, escaped := escaped, spent := false } := by
      have hopen : (c == '?' && prev == some '<' && ['p', 'h', 'p'].isPrefixOf rest) = false := by
        by_contra hc
        simp only [Bool.not_eq_false, Bool.and_eq_true, beq_iff_eq, List.isPrefixOf_iff_prefix] at hc
        obtain ⟨⟨rfl, hprev⟩, hphp⟩ := hc
        exact hp hprev (List.cons_prefix_cons.mpr ⟨rfl, hphp⟩)
      simp [Scan.step, Scan.classify, Scan.advance, hopen]
    refine (readsTo_nil ?_).cons (by rw [hstep])
    rw [hstep]
    cases rest with
    | nil => trivial
    | cons d rest =>
      refine ⟨rfl, ?_⟩
      rintro hc hphp
      obtain rfl : c = '<' := by simpa using hc
      exact htag (List.cons_prefix_cons.mpr ⟨rfl, hphp⟩)

lemma readsTo_construct_code {s : Scan} {c : Char} {rest : List Char}
    (h : Between .code s (c :: rest)) :
    ReadsTo s (c :: rest) (construct .code (c :: rest)).1 (construct .code (c :: rest)).2 := by
  obtain ⟨region, prev, escaped, spent⟩ := s
  obtain ⟨rfl, hj⟩ := h
  dsimp only at hj
  simp only [construct]
  split_ifs with hline hblock hhash hsingle hdouble hclose
  · obtain ⟨after, ha⟩ := hline
    obtain ⟨rfl, rfl⟩ : '/' = c ∧ '/' :: after = rest := by simpa using ha
    refine ReadsTo.plain ?_ rfl hj (by simp) (by simp) (by simp)
    exact (readsTo_lineComment rfl after).cons rfl
  · obtain ⟨after, ha⟩ := hblock
    obtain ⟨rfl, rfl⟩ : '/' = c ∧ '*' :: after = rest := by simpa using ha
    refine ReadsTo.plain ?_ rfl hj (by simp) (by simp) (by simp)
    exact (readsTo_blockComment rfl rfl after).cons rfl
  · obtain ⟨rfl, hnext⟩ := hhash
    have hr : ((Scan.mk .code prev escaped spent).step '#' rest).region = .lineComment := by
      have ht := turn_step ⟨.code, prev, escaped, spent⟩ '#' rest
      generalize (Scan.mk .code prev escaped spent).step '#' rest = s₁ at ht
      cases ht <;> simp_all
    exact (readsTo_lineComment hr rest).cons hr
  · subst hsingle
    exact (readsTo_quoted rfl (.inl ⟨rfl, rfl⟩) rfl rest).cons rfl
  · subst hdouble
    exact (readsTo_quoted rfl (.inr ⟨rfl, rfl⟩) rfl rest).cons rfl
  · obtain ⟨after, ha⟩ := hclose
    obtain ⟨rfl, rfl⟩ : '?' = c ∧ '>' :: after = rest := by simpa using ha
    refine ReadsTo.plain ?_ rfl hj (by simp) (by simp) (by simp)
    refine ReadsTo.cons (readsTo_nil ?_) rfl
    cases after with
    | nil => trivial
    | cons d after => exact ⟨rfl, fun hlt => by simp [Scan.step, Scan.advance] at hlt⟩
  · refine ReadsTo.plain (readsTo_nil ?_) rfl hj ?_ hsingle hdouble
    · cases rest with
      | nil => trivial
      | cons d rest =>
        refine ⟨rfl, ?_⟩
        by_contra hjoins
        simp only [joins, Option.some_beq_some, Bool.not_eq_false, Bool.or_eq_true, Bool.and_eq_true,
          beq_iff_eq] at hjoins
        rcases hjoins with ⟨rfl, rfl | rfl⟩ | ⟨rfl, rfl⟩ <;> simp_all
    · rintro rfl
      by_contra hnext
      exact hhash ⟨rfl, hnext⟩

/-- Reading between two constructs finds the construct that follows, and then stands behind it. -/
theorem readsTo_construct {m : Mode} {s : Scan} {c : Char} {rest : List Char}
    (h : Between m s (c :: rest)) :
    ReadsTo s (c :: rest) (construct m (c :: rest)).1 (construct m (c :: rest)).2 := by
  cases m with
  | outside => exact readsTo_construct_outside h
  | code => exact readsTo_construct_code h

lemma label_eq_constructs {m : Mode} {s : Scan} {text : List Char} (h : Between m s text) :
    s.label text = constructs m text := by
  induction hn : text.length using Nat.strong_induction_on generalizing m s text with
  | _ n ih =>
    cases text with
    | nil => rw [constructs]; rfl
    | cons c rest =>
      obtain ⟨s', hl, hb⟩ := readsTo_construct h
      have hpos := construct_length_pos m c rest
      have hlt : ((c :: rest).drop (construct m (c :: rest)).1.length).length < n := by
        rw [List.length_drop, ← hn, List.length_cons]
        omega
      rw [constructs, hl, ih _ hlt hb rfl]

lemma label_eq_constructs_outside (text : List Char) : label text = constructs .outside text := by
  have h : Between .outside {} text := by
    cases text with
    | nil => trivial
    | cons c rest => exact ⟨rfl, by simp⟩
  exact label_eq_constructs h

/-- What a cursor finds on its way to the end of its text, when it classifies every character before
it moves past it. -/
def findings (k : Cursor) : List (Char × Region) :=
  match _h : k.current with
  | none => []
  | some c => (c, (k.classify c).scan.region) :: findings (k.classify c).advance
  termination_by k.text.length - k.position
  decreasing_by
    have hlt : k.position < k.text.length := (List.getElem?_eq_some_iff.mp _h).1
    simp only [Cursor.classify, Cursor.advance]
    omega

lemma findings_eq_label (k : Cursor) : findings k = k.scan.label (k.text.drop k.position) := by
  fun_induction findings k with
  | case1 k h =>
    have hle : k.text.length ≤ k.position := List.getElem?_eq_none_iff.mp h
    rw [List.drop_eq_nil_of_le hle]
    rfl
  | case2 k c h ih =>
    have hdrop : k.text.drop k.position = c :: k.after := by
      obtain ⟨hlt, hc⟩ := List.getElem?_eq_some_iff.mp h
      exact (List.drop_eq_getElem_cons hlt).trans (congrArg (· :: _) hc)
    have hstep : (k.classify c).advance.scan = k.scan.step c k.after := by
      have hcurrent : (k.classify c).current = some c := h
      rw [Cursor.advance, hcurrent]
      rfl
    rw [hdrop, Scan.label, ih, hstep]
    rfl

/-- Reading one character at a time finds the regions of the grammar: a cursor that is moved through
a text agrees with the reader that takes tags, comments and strings as a whole. -/
theorem cursor_follows_the_grammar (text : List Char) :
    findings { text := text } = constructs .outside text ∧ label text = constructs .outside text := by
  have h := label_eq_constructs_outside text
  refine ⟨?_, h⟩
  rw [findings_eq_label]
  exact h

end PhpSlim.Proofs
