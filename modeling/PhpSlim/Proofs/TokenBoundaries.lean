import PhpSlim.Proofs.ProtectedText

/-!
# Boundaries between tokens under runs of stages

The significant characters of a text are those of its code that are neither blanks nor line breaks
nor slashes of a comment. Runs of stages keep them all, and close the gap between two of them only
where the two cannot be read as one token.
-/

namespace PhpSlim.Proofs
open PhpSlim.Text PhpSlim.Comments PhpSlim.Blanks

/-- Whether `x`, with `next` behind it, is the slash that begins `//` or `/*`. -/
def opensComment (x : Char × Region) (next : Option (Char × Region)) : Bool :=
  x.1 == '/' && (next == some ('/', .lineComment) || next == some ('*', .blockComment))

/-- Whether `x`, behind a character of region `before`, is the slash that ends a block comment. -/
def closesComment (before : Region) (x : Char × Region) : Bool :=
  x.1 == '/' && before == .blockComment

/-- A character of code that is neither a blank nor a line break. -/
def isInk (x : Char × Region) : Bool :=
  x.2 == .code && !isBlank x.1 && !isLineBreak x.1

def isSignificant (before : Region) (x : Char × Region) (next : Option (Char × Region)) : Bool :=
  isInk x && !opensComment x next && !closesComment before x

/-- A significant character, with all that stands between it and the significant one before it. -/
structure Sign where
  gap : List (Char × Region)
  char : Char
  deriving DecidableEq, Repr

/-- The significant characters of labelled text behind a character of region `before`; `gap` is what
has passed since the last of them. -/
def signs (before : Region) (gap : List (Char × Region)) : List (Char × Region) → List Sign
  | [] => []
  | x :: rest =>
    if isSignificant before x rest.head? then ⟨gap, x.1⟩ :: signs x.2 [] rest
    else signs x.2 (gap ++ [x]) rest

lemma signs_of_significant {before : Region} {x : Char × Region} {rest : List (Char × Region)}
    (h : isSignificant before x rest.head? = true) (gap : List (Char × Region)) :
    signs before gap (x :: rest) = ⟨gap, x.1⟩ :: signs x.2 [] rest := by
  rw [signs, if_pos h]

lemma signs_of_not_significant {before : Region} {x : Char × Region} {rest : List (Char × Region)}
    (h : isSignificant before x rest.head? = false) (gap : List (Char × Region)) :
    signs before gap (x :: rest) = signs x.2 (gap ++ [x]) rest := by
  rw [signs, if_neg (by simp [h])]

lemma not_significant_of_not_isInk {x : Char × Region} (h : isInk x = false) (before : Region)
    (next : Option (Char × Region)) : isSignificant before x next = false := by
  simp [isSignificant, h]

lemma signs_of_not_isInk {x : Char × Region} (h : isInk x = false) (before : Region)
    (gap rest : List (Char × Region)) :
    signs before gap (x :: rest) = signs x.2 (gap ++ [x]) rest :=
  signs_of_not_significant (not_significant_of_not_isInk h before rest.head?) gap

lemma isInk_of_significant {before : Region} {x : Char × Region} {next : Option (Char × Region)}
    (h : isSignificant before x next = true) :
    x.2 = .code ∧ isBlank x.1 = false ∧ isLineBreak x.1 = false := by
  simp only [isSignificant, isInk, Bool.and_eq_true, Bool.not_eq_true', beq_iff_eq] at h
  exact ⟨h.1.1.1.1, h.1.1.1.2, h.1.1.2⟩

lemma not_isInk_of_isComment {r : Region} (h : isComment r = true) {c : Char} :
    isInk (c, r) = false := by
  cases r <;> simp_all [isInk, isComment]

lemma signs_blanks {out : List Char} (h : ∀ b ∈ out, isBlank b = true)
    (gap l : List (Char × Region)) :
    signs .code gap (out.map (·, Region.code) ++ l) =
      signs .code (gap ++ out.map (·, Region.code)) l := by
  induction out generalizing gap with
  | nil => simp
  | cons b out ih =>
    have hb : isInk (b, .code) = false := by simp [isInk, h b List.mem_cons_self]
    have hout : ∀ d ∈ out, isBlank d = true := fun d hd => h d (List.mem_cons_of_mem b hd)
    rw [List.map_cons, List.cons_append, signs_of_not_isInk hb, ih hout]
    simp

/-- Two characters that stay two tokens when they touch. -/
def Apart (a b : Char) : Prop :=
  fuses a b = false ∧ ¬ (isWordChar a = true ∧ isWordChar b = true)

lemma apart_of_not_glues {a b : Char} (h : glues (some a) (some b) = false) : Apart a b := by
  simp only [glues, Bool.or_eq_false_iff, Bool.and_eq_false_iff] at h
  refine ⟨h.2, ?_⟩
  rintro ⟨ha, hb⟩
  simp [ha, hb] at h

/-- What may become of the significant character `x` behind `prev`: a gap before it is never opened,
and closed only where the two stay apart. -/
structure Kept (prev : Option Char) (x x' : Sign) : Prop where
  char : x'.char = x.char
  touch : x.gap = [] → x'.gap = []
  apart : ∀ a, prev = some a → x.gap ≠ [] → x'.gap = [] → Apart a x.char

/-- The same significant characters, each of them kept; `prev` stands before the first. -/
inductive Tighter : Option Char → List Sign → List Sign → Prop
  | nil (prev : Option Char) : Tighter prev [] []
  | cons {prev : Option Char} {x x' : Sign} {l l' : List Sign} (h : Kept prev x x')
      (hl : Tighter (some x.char) l l') : Tighter prev (x :: l) (x' :: l')

lemma Kept.refl (prev : Option Char) (x : Sign) : Kept prev x x :=
  ⟨rfl, id, fun _ _ h h' => absurd h' h⟩

lemma Kept.trans {prev : Option Char} {x y z : Sign} (h : Kept prev x y) (h' : Kept prev y z) :
    Kept prev x z := by
  refine ⟨h'.char.trans h.char, fun hx => h'.touch (h.touch hx), ?_⟩
  intro a ha hx hz
  by_cases hy : y.gap = []
  · exact h.apart a ha hx hy
  · rw [← h.char]
    exact h'.apart a ha hy hz

lemma Tighter.refl (prev : Option Char) (l : List Sign) : Tighter prev l l := by
  induction l generalizing prev with
  | nil => exact .nil prev
  | cons x l ih => exact .cons (.refl prev x) (ih _)

lemma Tighter.trans {prev : Option Char} {l m n : List Sign} (h : Tighter prev l m)
    (h' : Tighter prev m n) : Tighter prev l n := by
  induction h generalizing n with
  | nil prev => exact h'
  | cons hx hl ih =>
    cases h' with
    | cons hy hm => exact .cons (hx.trans hy) (ih (hx.char ▸ hm))

lemma Tighter.map_char {prev : Option Char} {l l' : List Sign} (h : Tighter prev l l') :
    l'.map Sign.char = l.map Sign.char := by
  induction h with
  | nil => rfl
  | cons hx hl ih => rw [List.map_cons, List.map_cons, hx.char, ih]

lemma Tighter.get {prev : Option Char} {l l' : List Sign} (h : Tighter prev l l') {i : Nat}
    {x y y' : Sign} (hx : l[i]? = some x) (hy : l[i + 1]? = some y) (hy' : l'[i + 1]? = some y') :
    Kept (some x.char) y y' := by
  induction h generalizing i with
  | nil => simp at hx
  | cons hk hl ih =>
    rw [List.getElem?_cons_succ] at hy hy'
    cases i with
    | zero =>
      obtain rfl : _ = x := by simpa using hx
      cases hl with
      | nil => simp at hy
      | cons hk' hl' =>
        obtain rfl : _ = y := by simpa using hy
        obtain rfl : _ = y' := by simpa using hy'
        exact hk'
    | succ i => exact ih (by simpa using hx) hy hy'

lemma Tighter.char {prev : Option Char} {before before' : Region} {x : Char × Region}
    {g g' l l' : List (Char × Region)}
    (h : isSignificant before' x l'.head? = isSignificant before x l.head?)
    (hsign : isSignificant before x l.head? = true →
      Kept prev ⟨g, x.1⟩ ⟨g', x.1⟩ ∧ Tighter (some x.1) (signs x.2 [] l) (signs x.2 [] l'))
    (hother : isSignificant before x l.head? = false →
      Tighter prev (signs x.2 (g ++ [x]) l) (signs x.2 (g' ++ [x]) l')) :
    Tighter prev (signs before g (x :: l)) (signs before' g' (x :: l')) := by
  by_cases hx : isSignificant before x l.head? = true
  · rw [signs_of_significant hx, signs_of_significant (h.trans hx)]
    exact .cons (hsign hx).1 (hsign hx).2
  · rw [Bool.not_eq_true] at hx
    rw [signs_of_not_significant hx, signs_of_not_significant (h.trans hx)]
    exact hother hx

/-! ### Compaction -/

/-- Whether blanks before the next character wait to be written or dropped. -/
def isWaiting : Place → Bool
  | .copied => false
  | .tag _ => false
  | .tagEnd => false
  | .tagBlank => false
  | .lineStart => false
  | .word _ => false
  | .wordBlank _ _ => true
  | .operator _ => false
  | .operatorBlank _ _ => true
  | .dot => false
  | .dotBlank => true
  | .number => false
  | .numberBlank => true

/-- Whether `a` can be the last character written at a place, with no gap behind it. -/
def Follows (a : Char) : Place → Prop
  | .copied => True
  | .tag _ => True
  | .tagEnd => True
  | .tagBlank => False
  | .lineStart => False
  | .word w => a = w
  | .wordBlank w _ => a = w
  | .operator o => a = o ∧ isOperator o = true
  | .operatorBlank o _ => a = o ∧ isOperator o = true
  | .dot => a = '.'
  | .dotBlank => a = '.'
  | .number => isNumberChar a = true
  | .numberBlank => isNumberChar a = true

lemma gap_of_not_waiting {p : Place} (h : isWaiting p = false) (c : Char) : p.gap c = [] := by
  cases p <;> first | rfl | simp [isWaiting] at h

lemma not_isWaiting_ink (p : Place) (c : Char) : isWaiting (p.ink c) = false := by
  unfold Place.ink
  split
  · rfl
  · rfl
  · split_ifs <;> rfl

lemma not_isWaiting_enter (c : Char) : isWaiting (Place.enter c) = false := by
  unfold Place.enter
  split_ifs <;> rfl

lemma follows_ink {c : Char} (hc : isLineBreak c = false) (p : Place) : Follows c (p.ink c) := by
  unfold Place.ink
  split
  · trivial
  · trivial
  · split_ifs with hn hl hd ho
    · simp only [Bool.or_eq_true, Bool.and_eq_true] at hn
      rcases hn with hn | hn
      · exact isNumberChar_of_startsNumber hn.2
      · exact hn.2
    · simp [hc] at hl
    · simp only [Bool.and_eq_true, beq_iff_eq] at hd
      exact hd.1
    · exact ⟨rfl, ho⟩
    · rfl

lemma follows_enter {c : Char} (hc : isLineBreak c = false) : Follows c (Place.enter c) := by
  unfold Place.enter
  rw [hc, if_neg Bool.false_ne_true]
  split_ifs
  · trivial
  · rfl

lemma not_isWordChar_of_isOperator {c : Char} (h : isOperator c = true) : isWordChar c = false := by
  have hall : operators.all (!isWordChar ·) = true := by decide
  simpa using List.all_eq_true.mp hall c (by simpa [isOperator] using h)

lemma fuses_number {a c : Char} (ha : isNumberChar a = true) (hc : isOperator c = true)
    (hdot : c ≠ '.') : fuses a c = false := by
  have hdigit : c.isDigit = false := by
    have hall : operators.all (!Char.isDigit ·) = true := by decide
    simpa using List.all_eq_true.mp hall c (by simpa [isOperator] using hc)
  have hpair : (a, c) ∉ fusedPairs := by
    simp only [fusedPairs, List.mem_cons, Prod.mk.injEq, List.not_mem_nil, or_false, not_or]
    refine ⟨?_, ?_, ?_, ?_, ?_, ?_⟩ <;> rintro ⟨rfl, rfl⟩ <;> simp [isNumberChar] at ha hdot
  simp [fuses, hpair, hdigit, hdot]

lemma apart_of_gap_eq_nil {p : Place} {a c : Char} (hp : isWaiting p = true) (ha : Follows a p)
    (hc : isLineBreak c = false) (hg : p.gap c = []) : Apart a c := by
  cases p with
  | wordBlank w b =>
    obtain rfl : a = w := ha
    rw [gap_wordBlank] at hg
    split_ifs at hg with h
    simp only [Place.closes, hc, Bool.or_false, Bool.and_eq_true, Bool.not_eq_true'] at h
    exact ⟨h.2, by simp [not_isWordChar_of_isOperator h.1]⟩
  | operatorBlank o b =>
    obtain ⟨rfl, ho⟩ := ha
    rw [gap_operatorBlank] at hg
    split_ifs at hg with h
    exact ⟨by simpa using h, by simp [not_isWordChar_of_isOperator ho]⟩
  | dotBlank =>
    obtain rfl : a = '.' := ha
    rw [gap_dotBlank] at hg
    split_ifs at hg with h
    simp only [Place.startsNumber, Bool.or_eq_true, beq_iff_eq, not_or, Bool.not_eq_true] at h
    refine ⟨?_, by simp [isWordChar]⟩
    simp [fuses, fusedPairs, h.1, h.2]
  | numberBlank =>
    rw [gap_numberBlank] at hg
    split_ifs at hg with h
    simp only [Place.closes, hc, Bool.or_false, Bool.or_eq_true, beq_iff_eq, Bool.not_eq_true', not_or,
      Bool.not_eq_false] at h
    exact ⟨fuses_number ha h.2 h.1, by simp [not_isWordChar_of_isOperator h.2]⟩
  | _ => simp [isWaiting] at hp

/-- The gaps `g` of the text and `g'` of the compacted text behind the significant character `prev`,
up to place `p`. -/
structure Squeezed (p : Place) (prev : Option Char) (g g' : List (Char × Region)) : Prop where
  touch : g = [] → g' = []
  waits : isWaiting p = true → g ≠ []
  follows : ∀ a, prev = some a → g' = [] → Follows a p ∧ (isWaiting p = false → g = [])

section
variable {p : Place} {prev : Option Char} {g g' : List (Char × Region)}

lemma Squeezed.kept (h : Squeezed p prev g g') {c : Char} (hc : isLineBreak c = false) :
    Kept prev ⟨g, c⟩ ⟨g' ++ (p.gap c).map (·, Region.code), c⟩ := by
  refine ⟨rfl, ?_, ?_⟩
  · intro hg
    have hp : isWaiting p = false := by
      by_contra hp
      exact h.waits (by simpa using hp) hg
    simp [h.touch hg, gap_of_not_waiting hp]
  · intro a ha hg hg'
    obtain ⟨hg', hgap⟩ : g' = [] ∧ p.gap c = [] := by simpa using hg'
    obtain ⟨hf, hw⟩ := h.follows a ha hg'
    refine apart_of_gap_eq_nil ?_ hf hc hgap
    -- If nothing waits, the text has no gap here either.
    by_contra hp
    exact hg (hw (by simpa using hp))

lemma squeezed_sign {c : Char} (hf : Follows c p) (hp : isWaiting p = false) :
    Squeezed p (some c) [] [] := by
  refine ⟨fun _ => rfl, by simp [hp], ?_⟩
  intro a ha _
  obtain rfl : c = a := by simpa using ha
  exact ⟨hf, fun _ => rfl⟩

lemma squeezed_append (p : Place) (prev : Option Char) (g g' : List (Char × Region))
    (x : Char × Region) : Squeezed p prev (g ++ [x]) (g' ++ [x]) := by
  refine ⟨by simp, by simp, by simp⟩

lemma Squeezed.blank (h : Squeezed p prev g g') {c : Char} (hw : (p.blank c).1 = [])
    (x : Char × Region) : Squeezed (p.blank c).2 prev (g ++ [x]) g' := by
  refine ⟨by simp, by simp, ?_⟩
  intro a ha hg'
  have hf := (h.follows a ha hg').1
  cases p with
  | tagBlank => exact hf.elim
  | lineStart => exact hf.elim
  | copied => simp [Place.blank] at hw
  | tag left => simp [Place.blank] at hw
  | tagEnd => simp [Place.blank] at hw
  | _ => exact ⟨hf, by simp [isWaiting, Place.blank]⟩

end

lemma ink_ne_copied (p : Place) (c : Char) : p.ink c ≠ .copied := by
  unfold Place.ink
  split
  · simp
  · simp
  · split_ifs <;> simp

lemma enter_ne_copied (c : Char) : Place.enter c ≠ .copied := by
  unfold Place.enter
  split_ifs <;> simp

lemma blank_ne_copied {p : Place} (h : p ≠ .copied) (c : Char) : (p.blank c).2 ≠ .copied := by
  cases p <;> first | exact absurd rfl h | simp [Place.blank]

section
variable {p : Place} {s : Scan}

lemma not_opensComment_of_code (x : Char × Region) (c : Char) :
    opensComment x (some (c, .code)) = false := by
  simp [opensComment]

lemma not_opensComment_of_idle (hs : s.region = .code) (h : Idle s.prev) (x : Char × Region) (c : Char)
    (after : List Char) : opensComment x (some (c, (s.step c after).region)) = false := by
  have ht := turn_step s c after
  generalize s.step c after = s₁ at ht
  cases ht with
  | openQuote _ q hq => rcases hq with ⟨rfl, rfl⟩ | ⟨rfl, rfl⟩ <;> simp [opensComment]
  | _ => simp_all [opensComment, Idle]

lemma not_opensComment_squeeze (hp : p ≠ .copied) (hs : s.region = .code) (h : Idle s.prev)
    (x : Char × Region) (rest : List Char) :
    opensComment x (squeezeLabelled p (s.label rest)).head? = false := by
  induction rest generalizing p s with
  | nil => cases p <;> simp [Scan.label, squeezeLabelled, Place.finish, opensComment]
  | cons c rest ih =>
    simp only [Scan.label, squeezeLabelled]
    by_cases hb : isBlank c = true
    · have hstep := step_of_isBlank hs hb rest
      have h₁ : (s.step c rest).region = .code := by rw [hstep]; exact hs
      rw [h₁, step_blank hp hb]
      rcases blank_writes p c with hw | hw
      · -- Nothing is written for the blank, so what comes next decides.
        rw [hw, withRegion_nil, List.nil_append]
        refine ih (blank_ne_copied hp c) h₁ ?_
        rw [hstep]
        exact idle_of_isBlank hb
      · rw [hw, withRegion_singleton, List.singleton_append, List.head?_cons]
        exact not_opensComment_of_code x c
    · rw [Bool.not_eq_true] at hb
      rw [step_ink hp (isCodeBlank_of_not_isBlank hb _), withRegion_append_singleton]
      cases p.gap c with
      | nil => exact not_opensComment_of_idle hs h x c rest
      | cons b gap => exact not_opensComment_of_code x b

lemma opensComment_squeeze (hw : isWaiting p = false) (hp : p ≠ .copied) (hs : s.region = .code)
    (x : Char × Region) (rest : List Char) :
    opensComment x (squeezeLabelled p (s.label rest)).head? =
      opensComment x (s.label rest).head? := by
  cases rest with
  | nil => cases p <;> first | rfl | simp [isWaiting] at hw
  | cons c rest =>
    simp only [Scan.label, squeezeLabelled, List.head?_cons]
    by_cases hb : isBlank c = true
    · have hstep := step_of_isBlank hs hb rest
      have h₁ : (s.step c rest).region = .code := by rw [hstep]; exact hs
      rw [h₁, not_opensComment_of_code, step_blank hp hb]
      rcases blank_writes p c with hw | hw
      · rw [hw, withRegion_nil, List.nil_append]
        refine not_opensComment_squeeze (blank_ne_copied hp c) h₁ ?_ x rest
        rw [hstep]
        exact idle_of_isBlank hb
      · rw [hw, withRegion_singleton, List.singleton_append, List.head?_cons]
        exact not_opensComment_of_code x c
    · rw [Bool.not_eq_true] at hb
      rw [step_ink hp (isCodeBlank_of_not_isBlank hb _), gap_of_not_waiting hw]
      rfl

lemma isSignificant_squeeze (hw : isWaiting p = false) (hp : s.region = .code → p ≠ .copied)
    (before : Region) (c : Char) (rest : List Char) :
    isSignificant before (c, s.region) (squeezeLabelled p (s.label rest)).head? =
      isSignificant before (c, s.region) (s.label rest).head? := by
  by_cases hs : s.region = .code
  · simp only [isSignificant, opensComment_squeeze hw (hp hs) hs]
  · have hink : isInk (c, s.region) = false := by simp [isInk, hs]
    simp only [not_significant_of_not_isInk hink]

end

/-- A character that is written behind the gap its place leaves; code goes on from place `q`. -/
lemma Squeezed.tighter_char {p q : Place} {s : Scan} {prev : Option Char} {g g' : List (Char × Region)}
    {c : Char} {rest : List Char} (h : Squeezed p prev g g') (hw : isWaiting q = false)
    (hq : q ≠ .copied) (hf : isLineBreak c = false → Follows c q) (before : Region)
    (hrest : ∀ {prev g g'}, Squeezed (if s.region = .code then q else .copied) prev g g' →
      Tighter prev (signs s.region g (s.label rest)) (signs s.region g'
        (squeezeLabelled (if s.region = .code then q else .copied) (s.label rest)))) :
    Tighter prev (signs before g ((c, s.region) :: s.label rest))
      (signs before (g' ++ (p.gap c).map (·, Region.code)) ((c, s.region) ::
        squeezeLabelled (if s.region = .code then q else .copied) (s.label rest))) := by
  have hw' : isWaiting (if s.region = .code then q else .copied) = false := by
    split_ifs
    · exact hw
    · rfl
  have hq' (hcode : s.region = .code) : (if s.region = .code then q else .copied) ≠ .copied := by
    rw [if_pos hcode]
    exact hq
  refine .char (isSignificant_squeeze hw' hq' before c rest) ?_ ?_
  · intro hsign
    obtain ⟨hcode, -, hc⟩ := isInk_of_significant hsign
    have hf' : Follows c (if s.region = .code then q else .copied) := by
      rw [if_pos hcode]
      exact hf hc
    exact ⟨h.kept hc, hrest (squeezed_sign hf' hw')⟩
  · intro _
    exact hrest (squeezed_append _ prev g _ (c, s.region))

lemma place_step_copied {q : Place} {r : Region} (hq : q ≠ .copied) :
    (if r = .code then q else .copied) = .copied ↔ r ≠ .code := by
  by_cases hr : r = .code <;> simp [hr, hq]

lemma tighter_squeeze {p : Place} {s : Scan} {prev : Option Char} {g g' : List (Char × Region)}
    (hp : p = .copied ↔ s.region ≠ .code) (hb : HoldsBlanks p) (h : Squeezed p prev g g')
    (rest : List Char) :
    Tighter prev (signs s.region g (s.label rest))
      (signs s.region g' (squeezeLabelled p (s.label rest))) := by
  induction rest generalizing p s prev g g' with
  | nil =>
    cases p with
    | wordBlank w b =>
      have hink : isInk (b, .code) = false := by simp [isInk, show isBlank b = true from hb]
      simp only [Scan.label, squeezeLabelled, Place.finish, List.map_cons, List.map_nil]
      rw [signs_of_not_isInk hink]
      exact .nil prev
    | _ => exact .nil prev
  | cons c rest ih =>
    have hb₁ := (hb.step c (s.step c rest).region).1
    simp only [Scan.label, squeezeLabelled]
    by_cases hcopied : p = .copied
    · subst hcopied
      have hq := enter_ne_copied c
      rw [step_copied] at hb₁ ⊢
      have hchar := h.tighter_char (not_isWaiting_enter c) hq follows_enter s.region
        (ih (place_step_copied hq) hb₁)
      have hgap : Place.copied.gap c = [] := rfl
      rw [hgap, List.map_nil, List.append_nil] at hchar
      exact hchar
    have hcode : s.region = .code := by
      by_contra hcode
      exact hcopied (hp.mpr hcode)
    by_cases hc : isBlank c = true
    · -- A blank widens the gap of the text; the compacted text may leave it for later.
      have hstep : (s.step c rest).region = .code := by
        rw [step_of_isBlank hcode hc]
        exact hcode
      have hq := blank_ne_copied hcopied c
      have hink : isInk (c, .code) = false := by simp [isInk, hc]
      rw [hstep, step_blank hcopied hc] at hb₁
      rw [hstep, step_blank hcopied hc, signs_of_not_isInk hink]
      have hnext {g g' : List (Char × Region)} (h : Squeezed (p.blank c).2 prev g g') :
          Tighter prev (signs .code g ((s.step c rest).label rest))
            (signs .code g' (squeezeLabelled (p.blank c).2 ((s.step c rest).label rest))) := by
        rw [← hstep]
        exact ih (by simp [hq, hstep]) hb₁ h
      rcases blank_writes p c with hw | hw
      · rw [hw, withRegion_nil, List.nil_append, hcode]
        exact hnext (h.blank hw (c, .code))
      · rw [hw, withRegion_singleton, List.singleton_append, signs_of_not_isInk hink]
        exact hnext (squeezed_append _ prev g g' (c, .code))
    · have hink := isCodeBlank_of_not_isBlank (Bool.not_eq_true _ ▸ hc) (s.step c rest).region
      have hq := ink_ne_copied p c
      rw [step_ink hcopied hink] at hb₁ ⊢
      rw [withRegion_append_singleton, List.append_assoc, List.singleton_append, hcode,
        signs_blanks (hb.gap c)]
      exact h.tighter_char (not_isWaiting_ink p c) hq (follows_ink · p) .code
        (ih (place_step_copied hq) hb₁)

lemma tighter_compact (text : List Char) :
    Tighter none (signs .outside [] (label text)) (signs .outside [] (label (compact text))) := by
  have hsqueezed : Squeezed .copied none [] [] := ⟨by simp, by simp [isWaiting], by simp⟩
  have hp : Place.copied = .copied ↔ ({} : Scan).region ≠ .code := by simp
  rw [label_compact]
  exact tighter_squeeze hp trivial hsqueezed text

/-! ### Removal of comments -/

/-- The reading has passed characters of a comment since the last one that was written. -/
def Removing (s : Scan) (next : Option Char) : Prop :=
  isComment s.region = true ∨ s.prev = none ∨
    (s.region = .code ∧ s.prev = some '/' ∧ opens '/' next = true)

/-- The gaps `g` of the text and `g'` of the text without comments behind the significant character
`prev`. -/
structure Stripped (st : State) (s : Scan) (next prev : Option Char)
    (g g' : List (Char × Region)) : Prop where
  touch : g = [] → g' = []
  last : ∀ a, prev = some a → g' = [] → st.last = some a ∧ (g ≠ [] → Removing s next)

section
variable {st : State} {s s₁ : Scan} {c : Char} {next prev : Option Char}
  {g g' : List (Char × Region)}

lemma Stripped.kept (h : Stripped st s (some c) prev g g') (ht : Tracks st s (some c))
    (hs : isComment s.region = false) (hc : s.prev = some '/' → s.region = .code →
      opens '/' (some c) = false) : Kept prev ⟨g, c⟩ ⟨g', c⟩ := by
  refine ⟨rfl, h.touch, ?_⟩
  intro a ha hg hg'
  obtain ⟨hlast, hremoving⟩ := h.last a ha hg'
  -- Only a comment that ends right before `c` can have stood here, and it was held against `c`.
  rcases hremoving hg with hcomment | hprev | ⟨hcode, hprev, ho⟩
  · simp [hs] at hcomment
  · obtain ⟨-, ht⟩ := ht
    cases hr : s.region <;> simp [hr, hprev, hlast, isComment] at ht hs
    exact apart_of_not_glues ht
  · simp [hc hprev hcode] at ho

lemma stripped_sign (hlast : st.last = some c) : Stripped st s next (some c) [] [] :=
  ⟨fun _ => rfl, fun _ ha _ => ⟨hlast.trans ha, fun hg => absurd rfl hg⟩⟩

lemma stripped_append (st : State) (s : Scan) (next prev : Option Char)
    (g g' : List (Char × Region)) (x x' : Char × Region) :
    Stripped st s next prev (g ++ [x]) (g' ++ [x']) :=
  ⟨by simp, by simp⟩

lemma Stripped.removed {st₁ : State} {next₁ : Option Char} (h : Stripped st s next prev g g')
    (hlast : st₁.last = st.last) (hs : Removing s₁ next₁) (x : Char × Region) :
    Stripped st₁ s₁ next₁ prev (g ++ [x]) g' := by
  refine ⟨by simp, ?_⟩
  intro a ha hg'
  exact ⟨hlast.trans (h.last a ha hg').1, fun _ => hs⟩

end

lemma isSignificant_of_not_isComment {before : Region} {x : Char × Region}
    {next : Option (Char × Region)} (hb : isComment before = false)
    (hx : opensComment x next = false) : isSignificant before x next = isInk x := by
  have hclose : closesComment before x = false := by
    cases before <;> simp_all [closesComment, isComment]
  simp [isSignificant, hx, hclose]

lemma not_opensComment_of_commentFree {l : List (Char × Region)}
    (h : ∀ x ∈ l, isComment x.2 = false) (x : Char × Region) : opensComment x l.head? = false := by
  cases l with
  | nil => simp [opensComment]
  | cons y l =>
    have hy := h y List.mem_cons_self
    by_contra ho
    simp only [opensComment, List.head?_cons, Bool.not_eq_false, Bool.and_eq_true, Bool.or_eq_true,
      beq_iff_eq, Option.some.injEq] at ho
    rcases ho.2 with rfl | rfl <;> simp [isComment] at hy

lemma opensComment_label (x : Char × Region) (s : Scan) (rest : List Char)
    (h : opens x.1 rest.head? = false) : opensComment x (s.label rest).head? = false := by
  by_contra ho
  simp only [opensComment, Bool.not_eq_false, Bool.and_eq_true, Bool.or_eq_true, beq_iff_eq] at ho
  have hhead := label_head s rest
  rcases ho.2 with hl | hl <;> rw [hl] at hhead <;> simp [opens, ho.1, ← hhead] at h

lemma tighter_erase {st : State} {s : Scan} {rest : List Char} {prev : Option Char}
    {before : Region} {g g' : List (Char × Region)} (h : Tracks st s rest.head?)
    (hb : isComment before = false) (hg : Stripped st s rest.head? prev g g') :
    Tighter prev (signs s.region g (s.label rest))
      (signs before g' (eraseLabelled st (s.label rest))) := by
  induction rest generalizing st s prev before g g' with
  | nil => exact .nil prev
  | cons c rest ih =>
    obtain ⟨st₁, w, hnext, hedit, hlast, -, hlabelled⟩ := erase_step h rest
    have hfree := isComment_eraseLabelled st₁ ((s.step c rest).label rest)
    rw [hlabelled, Scan.label]
    generalize hs₁ : s.step c rest = s₁ at hnext hedit hfree ⊢
    cases hedit with
    | copy hs h₁ hprev hj ho =>
      have hopen : s.prev = some '/' → s.region = .code → opens '/' (some c) = false := by
        intro hslash hcode
        by_contra ho
        rcases region_step_slash hcode hslash (by simpa using ho) rest with ⟨-, hr⟩ | ⟨-, hr⟩
        · simp [← hs₁, hr, isComment] at h₁
        · simp [← hs₁, hr, isComment] at h₁
      rw [settled_of_not_isComment h₁, Option.toList_some, List.map_singleton, List.singleton_append]
      refine .char ?_ ?_ ?_
      · by_cases hcode : s₁.region = .code
        · rw [isSignificant_of_not_isComment hs (opensComment_label _ s₁ rest (ho hcode)),
            isSignificant_of_not_isComment hb (not_opensComment_of_commentFree hfree _)]
        · have hink : isInk (c, s₁.region) = false := by simp [isInk, hcode]
          rw [not_significant_of_not_isInk hink, not_significant_of_not_isInk hink]
      · intro _
        exact ⟨hg.kept h hs hopen, ih hnext h₁ (stripped_sign hlast)⟩
      · intro _
        exact ih hnext h₁ (stripped_append ..)
    | slash hs h₁ hprev hc ho =>
      have hopen : opensComment (c, s₁.region) (s₁.label rest).head? = true := by
        obtain ⟨d, tail, rfl, hd⟩ := label_of_opens h₁ hprev ho
        rcases hd with ⟨rfl, hd⟩ | ⟨rfl, hd⟩
        · simp [opensComment, Scan.label, hc, hd]
        · simp [opensComment, Scan.label, hc, hd]
      rw [signs_of_not_significant (by simp [isSignificant, hopen])]
      exact ih hnext hb (hg.removed hlast (.inr (.inr ⟨h₁, hprev, ho⟩)) _)
    | enter hs h₁ hc =>
      rw [signs_of_not_isInk (not_isInk_of_isComment h₁)]
      exact ih hnext hb (hg.removed hlast (.inl h₁) _)
    | lineBreak hs hc h₁ =>
      have hink (r : Region) : isInk (c, r) = false := by
        simp [isInk, isLineBreak_of_breaksLine hc]
      rw [Option.toList_some, List.map_singleton, List.singleton_append,
        signs_of_not_isInk (hink _), signs_of_not_isInk (hink _)]
      exact ih hnext (isComment_settled _) (stripped_append ..)
    | body hs h₁ hc =>
      have hcomment : isComment s₁.region = true := h₁ ▸ hs
      rw [signs_of_not_isInk (not_isInk_of_isComment hcomment)]
      exact ih hnext hb (hg.removed hlast (.inl hcomment) _)
    | close hs h₁ hc =>
      have hprev : s₁.prev = none := by
        rw [← hs₁]
        exact (step_of_leaves_block hs (by simp [hs₁, h₁])).2.2
      have hclose : closesComment s.region (c, s₁.region) = true := by simp [closesComment, hs, hc]
      rw [signs_of_not_significant (by simp [isSignificant, hclose])]
      by_cases hspace : (!st.broken && glues st.last rest.head?) = true
      · have hink (r : Region) : isInk (' ', r) = false := by simp [isInk, isBlank]
        rw [if_pos hspace, Option.toList_some, List.map_singleton, List.singleton_append,
          signs_of_not_isInk (hink _)]
        exact ih hnext (isComment_settled _) (stripped_append ..)
      · rw [if_neg hspace] at hlast ⊢
        exact ih hnext hb (hg.removed hlast (.inr (.inl hprev)) _)

lemma tighter_strip (text : List Char) :
    Tighter none (signs .outside [] (label text)) (signs .outside [] (label (strip text))) := by
  have h : Tracks {} {} text.head? := ⟨rfl, rfl⟩
  have hstripped : Stripped {} {} text.head? none [] [] := ⟨by simp, by simp⟩
  rw [label_strip]
  exact tighter_erase h rfl hstripped

lemma tighter_run (stages : List Stage) (text : List Char) :
    Tighter none (signs .outside [] (label text))
      (signs .outside [] (label (Stage.run stages text))) := by
  apply run_induction (R := fun a b =>
    Tighter none (signs .outside [] (label a)) (signs .outside [] (label b)))
  · exact fun _ => .refl _ _
  · exact fun h h' => h.trans h'
  · intro stage text
    cases stage with
    | comments => exact tighter_strip text
    | spaces => exact tighter_compact text

/-- Whatever stages run, in whatever order and however often, the text keeps its significant
characters. Two that touch still touch, and two that come to touch are not read as one token. (Where
a string or text outside PHP stands between them, they never come to touch.) -/
theorem run_neither_glues_nor_splits_tokens (stages : List Stage) (text : List Char) :
    let before := signs .outside [] (label text)
    let after := signs .outside [] (label (Stage.run stages text))
    after.map Sign.char = before.map Sign.char ∧
      ∀ (i : Nat) (a b b' : Sign), before[i]? = some a → before[i + 1]? = some b →
        after[i + 1]? = some b' →
        (b.gap = [] → b'.gap = []) ∧
        (b.gap ≠ [] → b'.gap = [] → fuses a.char b.char = false ∧
          ¬ (isWordChar a.char = true ∧ isWordChar b.char = true)) := by
  have h := tighter_run stages text
  refine ⟨h.map_char, ?_⟩
  intro i a b b' ha hb hb'
  have hkept := h.get ha hb hb'
  exact ⟨hkept.touch, hkept.apart a.char rfl⟩

theorem run_neither_glues_nor_splits_tokens_around_comment :
    let text := "<?php a /**/ + b".toList
    let plus : Sign := ⟨[(' ', .code), ('/', .code), ('*', .blockComment), ('*', .blockComment),
      ('/', .code), (' ', .code)], '+'⟩
    (signs .outside [] (label text))[4]? = some ⟨[(' ', .code)], 'a'⟩ ∧
      (signs .outside [] (label text))[5]? = some plus ∧
      (signs .outside [] (label (Stage.run [.comments, .spaces] text)))[5]? = some ⟨[], '+'⟩ ∧
      plus.gap ≠ [] ∧ fuses 'a' '+' = false ∧
      ¬ (isWordChar 'a' = true ∧ isWordChar '+' = true) := by
  intro text plus
  have ha : (signs .outside [] (label text))[4]? = some ⟨[(' ', .code)], 'a'⟩ := by decide
  have hb : (signs .outside [] (label text))[5]? = some plus := by decide
  have hb' : (signs .outside [] (label (Stage.run [.comments, .spaces] text)))[5]? =
      some ⟨[], '+'⟩ := by decide
  have hgap : plus.gap ≠ [] := by decide
  have htokens := (run_neither_glues_nor_splits_tokens [.comments, .spaces] text).2 4
  exact ⟨ha, hb, hb', hgap, (htokens _ _ _ ha hb hb').2 hgap rfl⟩

end PhpSlim.Proofs
