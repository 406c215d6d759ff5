import Mathlib
import PhpSlim.Region
import PhpSlim.Text.Letter

/-!
# Reading a text, one character at a time

`Turn` lists what reading one character can do. Two readings that stand in the same region read the
next character alike as long as neither completes a delimiter with it: this is what lets a pass
remove text without changing how the rest is read.
-/

namespace PhpSlim.Proofs
open PhpSlim.Text

def isComment (r : Region) : Bool :=
  r == .lineComment || r == .blockComment

/-- Regions no pass may touch: text outside PHP and strings. -/
def isProtected (r : Region) : Bool :=
  r == .outside || r == .singleQuoted || r == .doubleQuoted

/-- Whether `prev` and `c` together are one of the delimiters `//`, `/*` and `?>` of code. -/
def joins (prev : Option Char) (c : Char) : Bool :=
  (prev == some '/' && (c == '/' || c == '*')) || (prev == some '?' && c == '>')

/-- A previous character that begins no delimiter of code. -/
def Idle (prev : Option Char) : Prop :=
  prev ≠ some '/' ∧ prev ≠ some '?'

lemma Idle.joins_eq_false {prev : Option Char} (h : Idle prev) (c : Char) : joins prev c = false := by
  simp [joins, h.1, h.2]

lemma idle_none : Idle none := by
  simp [Idle]

lemma idle_some {c : Char} (h : c ≠ '/') (h' : c ≠ '?') : Idle (some c) := by
  simp [Idle, h, h']

lemma idle_of_isBlank {c : Char} (h : isBlank c = true) : Idle (some c) := by
  apply idle_some <;> rintro rfl <;> simp [isBlank] at h

lemma idle_of_isLineBreak {c : Char} (h : isLineBreak c = true) : Idle (some c) := by
  apply idle_some <;> rintro rfl <;> simp [isLineBreak] at h

lemma idle_of_not_isOperator {c : Char} (h : isOperator c = false) : Idle (some c) := by
  apply idle_some <;> rintro rfl <;> simp [isOperator, operators] at h

lemma joins_of_not_fuses {a c : Char} (h : fuses a c = false) : joins (some a) c = false := by
  by_contra hj
  simp only [joins, Option.some_beq_some, Bool.not_eq_false, Bool.or_eq_true, Bool.and_eq_true,
    beq_iff_eq] at hj
  rcases hj with ⟨rfl, rfl | rfl⟩ | ⟨rfl, rfl⟩ <;> simp [fuses, fusedPairs] at h

/-- What reading the character `c` can do to a scan; `after` is the text behind `c`. -/
inductive Turn (after : List Char) (s : Scan) (c : Char) : Scan → Prop
  | text (h : s.region = .outside) : Turn after s c { s with prev := some c, spent := false }
  | openTag (h : s.region = .outside) (hc : c = '?') (hp : s.prev = some '<')
      (ha : ['p', 'h', 'p'] <+: after) :
      Turn after s c { s with region := .code, prev := some c, spent := false }
  | code (h : s.region = .code) (hj : joins s.prev c = false)
      (hash : c = '#' → after.head? = some '[') :
      Turn after s c { s with prev := some c, spent := false }
  | slashes (h : s.region = .code) (hc : c = '/') (hp : s.prev = some '/') :
      Turn after s c { s with region := .lineComment, prev := none, spent := false }
  | slashStar (h : s.region = .code) (hc : c = '*') (hp : s.prev = some '/') :
      Turn after s c { s with region := .blockComment, prev := none, spent := false }
  | hash (h : s.region = .code) (hc : c = '#') (ha : after.head? ≠ some '[') :
      Turn after s c { s with region := .lineComment, prev := some c, spent := false }
  | openQuote (h : s.region = .code) (q : Region)
      (hq : (q = .singleQuoted ∧ c = '\'') ∨ (q = .doubleQuoted ∧ c = '"')) :
      Turn after s c { s with region := q, prev := some c, escaped := false, spent := false }
  | closeTag (h : s.region = .code) (hc : c = '>') (hp : s.prev = some '?') :
      Turn after s c { s with region := .outside, prev := some c, spent := false }
  | line (h : s.region = .lineComment) (hc : c ≠ '\n') :
      Turn after s c { s with prev := some c, spent := false }
  | endLine (h : s.region = .lineComment) (hc : c = '\n') :
      Turn after s c { s with region := .code, prev := some c, spent := false }
  | block (h : s.region = .blockComment) :
      Turn after s c { s with prev := some c, spent := false }
  | endBlock (h : s.region = .blockComment) (hc : c = '/') :
      Turn after s c { s with region := .code, prev := none, spent := false }
  | quoted (h : s.region = .singleQuoted ∨ s.region = .doubleQuoted) (e : Bool) :
      Turn after s c { s with prev := some c, escaped := e, spent := false }
  | closeQuote (h : s.region = .singleQuoted ∨ s.region = .doubleQuoted)
      (hc : c = '\'' ∨ c = '"') :
      Turn after s c { s with region := .code, prev := some c, spent := false }

lemma turn_outside {s : Scan} (h : s.region = .outside) (c : Char) (after : List Char) :
    Turn after s c (s.step c after) := by
  obtain ⟨region, prev, escaped, spent⟩ := s
  obtain rfl : region = .outside := h
  simp only [Scan.step, Scan.classify]
  split
  · rename_i htag
    simp only [Bool.and_eq_true, beq_iff_eq, List.isPrefixOf_iff_prefix] at htag
    exact .openTag rfl htag.1.1 htag.1.2 htag.2
  · exact .text rfl

lemma turn_code {s : Scan} (h : s.region = .code) (c : Char) (after : List Char) :
    Turn after s c (s.step c after) := by
  obtain ⟨region, prev, escaped, spent⟩ := s
  obtain rfl : region = .code := h
  simp only [Scan.step, Scan.classify, Scan.readCode]
  split_ifs with hl hb hh hs hd ht
  · simp only [Bool.and_eq_true, beq_iff_eq] at hl
    exact .slashes rfl hl.1 hl.2
  · simp only [Bool.and_eq_true, beq_iff_eq] at hb
    exact .slashStar rfl hb.1 hb.2
  · simp only [Bool.and_eq_true, beq_iff_eq, bne_iff_ne] at hh
    exact .hash rfl hh.1 hh.2
  · exact .openQuote rfl .singleQuoted (.inl ⟨rfl, by simpa using hs⟩)
  · exact .openQuote rfl .doubleQuoted (.inr ⟨rfl, by simpa using hd⟩)
  · simp only [Bool.and_eq_true, beq_iff_eq] at ht
    exact .closeTag rfl ht.1 ht.2
  · have hj : joins prev c = false := by
      simp only [Bool.and_eq_true, beq_iff_eq] at hl hb ht
      simp only [joins, Bool.or_eq_false_iff, Bool.and_eq_false_iff, beq_eq_false_iff_ne]
      tauto
    have hash : c = '#' → after.head? = some '[' := by
      simpa [Bool.and_eq_true, beq_iff_eq] using hh
    exact .code rfl hj hash

lemma turn_lineComment {s : Scan} (h : s.region = .lineComment) (c : Char) (after : List Char) :
    Turn after s c (s.step c after) := by
  obtain ⟨region, prev, escaped, spent⟩ := s
  obtain rfl : region = .lineComment := h
  simp only [Scan.step, Scan.classify]
  split_ifs with hn
  · exact .endLine rfl (by simpa using hn)
  · exact .line rfl (by simpa using hn)

lemma turn_blockComment {s : Scan} (h : s.region = .blockComment) (c : Char) (after : List Char) :
    Turn after s c (s.step c after) := by
  obtain ⟨region, prev, escaped, spent⟩ := s
  obtain rfl : region = .blockComment := h
  simp only [Scan.step, Scan.classify]
  split_ifs with he
  · simp only [Bool.and_eq_true, beq_iff_eq] at he
    exact .endBlock rfl he.1
  · exact .block rfl

lemma turn_quoted {s : Scan} (h : s.region = .singleQuoted ∨ s.region = .doubleQuoted) (c : Char)
    (after : List Char) : Turn after s c (s.step c after) := by
  obtain ⟨region, prev, escaped, spent⟩ := s
  obtain rfl | rfl : region = .singleQuoted ∨ region = .doubleQuoted := h
  · simp only [Scan.step, Scan.classify, Scan.readQuoted]
    split_ifs with hq
    · simp only [Bool.and_eq_true, beq_iff_eq] at hq
      exact .closeQuote (.inl rfl) (.inl hq.1)
    · exact .quoted (.inl rfl) (c == '\\' && !escaped)
  · simp only [Scan.step, Scan.classify, Scan.readQuoted]
    split_ifs with hq
    · simp only [Bool.and_eq_true, beq_iff_eq] at hq
      exact .closeQuote (.inr rfl) (.inr hq.1)
    · exact .quoted (.inr rfl) (c == '\\' && !escaped)

/-- Every reading of a character is one of the turns. -/
theorem turn_step (s : Scan) (c : Char) (after : List Char) : Turn after s c (s.step c after) := by
  cases h : s.region with
  | outside => exact turn_outside h c after
  | code => exact turn_code h c after
  | lineComment => exact turn_lineComment h c after
  | blockComment => exact turn_blockComment h c after
  | singleQuoted => exact turn_quoted (.inl h) c after
  | doubleQuoted => exact turn_quoted (.inr h) c after

lemma not_delimiter_of_joins_eq_false {prev : Option Char} {c : Char} (h : joins prev c = false) :
    (c == '/' && prev == some '/') = false ∧ (c == '*' && prev == some '/') = false ∧
      (c == '>' && prev == some '?') = false := by
  simp only [joins, Bool.or_eq_false_iff, Bool.and_eq_false_iff, beq_eq_false_iff_ne] at h ⊢
  tauto

lemma readCode_congr {s s' : Scan} {c : Char} {after after' : List Char} (hr : s'.region = s.region)
    (he : s'.escaped = s.escaped) (hs : s'.spent = s.spent)
    (hj : joins s.prev c = false) (hj' : joins s'.prev c = false)
    (hash : c = '#' → (after'.head? = some '[' ↔ after.head? = some '[')) :
    (s'.readCode c after').advance (some c) = (s.readCode c after).advance (some c) := by
  obtain ⟨h1, h2, h3⟩ := not_delimiter_of_joins_eq_false hj
  obtain ⟨h1', h2', h3'⟩ := not_delimiter_of_joins_eq_false hj'
  have hl : (c == '#' && after'.head? != some '[') = (c == '#' && after.head? != some '[') := by
    by_cases hc : c = '#'
    · have hiff : (after'.head? != some '[') = (after.head? != some '[') := by
        rw [Bool.eq_iff_iff]
        simp only [bne_iff_ne, ne_eq, hash hc]
      rw [hiff]
    · rw [beq_eq_false_iff_ne.mpr hc, Bool.false_and, Bool.false_and]
  simp only [Scan.readCode, h1, h2, h3, h1', h2', h3', hl, Bool.false_eq_true, ite_false]
  split_ifs <;> simp [Scan.advance, hr, he, hs]

/-- Two readings that stand in the same region read `c` alike when they remember the same character,
or when in code neither remembered character joins `c`; the texts behind `c` may differ where
reading `c` does not look at them. -/
theorem step_congr {s s' : Scan} {c : Char} {after after' : List Char} (hr : s'.region = s.region)
    (he : s'.escaped = s.escaped)
    (hp : s'.prev = s.prev ∨
      (s.region = .code ∧ joins s.prev c = false ∧ joins s'.prev c = false))
    (hash : s.region = .code → c = '#' → (after'.head? = some '[' ↔ after.head? = some '['))
    (tag : s.region = .outside → c = '?' →
      (['p', 'h', 'p'] <+: after' ↔ ['p', 'h', 'p'] <+: after)) :
    s'.step c after' = s.step c after := by
  obtain ⟨region, prev, escaped, spent⟩ := s
  obtain ⟨region', prev', escaped', spent'⟩ := s'
  obtain rfl : region' = region := hr
  obtain rfl : escaped' = escaped := he
  rcases hp with hp | ⟨hcode, hj, hj'⟩
  · obtain rfl : prev' = prev := hp
    cases region' with
    | outside =>
      have ht : (c == '?' && prev' == some '<' && ['p', 'h', 'p'].isPrefixOf after') =
          (c == '?' && prev' == some '<' && ['p', 'h', 'p'].isPrefixOf after) := by
        rw [Bool.eq_iff_iff]
        simp only [Bool.and_eq_true, beq_iff_eq, List.isPrefixOf_iff_prefix]
        exact and_congr_right fun h => tag rfl h.1
      simp only [Scan.step, Scan.classify, ht]
    | code =>
      by_cases hj : joins prev' c = true
      · have hc : c ≠ '#' := by
          rintro rfl
          simp [joins] at hj
        simp [Scan.step, Scan.classify, Scan.readCode, hc]
      · rw [Bool.not_eq_true] at hj
        exact readCode_congr rfl rfl rfl hj hj (hash rfl)
    | lineComment => rfl
    | blockComment => rfl
    | singleQuoted => rfl
    | doubleQuoted => rfl
  · obtain rfl : region' = .code := hcode
    exact readCode_congr rfl rfl rfl hj hj' (hash rfl)

lemma step_of_isBlank {s : Scan} {c : Char} (h : s.region = .code) (hc : isBlank c = true)
    (after : List Char) : s.step c after = { s with prev := some c, spent := false } := by
  have ht := turn_step s c after
  generalize s.step c after = s₁ at ht
  simp only [isBlank, Bool.or_eq_true, beq_iff_eq] at hc
  rcases hc with rfl | rfl <;> cases ht <;> simp_all

lemma joins_of_isBlank {c : Char} (hc : isBlank c = true) (prev : Option Char) :
    joins prev c = false := by
  simp only [isBlank, Bool.or_eq_true, beq_iff_eq] at hc
  rcases hc with rfl | rfl <;> simp [joins]

lemma region_step_eq_code {s : Scan} {c : Char} {after : List Char} (h : s.region = .code)
    (h₁ : (s.step c after).region = .code) :
    s.step c after = { s with prev := some c, spent := false } := by
  have ht := turn_step s c after
  generalize s.step c after = s₁ at ht h₁
  cases ht <;> simp_all

lemma enter_idle {s : Scan} {c : Char} {after : List Char} (h : s.region ≠ .code)
    (h₁ : (s.step c after).region = .code) (hc : c ≠ '?') : Idle (s.step c after).prev := by
  have ht := turn_step s c after
  generalize s.step c after = s₁ at ht h₁
  cases ht with
  | endBlock => exact idle_none
  | closeQuote _ hq => rcases hq with rfl | rfl <;> exact idle_some (by decide) (by decide)
  | endLine _ hn => subst hn; exact idle_some (by decide) (by decide)
  | openTag _ ht => exact absurd ht hc
  | _ => simp_all

lemma step_of_isLineBreak {s : Scan} {c : Char} (h : s.region = .code) (hc : isLineBreak c = true)
    (after : List Char) : s.step c after = { s with prev := some c, spent := false } := by
  have ht := turn_step s c after
  generalize s.step c after = s₁ at ht
  simp only [isLineBreak, Bool.or_eq_true, beq_iff_eq] at hc
  rcases hc with rfl | rfl <;> cases ht <;> simp_all

lemma region_step_outside {s : Scan} {c : Char} (h : s.region = .outside) (hc : c ≠ '?')
    (after : List Char) : (s.step c after).region = .outside := by
  have ht := turn_step s c after
  generalize s.step c after = s₁ at ht
  cases ht <;> simp_all

/-- The characters that can lead out of code. -/
def delimiters : List Char :=
  ['/', '*', '#', '\'', '"', '>']

lemma region_step_of_not_mem_delimiters {s : Scan} {c : Char} (h : s.region = .code)
    (hc : c ∉ delimiters) (after : List Char) : (s.step c after).region = .code := by
  simp only [delimiters, List.mem_cons, List.not_mem_nil, or_false, not_or] at hc
  have ht := turn_step s c after
  generalize s.step c after = s₁ at ht
  cases ht with
  | openQuote _ q hq => rcases hq with hq | hq <;> simp_all
  | _ => simp_all

lemma escaped_step {s : Scan} {c : Char} {after : List Char}
    (h : isProtected (s.step c after).region = false) : (s.step c after).escaped = s.escaped := by
  have ht := turn_step s c after
  generalize s.step c after = s₁ at ht h
  cases ht with
  | openQuote _ q hq => rcases hq with hq | hq <;> simp_all [isProtected]
  | quoted hs e => rcases hs with hs | hs <;> simp_all [isProtected]
  | _ => rfl

lemma step_of_leaves_block {s : Scan} {c : Char} {after : List Char} (h : s.region = .blockComment)
    (h₁ : (s.step c after).region ≠ .blockComment) :
    c = '/' ∧ (s.step c after).region = .code ∧ (s.step c after).prev = none := by
  have ht := turn_step s c after
  generalize s.step c after = s₁ at ht h₁
  cases ht <;> simp_all

end PhpSlim.Proofs
