import PhpSlim.Text.Letter
import PhpSlim.Region

/-!
# Compacting blanks

Blanks of code go unless two tokens would merge without them; line breaks, strings, comments and
text outside PHP are copied. A run of blanks is decided when the character behind it is known:
`Place` says what stands before that character.
-/

namespace PhpSlim.Blanks

open PhpSlim.Text

/-- What stands right before the next character. -/
inductive Place where
  /-- Text that is copied as it is: outside PHP, a string, a comment. -/
  | copied
  /-- An opening tag of which `left` letters are still to come. -/
  | tag (left : Nat)
  /-- The last letter of an opening tag. -/
  | tagEnd
  /-- The blank that belongs to an opening tag, and perhaps more blanks, dropped. -/
  | tagBlank
  /-- A line break, and perhaps blanks, dropped. -/
  | lineStart
  /-- A character that is neither a blank nor an operator. -/
  | word (c : Char)
  /-- Blanks after such a character, the first of them `blank`, not yet written. -/
  | wordBlank (c blank : Char)
  | operator (o : Char)
  /-- Blanks after an operator, the last of them `blank`, not yet written. -/
  | operatorBlank (o blank : Char)
  /-- A concatenation dot with a blank before it. -/
  | dot
  /-- Such a dot and blanks, dropped so far. -/
  | dotBlank
  /-- A number that was set apart from a concatenation dot. -/
  | number
  /-- Such a number and blanks, dropped so far. -/
  | numberBlank
  deriving DecidableEq, Repr, Inhabited

namespace Place

/-- The place behind a blank of code, and what is written at once. -/
def blank (b : Char) : Place → List Char × Place
  | copied => ([b], copied)
  | tag left => ([b], tag (left - 1))
  | tagEnd => ([b], tagBlank)
  | tagBlank => ([], tagBlank)
  | lineStart => ([], lineStart)
  | word c => ([], wordBlank c b)
  | wordBlank c first => ([], wordBlank c first)
  | operator o => ([], operatorBlank o b)
  | operatorBlank o _ => ([], operatorBlank o b)
  | dot => ([], dotBlank)
  | dotBlank => ([], dotBlank)
  | number => ([], numberBlank)
  | numberBlank => ([], numberBlank)

/-- Whether `c` ends a run of blanks that nothing has to keep apart from it. -/
def closes (c : Char) : Bool :=
  isOperator c || isLineBreak c

/-- Whether `c` begins the number after a concatenation dot. -/
def startsNumber (c : Char) : Bool :=
  c.isDigit || c == '.'

/-- What is written for the blanks before `c`. -/
def gap (c : Char) : Place → List Char
  | wordBlank w b => if closes c && !fuses w c then [] else [b]
  | operatorBlank o b => if fuses o c then [b] else []
  | dotBlank => if startsNumber c then [' '] else []
  | numberBlank => if c == '.' || !closes c then [' '] else []
  | _ => []

/-- Whether a dot at this place concatenates with a blank before it. -/
def spacedDot : Place → Bool
  | tagBlank => true
  | wordBlank _ _ => true
  | operatorBlank o _ => fuses o '.'
  | _ => false

/-- The place behind a character of code that is no blank. -/
def ink (c : Char) : Place → Place
  | tag (left + 2) => tag (left + 1)
  | tag _ => tagEnd
  | p =>
    if (p == dotBlank && startsNumber c) || (p == number && isNumberChar c) then number
    else if isLineBreak c then lineStart
    else if c == '.' && p.spacedDot then dot
    else if isOperator c then operator c
    else word c

/-- The place behind the character with which code begins or resumes: the `?` of an opening tag,
the line break behind a comment, the end of a comment or of a string. -/
def enter (c : Char) : Place :=
  if c == '?' then tag 3 else if isLineBreak c then lineStart else word c

/-- Reads a character `c` of region `r`: what is written, and the place behind it. -/
def step (p : Place) (c : Char) (r : Region) : List Char × Place :=
  match p, r with
  | copied, .code => ([c], enter c)
  | copied, _ => ([c], copied)
  | p, .code => if isBlank c then p.blank c else (p.gap c ++ [c], p.ink c)
  | p, _ => (p.gap c ++ [c], copied)

/-- What is written for blanks that nothing follows. -/
def finish : Place → List Char
  | wordBlank _ b => [b]
  | _ => []

end Place

/-- The characters written for labelled text that is read from place `p` on. -/
def squeeze (p : Place) : List (Char × Region) → List Char
  | [] => p.finish
  | (c, r) :: rest => (p.step c r).1 ++ squeeze (p.step c r).2 rest

/-- The text with the blanks of its code compacted. -/
def compact (text : List Char) : List Char :=
  squeeze .copied (label text)

end PhpSlim.Blanks
