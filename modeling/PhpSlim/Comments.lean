import PhpSlim.Text.Letter
import PhpSlim.Region

/-!
# Removing comments

Comments go, their line breaks stay, so every line keeps its number. Where a comment inside a line
held two tokens apart, one space takes its place.
-/

namespace PhpSlim.Comments

open PhpSlim.Text

/-- What the removal remembers of the text before the current character. -/
structure State where
  /-- The region of the character before. -/
  region : Region := .outside
  /-- The last character written. -/
  last : Option Char := none
  /-- A line break of the block comment being removed was written. -/
  broken : Bool := false
  deriving DecidableEq, Repr, Inhabited

/-- Whether a slash of code is the first half of `//` or of `/*`. -/
def opens (c : Char) (next : Option Char) : Bool :=
  c == '/' && (next == some '/' || next == some '*')

/-- Whether `last` and `next` must not come to touch. -/
def glues (last next : Option Char) : Bool :=
  match last, next with
  | some b, some a => (isWordChar b && isWordChar a) || fuses b a
  | _, _ => false

/-- A line break of a comment: `\n`, or the `\r` directly before one. -/
def breaksLine (c : Char) (next : Option Char) : Bool :=
  c == '\n' || (c == '\r' && next == some '\n')

/-- What is written for a character `c` of region `r` that `next` follows. -/
def written (s : State) (c : Char) (r : Region) (next : Option Char) : Option Char :=
  match s.region, r with
  | .code, .code => if opens c next then none else some c
  | .code, .lineComment => none
  | .code, .blockComment => none
  | .lineComment, _ => if breaksLine c next then some c else none
  | .blockComment, .code => if !s.broken && glues s.last next then some ' ' else none
  | .blockComment, _ => if breaksLine c next then some c else none
  | _, _ => some c

def State.step (s : State) (c : Char) (r : Region) (next : Option Char) : State where
  region := r
  last := (written s c r next).or s.last
  broken := s.region == .blockComment && (s.broken || c == '\n')

/-- The characters written for labelled text that is read from state `s` on. -/
def erase (s : State) : List (Char × Region) → List Char
  | [] => []
  | (c, r) :: rest =>
    let next := rest.head?.map Prod.fst
    (written s c r next).toList ++ erase (s.step c r next) rest

/-- The text without its comments. -/
def strip (text : List Char) : List Char :=
  erase {} (label text)

end PhpSlim.Comments
