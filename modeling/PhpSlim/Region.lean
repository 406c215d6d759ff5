/-!
# Regions of a PHP source text

A source text is a sequence of regions: text outside PHP, code, comments and quoted strings.
`Scan` reads it one character at a time; `label` pairs every character with its region.
-/

namespace PhpSlim

inductive Region where
  | outside
  | code
  | lineComment
  | blockComment
  | singleQuoted
  | doubleQuoted
  deriving DecidableEq, Repr, Inhabited

/-- What the reading of a text remembers between two characters. -/
structure Scan where
  region : Region := .outside
  /-- The character before the current one, if it can open or close something together with it. -/
  prev : Option Char := none
  /-- Inside a string, whether the current character stands after an open backslash. -/
  escaped : Bool := false
  /-- The current character completed a delimiter, so it takes no part in the next one. -/
  spent : Bool := false
  deriving DecidableEq, Repr, Inhabited

namespace Scan

/-- A character of code; `after` is the text behind it. A `#` directly before `[` opens an
attribute, not a comment. -/
def readCode (s : Scan) (c : Char) (after : List Char) : Scan :=
  if c == '/' && s.prev == some '/' then { s with region := .lineComment, spent := true }
  else if c == '*' && s.prev == some '/' then { s with region := .blockComment, spent := true }
  else if c == '#' && after.head? != some '[' then { s with region := .lineComment }
  else if c == '\'' then { s with region := .singleQuoted, escaped := false }
  else if c == '"' then { s with region := .doubleQuoted, escaped := false }
  else if c == '>' && s.prev == some '?' then { s with region := .outside }
  else s

/-- A character of a string that ends at `quote`. -/
def readQuoted (s : Scan) (quote c : Char) : Scan :=
  if c == quote && !s.escaped then { s with region := .code }
  else { s with escaped := c == '\\' && !s.escaped }

/-- Decides the region of the current character `c`, with `after` the text behind it. -/
def classify (s : Scan) (c : Char) (after : List Char) : Scan :=
  let s := { s with spent := false }
  match s.region with
  | .outside =>
    if c == '?' && s.prev == some '<' && ['p', 'h', 'p'].isPrefixOf after then
      { s with region := .code }
    else s
  | .code => s.readCode c after
  | .lineComment => if c == '\n' then { s with region := .code } else s
  | .blockComment =>
    if c == '/' && s.prev == some '*' then { s with region := .code, spent := true } else s
  | .singleQuoted => s.readQuoted '\'' c
  | .doubleQuoted => s.readQuoted '"' c

/-- Moves past the current character, which becomes the previous one unless it is spent. -/
def advance (s : Scan) (current : Option Char) : Scan :=
  { s with prev := if s.spent then none else current, spent := false }

/-- Classifies `c` and moves past it. -/
def step (s : Scan) (c : Char) (after : List Char) : Scan :=
  (s.classify c after).advance (some c)

/-- Every character of a text with its region. -/
def label (s : Scan) : List Char → List (Char × Region)
  | [] => []
  | c :: rest => (c, (s.step c rest).region) :: (s.step c rest).label rest

end Scan

/-- Every character of a whole text with its region; reading starts outside PHP. -/
def label (text : List Char) : List (Char × Region) :=
  ({} : Scan).label text

/-- The region in which a whole text ends: that of its last character. -/
def finalRegion (text : List Char) : Region :=
  match (label text).getLast? with
  | some x => x.2
  | none => .outside

end PhpSlim
