/-!
# Letters of PHP code

The classes of characters that decide where code may lose a blank, and the pairs of characters
that must stay apart because they would be read as one token.
-/

namespace PhpSlim.Text

/-- Punctuation that never needs a blank on either side of its own accord. -/
def operators : List Char :=
  ['.', '=', '+', '-', '*', '/', '?', ':', ';', '(', ')', '{', '}', '[', ']', '&', '%', '!', ',',
    '<', '>']

def isOperator (c : Char) : Bool :=
  operators.contains c

/-- A space or a tab; line breaks are a class of their own. -/
def isBlank (c : Char) : Bool :=
  c == ' ' || c == '\t'

def isLineBreak (c : Char) : Bool :=
  c == '\n' || c == '\r'

/-- Characters that can stand in a number literal: `125`, `.5`, `0x1F`, `1_000`, `2e3`. -/
def isNumberChar (c : Char) : Bool :=
  c.isAlphanum || c == '_' || c == '.'

/-- Characters of names, keywords and variables; everything beyond ASCII counts. -/
def isWordChar (c : Char) : Bool :=
  c.isAlphanum || c == '_' || c == '$' || decide (127 < c.toNat)

/-- Pairs of punctuation that form one token. -/
def fusedPairs : List (Char × Char) :=
  [('+', '+'), ('-', '-'), ('/', '/'), ('/', '*'), ('.', '.'), ('?', '>')]

/-- Whether `left` and `right` are read as a different token once they touch. -/
def fuses (left right : Char) : Bool :=
  fusedPairs.contains (left, right) || (left.isDigit && right == '.') ||
    (left == '.' && right.isDigit)

end PhpSlim.Text
