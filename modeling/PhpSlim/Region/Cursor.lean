import PhpSlim.Region

/-!
# Moving through a text by hand

A `Cursor` is a scan that stands at a position of a text and is moved step by step. It may stand
behind the end, where there is no current character.
-/

namespace PhpSlim

structure Cursor where
  text : List Char
  position : Nat := 0
  scan : Scan := {}
  deriving Repr

namespace Cursor

/-- The character `n` places behind the current one. -/
def peek (k : Cursor) (n : Nat) : Option Char :=
  k.text[k.position + n]?

def current (k : Cursor) : Option Char :=
  k.peek 0

/-- The text behind the current character. -/
def after (k : Cursor) : List Char :=
  k.text.drop (k.position + 1)

/-- Whether the text behind the current character begins with `word`. -/
def spells (k : Cursor) (word : List Char) : Bool :=
  word.isPrefixOf k.after

/-- Decides the region as if `c` were the current character. -/
def classify (k : Cursor) (c : Char) : Cursor :=
  { k with scan := k.scan.classify c k.after }

def advance (k : Cursor) : Cursor :=
  { k with scan := k.scan.advance k.current, position := k.position + 1 }

/-- Moves past the current character and leaves the previous one as it is. -/
def skip (k : Cursor) : Cursor :=
  { k with position := k.position + 1 }

/-- Stands at position `n`, or at the end if the text is shorter; the previous character stays. -/
def moveTo (k : Cursor) (n : Nat) : Cursor :=
  { k with position := min n k.text.length }

end Cursor

end PhpSlim
