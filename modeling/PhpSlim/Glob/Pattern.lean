/-!
# Patterns of bytes

What a glob means: a set of byte strings, tested by partial derivatives. The derivatives of a
pattern by a byte are patterns for what may follow that byte.
-/

namespace PhpSlim.Glob

/-- A set of bytes: those in one of the ranges (both ends included), or all the others. -/
structure ByteSet where
  negated : Bool := false
  ranges : List (UInt8 × UInt8)
  deriving DecidableEq, Repr

namespace ByteSet

def contains (s : ByteSet) (b : UInt8) : Bool :=
  s.negated != s.ranges.any fun r => decide (r.1 ≤ b) && decide (b ≤ r.2)

end ByteSet

inductive Pattern where
  | empty
  | byte (b : UInt8)
  /-- One byte, whichever it is. -/
  | any
  /-- One byte of a set. -/
  | oneOf (set : ByteSet)
  /-- Any bytes. -/
  | many
  | both (first second : Pattern)
  | either (left right : Pattern)
  /-- A part in brackets; it matches what it matches without them. -/
  | group (p : Pattern)
  deriving DecidableEq, Repr

namespace Pattern

def slash : Pattern :=
  byte 0x2F

/-- Exactly the given bytes. -/
def literal : List UInt8 → Pattern
  | [] => empty
  | b :: rest => both (byte b) (literal rest)

/-- Whether the pattern consists of nothing but `empty`. -/
def isVoid : Pattern → Bool
  | empty => true
  | both p q => p.isVoid && q.isVoid
  | _ => false

def sequence : List Pattern → Pattern
  | [] => empty
  | p :: rest => both p (sequence rest)

def choice : List Pattern → Pattern
  | [] => empty
  | [p] => p
  | p :: rest => either p (choice rest)

/-- Whether the empty string matches. -/
def nullable : Pattern → Bool
  | empty => true
  | byte _ => false
  | any => false
  | oneOf _ => false
  | many => true
  | both p q => p.nullable && q.nullable
  | either p q => p.nullable || q.nullable
  | group p => p.nullable

/-- Patterns one of which matches what follows `b`, whenever the pattern matches a string that
begins with `b`. -/
def derivatives (b : UInt8) : Pattern → List Pattern
  | empty => []
  | byte c => if c = b then [empty] else []
  | any => [empty]
  | oneOf set => if set.contains b then [empty] else []
  | many => [many]
  | both p q => (p.derivatives b).map (both · q) ++ if p.nullable then q.derivatives b else []
  | either p q => p.derivatives b ++ q.derivatives b
  | group p => p.derivatives b

/-- Whether one of the patterns matches the whole string. -/
def anyMatches (patterns : List Pattern) : List UInt8 → Bool
  | [] => patterns.any nullable
  | b :: rest => anyMatches (patterns.flatMap (derivatives b)).eraseDups rest

def matchesAll (p : Pattern) (bytes : List UInt8) : Bool :=
  anyMatches [p] bytes

end Pattern

end PhpSlim.Glob
