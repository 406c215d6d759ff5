import PhpSlim.Glob.Parser
import PhpSlim.Text.Quoted

/-!
# Globs as expressions

Some globs are matched by comparing texts: a whole path, its beginning or its end. The others are
turned into an expression, whose parts must not be nested too deep.
-/

namespace PhpSlim.Glob

namespace Pattern

/-- How many parts stand side by side at the top of a pattern. -/
def parts : Pattern → Nat
  | empty => 0
  | both p q => p.parts + q.parts
  | _ => 1

def isChoice : Pattern → Bool
  | either _ _ => true
  | _ => false

/-- How deep the parts at the top of a pattern are nested. Brackets count, and so do repetitions,
sequences of several parts inside brackets, choices, and classes: these twice if they list several
ranges. -/
def depth : Pattern → Nat
  | empty => 0
  | byte _ => 0
  | any => 0
  | oneOf set => if set.ranges.length ≤ 1 then 1 else 2
  | many => 1
  | both p q => max p.depth q.depth
  | either p q =>
    max (p.depth + if p.parts ≤ 1 then 0 else 1) (q.depth + if q.parts ≤ 1 then 0 else 1)
  | group p => p.depth + (if p.parts ≤ 1 && !p.isChoice then 0 else 1) + 1

/-- The characters that stand for themselves in an expression only behind a backslash. -/
def specialCharacters : List Char :=
  "\\.+*?()|[]\x7b\x7d^$#&-~".toList

/-- A byte in an expression. -/
def byteText (b : UInt8) : String :=
  if 0x80 ≤ b then "\\x" ++ Text.hexDigits b.toNat
  else if specialCharacters.contains (Char.ofUInt8 b) then
    "\\" ++ String.singleton (Char.ofUInt8 b)
  else String.singleton (Char.ofUInt8 b)

def rangeText (r : UInt8 × UInt8) : String :=
  if r.1 = r.2 then byteText r.1 else byteText r.1 ++ "-" ++ byteText r.2

/-- The text of the expression for a pattern; a choice whose first alternative is empty is written
with a question mark. -/
def expression : Pattern → String
  | empty => ""
  | byte b => byteText b
  | any => "."
  | oneOf set =>
    "[" ++ (if set.negated then "^" else "") ++ String.join (set.ranges.map rangeText) ++ "]"
  | many => ".*"
  | both p q => p.expression ++ q.expression
  | either empty q => q.expression ++ "?"
  | either p q => p.expression ++ "|" ++ q.expression
  | group p => "(?:" ++ p.expression ++ ")"

end Pattern

/-- The text of the expression for a whole glob. -/
def expression (items : List Item) : String :=
  "(?-u)^" ++ (toPattern items).expression ++ "$"

/-- How deep the parts of an expression may be nested. -/
def maxDepth : Nat := 250

/-- Whether the expression for a glob, itself a sequence, is nested too deep. -/
def isTooDeep (items : List Item) : Bool :=
  decide (maxDepth < (toPattern items).depth + 1)

def Item.isLiteral : Item → Bool
  | literal _ => true
  | _ => false

/-- Whether a glob is matched by comparing texts: it consists of characters that stand for
themselves but for a `*` or a `/**` at its end, or a `**/`, a `*` or both at its beginning. -/
def isText (items : List Item) : Bool :=
  match items.span Item.isLiteral with
  | (_ :: _, []) => true
  | (_ :: _, [.star]) => true
  | (_, [.trailing]) => true
  | ([], .leading :: .star :: rest) => isEnd rest
  | ([], .leading :: rest) => !rest.isEmpty && rest.all Item.isLiteral
  | ([], .star :: rest) => isEnd rest
  | _ => false
where
  /-- Whether the items are an end to compare with; a single slash is none. -/
  isEnd (rest : List Item) : Bool :=
    !rest.isEmpty && rest.all Item.isLiteral && rest != [.literal '/']

/-- Whether a glob ends with an extension: a dot and characters that stand for themselves. -/
def hasExtension (items : List Item) : Bool :=
  match items.reverse.dropWhile fun i => i.isLiteral && i != .literal '.' && i != .literal '/' with
  | .literal '.' :: _ => true
  | _ => false

end PhpSlim.Glob
