import PhpSlim.Glob.Pattern

/-!
# Reading globs

A glob is read from left to right, one character a step:
`?` is one byte, `*` any bytes, `[…]` a byte of a class, `{…,…}` a choice, `\` takes the next
character as it is. `**` between slashes, before the first or behind the last one, stands for any
number of folders; elsewhere it is two stars.
-/

namespace PhpSlim.Glob

inductive Error where
  | unclosedClass
  | invalidRange (low high : Char)
  | unopenedGroup
  | unclosedGroup
  | danglingEscape
  deriving DecidableEq, Repr

def Error.message : Error → String
  | unclosedClass => "unclosed character class; missing ']'"
  | invalidRange low high =>
    "invalid range; '" ++ String.singleton low ++ "' > '" ++ String.singleton high ++ "'"
  | unopenedGroup => "unopened alternate group; missing '\x7b' (maybe escape '\x7d' with '[\x7d]'?)"
  | unclosedGroup => "unclosed alternate group; missing '\x7d' (maybe escape '\x7b' with '[\x7b]'?)"
  | danglingEscape => "dangling '\\'"

/-- A part of a glob. -/
inductive Item where
  /-- Folders before the rest of the glob, or none. -/
  | leading
  /-- A slash, or folders between two slashes. -/
  | between
  /-- Everything below a folder. -/
  | trailing
  /-- A character that stands for itself. -/
  | literal (c : Char)
  /-- Any bytes. -/
  | star
  /-- A single byte or a choice. -/
  | other (p : Pattern)
  deriving DecidableEq, Repr

def Item.toPattern : Item → Pattern
  | leading => .group (.either (.either .empty .slash) (.both .many .slash))
  | between => .group (.either .slash (.both .slash (.both .many .slash)))
  | trailing => .both .slash .many
  | literal c => .literal (String.utf8EncodeChar c)
  | star => .many
  | other p => p

/-- A class that is being read. -/
structure ClassState where
  negated : Bool
  /-- The ranges so far, the latest first. -/
  ranges : List (Char × Char) := []
  /-- A dash was read that may stand between the ends of a range. -/
  dash : Bool := false
  deriving DecidableEq, Repr

inductive Mode where
  | plain
  /-- Behind a backslash. -/
  | escape
  /-- Behind a star that `before` precedes. -/
  | star (before : Option Char)
  /-- Behind two stars that `before` precedes. -/
  | stars (before : Option Char)
  /-- Behind the bracket that opens a class. -/
  | bracket
  | inClass (c : ClassState)
  deriving DecidableEq, Repr

/-- A choice that is being read. -/
structure Group where
  /-- The items before the choice, the latest first. -/
  before : List Item
  /-- The alternatives that are complete, the latest first. -/
  complete : List Pattern := []
  deriving DecidableEq, Repr

structure State where
  mode : Mode := .plain
  /-- The items of the glob, or of the current alternative, the latest first. -/
  items : List Item := []
  /-- The choices that are open, the innermost first. -/
  groups : List Group := []
  /-- The last character read. -/
  last : Option Char := none
  deriving DecidableEq, Repr

namespace State

def push (s : State) (i : Item) : State :=
  { s with items := i :: s.items }

/-- Puts `i` in the place of the last item, unless that one already stands for any folders. -/
def replaceLast (s : State) (i : Item) : State :=
  match s.items with
  | .leading :: _ => s
  | .trailing :: _ => s
  | _ :: rest => { s with items := i :: rest }
  | [] => { s with items := [i] }

def inGroup (s : State) : Bool :=
  !s.groups.isEmpty

def current (s : State) : Pattern :=
  .sequence (s.items.reverse.map Item.toPattern)

/-- Two stars that `before` precedes and `next` follows; the flag says that `next`, a slash,
belongs to them. -/
def settle (s : State) (before next : Option Char) : State × Bool :=
  let apart := ((s.push .star).push .star, false)
  if s.items.isEmpty then
    match next with
    | none => ({ s with items := [.leading] }, false)
    | some c => if c == '/' then ({ s with items := [.leading] }, true) else apart
  else if before == some '/' || (s.inGroup && (before == some ',' || before == some '{')) then
    match next with
    | none => (s.replaceLast .trailing, false)
    | some c =>
      if c == '/' then (s.replaceLast .between, true)
      else if s.inGroup && (c == ',' || c == '}') then (s.replaceLast .trailing, false)
      else apart
  else apart

def openGroup (s : State) : State :=
  { s with items := [], groups := ⟨s.items, []⟩ :: s.groups }

/-- The choice between alternatives; those without any content are left out. -/
def choice (alternatives : List Pattern) : Pattern :=
  match alternatives.filter fun p => !p.isVoid with
  | [] => .empty
  | kept => .group (.choice kept)

def closeGroup (s : State) : Except Error State :=
  match s.groups with
  | [] => .error .unopenedGroup
  | g :: outer =>
    let item := .other (choice (s.current :: g.complete).reverse)
    .ok { s with items := item :: g.before, groups := outer }

/-- Outside a choice a comma is a character like any other. -/
def comma (s : State) : State :=
  match s.groups with
  | [] => s.push (.literal ',')
  | g :: outer =>
    { s with items := [], groups := { g with complete := s.current :: g.complete } :: outer }

/-- A character that does not continue an earlier one. -/
def plain (s : State) (c : Char) : Except Error State :=
  let before := s.last
  let s := { s with mode := .plain, last := some c }
  match c with
  | '?' => .ok (s.push (.other .any))
  | '*' => .ok { s with mode := .star before }
  | '[' => .ok { s with mode := .bracket }
  | '{' => .ok s.openGroup
  | '}' => s.closeGroup
  | ',' => .ok s.comma
  | '\\' => .ok { s with mode := .escape }
  | c => .ok (s.push (.literal c))

end State

/-- The bytes of a range of characters. The ends are taken byte by byte: the range runs from the
last byte of the low end to the first byte of the high end, and their other bytes stand alone. -/
def byteRanges (r : Char × Char) : List (UInt8 × UInt8) :=
  let low := String.utf8EncodeChar r.1
  let high := String.utf8EncodeChar r.2
  let alone (bytes : List UInt8) := bytes.map fun b => (b, b)
  if r.1 == r.2 then alone low
  else
    match low.getLast?, high.head? with
    | some a, some b => alone low.dropLast ++ (a, b) :: alone high.tail
    | _, _ => []

namespace ClassState

def set (c : ClassState) : ByteSet where
  negated := c.negated
  ranges := (if c.dash then ('-', '-') :: c.ranges else c.ranges).reverse.flatMap byteRanges

/-- A character that joins a class, alone or as the high end of a range. -/
def add (c : ClassState) (x : Char) : Except Error ClassState :=
  match c.dash, c.ranges with
  | true, (low, _) :: rest =>
    if x < low then .error (.invalidRange low x)
    else .ok { c with ranges := (low, x) :: rest, dash := false }
  | _, ranges => .ok { c with ranges := (x, x) :: ranges, dash := false }

/-- A bracket or a dash that comes first is a character of the class. -/
def isFirst (c : ClassState) : Bool :=
  c.ranges.isEmpty

end ClassState

namespace State

def readClass (s : State) (c : ClassState) (x : Char) : Except Error State :=
  let s := { s with last := some x }
  if x == ']' && !c.isFirst then .ok ({ s with mode := .plain }.push (.other (.oneOf c.set)))
  else if x == '-' && !c.isFirst && !c.dash then
    .ok { s with mode := .inClass { c with dash := true } }
  else do return { s with mode := .inClass (← c.add x) }

/-- Reads one character. -/
def step (s : State) (x : Char) : Except Error State :=
  match s.mode with
  | .plain => s.plain x
  | .escape => .ok ({ s with mode := .plain, last := some x }.push (.literal x))
  | .star before =>
    if x == '*' then .ok { s with mode := .stars before, last := some x }
    else (s.push .star).plain x
  | .stars before =>
    match s.settle before (some x) with
    | (s, true) => .ok { s with mode := .plain, last := some x }
    | (s, false) => s.plain x
  | .bracket =>
    if x == '!' || x == '^' then .ok { s with mode := .inClass { negated := true }, last := some x }
    else s.readClass { negated := false } x
  | .inClass c => s.readClass c x

def run (s : State) : List Char → Except Error State
  | [] => .ok s
  | x :: rest => do (← s.step x).run rest

/-- Ends the reading: the items of the whole glob. -/
def finish (s : State) : Except Error (List Item) :=
  let close (s : State) : Except Error (List Item) :=
    if s.inGroup then .error .unclosedGroup else .ok s.items.reverse
  match s.mode with
  | .plain => close s
  | .escape => .error .danglingEscape
  | .star _ => close (s.push .star)
  | .stars before => close (s.settle before none).1
  | .bracket => .error .unclosedClass
  | .inClass _ => .error .unclosedClass

end State

/-- The items of a glob. -/
def parse (glob : List Char) : Except Error (List Item) := do
  (← ({} : State).run glob).finish

/-- What a glob stands for; one that only stands for any folders matches everything. -/
def toPattern (items : List Item) : Pattern :=
  if items = [.leading] then .many else .sequence (items.map Item.toPattern)

end PhpSlim.Glob
