import PhpSlim.Charset.Basic

/-!
# UTF-16

Texts as units of sixteen bits, and units as pairs of bytes in either order. A character beyond
U+FFFF takes two units: a high and a low surrogate with ten bits each.
-/

namespace PhpSlim.Charset.Utf16

inductive ByteOrder where
  | big
  | little
  deriving DecidableEq, Repr

def bigMark : List UInt8 := [0xFE, 0xFF]

def littleMark : List UInt8 := [0xFF, 0xFE]

/-- The unit of two bytes that stand in the order `order`. -/
def unit (order : ByteOrder) (first second : UInt8) : Nat :=
  match order with
  | .big => first.toNat * 256 + second.toNat
  | .little => second.toNat * 256 + first.toNat

/-- The units of bytes in the order `order`; a last single byte is left over. -/
def units (order : ByteOrder) : List UInt8 → List Nat
  | a :: b :: rest => unit order a b :: units order rest
  | _ => []

/-- The bytes of units, the high byte first. -/
def bytes (units : List Nat) : List UInt8 :=
  units.flatMap fun u => [UInt8.ofNat (u / 256), UInt8.ofNat (u % 256)]

def isHigh (u : Nat) : Bool :=
  decide (0xD800 ≤ u) && decide (u < 0xDC00)

def isLow (u : Nat) : Bool :=
  decide (0xDC00 ≤ u) && decide (u < 0xE000)

/-- The character of a pair of surrogates. -/
def join (high low : Nat) : Char :=
  Char.ofNat (0x10000 + (high - 0xD800) * 0x400 + (low - 0xDC00))

/-- The units of a character. -/
def split (c : Char) : List Nat :=
  if c.toNat < 0x10000 then [c.toNat]
  else [0xD800 + (c.toNat - 0x10000) / 0x400, 0xDC00 + (c.toNat - 0x10000) % 0x400]

/-- Reads units that stand at byte `offset` in the whole input. -/
def decodeUnits (offset : Nat) : List Nat → Except Error (List Char)
  | [] => .ok []
  | [u] => if isHigh u || isLow u then .error (.unpairedSurrogate offset) else .ok [Char.ofNat u]
  | u :: v :: rest =>
    if isHigh u then
      if isLow v then do
        let text ← decodeUnits (offset + 4) rest
        return join u v :: text
      else .error (.unpairedSurrogate offset)
    else if isLow u then .error (.unpairedSurrogate offset)
    else do
      let text ← decodeUnits (offset + 2) (v :: rest)
      return Char.ofNat u :: text

/-- The bytes behind a byte order mark, with the order they stand in. -/
def splitMark : List UInt8 → ByteOrder × Nat × List UInt8
  | 0xFF :: 0xFE :: rest => (.little, 2, rest)
  | 0xFE :: 0xFF :: rest => (.big, 2, rest)
  | rest => (.big, 0, rest)

def decode (input : List UInt8) : Except Error (List Char) :=
  if input.length % 2 == 1 then .error (.oddUtf16Length input.length)
  else
    let (order, offset, body) := splitMark input
    decodeUnits offset (units order body)

def encode (text : List Char) : List UInt8 :=
  bigMark ++ bytes (text.flatMap split)

end PhpSlim.Charset.Utf16
