import PhpSlim.Charset.Basic

/-!
# Charsets of one byte per character

In US-ASCII and ISO-8859-1 the byte of a character is its code point.
-/

namespace PhpSlim.Charset.SingleByte

def char (b : UInt8) : Char :=
  Char.ofNat b.toNat

/-- Reads US-ASCII bytes that stand at `offset` in the whole input. -/
def decodeAscii (offset : Nat) : List UInt8 → Except Error (List Char)
  | [] => .ok []
  | b :: rest =>
    if b.toNat < 0x80 then do
      let text ← decodeAscii (offset + 1) rest
      return char b :: text
    else .error (.notAscii offset b)

/-- Writes a text, at UTF-8 offset `offset` of the whole one, in the charset whose last code point
is `max`. -/
def encode (charset : Charset) (max offset : Nat) : List Char → Except Error (List UInt8)
  | [] => .ok []
  | c :: rest =>
    if c.toNat ≤ max then do
      let bytes ← encode charset max (offset + c.utf8Size) rest
      return UInt8.ofNat c.toNat :: bytes
    else .error (.unencodable c offset charset)

end PhpSlim.Charset.SingleByte
