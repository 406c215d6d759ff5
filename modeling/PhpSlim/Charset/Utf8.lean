import PhpSlim.Charset.Basic

/-!
# UTF-8

Texts as bytes of UTF-8 and back. Reading stops at the first sequence that is not well-formed:
truncated, overlong, a surrogate, or beyond U+10FFFF.
-/

namespace PhpSlim.Charset.Utf8

def encode (text : List Char) : List UInt8 :=
  text.flatMap String.utf8EncodeChar

/-- The character whose sequence stands at the front; no sequence is longer than four bytes. -/
def next? (bytes : List UInt8) : Option Char :=
  (bytes.take 4).toByteArray.utf8DecodeChar? 0

/-- Reads bytes that stand at `offset` in the whole input. -/
def decodeFrom (offset : Nat) : List UInt8 → Except Error (List Char)
  | [] => .ok []
  | b :: rest =>
    match next? (b :: rest) with
    | none => .error (.invalidUtf8 offset)
    | some c => do
      let text ← decodeFrom (offset + c.utf8Size) (rest.drop (c.utf8Size - 1))
      return c :: text
  termination_by bytes => bytes.length
  decreasing_by
    simp only [List.length_drop, List.length_cons]
    omega

def decode (bytes : List UInt8) : Except Error (List Char) :=
  decodeFrom 0 bytes

end PhpSlim.Charset.Utf8
