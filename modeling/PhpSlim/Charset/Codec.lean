import PhpSlim.Charset.SingleByte
import PhpSlim.Charset.Utf16
import PhpSlim.Charset.Utf8

/-!
# Reading and writing text in a charset
-/

namespace PhpSlim.Charset

def decode (cs : Charset) (bytes : List UInt8) : Except Error (List Char) :=
  match cs with
  | utf8 => Utf8.decode bytes
  | utf16 => Utf16.decode bytes
  | ascii => SingleByte.decodeAscii 0 bytes
  | latin1 => .ok (bytes.map SingleByte.char)

def encode (cs : Charset) (text : List Char) : Except Error (List UInt8) :=
  match cs with
  | utf8 => .ok (Utf8.encode text)
  | utf16 => .ok (Utf16.encode text)
  | ascii => SingleByte.encode ascii 0x7F 0 text
  | latin1 => SingleByte.encode latin1 0xFF 0 text

end PhpSlim.Charset
