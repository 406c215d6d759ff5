import PhpSlim.Text.Quoted
import PhpSlim.Text.WhiteSpace

/-!
# Charsets

The encodings in which files are read and written, their names, and what can go wrong.
-/

namespace PhpSlim

inductive Charset where
  | utf8
  /-- Big-endian unless a byte order mark says otherwise; written with a mark. -/
  | utf16
  | ascii
  /-- ISO-8859-1. -/
  | latin1
  deriving DecidableEq, Repr, Inhabited

namespace Charset

def all : List Charset :=
  [utf8, utf16, ascii, latin1]

/-- The name that messages show. -/
def name : Charset → String
  | utf8 => "UTF-8"
  | utf16 => "UTF-16"
  | ascii => "US-ASCII"
  | latin1 => "ISO-8859-1"

/-- The spellings under which users know a charset. -/
def aliases : Charset → List String
  | utf8 => ["UTF-8", "UTF8"]
  | utf16 => ["UTF-16", "UTF16"]
  | ascii => ["US-ASCII", "US_ASCII", "ASCII"]
  | latin1 => ["ISO-8859-1", "ISO88591", "ISO_8859_1", "LATIN1"]

/-- The charset of a name; case and white space around it do not matter. -/
def ofName? (s : String) : Option Charset :=
  all.find? fun cs => cs.aliases.any (Text.sameName (Text.trim s))

/-- Why bytes or characters have no counterpart; offsets count bytes. -/
inductive Error where
  /-- The bytes from `offset` on begin with no well-formed sequence. -/
  | invalidUtf8 (offset : Nat)
  | oddUtf16Length (length : Nat)
  | unpairedSurrogate (offset : Nat)
  | notAscii (offset : Nat) (byte : UInt8)
  /-- The offset is that of `ch` in the UTF-8 form of the text. -/
  | unencodable (ch : Char) (offset : Nat) (charset : Charset)
  deriving DecidableEq, Repr

/-- Two upper-case hexadecimal digits. -/
def byteDigits (b : UInt8) : String :=
  String.ofList ([b.toNat / 16, b.toNat % 16].map fun d => (Nat.digitChar d).toUpper)

def Error.message : Error → String
  | invalidUtf8 offset => "invalid UTF-8 at byte " ++ toString offset
  | oddUtf16Length length => "UTF-16 input has an odd number of bytes (" ++ toString length ++ ")"
  | unpairedSurrogate offset => "unpaired UTF-16 surrogate at byte " ++ toString offset
  | notAscii offset byte =>
    "byte 0x" ++ byteDigits byte ++ " at " ++ toString offset ++ " is not US-ASCII"
  | unencodable ch offset charset =>
    "character " ++ Text.quotedChar ch ++ " at " ++ toString offset ++ " cannot be written as " ++
      charset.name

end Charset

end PhpSlim
