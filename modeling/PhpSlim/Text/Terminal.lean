import PhpSlim.Text.Quoted

/-!
# Text on a terminal

A line of the log may hold names that others chose. Controls that a terminal could obey are shown
by escapes; tabs and line breaks stay.
-/

namespace PhpSlim.Text

/-- The controls below U+0080 that a terminal could obey: bell, backspace, form feed, escape and
delete. -/
def terminalControls : List Char :=
  ['\x07', '\x08', '\x0c', '\x1b', '\x7f']

/-- The form in which a character is sent to a terminal. -/
def terminalForm (c : Char) : String :=
  if terminalControls.contains c then
    "\\x" ++ (if c.toNat < 0x10 then "0" else "") ++ hexDigits c.toNat
  else if 0x80 ≤ c.toNat && c.toNat ≤ 0x9F then "\\u\x7b" ++ hexDigits c.toNat ++ "\x7d"
  else String.singleton c

/-- A text in which a terminal finds nothing to obey. -/
def forTerminal (s : String) : String :=
  String.join (s.toList.map terminalForm)

end PhpSlim.Text
