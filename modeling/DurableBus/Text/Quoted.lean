import DurableBus.Text.Hidden

/-!
# Quoted text

Text between double quotes, for messages that show a value as it was given: a backslash stands before quotes,
backslashes and the usual controls, and a character without a glyph is written as its code point in braces.
-/

set_option autoImplicit false

namespace DurableBus

def quoteChar (c : Char) : List Char :=
  match c with
  | '\x00' => ['\\', '0']
  | '\t' => ['\\', 't']
  | '\r' => ['\\', 'r']
  | '\n' => ['\\', 'n']
  | '"' => ['\\', '"']
  | '\\' => ['\\', '\\']
  | c =>
    let n := c.toNat
    if (0x20 ≤ n && n < 0x7F) || (0x7F < n && !Hidden.contains n) then [c]
    else ['\\', 'u', '\x7b'] ++ Hex.digits n ++ ['\x7d']

def quoted (s : String) : String :=
  String.ofList (['"'] ++ s.toList.flatMap quoteChar ++ ['"'])

end DurableBus
