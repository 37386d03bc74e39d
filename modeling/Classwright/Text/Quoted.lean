import Classwright.Text.Printed

/-! # Quoted text

Text in messages stands between double quotes. A quote, a backslash and the usual control characters have short
escapes, and every other character that prints nothing of its own is shown by its code. -/

namespace Classwright.Text

/-- One character inside quotes. -/
def quoteChar (c : Char) : List Char :=
  if c = '"' then ['\\', '"']
  else if c = '\\' then ['\\', '\\']
  else if c = '\n' then ['\\', 'n']
  else if c = '\r' then ['\\', 'r']
  else if c = '\t' then ['\\', 't']
  else if c = '\x00' then ['\\', '0']
  else if isPrinted c then [c]
  else '\\' :: 'u' :: '\x7b' :: (Nat.toDigits 16 c.toNat ++ ['\x7d'])

def quote (s : String) : String := String.ofList ('"' :: (s.toList.flatMap quoteChar ++ ['"']))

end Classwright.Text
