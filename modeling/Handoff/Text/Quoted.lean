import Handoff.Text.Printable

/-!
Quoted texts: between two quotes, every character that could be misread or not be seen is written
with a backslash.
-/

namespace Handoff.Text

def escaped : Char → List Char
  | '\x00' => ['\\', '0']
  | '\t' => ['\\', 't']
  | '\n' => ['\\', 'n']
  | '\r' => ['\\', 'r']
  | '"' => ['\\', '"']
  | '\\' => ['\\', '\\']
  | c => if isPrintable c then [c] else ['\\', 'u', '{'] ++ Nat.toDigits 16 c.toNat ++ ['}']

def quoted (text : List Char) : List Char :=
  '"' :: text.flatMap escaped ++ ['"']

end Handoff.Text
