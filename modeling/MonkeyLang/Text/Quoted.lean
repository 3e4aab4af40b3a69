import MonkeyLang.Text.GraphemeExtend
import MonkeyLang.Text.Unprintable

namespace MonkeyLang.Text

/-- Whether a character has a glyph of its own. All characters of ASCII from the blank to the tilde
have one. -/
def isVisible (c : Char) : Bool :=
  (0x20 ≤ c.toNat && c.toNat < 0x7f) || !(isUnprintable c || isGraphemeExtend c)

/-- One character inside double quotes. A character that is not visible and has no letter of its own
is written as its code point in lower case hexadecimal. -/
def escape (c : Char) : List Char :=
  match c with
  | '"' => ['\\', '"']
  | '\\' => ['\\', '\\']
  | '\n' => ['\\', 'n']
  | '\r' => ['\\', 'r']
  | '\t' => ['\\', 't']
  | '\x00' => ['\\', '0']
  | c => if isVisible c then [c] else ['\\', 'u', '{'] ++ Nat.toDigits 16 c.toNat ++ ['}']

def quoted (s : String) : String :=
  String.ofList ('"' :: s.toList.flatMap escape ++ ['"'])

end MonkeyLang.Text
