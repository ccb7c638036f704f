import Polytype.Text.Unprintable
import Polytype.Text.Extending
import Polytype.Text.Ignorable

/-!
# Quoted text

Text is written between double quotes. The quote, the backslash and the common control characters
are escaped by a backslash, and every other character that would not show is given by its code
point.
-/

namespace Polytype.Text

/-- Whether a character can stand for itself. -/
def isShown (c : Char) : Bool := !isUnprintable c && !isExtending c && !isIgnorable c

/-- The code point in hexadecimal, between braces. -/
def codePoint (c : Char) : List Char :=
  '\\' :: 'u' :: '\x7b' :: Nat.toDigits 16 c.toNat ++ ['\x7d']

def escape : Char → List Char
  | '\x00' => ['\\', '0']
  | '\t' => ['\\', 't']
  | '\r' => ['\\', 'r']
  | '\n' => ['\\', 'n']
  | '\\' => ['\\', '\\']
  | '"' => ['\\', '"']
  | c => if isShown c then [c] else codePoint c

def quote (s : String) : String := String.ofList ('"' :: s.toList.flatMap escape ++ ['"'])

end Polytype.Text
