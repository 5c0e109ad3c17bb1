import CssSelectors.Text.Unprintable

/-!
# Quoted text

A text between double quotes, written so that everything in it can be seen: quotes
and backslashes behind a backslash, the usual letters for line breaks, tabs and the
null, and the number of any other code point that does not print.
-/

namespace CssSelectors

namespace Quoted

def numbered (c : Char) : List Char :=
  '\\' :: 'u' :: '\x7b' :: (Nat.toDigits 16 c.toNat ++ ['\x7d'])

def encodeChar (c : Char) : List Char :=
  match c with
  | '\x00' => ['\\', '0']
  | '\t' => ['\\', 't']
  | '\n' => ['\\', 'n']
  | '\r' => ['\\', 'r']
  | '"' => ['\\', '"']
  | '\\' => ['\\', '\\']
  | c => if CodePoint.isUnprintable c then numbered c else [c]

def encode (text : String) : String :=
  "\"" ++ String.ofList (text.toList.flatMap encodeChar) ++ "\""

end Quoted

end CssSelectors
