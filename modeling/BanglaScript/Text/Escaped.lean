import BanglaScript.Text.Visible

/-!
# Escaped text for reports

Reports show texts and characters between quotes.  The usual control
characters have short escapes, a backslash and the enclosing quote are
escaped, and every other character that does not show by itself is written as
its code point in hexadecimal.
-/

namespace BanglaScript.Text

/-- The escape of one code point: `\u` and its hexadecimal digits in braces. -/
def codePointEscape (character : Char) : List Char :=
  ['\\', 'u', '\x7b'] ++ Nat.toDigits 16 character.toNat ++ ['\x7d']

/-- One character between quotes of the given kind. -/
def escapeCharacter (quote character : Char) : List Char :=
  if character = '\x00' then ['\\', '0']
  else if character = '\t' then ['\\', 't']
  else if character = '\n' then ['\\', 'n']
  else if character = '\r' then ['\\', 'r']
  else if character = '\\' ∨ character = quote then ['\\', character]
  else if isVisible character then [character]
  else codePointEscape character

/-- A text in double quotes. -/
def escaped (text : String) : String :=
  String.ofList (['"'] ++ text.toList.flatMap (escapeCharacter '"') ++ ['"'])

/-- A character in single quotes. -/
def escapedCharacter (character : Char) : String :=
  String.ofList (['\''] ++ escapeCharacter '\'' character ++ ['\''])

end BanglaScript.Text
