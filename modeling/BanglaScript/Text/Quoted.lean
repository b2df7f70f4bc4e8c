/-!
# String literals of instructions and scripts

A literal stands between double quotes.  The backslash, the double quote, the
line feed, the carriage return and the tab have two-character escapes; every
other character stands for itself.
-/

namespace BanglaScript.Text

/-- The form of one character inside a literal. -/
def quoteCharacter (character : Char) : List Char :=
  if character = '\\' then ['\\', '\\']
  else if character = '"' then ['\\', '"']
  else if character = '\n' then ['\\', 'n']
  else if character = '\r' then ['\\', 'r']
  else if character = '\t' then ['\\', 't']
  else [character]

/-- The literal of a text. -/
def quoted (text : String) : String :=
  String.ofList (['"'] ++ text.toList.flatMap quoteCharacter ++ ['"'])

end BanglaScript.Text
