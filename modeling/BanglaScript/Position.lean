/-!
# Places in a source text

A place is named in two ways: by line and column, for readers, and by a span
of bytes, for tools.  Lines and columns count from one, and columns count
characters.  Spans count bytes of the text's UTF-8 form from zero.
-/

namespace BanglaScript

/-- A line and a column, both counted from one. -/
structure Position where
  line : Nat
  column : Nat
deriving DecidableEq

namespace Position

/-- The first character of a text. -/
def start : Position := ⟨1, 1⟩

/-- The place right behind a character.  Only a line feed starts a new line. -/
def after (position : Position) (character : Char) : Position :=
  if character = '\n' then ⟨position.line + 1, 1⟩
  else ⟨position.line, position.column + 1⟩

/-- The wording used in reports. -/
def describe (position : Position) : String :=
  s!"line {position.line}, column {position.column}"

end Position

/-- A run of bytes: where it begins and how many there are. -/
structure Span where
  offset : Nat
  length : Nat
deriving DecidableEq

end BanglaScript
