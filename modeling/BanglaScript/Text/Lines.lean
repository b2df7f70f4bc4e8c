/-!
# Lines and columns of text

A line ends at a line feed; a carriage return right before it belongs to the
line end.  Text behind the last line feed is a line of its own unless it is
empty.
-/

namespace BanglaScript.Text

/-- The lines of a character sequence, without their ends. -/
def splitLines : List Char → List (List Char)
  | [] => []
  | '\n' :: rest => [] :: splitLines rest
  | '\r' :: '\n' :: rest => [] :: splitLines rest
  | character :: rest =>
    match splitLines rest with
    | [] => [[character]]
    | line :: lines => (character :: line) :: lines

/-- The lines of a text, without their ends. -/
def lines (text : String) : List String :=
  (splitLines text.toList).map String.ofList

/-- A text set to the right of a field of the given width. -/
def alignRight (width : Nat) (text : String) : String :=
  String.ofList (List.replicate (width - text.length) ' ') ++ text

/-- Texts one after the other with a separator in between. -/
def join (separator : String) (texts : List String) : String :=
  separator.intercalate texts

end BanglaScript.Text
