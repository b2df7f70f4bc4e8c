import BanglaScript.Position
import BanglaScript.Text.Lines

/-!
# Located reports

A diagnostic is a cause together with what is known about it: its place, the
file and the source line of that place, and the chain of things that were
being read when it arose, innermost first.

Attaching a source acts only on a diagnostic that has a place, since the file
and the line are those of the place.
-/

namespace BanglaScript

/-- A reason for failure has a wording. -/
class Cause (Reason : Type) where
  message : Reason → String

/-- A source text and the file it came from, if any. -/
structure Source where
  file : Option String := none
  text : String

namespace Source

/-- A line by its number, counted from one. -/
def line? (source : Source) (number : Nat) : Option String :=
  match number with
  | 0 => none
  | index + 1 => (Text.lines source.text)[index]?

end Source

/-- A cause with its place and surroundings. -/
structure Diagnostic (Reason : Type) where
  cause : Reason
  position : Option Position := none
  file : Option String := none
  snippet : Option String := none
  contexts : List String := []
deriving DecidableEq

namespace Diagnostic

variable {Reason : Type}

/-- The diagnostic moved to a place. -/
def located (diagnostic : Diagnostic Reason) (position : Position) : Diagnostic Reason :=
  { diagnostic with position := some position }

/-- The diagnostic with one more surrounding context. -/
def within (diagnostic : Diagnostic Reason) (context : String) : Diagnostic Reason :=
  { diagnostic with contexts := diagnostic.contexts ++ [context] }

/-- The diagnostic with the file and the source line of its place. -/
def attach (diagnostic : Diagnostic Reason) (source : Source) : Diagnostic Reason :=
  match diagnostic.position with
  | none => diagnostic
  | some position =>
    { diagnostic with
      file := source.file
      snippet := source.line? position.line }

/-- The lines that name the contexts. -/
def contextText (diagnostic : Diagnostic Reason) : String :=
  String.join (diagnostic.contexts.map fun context => "\nwhile " ++ context)

/-- The row that names the file and the place. -/
def placeRow (diagnostic : Diagnostic Reason) (position : Position) : String :=
  let file := diagnostic.file.getD "<unknown source>"
  s!"\n   --> {file}:{position.line}:{position.column}"

/-- The source line with its number, and a caret under the column. -/
def snippetRows (position : Position) (snippet : String) : String :=
  "\n    |\n" ++ Text.alignRight 3 (toString position.line) ++ " | " ++ snippet ++
    "\n    | " ++ Text.alignRight position.column "^"

/-- The full report. -/
def render [Cause Reason] (diagnostic : Diagnostic Reason) : String :=
  let message := Cause.message diagnostic.cause
  match diagnostic.position with
  | none => message ++ "(no location info)" ++ diagnostic.contextText
  | some position =>
    let head := message ++ diagnostic.placeRow position
    match diagnostic.snippet with
    | none => head ++ diagnostic.contextText
    | some snippet => head ++ snippetRows position snippet ++ diagnostic.contextText

end Diagnostic

end BanglaScript
