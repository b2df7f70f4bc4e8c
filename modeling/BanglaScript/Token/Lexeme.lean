import BanglaScript.Diagnostic
import BanglaScript.Token

/-!
# Lexemes

A lexeme is a token without its place: the characters at the head of a text
that form a token, with their kind and value.  `Lexeme.read` takes the longest
lexeme at the head of a text that does not start with a blank.

Numbers are runs of digits whose value is a finite double.  Strings have no
escapes, and one without a closing quote runs to the end of the text.
-/

namespace BanglaScript

/-- Why no lexeme could be read. -/
inductive LexicalFault where
  /-- No token starts with the character. -/
  | unexpectedCharacter (character : Char)
  /-- The digits denote no finite double. -/
  | invalidNumber (digits : String)
deriving DecidableEq

instance : Cause LexicalFault where
  message
    | .unexpectedCharacter character =>
      "unexpected character " ++ Text.escapedCharacter character
    | .invalidNumber digits => "invalid number literal " ++ Text.escaped digits

/-- Characters between tokens. -/
def isBlank (character : Char) : Bool :=
  character = ' ' ∨ character = '\t' ∨ character = '\n' ∨ character = '\r'

/-- One of the ten decimal digits. -/
def isDigit (character : Char) : Bool := '0' ≤ character ∧ character ≤ '9'

/-- Letters of the Latin alphabet, the underscore and the Bengali block. -/
def isWordStart (character : Char) : Bool :=
  ('a' ≤ character ∧ character ≤ 'z') ∨ ('A' ≤ character ∧ character ≤ 'Z') ∨
    character = '_' ∨ ('ঀ' ≤ character ∧ character ≤ '৿')

/-- Characters that continue a word. -/
def isWordPart (character : Char) : Bool := isWordStart character ∨ isDigit character

/-- The number that a run of digits denotes. -/
def digitsValue (digits : List Char) : Nat :=
  digits.foldl (fun value digit => 10 * value + (digit.toNat - '0'.toNat)) 0

/-- The characters of a token with their kind and value. -/
structure Lexeme where
  kind : TokenKind
  value : Option TokenValue
  characters : List Char
deriving DecidableEq

namespace Lexeme

/-- The kind of a character that is a token by itself. -/
def delimiter? : Char → Option TokenKind
  | '(' => some .openParen
  | ')' => some .closeParen
  | '\x7b' => some .openBrace
  | '\x7d' => some .closeBrace
  | ';' => some .semicolon
  | ',' => some .comma
  | _ => none

/-- The operator sign at the head of a text, the longer one where two fit.  An
exclamation mark is a sign only together with an equals sign. -/
def sign? (first : Char) (rest : List Char) : Option Sign :=
  let equalsFollows := rest.head? = some '='
  match first with
  | '<' => some (if equalsFollows then .lessEqual else .less)
  | '>' => some (if equalsFollows then .greaterEqual else .greater)
  | '=' => some (if equalsFollows then .equal else .assign)
  | '!' => if equalsFollows then some .notEqual else none
  | '+' => some .plus
  | '-' => some .minus
  | '*' => some .star
  | '/' => some .slash
  | _ => none

/-- The number at the head of a text that starts with a digit. -/
def readNumber (first : Char) (rest : List Char) : Except LexicalFault Lexeme :=
  let digits := first :: rest.takeWhile isDigit
  let value := Number.ofNat (digitsValue digits)
  if value.isFinite then
    .ok ⟨.number, some (.number value), digits⟩
  else
    .error (.invalidNumber (String.ofList digits))

/-- The string whose opening quote stands before the text. -/
def readString (rest : List Char) : Lexeme :=
  let contents := rest.takeWhile (· ≠ '"')
  let closing := (rest.drop contents.length).take 1
  ⟨.string, some (.contents (String.ofList contents)), '"' :: contents ++ closing⟩

/-- The word at the head of a text: a keyword if it is reserved, otherwise an
identifier. -/
def readWord (first : Char) (rest : List Char) : Lexeme :=
  let characters := first :: rest.takeWhile isWordPart
  let spelling := String.ofList characters
  let kind :=
    match Keyword.ofSpelling? spelling with
    | some keyword => .keyword keyword
    | none => .identifier
  ⟨kind, some (.word spelling), characters⟩

/-- The lexeme at the head of the text `first :: rest`. -/
def read (first : Char) (rest : List Char) : Except LexicalFault Lexeme :=
  match delimiter? first with
  | some kind => .ok ⟨kind, none, [first]⟩
  | none =>
    if isDigit first then readNumber first rest
    else if first = '"' then .ok (readString rest)
    else if isWordStart first then .ok (readWord first rest)
    else
      match sign? first rest with
      | some sign => .ok ⟨.sign sign, none, sign.spelling.toList⟩
      | none => .error (.unexpectedCharacter first)

end Lexeme

end BanglaScript
