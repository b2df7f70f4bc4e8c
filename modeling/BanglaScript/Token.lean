import BanglaScript.Number.Layout
import BanglaScript.Position
import BanglaScript.Text.Escaped
import BanglaScript.Text.Lines

/-!
# Tokens

A token is a classified piece of source text.  Its kind decides what the
grammar makes of it; its value is the number, the string contents or the word
it stands for.  Each kind has a label, used in token lists, and a description,
used in reports.
-/

namespace BanglaScript

/-- The reserved words of the language. -/
inductive Keyword where
  | dhore
  | jode
  | onnathay
  | jotokkhon
  | function
  | ferot
  | dekhao
deriving DecidableEq

namespace Keyword

/-- Every keyword once. -/
def all : List Keyword := [dhore, jode, onnathay, jotokkhon, function, ferot, dekhao]

/-- The reserved word itself. -/
def spelling : Keyword → String
  | dhore => "dhore"
  | jode => "jode"
  | onnathay => "onnathay"
  | jotokkhon => "jotokkhon"
  | function => "function"
  | ferot => "ferot"
  | dekhao => "dekhao"

/-- What the keyword introduces. -/
def label : Keyword → String
  | dhore => "Let"
  | jode => "If"
  | onnathay => "Else"
  | jotokkhon => "While"
  | function => "Function"
  | ferot => "Return"
  | dekhao => "Print"

/-- The keyword of a word, if it is reserved. -/
def ofSpelling? (word : String) : Option Keyword :=
  all.find? fun keyword => keyword.spelling = word

end Keyword

/-- The operator signs of the language. -/
inductive Sign where
  | plus
  | minus
  | star
  | slash
  | assign
  | equal
  | notEqual
  | less
  | greater
  | lessEqual
  | greaterEqual
deriving DecidableEq

namespace Sign

/-- Every operator sign once. -/
def all : List Sign :=
  [plus, minus, star, slash, assign, equal, notEqual, less, greater, lessEqual, greaterEqual]

/-- The sign as it is written. -/
def spelling : Sign → String
  | plus => "+"
  | minus => "-"
  | star => "*"
  | slash => "/"
  | assign => "="
  | equal => "=="
  | notEqual => "!="
  | less => "<"
  | greater => ">"
  | lessEqual => "<="
  | greaterEqual => ">="

/-- The name of the sign in token lists. -/
def label : Sign → String
  | plus => "Plus"
  | minus => "Minus"
  | star => "Star"
  | slash => "Slash"
  | assign => "Equals"
  | equal => "DoubleEquals"
  | notEqual => "NotEquals"
  | less => "AngleLeft"
  | greater => "AngleRight"
  | lessEqual => "AngleLeftEquals"
  | greaterEqual => "AngleRightEquals"

end Sign

/-- What the grammar sees of a token. -/
inductive TokenKind where
  | openBrace
  | closeBrace
  | openParen
  | closeParen
  | number
  | string
  | identifier
  | semicolon
  | comma
  | keyword (keyword : Keyword)
  | sign (sign : Sign)
  | endOfInput
deriving DecidableEq

namespace TokenKind

/-- Every token kind once: the plain kinds, the keywords and the signs. -/
def all : List TokenKind :=
  [openBrace, closeBrace, openParen, closeParen, number, string, identifier, semicolon, comma,
    endOfInput] ++ Keyword.all.map keyword ++ Sign.all.map sign

/-- The name of the kind in token lists. -/
def label : TokenKind → String
  | openBrace => "OpenBrace"
  | closeBrace => "CloseBrace"
  | openParen => "OpenParen"
  | closeParen => "CloseParen"
  | number => "Number"
  | string => "String"
  | identifier => "Identifier"
  | semicolon => "Semicolon"
  | comma => "Comma"
  | keyword word => "Keyword(" ++ word.label ++ ")"
  | sign mark => "Operator(" ++ mark.label ++ ")"
  | endOfInput => "Eof"

/-- The wording of the kind in reports. -/
def describe : TokenKind → String
  | openBrace => "opening brace '\x7b'"
  | closeBrace => "closing brace '\x7d'"
  | openParen => "opening parentheses '('"
  | closeParen => "closing parentheses ')'"
  | number => "number"
  | string => "string"
  | identifier => "identifier"
  | semicolon => "semicolon ';'"
  | comma => "comma ','"
  | keyword word => "keyword `" ++ word.spelling ++ "`"
  | sign mark => "operator `" ++ mark.spelling ++ "`"
  | endOfInput => "end of input"

end TokenKind

/-- What a token stands for. -/
inductive TokenValue where
  /-- The value of a number. -/
  | number (value : Number)
  /-- The characters between the quotes of a string. -/
  | contents (text : String)
  /-- The spelling of an identifier or a keyword. -/
  | word (spelling : String)
deriving DecidableEq

/-- A classified piece of source text and its place. -/
structure Token where
  kind : TokenKind
  value : Option TokenValue := none
  text : String := ""
  span : Span := ⟨0, 0⟩
  position : Position := Position.start
deriving DecidableEq

namespace Token

/-- A token as one entry of a token list. -/
def render (token : Token) : String :=
  match token.value with
  | some (.number value) => token.kind.label ++ "(" ++ value.plainText ++ ")"
  | some (.contents text) => token.kind.label ++ "(" ++ Text.escaped text ++ ")"
  | some (.word spelling) => token.kind.label ++ "(" ++ spelling ++ ")"
  | none => token.kind.label

end Token

/-- One token a line. -/
def Token.listing (tokens : List Token) : String :=
  Text.join "\n" (tokens.map Token.render)

end BanglaScript
