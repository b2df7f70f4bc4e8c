import BanglaScript.Diagnostic
import BanglaScript.Token

/-!
# Parsing token lists

A parser consumes tokens from the head of an input and gives a value or a
syntax error; in either case it says what input remains, so that a caller can
go on after a failure.

Past its last token an input behaves as if it ended with an end-of-input token
at the place of the last one.

Loops and nested phrases carry a bound that is counted from the remaining
tokens.  Every round of a loop and every nested phrase takes a token first, so
the bound is never used up; `exhausted` is what would happen otherwise.
-/

namespace BanglaScript

/-- What a parser was looking for. -/
inductive Wanted where
  | kind (kind : TokenKind)
  | description (text : String)
deriving DecidableEq

namespace Wanted

/-- The wording of what was wanted. -/
def describe : Wanted → String
  | kind expected => expected.describe
  | description text => text

end Wanted

/-- Why a token list is no program. -/
inductive SyntaxFault where
  /-- A token that cannot stand here. -/
  | expected (wanted : Wanted) (found : TokenKind)
  /-- The input ends although more is needed. -/
  | unexpectedEnd (wanted : Option Wanted)
deriving DecidableEq

instance : Cause SyntaxFault where
  message
    | .expected wanted found =>
      "expected " ++ wanted.describe ++ ", but found instead " ++ found.describe
    | .unexpectedEnd none => "unexpected end of input"
    | .unexpectedEnd (some wanted) => "unexpected end of input, expected " ++ wanted.describe

/-- A syntax fault at its place, with the phrases that surround it. -/
abbrev SyntaxError := Diagnostic SyntaxFault

namespace Parser

/-- The tokens not yet consumed, and the place reported when none is left. -/
structure Input where
  rest : List Token
  endPosition : Position
deriving DecidableEq

namespace Input

/-- The input of a token list. -/
def ofTokens (tokens : List Token) : Input :=
  ⟨tokens, (tokens.getLast?.map Token.position).getD Position.start⟩

/-- The kind of the next token. -/
def kind (input : Input) : TokenKind :=
  match input.rest with
  | [] => .endOfInput
  | token :: _ => token.kind

/-- The kind of the token behind the next one. -/
def secondKind (input : Input) : TokenKind :=
  match input.rest with
  | _ :: token :: _ => token.kind
  | _ => .endOfInput

/-- The place of the next token. -/
def position (input : Input) : Position :=
  match input.rest with
  | [] => input.endPosition
  | token :: _ => token.position

/-- The source text of the next token. -/
def text (input : Input) : String :=
  match input.rest with
  | [] => ""
  | token :: _ => token.text

/-- The value of the next token. -/
def value (input : Input) : Option TokenValue :=
  match input.rest with
  | [] => none
  | token :: _ => token.value

/-- The input without its next token. -/
def advance (input : Input) : Input := { input with rest := input.rest.tail }

end Input

end Parser

/-- A computation that consumes tokens.  A failure keeps the input that was
left when it arose. -/
abbrev Parser (α : Type) := EStateM SyntaxError Parser.Input α

namespace Parser

variable {α : Type}

/-- A view of the input that consumes nothing. -/
def look (view : Input → α) : Parser α := fun input => .ok (view input) input

/-- Consume the next token, whatever it is. -/
def accept : Parser Unit := fun input => .ok () input.advance

/-- Fail at the place of the next token. -/
def fail (fault : SyntaxFault) : Parser α := fun input =>
  .error ({ cause := fault : SyntaxError }.located input.position) input

/-- The end of a bound that is never reached. -/
def exhausted : Parser α := fail (.unexpectedEnd none)

/-- Name the phrase that surrounds a failure. -/
def within (context : String) (parser : Parser α) : Parser α := fun input =>
  match parser input with
  | .ok result rest => .ok result rest
  | .error error rest => .error (error.within context) rest

/-- The kind of the next token, which must not be the end of input. -/
def expectAny (wanted : Option Wanted) : Parser TokenKind := do
  let kind ← look Input.kind
  if kind = .endOfInput then fail (.unexpectedEnd wanted) else pure kind

/-- The next token must be of the given kind; it is not consumed. -/
def expect (kind : TokenKind) : Parser Unit := do
  let found ← expectAny (some (.kind kind))
  if found = kind then pure () else fail (.expected (.kind kind) found)

/-- Consume a token of the given kind. -/
def consume (kind : TokenKind) : Parser Unit := do
  expect kind
  accept

/-- Consume a keyword. -/
def keyword (keyword : Keyword) : Parser Unit :=
  within "parsing keyword" (consume (.keyword keyword))

/-- A number of rounds that no loop over the remaining tokens exceeds. -/
def rounds : Parser Nat := look fun input => input.rest.length + 1

/-- Phrases until the next token is of a given sort, in a bounded number of rounds. -/
def repeatUntil (stop : TokenKind → Bool) (phrase : Parser α) : Nat → Parser (List α)
  | 0 => exhausted
  | bound + 1 => do
    if stop (← look Input.kind) then
      pure []
    else
      let first ← phrase
      let others ← repeatUntil stop phrase bound
      pure (first :: others)

/-- Further phrases behind commas, in a bounded number of rounds. -/
def afterCommas (phrase : Parser α) : Nat → Parser (List α)
  | 0 => exhausted
  | bound + 1 => do
    if (← look Input.kind) = .comma then
      accept
      let first ← phrase
      let others ← afterCommas phrase bound
      pure (first :: others)
    else
      pure []

/-- Phrases one after the other until the next token is of a given sort. -/
def phrasesUntil (stop : TokenKind → Bool) (phrase : Parser α) : Parser (List α) := do
  repeatUntil stop phrase (← rounds)

/-- Further phrases, each behind a comma. -/
def phrasesAfterCommas (phrase : Parser α) : Parser (List α) := do
  afterCommas phrase (← rounds)

/-- Phrases separated by commas, up to a closing parenthesis that is left for
the caller.  There may be none. -/
def separatedByCommas (phrase : Parser α) : Parser (List α) := do
  if (← look Input.kind) = .closeParen then
    pure []
  else
    let first ← phrase
    let others ← phrasesAfterCommas phrase
    pure (first :: others)

/-- A name. -/
def identifier : Parser String :=
  within "parsing identifier" do
    expect .identifier
    let name ← look Input.text
    accept
    pure name

end Parser

end BanglaScript
