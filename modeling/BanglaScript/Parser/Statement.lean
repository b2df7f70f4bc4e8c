import BanglaScript.Parser.Expression

/-!
# Parsing statements and programs

Statements are told apart by their first token; an assignment is told from an
expression by the assignment sign behind a name.
-/

namespace BanglaScript.Parser

/-- Statements in braces, each read by `nested`. -/
def blockWith (nested : Parser Statement) : Parser (List Statement) :=
  within "parsing statement block" do
    consume .openBrace
    let body ← phrasesUntil (fun kind => kind = .closeBrace ∨ kind = .endOfInput) nested
    consume .closeBrace
    pure body

/-- A condition in parentheses. -/
def condition : Parser Expr :=
  within "parsing condition" do
    consume .openParen
    let value ← expression
    consume .closeParen
    pure value

/-- The declaration of a variable, with or without an initial value. -/
def declaration : Parser Statement :=
  within "parsing variable declaration" do
    keyword .dhore
    let name ← identifier
    if (← look Input.kind) = .sign .assign then
      accept
      let initial ← expression
      consume .semicolon
      pure (.declaration name (some initial))
    else
      consume .semicolon
      pure (.declaration name none)

/-- A conditional statement, with or without an alternative. -/
def conditionalWith (nested : Parser Statement) : Parser Statement :=
  within "parsing if statement" do
    keyword .jode
    let test ← condition
    let body ← blockWith nested
    if (← look Input.kind) = .keyword .onnathay then
      accept
      let alternative ← blockWith nested
      pure (.ifElse test body alternative)
    else
      pure (.ifThen test body)

/-- The declaration of a function. -/
def functionWith (nested : Parser Statement) : Parser Statement :=
  within "parsing function" do
    keyword .function
    let name ← identifier
    consume .openParen
    let parameters ← within "parsing parameter list" (separatedByCommas identifier)
    consume .closeParen
    let body ← blockWith nested
    pure (.function name parameters body)

/-- An expression that stands as a statement. -/
def expressionStatement : Parser Statement := do
  let value ← expression
  consume .semicolon
  pure (.expression value)

/-- A loop, of which the keyword has been seen. -/
def loopWith (nested : Parser Statement) : Parser Statement := do
  accept
  let test ← condition
  let body ← blockWith nested
  pure (.repeatWhile test body)

/-- The end of a function, of which the keyword has been seen. -/
def returning : Parser Statement := do
  accept
  if (← look Input.kind) = .semicolon then
    consume .semicolon
    pure (.giveBack none)
  else
    let value ← expression
    consume .semicolon
    pure (.giveBack (some value))

/-- A print statement, of which the keyword has been seen. -/
def printing : Parser Statement := do
  accept
  consume .openParen
  let value ← expression
  consume .closeParen
  consume .semicolon
  pure (.print value)

/-- An assignment, of which the name and the sign have been seen. -/
def assigning : Parser Statement := do
  let name ← identifier
  accept
  let value ← expression
  consume .semicolon
  pure (.assignment name value)

/-- The statement that starts with a token of a kind.  Its nested statements are
read by `nested`. -/
def statementFrom (nested : Parser Statement) : TokenKind → Parser Statement
  | .keyword .dhore => declaration
  | .keyword .jode => conditionalWith nested
  | .keyword .jotokkhon => loopWith nested
  | .keyword .function => functionWith nested
  | .keyword .ferot => returning
  | .keyword .dekhao => printing
  | .identifier => do
    if (← look Input.secondKind) = .sign .assign then assigning else expressionStatement
  | .openBrace => do pure (.block (← blockWith nested))
  | _ => expressionStatement

/-- One statement, told from others by its first token. -/
def statementWith (nested : Parser Statement) : Parser Statement :=
  within "parsing statement" do statementFrom nested (← look Input.kind)

/-- One statement with fewer levels of nesting than the bound. -/
def statementAt : Nat → Parser Statement
  | 0 => exhausted
  | bound + 1 => statementWith (statementAt bound)

/-- One statement. -/
def statement : Parser Statement := do statementAt (← rounds)

/-- Statements in braces. -/
def block : Parser (List Statement) := blockWith statement

/-- The declaration of a function. -/
def function : Parser Statement := functionWith statement

/-- Statements up to the end of input. -/
def program : Parser Program := do
  let body ← phrasesUntil (fun kind => kind = .endOfInput) statement
  pure ⟨body⟩

end BanglaScript.Parser

namespace BanglaScript

/-- The program that a token list spells. -/
def parse (tokens : List Token) : Except SyntaxError Program :=
  match Parser.program (Parser.Input.ofTokens tokens) with
  | .ok program _ => .ok program
  | .error error _ => .error error

end BanglaScript
