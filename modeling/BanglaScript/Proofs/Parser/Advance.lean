import BanglaScript.Parser.Statement

/-!
# What parsers take from the input

A parser takes tokens from the head of its input and leaves what comes behind
them, whether it succeeds or fails.

The first part says what a run of a parser is, one equation for each way to
build one.  For primary expressions there is one equation for each kind of
first token.
-/

namespace BanglaScript

/-- A primary expression starts with a token of the kind. -/
def TokenKind.startsPrimary : TokenKind → Bool
  | .openParen | .number | .string | .identifier => true
  | _ => false

namespace Parser

variable {α β : Type} {parser : Parser α} {next : α → Parser β} {input rest : Input} {result : α}
  {error : SyntaxError} {context : String} {wanted : Option Wanted}

/-- What a run of a parser ends with. -/
abbrev Outcome (α : Type) := EStateM.Result SyntaxError Input α

/-- The input that a run leaves. -/
def leftBy (parser : Parser α) (input : Input) : Input :=
  match parser input with
  | .ok _ rest => rest
  | .error _ rest => rest

theorem leftBy_of_ok (success : parser input = .ok result rest) : leftBy parser input = rest := by
  rw [leftBy, success]

theorem leftBy_of_error (failure : parser input = .error error rest) :
    leftBy parser input = rest := by
  rw [leftBy, failure]

/-! ## Runs -/

theorem bind_of_ok (success : parser input = .ok result rest) :
    (parser >>= next) input = next result rest := by
  change EStateM.bind parser next input = next result rest
  rw [EStateM.bind, success]

theorem bind_of_error (failure : parser input = .error error rest) :
    (parser >>= next) input = .error error rest := by
  change EStateM.bind parser next input = .error error rest
  rw [EStateM.bind, failure]

/-- A success of two parsers in a row is a success of both. -/
theorem exists_of_bind_eq_ok {result : β} (success : (parser >>= next) input = .ok result rest) :
    ∃ first between, parser input = .ok first between ∧ next first between = .ok result rest := by
  cases ran : parser input with
  | ok first between => exact ⟨first, between, rfl, (bind_of_ok ran).symm.trans success⟩
  | error => cases (bind_of_error ran).symm.trans success

theorem within_of_ok (success : parser input = .ok result rest) :
    within context parser input = .ok result rest := by
  rw [within, success]

theorem within_of_error (failure : parser input = .error error rest) :
    within context parser input = .error (error.within context) rest := by
  rw [within, failure]

theorem within_eq_ok_iff :
    within context parser input = .ok result rest ↔ parser input = .ok result rest := by
  cases ran : parser input with
  | ok => rw [within_of_ok ran]
  | error => simp [within_of_error ran]

theorem bind_look {view : Input → α} : (look view >>= next) input = next (view input) input :=
  rfl

theorem bind_accept {next : Unit → Parser β} {token : Token} {rest : List Token}
    {endPosition : Position} :
    (accept >>= next) ⟨token :: rest, endPosition⟩ = next () ⟨rest, endPosition⟩ :=
  rfl

/-- The failure at the next token of an input. -/
def refusal (fault : SyntaxFault) (input : Input) : Outcome α :=
  .error ({ cause := fault : SyntaxError }.located input.position) input

/-- The fault of a token that is not what was wanted. -/
def faultAt (wanted : Wanted) (input : Input) : SyntaxFault :=
  if input.kind = .endOfInput then .unexpectedEnd (some wanted)
  else .expected wanted input.kind

theorem expectAny_of_end (ended : input.kind = .endOfInput) :
    expectAny wanted input = refusal (.unexpectedEnd wanted) input := by
  change (if input.kind = .endOfInput then fail (.unexpectedEnd wanted)
    else pure input.kind : Parser TokenKind) input = _
  rw [if_pos ended]
  rfl

theorem expectAny_of_proper (proper : input.kind ≠ .endOfInput) :
    expectAny wanted input = .ok input.kind input := by
  change (if input.kind = .endOfInput then fail (.unexpectedEnd wanted)
    else pure input.kind : Parser TokenKind) input = _
  rw [if_neg proper]
  rfl

variable {kind : TokenKind}

theorem expect_of_kind (found : input.kind = kind) (proper : kind ≠ .endOfInput) :
    expect kind input = .ok () input := by
  refine (bind_of_ok (expectAny_of_proper (found ▸ proper))).trans ?_
  rw [if_pos found]
  rfl

theorem expect_of_other (other : input.kind ≠ kind) :
    expect kind input = refusal (faultAt (.kind kind) input) input := by
  by_cases ended : input.kind = .endOfInput
  · rw [faultAt, if_pos ended]
    exact bind_of_error (expectAny_of_end ended)
  · rw [faultAt, if_neg ended]
    refine (bind_of_ok (expectAny_of_proper ended)).trans ?_
    rw [if_neg other]
    rfl

/-- A token of the kind is consumed. -/
theorem consume_of_kind {token : Token} (found : token.kind = kind) (proper : kind ≠ .endOfInput)
    (rest : List Token) (endPosition : Position) :
    consume kind ⟨token :: rest, endPosition⟩ = .ok () ⟨rest, endPosition⟩ :=
  have here : Input.kind ⟨token :: rest, endPosition⟩ = kind := found
  bind_of_ok (expect_of_kind here proper)

theorem consume_of_other (other : input.kind ≠ kind) :
    consume kind input = refusal (faultAt (.kind kind) input) input :=
  bind_of_error (expect_of_other other)

theorem identifier_of_kind {token : Token} (found : token.kind = .identifier) (rest : List Token)
    (endPosition : Position) :
    identifier ⟨token :: rest, endPosition⟩ = .ok token.text ⟨rest, endPosition⟩ := by
  obtain ⟨_, _, _, _, _⟩ := token
  cases found
  rfl

/-- The text of the next token is given, which is an identifier. -/
theorem exists_of_identifier_eq_ok {name : String} (success : identifier input = .ok name rest) :
    ∃ token : Token, token.kind = .identifier ∧ token.text = name ∧
      input = ⟨token :: rest.rest, rest.endPosition⟩ := by
  obtain ⟨tokens, endPosition⟩ := input
  by_cases found : Input.kind ⟨tokens, endPosition⟩ = .identifier
  · cases tokens with
    | nil => cases found
    | cons token =>
      rw [identifier_of_kind found] at success
      cases success
      exact ⟨token, found, rfl, rfl⟩
  · cases (within_of_error (bind_of_error (expect_of_other found))).symm.trans success

/-! ## Primary expressions by their first token -/

section Primary

variable {nested : Parser Expr} {token : Token} {rest : List Token} {endPosition : Position}

theorem primaryWith_of_openParen (found : token.kind = .openParen) :
    primaryWith nested ⟨token :: rest, endPosition⟩ =
      within "parsing primary expression" (do
        let inner ← nested
        within "as the end of the expression" (consume .closeParen)
        pure inner) ⟨rest, endPosition⟩ := by
  obtain ⟨_, _, _, _, _⟩ := token
  cases found
  rfl

theorem primaryWith_of_number (found : token.kind = .number) {number : Number}
    (value : token.value = some (.number number)) :
    primaryWith nested ⟨token :: rest, endPosition⟩ =
      .ok (.literal (.number number)) ⟨rest, endPosition⟩ := by
  obtain ⟨_, value, _, _, _⟩ := token
  cases found
  cases value
  rfl

/-- The contents of a string token. -/
def contentsOf (token : Token) : String :=
  match token.value with
  | some (.contents contents) => contents
  | _ => trimQuotes token.text

theorem primaryWith_of_string (found : token.kind = .string) :
    primaryWith nested ⟨token :: rest, endPosition⟩ =
      .ok (.literal (.string (contentsOf token))) ⟨rest, endPosition⟩ := by
  obtain ⟨_, _, _, _, _⟩ := token
  cases found
  rfl

theorem primaryWith_of_identifier (found : token.kind = .identifier) :
    primaryWith nested ⟨token :: rest, endPosition⟩ =
      within "parsing primary expression" (do
        if (← look Input.kind) = .openParen then callWith nested token.text
        else pure (.identifier token.text)) ⟨rest, endPosition⟩ := by
  obtain ⟨_, _, _, _, _⟩ := token
  cases found
  rfl

/-- A number has no value. -/
theorem primaryWith_of_no_number (found : token.kind = .number)
    (missing : ∀ number, token.value ≠ some (.number number)) :
    primaryWith nested ⟨token :: rest, endPosition⟩ =
      .error ({ cause := .expected (.description "number with a value") .number
                position := some token.position
                contexts := ["parsing primary expression"] } : SyntaxError)
        ⟨token :: rest, endPosition⟩ := by
  obtain ⟨_, value, _, _, _⟩ := token
  cases found
  match value with
  | some (.number number) => exact absurd rfl (missing number)
  | some (.contents _) => rfl
  | some (.word _) => rfl
  | none => rfl

end Primary

/-- The fault of a token that no primary expression starts with. -/
def primaryFault (kind : TokenKind) : SyntaxFault :=
  if kind = .endOfInput then .unexpectedEnd (some (.description "expression"))
  else .expected (.description "number, string, identifier or '('") kind

theorem primaryWith_of_other {nested : Parser Expr} (other : input.kind.startsPrimary = false) :
    primaryWith nested input =
      .error ({ cause := primaryFault input.kind
                position := some input.position
                contexts := ["parsing primary expression"] } : SyntaxError) input := by
  obtain ⟨tokens, _⟩ := input
  cases tokens with
  | nil => rfl
  | cons token =>
    obtain ⟨kind, _, _, _, _⟩ := token
    cases kind <;> first | rfl | cases other

/-! ## Tokens that are left -/

/-- The first input is what remains of the second behind some tokens. -/
structure Input.IsBehind (rest input : Input) : Prop where
  suffix : rest.rest <:+ input.rest
  endPosition : rest.endPosition = input.endPosition

namespace Input.IsBehind

variable {first second third : Input}

theorem refl (input : Input) : IsBehind input input := ⟨List.suffix_refl _, rfl⟩

theorem trans (here : IsBehind second first) (there : IsBehind third second) :
    IsBehind third first :=
  ⟨there.suffix.trans here.suffix, there.endPosition.trans here.endPosition⟩

theorem length_le (behind : IsBehind second first) : second.rest.length ≤ first.rest.length :=
  behind.suffix.length_le

end Input.IsBehind

/-- Every run leaves what is behind some of the tokens, and every success has taken at
least so many of them. -/
structure Takes (least : Nat) (parser : Parser α) : Prop where
  behind : ∀ input, (leftBy parser input).IsBehind input
  length : ∀ ⦃input rest : Input⦄ ⦃result : α⦄, parser input = .ok result rest →
    rest.rest.length + least ≤ input.rest.length

namespace Takes

variable {least more : Nat}

theorem of_ok (takes : Takes least parser) (success : parser input = .ok result rest) :
    rest.IsBehind input :=
  leftBy_of_ok success ▸ takes.behind input

theorem of_error (takes : Takes least parser) (failure : parser input = .error error rest) :
    rest.IsBehind input :=
  leftBy_of_error failure ▸ takes.behind input

theorem of_behind (behind : ∀ input, (leftBy parser input).IsBehind input) : Takes 0 parser :=
  ⟨behind, fun input _ _ success => (leftBy_of_ok success ▸ behind input).length_le⟩

theorem advances (takes : Takes least parser) : Takes 0 parser := of_behind takes.behind

theorem pure (result : α) : Takes 0 (Pure.pure result) := of_behind Input.IsBehind.refl

theorem fail (fault : SyntaxFault) : Takes least (Parser.fail fault : Parser α) :=
  ⟨Input.IsBehind.refl, fun _ _ _ success => by cases success⟩

theorem look (view : Input → α) : Takes 0 (Parser.look view) := of_behind Input.IsBehind.refl

theorem accept : Takes 0 Parser.accept :=
  of_behind fun input => ⟨List.tail_suffix input.rest, rfl⟩

section

variable (takes : Takes least parser) (continues : ∀ result, Takes more (next result))

include takes continues

theorem behind_bind (input : Input) : (leftBy (parser >>= next) input).IsBehind input := by
  cases ran : parser input with
  | ok result rest =>
    have run : (parser >>= next) input = next result rest := bind_of_ok ran
    rw [leftBy, run]
    exact (takes.of_ok ran).trans ((continues result).behind rest)
  | error =>
    rw [leftBy_of_error (bind_of_error ran)]
    exact takes.of_error ran

/-- Two parsers in a row take what the first one takes. -/
theorem bind : Takes least (parser >>= next) := by
  refine ⟨takes.behind_bind continues, fun input rest result success => ?_⟩
  obtain ⟨first, _, ran, continued⟩ := exists_of_bind_eq_ok success
  have shorter := ((continues first).of_ok continued).length_le
  exact Nat.le_trans (Nat.add_le_add_right shorter least) (takes.length ran)

/-- Two parsers in a row take what the second one takes. -/
theorem after : Takes more (parser >>= next) := by
  refine ⟨takes.behind_bind continues, fun input rest result success => ?_⟩
  obtain ⟨first, _, ran, continued⟩ := exists_of_bind_eq_ok success
  exact Nat.le_trans ((continues first).length continued) (takes.of_ok ran).length_le

end

theorem within (takes : Takes least parser) (context : String) :
    Takes least (Parser.within context parser) := by
  refine ⟨fun input => ?_, fun _ _ _ success => takes.length (within_eq_ok_iff.mp success)⟩
  cases ran : parser input with
  | ok =>
    rw [leftBy_of_ok (within_of_ok ran)]
    exact takes.of_ok ran
  | error =>
    rw [leftBy_of_error (within_of_error ran)]
    exact takes.of_error ran

/-! ### Tokens -/

theorem expectAny (wanted : Option Wanted) : Takes 0 (Parser.expectAny wanted) :=
  (look _).after fun _ => by split <;> first | exact fail _ | exact pure _

theorem expect (kind : TokenKind) : Takes 0 (Parser.expect kind) :=
  (expectAny _).after fun _ => by split <;> first | exact fail _ | exact pure _

theorem consume (kind : TokenKind) : Takes 1 (Parser.consume kind) := by
  refine ⟨((expect kind).bind fun _ => accept).behind, ?_⟩
  rintro ⟨tokens, endPosition⟩ rest result success
  by_cases ended : Input.kind ⟨tokens, endPosition⟩ = .endOfInput
  · cases (bind_of_error (bind_of_error (expectAny_of_end ended))).symm.trans success
  · by_cases found : Input.kind ⟨tokens, endPosition⟩ = kind
    · cases tokens with
      | nil => exact absurd rfl ended
      | cons =>
        rw [consume_of_kind found (found ▸ ended)] at success
        cases success
        exact Nat.le_refl _
    · rw [consume_of_other found] at success
      cases success

theorem keyword (word : Keyword) : Takes 1 (Parser.keyword word) := (consume _).within _

theorem identifier : Takes 1 Parser.identifier := by
  refine ⟨(((expect _).bind fun _ => (look _).bind fun _ => accept.bind fun _ =>
    pure _).within _).behind, fun input rest name success => ?_⟩
  obtain ⟨_, _, _, rfl⟩ := exists_of_identifier_eq_ok success
  exact Nat.le_refl _

end Takes

end Parser

end BanglaScript
