import BanglaScript.Proofs.Parser.Unbounded
import BanglaScript.Token.Lexeme

/-!
# What parsers do with lexemes

A parser leads through lexemes to another parser if its run on tokens with
these lexemes is the run of the other parser on what comes behind them; what
follows may have to be a token of a certain sort.  A parser reads lexemes as a
value if it leads through them to the parser that gives this value.

Where the tokens stand does not matter.
-/

namespace BanglaScript

/-- The token without its place. -/
def Token.lexeme (token : Token) : Lexeme := ⟨token.kind, token.value, token.text.toList⟩

/-- The kind of the first lexeme, or of what follows if there is none. -/
def Lexeme.firstKind (spelled : List Lexeme) (following : TokenKind) : TokenKind :=
  match spelled with
  | [] => following
  | lexeme :: _ => lexeme.kind

@[simp]
theorem Lexeme.firstKind_nil (following : TokenKind) : firstKind [] following = following :=
  rfl

@[simp]
theorem Lexeme.firstKind_cons (lexeme : Lexeme) (spelled : List Lexeme) (following : TokenKind) :
    firstKind (lexeme :: spelled) following = lexeme.kind :=
  rfl

theorem Lexeme.firstKind_append (first second : List Lexeme) (following : TokenKind) :
    firstKind (first ++ second) following = firstKind first (firstKind second following) := by
  cases first <;> rfl

namespace Parser

variable {α β : Type}

/-- The input with tokens in front of it. -/
def Input.behind (input : Input) (tokens : List Token) : Input :=
  ⟨tokens ++ input.rest, input.endPosition⟩

theorem Input.behind_append (input : Input) (first second : List Token) :
    input.behind (first ++ second) = (input.behind second).behind first := by
  simp [behind]

theorem Input.kind_behind (input : Input) (tokens : List Token) :
    (input.behind tokens).kind = Lexeme.firstKind (tokens.map Token.lexeme) input.kind := by
  cases tokens <;> rfl

/-- On tokens with these lexemes the parser runs like the other one behind them,
if a token of the sort follows. -/
def Leads (parser : Parser α) (spelled : List Lexeme) (next : Parser α)
    (follows : TokenKind → Prop) : Prop :=
  ∀ ⦃tokens : List Token⦄ ⦃input : Input⦄, tokens.map Token.lexeme = spelled →
    follows input.kind → parser (input.behind tokens) = next input

/-- The parser takes exactly these lexemes and gives the value, if a token of the
sort follows. -/
abbrev Reads (parser : Parser α) (spelled : List Lexeme) (result : α)
    (follows : TokenKind → Prop) : Prop :=
  Leads parser spelled (pure result) follows

/-- Anything may follow. -/
def anything (_ : TokenKind) : Prop := True

variable {parser next last : Parser α} {spelled more : List Lexeme}
  {follows further : TokenKind → Prop} {lexeme : Lexeme}

namespace Leads

variable {continuation : TokenKind → Parser α}

theorem nil : Leads parser [] parser follows := by
  intro tokens input spells _
  rw [List.map_eq_nil_iff.mp spells]
  rfl

section

variable (leads : Leads parser spelled next follows)

include leads

theorem mono (stronger : ∀ kind, further kind → follows kind) : Leads parser spelled next further :=
  fun _ _ spells allowed => leads spells (stronger _ allowed)

theorem trans (continues : Leads next more last further)
    (fits : ∀ kind, further kind → follows (Lexeme.firstKind more kind)) :
    Leads parser (spelled ++ more) last further := by
  intro tokens input spells allowed
  obtain ⟨_, _, rfl, firstSpells, secondSpells⟩ := List.map_eq_append_iff.mp spells
  rw [Input.behind_append, leads firstSpells, continues secondSpells allowed]
  rw [Input.kind_behind, secondSpells]
  exact fits _ allowed

theorem bind (continuation : α → Parser β) :
    Leads (parser >>= continuation) spelled (next >>= continuation) follows :=
  fun _ _ spells allowed => by
    change EStateM.bind parser continuation _ = EStateM.bind next continuation _
    rw [EStateM.bind, EStateM.bind, leads spells allowed]

theorem within (context : String) :
    Leads (within context parser) spelled (within context next) follows :=
  fun _ _ spells allowed => by rw [Parser.within, Parser.within, leads spells allowed]

end

/-- The next kind is that of the first lexeme, or of what follows. -/
theorem lookAt
    (decided : ∀ kind, follows kind → continuation (Lexeme.firstKind spelled kind) = parser)
    (leads : Leads parser spelled next follows) :
    Leads (Parser.look Input.kind >>= continuation) spelled next follows := by
  intro tokens input spells allowed
  rw [bind_look, Input.kind_behind, spells, decided _ allowed]
  exact leads spells allowed

theorem look {continuation : TokenKind → Parser α}
    (leads : Leads (continuation lexeme.kind) (lexeme :: spelled) next follows) :
    Leads (Parser.look Input.kind >>= continuation) (lexeme :: spelled) next follows :=
  leads.lookAt fun _ _ => rfl

/-- Where no lexeme is left, what follows decides. -/
theorem lookBehind (decided : ∀ kind, follows kind → continuation kind = next) :
    Leads (Parser.look Input.kind >>= continuation) [] next follows :=
  nil.lookAt decided

end Leads

namespace Reads

variable {first : Parser β} {result : β}

/-- One parser behind another. -/
theorem bind {first : Parser β} {continuation : β → Parser α} {result : β}
    (reads : Reads first spelled result follows)
    (leads : Leads (continuation result) more next further)
    (fits : ∀ kind, further kind → follows (Lexeme.firstKind more kind)) :
    Leads (first >>= continuation) (spelled ++ more) next further :=
  (Leads.bind reads continuation).trans leads fits

/-- A parser behind one that takes a single lexeme. -/
theorem step {continuation : β → Parser α} (reads : Reads first [lexeme] result anything)
    (leads : Leads (continuation result) spelled next follows) :
    Leads (first >>= continuation) (lexeme :: spelled) next follows :=
  reads.bind leads fun _ _ => trivial

theorem map {change : β → α} (reads : Reads first spelled result follows) :
    Reads (first >>= fun value => Pure.pure (change value)) spelled (change result) follows :=
  Leads.bind reads _

theorem within {result : α} (reads : Reads parser spelled result follows) (context : String) :
    Reads (within context parser) spelled result follows :=
  Leads.within reads context

theorem pure (result : α) : Reads (Pure.pure result) [] result follows := Leads.nil

theorem single {result : α}
    (run : ∀ (token : Token) (rest : List Token) (endPosition : Position),
      token.lexeme = lexeme →
        parser ⟨token :: rest, endPosition⟩ = .ok result ⟨rest, endPosition⟩) :
    Reads parser [lexeme] result anything := by
  intro tokens input spells _
  obtain ⟨token, rfl, same⟩ := List.map_eq_singleton_iff.mp spells
  exact run token input.rest input.endPosition same

theorem accept : Reads accept [lexeme] () anything := single fun _ _ _ _ => rfl

theorem consume (lexeme : Lexeme) (proper : lexeme.kind ≠ .endOfInput) :
    Reads (consume lexeme.kind) [lexeme] () anything :=
  single fun _ rest endPosition same =>
    consume_of_kind (congrArg Lexeme.kind same) proper rest endPosition

end Reads

end Parser

end BanglaScript
