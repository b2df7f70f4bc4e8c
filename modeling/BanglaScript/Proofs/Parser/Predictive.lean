import BanglaScript.Proofs.Parser.Printed

/-!
# Predictive parsers

A parser is predictive on an input if what it does with the tokens it takes
depends on these and the next token only, if it never takes the end of the
input, and if it fails no earlier and no later than it has to.

If it succeeds, it does so before every input with the same next token, and
before every token that may follow it.  If it fails, it blames the next token,
it fails with the same error before every other input with this next token, and
what it took up to there can be completed.  All inputs that have ended count as
inputs with the same next token; only the place of the error may differ then.

The kinds of tokens that may follow a parser, and those with which it completes
what it has not started, are parameters: two predictive parsers in a row are
predictive if what the second starts with may follow the first.
-/

namespace BanglaScript.Parser

open Lexeme

variable {α β : Type}

/-! ## Inputs with the same next token -/

/-- The next tokens of two inputs are the same, or both inputs have ended. -/
def Input.SameHead (input other : Input) : Prop :=
  input.rest.head? = other.rest.head? ∨ input.kind = .endOfInput ∧ other.kind = .endOfInput

namespace Input.SameHead

variable {input other : Input}

theorem refl (input : Input) : SameHead input input := .inl rfl

theorem kind_eq (same : SameHead input other) : input.kind = other.kind := by
  rcases same with same | ⟨ended, otherEnded⟩
  · obtain ⟨rest, _⟩ := input
    obtain ⟨otherRest, _⟩ := other
    cases rest <;> cases otherRest <;> cases same <;> rfl
  · rw [ended, otherEnded]

theorem faultAt_eq (same : SameHead input other) (wanted : Wanted) :
    faultAt wanted input = faultAt wanted other := by
  rw [faultAt, faultAt, same.kind_eq]

end Input.SameHead

/-- None of the tokens is the end of the input. -/
def AreProper (tokens : List Token) : Prop := ∀ token ∈ tokens, token.kind ≠ .endOfInput

theorem AreProper.nil : AreProper [] := List.forall_mem_nil _

/-- The error is about the next token of the input and stands at its place. -/
structure Blames (error : SyntaxError) (input : Input) : Prop where
  position : error.position = some input.position
  cause : if input.kind = .endOfInput then ∃ wanted, error.cause = .unexpectedEnd wanted
    else ∃ wanted, error.cause = .expected wanted input.kind

theorem Blames.within {error : SyntaxError} {input : Input} (blames : Blames error input)
    (context : String) : Blames (error.within context) input :=
  ⟨blames.position, blames.cause⟩

/-- Behind the tokens, the parser fails at the next token of the input. -/
def FailsAt (parser : Parser α) (used : List Token) (failure : SyntaxError) (input : Input) :
    Prop :=
  parser (input.behind used) = .error (failure.located input.position) input ∧
    Blames (failure.located input.position) input

/-! ## Parsers that can be completed -/

/-- The parser succeeds on some lexemes, the first of which has a kind to start
with, if a token that may follow comes behind them. -/
def Productive (starts follows : TokenKind → Prop) (parser : Parser α) : Prop :=
  ∃ spelled result, Reads parser spelled result follows ∧
    ∀ kind, follows kind → starts (firstKind spelled kind)

namespace Productive

variable {starts follows begins ends : TokenKind → Prop} {parser other : Parser α}

theorem of_reads {spelled : List Lexeme} {result : α} (reads : Reads parser spelled result follows)
    (first : ∀ kind, follows kind → starts (firstKind spelled kind)) :
    Productive starts follows parser :=
  ⟨spelled, result, reads, first⟩

theorem pure (result : α) : Productive follows follows (pure result) :=
  of_reads (Reads.pure result) fun _ allowed => allowed

theorem bind {next : α → Parser β} (productive : Productive starts follows parser)
    (continues : ∀ result, Productive begins ends (next result))
    (fits : ∀ kind, begins kind → follows kind) : Productive starts ends (parser >>= next) := by
  obtain ⟨_, result, reads, first⟩ := productive
  obtain ⟨_, _, readsMore, firstMore⟩ := continues result
  refine of_reads (reads.bind readsMore fun kind allowed => fits _ (firstMore kind allowed))
    fun kind allowed => ?_
  rw [firstKind_append]
  exact first _ (fits _ (firstMore kind allowed))

theorem within (productive : Productive starts follows parser) (context : String) :
    Productive starts follows (within context parser) :=
  let ⟨_, _, reads, first⟩ := productive
  of_reads (reads.within context) first

theorem mono (productive : Productive starts follows parser)
    (weaker : ∀ kind, starts kind → begins kind) (stronger : ∀ kind, ends kind → follows kind) :
    Productive begins ends parser :=
  let ⟨_, _, reads, first⟩ := productive
  of_reads (Leads.mono reads stronger) fun _ allowed => weaker _ (first _ (stronger _ allowed))

/-- It is enough to agree on inputs with a kind to start with. -/
theorem congr (productive : Productive starts follows other)
    (agree : ∀ input : Input, starts input.kind → parser input = other input) :
    Productive starts follows parser := by
  obtain ⟨spelled, result, reads, first⟩ := productive
  have same : Reads parser spelled result follows := fun tokens input spells allowed => by
    rw [agree, reads spells allowed]
    rw [Input.kind_behind, spells]
    exact first _ allowed
  exact of_reads same first

end Productive

/-! ## Predictive runs -/

/-- The parser takes the tokens and succeeds, before every input with the same
next token and before every token that may follow. -/
structure Accepts (starts follows : TokenKind → Prop) (parser : Parser α) (used : List Token)
    (left : Input) (result : α) : Prop where
  succeeds : ∀ other : Input, other.SameHead left ∨ follows other.kind →
    parser (other.behind used) = .ok result other
  first : used = [] → ∀ kind, follows kind → starts kind

/-- The parser takes the tokens and fails, in the same way before every input with the
same next token, although other tokens complete what it took. -/
structure Rejects (starts follows : TokenKind → Prop) (parser : Parser α) (used : List Token)
    (left : Input) : Prop where
  fails : ∃ failure, ∀ other : Input, other.SameHead left → FailsAt parser used failure other
  completes : ∃ spelled result,
    Reads (fun input => parser (input.behind used)) spelled result follows ∧
      (used = [] → ∀ kind, follows kind → starts (firstKind spelled kind))

/-- The run of the parser on the input is predictive. -/
def Predicts (starts follows : TokenKind → Prop) (parser : Parser α) (input : Input) : Prop :=
  ∃ used left, input = left.behind used ∧ AreProper used ∧
    ((∃ result, Accepts starts follows parser used left result) ∨
      Rejects starts follows parser used left)

namespace Predicts

variable {starts follows begins ends : TokenKind → Prop} {parser next other : Parser α}
  {input left : Input}

theorem pure (result : α) : Predicts follows follows (pure result) input :=
  ⟨[], input, rfl, .nil, .inl ⟨result, fun _ _ => rfl, fun _ _ allowed => allowed⟩⟩

theorem mono (predicts : Predicts starts follows parser input)
    (weaker : ∀ kind, starts kind → begins kind) (stronger : ∀ kind, ends kind → follows kind) :
    Predicts begins ends parser input := by
  obtain ⟨used, left, rfl, proper, ⟨result, accepts⟩ | rejects⟩ := predicts
  · refine ⟨used, left, rfl, proper, .inl ⟨result, fun other allowed => ?_, fun none kind ended =>
      weaker _ (accepts.first none kind (stronger _ ended))⟩⟩
    exact accepts.succeeds other (allowed.imp_right (stronger _))
  · obtain ⟨spelled, result, reads, first⟩ := rejects.completes
    exact ⟨used, left, rfl, proper, .inr ⟨rejects.fails, spelled, result,
      Leads.mono reads stronger, fun none kind ended =>
        weaker _ (first none kind (stronger _ ended))⟩⟩

theorem within (predicts : Predicts starts follows parser input) (context : String) :
    Predicts starts follows (within context parser) input := by
  obtain ⟨used, left, rfl, proper, ⟨result, accepts⟩ | rejects⟩ := predicts
  · exact ⟨used, left, rfl, proper, .inl ⟨result, fun other allowed =>
      within_of_ok (accepts.succeeds other allowed), accepts.first⟩⟩
  · obtain ⟨spelled, result, reads, first⟩ := rejects.completes
    obtain ⟨failure, fails⟩ := rejects.fails
    refine ⟨used, left, rfl, proper, .inr ⟨⟨failure.within context, fun other same => ?_⟩, spelled,
      result, fun tokens other spells allowed => within_of_ok (reads spells allowed), first⟩⟩
    obtain ⟨failed, blames⟩ := fails other same
    exact ⟨within_of_error failed, blames.within context⟩

theorem length_le {result : α} (predicts : Predicts starts follows parser input)
    (success : parser input = .ok result left) : left.rest.length ≤ input.rest.length := by
  obtain ⟨_, place, rfl, _, ⟨_, accepts⟩ | rejects⟩ := predicts
  · cases (accepts.succeeds place (.inl (.refl _))).symm.trans success
    simp [Input.behind]
  · obtain ⟨_, fails⟩ := rejects.fails
    cases (fails place (.refl _)).1.symm.trans success

/-- What follows an accepting run may be what a second run took and what comes
behind it. -/
theorem succeeds_behind {first : Parser α} {used more : List Token} {result : α}
    (accepts : Accepts starts follows first used (left.behind more) result) {other : Input}
    (fits : more = [] → other.SameHead left ∨ follows other.kind) :
    first ((other.behind more).behind used) = .ok result (other.behind more) := by
  refine accepts.succeeds _ ?_
  cases more with
  | nil => exact fits rfl
  | cons => exact .inl (.inl rfl)

/-- Two parsers in a row, if what the second starts with may follow the first. -/
theorem bind {first : Parser α} {next : α → Parser β}
    (predicts : Predicts starts follows first input)
    (continues : ∀ result left, first input = .ok result left →
      Predicts begins ends (next result) left)
    (productive : ∀ result, Productive begins ends (next result))
    (fits : ∀ kind, begins kind → follows kind) :
    Predicts starts ends (first >>= next) input := by
  obtain ⟨used, left, rfl, proper, ⟨result, accepts⟩ | rejects⟩ := predicts
  · obtain ⟨more, left, rfl, moreProper, outcome⟩ :=
      continues result left (accepts.succeeds left (.inl (.refl _)))
    refine ⟨used ++ more, left, (Input.behind_append _ _ _).symm,
      List.forall_mem_append.mpr ⟨proper, moreProper⟩, ?_⟩
    rcases outcome with ⟨final, second⟩ | second
    · refine .inl ⟨final, fun other allowed => ?_, fun none kind ended => ?_⟩
      · rw [Input.behind_append, bind_of_ok (succeeds_behind accepts fun none =>
          allowed.imp_right fun ended => fits _ (second.first none _ ended))]
        exact second.succeeds other allowed
      · obtain ⟨noneUsed, noMore⟩ := List.append_eq_nil_iff.mp none
        exact accepts.first noneUsed _ (fits _ (second.first noMore _ ended))
    · obtain ⟨spelled, final, reads, firstKinds⟩ := second.completes
      obtain ⟨failure, fails⟩ := second.fails
      refine .inr ⟨⟨failure, fun other same => ?_⟩, spelled, final,
        fun tokens other spells allowed => ?_, fun none kind ended => ?_⟩
      · obtain ⟨failed, blames⟩ := fails other same
        refine ⟨?_, blames⟩
        rw [Input.behind_append, bind_of_ok (succeeds_behind accepts fun _ => .inl same)]
        exact failed
      · change (first >>= next) ((other.behind tokens).behind (used ++ more)) = _
        rw [Input.behind_append, bind_of_ok (succeeds_behind accepts fun none => .inr ?_)]
        · exact reads spells allowed
        · rw [Input.kind_behind, spells]
          exact fits _ (firstKinds none _ allowed)
      · obtain ⟨noneUsed, noMore⟩ := List.append_eq_nil_iff.mp none
        exact accepts.first noneUsed _ (fits _ (firstKinds noMore _ ended))
  · obtain ⟨spelled, result, reads, firstKinds⟩ := rejects.completes
    obtain ⟨more, final, readsMore, firstMore⟩ := productive result
    have fitting (kind : TokenKind) (allowed : ends kind) : follows (firstKind more kind) :=
      fits _ (firstMore kind allowed)
    obtain ⟨failure, fails⟩ := rejects.fails
    refine ⟨used, left, rfl, proper, .inr ⟨⟨failure, fun other same => ?_⟩, spelled ++ more, final,
      Reads.bind reads readsMore fitting, fun none kind ended => ?_⟩⟩
    · obtain ⟨failed, blames⟩ := fails other same
      exact ⟨bind_of_error failed, blames⟩
    · rw [firstKind_append]
      exact firstKinds none _ (fitting kind ended)

/-- It is enough to agree on inputs whose next token has the kind of the input's,
or one to start with. -/
theorem congr (predicts : Predicts starts follows other input)
    (agree : ∀ place : Input, place.kind = input.kind ∨ starts place.kind →
      parser place = other place) :
    Predicts starts follows parser input := by
  obtain ⟨used, left, rfl, proper, outcome⟩ := predicts
  have agreeBehind (place : Input)
      (fits : used = [] → place.kind = left.kind ∨ starts place.kind) :
      parser (place.behind used) = other (place.behind used) := by
    apply agree
    cases used with
    | nil => exact fits rfl
    | cons => exact .inl rfl
  refine ⟨used, left, rfl, proper, ?_⟩
  rcases outcome with ⟨result, accepts⟩ | rejects
  · refine .inl ⟨result, fun place allowed => ?_, accepts.first⟩
    rw [agreeBehind place fun none => allowed.imp Input.SameHead.kind_eq (accepts.first none _)]
    exact accepts.succeeds place allowed
  · obtain ⟨spelled, result, reads, first⟩ := rejects.completes
    obtain ⟨failure, fails⟩ := rejects.fails
    refine .inr ⟨⟨failure, fun place same => ?_⟩, spelled, result,
      fun tokens place spells allowed => ?_, first⟩
    · unfold FailsAt
      rw [agreeBehind place fun _ => .inl same.kind_eq]
      exact fails place same
    · refine (agreeBehind _ fun none => .inr ?_).trans (reads spells allowed)
      rw [Input.kind_behind, spells]
      exact first none _ allowed

/-- A parser that runs behind tokens like another one. -/
theorem after {tokens : List Token} (taken : tokens ≠ []) (proper : AreProper tokens)
    (predicts : Predicts begins follows next left)
    (agree : ∀ place : Input, place.kind = left.kind ∨ begins place.kind →
      parser (place.behind tokens) = next place) :
    Predicts starts follows parser (left.behind tokens) := by
  have agreed : Predicts begins follows (fun place => parser (place.behind tokens)) left :=
    predicts.congr agree
  obtain ⟨used, left, rfl, usedProper, outcome⟩ := agreed
  refine ⟨tokens ++ used, left, (Input.behind_append _ _ _).symm,
    List.forall_mem_append.mpr ⟨proper, usedProper⟩, ?_⟩
  have nonempty {claim : Prop} (none : tokens ++ used = []) : claim :=
    absurd (List.append_eq_nil_iff.mp none).1 taken
  rcases outcome with ⟨result, accepts⟩ | rejects
  · refine .inl ⟨result, fun place allowed => ?_, nonempty⟩
    rw [Input.behind_append]
    exact accepts.succeeds place allowed
  · obtain ⟨spelled, result, reads, _⟩ := rejects.completes
    obtain ⟨failure, fails⟩ := rejects.fails
    refine .inr ⟨⟨failure, fun place same => ?_⟩, spelled, result,
      fun tokens place spells allowed => ?_, nonempty⟩
    · unfold FailsAt
      rw [Input.behind_append]
      exact fails place same
    · change parser (Input.behind _ _) = _
      rw [Input.behind_append]
      exact reads spells allowed

/-- A parser that fails at the first token but can be completed. -/
theorem refuse (productive : Productive starts follows parser)
    (fails : ∃ failure, ∀ place : Input, place.SameHead input → FailsAt parser [] failure place) :
    Predicts starts follows parser input :=
  let ⟨spelled, result, reads, first⟩ := productive
  ⟨[], input, rfl, .nil, .inr ⟨fails, spelled, result, reads, fun _ => first⟩⟩

end Predicts

/-! ## Predictive parsers -/

/-- The parser can be completed from nothing, and its runs on inputs with fewer
tokens than the bound are predictive. -/
structure Predictive (bound : Nat) (starts follows : TokenKind → Prop) (parser : Parser α) :
    Prop where
  productive : Productive starts follows parser
  predicts : ∀ input : Input, input.rest.length < bound → Predicts starts follows parser input

namespace Predictive

variable {bound : Nat} {starts follows begins ends : TokenKind → Prop} {parser : Parser α}
  {next : α → Parser β}

theorem pure (result : α) : Predictive bound follows follows (pure result) :=
  ⟨.pure result, fun _ _ => .pure result⟩

theorem mono (predictive : Predictive bound starts follows parser)
    (weaker : ∀ kind, starts kind → begins kind) (stronger : ∀ kind, ends kind → follows kind) :
    Predictive bound begins ends parser :=
  ⟨predictive.productive.mono weaker stronger, fun input few =>
    (predictive.predicts input few).mono weaker stronger⟩

theorem weaken {smaller : Nat} (predictive : Predictive bound starts follows parser)
    (le : smaller ≤ bound) : Predictive smaller starts follows parser :=
  ⟨predictive.productive, fun input few => predictive.predicts input (Nat.lt_of_lt_of_le few le)⟩

theorem within (predictive : Predictive bound starts follows parser) (context : String) :
    Predictive bound starts follows (within context parser) :=
  ⟨predictive.productive.within context, fun input few =>
    (predictive.predicts input few).within context⟩

theorem bind (predictive : Predictive bound starts follows parser)
    (continues : ∀ result, Predictive bound begins ends (next result))
    (fits : ∀ kind, begins kind → follows kind) :
    Predictive bound starts ends (parser >>= next) where
  productive := predictive.productive.bind (fun result => (continues result).productive) fits
  predicts input few := by
    have predicts := predictive.predicts input few
    refine predicts.bind (fun result left success => ?_)
      (fun result => (continues result).productive) fits
    exact (continues result).predicts left (Nat.lt_of_le_of_lt (predicts.length_le success) few)

theorem map {change : α → β} (predictive : Predictive bound starts follows parser) :
    Predictive bound starts follows (parser >>= fun value => Pure.pure (change value)) :=
  predictive.bind (fun _ => pure _) fun _ allowed => allowed

/-- A parser that anything may follow. -/
theorem andThen (predictive : Predictive bound starts anything parser)
    (continues : ∀ result, Predictive bound begins ends (next result)) :
    Predictive bound starts ends (parser >>= next) :=
  predictive.bind continues fun _ _ => trivial

/-- What comes behind a parser that takes a token has one token less to work on. -/
theorem step (consumes : Takes 1 parser)
    (predictive : Predictive (bound + 1) starts follows parser)
    (continues : ∀ result, Predictive bound begins ends (next result))
    (fits : ∀ kind, begins kind → follows kind) :
    Predictive (bound + 1) starts ends (parser >>= next) where
  productive := predictive.productive.bind (fun result => (continues result).productive) fits
  predicts input few := by
    refine (predictive.predicts input few).bind (fun result left success => ?_)
      (fun result => (continues result).productive) fits
    exact (continues result).predicts left
      (Nat.lt_of_lt_of_le (consumes.length success) (Nat.le_of_lt_succ few))

end Predictive

end BanglaScript.Parser
