import BanglaScript.Proofs.Parser.Viable

/-!
# What comes behind the end of input

An end-of-input token ends an input, whatever tokens come behind it, and an input
without one ends behind its last token.  A predictive parser cannot tell the two
apart: what it does with the tokens it takes depends on these and the next token
only, it takes no end, and one end is like another.  So it gives the same result on
both, or it fails on both with the same error.  Only the place of an end that came
too early may differ.
-/

namespace BanglaScript

open BanglaScript.Parser

/-- The errors are the same, but for their places if the input has ended too early. -/
structure SameUpToEnd (first second : SyntaxError) : Prop where
  same : second = { first with position := second.position }
  position : (∀ wanted, first.cause ≠ .unexpectedEnd wanted) → second.position = first.position

/-- Both give the same program, or both fail with the same error. -/
inductive SameParse : Except SyntaxError Program → Except SyntaxError Program → Prop
  | ok (program : Program) : SameParse (.ok program) (.ok program)
  | error {first second : SyntaxError} (same : SameUpToEnd first second) :
      SameParse (.error first) (.error second)

/-- A failure is the same before inputs with the same next token, if it is about this
token. -/
theorem sameUpToEnd_located {failure : SyntaxError} {input other : Input}
    (same : other.SameHead input) (blames : Blames (failure.located input.position) input) :
    SameUpToEnd (failure.located input.position) (failure.located other.position) := by
  refine ⟨rfl, fun notEnded => ?_⟩
  have cause := blames.cause
  split at cause
  · obtain ⟨wanted, ended⟩ := cause
    exact absurd ended (notEnded wanted)
  · rename_i proper
    obtain ⟨rest, _⟩ := input
    obtain ⟨otherRest, _⟩ := other
    rcases same with same | ⟨_, ended⟩
    · cases rest with
      | nil => exact absurd rfl proper
      | cons =>
        cases otherRest with
        | nil => cases same
        | cons =>
          cases same
          rfl
    · exact absurd ended proper

/-- The tokens that a parser takes come before the end. -/
theorem exists_of_append_end {tokens used rest further : List Token} {mark : Token}
    (split : tokens ++ mark :: further = used ++ rest) (ends : mark.kind = .endOfInput)
    (taken : AreProper used) :
    ∃ more, tokens = used ++ more ∧ rest = more ++ mark :: further := by
  rcases List.append_eq_append_iff.mp split with ⟨more, front, back⟩ | ⟨more, front, back⟩
  · cases more with
    | nil => exact ⟨[], by simpa using front.symm, back.symm⟩
    | cons =>
      cases back
      exact absurd ends (taken mark (by simp [front]))
  · exact ⟨more, front, back⟩

/-- **Parsing stops at the first end of input.**  Tokens are parsed in the same way
whether an end comes behind them or nothing does, and whatever comes behind the end:
to the same program, or to an error with the same cause and the same contexts.  The
errors have the same place, too, unless the input has ended too early. -/
theorem sameParse_endOfInput (tokens : List Token) {mark : Token}
    (ends : mark.kind = .endOfInput) (further : List Token) :
    SameParse (parse (tokens ++ [mark] ++ further)) (parse tokens) := by
  rw [List.append_assoc, List.singleton_append]
  obtain ⟨used, left, split, taken, outcome⟩ := (Predictive.program _).predicts
    (.ofTokens (tokens ++ mark :: further)) (Nat.lt_succ_self _)
  obtain ⟨more, rfl, rest⟩ := exists_of_append_end (congrArg Input.rest split) ends taken
  let other : Input := ⟨more, (Input.ofTokens (used ++ more)).endPosition⟩
  have behind : Input.ofTokens (used ++ more) = other.behind used := rfl
  have same : other.SameHead left := by
    cases more with
    | nil => exact .inr ⟨rfl, by rw [Input.kind, rest]; exact ends⟩
    | cons => exact .inl (by rw [rest]; rfl)
  rcases outcome with ⟨program, accepts⟩ | rejects
  · have run := accepts.succeeds left (.inl (.refl _))
    rw [← split] at run
    rw [parse_of_ok run, parse_of_ok (accepts.succeeds other (.inl same))]
    exact .ok program
  · obtain ⟨_, fails⟩ := rejects.fails
    obtain ⟨run, blames⟩ := fails left (.refl _)
    rw [← split] at run
    rw [parse_of_error run, parse_of_error (fails other same).1]
    exact .error (sameUpToEnd_located same blames)

/-- The tokens of a call without its end. -/
def unfinishedCall : List Token :=
  [{ kind := .identifier, text := "f", position := ⟨1, 1⟩ },
    { kind := .openParen, position := ⟨1, 2⟩ },
    { kind := .identifier, text := "x", position := ⟨1, 3⟩ }]

/-- What would complete the call is not read behind the end of input. -/
theorem sameParse_unfinishedCall :
    let mark : Token := { kind := .endOfInput, position := ⟨1, 4⟩ }
    let further : List Token := [{ kind := .closeParen }, { kind := .semicolon }]
    AreProper unfinishedCall ∧ (parse (unfinishedCall ++ further)).toOption.isSome ∧
      (parse (unfinishedCall ++ [mark] ++ further)).mapError Diagnostic.position =
        .error (some ⟨1, 4⟩) ∧
      (parse unfinishedCall).mapError Diagnostic.position = .error (some ⟨1, 3⟩) ∧
      SameParse (parse (unfinishedCall ++ [mark] ++ further)) (parse unfinishedCall) := by
  intro mark further
  have proper : AreProper unfinishedCall := by
    unfold AreProper
    decide
  exact ⟨proper, by decide, rfl, rfl, sameParse_endOfInput unfinishedCall rfl further⟩

end BanglaScript
