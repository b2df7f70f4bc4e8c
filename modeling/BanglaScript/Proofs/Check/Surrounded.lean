import BanglaScript.Proofs.Resolution.Parallel
import BanglaScript.Proofs.Typing.Recorded

/-!
# Bodies and what surrounds them

Blocks, conditionals, loops and functions have bodies of their own.  Checking one of
them, be it valid or not, leaves every name around it as it was: the same scope is
open at the same depth, and a name refers to the same symbol as before, which may at
most have got a value.  Only the name of a function that is new in its scope refers to
something else behind it, namely to the function.
-/

namespace BanglaScript

open StateRun List

/-- The same scope is open at the same depth, what has been found is still there, and
every name but the excepted one refers to the same symbol as before, which may have got
a value. -/
structure Findings.KeepsSurroundings (excepted : Option String) (before after : Findings) :
    Prop where
  scope : after.table.innermostScope.name = before.table.innermostScope.name
  depth : after.table.depth = before.table.depth
  lookups : ∀ name, some name ≠ excepted →
    after.table.lookup? name = before.table.lookup? name ∨
      after.table.lookup? name = (before.table.lookup? name).map Symbol.withValue
  adds : before.Adds after

/-- The statements that have bodies. -/
def Statement.hasBody : Statement → Bool
  | .ifThen _ _ | .ifElse _ _ _ | .repeatWhile _ _ | .block _ | .function _ _ _ => true
  | _ => false

/-- The function that a statement declares where no symbol of the innermost scope has
its name. -/
def Statement.newFunction? (table : SymbolTable) : Statement → Option String
  | .function name _ _ => if table.conflict? name = none then some name else none
  | _ => none

/-- Every name of an open scope has a symbol. -/
theorem Reflects.isBelow {keys : List TableKey} {history : History} {run : TableRun}
    (reflects : Reflects keys history run) :
    ∀ scope ∈ run.table.searchedScopes, scope.IsBelow run.table.symbols.length := by
  refine ((forall₂_and_left _ _).mp (reflects.searchedScopes.flip.imp
    fun scope place holds => ⟨fun name number found => ?_, holds⟩)).1
  obtain ⟨_, held, _⟩ := reflects.get? ((holds name number).mp found)
  exact (List.getElem?_eq_some_iff.mp held).1

namespace Findings.KeepsSurroundings

variable {before after : Findings} {excepted : Option String}

variable (lexical : before.table.scoping = .lexical) (adds : before.Adds after)
  (known : ∀ scope ∈ before.table.searchedScopes, scope.IsBelow before.table.symbols.length)

include lexical adds known

/-- Scopes of the same names, in which the names refer to the same numbers. -/
theorem of_scopes (names : after.table.searchedScopes.map Scope.name =
      before.table.searchedScopes.map Scope.name)
    (resolved : ∀ name, some name ≠ excepted →
      after.table.resolve? name = before.table.resolve? name) :
    KeepsSurroundings excepted before after := by
  simp only [SymbolTable.searchedScopes, lexical, adds.scoping, map_append] at names
  obtain ⟨inner, _⟩ := append_inj' names rfl
  refine ⟨?_, ?_, fun name other => ?_, adds⟩
  · unfold SymbolTable.innermostScope
    generalize before.table.innerScopes = old at inner
    generalize after.table.innerScopes = new at inner
    cases old <;> cases new <;> simp_all
  · simpa [SymbolTable.depth] using congrArg List.length inner
  · rw [SymbolTable.lookup?, SymbolTable.lookup?, resolved name other]
    cases found : before.table.resolve? name with
    | none => exact .inl rfl
    | some number =>
      obtain ⟨scope, member, bound⟩ := exists_of_findSome?_eq_some found
      have held : before.table.get? number = some _ :=
        getElem?_eq_getElem (known scope member name number bound)
      rw [Option.bind_some, Option.bind_some, held]
      exact adds.symbols lexical number _ held

theorem of_sameScopes (same : before.SameScopes after) : KeepsSurroundings none before after := by
  have scopes := same.scopes lexical
  refine of_scopes lexical adds known (by rw [scopes]) fun name _ => ?_
  rw [SymbolTable.resolve?, SymbolTable.resolve?, scopes]

end Findings.KeepsSurroundings

namespace Check

open Findings (SameScopes KeepsSurroundings)

variable {findings : Findings} {name : String} {parameters : List String} {body : List Statement}

/-- A new function is declared in the scope around it, and nothing else is. -/
theorem keepsSurroundings_function (lexical : findings.table.scoping = .lexical)
    (known : ∀ scope ∈ findings.table.searchedScopes,
      scope.IsBelow findings.table.symbols.length)
    (free : findings.table.conflict? name = none) :
    let after := ((statement (.function name parameters body)).run findings).2
    KeepsSurroundings (some name) findings after ∧ after.table.lookup? name =
      some ⟨name, .function, .function, findings.table.innermostScope.name, true⟩ := by
  intro after
  obtain ⟨outer, scopes⟩ := SymbolTable.searchedScopes_eq_cons lexical
  obtain ⟨changed, outer, receives⟩ := SymbolTable.exists_receives lexical name .function .function
    (known _ (scopes ▸ mem_cons_self))
  let noted := (do
    declare name .function .function true
    note (.functionDeclared name parameters.length) : Check Unit).run findings |>.2
  have notedLexical : noted.table.scoping = .lexical := receives.scoping.trans lexical
  have steps := Findings.Adds.keptBySteps
  -- The function is declared first, and all that follows has a scope of its own.
  have run : after = ((do
      update (·.openFunction name)
      declareParameters parameters
      inBlock (statements body)
      update (·.closeScope) : Check Unit).run noted).2 :=
    congrArg Prod.snd (run_function_of_free free)
  have adds : noted.Adds after :=
    run ▸ steps.inFunction name parameters (steps.inBlock (steps.statements body)) noted
  have same : noted.SameScopes after :=
    run ▸ sameScopes_inFunction name parameters body noted
  have scopes : after.table.searchedScopes = changed :: outer :=
    (same.scopes notedLexical).trans receives.after
  constructor
  · refine .of_scopes lexical (steps.statement _ findings) known ?_ fun other different => ?_
    · rw [scopes, receives.before, map_cons, map_cons, receives.sameName]
    · have others := receives.others other fun same => different (congrArg some same)
      rw [SymbolTable.resolve?, SymbolTable.resolve?, scopes, receives.before,
        findSome?_cons, findSome?_cons, others]
  · let number := (findings.table.declare name .function .function).1
    have held : noted.table.get? number =
        some ⟨name, .function, .function, findings.table.innermostScope.name, true⟩ := by
      change ((findings.table.declare name .function .function).2.symbols.modify number
        Symbol.withValue)[number]? = _
      rw [getElem?_modify_eq, receives.held]
      rfl
    rw [SymbolTable.lookup?, SymbolTable.resolve?, scopes, findSome?_cons, receives.here]
    exact (adds.symbols notedLexical _ _ held).elim id id

end Check

/-- Checking a statement that has a body leaves its surroundings as they are, in any
state of a table with lexical scopes and whatever has been found before.  If the
statement is a function whose name is new, the name refers to the function behind it. -/
theorem keepsSurroundings_of_hasBody (calls : List TableCall) (errors : List CheckError)
    (warnings : List CheckWarning) (notes : List CheckNote) (phrase : Statement)
    (hasBody : phrase.hasBody) :
    let before : Findings := ⟨(TableRun.ofCalls .lexical calls).table, errors, warnings, notes⟩
    let after := ((Check.statement phrase).run before).2
    before.KeepsSurroundings (phrase.newFunction? before.table) after ∧
      ∀ name, phrase.newFunction? before.table = some name →
        after.table.lookup? name =
          some ⟨name, .function, .function, before.table.innermostScope.name, true⟩ := by
  intro before after
  obtain ⟨_, reflects⟩ := Reflects.ofCalls .lexical calls
  have lexical : before.table.scoping = .lexical :=
    reflects.scoping.trans (History.scoping_ofCalls .lexical calls)
  have adds : before.Adds after := Findings.Adds.keptBySteps.statement phrase before
  have unnamed (same : before.SameScopes after) (none : phrase.newFunction? before.table = none) :
      before.KeepsSurroundings (phrase.newFunction? before.table) after ∧
        ∀ name, phrase.newFunction? before.table = some name → after.table.lookup? name =
          some ⟨name, .function, .function, before.table.innermostScope.name, true⟩ := by
    rw [none]
    exact ⟨.of_sameScopes lexical adds reflects.isBelow same, nofun⟩
  cases phrase with
  | function name parameters body =>
    cases conflict : before.table.conflict? name with
    | none =>
      obtain ⟨keeps, declared⟩ :=
        Check.keepsSurroundings_function lexical reflects.isBelow conflict
      have new : (Statement.function name parameters body).newFunction? before.table =
          some name := if_pos conflict
      rw [new]
      exact ⟨keeps, fun other same => Option.some.inj same ▸ declared⟩
    | some existing =>
      refine unnamed ?_ (if_neg (by rw [conflict]; exact Option.some_ne_none existing))
      have run : after = ((do
          let _ ← Check.report (.functionAlreadyDefined name) : Check Unit).run before).2 :=
        congrArg Prod.snd (Check.run_function_of_conflict conflict)
      exact run ▸ Findings.SameScopes.keptByRecords.reported _ before
  | ifThen | ifElse | repeatWhile | block =>
    exact unnamed (Check.sameScopes_statement _ rfl before) rfl
  | _ => cases hasBody

/-- A variable without a value stands in a block. -/
def inBlockWithVariable : List TableCall := [.openBlock, .declare "x" .any .variable]

/-- A conditional that is invalid: it gives the variable a value, declares another one of
the same name and uses a name that is not declared. -/
def faultyConditional : Statement :=
  .ifThen (.literal (.string "a"))
    [.assignment "x" (.literal (.string "b")), .declaration "x" none, .print (.identifier "y")]

/-- The variable around the conditional has a value behind it, and is the same otherwise. -/
theorem keepsSurroundings_faultyConditional :
    let before : Findings := { table := (TableRun.ofCalls .lexical inBlockWithVariable).table }
    let after := ((Check.statement faultyConditional).run before).2
    faultyConditional.hasBody ∧ after.errors.length = 2 ∧
      before.table.lookup? "x" = some ⟨"x", .any, .variable, "block_1", false⟩ ∧
      after.table.lookup? "x" = some ⟨"x", .any, .variable, "block_1", true⟩ ∧
      before.KeepsSurroundings none after :=
  ⟨rfl, by decide, by decide, by decide,
    (keepsSurroundings_of_hasBody inBlockWithVariable [] [] [] faultyConditional rfl).1⟩

end BanglaScript
