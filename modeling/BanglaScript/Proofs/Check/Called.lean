import BanglaScript.Proofs.Check.Closed
import BanglaScript.Proofs.Check.Symbols
import BanglaScript.Proofs.Lowering.Told

/-!
# Calls of valid programs

In a program that is valid under lexical scoping every function that is called has
been declared before, in a block that is still open, so it is declared in the body
of the call or in one around it.

The walk through the program keeps that the functions which can be looked up have been
declared in such a body.  Behind a block or a function the same can be looked up as
before it.
-/

namespace BanglaScript

open List

/-- The functions that are called have been declared in the body of the call or in
one around it. -/
def CallsAreTold (told events : List (List Nat × Event)) : Prop :=
  ∀ bodies name, (bodies, .call name) ∈ events →
    ∃ outer, outer <:+ bodies ∧ (outer, .function name) ∈ told

namespace CallsAreTold

variable {told more first second : List (List Nat × Event)} {bodies : List Nat}

theorem nil : CallsAreTold told [] := nofun

theorem giveBack : CallsAreTold told [(bodies, .giveBack)] :=
  fun _ _ called => nomatch mem_singleton.mp called

theorem mono {events : List (List Nat × Event)} (calls : CallsAreTold told events)
    (subset : told ⊆ more) : CallsAreTold more events := by
  intro bodies name called
  obtain ⟨outer, around, declared⟩ := calls bodies name called
  exact ⟨outer, around, subset declared⟩

theorem append (firstCalls : CallsAreTold told first) (secondCalls : CallsAreTold told second) :
    CallsAreTold told (first ++ second) := by
  intro bodies name called
  rcases mem_append.mp called with here | behind
  · exact firstCalls bodies name here
  · exact secondCalls bodies name behind

/-- The second part may call what the first part declares. -/
theorem next (firstCalls : CallsAreTold (told ++ first) first)
    (secondCalls : CallsAreTold (told ++ first ++ second) second) :
    CallsAreTold (told ++ (first ++ second)) (first ++ second) := by
  rw [← append_assoc]
  exact (firstCalls.mono (subset_append_left _ _)).append secondCalls

end CallsAreTold

/-! ## Symbol tables -/

/-- Under lexical scoping, the open scopes bind names to symbols, and the functions among
them have been declared in the body or in one around it. -/
structure SymbolTable.FunctionsIn (table : SymbolTable) (told : List (List Nat × Event))
    (bodies : List Nat) : Prop where
  lexical : table.scoping = .lexical
  inRange : ∀ scope ∈ table.searchedScopes, scope.IsBelow table.symbols.length
  functions : ∀ name symbol, table.lookup? name = some symbol → symbol.kind = .function →
    ∃ outer, outer <:+ bodies ∧ (outer, .function name) ∈ told

namespace SymbolTable.FunctionsIn

variable {table : SymbolTable} {told more : List (List Nat × Event)} {bodies inner : List Nat}

theorem empty : FunctionsIn (SymbolTable.empty .lexical) [] [] :=
  ⟨rfl, forall_mem_singleton.mpr nofun, fun _ _ found => nomatch found⟩

variable (functions : table.FunctionsIn told bodies)

include functions

/-- More functions may have been declared, and more bodies may be around. -/
theorem mono (subset : told ⊆ more) (around : bodies <:+ inner) :
    table.FunctionsIn more inner := by
  refine ⟨functions.lexical, functions.inRange, fun name symbol found function => ?_⟩
  obtain ⟨outer, outside, declared⟩ := functions.functions name symbol found function
  exact ⟨outer, outside.trans around, subset declared⟩

/-- A name that can be looked up has a symbol. -/
theorem exists_symbol {name : String} {number : Nat} (found : table.resolve? name = some number) :
    ∃ symbol, table.get? number = some symbol := by
  obtain ⟨scope, member, bound⟩ := exists_of_findSome?_eq_some found
  exact ⟨_, getElem?_eq_getElem (functions.inRange scope member name number bound)⟩

theorem of_keepsSymbols {other : SymbolTable} (scoping : other.scoping = table.scoping)
    (scopes : other.searchedScopes = table.searchedScopes) (keeps : table.KeepsSymbols other) :
    other.FunctionsIn told bodies := by
  refine ⟨scoping.trans functions.lexical, fun scope member name number bound => ?_,
    fun name symbol found function => ?_⟩
  · rw [scopes] at member
    have held := getElem?_eq_getElem (functions.inRange scope member name number bound)
    rcases keeps number _ held with same | valued
    · exact (List.getElem?_eq_some_iff.mp same).1
    · exact (List.getElem?_eq_some_iff.mp valued).1
  · obtain ⟨number, resolved, held⟩ := Option.bind_eq_some_iff.mp found
    rw [resolve?, scopes] at resolved
    obtain ⟨older, olderHeld⟩ := functions.exists_symbol resolved
    refine functions.functions name older (Option.bind_eq_some_iff.mpr ⟨_, resolved, olderHeld⟩) ?_
    rcases keeps number older olderHeld with same | valued
    · cases held.symm.trans same
      exact function
    · cases held.symm.trans valued
      exact function

theorem openScope (name : String) : (table.openScope name).FunctionsIn told bodies := by
  have scopes := searchedScopes_openScope functions.lexical name
  refine ⟨functions.lexical, ?_, fun other symbol found => functions.functions other symbol ?_⟩
  · rw [scopes]
    exact forall_mem_cons.mpr ⟨nofun, functions.inRange⟩
  · rwa [lookup?, resolve?, scopes] at found

theorem openBlock : table.openBlock.FunctionsIn told bodies := by
  have counted : FunctionsIn { table with blockCount := table.blockCount + 1 } told bodies :=
    functions.of_keepsSymbols rfl rfl fun _ _ => .inl
  exact counted.openScope _

/-- A declaration goes to the innermost scope. -/
theorem declare {name : String} (type : ValueType) {kind : SymbolKind}
    (known : kind = .function → table.conflict? name = none ∧ (bodies, .function name) ∈ told) :
    (table.declare name type kind).2.FunctionsIn told bodies := by
  obtain ⟨outer, scopes⟩ := searchedScopes_eq_cons functions.lexical
  have innermost := functions.inRange _ (scopes ▸ mem_cons_self)
  obtain ⟨_, _, receives⟩ := exists_receives functions.lexical name type kind innermost
  have inRange := functions.inRange
  rw [receives.before] at inRange
  have grows {position : Nat} (inside : position < table.symbols.length) :
      position < (table.declare name type kind).2.symbols.length := by
    by_cases same : position = (table.declare name type kind).1
    · exact same ▸ (List.getElem?_eq_some_iff.mp receives.held).1
    · have held := (receives.symbols position same).trans (getElem?_eq_getElem inside)
      exact (List.getElem?_eq_some_iff.mp held).1
  refine ⟨receives.scoping.trans functions.lexical, ?_, fun other symbol found function => ?_⟩
  · rw [receives.after]
    refine forall_mem_cons.mpr ⟨fun other position bound => ?_, fun scope member other position
      bound => grows (inRange scope (mem_cons_of_mem _ member) other position bound)⟩
    by_cases same : other = name
    · rw [same, receives.here] at bound
      exact Option.some.inj bound ▸ (List.getElem?_eq_some_iff.mp receives.held).1
    · rw [receives.others other same] at bound
      exact grows (innermost other position bound)
  · obtain ⟨number, resolved, held⟩ := Option.bind_eq_some_iff.mp found
    rw [resolve?, receives.after, findSome?_cons] at resolved
    by_cases same : other = name
    · rw [same, receives.here] at resolved
      cases resolved
      cases held.symm.trans receives.held
      exact ⟨bodies, suffix_rfl, same ▸ (known function).2⟩
    · have before : table.resolve? other = some number := by
        rwa [resolve?, receives.before, findSome?_cons, ← receives.others other same]
      obtain ⟨_, olderHeld⟩ := functions.exists_symbol before
      have isOld : number ≠ (table.declare name type kind).1 := by
        rintro rfl
        cases held.symm.trans receives.held
        -- The name of a new function is not bound in the innermost scope.
        have free := (known function).1
        rcases receives.number_eq with bound | isNext
        · rw [conflict?, bound] at free
          cases olderHeld.symm.trans free
        · simp [isNext, get?] at olderHeld
      rw [get?, receives.symbols number isOld] at held
      exact functions.functions other symbol (Option.bind_eq_some_iff.mpr ⟨_, before, held⟩)
        function

end SymbolTable.FunctionsIn

namespace Check

open StateRun Findings

variable {told : List (List Nat × Event)} {bodies : List Nat} {findings : Findings}
  {name : String} {body : List Statement} {count : Nat}

/-! ## Expressions -/

theorem functionsIn_sameTable {α : Type} {computation : Check α}
    (same : Relates SameTable computation) (functions : findings.table.FunctionsIn told bodies) :
    (computation.run findings).2.table.FunctionsIn told bodies := by
  rw [(same findings).table]
  exact functions

mutual

/-- The functions that an expression with known names calls can be looked up. -/
theorem callsAreTold_of_knows (expr : Expr) {table : SymbolTable}
    (functions : table.FunctionsIn told bodies) (known : expr.all table.knows) :
    CallsAreTold told (expr.calls.map (bodies, ·)) := by
  cases expr with
  | literal | identifier => exact .nil
  | binary operator lhs rhs =>
    simp only [Expr.all, Bool.and_eq_true] at known
    rw [Expr.calls, map_append]
    exact (callsAreTold_of_knows lhs functions known.1.2).append
      (callsAreTold_of_knows rhs functions known.2)
  | call callee arguments =>
    simp only [Expr.all, Bool.and_eq_true] at known
    rw [Expr.calls, map_append]
    refine (callsAreTold_of_knowsAll arguments functions known.2).append ?_
    intro inside name called
    cases mem_singleton.mp called
    obtain ⟨symbol, found, function⟩ := (Option.any_eq_true _ _).mp known.1
    exact functions.functions _ symbol found (of_decide_eq_true function)

theorem callsAreTold_of_knowsAll (exprs : List Expr) {table : SymbolTable}
    (functions : table.FunctionsIn told bodies) (known : Expr.allIn table.knows exprs) :
    CallsAreTold told ((Expr.callsAll exprs).map (bodies, ·)) := by
  cases exprs with
  | nil => exact .nil
  | cons first rest =>
    simp only [Expr.allIn, Bool.and_eq_true] at known
    rw [Expr.callsAll, map_append]
    exact (callsAreTold_of_knows first functions known.1).append
      (callsAreTold_of_knowsAll rest functions known.2)

end

/-! ## Statements -/

theorem functionsIn_declare {type : ValueType} {kind : SymbolKind} (initialized : Bool)
    (functions : findings.table.FunctionsIn told bodies)
    (known : kind = .function →
      findings.table.conflict? name = none ∧ (bodies, .function name) ∈ told) :
    ((declare name type kind initialized).run findings).2.table.FunctionsIn told bodies := by
  have declared := functions.declare type known
  simp only [declare, update, run_modify]
  split
  · exact declared.of_keepsSymbols rfl rfl (.initializeAt (fun _ _ => .inl) _)
  · exact declared

theorem functionsIn_declareParameters (findings : Findings)
    (functions : findings.table.FunctionsIn told bodies) (parameters : List String) :
    ((declareParameters parameters).run findings).2.table.FunctionsIn told bodies := by
  induction parameters generalizing findings with
  | nil => exact functions
  | cons name rest ih => exact ih _ (functionsIn_declare true functions nofun)

/-- Behind what leaves the scopes as they are, the same functions can be looked up. -/
theorem functionsIn_sameScopes {after : Findings}
    (functions : findings.table.FunctionsIn told bodies) (adds : findings.Adds after)
    (same : findings.SameScopes after) : after.table.FunctionsIn told bodies :=
  functions.of_keepsSymbols same.scoping (same.scopes functions.lexical)
    (adds.symbols functions.lexical)

theorem functionsIn_inBlock (functions : findings.table.FunctionsIn told bodies) :
    ((inBlock (statements body)).run findings).2.table.FunctionsIn told bodies := by
  have steps := Adds.keptBySteps
  exact functionsIn_sameScopes functions (steps.inBlock (steps.statements body) findings)
    (sameScopes_inBlock (keepsOuter_statements body) findings)

theorem functionsIn_functionHead (parameters : List String)
    (functions : findings.table.FunctionsIn told bodies)
    (free : findings.table.conflict? name = none) (isTold : (bodies, .function name) ∈ told) :
    ((functionHead name parameters).run findings).2.table.FunctionsIn told bodies :=
  functionsIn_declare true functions fun _ => ⟨free, isTold⟩

/-- Only a function can be looked up behind a statement and not before it. -/
theorem functionsIn_statement (phrase : Statement) (count : Nat)
    (functions : findings.table.FunctionsIn told bodies)
    (valid : ((statement phrase).run findings).2.errors = []) :
    ((statement phrase).run findings).2.table.FunctionsIn
      (told ++ phrase.account.events bodies count) bodies := by
  have wider := functions.mono (subset_append_left told (phrase.account.events bodies count))
    suffix_rfl
  have steps := Adds.keptBySteps
  cases phrase with
  | declaration name initial =>
    cases initial with
    | none =>
      obtain ⟨_, _, table⟩ := table_of_introduce valid
      exact (congrArg (SymbolTable.FunctionsIn · _ bodies) table).mpr
        (functionsIn_declare _ wider nofun)
    | some =>
      obtain ⟨_, _, table⟩ := table_of_declaration valid
      exact table ▸ functionsIn_declare _ wider nofun
  | function name parameters body =>
    have free := free_of_function valid
    rw [run_function_of_free free]
    have declared := functionsIn_functionHead parameters wider free
      (mem_append_right told mem_cons_self)
    exact functionsIn_sameScopes declared
      (steps.inFunction name parameters (steps.inBlock (steps.statements body)) _)
      (sameScopes_inFunction name parameters body _)
  | _ =>
    exact functionsIn_sameScopes wider (steps.statement _ findings)
      (sameScopes_statement _ rfl findings)

/-- What holds of statements inside of a block. -/
theorem callsAreTold_of_inBlock
    (calls : ∀ {findings : Findings}, findings.table.FunctionsIn told bodies →
      ((statements body).run findings).2.errors = [] →
      CallsAreTold (told ++ (Statement.accountAll body).events bodies count)
        ((Statement.accountAll body).events bodies count))
    (functions : findings.table.FunctionsIn told bodies)
    (valid : ((inBlock (statements body)).run findings).2.errors = []) :
    CallsAreTold (told ++ (Statement.accountAll body).events bodies count)
      ((Statement.accountAll body).events bodies count) := by
  let opened : Findings := { findings with table := findings.table.openBlock }
  have inside : opened.table.FunctionsIn told bodies := functions.openBlock
  exact calls inside valid

mutual

/-- The functions that a statement without errors calls have been declared before. -/
theorem callsAreTold_of_statement (phrase : Statement) (count : Nat)
    {told : List (List Nat × Event)} {bodies : List Nat} {findings : Findings}
    (functions : findings.table.FunctionsIn told bodies)
    (valid : ((statement phrase).run findings).2.errors = []) :
    CallsAreTold (told ++ phrase.account.events bodies count)
      (phrase.account.events bodies count) := by
  have told_expression {expr : Expr} (more : List (List Nat × Event))
      (exprValid : ((expression expr).run findings).2.errors = []) :
      CallsAreTold (told ++ more) (expr.calls.map (bodies, ·)) :=
    (callsAreTold_of_knows expr functions (knows_of_expression expr exprValid)).mono
      (subset_append_left _ _)
  have told_test {construct : Construct} {test : Expr}
      (testValid : ((condition construct test).run findings).2.errors = []) :
      CallsAreTold (told ++ test.calls.map (bodies, ·)) (test.calls.map (bodies, ·)) :=
    told_expression _ (errors_expression_of_condition testValid)
  have tested {construct : Construct} {test : Expr} (more : List (List Nat × Event)) :
      ((condition construct test).run findings).2.table.FunctionsIn (told ++ more) bodies :=
    (functionsIn_sameTable (sameTable_condition construct test) functions).mono
      (subset_append_left _ _) suffix_rfl
  cases phrase with
  | declaration name initial =>
    cases initial with
    | none => exact .nil
    | some => exact told_expression _ (table_of_declaration valid).2.1
  | assignment => exact told_expression _ (assignment_of_valid valid).1
  | ifThen test body | repeatWhile test body =>
    have here := told_test (inBlock_errors valid)
    exact here.next
      (callsAreTold_of_inBlock (callsAreTold_of_statements body count) (tested _) valid)
  | ifElse test body alternative =>
    have bodyValid := inBlock_errors valid
    have here := told_test (inBlock_errors bodyValid)
    have inside := here.next
      (callsAreTold_of_inBlock (callsAreTold_of_statements body count) (tested _) bodyValid)
    exact inside.next (callsAreTold_of_inBlock (callsAreTold_of_statements alternative _)
      (functionsIn_inBlock (tested _)) valid)
  | block body =>
    exact callsAreTold_of_inBlock (callsAreTold_of_statements body count) functions valid
  | function name parameters body =>
    have free := free_of_function valid
    rw [run_function_of_free free] at valid
    have declared := functionsIn_functionHead parameters
      (functions.mono (subset_append_left _ _) suffix_rfl) free
      (mem_append_right told (mem_singleton_self _))
    let noted := ((functionHead name parameters).run findings).2
    have opened := functionsIn_declareParameters
      { noted with table := noted.table.openFunction name }
      ((declared.mono (List.Subset.refl _) (suffix_cons count bodies)).openScope _) parameters
    have first : CallsAreTold (told ++ [(bodies, .function name)]) [(bodies, .function name)] :=
      fun _ _ called => nomatch mem_singleton.mp called
    exact first.next
      (callsAreTold_of_inBlock (callsAreTold_of_statements body (count + 1)) opened valid)
  | giveBack value =>
    cases value with
    | none => exact .giveBack
    | some value =>
      change CallsAreTold _ ((value.calls ++ [Event.giveBack]).map (bodies, ·))
      rw [map_append]
      exact (told_expression _ valid).append .giveBack
  | print | expression => exact told_expression _ valid

theorem callsAreTold_of_statements (phrases : List Statement) (count : Nat)
    {told : List (List Nat × Event)} {bodies : List Nat} {findings : Findings}
    (functions : findings.table.FunctionsIn told bodies)
    (valid : ((statements phrases).run findings).2.errors = []) :
    CallsAreTold (told ++ (Statement.accountAll phrases).events bodies count)
      ((Statement.accountAll phrases).events bodies count) := by
  cases phrases with
  | nil => exact .nil
  | cons first rest =>
    have firstValid := errors_eq_nil (keepsOuter_statements rest _).errors valid
    exact (callsAreTold_of_statement first count functions firstValid).next
      (callsAreTold_of_statements rest _ (functionsIn_statement first count functions firstValid)
        valid)

end

end Check

/-- In a valid program functions are declared before they are called, in the body of
the call or in one around it. -/
theorem callsAreTold_of_isValid {program : Program} (valid : (program.check .lexical).isValid) :
    CallsAreTold program.events program.events :=
  Check.callsAreTold_of_statements program.body 0 SymbolTable.FunctionsIn.empty
    (List.isEmpty_iff.mp valid)

end BanglaScript
