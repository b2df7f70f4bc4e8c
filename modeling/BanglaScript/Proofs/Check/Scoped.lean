import BanglaScript.Check
import BanglaScript.Proofs.StateRun

/-!
# What checking changes

Checking never takes an error back.  Checking an expression leaves the symbol
table alone.  Under lexical scoping, checking a statement changes at most the
innermost of the scopes that names are looked up in, and checking a block
changes none.

Each of these says that a relation holds between the findings before and behind.
For expressions it is enough that every record keeps the relation,
`Findings.KeptByRecords`, and for statements that every step does,
`Findings.KeptBySteps`; the walk through the program is made once for all of them.
-/

namespace BanglaScript

open StateRun List

/-! ## Functions -/

namespace Check

variable {name : String} {parameters : List String} {body : List Statement} {findings : Findings}

/-- A function whose name is taken is reported and not looked into. -/
theorem run_function_of_conflict {existing : Symbol}
    (conflict : findings.table.conflict? name = some existing) :
    (statement (.function name parameters body)).run findings =
      (do let _ ← report (.functionAlreadyDefined name) : Check Unit).run findings := by
  simp only [statement, run_bind, ask, run_get, run_pure, conflict]
  rfl

/-- A function with a new name is declared before its body is checked. -/
theorem run_function_of_free (free : findings.table.conflict? name = none) :
    (statement (.function name parameters body)).run findings =
      (do
        declare name .function .function true
        note (.functionDeclared name parameters.length)
        update (·.openFunction name)
        declareParameters parameters
        inBlock (statements body)
        update (·.closeScope) : Check Unit).run findings := by
  simp only [statement, run_bind, ask, run_get, run_pure, free]
  rfl

end Check

/-! ## Relations that checking keeps -/

/-- A relation between findings that every record of an error, a warning or a note
keeps. -/
structure Findings.KeptByRecords (relation : Findings → Findings → Prop) : Prop where
  refl : ∀ findings, relation findings findings
  trans : ∀ {first second third}, relation first second → relation second third →
    relation first third
  report : ∀ error, Relates relation (Check.report error)
  warn : ∀ warning, Relates relation (Check.warn warning)
  note : ∀ remark, Relates relation (Check.note remark)

namespace Findings.KeptByRecords

variable {relation : Findings → Findings → Prop} {α β : Type}

section

variable (kept : KeptByRecords relation)

include kept

theorem pure (value : α) : Relates relation (pure value : Check α) :=
  kept.refl

theorem ask (question : SymbolTable → α) : Relates relation (Check.ask question) :=
  kept.refl

theorem bind {first : Check α} {next : α → Check β}
    (here : Relates relation first) (there : ∀ value, Relates relation (next value)) :
    Relates relation (first >>= next) :=
  fun findings => kept.trans (here findings) (there _ _)

theorem reported (error : CheckError) : Relates relation (do let _ ← Check.report error) :=
  kept.bind (kept.report error) fun _ => kept.pure _

theorem identifier (name : String) : Relates relation (Check.identifier name) := by
  refine kept.bind (kept.ask _) fun found => ?_
  cases found with
  | none =>
    dsimp only
    split
    · exact kept.pure _
    · exact kept.report _
  | some =>
    dsimp only
    split
    · exact kept.bind (kept.warn _) fun _ => kept.pure _
    · exact kept.pure _

theorem binary (operator : BinaryOperator) (lhs rhs : ValueType) :
    Relates relation (Check.binary operator lhs rhs) := by
  unfold Check.binary
  repeat' split
  all_goals first | exact kept.pure _ | exact kept.report _

end

mutual

/-- Checking an expression records what it finds and does nothing else. -/
theorem expression (kept : KeptByRecords relation) (expr : Expr) :
    Relates relation (Check.expression expr) := by
  cases expr with
  | literal constant => cases constant <;> exact kept.pure _
  | identifier name => exact kept.identifier name
  | binary operator lhs rhs =>
    exact kept.bind (expression kept lhs) fun _ =>
      kept.bind (expression kept rhs) fun _ => kept.binary operator _ _
  | call name arguments =>
    refine kept.bind (kept.ask _) fun symbol => ?_
    dsimp only
    split
    · exact kept.bind (kept.report _) fun _ =>
        kept.bind (callArguments kept _ 1 arguments) fun _ => kept.pure _
    · exact kept.bind (callArguments kept _ 1 arguments) fun _ => kept.pure _

theorem callArguments (kept : KeptByRecords relation) (noted : Bool) (number : Nat)
    (arguments : List Expr) : Relates relation (Check.callArguments noted number arguments) := by
  cases arguments with
  | nil => exact kept.pure _
  | cons argument rest =>
    refine kept.bind (expression kept argument) fun type => ?_
    dsimp only
    split
    · exact kept.bind (kept.note _) fun _ => callArguments kept _ _ rest
    · exact callArguments kept _ _ rest

end

theorem condition (kept : KeptByRecords relation) (construct : Construct) (value : Expr) :
    Relates relation (Check.condition construct value) := by
  refine kept.bind (kept.expression value) fun found => ?_
  split
  · exact kept.reported _
  · exact kept.pure _

theorem assignment (kept : KeptByRecords relation) {name : String}
    (gains : Relates relation (Check.update (·.initializeName name))) (value : Expr) :
    Relates relation (Check.assignment name value) := by
  refine kept.bind (kept.expression value) fun type => kept.bind (kept.ask _) fun found => ?_
  cases found with
  | none => exact kept.reported _
  | some =>
    dsimp only
    split
    · exact kept.bind gains fun _ => kept.note _
    · exact kept.reported _

end Findings.KeptByRecords

/-- A relation between findings that every step of checking keeps: records, a new
declaration, a new value, and what happens in a scope of its own if the relation is
kept there. -/
structure Findings.KeptBySteps (relation : Findings → Findings → Prop) : Prop
    extends KeptByRecords relation where
  declare : ∀ {name findings}, findings.table.conflict? name = none →
    ∀ type kind initialized,
      relation findings ((Check.declare name type kind initialized).run findings).2
  initializeName : ∀ name, Relates relation (Check.update (·.initializeName name))
  inBlock : ∀ {inside}, Relates relation inside → Relates relation (Check.inBlock inside)
  inFunction : ∀ name parameters {inside}, Relates relation inside → Relates relation (do
    Check.update (·.openFunction name)
    Check.declareParameters parameters
    inside
    Check.update (·.closeScope))

namespace Findings.KeptBySteps

variable {relation : Findings → Findings → Prop}

theorem introduce (kept : KeptBySteps relation) (name : String) (type : ValueType)
    (initialized : Bool) : Relates relation (Check.introduce name type initialized) := by
  intro findings
  simp only [Check.introduce, run_bind, Check.ask, run_get, run_pure]
  cases conflict : findings.table.conflict? name with
  | none => exact kept.trans (kept.declare conflict type .variable _) (kept.note _ _)
  | some => exact kept.reported _ findings

theorem declaration (kept : KeptBySteps relation) (name : String) (initial : Option Expr) :
    Relates relation (Check.declaration name initial) := by
  cases initial with
  | none => exact kept.introduce name .any false
  | some value => exact kept.bind (kept.expression value) fun type => kept.introduce name type true

theorem function (kept : KeptBySteps relation) (name : String) (parameters : List String)
    {body : List Statement} (inside : Relates relation (Check.statements body)) :
    Relates relation (Check.statement (.function name parameters body)) := by
  intro findings
  cases conflict : findings.table.conflict? name with
  | some =>
    rw [Check.run_function_of_conflict conflict]
    exact kept.reported _ findings
  | none =>
    rw [Check.run_function_of_free conflict]
    refine kept.trans (kept.declare conflict .function .function true) ?_
    refine kept.trans (kept.note (.functionDeclared name parameters.length) _) ?_
    exact kept.inFunction name parameters (kept.inBlock inside) _

mutual

theorem statement (kept : KeptBySteps relation) (phrase : Statement) :
    Relates relation (Check.statement phrase) := by
  cases phrase with
  | declaration name initial => exact kept.declaration name initial
  | assignment name value => exact kept.assignment (kept.initializeName name) value
  | ifThen test body | repeatWhile test body =>
    exact kept.bind (kept.condition _ _) fun _ => kept.inBlock (statements kept body)
  | ifElse test body alternative =>
    exact kept.bind (kept.condition _ _) fun _ =>
      kept.bind (kept.inBlock (statements kept body)) fun _ =>
        kept.inBlock (statements kept alternative)
  | block body => exact kept.inBlock (statements kept body)
  | function name parameters body => exact kept.function name parameters (statements kept body)
  | giveBack value =>
    cases value with
    | none => exact kept.note _
    | some value => exact kept.bind (kept.expression value) fun _ => kept.note _
  | print value => exact kept.bind (kept.expression value) fun _ => kept.note _
  | expression value => exact kept.bind (kept.expression value) fun _ => kept.pure _

theorem statements (kept : KeptBySteps relation) (phrases : List Statement) :
    Relates relation (Check.statements phrases) := by
  cases phrases with
  | nil => exact kept.pure _
  | cons first rest => exact kept.bind (statement kept first) fun _ => statements kept rest

end

end Findings.KeptBySteps

/-! ## Expressions -/

/-- The table is the same and no error has been taken back. -/
structure Findings.SameTable (before after : Findings) : Prop where
  errors : before.errors <+: after.errors
  table : after.table = before.table

namespace Findings.SameTable

theorem refl (findings : Findings) : SameTable findings findings :=
  ⟨prefix_refl _, rfl⟩

theorem trans {first second third : Findings} (here : SameTable first second)
    (there : SameTable second third) : SameTable first third :=
  ⟨here.errors.trans there.errors, there.table.trans here.table⟩

theorem keptByRecords : KeptByRecords SameTable where
  refl := refl
  trans := trans
  report error findings := ⟨prefix_append findings.errors [error], rfl⟩
  warn _ findings := ⟨prefix_refl findings.errors, rfl⟩
  note _ findings := ⟨prefix_refl findings.errors, rfl⟩

end Findings.SameTable

namespace Check

open Findings (SameTable)

theorem sameTable_report (error : CheckError) : Relates SameTable (report error) :=
  SameTable.keptByRecords.report error

theorem sameTable_note (remark : CheckNote) : Relates SameTable (note remark) :=
  SameTable.keptByRecords.note remark

theorem sameTable_pure {α : Type} (value : α) :
    Relates SameTable (pure value : Check α) :=
  SameTable.refl

theorem sameTable_bind {α β : Type} {first : Check α} {next : α → Check β}
    (firstSame : Relates SameTable first) (nextSame : ∀ value, Relates SameTable (next value)) :
    Relates SameTable (first >>= next) :=
  SameTable.keptByRecords.bind firstSame nextSame

theorem sameTable_binary (operator : BinaryOperator) (lhs rhs : ValueType) :
    Relates SameTable (binary operator lhs rhs) :=
  SameTable.keptByRecords.binary operator lhs rhs

theorem sameTable_expression (expr : Expr) : Relates SameTable (expression expr) :=
  SameTable.keptByRecords.expression expr

theorem sameTable_callArguments (noted : Bool) (number : Nat) (arguments : List Expr) :
    Relates SameTable (callArguments noted number arguments) :=
  SameTable.keptByRecords.callArguments noted number arguments

theorem sameTable_condition (construct : Construct) (value : Expr) :
    Relates SameTable (condition construct value) :=
  SameTable.keptByRecords.condition construct value

end Check

/-! ## Statements -/

namespace SymbolTable

variable {table : SymbolTable}

/-- Under lexical scoping the scopes around the innermost one are the same. -/
structure KeepsOuter (before after : SymbolTable) : Prop where
  scoping : after.scoping = before.scoping
  outer : before.scoping = .lexical → after.searchedScopes.tail = before.searchedScopes.tail

namespace KeepsOuter

theorem trans {first second third : SymbolTable} (here : KeepsOuter first second)
    (there : KeepsOuter second third) : KeepsOuter first third :=
  ⟨there.scoping.trans here.scoping, fun lexical =>
    (there.outer (here.scoping.trans lexical)).trans (here.outer lexical)⟩

end KeepsOuter

@[simp]
theorem searchedScopes_openScope (lexical : table.scoping = .lexical) (name : String) :
    (table.openScope name).searchedScopes = { name := name } :: table.searchedScopes := by
  simp [searchedScopes, openScope, lexical]

/-- Leaving the innermost scope takes it away, unless it is the global one. -/
theorem searchedScopes_closeScope (lexical : table.scoping = .lexical)
    (inside : table.searchedScopes.tail ≠ []) :
    table.closeScope.searchedScopes = table.searchedScopes.tail := by
  simp only [searchedScopes, lexical, closeScope] at inside ⊢
  cases inner : table.innerScopes with
  | nil => simp [inner] at inside
  | cons => rfl

theorem searchedScopes_ne_nil (table : SymbolTable) : table.searchedScopes ≠ [] := by
  unfold searchedScopes
  split <;> simp

/-- Under lexical scoping the innermost scope receives declarations. -/
theorem searchedScopes_mapReceivingScope (table : SymbolTable)
    (lexical : table.scoping = .lexical) (change : Scope → Scope) :
    ∃ scope outer, table.searchedScopes = scope :: outer ∧
      (table.mapReceivingScope change).searchedScopes = change scope :: outer := by
  simp only [searchedScopes, mapReceivingScope, lexical]
  cases inner : table.innerScopes with
  | nil => exact ⟨table.globalScope, [], rfl, rfl⟩
  | cons scope outer => exact ⟨scope, outer ++ [table.globalScope], rfl, rfl⟩

theorem mapReceivingScope_scoping (table : SymbolTable) (change : Scope → Scope) :
    (table.mapReceivingScope change).scoping = table.scoping := by
  unfold mapReceivingScope
  split <;> rfl

theorem declare_scoping (table : SymbolTable) (name : String) (type : ValueType)
    (kind : SymbolKind) : (table.declare name type kind).2.scoping = table.scoping := by
  unfold declare
  dsimp only
  split
  · rfl
  · exact mapReceivingScope_scoping _ _

/-- Under lexical scoping a declaration binds no other name than its own, and
in no other scope than the innermost one. -/
theorem searchedScopes_declare (lexical : table.scoping = .lexical) (name : String)
    (type : ValueType) (kind : SymbolKind) :
    ∃ scope changed outer, table.searchedScopes = scope :: outer ∧
      (table.declare name type kind).2.searchedScopes = changed :: outer ∧
      ∀ other, other ≠ name → changed.find? other = scope.find? other := by
  unfold declare
  dsimp only
  split
  · obtain ⟨scope, outer, scopes⟩ := exists_cons_of_ne_nil table.searchedScopes_ne_nil
    exact ⟨scope, scope, outer, scopes, scopes, fun _ _ => rfl⟩
  · obtain ⟨scope, outer, before, after⟩ := searchedScopes_mapReceivingScope
      { table with symbols := table.symbols ++
        [{ name := name, type := type, kind := kind, scope := table.innermostScope.name }] }
      lexical (fun scope => scope.bind name table.symbols.length)
    refine ⟨scope, _, outer, before, after, fun other different => ?_⟩
    simp only [Scope.find?, Scope.bind, lookup_cons, beq_false_of_ne different]

theorem keepsOuter_declare (table : SymbolTable) (name : String) (type : ValueType)
    (kind : SymbolKind) : KeepsOuter table (table.declare name type kind).2 := by
  refine ⟨table.declare_scoping name type kind, fun lexical => ?_⟩
  obtain ⟨_, _, _, before, after, _⟩ := searchedScopes_declare lexical name type kind
  rw [before, after]
  rfl

end SymbolTable

/-- No error has been taken back, and under lexical scoping the scopes around
the innermost one are the same. -/
structure Findings.KeepsOuter (before after : Findings) : Prop where
  errors : before.errors <+: after.errors
  table : before.table.KeepsOuter after.table

/-- No error has been taken back, and under lexical scoping all scopes are the
same. -/
structure Findings.SameScopes (before after : Findings) : Prop where
  errors : before.errors <+: after.errors
  scoping : after.table.scoping = before.table.scoping
  scopes : before.table.scoping = .lexical →
    after.table.searchedScopes = before.table.searchedScopes

namespace Findings

variable {before after : Findings}

theorem SameTable.sameScopes (same : SameTable before after) : SameScopes before after :=
  ⟨same.errors, by rw [same.table], fun _ => by rw [same.table]⟩

theorem SameScopes.trans {first second third : Findings} (here : SameScopes first second)
    (there : SameScopes second third) : SameScopes first third :=
  ⟨here.errors.trans there.errors, there.scoping.trans here.scoping, fun lexical =>
    (there.scopes (here.scoping.trans lexical)).trans (here.scopes lexical)⟩

theorem SameScopes.keptByRecords : KeptByRecords SameScopes where
  refl findings := (SameTable.refl findings).sameScopes
  trans := SameScopes.trans
  report error findings := (SameTable.keptByRecords.report error findings).sameScopes
  warn warning findings := (SameTable.keptByRecords.warn warning findings).sameScopes
  note remark findings := (SameTable.keptByRecords.note remark findings).sameScopes

theorem SameScopes.keepsOuter (same : SameScopes before after) : KeepsOuter before after :=
  ⟨same.errors, same.scoping, fun lexical => by rw [same.scopes lexical]⟩

theorem KeepsOuter.trans {first second third : Findings} (here : KeepsOuter first second)
    (there : KeepsOuter second third) : KeepsOuter first third :=
  ⟨here.errors.trans there.errors, here.table.trans there.table⟩

end Findings

namespace Check

open Findings (SameTable SameScopes KeepsOuter)

variable {inside : Check Unit} {α β : Type} {first : Check α} {next : α → Check β}

theorem keepsOuter_declare (name : String) (type : ValueType) (kind : SymbolKind)
    (initialized : Bool) : Relates KeepsOuter (declare name type kind initialized) := by
  intro findings
  refine ⟨prefix_refl findings.errors, ?_⟩
  have declared := findings.table.keepsOuter_declare name type kind
  simp only [declare, update, run_modify]
  split
  · exact declared.trans ⟨rfl, fun _ => rfl⟩
  · exact declared

theorem sameScopes_initializeName (name : String) :
    Relates SameScopes (update (·.initializeName name)) := by
  intro findings
  have unchanged : (findings.table.initializeName name).scoping = findings.table.scoping ∧
      (findings.table.initializeName name).searchedScopes = findings.table.searchedScopes := by
    unfold SymbolTable.initializeName
    split <;> exact ⟨rfl, rfl⟩
  exact ⟨prefix_refl findings.errors, unchanged.1, fun _ => unchanged.2⟩

/-- What is checked inside a scope of its own leaves the scopes as they
were. -/
theorem sameScopes_scoped {opening : SymbolTable → SymbolTable}
    (scoping : ∀ table, (opening table).scoping = table.scoping)
    (opens : ∀ table, table.scoping = .lexical →
      ∃ scope, (opening table).searchedScopes = scope :: table.searchedScopes)
    (keeps : Relates KeepsOuter inside) :
    Relates SameScopes (do update opening; inside; update (·.closeScope)) := by
  intro findings
  have inner := keeps { findings with table := opening findings.table }
  have innerScoping := inner.table.scoping.trans (scoping findings.table)
  refine ⟨inner.errors, innerScoping, fun lexical => ?_⟩
  obtain ⟨_, opened⟩ := opens findings.table lexical
  have outer := inner.table.outer ((scoping findings.table).trans lexical)
  simp only [opened, tail_cons] at outer
  have closed := SymbolTable.searchedScopes_closeScope (innerScoping.trans lexical)
    fun empty => findings.table.searchedScopes_ne_nil (outer.symm.trans empty)
  exact closed.trans outer

theorem sameScopes_openBlock (keeps : Relates KeepsOuter inside) :
    Relates SameScopes (do update (·.openBlock); inside; update (·.closeScope)) :=
  sameScopes_scoped (fun _ => rfl) (fun table lexical =>
    ⟨{ name := _ }, by simp [SymbolTable.openBlock, SymbolTable.searchedScopes,
      SymbolTable.openScope, lexical]; rfl⟩) keeps

theorem sameScopes_openFunction (name : String) (keeps : Relates KeepsOuter inside) :
    Relates SameScopes (do update (·.openFunction name); inside; update (·.closeScope)) :=
  sameScopes_scoped (fun _ => rfl)
    (fun _ lexical => ⟨_, SymbolTable.searchedScopes_openScope lexical _⟩) keeps

theorem sameScopes_bind (firstSame : Relates SameScopes first)
    (nextSame : ∀ value, Relates SameScopes (next value)) : Relates SameScopes (first >>= next) :=
  fun findings => (firstSame findings).trans (nextSame _ _)

theorem sameScopes_of_sameTable {computation : Check α} (same : Relates SameTable computation) :
    Relates SameScopes computation :=
  fun findings => (same findings).sameScopes

theorem sameScopes_assignment (name : String) (value : Expr) :
    Relates SameScopes (assignment name value) :=
  SameScopes.keptByRecords.assignment (sameScopes_initializeName name) value

theorem keepsOuter_bind (firstKeeps : Relates KeepsOuter first)
    (nextKeeps : ∀ value, Relates KeepsOuter (next value)) : Relates KeepsOuter (first >>= next) :=
  fun findings => (firstKeeps findings).trans (nextKeeps _ _)

theorem keepsOuter_declareParameters (parameters : List String) :
    Relates KeepsOuter (declareParameters parameters) := by
  induction parameters with
  | nil => exact fun findings => (SameTable.refl findings).sameScopes.keepsOuter
  | cons name rest ih => exact fun findings => (keepsOuter_declare _ _ _ _ findings).trans (ih _)

theorem sameScopes_inBlock (keeps : Relates KeepsOuter inside) :
    Relates SameScopes (inBlock inside) :=
  sameScopes_openBlock keeps

theorem keepsOuter_inBlock (keeps : Relates KeepsOuter inside) :
    Relates KeepsOuter (inBlock inside) :=
  fun findings => (sameScopes_inBlock keeps findings).keepsOuter

/-- Every step of checking leaves the scopes around the innermost one as they are. -/
theorem keptBySteps_keepsOuter : Findings.KeptBySteps KeepsOuter where
  refl findings := (SameTable.refl findings).sameScopes.keepsOuter
  trans := KeepsOuter.trans
  report error findings := (sameTable_report error findings).sameScopes.keepsOuter
  warn warning findings := (SameTable.keptByRecords.warn warning findings).sameScopes.keepsOuter
  note remark findings := (sameTable_note remark findings).sameScopes.keepsOuter
  declare _ type kind initialized := keepsOuter_declare _ type kind initialized _
  initializeName name findings := (sameScopes_initializeName name findings).keepsOuter
  inBlock := keepsOuter_inBlock
  inFunction name parameters _ inside findings :=
    have keeps := keepsOuter_bind (keepsOuter_declareParameters parameters) fun _ => inside
    (sameScopes_openFunction name keeps findings).keepsOuter

theorem keepsOuter_statements (phrases : List Statement) :
    Relates KeepsOuter (statements phrases) :=
  keptBySteps_keepsOuter.statements phrases

end Check

end BanglaScript
