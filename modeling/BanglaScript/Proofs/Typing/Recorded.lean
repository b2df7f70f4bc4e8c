import BanglaScript.Proofs.Lowering.Scopes
import BanglaScript.Proofs.Typing.Faults

/-!
# What checking records

A program without functions that is valid under lexical scoping has one symbol
for every declaration, in the order of the text.  Checking a statement appends
the symbols of the declarations in it, and keeps the names and the types of the
symbols that are there.
-/

namespace BanglaScript

open List

/-- A statement of a program without functions in which variables are declared
together with their values. -/
def Statement.isInitialized : Statement → Bool
  | .declaration _ initial => initial.isSome
  | .function _ _ _ => false
  | _ => true

/-- A program without functions and calls in which every variable is declared
together with its value. -/
def Program.isInitialized (program : Program) : Bool :=
  Statement.allIn Statement.isInitialized Expr.isBasic program.body

/-! ## Tables -/

namespace SymbolTable

/-- The names and the types of the symbols. -/
def recorded (table : SymbolTable) : List (String × ValueType) :=
  table.symbols.map fun symbol => (symbol.name, symbol.type)

/-- The numbers of the symbols that can be looked up. -/
def visible (table : SymbolTable) : Scopes Nat := table.searchedScopes.map Scope.bindings

section

variable (table : SymbolTable)

include table

theorem resolve?_eq_find?_visible (name : String) :
    table.resolve? name = table.visible.find? name := by
  rw [visible, Scopes.find?, findSome?_map]
  rfl

theorem length_recorded : table.recorded.length = table.symbols.length :=
  length_map _

theorem recorded_initializeAt (index : Nat) :
    (table.initializeAt index).recorded = table.recorded := by
  apply ext_getElem?
  intro place
  simp only [recorded, initializeAt, getElem?_map, getElem?_modify]
  split
  · cases table.symbols[place]? <;> rfl
  · simp

theorem recorded_initializeName (name : String) :
    (table.initializeName name).recorded = table.recorded := by
  unfold initializeName
  split
  · rfl
  · exact recorded_initializeAt table _

theorem recorded_mapReceivingScope (change : Scope → Scope) :
    (table.mapReceivingScope change).recorded = table.recorded := by
  unfold mapReceivingScope
  split <;> rfl

end

/-- Under lexical scoping, every number that can be looked up is the number of
a symbol. -/
structure IsScoped (table : SymbolTable) : Prop where
  lexical : table.scoping = .lexical
  inRange : ∀ entry ∈ table.visible.flatten, entry.2 < table.recorded.length

namespace IsScoped

variable {table : SymbolTable}

theorem empty : (SymbolTable.empty .lexical).IsScoped :=
  ⟨rfl, forall_mem_nil _⟩

variable (isScoped : table.IsScoped)

include isScoped

/-- Symbols may be added as long as the scopes stay. -/
theorem of_searchedScopes {other : SymbolTable} (scoping : other.scoping = table.scoping)
    (scopes : other.searchedScopes = table.searchedScopes)
    (kept : table.recorded <+: other.recorded) : other.IsScoped := by
  refine ⟨scoping.trans isScoped.lexical, fun entry member => ?_⟩
  rw [visible, scopes] at member
  exact Nat.lt_of_lt_of_le (isScoped.inRange entry member) kept.length_le

theorem visible_openBlock : table.openBlock.visible = [] :: table.visible := by
  have counted : ({ table with blockCount := table.blockCount + 1 } : SymbolTable).scoping =
      .lexical := isScoped.lexical
  rw [visible, openBlock, searchedScopes_openScope counted]
  rfl

theorem openBlock : table.openBlock.IsScoped := by
  refine ⟨isScoped.lexical, fun entry member => ?_⟩
  rw [isScoped.visible_openBlock] at member
  exact isScoped.inRange entry member

/-- A name without a conflict is not bound in the scope that receives it. -/
theorem find?_receivingScope {name : String}
    (free : table.conflict? name = none) : table.receivingScope.find? name = none := by
  cases found : table.receivingScope.find? name with
  | none => rfl
  | some index =>
    have received : table.receivingScope ∈ table.searchedScopes := by
      simp only [receivingScope, searchedScopes, isScoped.lexical, innermostScope]
      cases table.innerScopes <;> simp
    obtain ⟨_, _, bindings, _⟩ := lookup_eq_some_iff.mp found
    have bound : (name, index) ∈ table.receivingScope.bindings := by
      rw [bindings]
      simp
    have inRange := isScoped.inRange (name, index)
      (mem_flatten.mpr ⟨_, mem_map_of_mem received, bound⟩)
    rw [length_recorded] at inRange
    simp [conflict?, found, get?, inRange] at free

/-- A new name gets the next number. -/
theorem declare_of_free {name : String}
    (free : table.conflict? name = none) (type : ValueType) (kind : SymbolKind) :
    (table.declare name type kind).2.recorded = table.recorded ++ [(name, type)] ∧
      (table.declare name type kind).2.visible =
        table.visible.bind name table.recorded.length := by
  let symbol : Symbol :=
    { name := name, type := type, kind := kind, scope := table.innermostScope.name }
  let extended : SymbolTable := { table with symbols := table.symbols ++ [symbol] }
  have declared : (table.declare name type kind).2 =
      extended.mapReceivingScope fun scope => scope.bind name table.symbols.length := by
    simp only [declare, isScoped.find?_receivingScope free]
    rfl
  obtain ⟨scope, outer, before, behind⟩ := searchedScopes_mapReceivingScope extended
    isScoped.lexical (fun scope => scope.bind name table.symbols.length)
  rw [declared]
  constructor
  · rw [recorded_mapReceivingScope]
    simp [recorded, extended, symbol]
  · have scopes : table.searchedScopes = scope :: outer := before
    rw [visible, visible, behind, scopes, length_recorded]
    rfl

end IsScoped

/-- A number of symbols has been added. -/
structure Grows (count : Nat) (before after : SymbolTable) : Prop where
  kept : before.recorded <+: after.recorded
  length : after.recorded.length = before.recorded.length + count

namespace Grows

theorem of_recorded {before after : SymbolTable} (same : after.recorded = before.recorded) :
    Grows 0 before after :=
  ⟨same ▸ prefix_refl _, congrArg List.length same⟩

theorem trans {first second third : SymbolTable} {here there : Nat}
    (firstGrows : Grows here first second) (secondGrows : Grows there second third) :
    Grows (here + there) first third := by
  refine ⟨firstGrows.kept.trans secondGrows.kept, ?_⟩
  rw [secondGrows.length, firstGrows.length, Nat.add_assoc]

theorem zero_trans {first second third : SymbolTable} {count : Nat}
    (firstGrows : Grows 0 first second) (secondGrows : Grows count second third) :
    Grows count first third :=
  Nat.zero_add count ▸ firstGrows.trans secondGrows

end Grows

end SymbolTable

/-! ## Checking statements -/

namespace Check

open StateRun Findings SymbolTable

variable {name : String} {value : Expr} {findings : Findings}

section

variable (isScoped : findings.table.IsScoped)
  (valid : ((statement (.declaration name (some value))).run findings).2.errors = [])

include isScoped valid

/-- A valid declaration records its name and the type of its value. -/
theorem declaration_of_valid : ((expression value).run findings).2.errors = [] ∧
      ((statement (.declaration name (some value))).run findings).2.table.recorded =
        findings.table.recorded ++ [(name, ((expression value).run findings).1)] ∧
      ((statement (.declaration name (some value))).run findings).2.table.visible =
        findings.table.visible.bind name findings.table.recorded.length := by
  obtain ⟨free, valueValid, declared⟩ := table_of_declaration valid
  obtain ⟨recorded, visible⟩ := isScoped.declare_of_free free
    ((expression value).run findings).1 .variable
  rw [declared, ← recorded, ← visible]
  exact ⟨valueValid, recorded_initializeAt _ _, rfl⟩

theorem grows_declaration : Grows 1 findings.table
        ((statement (.declaration name (some value))).run findings).2.table ∧
      ((statement (.declaration name (some value))).run findings).2.table.IsScoped := by
  obtain ⟨_, recorded, visible⟩ := declaration_of_valid isScoped valid
  have kept := keptBySteps_keepsOuter.declaration name (some value) findings
  refine ⟨⟨?_, ?_⟩, kept.table.scoping.trans isScoped.lexical, fun entry member => ?_⟩
  · exact recorded ▸ prefix_append _ _
  · rw [recorded, length_append]
    rfl
  · rw [visible] at member
    rw [recorded, length_append]
    rcases Scopes.mem_flatten_bind member with rfl | before
    · exact Nat.lt_succ_self _
    · exact Nat.lt_succ_of_lt (isScoped.inRange entry before)

end

theorem grows_sameTable {α : Type} {computation : Check α} (same : Relates SameTable computation)
    (isScoped : findings.table.IsScoped) :
    Grows 0 findings.table (computation.run findings).2.table ∧
      (computation.run findings).2.table.IsScoped := by
  rw [(same findings).table]
  exact ⟨.of_recorded rfl, isScoped⟩

theorem grows_assignment (name : String) (value : Expr) (isScoped : findings.table.IsScoped) :
    Grows 0 findings.table ((assignment name value).run findings).2.table ∧
      ((assignment name value).run findings).2.table.IsScoped := by
  have same := sameScopes_assignment name value findings
  have recorded : ((assignment name value).run findings).2.table.recorded =
      findings.table.recorded := by
    have table := (sameTable_expression value findings).table
    simp only [assignment, run_bind, ask, run_get, run_pure]
    rw [table]
    cases findings.table.lookup? name with
    | none => exact congrArg SymbolTable.recorded table
    | some =>
      dsimp only
      split
      · simp only [update, note, run_bind, run_modify, table]
        exact recorded_initializeName _ name
      · exact congrArg SymbolTable.recorded table
  have grows := Grows.of_recorded recorded
  exact ⟨grows, isScoped.of_searchedScopes same.scoping (same.scopes isScoped.lexical) grows.kept⟩

/-- Statements in a block add what they add by themselves. -/
theorem grows_inBlock {body : List Statement} {count : Nat} (isScoped : findings.table.IsScoped)
    (grows : ∀ {inner : Findings}, inner.table.IsScoped →
      ((statements body).run inner).2.errors = [] →
      Grows count inner.table ((statements body).run inner).2.table ∧
        ((statements body).run inner).2.table.IsScoped)
    (valid : ((inBlock (statements body)).run findings).2.errors = []) :
    Grows count findings.table ((inBlock (statements body)).run findings).2.table ∧
      ((inBlock (statements body)).run findings).2.table.IsScoped := by
  let inner : Findings := { findings with table := findings.table.openBlock }
  have innerScoped : inner.table.IsScoped := isScoped.openBlock
  obtain ⟨⟨kept, length⟩, _⟩ := grows innerScoped valid
  have same := sameScopes_inBlock (keepsOuter_statements body) findings
  exact ⟨⟨kept, length⟩,
    isScoped.of_searchedScopes same.scoping (same.scopes isScoped.lexical) kept⟩

mutual

/-- A valid statement adds one symbol for every declaration in it. -/
theorem grows_statement (phrase : Statement)
    (initialized : phrase.all Statement.isInitialized Expr.isBasic) {findings : Findings}
    (isScoped : findings.table.IsScoped)
    (valid : ((statement phrase).run findings).2.errors = []) :
    Grows phrase.declarationCount findings.table ((statement phrase).run findings).2.table ∧
      ((statement phrase).run findings).2.table.IsScoped := by
  cases phrase with (try simp only [Statement.all, Bool.and_eq_true] at initialized)
  | declaration name initial =>
    cases initial with
    | none => cases initialized.1
    | some => exact grows_declaration isScoped valid
  | assignment name value => exact grows_assignment name value isScoped
  | ifThen test body =>
    obtain ⟨testGrows, tested⟩ := grows_sameTable (sameTable_condition .conditional test) isScoped
    obtain ⟨bodyGrows, behind⟩ :=
      grows_inBlock tested (grows_statements body initialized.2) valid
    exact ⟨testGrows.zero_trans bodyGrows, behind⟩
  | ifElse test body alternative =>
    obtain ⟨testGrows, tested⟩ := grows_sameTable (sameTable_condition .conditional test) isScoped
    obtain ⟨bodyGrows, between⟩ :=
      grows_inBlock tested (grows_statements body initialized.1.2) (inBlock_errors valid)
    obtain ⟨elseGrows, behind⟩ :=
      grows_inBlock between (grows_statements alternative initialized.2) valid
    exact ⟨testGrows.zero_trans (bodyGrows.trans elseGrows), behind⟩
  | repeatWhile test body =>
    obtain ⟨testGrows, tested⟩ := grows_sameTable (sameTable_condition .loop test) isScoped
    obtain ⟨bodyGrows, behind⟩ :=
      grows_inBlock tested (grows_statements body initialized.2) valid
    exact ⟨testGrows.zero_trans bodyGrows, behind⟩
  | block body =>
    exact grows_inBlock isScoped (grows_statements body initialized.2) valid
  | function => cases initialized.1
  | giveBack value =>
    cases value with
    | none => exact grows_sameTable (sameTable_note _) isScoped
    | some value =>
      exact grows_sameTable
        (sameTable_bind (sameTable_expression value) fun _ => sameTable_note _) isScoped
  | print value =>
    exact grows_sameTable
      (sameTable_bind (sameTable_expression value) fun _ => sameTable_note _) isScoped
  | expression value =>
    exact grows_sameTable
      (sameTable_bind (sameTable_expression value) fun _ => sameTable_pure _) isScoped

/-- The same for statements one after the other. -/
theorem grows_statements (phrases : List Statement)
    (initialized : Statement.allIn Statement.isInitialized Expr.isBasic phrases)
    {findings : Findings} (isScoped : findings.table.IsScoped)
    (valid : ((statements phrases).run findings).2.errors = []) :
    Grows (Statement.declarationCountIn phrases) findings.table
        ((statements phrases).run findings).2.table ∧
      ((statements phrases).run findings).2.table.IsScoped := by
  cases phrases with
  | nil => exact grows_sameTable (sameTable_pure _) isScoped
  | cons first rest =>
    simp only [Statement.allIn, Bool.and_eq_true] at initialized
    have firstValid := errors_eq_nil (keepsOuter_statements rest _).errors valid
    obtain ⟨firstGrows, between⟩ := grows_statement first initialized.1 isScoped firstValid
    obtain ⟨restGrows, behind⟩ := grows_statements rest initialized.2 between valid
    exact ⟨firstGrows.trans restGrows, behind⟩

end

end Check

end BanglaScript
