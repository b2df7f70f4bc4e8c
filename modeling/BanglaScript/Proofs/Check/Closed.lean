import BanglaScript.Proofs.Check.Scoped
import BanglaScript.Proofs.Evaluation

/-!
# Names of valid programs

In a program that is valid under lexical scoping every name that is read or
assigned has been declared before, in a block that is still open.
-/

namespace BanglaScript

open List

/-- The expression reads only the given names and the truth values. -/
def Expr.isClosedIn (names : List String) (expr : Expr) : Bool :=
  expr.all fun part =>
    match part with
    | .identifier name => name ∈ names ∨ name = "true" ∨ name = "false"
    | _ => true

/-- The names that a statement leaves behind for the statements after it. -/
def Statement.declared : Statement → List String
  | .declaration name _ => [name]
  | .function name _ _ => [name]
  | _ => []

mutual

/-- The statement reads and assigns only the given names and those that it
declares before. -/
def Statement.IsClosedIn (names : List String) : Statement → Prop
  | .declaration _ initial => ∀ value ∈ initial, Expr.isClosedIn names value
  | .assignment name value => value.isClosedIn names ∧ name ∈ names
  | .ifThen condition body => condition.isClosedIn names ∧ Statement.AreClosedIn names body
  | .ifElse condition body alternative =>
    condition.isClosedIn names ∧ Statement.AreClosedIn names body ∧
      Statement.AreClosedIn names alternative
  | .repeatWhile condition body => condition.isClosedIn names ∧ Statement.AreClosedIn names body
  | .block body => Statement.AreClosedIn names body
  | .function name parameters body => Statement.AreClosedIn (parameters ++ name :: names) body
  | .giveBack result => ∀ value ∈ result, Expr.isClosedIn names value
  | .print value => value.isClosedIn names
  | .expression value => value.isClosedIn names

/-- The same for statements one after the other. -/
def Statement.AreClosedIn (names : List String) : List Statement → Prop
  | [] => True
  | first :: rest =>
    first.IsClosedIn names ∧ Statement.AreClosedIn (first.declared ++ names) rest

end

namespace SymbolTable

/-- A name that is read can be looked up or is a truth value, and what is called is a
function. -/
def knows (table : SymbolTable) : Expr → Bool
  | .identifier name => (table.lookup? name).isSome ∨ name = "true" ∨ name = "false"
  | .call name _ => (table.lookup? name).any (·.kind = .function)
  | _ => true

/-- Under lexical scoping, only the given names can be looked up. -/
structure ResolvesIn (table : SymbolTable) (names : List String) : Prop where
  lexical : table.scoping = .lexical
  mem : ∀ name, (table.resolve? name).isSome → name ∈ names

namespace ResolvesIn

variable {table : SymbolTable} {names : List String}

theorem empty : ResolvesIn (SymbolTable.empty .lexical) [] :=
  ⟨rfl, fun _ found => by cases found⟩

variable (resolves : table.ResolvesIn names)

include resolves

theorem of_searchedScopes {other : SymbolTable} (scoping : other.scoping = table.scoping)
    (scopes : other.searchedScopes = table.searchedScopes) : other.ResolvesIn names :=
  ⟨scoping.trans resolves.lexical, fun name found =>
    resolves.mem name (by rwa [resolve?, ← scopes])⟩

theorem mono {more : List String} (subset : names ⊆ more) : table.ResolvesIn more :=
  ⟨resolves.lexical, fun name found => subset (resolves.mem name found)⟩

theorem openScope (scopeName : String) : (table.openScope scopeName).ResolvesIn names := by
  refine ⟨resolves.lexical, fun name found => resolves.mem name ?_⟩
  rw [resolve?, searchedScopes_openScope resolves.lexical] at found
  exact found

theorem openBlock : table.openBlock.ResolvesIn names := by
  have counted : ResolvesIn { table with blockCount := table.blockCount + 1 } names :=
    resolves.of_searchedScopes rfl rfl
  exact counted.openScope _

theorem declare (name : String) (type : ValueType)
    (kind : SymbolKind) : (table.declare name type kind).2.ResolvesIn (name :: names) := by
  refine ⟨(table.declare_scoping name type kind).trans resolves.lexical, fun other found => ?_⟩
  obtain ⟨_, _, _, before, after, unchanged⟩ :=
    searchedScopes_declare resolves.lexical name type kind
  by_cases same : other = name
  · exact same ▸ mem_cons_self
  · refine mem_cons_of_mem name (resolves.mem other ?_)
    rw [resolve?, after, findSome?_cons, unchanged other same] at found
    rw [resolve?, before, findSome?_cons]
    exact found

end ResolvesIn

end SymbolTable

namespace Check

open StateRun Findings

variable {α : Type} {findings : Findings} {names : List String} {name : String}
  {construct : Construct}

/-- Nothing was an error before if nothing is one now. -/
theorem errors_eq_nil {before after : Findings} (errors : before.errors <+: after.errors)
    (valid : after.errors = []) : before.errors = [] :=
  prefix_nil.mp (valid ▸ errors)

theorem errors_report (error : CheckError) (findings : Findings) :
    ((report error).run findings).2.errors ≠ [] := by
  intro valid
  exact cons_ne_nil _ _ (append_eq_nil_iff.mp valid).2

/-- A function without errors has a new name. -/
theorem free_of_function {parameters : List String} {body : List Statement}
    (valid : ((statement (.function name parameters body)).run findings).2.errors = []) :
    findings.table.conflict? name = none := by
  cases conflict : findings.table.conflict? name with
  | none => rfl
  | some =>
    rw [run_function_of_conflict conflict] at valid
    exact absurd valid (errors_report _ _)

theorem resolvesIn_sameTable {computation : Check α} (same : Relates SameTable computation)
    (resolves : findings.table.ResolvesIn names) :
    (computation.run findings).2.table.ResolvesIn names := by
  rw [(same findings).table]
  exact resolves

theorem resolvesIn_sameScopes {computation : Check α} (same : Relates SameScopes computation)
    (resolves : findings.table.ResolvesIn names) :
    (computation.run findings).2.table.ResolvesIn names :=
  resolves.of_searchedScopes (same findings).scoping ((same findings).scopes resolves.lexical)

theorem resolvesIn_declare (resolves : findings.table.ResolvesIn names) (name : String)
    (type : ValueType) (kind : SymbolKind) (initialized : Bool) :
    ((declare name type kind initialized).run findings).2.table.ResolvesIn (name :: names) := by
  have declared := resolves.declare name type kind
  simp only [declare, update, run_modify]
  split
  · exact declared.of_searchedScopes rfl rfl
  · exact declared

theorem resolvesIn_declareParameters (findings : Findings)
    (resolves : findings.table.ResolvesIn names) (parameters : List String) :
    ((declareParameters parameters).run findings).2.table.ResolvesIn (parameters ++ names) := by
  induction parameters generalizing findings names with
  | nil => exact resolves
  | cons name rest ih =>
    refine (ih _ (resolvesIn_declare resolves name .any .parameter true)).mono
      fun other member => ?_
    simp only [mem_append, mem_cons, cons_append] at member ⊢
    rcases member with inRest | same | outside
    · exact .inr (.inl inRest)
    · exact .inl same
    · exact .inr (.inr outside)

theorem mem_of_lookup? {table : SymbolTable} {symbol : Symbol} (resolves : table.ResolvesIn names)
    (found : table.lookup? name = some symbol) : name ∈ names := by
  obtain ⟨_, resolved, _⟩ := Option.bind_eq_some_iff.mp found
  exact resolves.mem name (by rw [resolved]; rfl)

/-! ## Expressions -/

/-- The names of the truth values need no declaration, all others do. -/
theorem isTruth_of_identifier (missing : findings.table.lookup? name = none)
    (valid : ((identifier name).run findings).2.errors = []) : name = "true" ∨ name = "false" := by
  apply Classical.byContradiction
  intro other
  refine errors_report (.undefinedVariable name) findings ?_
  simpa [identifier, run_bind, ask, run_get, run_pure, missing, other] using valid

/-- Whether an argument is noted or not, the next one is checked in the same table. -/
theorem exists_run_callArguments (noted : Bool) (number : Nat) (first : Expr) (rest : List Expr)
    (findings : Findings) : ∃ later,
      later.errors = ((expression first).run findings).2.errors ∧
      later.table = findings.table ∧
      (callArguments noted number (first :: rest)).run findings =
        (callArguments noted (number + 1) rest).run later := by
  have table := (sameTable_expression first findings).table
  cases noted with
  | false => exact ⟨((expression first).run findings).2, rfl, table, rfl⟩
  | true =>
    let argument := CheckNote.argument number ((expression first).run findings).1
    exact ⟨((note argument).run ((expression first).run findings).2).2, rfl, table, rfl⟩

/-- A call without errors is a call of a function, and its arguments are without
errors. -/
theorem isFunction_of_call {arguments : List Expr}
    (valid : ((expression (.call name arguments)).run findings).2.errors = []) :
    (∃ symbol, findings.table.lookup? name = some symbol ∧ symbol.kind = .function) ∧
      ∃ noted, ((callArguments noted 1 arguments).run findings).2.errors = [] := by
  simp only [expression, run_bind] at valid
  split at valid
  · exact absurd (errors_eq_nil (sameTable_callArguments _ 1 arguments _).errors valid)
      (errors_report _ _)
  · rename_i isFunction
    refine ⟨?_, _, valid⟩
    simp only [ask, run_bind, run_get, run_pure, Decidable.not_not] at isFunction
    cases found : findings.table.lookup? name with
    | none =>
      rw [found] at isFunction
      cases isFunction
    | some symbol =>
      rw [found] at isFunction
      exact ⟨symbol, rfl, of_decide_eq_true isFunction⟩

mutual

/-- The names of an expression without errors are known. -/
theorem knows_of_expression (expr : Expr) {findings : Findings}
    (valid : ((expression expr).run findings).2.errors = []) : expr.all findings.table.knows := by
  cases expr with
  | literal => rfl
  | identifier name =>
    refine decide_eq_true ?_
    cases found : findings.table.lookup? name with
    | some => exact .inl rfl
    | none => exact .inr (isTruth_of_identifier found valid)
  | binary operator lhs rhs =>
    have rhsValid := errors_eq_nil (sameTable_binary operator _ _ _).errors valid
    have lhsValid := errors_eq_nil (sameTable_expression rhs _).errors rhsValid
    have rhsKnown : rhs.all findings.table.knows := by
      rw [← (sameTable_expression lhs findings).table]
      exact knows_of_expression rhs rhsValid
    simp [Expr.all, SymbolTable.knows, knows_of_expression lhs lhsValid, rhsKnown]
  | call name arguments =>
    obtain ⟨⟨_, found, function⟩, noted, argumentsValid⟩ := isFunction_of_call valid
    have argumentsKnown := knows_of_callArguments arguments noted 1 argumentsValid
    simp [Expr.all, SymbolTable.knows, found, function, argumentsKnown]

theorem knows_of_callArguments (arguments : List Expr) (noted : Bool) (number : Nat)
    {findings : Findings}
    (valid : ((callArguments noted number arguments).run findings).2.errors = []) :
    Expr.allIn findings.table.knows arguments := by
  cases arguments with
  | nil => rfl
  | cons first rest =>
    obtain ⟨later, errors, table, same⟩ :=
      exists_run_callArguments noted number first rest findings
    rw [same] at valid
    have laterValid :=
      errors_eq_nil (sameTable_callArguments noted (number + 1) rest later).errors valid
    have restKnown := knows_of_callArguments rest noted (number + 1) valid
    rw [table] at restKnown
    simp [Expr.allIn, restKnown, knows_of_expression first (errors.symm.trans laterValid)]

end

/-- An expression without errors reads only names that can be looked up. -/
theorem isClosedIn_of_expression (expr : Expr) (resolves : findings.table.ResolvesIn names)
    (valid : ((expression expr).run findings).2.errors = []) : expr.isClosedIn names := by
  have known (_ : Unit) := knows_of_expression expr valid
  refine expr.all_of_forall (fun part partKnown => ?_) known
  cases part with
  | identifier =>
    refine decide_eq_true ((of_decide_eq_true (partKnown ())).imp_left fun found => ?_)
    obtain ⟨_, found⟩ := Option.isSome_iff_exists.mp found
    exact mem_of_lookup? resolves found
  | _ => rfl

/-! ## Statements -/

variable {value : Expr} {body : List Statement}

theorem errors_expression_of_condition
    (valid : ((condition construct value).run findings).2.errors = []) :
    ((expression value).run findings).2.errors = [] := by
  simp only [condition, run_bind] at valid
  split at valid
  · exact absurd valid (errors_report _ _)
  · exact valid

theorem isClosedIn_of_condition (resolves : findings.table.ResolvesIn names)
    (valid : ((condition construct value).run findings).2.errors = []) : value.isClosedIn names :=
  isClosedIn_of_expression value resolves (errors_expression_of_condition valid)

/-- A variable whose type is known is declared without errors only if its name is new,
and then as if nothing had been asked before. -/
theorem table_of_introduce {type : ValueType} {initialized : Bool}
    (valid : ((introduce name type initialized).run findings).2.errors = []) :
    findings.table.conflict? name = none ∧ findings.errors = [] ∧
      ((introduce name type initialized).run findings).2.table =
        ((declare name type .variable initialized).run findings).2.table := by
  simp only [introduce, run_bind, ask, run_get, run_pure] at valid ⊢
  cases conflict : findings.table.conflict? name with
  | some =>
    rw [conflict] at valid
    exact absurd valid (errors_report _ _)
  | none =>
    rw [conflict] at valid
    exact ⟨rfl, valid, rfl⟩

/-- A variable with a value is declared without errors only if its name is new and its
value has no errors. -/
theorem table_of_declaration
    (valid : ((statement (.declaration name (some value))).run findings).2.errors = []) :
    findings.table.conflict? name = none ∧ ((expression value).run findings).2.errors = [] ∧
      ((statement (.declaration name (some value))).run findings).2.table =
        ((declare name ((expression value).run findings).1 .variable true).run
          findings).2.table := by
  obtain ⟨free, valueValid, declared⟩ := table_of_introduce valid
  have table : (expression value findings).2.table = findings.table :=
    (sameTable_expression value findings).table
  rw [table] at free
  refine ⟨free, valueValid, declared.trans ?_⟩
  simp only [declare, update, run_modify, table]
  rfl

/-- An assignment without errors has a value without errors and a known target whose
type fits. -/
theorem assignment_of_valid (valid : ((assignment name value).run findings).2.errors = []) :
    ((expression value).run findings).2.errors = [] ∧
      ∃ symbol, ((expression value).run findings).2.table.lookup? name = some symbol ∧
        compatible ((expression value).run findings).1 symbol.type := by
  simp only [assignment, run_bind, ask, run_get, run_pure] at valid
  cases found : ((expression value).run findings).2.table.lookup? name with
  | none =>
    rw [found] at valid
    exact absurd valid (errors_report _ _)
  | some symbol =>
    rw [found] at valid
    dsimp only at valid
    split at valid
    · rename_i fits
      exact ⟨valid, symbol, rfl, fits⟩
    · exact absurd valid (errors_report _ _)

theorem isClosedIn_of_assignment (resolves : findings.table.ResolvesIn names)
    (valid : ((assignment name value).run findings).2.errors = []) :
    value.isClosedIn names ∧ name ∈ names := by
  have evaluated := resolvesIn_sameTable (sameTable_expression value) resolves
  obtain ⟨valueValid, _, found, _⟩ := assignment_of_valid valid
  exact ⟨isClosedIn_of_expression value resolves valueValid, mem_of_lookup? evaluated found⟩

/-- Nothing was an error before a block if nothing is one behind it. -/
theorem inBlock_errors (valid : ((inBlock (statements body)).run findings).2.errors = []) :
    findings.errors = [] :=
  errors_eq_nil (sameScopes_inBlock (keepsOuter_statements body) findings).errors valid

theorem sameScopes_inFunction (name : String) (parameters : List String) (body : List Statement) :
    Relates SameScopes (do
      update (·.openFunction name)
      declareParameters parameters
      inBlock (statements body)
      update (·.closeScope)) :=
  sameScopes_openFunction name (keepsOuter_bind (keepsOuter_declareParameters parameters)
    fun _ => keepsOuter_inBlock (keepsOuter_statements body))

/-- A statement that leaves no name behind leaves the scopes as they were. -/
theorem sameScopes_statement (phrase : Statement) (declares : phrase.declared = []) :
    Relates SameScopes (statement phrase) := by
  have inside (body : List Statement) := sameScopes_inBlock (keepsOuter_statements body)
  cases phrase with
  | declaration | function => cases declares
  | assignment name value => exact sameScopes_assignment name value
  | ifThen test body | repeatWhile test body =>
    exact sameScopes_bind (sameScopes_of_sameTable (sameTable_condition _ _)) fun _ =>
      inside body
  | ifElse test body alternative =>
    exact sameScopes_bind (sameScopes_of_sameTable (sameTable_condition _ _)) fun _ =>
      sameScopes_bind (inside body) fun _ => inside alternative
  | block body => exact inside body
  | giveBack value =>
    cases value with
    | none => exact sameScopes_of_sameTable (sameTable_note _)
    | some value =>
      exact sameScopes_of_sameTable
        (sameTable_bind (sameTable_expression value) fun _ => sameTable_note _)
  | print value =>
    exact sameScopes_of_sameTable
      (sameTable_bind (sameTable_expression value) fun _ => sameTable_note _)
  | expression value =>
    exact sameScopes_of_sameTable
      (sameTable_bind (sameTable_expression value) fun _ => sameTable_pure _)

/-- What is recorded of a function in front of its body. -/
def functionHead (name : String) (parameters : List String) : Check Unit := do
  declare name .function .function true
  note (.functionDeclared name parameters.length)

theorem resolvesIn_functionHead (name : String) (parameters : List String)
    (resolves : findings.table.ResolvesIn names) :
    ((functionHead name parameters).run findings).2.table.ResolvesIn (name :: names) :=
  resolvesIn_declare resolves name .function .function true

/-- A statement without errors leaves no other names behind than those it declares. -/
theorem resolvesIn_statement (phrase : Statement) (resolves : findings.table.ResolvesIn names)
    (valid : ((statement phrase).run findings).2.errors = []) :
    ((statement phrase).run findings).2.table.ResolvesIn (phrase.declared ++ names) := by
  cases phrase with
  | declaration name initial =>
    cases initial with
    | none =>
      obtain ⟨_, _, table⟩ := table_of_introduce valid
      exact (congrArg (SymbolTable.ResolvesIn · (name :: names)) table).mpr
        (resolvesIn_declare resolves name .any .variable _)
    | some =>
      obtain ⟨_, _, table⟩ := table_of_declaration valid
      exact table ▸ resolvesIn_declare resolves name _ .variable _
  | function name parameters body =>
    rw [run_function_of_free (free_of_function valid)]
    have behind := resolvesIn_sameScopes (sameScopes_inFunction name parameters body)
      (resolvesIn_functionHead name parameters resolves)
    exact behind
  | _ => exact resolvesIn_sameScopes (sameScopes_statement _ rfl) resolves

/-- The body of a function knows the function and its parameters. -/
theorem isClosedIn_of_function {parameters : List String}
    (closed : ∀ {findings : Findings}, findings.table.ResolvesIn (parameters ++ name :: names) →
      ((statements body).run findings).2.errors = [] →
        Statement.AreClosedIn (parameters ++ name :: names) body)
    (resolves : findings.table.ResolvesIn names)
    (valid : ((statement (.function name parameters body)).run findings).2.errors = []) :
    (Statement.function name parameters body).IsClosedIn names := by
  rw [run_function_of_free (free_of_function valid)] at valid
  let declared := ((functionHead name parameters).run findings).2
  have opened := resolvesIn_declareParameters
    { declared with table := declared.table.openFunction name }
    ((resolvesIn_functionHead name parameters resolves).openScope ("function_" ++ name)) parameters
  exact closed opened.openBlock valid

mutual

/-- A statement without errors is closed in the names that can be looked up before it. -/
theorem isClosedIn_of_statement (phrase : Statement) {findings : Findings} {names : List String}
    (resolves : findings.table.ResolvesIn names)
    (valid : ((statement phrase).run findings).2.errors = []) : phrase.IsClosedIn names := by
  have tested (construct : Construct) (test : Expr) :=
    resolvesIn_sameTable (sameTable_condition construct test) resolves
  cases phrase with
  | declaration name initial =>
    cases initial with
    | none => exact nofun
    | some value =>
      rintro _ ⟨⟩
      exact isClosedIn_of_expression value resolves (table_of_declaration valid).2.1
  | assignment => exact isClosedIn_of_assignment resolves valid
  | ifThen test body =>
    exact ⟨isClosedIn_of_condition resolves (inBlock_errors valid),
      areClosedIn_of_statements body (tested .conditional test).openBlock valid⟩
  | ifElse test body alternative =>
    have bodyValid := inBlock_errors valid
    have between := resolvesIn_sameScopes (sameScopes_inBlock (keepsOuter_statements body))
      (tested .conditional test)
    exact ⟨isClosedIn_of_condition resolves (inBlock_errors bodyValid),
      areClosedIn_of_statements body (tested .conditional test).openBlock bodyValid,
      areClosedIn_of_statements alternative between.openBlock valid⟩
  | repeatWhile test body =>
    exact ⟨isClosedIn_of_condition resolves (inBlock_errors valid),
      areClosedIn_of_statements body (tested .loop test).openBlock valid⟩
  | block body => exact areClosedIn_of_statements body resolves.openBlock valid
  | function name parameters body =>
    exact isClosedIn_of_function (areClosedIn_of_statements body) resolves valid
  | giveBack value =>
    cases value with
    | none => exact nofun
    | some value =>
      rintro _ ⟨⟩
      exact isClosedIn_of_expression value resolves valid
  | print value | expression value => exact isClosedIn_of_expression value resolves valid

/-- Statements without errors are closed in the names that can be looked up
before them. -/
theorem areClosedIn_of_statements (phrases : List Statement) {findings : Findings}
    {names : List String} (resolves : findings.table.ResolvesIn names)
    (valid : ((statements phrases).run findings).2.errors = []) :
    Statement.AreClosedIn names phrases := by
  cases phrases with
  | nil => trivial
  | cons first rest =>
    have firstValid := errors_eq_nil (keepsOuter_statements rest _).errors valid
    exact ⟨isClosedIn_of_statement first resolves firstValid,
      areClosedIn_of_statements rest (resolvesIn_statement first resolves firstValid) valid⟩

end

end Check

/-- A valid program is closed. -/
theorem areClosedIn_of_isValid {program : Program} (valid : (program.check .lexical).isValid) :
    Statement.AreClosedIn [] program.body :=
  Check.areClosedIn_of_statements program.body SymbolTable.ResolvesIn.empty
    (isEmpty_iff.mp valid)

end BanglaScript
