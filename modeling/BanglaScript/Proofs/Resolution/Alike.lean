import BanglaScript.Proofs.Resolution.Parallel

/-!
# Checking and lowering resolve names alike

Both walks go through a program that is valid under lexical scoping.  Wherever
checking looks a name up and finds a variable or a parameter, lowering resolves the
name to the one that was given to this very symbol when its declaration was lowered.
A name that checking does not find is the name of a truth value, and lowering leaves
it as it is.

The induction follows the statements and carries that the open scopes stand beside
each other.  That nothing is an error matters twice: a declaration or a function that
conflicts with another one is skipped by checking and not by lowering, and an unknown
name is reported unless it is a truth value.
-/

namespace BanglaScript

open StateRun List

/-- The mentions of both walks fit, and the scopes behind them stand beside each
other. -/
structure Matches (log : MentionLog) (checked : List CheckMention) (lowered : List LowerMention)
    (table : SymbolTable) (scopes : List (List (String × String))) : Prop where
  agree : Agree log checked lowered
  parallel : Parallel table (MentionLog.given? (log ++ checked.zip lowered)) scopes

namespace Matches

variable {log : MentionLog} {checked more : List CheckMention} {lowered others : List LowerMention}
  {table later : SymbolTable} {scopes laterScopes : List (List (String × String))}

theorem silent (parallel : Parallel table log.given? scopes) : Matches log [] [] table scopes :=
  ⟨.nil, by rwa [zip_nil_right, append_nil]⟩

theorem next (here : Matches log checked lowered table scopes)
    (behind : Matches (log ++ checked.zip lowered) more others later laterScopes) :
    Matches log (checked ++ more) (lowered ++ others) later laterScopes := by
  refine ⟨here.agree.append behind.agree, ?_⟩
  rw [here.agree.zip_append, ← append_assoc]
  exact behind.parallel

/-- Scopes that stand beside each other behind the mentions may replace the ones
that do. -/
theorem behind (here : Matches log checked lowered table scopes)
    (parallel : Parallel later (MentionLog.given? (log ++ checked.zip lowered)) laterScopes) :
    Matches log checked lowered later laterScopes :=
  ⟨here.agree, parallel⟩

theorem used {naming : Naming} {name : String}
    (parallel : Parallel table log.given? naming.scopes)
    (truth : table.lookup? name = none → name = "true" ∨ name = "false") :
    Matches log [.used name table] [.used name naming] table naming.scopes := by
  refine ⟨.cons (parallel.fits truth) .nil, ?_⟩
  rw [zip_cons_cons, zip_nil_right, MentionLog.given?_append]
  exact parallel

/-- A variable or a parameter is declared, and its name is bound in the innermost
scope. -/
theorem declared {names : List (String × String)}
    (parallel : Parallel table log.given? (names :: scopes)) (name generated : String)
    (type : ValueType) {kind : SymbolKind} (notFunction : kind ≠ .function) :
    Matches log [.declared name (table.declare name .any .variable).1]
      [.declared name generated] (table.declare name type kind).2
      (((name, generated) :: names) :: scopes) := by
  refine ⟨.cons (.declared _ _ _) .nil, ?_⟩
  rw [zip_cons_cons, zip_nil_right, MentionLog.given?_append, MentionLog.record,
    table.declare_number name .any type .variable kind]
  refine parallel.declare type (fun _ different => Function.update_of_ne different _ _) ?_ ?_ ?_
  · rw [if_neg notFunction, Function.update_self, lookup_cons_self]
  · rw [Function.update_self]
    exact fun _ => rfl
  · intro other different
    rw [lookup_cons, beq_false_of_ne different]

end Matches

namespace Check

open Findings

variable {log : MentionLog} {findings : Findings} {naming : Naming}
  {scopes : List (List (String × String))} {value : Expr} {names : List (String × String)}
  {body : List Statement} {name : String}

/-! ## Expressions -/

theorem parallel_sameTable {α : Type} {computation : Check α} {given : Nat → Option String}
    (same : Relates SameTable computation) (parallel : Parallel findings.table given scopes) :
    Parallel (computation.run findings).2.table given scopes := by
  rw [(same findings).table]
  exact parallel

mutual

/-- The names of an expression are resolved alike if they are known. -/
theorem matches_of_uses (expr : Expr) {log : MentionLog} {findings : Findings} {naming : Naming}
    (parallel : Parallel findings.table log.given? naming.scopes)
    (known : expr.all findings.table.knows) :
    Matches log (uses expr findings) (Lower.uses expr naming) findings.table
      ((Lower.expression expr).run naming).2.scopes := by
  cases expr with
  | literal constant => cases constant <;> exact .silent parallel
  | identifier =>
    refine .used parallel fun missing => ?_
    simpa [Expr.all, SymbolTable.knows, missing] using known
  | binary operator lhs rhs =>
    simp only [Expr.all, Bool.and_eq_true] at known
    have left := matches_of_uses lhs parallel known.1.2
    have here := (sameTable_expression lhs findings).table
    have right := matches_of_uses rhs
      (parallel_sameTable (sameTable_expression lhs) left.parallel) (by rw [here]; exact known.2)
    rw [here] at right
    exact left.next right
  | call name arguments =>
    simp only [Expr.all, Bool.and_eq_true] at known
    exact matches_of_usesAll arguments parallel known.2

theorem matches_of_usesAll (exprs : List Expr) {log : MentionLog} {findings : Findings}
    {naming : Naming} (parallel : Parallel findings.table log.given? naming.scopes)
    (known : Expr.allIn findings.table.knows exprs) :
    Matches log (usesAll exprs findings) (Lower.usesAll exprs naming) findings.table
      ((Lower.expressions exprs).run naming).2.scopes := by
  cases exprs with
  | nil => exact .silent parallel
  | cons first rest =>
    simp only [Expr.allIn, Bool.and_eq_true] at known
    have head := matches_of_uses first parallel known.1
    have here := (sameTable_expression first findings).table
    have tail := matches_of_usesAll rest
      (parallel_sameTable (sameTable_expression first) head.parallel) (by rw [here]; exact known.2)
    rw [here] at tail
    exact head.next tail

end

/-- An expression is checked in a computation that leaves the table as it is. -/
theorem matches_of_expression {α : Type} {computation : Check α}
    (same : Relates SameTable computation)
    (parallel : Parallel findings.table log.given? naming.scopes)
    (valid : ((expression value).run findings).2.errors = []) :
    Matches log (uses value findings) (Lower.uses value naming) (computation.run findings).2.table
      ((Lower.expression value).run naming).2.scopes := by
  have used := matches_of_uses value parallel (knows_of_expression value valid)
  exact used.behind (parallel_sameTable same used.parallel)

/-- An expression whose type is only noted. -/
theorem matches_of_noted {next : ValueType → Check Unit}
    (same : ∀ type, Relates SameTable (next type))
    (parallel : Parallel findings.table log.given? naming.scopes)
    (valid : ((expression value >>= next).run findings).2.errors = []) :
    Matches log (uses value findings) (Lower.uses value naming)
      ((expression value >>= next).run findings).2.table
      ((Lower.expression value).run naming).2.scopes :=
  matches_of_expression (sameTable_bind (sameTable_expression value) same) parallel
    (errors_eq_nil (same _ _).errors valid)

theorem matches_of_condition {construct : Construct}
    (parallel : Parallel findings.table log.given? naming.scopes)
    (valid : ((condition construct value).run findings).2.errors = []) :
    Matches log (uses value findings) (Lower.uses value naming)
      ((condition construct value).run findings).2.table
      ((Lower.expression value).run naming).2.scopes :=
  matches_of_expression (sameTable_condition construct value) parallel
    (errors_expression_of_condition valid)

/-! ## Declarations -/

theorem matches_of_declare (parallel : Parallel findings.table log.given? (names :: scopes))
    (name generated : String) (type : ValueType) (kind : SymbolKind)
    (notFunction : kind ≠ .function) (initialized : Bool) :
    Matches log [declares name findings] [.declared name generated]
      ((declare name type kind initialized).run findings).2.table
      (((name, generated) :: names) :: scopes) := by
  have declared := Matches.declared parallel name generated type notFunction
  refine declared.behind ?_
  simp only [declare, update, run_modify]
  split
  · exact declared.parallel.initializeAt _
  · exact declared.parallel

/-- A variable is declared in both walks. -/
theorem matches_of_declaration (parallel : Parallel findings.table log.given? naming.scopes)
    (name : String) (type : ValueType) (initialized : Bool) :
    Matches log [declares name findings] [Lower.declares name naming]
      ((declare name type .variable initialized).run findings).2.table
      (naming.declare name).2.scopes := by
  obtain ⟨_, _, scopes⟩ := parallel.exists_cons
  rw [scopes] at parallel
  rw [Naming.scopes_declare scopes]
  exact matches_of_declare parallel name _ type .variable nofun initialized

/-- Parameters are declared one after the other, and each one is bound to its
slot. -/
theorem matches_of_parameters (parameters : List String) (depth start : Nat)
    (parallel : Parallel findings.table log.given? (names :: scopes)) :
    Matches log (parameterMentions parameters findings)
      ((parameters.zipIdx start).map fun entry => .declared entry.1 (slotName depth entry.2))
      ((declareParameters parameters).run findings).2.table
      ((((parameters.zipIdx start).map fun entry => (entry.1, slotName depth entry.2)).reverse ++
        names) :: scopes) := by
  induction parameters generalizing log findings start names with
  | nil => exact .silent parallel
  | cons name rest ih =>
    have first := matches_of_declare parallel name (slotName depth start) .any .parameter nofun
      true
    have behind := ih (start + 1) first.parallel
    rw [zipIdx_cons, map_cons, map_cons, reverse_cons, append_assoc]
    exact first.next behind

/-! ## Statements -/

/-- A scope that has been opened stands inside of others. -/
theorem tail_ne_nil {table after : SymbolTable} {label : String}
    (keeps : (table.openScope label).KeepsOuter after) (lexical : table.scoping = .lexical) :
    after.searchedScopes.tail ≠ [] := by
  rw [keeps.outer lexical, SymbolTable.searchedScopes_openScope lexical]
  exact table.searchedScopes_ne_nil

/-- The mentions of statements without errors fit, and they leave scopes behind that stand
beside each other. -/
def AreMatched (body : List Statement) : Prop :=
  ∀ ⦃log : MentionLog⦄ ⦃findings : Findings⦄ ⦃naming : Naming⦄,
    Parallel findings.table log.given? naming.scopes →
    ((statements body).run findings).2.errors = [] →
    Matches log (mentionsAll body findings) (Lower.mentionsAll body naming)
      ((statements body).run findings).2.table ((Lower.statements body).run naming).2.scopes

/-- What holds of statements inside a block. -/
theorem matches_of_inBlock (areMatched : AreMatched body)
    (parallel : Parallel findings.table log.given? naming.scopes)
    (valid : ((inBlock (statements body)).run findings).2.errors = []) :
    Matches log (mentionsAll body (opened findings)) (Lower.mentionsAll body naming.openScope)
      ((inBlock (statements body)).run findings).2.table
      ((Lower.inScope (Lower.statements body)).run naming).2.scopes := by
  have openedParallel : Parallel (opened findings).table log.given? naming.openScope.scopes :=
    parallel.openBlock
  have inside := areMatched openedParallel valid
  have keeps := (keepsOuter_statements body (opened findings)).table
  exact inside.behind (inside.parallel.closeScope (tail_ne_nil keeps parallel.lexical))

/-- The target of an assignment is looked up behind its value. -/
theorem matches_of_assignment (parallel : Parallel findings.table log.given? naming.scopes)
    (valid : ((assignment name value).run findings).2.errors = []) :
    Matches log (mentions (.assignment name value) findings)
      (Lower.mentions (.assignment name value) naming)
      ((assignment name value).run findings).2.table
      ((Lower.statement (.assignment name value)).run naming).2.scopes := by
  obtain ⟨valueValid, _, found, _⟩ := assignment_of_valid valid
  have read := matches_of_expression (sameTable_expression value) parallel valueValid
  have target := Matches.used read.parallel fun missing => absurd (found.symm.trans missing) nofun
  refine (read.next target).behind ?_
  rw [read.agree.zip_append, ← append_assoc]
  have behind := target.parallel
  simp only [assignment, run_bind, ask, run_get, run_pure]
  split
  · exact behind
  · split
    · exact behind.initializeName name
    · exact behind

/-- The function is known to the table only, its parameters are known to both
walks. -/
theorem matches_of_function {parameters : List String} (areMatched : AreMatched body)
    (parallel : Parallel findings.table log.given? naming.scopes)
    (valid : ((statement (.function name parameters body)).run findings).2.errors = []) :
    Matches log (mentions (.function name parameters body) findings)
      (Lower.mentions (.function name parameters body) naming)
      ((statement (.function name parameters body)).run findings).2.table
      ((Lower.statement (.function name parameters body)).run naming).2.scopes := by
  have free := free_of_function valid
  rw [run_function_of_free free] at valid ⊢
  let entered := enteredFunction name parameters findings
  let lowered := (Lower.label.run naming).2
  have functionParallel := parallel.declareFunction .function free
  have enteredParallel : Parallel entered.table log.given? ([] :: lowered.scopes) :=
    (functionParallel.initializeAt _).openScope ("function_" ++ name)
  have declared : Matches log (parameterMentions parameters entered)
      (Lower.parameterMentions lowered.functions parameters)
      ((declareParameters parameters).run entered).2.table
      (lowered.openFunction parameters).scopes := by
    have declared := matches_of_parameters parameters lowered.functions 0 enteredParallel
    rwa [append_nil] at declared
  have inside := matches_of_inBlock areMatched declared.parallel valid
  have keeps := (keepsOuter_bind (keepsOuter_declareParameters parameters)
    (fun _ => keepsOuter_inBlock (keepsOuter_statements body)) entered).table
  exact declared.next
    (inside.behind (inside.parallel.closeScope (tail_ne_nil keeps functionParallel.lexical)))

mutual

/-- The same for a single statement. -/
theorem matches_of_statement (phrase : Statement) {log : MentionLog} {findings : Findings}
    {naming : Naming} (parallel : Parallel findings.table log.given? naming.scopes)
    (valid : ((statement phrase).run findings).2.errors = []) :
    Matches log (mentions phrase findings) (Lower.mentions phrase naming)
      ((statement phrase).run findings).2.table
      ((Lower.statement phrase).run naming).2.scopes := by
  cases phrase with
  | declaration name initial =>
    cases initial with
    | none =>
      obtain ⟨_, _, table⟩ := table_of_introduce valid
      have declared := matches_of_declaration parallel name .any false
      exact declared.behind ((congrArg (Parallel · _ _) table).mpr declared.parallel)
    | some value =>
      obtain ⟨_, valueValid, table⟩ := table_of_introduce valid
      have read := matches_of_expression (sameTable_expression value) parallel valueValid
      have declared := read.next (matches_of_declaration read.parallel name
        ((expression value).run findings).1 true)
      exact declared.behind ((congrArg (Parallel · _ _) table).mpr declared.parallel)
  | assignment => exact matches_of_assignment parallel valid
  | ifThen test body =>
    let tested := ((do
      let _ ← Lower.expression test
      let _ ← Lower.label
      Lower.label).run naming).2
    have here : Matches log _ _ _ tested.scopes :=
      matches_of_condition parallel (inBlock_errors valid)
    exact here.next (matches_of_inBlock (matches_of_statements body) here.parallel valid)
  | ifElse test body alternative =>
    let tested := ((do
      let _ ← Lower.expression test
      let _ ← Lower.label
      let _ ← Lower.label
      Lower.label).run naming).2
    have bodyValid := inBlock_errors valid
    have here : Matches log _ _ _ tested.scopes :=
      matches_of_condition parallel (inBlock_errors bodyValid)
    have inside := here.next
      (matches_of_inBlock (matches_of_statements body) here.parallel bodyValid)
    exact inside.next
      (matches_of_inBlock (matches_of_statements alternative) inside.parallel valid)
  | repeatWhile test body =>
    let labelled := ((do
      let _ ← Lower.label
      let _ ← Lower.label
      Lower.label).run naming).2
    have labelledParallel : Parallel findings.table log.given? labelled.scopes := parallel
    have here := matches_of_condition labelledParallel (inBlock_errors valid)
    exact here.next (matches_of_inBlock (matches_of_statements body) here.parallel valid)
  | block body => exact matches_of_inBlock (matches_of_statements body) parallel valid
  | function name parameters body =>
    exact matches_of_function (matches_of_statements body) parallel valid
  | giveBack value =>
    cases value with
    | none => exact .silent parallel
    | some =>
      exact matches_of_noted (fun type => sameTable_note (.returned type)) parallel valid
  | print =>
    exact matches_of_noted (fun type => sameTable_note (.printed type)) parallel valid
  | expression => exact matches_of_noted (fun _ => sameTable_pure ()) parallel valid

theorem matches_of_statements (phrases : List Statement) : AreMatched phrases := by
  intro log findings naming parallel valid
  cases phrases with
  | nil => exact .silent parallel
  | cons first rest =>
    have firstValid := errors_eq_nil (keepsOuter_statements rest _).errors valid
    have here := matches_of_statement first parallel firstValid
    exact here.next (matches_of_statements rest here.parallel valid)

end

end Check

/-- In a valid program both walks mention the same names in the same order, and they
resolve them alike: a variable or a parameter to the name given to its declaration, and
a truth value to itself. -/
theorem agree_of_isValid {program : Program} (valid : (program.check .lexical).isValid) :
    Agree [] (Check.mentionsAll program.body { table := .empty .lexical })
      (Lower.mentionsAll program.body (Naming.openScope {})) :=
  (Check.matches_of_statements program.body Parallel.empty (List.isEmpty_iff.mp valid)).agree

/-- A variable hides another one in a block, and the parameters of a function share a
name. -/
theorem agree_of_isValid_hidden :
    let program : Program :=
      ⟨[.declaration "x" (some (.literal (.number ⟨1⟩))),
        .block [.declaration "x" (some (.identifier "x")), .assignment "x" (.identifier "x")],
        .function "f" ["a", "b", "a"]
          [.giveBack (some (.binary .add (.identifier "a") (.identifier "x")))],
        .repeatWhile (.identifier "true") [.assignment "x" (.call "f" [.identifier "x"])]]⟩
    let lowered := Lower.mentionsAll program.body (Naming.openScope {})
    (program.check .lexical).isValid ∧
      (lowered.filterMap fun
        | .used name naming => some (naming.resolve name)
        | .declared _ _ => none) =
        ["x", "x$1", "x$1", slotName 0 2, "x", "true", "x", "x"] ∧
      Agree [] (Check.mentionsAll program.body { table := .empty .lexical }) lowered :=
  ⟨by decide, by decide, agree_of_isValid (by decide)⟩

end BanglaScript
