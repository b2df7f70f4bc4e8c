import BanglaScript.Proofs.Resolution.Mentions

/-!
# Types that are backed by reports

The type `error` is given to a phrase at fault, and from there it goes into symbols and
through the operations and declarations that use it.  So wherever it turns up, an error
has been recorded before.  The type `void` is given to nothing.

This is followed through the checkpoints of a run: the moments in which an expression has
got its type, and those in front of and behind every statement.
-/

namespace BanglaScript

open StateRun List

namespace Findings

variable {findings before after : Findings} {type : ValueType}

/-- The type may be given: it is not `void`, and it is `error` only if an error has been
recorded. -/
def Backs (findings : Findings) (type : ValueType) : Prop :=
  type ≠ .void ∧ (type = .error → findings.errors ≠ [])

theorem Backs.mono (backs : before.Backs type) (errors : before.errors <+: after.errors) :
    after.Backs type :=
  ⟨backs.1, fun same none => backs.2 same (Check.errors_eq_nil errors none)⟩

/-- All symbols have types that are backed. -/
def IsBacked (findings : Findings) : Prop :=
  ∀ symbol ∈ findings.table.symbols, findings.Backs symbol.type

/-- The table may change as long as no new types come into it. -/
theorem IsBacked.of_types (backed : before.IsBacked) (errors : before.errors <+: after.errors)
    (types : ∀ symbol ∈ after.table.symbols,
      ∃ older ∈ before.table.symbols, older.type = symbol.type) : after.IsBacked := by
  intro symbol member
  obtain ⟨older, olderMember, same⟩ := types symbol member
  exact same ▸ (backed older olderMember).mono errors

theorem IsBacked.of_symbols (backed : before.IsBacked) (errors : before.errors <+: after.errors)
    (symbols : after.table.symbols = before.table.symbols) : after.IsBacked :=
  backed.of_types errors fun symbol member => ⟨symbol, symbols ▸ member, rfl⟩

theorem IsBacked.of_sameTable (backed : before.IsBacked) (same : SameTable before after) :
    after.IsBacked :=
  backed.of_symbols same.errors (by rw [same.table])

end Findings

open Findings

namespace SymbolTable

theorem exists_of_mem_initializeAt {table : SymbolTable} {index : Nat} {symbol : Symbol}
    (member : symbol ∈ (table.initializeAt index).symbols) :
    ∃ older ∈ table.symbols, older.type = symbol.type := by
  obtain ⟨_, found⟩ := mem_iff_getElem?.mp member
  simp only [initializeAt, getElem?_modify] at found
  obtain ⟨older, held, rfl⟩ := Option.map_eq_some_iff.mp found
  refine ⟨older, mem_of_getElem? held, ?_⟩
  split <;> rfl

theorem mem_of_lookup? {table : SymbolTable} {name : String} {symbol : Symbol}
    (found : table.lookup? name = some symbol) : symbol ∈ table.symbols := by
  obtain ⟨_, _, held⟩ := Option.bind_eq_some_iff.mp found
  exact mem_of_getElem? held

end SymbolTable

namespace Check

variable {findings : Findings} {name : String} {type : ValueType}

/-! ## Expressions -/

/-- An operand at fault is not reported again. -/
theorem run_binary_of_error {lhs rhs : ValueType} (operator : BinaryOperator)
    (fault : lhs = .error ∨ rhs = .error) (findings : Findings) :
    (binary operator lhs rhs).run findings = (.error, findings) := by
  rw [binary, if_pos fault]
  rfl

/-- What holds of every proper type, of the type `error` once there is an error, and of
the types of names, holds of the types of expressions. -/
structure Carries (holds : Findings → ValueType → Prop) : Prop where
  mono : ∀ {before after type}, holds before type → before.errors <+: after.errors →
    holds after type
  proper : ∀ {findings} type, type ≠ .void → type ≠ .error → holds findings type
  error : ∀ {findings}, findings.errors ≠ [] → holds findings .error

variable {holds : Findings → ValueType → Prop}

theorem Carries.binary (carries : Carries holds) (operator : BinaryOperator) {lhs rhs : ValueType}
    (left : holds findings lhs) (right : holds findings rhs) :
    holds ((binary operator lhs rhs).run findings).2
      ((binary operator lhs rhs).run findings).1 := by
  by_cases fault : lhs = .error ∨ rhs = .error
  · rw [run_binary_of_error operator fault]
    rcases fault with rfl | rfl
    · exact left
    · exact right
  · rw [Check.binary, if_neg fault]
    repeat' split
    all_goals first
      | exact carries.error (errors_report _ _)
      | exact carries.proper _ nofun nofun

theorem Carries.expression (carries : Carries holds) (expr : Expr) {findings : Findings}
    (names : ∀ name symbol, findings.table.lookup? name = some symbol →
      holds findings symbol.type) :
    holds ((expression expr).run findings).2 ((expression expr).run findings).1 := by
  cases expr with
  | literal constant =>
    cases constant with
    | number => exact carries.proper .number (by decide) (by decide)
    | string => exact carries.proper .string (by decide) (by decide)
  | identifier name =>
    cases found : findings.table.lookup? name <;>
      simp only [Check.expression, identifier, run_bind, ask, run_get, run_pure, found] <;> split
    · exact carries.proper .boolean (by decide) (by decide)
    · exact carries.error (errors_report _ _)
    all_goals exact carries.mono (names name _ found) prefix_rfl
  | binary operator lhs rhs =>
    have checked := sameTable_expression lhs findings
    have left := carries.expression lhs names
    have right := carries.expression rhs fun name symbol found =>
      carries.mono (names name symbol (checked.table ▸ found)) checked.errors
    exact carries.binary operator (carries.mono left (sameTable_expression rhs _).errors) right
  | call =>
    simp only [Check.expression, run_bind]
    split <;> exact carries.proper .any (by decide) (by decide)

theorem carries_backs : Carries Backs where
  mono := Backs.mono
  proper _ void error := ⟨void, fun same => absurd same error⟩
  error some := ⟨nofun, fun _ => some⟩

theorem backs_of_isBacked (backed : findings.IsBacked) (expr : Expr) :
    ((expression expr).run findings).2.Backs ((expression expr).run findings).1 :=
  carries_backs.expression expr fun _ _ found => backed _ (SymbolTable.mem_of_lookup? found)

/-! ## Steps -/

variable (backed : findings.IsBacked)

include backed

theorem isBacked_declare (backs : findings.Backs type) (kind : SymbolKind) (initialized : Bool) :
    ((declare name type kind initialized).run findings).2.IsBacked := by
  have declared :
      IsBacked { findings with table := (findings.table.declare name type kind).2 } := by
    intro symbol member
    unfold SymbolTable.declare at member
    dsimp only at member
    split at member
    · rcases mem_or_eq_of_mem_set member with older | rfl
      · exact backed symbol older
      · exact backs
    · rw [SymbolTable.mapReceivingScope_symbols] at member
      rcases mem_append.mp member with older | new
      · exact backed symbol older
      · cases mem_singleton.mp new
        exact backs
  simp only [declare, update, run_modify]
  split
  · exact declared.of_types prefix_rfl fun _ => SymbolTable.exists_of_mem_initializeAt
  · exact declared

theorem isBacked_declareParameters (parameters : List String) :
    ((declareParameters parameters).run findings).2.IsBacked := by
  induction parameters generalizing findings with
  | nil => exact backed
  | cons parameter rest ih =>
    exact ih (isBacked_declare backed (carries_backs.proper .any nofun nofun) _ _)

theorem isBacked_introduce (backs : findings.Backs type) (initialized : Bool) :
    ((introduce name type initialized).run findings).2.IsBacked := by
  simp only [introduce, run_bind, ask, run_get, run_pure]
  cases findings.table.conflict? name with
  | some => exact backed.of_sameTable (sameTable_report _ _)
  | none => exact (isBacked_declare backed backs _ _).of_sameTable (sameTable_note _ _)

theorem isBacked_declaration (initial : Option Expr) :
    ((declaration name initial).run findings).2.IsBacked := by
  cases initial with
  | none =>
    exact isBacked_introduce backed (carries_backs.proper .any (by decide) (by decide)) false
  | some value =>
    exact isBacked_introduce (backed.of_sameTable (sameTable_expression value _))
      (backs_of_isBacked backed value) true

theorem isBacked_assignment (value : Expr) : ((assignment name value).run findings).2.IsBacked := by
  have kept : KeptByRecords fun before after => before.IsBacked → after.IsBacked := {
    refl := fun _ => id
    trans := fun here there => there ∘ here
    report := fun error _ backed => backed.of_sameTable (sameTable_report error _)
    warn := fun _ _ backed => backed.of_symbols prefix_rfl rfl
    note := fun remark _ backed => backed.of_sameTable (sameTable_note remark _) }
  refine kept.assignment (fun findings backed => ?_) value findings backed
  refine backed.of_types prefix_rfl fun symbol member => ?_
  simp only [update, run_modify, SymbolTable.initializeName] at member
  split at member
  · exact ⟨symbol, member, rfl⟩
  · exact SymbolTable.exists_of_mem_initializeAt member

end Check

/-! ## Parts of expressions -/

namespace Check

mutual

/-- The expressions that checking an expression comes to, and what has been found then. -/
def parts (expr : Expr) (findings : Findings) : List (Expr × Findings) :=
  (expr, findings) ::
    match expr with
    | .binary _ lhs rhs => parts lhs findings ++ parts rhs ((expression lhs).run findings).2
    | .call name arguments =>
      argumentParts ((findings.table.lookup? name).any (·.kind = .function)) 1 arguments
        ((expression (.call name [])).run findings).2
    | _ => []

/-- The same for the arguments of a call. -/
def argumentParts (noted : Bool) (number : Nat) : List Expr → Findings → List (Expr × Findings)
  | [], _ => []
  | argument :: rest, findings =>
    parts argument findings ++ argumentParts noted (number + 1) rest
      ((callArguments noted number [argument]).run findings).2

end

/-- The type of a part, and what has been found when it has got its type. -/
def outcome (part : Expr × Findings) : ValueType × Findings := (expression part.1).run part.2

/-- The part is checked between the findings. -/
def IsBetween (before : Findings) (part : Expr × Findings) (after : Findings) : Prop :=
  SameTable before part.2 ∧ (outcome part).2.errors <+: after.errors

theorem IsBetween.mono {first second third fourth : Findings} {part : Expr × Findings}
    (between : IsBetween second part third) (here : SameTable first second)
    (there : SameTable third fourth) : IsBetween first part fourth :=
  ⟨here.trans between.1, between.2.trans there.errors⟩

mutual

theorem isBetween_parts (expr : Expr) {findings : Findings} :
    ∀ part ∈ parts expr findings, IsBetween findings part ((expression expr).run findings).2 := by
  have here : IsBetween findings (expr, findings) ((expression expr).run findings).2 :=
    ⟨.refl _, prefix_rfl⟩
  unfold parts
  refine forall_mem_cons.mpr ⟨here, ?_⟩
  cases expr with
  | literal | identifier => exact forall_mem_nil _
  | binary operator lhs rhs =>
    have combined := sameTable_binary operator ((expression lhs).run findings).1
    refine forall_mem_append.mpr ⟨fun part member => ?_, fun part member => ?_⟩
    · exact (isBetween_parts lhs part member).mono (.refl _)
        ((sameTable_expression rhs _).trans (combined _ _))
    · exact (isBetween_parts rhs part member).mono (sameTable_expression lhs findings)
        (combined _ _)
  | call name arguments =>
    have run (known : Bool) (arguments : List Expr) :
        ((do
          if ¬ known then
            let _ ← report (.undefinedFunction name)
          callArguments known 1 arguments
          pure .any : Check ValueType).run findings).2 =
          ((callArguments known 1 arguments).run
            ((do
              if ¬ known then
                let _ ← report (.undefinedFunction name)
              callArguments known 1 []
              pure .any : Check ValueType).run findings).2).2 := by
      cases known <;> rfl
    intro part member
    refine (isBetween_argumentParts _ 1 arguments part member).mono
      (sameTable_expression (.call name []) findings) ?_
    rw [show ((expression (.call name arguments)).run findings).2 = _ from run _ arguments]
    exact .refl _

theorem isBetween_argumentParts (noted : Bool) (number : Nat) (arguments : List Expr)
    {findings : Findings} : ∀ part ∈ argumentParts noted number arguments findings,
      IsBetween findings part ((callArguments noted number arguments).run findings).2 := by
  cases arguments with
  | nil => exact forall_mem_nil _
  | cons argument rest =>
    have run : ((callArguments noted number (argument :: rest)).run findings).2 =
        ((callArguments noted (number + 1) rest).run
          ((callArguments noted number [argument]).run findings).2).2 := by
      cases noted <;> rfl
    have remarked : SameTable ((expression argument).run findings).2
        ((callArguments noted number [argument]).run findings).2 := by
      cases noted with
      | true => exact sameTable_note _ _
      | false => exact .refl _
    rw [run]
    refine forall_mem_append.mpr ⟨fun part member => ?_, fun part member => ?_⟩
    · exact (isBetween_parts argument part member).mono (.refl _)
        (remarked.trans (sameTable_callArguments _ _ _ _))
    · exact (isBetween_argumentParts noted (number + 1) rest part member).mono
        (sameTable_callArguments _ _ _ _) (.refl _)

end

end Check

/-! ## Visits -/

/-- A statement, and what has been found when checking comes to it. -/
structure Visit where
  phrase : Statement
  findings : Findings

namespace Check

mutual

/-- The statements that checking a statement comes to, in the order of the text. -/
def visits (phrase : Statement) (findings : Findings) : List Visit :=
  ⟨phrase, findings⟩ ::
    match phrase with
    | .ifThen test body => visitsAll body (opened ((condition .conditional test).run findings).2)
    | .ifElse test body alternative =>
      let tested := ((condition .conditional test).run findings).2
      visitsAll body (opened tested) ++
        visitsAll alternative (opened ((inBlock (statements body)).run tested).2)
    | .repeatWhile test body => visitsAll body (opened ((condition .loop test).run findings).2)
    | .block body => visitsAll body (opened findings)
    | .function name parameters body =>
      visitsAll body (opened ((declareParameters parameters).run
        (enteredFunction name parameters findings)).2)
    | _ => []

/-- The same for statements one after the other. -/
def visitsAll : List Statement → Findings → List Visit
  | [], _ => []
  | first :: rest, findings =>
    visits first findings ++ visitsAll rest ((statement first).run findings).2

end

end Check

/-- The statements of a program, as checking comes to them. -/
def Program.visits (program : Program) (scoping : Scoping) : List Visit :=
  Check.visitsAll program.body { table := .empty scoping }

/-- The expression of a statement itself, not those of the statements inside. -/
def Statement.value? : Statement → Option Expr
  | .declaration _ value | .giveBack value => value
  | .assignment _ value | .print value | .expression value | .ifThen value _ | .ifElse value _ _
  | .repeatWhile value _ => some value
  | .block _ | .function _ _ _ => none

/-- The parts of the expression of the statement. -/
def Visit.parts (visit : Visit) : List (Expr × Findings) :=
  visit.phrase.value?.elim [] (Check.parts · visit.findings)

/-- Visits before the given findings: all types are backed at each of them and now, and
none of them has found an error unless there is one now. -/
structure AreBacked (visits : List Visit) (behind : Findings) : Prop where
  each : ∀ visit ∈ visits, visit.findings.IsBacked
  backed : behind.IsBacked
  valid : behind.errors = [] →
    ∀ visit ∈ visits, ((Check.statement visit.phrase).run visit.findings).2.errors = []

namespace AreBacked

variable {visits more : List Visit} {between behind : Findings} {phrase : Statement}

theorem nil (backed : behind.IsBacked) : AreBacked [] behind :=
  ⟨forall_mem_nil _, backed, fun _ => forall_mem_nil _⟩

theorem append (first : AreBacked visits between)
    (errors : behind.errors = [] → between.errors = []) (second : AreBacked more behind) :
    AreBacked (visits ++ more) behind where
  each := forall_mem_append.mpr ⟨first.each, second.each⟩
  backed := second.backed
  valid none := forall_mem_append.mpr ⟨first.valid (errors none), second.valid none⟩

/-- A statement is visited before the statements in it. -/
theorem cons (backed : between.IsBacked)
    (inside : AreBacked visits ((Check.statement phrase).run between).2) :
    AreBacked (⟨phrase, between⟩ :: visits) ((Check.statement phrase).run between).2 where
  each := forall_mem_cons.mpr ⟨backed, inside.each⟩
  backed := inside.backed
  valid none := forall_mem_cons.mpr ⟨none, inside.valid none⟩

end AreBacked

namespace Check

variable {findings : Findings} {phrase : Statement}

theorem areBacked_inBlock {body : List Statement}
    (inside : ∀ {findings : Findings}, findings.IsBacked →
      AreBacked (visitsAll body findings) ((statements body).run findings).2)
    (backed : findings.IsBacked) :
    AreBacked (visitsAll body (opened findings)) ((inBlock (statements body)).run findings).2 :=
  have start : (opened findings).IsBacked := backed.of_symbols prefix_rfl rfl
  ⟨(inside start).each, (inside start).backed.of_symbols prefix_rfl rfl, (inside start).valid⟩

mutual

theorem areBacked_visits (phrase : Statement) {findings : Findings} (backed : findings.IsBacked) :
    AreBacked (visits phrase findings) ((statement phrase).run findings).2 := by
  have checked (value : Expr) : ((expression value).run findings).2.IsBacked :=
    backed.of_sameTable (sameTable_expression value findings)
  have tested (construct : Construct) (test : Expr) :
      ((condition construct test).run findings).2.IsBacked :=
    backed.of_sameTable (sameTable_condition construct test findings)
  have noted (remark : CheckNote) {findings : Findings} (backed : findings.IsBacked) :
      ((note remark).run findings).2.IsBacked := backed.of_sameTable (sameTable_note remark _)
  cases phrase with
  | declaration name initial => exact .cons backed (.nil (isBacked_declaration backed initial))
  | assignment name value => exact .cons backed (.nil (isBacked_assignment backed value))
  | ifThen test body | repeatWhile test body =>
    exact .cons backed (areBacked_inBlock (areBacked_visitsAll body) (tested _ test))
  | ifElse test body alternative =>
    have inside := areBacked_inBlock (areBacked_visitsAll body) (tested .conditional test)
    exact .cons backed (inside.append inBlock_errors
      (areBacked_inBlock (areBacked_visitsAll alternative) inside.backed))
  | block body => exact .cons backed (areBacked_inBlock (areBacked_visitsAll body) backed)
  | function name parameters body =>
    have entered : (enteredFunction name parameters findings).IsBacked :=
      (isBacked_declare backed (carries_backs.proper .function nofun nofun) _ true).of_symbols
        prefix_rfl rfl
    have inside := areBacked_inBlock (areBacked_visitsAll body)
      (isBacked_declareParameters entered parameters)
    refine .cons backed ?_
    cases conflict : findings.table.conflict? name with
    | some =>
      rw [run_function_of_conflict conflict]
      exact ⟨inside.each, backed.of_sameTable (sameTable_report _ _), fun valid =>
        absurd valid (errors_report _ _)⟩
    | none =>
      rw [run_function_of_free conflict]
      exact ⟨inside.each, inside.backed.of_symbols prefix_rfl rfl, inside.valid⟩
  | giveBack value =>
    cases value with
    | none => exact .cons backed (.nil (noted _ backed))
    | some value => exact .cons backed (.nil (noted _ (checked value)))
  | print value => exact .cons backed (.nil (noted _ (checked value)))
  | expression value => exact .cons backed (.nil (checked value))

theorem areBacked_visitsAll (phrases : List Statement) {findings : Findings}
    (backed : findings.IsBacked) :
    AreBacked (visitsAll phrases findings) ((statements phrases).run findings).2 := by
  cases phrases with
  | nil => exact .nil backed
  | cons first rest =>
    have here := areBacked_visits first backed
    exact here.append (errors_eq_nil (keepsOuter_statements rest _).errors)
      (areBacked_visitsAll rest here.backed)

end

/-- The expression of a statement without errors has none. -/
theorem errors_value_of_valid (valid : ((statement phrase).run findings).2.errors = [])
    {value : Expr} (has : phrase.value? = some value) :
    ((expression value).run findings).2.errors = [] := by
  cases phrase <;> cases has
  case declaration => exact (table_of_declaration valid).2.1
  case assignment => exact (assignment_of_valid valid).1
  case ifThen | repeatWhile => exact errors_expression_of_condition (inBlock_errors valid)
  case ifElse => exact errors_expression_of_condition (inBlock_errors (inBlock_errors valid))
  case giveBack | print | expression => exact valid

end Check

/-- Whatever the program and the scoping: whenever checking comes to a statement or has
given a type to a part of an expression, and in the end, all types are backed, and an
operand at fault is not reported again.  So in a valid program every symbol has a proper
type, and no expression has got the type `error`. -/
theorem isBacked_check (program : Program) (scoping : Scoping) :
    (∀ visit ∈ program.visits scoping, visit.findings.IsBacked ∧
      ∀ part ∈ visit.parts, (Check.outcome part).2.IsBacked ∧
        (Check.outcome part).2.Backs (Check.outcome part).1) ∧
    (program.check scoping).IsBacked ∧
    (∀ operator lhs rhs findings, lhs = ValueType.error ∨ rhs = ValueType.error →
      (Check.binary operator lhs rhs).run findings = (.error, findings)) ∧
    ((program.check scoping).isValid →
      (∀ symbol ∈ (program.check scoping).table.symbols,
        symbol.type ∈ [ValueType.number, .string, .boolean, .function, .any]) ∧
      ∀ visit ∈ program.visits scoping, ∀ part ∈ visit.parts, (Check.outcome part).1 ≠ .error) := by
  have empty : IsBacked { table := .empty scoping } := forall_mem_nil _
  have walk := Check.areBacked_visitsAll program.body empty
  have between {visit : Visit} {part : Expr × Findings} (inside : part ∈ visit.parts) :
      ∃ value, visit.phrase.value? = some value ∧
        Check.IsBetween visit.findings part ((Check.expression value).run visit.findings).2 := by
    unfold Visit.parts at inside
    cases has : visit.phrase.value? with
    | none => simp [has] at inside
    | some value =>
      exact ⟨value, rfl, Check.isBetween_parts value part (by simpa [has] using inside)⟩
  have backs (visit : Visit) (member : visit ∈ program.visits scoping) (part : Expr × Findings)
      (inside : part ∈ visit.parts) : (Check.outcome part).2.IsBacked ∧
        (Check.outcome part).2.Backs (Check.outcome part).1 := by
    obtain ⟨value, -, same, -⟩ := between inside
    have backed := (walk.each visit member).of_sameTable same
    exact ⟨backed.of_sameTable (Check.sameTable_expression _ _), Check.backs_of_isBacked backed _⟩
  refine ⟨fun visit member => ⟨walk.each visit member, backs visit member⟩, walk.backed,
    fun operator _ _ findings fault => Check.run_binary_of_error operator fault findings,
    fun valid => ?_⟩
  have none := List.isEmpty_iff.mp valid
  refine ⟨fun symbol member => ?_, fun visit member part inside error => ?_⟩
  · obtain ⟨void, fault⟩ := walk.backed symbol member
    cases type : symbol.type with
    | error => exact absurd none (fault type)
    | void => exact absurd type void
    | _ => decide
  · obtain ⟨_, has, -, errors⟩ := between inside
    rw [Check.errors_value_of_valid (walk.valid none visit member) has] at errors
    exact (backs visit member part inside).2.2 error (prefix_nil.mp errors)

end BanglaScript
