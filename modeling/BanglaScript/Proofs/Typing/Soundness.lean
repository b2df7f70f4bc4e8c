import BanglaScript.Proofs.Typing.Recorded

/-!
# Valid programs run without faults

Checking and running agree on the variables: at every moment of a run, the
variables that are live are those that checking could look up at this place of
the text, and they have the numbers of their symbols.  So an expression has a
value of the type that checking has found for it, and every variable holds a
value of the type that is recorded for its symbol.
-/

namespace BanglaScript

open StateRun Findings Check List

/-! ## Expressions -/

/-- The numbers of the variables. -/
def Scopes.numbers (scopes : Scopes Cell) : Scopes Nat := scopes.mapValues Cell.number

/-- Every variable holds a value of the type that is recorded under its number,
together with its name. -/
def Scopes.HoldTypes (recorded : List (String × ValueType)) (scopes : Scopes Cell) : Prop :=
  ∀ entry ∈ scopes.flatten, ∃ type,
    recorded[entry.2.number]? = some (entry.1, type) ∧ entry.2.value.type? = some type

namespace SymbolTable

/-- The variables of given numbers can be looked up, and the symbols are the
first ones of those that are recorded in the end. -/
structure Describes (table : SymbolTable) (recorded : List (String × ValueType))
    (numbers : Scopes Nat) : Prop where
  isScoped : table.IsScoped
  visible : table.visible = numbers
  kept : table.recorded <+: recorded

namespace Describes

variable {table : SymbolTable} {recorded : List (String × ValueType)} {scopes : Scopes Cell}
  {name : String}

variable (describes : table.Describes recorded scopes.numbers)

include describes

theorem resolve? (name : String) : table.resolve? name = (scopes.find? name).map Cell.number := by
  rw [resolve?_eq_find?_visible, describes.visible]
  exact Scopes.find?_mapValues Cell.number scopes name

/-- A name with a symbol is the name of a variable of its type. -/
theorem find?_of_lookup? (holds : scopes.HoldTypes recorded) {symbol : Symbol}
    (found : table.lookup? name = some symbol) :
    ∃ cell, scopes.find? name = some cell ∧
      recorded[cell.number]? = some (name, symbol.type) ∧
      cell.value.type? = some symbol.type := by
  rw [lookup?, describes.resolve? name] at found
  cases bound : scopes.find? name with
  | none =>
    rw [bound] at found
    cases found
  | some cell =>
    rw [bound] at found
    have numbered : table.symbols[cell.number]? = some symbol := found
    have inTable : table.recorded[cell.number]? = some (symbol.name, symbol.type) := by
      rw [SymbolTable.recorded, getElem?_map, numbered]
      rfl
    have inRecord : recorded[cell.number]? = some (symbol.name, symbol.type) := by
      obtain ⟨_, whole⟩ := describes.kept
      rw [← whole, getElem?_append_left (List.getElem?_eq_some_iff.mp inTable).1, inTable]
    obtain ⟨_, held, valueType⟩ := holds (name, cell) (Scopes.mem_flatten_of_find? bound)
    rw [inRecord] at held
    cases held
    exact ⟨cell, rfl, inRecord, valueType⟩

/-- A name without a symbol is not bound. -/
theorem find?_eq_none_of_lookup?
    (missing : table.lookup? name = none) : scopes.find? name = none := by
  cases bound : scopes.find? name with
  | none => rfl
  | some =>
    have resolved := describes.resolve? name
    rw [bound] at resolved
    have visible := (resolve?_eq_find?_visible table name).symm.trans resolved
    have inRange := describes.isScoped.inRange _ (Scopes.mem_flatten_of_find? visible)
    rw [length_recorded] at inRange
    rw [lookup?, resolved] at missing
    exact absurd (List.getElem?_eq_none_iff.mp missing) (Nat.not_le.mpr inRange)

end Describes

end SymbolTable

namespace ScriptValue

variable {value : ScriptValue} {type : ValueType}

/-- Values are numbers, strings or truth values. -/
theorem type_mem (typed : value.type? = some type) :
    type = .number ∨ type = .string ∨ type = .boolean := by
  cases value with
  | number => exact .inl (Option.some.inj typed).symm
  | string => exact .inr (.inl (Option.some.inj typed).symm)
  | boolean => exact .inr (.inr (Option.some.inj typed).symm)
  | undefined => cases typed

theorem isString_of_type (typed : value.type? = some type) :
    value.isString = true ↔ type = .string := by
  cases value <;> cases typed <;> simp [isString]

theorem eq_number_of_type (typed : value.type? = some .number) :
    ∃ number, value = .number number := by
  cases value <;> cases typed
  exact ⟨_, rfl⟩

theorem eq_boolean_of_type (typed : value.type? = some .boolean) :
    ∃ truth, value = .boolean truth := by
  cases value <;> cases typed
  exact ⟨_, rfl⟩

end ScriptValue

/-- An operation without an error suits operands of its types. -/
theorem Operations.apply_of_valid (operations : Operations) {operator : BinaryOperator}
    {lhs rhs : ScriptValue} {lhsType rhsType : ValueType} {findings : Findings}
    (lhsTyped : lhs.type? = some lhsType) (rhsTyped : rhs.type? = some rhsType)
    (valid : ((binary operator lhsType rhsType).run findings).2.errors = []) :
    ∃ value, operations.apply operator lhs rhs = .ok value ∧
      value.type? = some ((binary operator lhsType rhsType).run findings).1 := by
  have lhsMem := ScriptValue.type_mem lhsTyped
  have rhsMem := ScriptValue.type_mem rhsTyped
  have notError : ¬ (lhsType = .error ∨ rhsType = .error) := by
    rcases lhsMem with rfl | rfl | rfl <;> rcases rhsMem with rfl | rfl | rfl <;> simp
  have notAny : ¬ (lhsType = .any ∨ rhsType = .any) := by
    rcases lhsMem with rfl | rfl | rfl <;> rcases rhsMem with rfl | rfl | rfl <;> simp
  unfold binary at valid ⊢
  unfold Operations.apply
  simp only [notError, if_false, ScriptValue.isString_of_type lhsTyped,
    ScriptValue.isString_of_type rhsTyped] at valid ⊢
  by_cases joins : operator = .add ∧ (lhsType = .string ∨ rhsType = .string)
  · simp only [joins]
    exact ⟨_, rfl, rfl⟩
  simp only [joins, if_false] at valid ⊢
  by_cases arithmetic : operator.isArithmetic = true
  · simp only [arithmetic, if_true, notAny, if_false] at valid ⊢
    by_cases numbers : lhsType = .number ∧ rhsType = .number
    · obtain ⟨rfl, rfl⟩ := numbers
      obtain ⟨_, rfl⟩ := ScriptValue.eq_number_of_type lhsTyped
      obtain ⟨_, rfl⟩ := ScriptValue.eq_number_of_type rhsTyped
      exact ⟨_, rfl, rfl⟩
    · simp only [numbers, if_false] at valid
      exact absurd valid (errors_report _ _)
  · simp only [arithmetic, Bool.false_eq_true, if_false, notAny, or_false] at valid ⊢
    by_cases same : lhsType = rhsType
    · subst same
      simp only [lhsTyped, rhsTyped, if_true]
      exact ⟨_, rfl, rfl⟩
    · simp only [same, if_false] at valid
      exact absurd valid (errors_report _ _)

section Expressions

variable (operations : Operations) {recorded : List (String × ValueType)} {scopes : Scopes Cell}

theorem evaluate_identifier_of_valid {name : String} {findings : Findings}
    (describes : findings.table.Describes recorded scopes.numbers)
    (holds : scopes.HoldTypes recorded)
    (valid : ((identifier name).run findings).2.errors = []) :
    ∃ value, (Expr.identifier name).evaluate operations scopes = .ok value ∧
      value.type? = some ((identifier name).run findings).1 := by
  simp only [identifier, ask, run_bind, run_get, run_pure] at valid ⊢
  cases found : findings.table.lookup? name with
  | some =>
    obtain ⟨cell, bound, _, valueType⟩ := describes.find?_of_lookup? holds found
    refine ⟨cell.value, by simp only [Expr.evaluate, bound], ?_⟩
    dsimp only
    split <;> exact valueType
  | none =>
    have free := describes.find?_eq_none_of_lookup? found
    rw [found] at valid
    simp only [Expr.evaluate, free] at valid ⊢
    by_cases isTrue : name = "true"
    · rw [if_pos isTrue, if_pos (.inl isTrue)]
      exact ⟨.boolean true, rfl, rfl⟩
    by_cases isFalse : name = "false"
    · rw [if_neg isTrue, if_pos isFalse, if_pos (.inr isFalse)]
      exact ⟨.boolean false, rfl, rfl⟩
    · rw [if_neg (not_or.mpr ⟨isTrue, isFalse⟩)] at valid
      exact absurd valid (errors_report _ _)

/-- An expression without errors has a value of its type. -/
theorem evaluate_of_valid (expr : Expr) (basic : expr.all Expr.isBasic) {findings : Findings}
    (describes : findings.table.Describes recorded scopes.numbers)
    (holds : scopes.HoldTypes recorded)
    (valid : ((expression expr).run findings).2.errors = []) :
    ∃ value, expr.evaluate operations scopes = .ok value ∧
      value.type? = some ((expression expr).run findings).1 := by
  cases expr with
  | literal constant => cases constant <;> exact ⟨_, rfl, rfl⟩
  | identifier => exact evaluate_identifier_of_valid operations describes holds valid
  | binary operator lhs rhs =>
    simp only [Expr.all, Bool.and_eq_true] at basic
    have rhsValid := errors_eq_nil (sameTable_binary operator _ _ _).errors valid
    have lhsValid := errors_eq_nil (sameTable_expression rhs _).errors rhsValid
    have lhsTable := (sameTable_expression lhs findings).table
    obtain ⟨_, leftValue, leftType⟩ :=
      evaluate_of_valid lhs basic.1.2 describes holds lhsValid
    have between : ((expression lhs).run findings).2.table.Describes recorded scopes.numbers :=
      lhsTable ▸ describes
    obtain ⟨_, rightValue, rightType⟩ :=
      evaluate_of_valid rhs basic.2 between holds rhsValid
    obtain ⟨value, applied, valueType⟩ := operations.apply_of_valid leftType rightType valid
    refine ⟨value, ?_, valueType⟩
    rw [Expr.evaluate, leftValue, rightValue]
    exact applied
  | call => cases basic

/-- A condition without errors gives a truth value. -/
theorem test_of_valid {construct : Construct} {test : Expr} (basic : test.all Expr.isBasic)
    {findings : Findings} (describes : findings.table.Describes recorded scopes.numbers)
    (holds : scopes.HoldTypes recorded)
    (valid : ((condition construct test).run findings).2.errors = []) :
    ∃ truth, test.test operations scopes = .ok truth := by
  simp only [condition, run_bind] at valid
  split at valid
  · exact absurd valid (errors_report _ _)
  · rename_i allowed
    obtain ⟨_, evaluated, valueType⟩ :=
      evaluate_of_valid operations test basic describes holds valid
    have isBoolean : ((expression test).run findings).1 = .boolean := by
      rcases ScriptValue.type_mem valueType with type | type | type
      · simp [type] at allowed
      · simp [type] at allowed
      · exact type
    rw [isBoolean] at valueType
    obtain ⟨truth, rfl⟩ := ScriptValue.eq_boolean_of_type valueType
    exact ⟨truth, by rw [Expr.test, evaluated]; rfl⟩

end Expressions

/-! ## Statements -/

namespace Check

/-- Types of values are compatible only if they are the same. -/
theorem eq_of_compatible {value target : ValueType}
    (valueType : value = .number ∨ value = .string ∨ value = .boolean)
    (targetType : target = .number ∨ target = .string ∨ target = .boolean)
    (fits : compatible value target) : value = target := by
  rcases valueType with rfl | rfl | rfl <;> rcases targetType with rfl | rfl | rfl <;>
    first | rfl | cases fits

end Check

/-- Checking has come to pending statements where the variables of given
numbers can be looked up.  It finds no errors in them, and what it records is
recorded in the end. -/
structure Findings.Allows (recorded : List (String × ValueType)) (findings : Findings)
    (pending : Pending) (numbers : Scopes Nat) : Prop where
  isScoped : findings.table.IsScoped
  visible : findings.table.visible = numbers
  counted : findings.table.recorded.length = pending.number
  initialized : Statement.allIn Statement.isInitialized Expr.isBasic pending.statements
  valid : ((statements pending.statements).run findings).2.errors = []
  behind : ((statements pending.statements).run findings).2.table.recorded <+: recorded

namespace Findings.Allows

variable {recorded : List (String × ValueType)} {findings : Findings} {numbers : Scopes Nat}
  {first : Statement} {rest : List Statement} {number : Nat}

theorem first_initialized (allows : findings.Allows recorded ⟨first :: rest, number⟩ numbers) :
    first.all Statement.isInitialized Expr.isBasic :=
  (Bool.and_eq_true_iff.mp allows.initialized).1

theorem first_valid (allows : findings.Allows recorded ⟨first :: rest, number⟩ numbers) :
    ((statement first).run findings).2.errors = [] :=
  errors_eq_nil (keepsOuter_statements rest _).errors allows.valid

theorem describes {pending : Pending} (allows : findings.Allows recorded pending numbers) :
    findings.table.Describes recorded numbers := by
  have grows := grows_statements pending.statements allows.initialized allows.isScoped allows.valid
  exact ⟨allows.isScoped, allows.visible, grows.1.kept.trans allows.behind⟩

variable (allows : findings.Allows recorded ⟨first :: rest, number⟩ numbers)

include allows

/-- Behind its first statement checking has come to the rest. -/
theorem next : ((statement first).run findings).2.Allows recorded
      ⟨rest, number + first.declarationCount⟩
      ((statement first).run findings).2.table.visible := by
  obtain ⟨grows, isScoped⟩ :=
    grows_statement first allows.first_initialized allows.isScoped allows.first_valid
  exact
    { isScoped := isScoped
      visible := rfl
      counted := grows.length.trans (congrArg (· + _) allows.counted)
      initialized := (Bool.and_eq_true_iff.mp allows.initialized).2
      valid := allows.valid
      behind := allows.behind }

/-- The same variables are there behind a statement that declares none. -/
theorem next_of_declared (declares : first.declared = []) :
    ((statement first).run findings).2.Allows recorded
      ⟨rest, number + first.declarationCount⟩ numbers := by
  have scopes := (sameScopes_statement first declares findings).scopes allows.isScoped.lexical
  have visible : ((statement first).run findings).2.table.visible = numbers := by
    rw [SymbolTable.visible, scopes]
    exact allows.visible
  exact visible ▸ allows.next

end Findings.Allows

/-- Checking comes to a block at its opening. -/
theorem Check.allows_openBlock {recorded : List (String × ValueType)} {findings : Findings}
    {numbers : Scopes Nat} {body : List Statement} {number : Nat}
    (describes : findings.table.Describes recorded numbers)
    (counted : findings.table.recorded.length = number)
    (initialized : Statement.allIn Statement.isInitialized Expr.isBasic body)
    (valid : ((inBlock (statements body)).run findings).2.errors = [])
    (behind : ((inBlock (statements body)).run findings).2.table.recorded <+: recorded) :
    Findings.Allows recorded { findings with table := findings.table.openBlock }
      ⟨body, number⟩ ([] :: numbers) :=
  { isScoped := describes.isScoped.openBlock
    visible := describes.isScoped.visible_openBlock.trans
      (congrArg ([] :: ·) describes.visible)
    counted := counted
    initialized := initialized
    valid := valid
    behind := behind }

/-- Every open block is at a place where checking has come with the variables of
the block and of those around it. -/
def Pending.AreChecked (recorded : List (String × ValueType)) :
    List Pending → Scopes Nat → Prop
  | [], _ => True
  | first :: outer, numbers =>
    (∃ findings : Findings, findings.Allows recorded first numbers) ∧
      Pending.AreChecked recorded outer numbers.tail

/-- A moment that checking has foreseen. -/
structure Moment.IsTyped (recorded : List (String × ValueType)) (moment : Moment) : Prop where
  checked : Pending.AreChecked recorded moment.pending moment.scopes.numbers
  holds : moment.scopes.HoldTypes recorded

namespace Moment

variable (operations : Operations) {recorded : List (String × ValueType)} {moment : Moment}
  {findings : Findings} {rest : List Statement} {number : Nat} {outer : List Pending}
  {first : Statement} {name : String} {value test : Expr} {body : List Statement}

/-- Going on behind a statement that declares nothing. -/
theorem isTyped_behind (declares : first.declared = [])
    (allows : findings.Allows recorded ⟨first :: rest, number⟩ moment.scopes.numbers)
    (around : Pending.AreChecked recorded outer moment.scopes.numbers.tail)
    (holds : moment.scopes.HoldTypes recorded) :
    IsTyped recorded
      { moment with pending := ⟨rest, number + first.declarationCount⟩ :: outer } :=
  ⟨⟨⟨_, allows.next_of_declared declares⟩, around⟩, holds⟩

/-- Going on in a block. -/
theorem isTyped_enter {body : Pending} {pending : List Pending}
    (allows : findings.Allows recorded body ([] :: moment.scopes.numbers))
    (around : Pending.AreChecked recorded pending moment.scopes.numbers)
    (holds : moment.scopes.HoldTypes recorded) :
    IsTyped recorded (moment.enter body pending) :=
  ⟨⟨⟨_, allows⟩, around⟩, holds⟩

/-- Where checking has come to the statement, it is run without a fault, and checking has
foreseen the moment behind it. -/
def RunsTyped (operations : Operations) (recorded : List (String × ValueType)) (moment : Moment)
    (first : Statement) : Prop :=
  ∀ ⦃findings : Findings⦄ ⦃rest : List Statement⦄ ⦃number : Nat⦄ ⦃outer : List Pending⦄,
    findings.Allows recorded ⟨first :: rest, number⟩ moment.scopes.numbers →
    Pending.AreChecked recorded outer moment.scopes.numbers.tail →
    moment.scopes.HoldTypes recorded →
    ∃ next, moment.runStatement operations number (⟨first :: rest, number⟩ :: outer)
        (⟨rest, number + first.declarationCount⟩ :: outer) first = .ok next ∧
      next.IsTyped recorded

theorem runsTyped_declaration :
    RunsTyped operations recorded moment (.declaration name (some value)) := by
  intro findings rest number outer allows around holds
  obtain ⟨valueValid, grown, visible⟩ := declaration_of_valid allows.isScoped allows.first_valid
  have counted : findings.table.recorded.length = number := allows.counted
  have basic : value.all Expr.isBasic := allows.first_initialized
  obtain ⟨stored, evaluated, storedType⟩ :=
    evaluate_of_valid operations value basic allows.describes holds valueValid
  refine ⟨{ moment with
    scopes := moment.scopes.bind name ⟨number, stored⟩
    pending := ⟨rest, number + 1⟩ :: outer }, by rw [runStatement, evaluated]; rfl, ?_, ?_⟩
  · have bound : (moment.scopes.bind name ⟨number, stored⟩).numbers =
        moment.scopes.numbers.bind name number := by
      cases moment.scopes <;> rfl
    rw [allows.visible, counted, ← bound] at visible
    refine ⟨⟨_, visible ▸ allows.next⟩, ?_⟩
    rw [bound, Scopes.tail_bind]
    exact around
  · intro entry member
    rcases Scopes.mem_flatten_bind member with rfl | before
    · -- The next number is that of the symbol which the declaration records.
      obtain ⟨_, whole⟩ := allows.next.describes.kept
      refine ⟨_, ?_, storedType⟩
      rw [← whole, grown, ← counted]
      simp
    · exact holds entry before

theorem runsTyped_assignment : RunsTyped operations recorded moment (.assignment name value) := by
  intro findings rest number outer allows around holds
  obtain ⟨valueValid, symbol, found, fits⟩ := assignment_of_valid allows.first_valid
  rw [(sameTable_expression value _).table] at found
  have basic : value.all Expr.isBasic := allows.first_initialized
  obtain ⟨stored, evaluated, storedType⟩ :=
    evaluate_of_valid operations value basic allows.describes holds valueValid
  obtain ⟨cell, bound, inRecord, cellType⟩ := allows.describes.find?_of_lookup? holds found
  have sameType := eq_of_compatible (ScriptValue.type_mem storedType)
    (ScriptValue.type_mem cellType) fits
  obtain ⟨changed, assigned, sameNumbers, changedMem⟩ :=
    Scopes.exists_assign? Cell.number { cell with value := stored } bound rfl
  refine ⟨{ moment with scopes := changed, pending := ⟨rest, number⟩ :: outer },
    by simp only [runStatement, evaluated, bind, Except.bind, bound, assigned]; rfl, ?_, ?_⟩
  · have numbers : changed.numbers = moment.scopes.numbers := sameNumbers
    rw [numbers]
    exact ⟨⟨_, allows.next_of_declared rfl⟩, around⟩
  · intro entry member
    rcases changedMem entry member with rfl | before
    · exact ⟨symbol.type, inRecord, sameType ▸ storedType⟩
    · exact holds entry before

/-- A condition without errors gives a truth value, and the block behind it can be
entered. -/
theorem guarded_of_valid {construct : Construct}
    (describes : findings.table.Describes recorded moment.scopes.numbers)
    (holds : moment.scopes.HoldTypes recorded)
    (counted : findings.table.recorded.length = number) (basic : test.all Expr.isBasic)
    (initialized : Statement.allIn Statement.isInitialized Expr.isBasic body)
    (valid : ((inBlock (statements body)).run
      ((condition construct test).run findings).2).2.errors = [])
    (behind : ((inBlock (statements body)).run
      ((condition construct test).run findings).2).2.table.recorded <+: recorded) :
    (∃ truth, test.test operations moment.scopes = .ok truth) ∧
      ∃ inner : Findings, inner.Allows recorded ⟨body, number⟩ ([] :: moment.scopes.numbers) := by
  have tested := (sameTable_condition construct test findings).table
  refine ⟨test_of_valid operations basic describes holds (inBlock_errors valid), ?_⟩
  rw [← tested] at describes counted
  exact ⟨_, allows_openBlock describes counted initialized valid behind⟩

theorem runsTyped_ifElse {alternative : List Statement} :
    RunsTyped operations recorded moment (.ifElse test body alternative) := by
  intro findings rest number outer allows around holds
  have initialized := allows.first_initialized
  simp only [Statement.all, Bool.and_eq_true] at initialized
  let tested := ((condition .conditional test).run findings).2
  let between := ((inBlock (statements body)).run tested).2
  have table : tested.table = findings.table := (sameTable_condition _ test findings).table
  have sameScopes := sameScopes_inBlock (keepsOuter_statements body) tested
  have elseValid : ((inBlock (statements alternative)).run between).2.errors = [] :=
    allows.first_valid
  have bodyValid : between.errors = [] := inBlock_errors elseValid
  obtain ⟨bodyGrows, isScoped⟩ := grows_inBlock (table ▸ allows.isScoped)
    (grows_statements body initialized.1.2) bodyValid
  obtain ⟨elseGrows, _⟩ :=
    grows_inBlock isScoped (grows_statements alternative initialized.2) elseValid
  have kept : between.table.recorded <+: recorded :=
    elseGrows.kept.trans allows.next.describes.kept
  have visible : between.table.visible = moment.scopes.numbers := by
    rw [SymbolTable.visible, sameScopes.scopes (table ▸ allows.isScoped.lexical), table]
    exact allows.visible
  have counted : between.table.recorded.length = number + Statement.declarationCountIn body := by
    rw [bodyGrows.length, table]
    exact congrArg (· + _) allows.counted
  obtain ⟨⟨truth, tested⟩, _, inside⟩ := guarded_of_valid operations allows.describes holds
    allows.counted initialized.1.1.2 initialized.1.2 bodyValid kept
  have insideElse := allows_openBlock ⟨isScoped, visible, kept⟩ counted initialized.2 elseValid
    allows.next.describes.kept
  have behind := isTyped_behind rfl allows around holds
  rw [runStatement, tested]
  cases truth with
  | false => exact ⟨_, rfl, isTyped_enter insideElse behind.checked holds⟩
  | true => exact ⟨_, rfl, isTyped_enter inside behind.checked holds⟩

theorem runsTyped (first : Statement) : RunsTyped operations recorded moment first := by
  intro findings rest number outer allows around holds
  have valid := allows.first_valid
  have initialized := allows.first_initialized
  have behind (declares : first.declared = []) := isTyped_behind declares allows around holds
  have valued (value : Expr) (basic : value.all Expr.isBasic) :=
    evaluate_of_valid operations value basic allows.describes holds
  cases first with (try simp only [Statement.all, Bool.and_eq_true] at initialized)
  | declaration name initial =>
    cases initial with
    | none => cases initialized.1
    | some => exact runsTyped_declaration operations allows around holds
  | assignment => exact runsTyped_assignment operations allows around holds
  | ifThen =>
    obtain ⟨⟨truth, tested⟩, inner, inside⟩ := guarded_of_valid operations allows.describes holds
      allows.counted initialized.1.2 initialized.2 valid allows.next.describes.kept
    rw [runStatement, tested]
    cases truth with
    | false => exact ⟨_, rfl, behind rfl⟩
    | true => exact ⟨_, rfl, isTyped_enter inside (behind rfl).checked holds⟩
  | ifElse => exact runsTyped_ifElse operations allows around holds
  | repeatWhile =>
    obtain ⟨⟨truth, tested⟩, _, inside⟩ := guarded_of_valid operations allows.describes holds
      allows.counted initialized.1.2 initialized.2 valid allows.next.describes.kept
    rw [runStatement, tested]
    -- In front of every round checking is where it was in front of the first one.
    cases truth with
    | false => exact ⟨_, rfl, behind rfl⟩
    | true => exact ⟨_, rfl, isTyped_enter inside ⟨⟨_, allows⟩, around⟩ holds⟩
  | block =>
    have inside := allows_openBlock allows.describes allows.counted initialized.2 valid
      allows.next.describes.kept
    exact ⟨_, rfl, isTyped_enter inside (behind rfl).checked holds⟩
  | function => cases initialized.1
  | giveBack result =>
    cases result with
    | none => exact ⟨_, rfl, trivial, holds⟩
    | some value =>
      obtain ⟨_, evaluated, _⟩ := valued value initialized.2 valid
      rw [runStatement, evaluated]
      exact ⟨_, rfl, trivial, holds⟩
  | print value =>
    obtain ⟨_, evaluated, _⟩ := valued value initialized.2 valid
    rw [runStatement, evaluated]
    exact ⟨_, rfl, (behind rfl).checked, holds⟩
  | expression value =>
    obtain ⟨_, evaluated, _⟩ := valued value initialized.2 valid
    rw [runStatement, evaluated]
    exact ⟨_, rfl, behind rfl⟩

/-! ## Runs -/

theorem IsTyped.step (typed : moment.IsTyped recorded) :
    ∃ next, moment.step operations = .ok next ∧ next.IsTyped recorded := by
  obtain ⟨scopes, pending, _⟩ := moment
  obtain ⟨checked, holds⟩ := typed
  match pending, checked with
  | [], checked => exact ⟨_, rfl, checked, holds⟩
  | ⟨[], number⟩ :: [], checked => exact ⟨_, rfl, checked, holds⟩
  | ⟨[], number⟩ :: second :: outer, checked =>
    have left : (Scopes.numbers scopes).tail = Scopes.numbers scopes.tail := by
      cases scopes <;> rfl
    refine ⟨_, rfl, left ▸ checked.2, fun entry member => ?_⟩
    obtain ⟨scope, scopeMem, entryMem⟩ := mem_flatten.mp member
    exact holds entry (mem_flatten.mpr ⟨scope, mem_of_mem_tail scopeMem, entryMem⟩)
  | ⟨first :: rest, number⟩ :: outer, checked =>
    obtain ⟨⟨_, allows⟩, around⟩ := checked
    exact runsTyped operations first allows around holds

theorem IsTyped.after (typed : moment.IsTyped recorded) (count : Nat) :
    ∃ next, moment.after operations count = .ok next ∧ next.IsTyped recorded := by
  induction count generalizing moment with
  | zero => exact ⟨moment, rfl, typed⟩
  | succ count ih =>
    obtain ⟨_, stepped, nextTyped⟩ := typed.step operations
    rw [Moment.after, stepped]
    exact ih nextTyped

/-- Checking a valid program has foreseen its start. -/
theorem isTyped_start {program : Program} (valid : (program.check .lexical).isValid)
    (initialized : program.isInitialized) :
    (start program).IsTyped (program.check .lexical).table.recorded := by
  refine ⟨⟨⟨{ table := SymbolTable.empty .lexical }, ?_⟩, trivial⟩, fun entry member => ?_⟩
  · exact
      { isScoped := SymbolTable.IsScoped.empty
        visible := rfl
        counted := rfl
        initialized := initialized
        valid := isEmpty_iff.mp valid
        behind := prefix_refl _ }
  · cases member

end Moment

/-- **Valid programs do not go wrong.**  A valid program without functions, whose
variables are declared together with their values, runs without a fault for any
number of steps.  At every moment each live variable holds a value of the type
that is recorded for the symbol of its declaration. -/
theorem Program.runs_typed (program : Program) (valid : (program.check .lexical).isValid)
    (initialized : program.isInitialized) (operations : Operations) (steps : Nat) :
    ∃ moment, (Moment.start program).after operations steps = .ok moment ∧
      ∀ entry ∈ moment.live, ∃ symbol,
        (program.check .lexical).table.symbols[entry.2.number]? = some symbol ∧
          symbol.name = entry.1 ∧ entry.2.value.type? = some symbol.type := by
  obtain ⟨moment, reached, typed⟩ :=
    (Moment.isTyped_start valid initialized).after operations steps
  refine ⟨moment, reached, fun (name, cell) member => ?_⟩
  obtain ⟨_, inRecord, valueType⟩ := typed.holds (name, cell) member
  rw [SymbolTable.recorded, getElem?_map] at inRecord
  obtain ⟨symbol, found, same⟩ := Option.map_eq_some_iff.mp inRecord
  cases same
  exact ⟨symbol, found, rfl, valueType⟩

/-- In every round of its loop a number has the name of a string outside. -/
def relabelling : Program :=
  ⟨[.declaration "n" (some (.literal (.number (.ofNat 0)))),
    .declaration "label" (some (.literal (.string "n = "))),
    .repeatWhile (.binary .less (.identifier "n") (.literal (.number (.ofNat 3))))
      [.declaration "label" (some (.binary .add (.identifier "n") (.literal (.number (.ofNat 1))))),
        .assignment "n" (.identifier "label")],
    .assignment "label" (.binary .add (.identifier "label") (.identifier "n")),
    .declaration "done" (some (.binary .equal (.identifier "n") (.literal (.number (.ofNat 3))))),
    .ifElse (.binary .equal (.identifier "done") (.identifier "true"))
      [.print (.identifier "label")] [.declaration "done" (some (.identifier "label"))]]⟩

/-- In the body of the loop both variables of the name are live. -/
theorem Program.runs_typed_relabelling :
    (relabelling.check .lexical).isValid ∧ relabelling.isInitialized ∧
      ∃ moment, (Moment.start relabelling).after
          ⟨fun _ lhs _ => lhs, fun _ _ => "", fun _ _ _ => true⟩ 4 = .ok moment ∧
        moment.live.map (fun entry => (entry.1, entry.2.number)) =
          [("label", 2), ("label", 1), ("n", 0)] ∧
        ∀ entry ∈ moment.live, ∃ symbol,
          (relabelling.check .lexical).table.symbols[entry.2.number]? = some symbol ∧
            symbol.name = entry.1 ∧ entry.2.value.type? = some symbol.type := by
  have valid : (relabelling.check .lexical).isValid := by decide
  have initialized : relabelling.isInitialized := by decide
  obtain ⟨moment, reached, typed⟩ := relabelling.runs_typed valid initialized
    ⟨fun _ lhs _ => lhs, fun _ _ => "", fun _ _ _ => true⟩ 4
  refine ⟨valid, initialized, moment, reached, ?_, typed⟩
  cases reached
  rfl

end BanglaScript
