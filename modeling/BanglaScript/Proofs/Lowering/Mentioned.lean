import BanglaScript.Proofs.Typing.Flat

/-!
# Operands of lowered programs

The operands that a lowered program reads and writes are its temporaries, the
literals of the source, its variables under their own or under fresh names, and the
slots of parameters.  So a condition holds of all operands if it holds of these.  The
functions that it names are those of the source.
Temporaries are written by operations and by what takes the result of a call, and
never by an assignment.

Lowering comes to the statements in the order in which checking visits them.  What is
known about the names in use may depend on the visits that are still to come.
-/

namespace BanglaScript

open List Bool

/-- The operands that the instruction reads and the one that it writes. -/
def Instruction.operands (instruction : Instruction) : List Operand :=
  instruction.reads ++ instruction.target?.toList.map Place.operand

/-- All operands that the code reads or writes. -/
def Code.operands (code : List Instruction) : List Operand := code.flatMap Instruction.operands

/-- The instruction assigns a value to a temporary. -/
def Instruction.assignsTemporary : Instruction → Bool
  | .assign (.temporary _) _ => true
  | _ => false

/-- No instruction of the code assigns a value to a temporary. -/
def Code.AssignsVariables (code : List Instruction) : Prop :=
  ∀ instruction ∈ code, instruction.assignsTemporary = false

/-- The name of the function that the instruction calls, starts or ends. -/
def Instruction.function? : Instruction → Option String
  | .call name _ | .functionStart name _ | .functionEnd name => some name
  | _ => none

/-- Conditions on statements and expressions ensure one on the operands that come from
them, as long as variables keep their names, and one on the names of functions. -/
structure Lower.SuppliesOwn (onStatement : Statement → Bool) (onExpr : Expr → Bool)
    (fits : Operand → Prop) (named : String → Prop := fun _ => True) : Prop where
  temporary : ∀ index, fits (.temporary index)
  number : ∀ value, onExpr (.literal (.number value)) → fits (.number value)
  string : ∀ contents, onExpr (.literal (.string contents)) → fits (.string contents)
  identifier : ∀ name, onExpr (.identifier name) → fits (.variable name)
  assignment : ∀ name value, onStatement (.assignment name value) → fits (.variable name)
  declaration : ∀ name initial, onStatement (.declaration name initial) → fits (.variable name)
  slot : ∀ depth index, fits (.variable (slotName depth index))
  call : ∀ name arguments, onExpr (.call name arguments) → named name := by
    exact fun _ _ _ => trivial
  function : ∀ name parameters body, onStatement (.function name parameters body) →
    named name := by exact fun _ _ _ _ => trivial

/-- The conditions ensure it for fresh names as well. -/
structure Lower.Supplies (onStatement : Statement → Bool) (onExpr : Expr → Bool)
    (fits : Operand → Prop) (named : String → Prop := fun _ => True) : Prop
    extends own : SuppliesOwn onStatement onExpr fits named where
  renamed : ∀ name initial count, onStatement (.declaration name initial) →
    fits (.variable (Naming.renamed name count))

variable {name : String} {naming : Naming} {fits : Operand → Prop} {named : String → Prop}

namespace Naming

/-- The condition holds of all variables by their names in the lowered program. -/
def Fits (fits : Operand → Prop) (naming : Naming) : Prop :=
  ∀ entry ∈ naming.entries, fits (.variable entry.2)

theorem Fits.resolve (holds : naming.Fits fits) (own : fits (.variable name)) :
    fits (.variable (naming.resolve name)) := by
  unfold Naming.resolve
  cases bound : naming.bound? name with
  | none => exact own
  | some => exact holds _ (exists_of_bound? bound)

theorem entries_closeScope_subset (naming : Naming) : naming.closeScope.entries ⊆ naming.entries :=
  fun _ member => by
    obtain ⟨scope, scopeMember, entryMember⟩ := mem_flatten.mp member
    exact mem_flatten.mpr ⟨scope, mem_of_mem_tail scopeMember, entryMember⟩

/-- A function adds its parameters, each with the name of a slot. -/
theorem mem_entries_openFunction {parameters : List String} {entry : String × String}
    (member : entry ∈ (naming.openFunction parameters).entries) :
    (entry.1 ∈ parameters ∧ ∃ depth index, entry.2 = slotName depth index) ∨
      entry ∈ naming.entries := by
  rcases mem_append.mp member with parameter | visible
  · obtain ⟨_, found, rfl⟩ := mem_map.mp (mem_reverse.mp parameter)
    exact .inl ⟨fst_mem_of_mem_zipIdx found, _, _, rfl⟩
  · exact .inr visible

end Naming

namespace Lower

/-! ## Code -/

/-- The conditions hold of all operands of the instruction and of the function that it
names, and a temporary is not assigned a value. -/
structure Fits (fits : Operand → Prop) (named : String → Prop) (instruction : Instruction) :
    Prop where
  operands : ∀ operand ∈ instruction.operands, fits operand
  assigns : instruction.assignsTemporary = false
  function : ∀ name ∈ instruction.function?, named name := by exact nofun

/-- The conditions hold of the code. -/
def AllFit (fits : Operand → Prop) (named : String → Prop) (code : List Instruction) : Prop :=
  ∀ instruction ∈ code, Fits fits named instruction

namespace AllFit

variable {first second : List Instruction}

theorem append (firstFits : AllFit fits named first) (secondFits : AllFit fits named second) :
    AllFit fits named (first ++ second) :=
  forall_mem_append.mpr ⟨firstFits, secondFits⟩

theorem singleton {instruction : Instruction} (fit : Fits fits named instruction) :
    AllFit fits named [instruction] :=
  forall_mem_singleton.mpr fit

theorem nil : AllFit fits named [] := nofun

/-- An instruction that only reads or writes a value. -/
theorem reading {instruction : Instruction} {value : Operand} (fit : fits value)
    (reads : instruction.operands = [value] := by rfl)
    (plain : instruction.assignsTemporary = false := by rfl)
    (function : instruction.function? = none := by rfl) : AllFit fits named [instruction] :=
  .singleton ⟨reads ▸ forall_mem_singleton.mpr fit, plain, function ▸ nofun⟩

/-- An instruction without operands. -/
theorem mark {instruction : Instruction} (reads : instruction.operands = [] := by rfl)
    (plain : instruction.assignsTemporary = false := by rfl)
    (function : ∀ name ∈ instruction.function?, named name := by exact nofun) :
    AllFit fits named [instruction] :=
  .singleton ⟨reads ▸ forall_mem_nil _, plain, function⟩

theorem map_push {values : List Operand} (fit : ∀ value ∈ values, fits value) :
    AllFit fits named (values.map Instruction.push) := by
  intro instruction member
  obtain ⟨value, valueMember, rfl⟩ := mem_map.mp member
  exact ⟨forall_mem_singleton.mpr (fit value valueMember), rfl, nofun⟩

theorem branch {value : Operand} (fit : fits value) {bodyLabel otherLabel : Nat} :
    AllFit fits named [.branch value bodyLabel otherLabel, .label bodyLabel] :=
  (reading fit).append .mark

theorem assign {value : Operand} (targetFits : fits (.variable name)) (valueFits : fits value) :
    AllFit fits named (Lower.assign (.variable name) value) := by
  unfold Lower.assign
  split
  · exact .nil
  · refine .singleton ⟨?_, rfl, nofun⟩
    simp [Instruction.operands, Instruction.reads, Instruction.target?, Place.operand, *]

end AllFit

variable {onStatement : Statement → Bool} {onExpr : Expr → Bool}

mutual

theorem fits_expression (supplies : SuppliesOwn onStatement onExpr fits named) (expr : Expr)
    (holds : expr.all onExpr) {naming : Naming} (fit : naming.Fits fits) :
    AllFit fits named ((expression expr).run naming).1.1 ∧
      fits ((expression expr).run naming).1.2 := by
  cases expr with
  | literal constant =>
    cases constant with
    | number value => exact ⟨.nil, supplies.number value holds⟩
    | string contents => exact ⟨.nil, supplies.string contents holds⟩
  | identifier name => exact ⟨.nil, fit.resolve (supplies.identifier name holds)⟩
  | binary operator lhs rhs =>
    simp only [Expr.all, and_eq_true] at holds
    have between : ((expression lhs).run naming).2.Fits fits := by
      rwa [Naming.Fits, Naming.entries, run_expression_scopes]
    obtain ⟨lhsCode, lhsFits⟩ := fits_expression supplies lhs holds.1.2 fit
    obtain ⟨rhsCode, rhsFits⟩ := fits_expression supplies rhs holds.2 between
    refine ⟨(lhsCode.append rhsCode).append (.singleton ⟨?_, rfl, nofun⟩), supplies.temporary _⟩
    exact forall_mem_cons.mpr ⟨lhsFits, forall_mem_cons.mpr
      ⟨rhsFits, forall_mem_singleton.mpr (supplies.temporary _)⟩⟩
  | call name arguments =>
    simp only [Expr.all, and_eq_true] at holds
    obtain ⟨code, values⟩ := fits_expressions supplies arguments holds.2 fit
    have called := supplies.call name arguments holds.1
    exact ⟨(code.append (.map_push values)).append
      (.append (.mark rfl rfl (by rintro _ ⟨⟩; exact called)) (.reading (supplies.temporary _))),
      supplies.temporary _⟩

theorem fits_expressions (supplies : SuppliesOwn onStatement onExpr fits named) (exprs : List Expr)
    (holds : Expr.allIn onExpr exprs) {naming : Naming} (fit : naming.Fits fits) :
    AllFit fits named ((expressions exprs).run naming).1.1 ∧
      ∀ value ∈ ((expressions exprs).run naming).1.2, fits value := by
  cases exprs with
  | nil => exact ⟨.nil, forall_mem_nil _⟩
  | cons first rest =>
    simp only [Expr.allIn, and_eq_true] at holds
    have between : ((expression first).run naming).2.Fits fits := by
      rwa [Naming.Fits, Naming.entries, run_expression_scopes]
    obtain ⟨firstCode, firstFits⟩ := fits_expression supplies first holds.1 fit
    obtain ⟨restCode, restFits⟩ := fits_expressions supplies rest holds.2 between
    exact ⟨firstCode.append restCode, forall_mem_cons.mpr ⟨firstFits, restFits⟩⟩

end

/-! ## Declared variables -/

mutual

/-- The variables that lowering a statement declares, each with the names in use where it
gets its own. -/
def declarings : Statement → Naming → List (String × Naming)
  | .declaration name none, naming => [(name, naming)]
  | .declaration name (some value), naming => [(name, ((expression value).run naming).2)]
  | .ifThen condition body, naming =>
    declaringsAll body
      ((do let _ ← expression condition; let _ ← label; label).run naming).2.openScope
  | .ifElse condition body alternative, naming =>
    let tested := ((do
      let _ ← expression condition
      let _ ← label
      let _ ← label
      label).run naming).2
    declaringsAll body tested.openScope ++
      declaringsAll alternative ((inScope (statements body)).run tested).2.openScope
  | .repeatWhile condition body, naming =>
    declaringsAll body
      ((do let _ ← label; let _ ← label; let _ ← label; expression condition).run
        naming).2.openScope
  | .block body, naming => declaringsAll body naming.openScope
  | .function _ parameters body, naming =>
    declaringsAll body ((label.run naming).2.openFunction parameters).openScope
  | _, _ => []

/-- The same for statements one after the other. -/
def declaringsAll : List Statement → Naming → List (String × Naming)
  | [], _ => []
  | first :: rest, naming =>
    declarings first naming ++ declaringsAll rest ((statement first).run naming).2

end

/-! ## Statements -/

/-- What holds of the names in use before the given visits is kept when lowering comes to
the first of them, and each variable that is declared has a property. -/
structure Invariant (onStatement : Statement → Bool) (fits : Operand → Prop)
    (declares : String × Naming → Prop) (holds : List Visit → Naming → Prop) : Prop where
  fitting : ∀ {visits naming}, holds visits naming → naming.Fits fits
  fewer : ∀ {visits naming later}, holds visits naming →
    later.entries ⊆ naming.entries → holds visits later
  visited : ∀ {visit visits naming}, visit.phrase.declared = [] →
    holds (visit :: visits) naming → holds visits naming
  declaration : ∀ {name initial findings visits naming},
    onStatement (.declaration name initial) →
    holds (⟨.declaration name initial, findings⟩ :: visits) naming →
      declares (name, naming) ∧ fits (.variable (naming.declare name).1) ∧
        holds visits (naming.declare name).2
  function : ∀ {callee parameters body findings visits naming},
    holds (⟨.function callee parameters body, findings⟩ :: visits) naming →
      holds visits (naming.openFunction parameters)

variable {declares : String × Naming → Prop} {holds : List Visit → Naming → Prop}
  {more : List Visit}

/-- Code, and the names in use behind it, before the other visits. -/
structure Lowers (fits : Operand → Prop) (named : String → Prop) (declares : String × Naming → Prop)
    (holds : List Visit → Naming → Prop) (more : List Visit)
    (declared : List (String × Naming)) (lowered : List Instruction × Naming) : Prop where
  declared : ∀ found ∈ declared, declares found
  code : AllFit fits named lowered.1
  behind : holds more lowered.2

/-- A scope with code around it. -/
theorem lowers_inScope (invariant : Invariant onStatement fits declares holds)
    {body : List Statement} {findings : Findings}
    (inside : ∀ {naming : Naming}, holds (Check.visitsAll body findings ++ more) naming →
      Lowers fits named declares holds more (declaringsAll body naming)
        ((statements body).run naming))
    (before : holds (Check.visitsAll body findings ++ more) naming)
    {head tail : List Instruction} (headFits : AllFit fits named head)
    (tailFits : AllFit fits named tail) :
    Lowers fits named declares holds more (declaringsAll body naming.openScope)
      (head ++ ((inScope (statements body)).run naming).1 ++ tail,
        ((inScope (statements body)).run naming).2) := by
  have opened := invariant.fewer before (List.Subset.refl naming.openScope.entries)
  obtain ⟨declared, code, behind⟩ := inside opened
  exact ⟨declared, (headFits.append code).append tailFits,
    invariant.fewer behind (Naming.entries_closeScope_subset _)⟩

mutual

theorem lowers_statement (supplies : SuppliesOwn onStatement onExpr fits named)
    (invariant : Invariant onStatement fits declares holds) (phrase : Statement)
    (all : phrase.all onStatement onExpr) {findings : Findings} {more : List Visit}
    {naming : Naming} (before : holds (Check.visits phrase findings ++ more) naming) :
    Lowers fits named declares holds more (declarings phrase naming)
      ((statement phrase).run naming) := by
  have evaluated (expr : Expr) {visits : List Visit} {naming : Naming}
      (before : holds visits naming) : holds visits ((expression expr).run naming).2 :=
    invariant.fewer before fun _ member => by
      rwa [Naming.entries, run_expression_scopes] at member
  have labelled {visits : List Visit} {naming : Naming} (before : holds visits naming) :
      holds visits (label.run naming).2 :=
    invariant.fewer before (List.Subset.refl _)
  have marked {mark : Nat} : AllFit fits named [.label mark] := .mark
  cases phrase with (simp only [Statement.all, and_eq_true] at all)
  | declaration name initial =>
    cases initial with
    | none =>
      obtain ⟨declared, -, behind⟩ := invariant.declaration all.1 before
      exact ⟨forall_mem_singleton.mpr declared, .nil, behind⟩
    | some value =>
      obtain ⟨code, fit⟩ := fits_expression supplies value all.2 (invariant.fitting before)
      obtain ⟨declared, target, behind⟩ := invariant.declaration all.1 (evaluated value before)
      exact ⟨forall_mem_singleton.mpr declared, code.append (.assign target fit), behind⟩
  | assignment name value =>
    obtain ⟨code, fit⟩ := fits_expression supplies value all.2 (invariant.fitting before)
    have behind := evaluated value (invariant.visited rfl before)
    have target := (invariant.fitting behind).resolve (supplies.assignment name value all.1)
    exact ⟨forall_mem_nil _, code.append (.assign target fit), behind⟩
  | ifThen condition body =>
    obtain ⟨code, fit⟩ := fits_expression supplies condition all.1.2 (invariant.fitting before)
    have tested := evaluated condition (invariant.visited rfl before)
    exact lowers_inScope invariant (lowers_statements supplies invariant body all.2)
      (labelled (labelled tested)) (code.append (.branch fit)) marked
  | ifElse condition body alternative =>
    obtain ⟨code, fit⟩ := fits_expression supplies condition all.1.1.2 (invariant.fitting before)
    have tested := evaluated condition (invariant.visited rfl before)
    change holds (_ ++ _ ++ more) _ at tested
    rw [append_assoc] at tested
    have passed {mark start : Nat} : AllFit fits named [.jump mark, .label start] :=
      .append .mark marked
    obtain ⟨declared, bodyCode, between⟩ :=
      lowers_inScope invariant (lowers_statements supplies invariant body all.1.2)
        (labelled (labelled (labelled tested))) (code.append (.branch fit)) passed
    obtain ⟨otherDeclared, otherCode, behind⟩ :=
      lowers_inScope invariant (lowers_statements supplies invariant alternative all.2) between
        bodyCode marked
    exact ⟨forall_mem_append.mpr ⟨declared, otherDeclared⟩, otherCode, behind⟩
  | repeatWhile condition body =>
    have start := labelled (labelled (labelled (invariant.visited rfl before)))
    obtain ⟨code, fit⟩ := fits_expression supplies condition all.1.2 (invariant.fitting start)
    exact lowers_inScope invariant (lowers_statements supplies invariant body all.2)
      (evaluated condition start) ((marked.append code).append (.branch fit))
      (.append .mark marked)
  | block body =>
    have inside := lowers_inScope invariant (lowers_statements supplies invariant body all.2)
      (invariant.visited rfl before) .nil .nil
    rwa [nil_append, append_nil] at inside
  | function callee parameters body =>
    have fit := supplies.function callee parameters body all.1
    have start : AllFit fits named [.functionStart callee parameters.length] :=
      .mark rfl rfl (by rintro _ ⟨⟩; exact fit)
    have finish : AllFit fits named [.functionEnd callee] :=
      .mark rfl rfl (by rintro _ ⟨⟩; exact fit)
    obtain ⟨declared, code, behind⟩ :=
      lowers_inScope invariant (lowers_statements supplies invariant body all.2)
        (invariant.function (labelled before)) (marked.append start) finish
    exact ⟨declared, code, invariant.fewer behind (Naming.entries_closeScope_subset _)⟩
  | giveBack value =>
    have behind := invariant.visited rfl before
    cases value with
    | none => exact ⟨forall_mem_nil _, .mark, behind⟩
    | some value =>
      obtain ⟨code, fit⟩ := fits_expression supplies value all.2 (invariant.fitting before)
      exact ⟨forall_mem_nil _, code.append (.reading fit), evaluated value behind⟩
  | print value =>
    obtain ⟨code, fit⟩ := fits_expression supplies value all.2 (invariant.fitting before)
    exact ⟨forall_mem_nil _, code.append (.reading fit),
      evaluated value (invariant.visited rfl before)⟩
  | expression value =>
    obtain ⟨code, -⟩ := fits_expression supplies value all.2 (invariant.fitting before)
    exact ⟨forall_mem_nil _, code, evaluated value (invariant.visited rfl before)⟩

theorem lowers_statements (supplies : SuppliesOwn onStatement onExpr fits named)
    (invariant : Invariant onStatement fits declares holds) (phrases : List Statement)
    (all : Statement.allIn onStatement onExpr phrases) {findings : Findings} {more : List Visit}
    {naming : Naming} (before : holds (Check.visitsAll phrases findings ++ more) naming) :
    Lowers fits named declares holds more (declaringsAll phrases naming)
      ((statements phrases).run naming) := by
  cases phrases with
  | nil => exact ⟨forall_mem_nil _, .nil, before⟩
  | cons first rest =>
    simp only [Statement.allIn, and_eq_true] at all
    rw [Check.visitsAll, append_assoc] at before
    obtain ⟨declared, code, between⟩ := lowers_statement supplies invariant first all.1 before
    obtain ⟨restDeclared, restCode, behind⟩ :=
      lowers_statements supplies invariant rest all.2 between
    exact ⟨forall_mem_append.mpr ⟨declared, restDeclared⟩, code.append restCode, behind⟩

end

/-- The names fit if all names that variables can get do. -/
theorem Supplies.invariant (supplies : Supplies onStatement onExpr fits named) :
    Invariant onStatement fits (fun _ => True) fun _ naming => naming.Fits fits where
  fitting := id
  fewer fit fewer entry member := fit entry (fewer member)
  visited _ := id
  declaration {name initial _ _ naming} condition fit := by
    have target : fits (.variable (naming.declare name).1) := by
      unfold Naming.declare
      split
      · exact supplies.declaration name initial condition
      · exact supplies.renamed name initial _ condition
    refine ⟨trivial, target, fun entry member => ?_⟩
    rcases Naming.mem_entries_declare member with rfl | old
    · exact target
    · exact fit entry old
  function fit entry member := by
    rcases Naming.mem_entries_openFunction member with ⟨-, depth, index, same⟩ | visible
    · exact same ▸ supplies.slot depth index
    · exact fit entry visible

end Lower

variable {program : Program}

section

variable {onStatement : Statement → Bool} {onExpr : Expr → Bool}
  (supplies : Lower.Supplies onStatement onExpr fits named)
  (all : Statement.allIn onStatement onExpr program.body)

include supplies all

theorem allFit_lower : Lower.AllFit fits named program.lower := by
  have start : (Naming.openScope {}).Fits fits := forall_mem_nil _
  have lowers := @Lower.lowers_statements _ _ _ _ _ _ supplies.own supplies.invariant
    program.body all { table := .empty .flat } [] _ start
  exact lowers.code

/-- A condition that comes with the parts of a program holds of all operands that the
lowered program reads or writes. -/
theorem forall_operands_lower : ∀ operand ∈ Code.operands program.lower, fits operand := by
  intro operand member
  obtain ⟨instruction, found, inside⟩ := mem_flatMap.mp member
  exact (allFit_lower supplies all instruction found).operands operand inside

end

theorem Program.allIn_true (program : Program) :
    Statement.allIn (fun _ => true) (fun _ => true) program.body :=
  @Statement.allIn_of_forall Empty nofun nofun _ _ (fun _ _ => rfl) (fun _ _ => rfl) _ nofun

/-- A lowered program computes into temporaries but assigns variables only. -/
theorem assignsVariables_lower (program : Program) : Code.AssignsVariables program.lower := by
  have supplies : Lower.Supplies (fun _ => true) (fun _ => true) fun _ => True :=
    ⟨by constructor <;> simp, by simp⟩
  exact fun instruction found =>
    (allFit_lower supplies program.allIn_true instruction found).assigns

end BanglaScript
