import BanglaScript.Proofs.Evaluation
import BanglaScript.Proofs.Lowering.Told

/-!
# The order in which operands are read

An expression that calls functions changes variables while it is evaluated, so
it matters when a variable is read.  Evaluated from left to right, a variable is
read when it is reached, before the operands to its right are evaluated.  It may
also stay unread until the operation or the call that takes it has all of its
operands.  The two ways differ only where a call to the right of a variable
changes it in between.

What a call gives and how it changes the variables is left open here.
-/

namespace BanglaScript

open List

/-- What the variables hold. -/
abbrev Variables (Value : Type) := String → Value

/-- The variables of a store. -/
def Store.named {Value : Type} (store : Store Value) : Variables Value :=
  fun name => store (.variable name)

/-- A store of which only the variables are known. -/
def Store.ofVariables {Value : Type} (meaning : Meaning Value) (values : Variables Value) :
    Store Value
  | .variable name => values name
  | .temporary _ => meaning.undefined

/-- When a variable is read: when it is reached, or when the operation or the call
takes it. -/
inductive Timing where
  | whenReached
  | whenTaken

/-- What stands for an operand until it is taken. -/
inductive Held (Value : Type) where
  | value (content : Value)
  | «variable» (name : String)

variable {Value : Type}

/-- The value of an operand that is taken now. -/
def Held.read (meaning : Meaning Value) (values : Variables Value) : Held Value → Value
  | .value content => content
  | .variable name => meaning.ofName (.ofVariables meaning values) name

/-- What stands for a variable that is reached. -/
def Timing.hold (meaning : Meaning Value) (values : Variables Value) (name : String) :
    Timing → Held Value
  | .whenReached => .value (meaning.ofName (.ofVariables meaning values) name)
  | .whenTaken => .variable name

/-- What calls do: the name of the function, the arguments, the variables before
the call, its result, what it prints and the variables behind it. -/
abbrev Calling (Value : Type) :=
  String → List Value → Variables Value → Value → List Value → Variables Value → Prop

section Evaluates

variable (meaning : Meaning Value) (resolve : String → String) (calling : Calling Value)
  (timing : Timing)

mutual

/-- An expression that is evaluated from left to right: the variables before, what
stands for its value, what is printed and the variables behind it. -/
inductive Expr.Evaluates :
    Expr → Variables Value → Held Value → List Value → Variables Value → Prop
  | literal {constant : Literal} {values : Variables Value} :
      Evaluates (.literal constant) values (.value (meaning.ofLiteral constant)) [] values
  | identifier {name : String} {values : Variables Value} :
      Evaluates (.identifier name) values (timing.hold meaning values (resolve name)) []
        values
  | binary {operator : BinaryOperator} {lhs rhs : Expr} {before middle after : Variables Value}
      {left right : Held Value} {first second : List Value}
      (evaluatedLeft : Evaluates lhs before left first middle)
      (evaluatedRight : Evaluates rhs middle right second after) :
      Evaluates (.binary operator lhs rhs) before
        (.value (meaning.apply operator (left.read meaning after) (right.read meaning after)))
        (first ++ second) after
  | call {name : String} {arguments : List Expr} {before middle after : Variables Value}
      {held : List (Held Value)} {result : Value} {first second : List Value}
      (evaluated : EvaluatesAll arguments before held first middle)
      (called : calling name (held.map (Held.read meaning middle)) middle result second after) :
      Evaluates (.call name arguments) before (.value result) (first ++ second) after

/-- Several expressions that are evaluated one after the other. -/
inductive Expr.EvaluatesAll :
    List Expr → Variables Value → List (Held Value) → List Value → Variables Value → Prop
  | nil {values : Variables Value} : EvaluatesAll [] values [] [] values
  | cons {expr : Expr} {exprs : List Expr} {before middle after : Variables Value}
      {held : Held Value} {others : List (Held Value)} {first second : List Value}
      (evaluated : Evaluates expr before held first middle)
      (next : EvaluatesAll exprs middle others second after) :
      EvaluatesAll (expr :: exprs) before (held :: others) (first ++ second) after

end

end Evaluates

/-! ## Steady expressions -/

section Steady

variable (mayChange : String → String → Prop) (resolve : String → String)

/-- A variable that waits while calls are made is not changed by them. -/
def Expr.IsKeptBy (calls : List Event) (expr : Expr) : Prop :=
  ∀ ⦃name function : String⦄, expr = .identifier name → .call function ∈ calls →
    ¬ mayChange function (resolve name)

mutual

/-- No call changes a variable that stands to its left in the expression and waits
to be taken. -/
def Expr.IsSteady : Expr → Prop
  | .binary _ lhs rhs =>
    lhs.IsSteady ∧ rhs.IsSteady ∧ lhs.IsKeptBy mayChange resolve rhs.calls
  | .call _ arguments => Expr.AreSteady arguments
  | _ => True

/-- No call changes a variable that stands to its left in one of the expressions
or among them. -/
def Expr.AreSteady : List Expr → Prop
  | [] => True
  | first :: rest =>
    first.IsSteady ∧ Expr.AreSteady rest ∧
      first.IsKeptBy mayChange resolve (Expr.callsAll rest)

end

end Steady

/-- Calls change only what they may change. -/
def Calling.Keeps (calling : Calling Value) (mayChange : String → String → Prop) : Prop :=
  ∀ ⦃function arguments before result printed after⦄,
    calling function arguments before result printed after →
      ∀ ⦃name⦄, ¬ mayChange function name → after name = before name

namespace Expr

variable {meaning : Meaning Value} {resolve : String → String} {calling : Calling Value}
  {timing : Timing} {mayChange : String → String → Prop} {before after : Variables Value}
  {printed : List Value}

mutual

/-- An expression keeps the variables that its calls may not change. -/
theorem keeps_of_evaluates (keeps : calling.Keeps mayChange) (expr : Expr)
    {before after : Variables Value} {held : Held Value} {printed : List Value}
    (evaluated : expr.Evaluates meaning resolve calling timing before held printed after)
    {name : String}
    (unchanged : ∀ function, .call function ∈ expr.calls → ¬ mayChange function name) :
    after name = before name := by
  cases expr with
  | literal | identifier =>
    cases evaluated
    rfl
  | binary operator lhs rhs =>
    cases evaluated with
    | binary evaluatedLeft evaluatedRight =>
      have left := keeps_of_evaluates keeps lhs evaluatedLeft fun function member =>
        unchanged function (mem_append_left _ member)
      have right := keeps_of_evaluates keeps rhs evaluatedRight fun function member =>
        unchanged function (mem_append_right _ member)
      exact right.trans left
  | call function arguments =>
    cases evaluated with
    | call evaluated called =>
      have given := keeps_of_evaluatesAll keeps arguments evaluated fun function member =>
        unchanged function (mem_append_left _ member)
      have kept := keeps called (unchanged function (mem_append_right _
        (mem_singleton_self _)))
      exact kept.trans given

theorem keeps_of_evaluatesAll (keeps : calling.Keeps mayChange) (exprs : List Expr)
    {before after : Variables Value} {held : List (Held Value)} {printed : List Value}
    (evaluated : EvaluatesAll meaning resolve calling timing exprs before held printed after)
    {name : String}
    (unchanged : ∀ function, .call function ∈ callsAll exprs → ¬ mayChange function name) :
    after name = before name := by
  cases exprs with
  | nil =>
    cases evaluated
    rfl
  | cons first rest =>
    cases evaluated with
    | cons evaluated next =>
      have here := keeps_of_evaluates keeps first evaluated fun function member =>
        unchanged function (mem_append_left _ member)
      have later := keeps_of_evaluatesAll keeps rest next fun function member =>
        unchanged function (mem_append_right _ member)
      exact later.trans here

end

/-- An operand that is kept has the same value when it is taken. -/
theorem read_eq_of_isKeptBy {expr : Expr} {held : Held Value}
    (evaluated : expr.Evaluates meaning resolve calling timing before held printed after)
    {calls : List Event} (kept : expr.IsKeptBy mayChange resolve calls)
    {later : Variables Value}
    (keeps : ∀ ⦃name⦄, (∀ function, .call function ∈ calls → ¬ mayChange function name) →
      later name = after name) :
    held.read meaning later = held.read meaning after := by
  cases evaluated with
  | @identifier name =>
    have same := keeps fun function member => kept rfl member
    cases timing with
    | whenReached => rfl
    | whenTaken => simp only [Timing.hold, Held.read, Meaning.ofName, Store.ofVariables, same]
  | _ => rfl

/-- Read when it is reached, a variable does not wait. -/
theorem eq_value_of_whenReached {expr : Expr} {held : Held Value}
    (evaluated : expr.Evaluates meaning resolve calling .whenReached before held printed after) :
    held = .value (held.read meaning after) := by
  cases evaluated <;> rfl

variable {other : Timing}

mutual

/-- In a steady expression the variables may be read at either time. -/
theorem exists_evaluates (keeps : calling.Keeps mayChange) (expr : Expr)
    (steady : expr.IsSteady mayChange resolve) {before after : Variables Value}
    {held : Held Value} {printed : List Value}
    (evaluated : expr.Evaluates meaning resolve calling timing before held printed after) :
    ∃ operand, expr.Evaluates meaning resolve calling other before operand printed after ∧
      operand.read meaning after = held.read meaning after := by
  cases expr with
  | literal =>
    cases evaluated
    exact ⟨_, .literal, rfl⟩
  | identifier =>
    cases evaluated
    exact ⟨_, .identifier, by cases timing <;> cases other <;> rfl⟩
  | binary operator lhs rhs =>
    obtain ⟨lhsSteady, rhsSteady, kept⟩ := steady
    cases evaluated with
    | binary evaluatedLeft evaluatedRight =>
      obtain ⟨_, leftEvaluated, leftSame⟩ := exists_evaluates keeps lhs lhsSteady evaluatedLeft
      obtain ⟨_, rightEvaluated, rightSame⟩ :=
        exists_evaluates keeps rhs rhsSteady evaluatedRight
      have waited := read_eq_of_isKeptBy evaluatedLeft kept fun _ =>
        keeps_of_evaluates keeps rhs evaluatedRight
      have waits := read_eq_of_isKeptBy leftEvaluated kept fun _ =>
        keeps_of_evaluates keeps rhs evaluatedRight
      refine ⟨_, .binary leftEvaluated rightEvaluated, ?_⟩
      rw [waits, leftSame, rightSame, ← waited]
  | call function arguments =>
    cases evaluated with
    | call evaluated called =>
      obtain ⟨_, evaluated, same⟩ := exists_evaluatesAll keeps arguments steady evaluated
      rw [← same] at called
      exact ⟨_, .call evaluated called, rfl⟩

theorem exists_evaluatesAll (keeps : calling.Keeps mayChange) (exprs : List Expr)
    (steady : AreSteady mayChange resolve exprs) {before after : Variables Value}
    {held : List (Held Value)} {printed : List Value}
    (evaluated : EvaluatesAll meaning resolve calling timing exprs before held printed after) :
    ∃ operands, EvaluatesAll meaning resolve calling other exprs before operands printed after ∧
      operands.map (Held.read meaning after) = held.map (Held.read meaning after) := by
  cases exprs with
  | nil =>
    cases evaluated
    exact ⟨[], .nil, rfl⟩
  | cons first rest =>
    obtain ⟨firstSteady, restSteady, kept⟩ := steady
    cases evaluated with
    | cons evaluated next =>
      obtain ⟨operand, firstEvaluated, same⟩ := exists_evaluates keeps first firstSteady evaluated
      obtain ⟨operands, restEvaluated, others⟩ := exists_evaluatesAll keeps rest restSteady next
      have waited := read_eq_of_isKeptBy evaluated kept fun _ =>
        keeps_of_evaluatesAll keeps rest next
      have waits := read_eq_of_isKeptBy firstEvaluated kept fun _ =>
        keeps_of_evaluatesAll keeps rest next
      refine ⟨operand :: operands, .cons firstEvaluated restEvaluated, ?_⟩
      rw [map_cons, map_cons, others, waits, same, waited]

end

end Expr

end BanglaScript
