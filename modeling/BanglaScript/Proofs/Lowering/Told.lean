import BanglaScript.Proofs.Structure.Told

/-!
# What programs tell

Which functions a program declares and calls, and where it returns, can be read off
its tree.  The nodes of the program tell the same, whatever names and temporaries
they use.
-/

namespace BanglaScript

open Eventful StateRun Account

mutual

/-- The calls of an expression, in the order in which they are made. -/
def Expr.calls : Expr → List Event
  | .binary _ lhs rhs => lhs.calls ++ rhs.calls
  | .identifier _ => []
  | .literal _ => []
  | .call name arguments => Expr.callsAll arguments ++ [.call name]

/-- The calls of several expressions. -/
def Expr.callsAll : List Expr → List Event
  | [] => []
  | first :: rest => first.calls ++ Expr.callsAll rest

end

mutual

/-- The calls, functions and returns of a statement. -/
def Statement.account : Statement → Account
  | .declaration _ none => .nothing
  | .declaration _ (some initial) => .of initial.calls
  | .assignment _ value => .of value.calls
  | .ifThen condition body => (Account.of condition.calls).next (Statement.accountAll body)
  | .ifElse condition body alternative =>
    ((Account.of condition.calls).next (Statement.accountAll body)).next
      (Statement.accountAll alternative)
  | .repeatWhile condition body => (Account.of condition.calls).next (Statement.accountAll body)
  | .block body => Statement.accountAll body
  | .function name _ body => .function name (Statement.accountAll body)
  | .giveBack none => .of [.giveBack]
  | .giveBack (some value) => .of (value.calls ++ [.giveBack])
  | .print value => .of value.calls
  | .expression value => .of value.calls

/-- The calls, functions and returns of statements, one after the other. -/
def Statement.accountAll : List Statement → Account
  | [] => .nothing
  | first :: rest => first.account.next (Statement.accountAll rest)

end

/-- The calls, functions and returns of a program, with the functions around them. -/
def Program.events (program : Program) : List (List Nat × Event) :=
  (Statement.accountAll program.body).events [] 0

namespace Node.Direct

/-- What the nodes tell, apart from the uses of names. -/
abbrev marked (nodes : List Node) : Account := (accountAll nodes).withoutUses

theorem marked_append (first second : List Node) :
    marked (first ++ second) = (marked first).next (marked second) := by
  rw [marked, accountAll_append, withoutUses_next]

theorem marked_singleton (node : Node) : marked [node] = (account node).withoutUses := by
  rw [marked, accountAll, accountAll, next_nothing]

theorem marked_assign (target : Place) (value : Operand) :
    marked (assign target value) = .nothing := by
  unfold assign
  split
  · rfl
  · rw [marked_singleton, account, withoutUses_of]
    exact congrArg Account.of (Event.filter_ofReads_append [value] [] (some target))

/-- A condition is only read. -/
theorem withoutUses_condition (condition : Operand) :
    (Account.of (Event.ofReads [condition])).withoutUses = .nothing := by
  have read := Event.filter_ofReads_append [condition] [] none
  rw [List.append_nil] at read
  rw [withoutUses_of, ← List.append_nil (Event.ofReads [condition])]
  exact congrArg Account.of read

mutual

/-- The nodes of an expression call what the expression calls. -/
theorem marked_expression (expr : Expr) (naming : Naming) :
    marked ((expression expr).run naming).1.1 = .of expr.calls := by
  cases expr with
  | literal constant => cases constant <;> rfl
  | identifier => rfl
  | binary operator lhs rhs =>
    simp only [expression, Expr.calls, of_append, run_bind, run_pure, marked_append,
      marked_singleton, account, withoutUses_of, marked_expression lhs, marked_expression rhs]
    rw [filter_events_of_computed rfl]
    exact next_nothing _
  | call name arguments =>
    rw [expression, Expr.calls, of_append, ← marked_expressions arguments naming]
    simp only [run_bind, run_pure, marked_append, marked_singleton, account, withoutUses_of]
    rw [Event.filter_ofReads_append]
    rfl

theorem marked_expressions (exprs : List Expr) (naming : Naming) :
    marked ((expressions exprs).run naming).1.1 = .of (Expr.callsAll exprs) := by
  cases exprs with
  | nil => rfl
  | cons first rest =>
    simp only [expressions, Expr.callsAll, of_append, run_bind, run_pure, marked_append,
      marked_expression first, marked_expressions rest]

end

/-- The node behind the nodes of an expression. -/
theorem marked_expression_append (expr : Expr) (naming : Naming) (node : Node) :
    marked (((expression expr).run naming).1.1 ++ [node]) =
      (Account.of expr.calls).next (account node).withoutUses := by
  rw [marked_append, marked_singleton, marked_expression]

mutual

/-- The nodes of a statement tell what the statement tells. -/
theorem marked_statement (phrase : Statement) (naming : Naming) :
    marked ((statement phrase).run naming).1 = phrase.account := by
  cases phrase with
  | declaration name initial =>
    cases initial with
    | none => rfl
    | some initial =>
      simp only [statement, Statement.account, run_bind, run_pure, marked_append,
        marked_expression, marked_assign, next_nothing]
  | assignment name value =>
    simp only [statement, Statement.account, run_bind, run_pure, marked_append, marked_expression,
      marked_assign, next_nothing]
  | ifThen condition body | ifElse condition body alternative | repeatWhile condition body
  | function name parameters body =>
    simp only [statement, Statement.account, run_bind, run_pure, Lower.run_inScope, marked_append,
      marked_singleton, marked_expression, account, withoutUses_next, withoutUses_function,
      withoutUses_condition, nothing_next, next_assoc, marked_statements]
  | block body => exact marked_statements body naming.openScope
  | giveBack value =>
    cases value with
    | none => rfl
    | some value =>
      rw [statement, Statement.account, of_append]
      refine (marked_expression_append value naming _).trans (congrArg _ ?_)
      rw [account, withoutUses_of]
      exact congrArg Account.of (Event.filter_ofReads_append _ [.giveBack] none)
  | print value =>
    rw [statement, Statement.account]
    refine (marked_expression_append value naming _).trans ?_
    rw [account, withoutUses_of]
    refine (congrArg (Account.next _ ∘ Account.of)
      (Event.filter_ofReads_append _ [] none)).trans ?_
    exact next_nothing _
  | expression value => exact marked_expression value naming

theorem marked_statements (phrases : List Statement) (naming : Naming) :
    marked ((statements phrases).run naming).1 = Statement.accountAll phrases := by
  cases phrases with
  | nil => rfl
  | cons first rest =>
    simp only [statements, Statement.accountAll, run_bind, run_pure, marked_append,
      marked_statement first, marked_statements rest]

end

end Node.Direct

end BanglaScript
