import BanglaScript.Proofs.Check.Closed
import BanglaScript.Proofs.Lowering.Names

/-!
# Scopes of lowered programs

Lowering statements adds to the innermost scope only, and lowering a block
leaves all scopes as they were.  The names of visible variables stay apart from
each other throughout, and every name that has been declared is bound.
-/

namespace BanglaScript

variable {name : String}

/-- A statement of a program without functions in which variables are declared
together with their values.  The truth values are not declared. -/
def Statement.isBasic : Statement → Bool
  | .declaration name initial => initial.isSome ∧ name ≠ "true" ∧ name ≠ "false"
  | .function _ _ _ | .giveBack _ => false
  | _ => true

/-- An expression of a program without functions. -/
def Expr.isBasic : Expr → Bool
  | .call _ _ => false
  | _ => true

/-- A program without functions, calls and returns, in which variables are
declared together with their values and the truth values are not declared. -/
def Program.isBasic (program : Program) : Bool :=
  Statement.allIn Statement.isBasic Expr.isBasic program.body

/-- A statement does not declare a name with a dollar sign. -/
def Statement.declaresWord : Statement → Bool
  | .declaration name _ => '$' ∉ name.toList
  | _ => true

/-- No declaration of the program is of a name with a dollar sign. -/
def Program.declaresWords (program : Program) : Bool :=
  Statement.allIn Statement.declaresWord (fun _ => true) program.body

namespace Statement

/-- The statement declares a variable. -/
def isDeclaration : Statement → Bool
  | .declaration _ _ => true
  | _ => false

/-- Both conditions on a statement. -/
def isPlain (statement : Statement) : Bool := statement.isBasic && statement.declaresWord

theorem allIn_isPlain (statements : List Statement)
    (basic : allIn isBasic Expr.isBasic statements)
    (words : allIn declaresWord (fun _ => true) statements) :
    allIn isPlain Expr.isBasic statements := by
  let conditions (isFirst : Bool) : Statement → Bool := if isFirst then isBasic else declaresWord
  let exprConditions (isFirst : Bool) : Expr → Bool :=
    if isFirst then Expr.isBasic else fun _ => true
  have both (isFirst : Bool) : allIn (conditions isFirst) (exprConditions isFirst) statements := by
    cases isFirst
    · exact words
    · exact basic
  exact allIn_of_forall (fun _ holds => holds true)
    (fun _ holds => Bool.and_eq_true_iff.mpr ⟨holds true, holds false⟩) statements both

/-- The name of a plain declaration is plain. -/
theorem isPlain_of_declaration {initial : Option Expr}
    (plain : isPlain (.declaration name initial)) :
    initial.isSome ∧ Naming.IsPlain name := by
  simp only [isPlain, isBasic, declaresWord, Bool.and_eq_true, decide_eq_true_eq] at plain
  exact ⟨plain.1.1, plain.2, plain.1.2.1, plain.1.2.2⟩

end Statement

namespace Lower

/-- Only the innermost scope has changed. -/
structure Grows (before after : Naming) : Prop where
  outer : after.scopes.tail = before.scopes.tail
  renames : before.renames ≤ after.renames

/-- The scopes are the same, and at least as many fresh names are used. -/
structure SameScopes (before after : Naming) : Prop where
  scopes : after.scopes = before.scopes
  renames : before.renames ≤ after.renames

theorem Grows.trans {first second third : Naming} (here : Grows first second)
    (there : Grows second third) : Grows first third :=
  ⟨there.outer.trans here.outer, Nat.le_trans here.renames there.renames⟩

theorem grows_declare (naming : Naming) (name : String) : Grows naming (naming.declare name).2 :=
  ⟨naming.tail_scopes_declare name, (Naming.declare_named naming name).1⟩

theorem SameScopes.grows {before after : Naming} (same : SameScopes before after) :
    Grows before after :=
  ⟨congrArg List.tail same.scopes, same.renames⟩

theorem SameScopes.trans {first second third : Naming} (here : SameScopes first second)
    (there : SameScopes second third) : SameScopes first third :=
  ⟨there.scopes.trans here.scopes, Nat.le_trans here.renames there.renames⟩

end Lower

/-- Names of visible variables are apart from each other, and the given names
are bound. -/
structure Naming.Ready (naming : Naming) (names : List String) : Prop where
  separates : naming.Separates
  bound : ∀ name ∈ names, (naming.bound? name).isSome

namespace Naming.Ready

variable {naming : Naming} {names : List String}

theorem of_sameScopes (ready : naming.Ready names) {later : Naming}
    (same : Lower.SameScopes naming later) : later.Ready names :=
  ⟨ready.separates.of_scopes same.scopes same.renames, fun name member => by
    rw [bound?, same.scopes]
    exact ready.bound name member⟩

theorem openScope (ready : naming.Ready names) : naming.openScope.Ready names :=
  ⟨ready.separates.openScope, ready.bound⟩

theorem declare (ready : naming.Ready names) {name : String} (plain : IsPlain name) :
    (naming.declare name).2.Ready (name :: names) := by
  refine ⟨ready.separates.declare plain, fun other member => ?_⟩
  obtain ⟨_, _, before, after⟩ := ready.separates.declare_scopes name
  rw [bound?, after, List.findSome?_cons, List.lookup_cons]
  by_cases same : other = name
  · simp [same]
  · have old := ready.bound other ((List.mem_cons.mp member).resolve_left same)
    rw [bound?, before, List.findSome?_cons] at old
    rw [beq_false_of_ne same]
    exact old

end Naming.Ready

namespace Lower

open StateRun Statement

variable {names : List String}

theorem sameScopes_expression (expr : Expr) (naming : Naming) :
    SameScopes naming ((expression expr).run naming).2 :=
  ⟨run_expression_scopes expr naming, Nat.le_of_eq (run_expression_renames expr naming).symm⟩

theorem sameScopes_label (naming : Naming) : SameScopes naming (label.run naming).2 :=
  ⟨rfl, Nat.le_refl _⟩

variable {naming : Naming}

theorem sameScopes_inScope {α : Type} {inside : Lower α}
    (grows : Grows naming.openScope (inside.run naming.openScope).2) :
    SameScopes naming ((inScope inside).run naming).2 :=
  ⟨grows.outer, grows.renames⟩

mutual

/-- A statement other than a declaration leaves the scopes as they were. -/
theorem sameScopes_statement (phrase : Statement) (naming : Naming)
    (other : phrase.isDeclaration = false) :
    SameScopes naming ((statement phrase).run naming).2 := by
  cases phrase with
  | declaration => cases other
  | assignment name value | print value => exact sameScopes_expression value naming
  | ifThen condition body =>
    exact (sameScopes_expression condition naming).trans ((sameScopes_label _).trans
      ((sameScopes_label _).trans (sameScopes_inScope (grows_statements body _))))
  | ifElse condition body alternative =>
    have tested := (sameScopes_expression condition naming).trans
      ((sameScopes_label _).trans ((sameScopes_label _).trans (sameScopes_label _)))
    exact tested.trans ((sameScopes_inScope (grows_statements body _)).trans
      (sameScopes_inScope (grows_statements alternative _)))
  | repeatWhile condition body =>
    have labelled := (sameScopes_label naming).trans
      ((sameScopes_label _).trans (sameScopes_label _))
    exact labelled.trans ((sameScopes_expression condition _).trans
      (sameScopes_inScope (grows_statements body _)))
  | block body => exact sameScopes_inScope (grows_statements body _)
  | function name parameters body =>
    have inside := sameScopes_inScope (grows_statements body
      ((label.run naming).2.openFunction parameters).openScope)
    exact ⟨congrArg List.tail inside.scopes, inside.renames⟩
  | giveBack value =>
    cases value with
    | none => exact ⟨rfl, Nat.le_refl _⟩
    | some value => exact sameScopes_expression value naming
  | expression value => exact sameScopes_expression value naming

/-- Statements add to the innermost scope only. -/
theorem grows_statements (phrases : List Statement) (naming : Naming) :
    Grows naming ((statements phrases).run naming).2 := by
  cases phrases with
  | nil => exact ⟨rfl, Nat.le_refl _⟩
  | cons first rest =>
    have here : Grows naming ((statement first).run naming).2 := by
      cases first with
      | declaration name initial =>
        cases initial with
        | none => exact grows_declare naming name
        | some value =>
          exact (sameScopes_expression value naming).grows.trans (grows_declare _ name)
      | _ => exact SameScopes.grows (sameScopes_statement _ naming rfl)
    exact here.trans (grows_statements rest _)

end

/-- A statement makes the names visible that it declares. -/
theorem ready_statement (phrase : Statement) (ready : naming.Ready names)
    (plain : phrase.all isPlain Expr.isBasic) :
    ((statement phrase).run naming).2.Ready (phrase.declared ++ names) := by
  cases phrase with
  | declaration =>
    simp only [all, Bool.and_eq_true] at plain
    obtain ⟨given, namePlain⟩ := isPlain_of_declaration plain.1
    obtain ⟨value, rfl⟩ := Option.isSome_iff_exists.mp given
    exact (ready.of_sameScopes (sameScopes_expression value naming)).declare namePlain
  | function => simp [all, isPlain, isBasic] at plain
  | _ => exact ready.of_sameScopes (sameScopes_statement _ naming rfl)

end Lower

end BanglaScript
