import BanglaScript.Instruction.Lowering
import BanglaScript.Proofs.StateRun

/-!
# What lowering changes

Lowering an expression hands out temporaries and changes nothing else.
Lowering a block hands out temporaries, labels and fresh names, and leaves the
open scopes as they were.
-/

namespace BanglaScript

open Naming

namespace Naming

/-- The same names with another number of labels. -/
def withLabels (naming : Naming) (labels : Nat) : Naming := { naming with labels := labels }

/-- The same names with another number of temporaries. -/
def withTemporaries (naming : Naming) (temporaries : Nat) : Naming :=
  { naming with temporaries := temporaries }

variable (naming : Naming)

@[simp]
theorem withLabels_withLabels (first second : Nat) :
    (naming.withLabels first).withLabels second = naming.withLabels second :=
  rfl

@[simp]
theorem withLabels_labels (labels : Nat) : (naming.withLabels labels).labels = labels :=
  rfl

@[simp]
theorem withLabels_scopes (labels : Nat) : (naming.withLabels labels).scopes = naming.scopes :=
  rfl

@[simp]
theorem withTemporaries_withTemporaries (first second : Nat) :
    (naming.withTemporaries first).withTemporaries second = naming.withTemporaries second :=
  rfl

@[simp]
theorem withTemporaries_temporaries (temporaries : Nat) :
    (naming.withTemporaries temporaries).temporaries = temporaries :=
  rfl

@[simp]
theorem withTemporaries_labels (temporaries : Nat) :
    (naming.withTemporaries temporaries).labels = naming.labels :=
  rfl

@[simp]
theorem withTemporaries_scopes (temporaries : Nat) :
    (naming.withTemporaries temporaries).scopes = naming.scopes :=
  rfl

@[simp]
theorem withTemporaries_renames (temporaries : Nat) :
    (naming.withTemporaries temporaries).renames = naming.renames :=
  rfl

@[simp]
theorem closeFunction_labels : naming.closeFunction.labels = naming.labels :=
  rfl

/-- A declaration changes only the scopes and the number of names that have been
renamed. -/
theorem declare_snd (name : String) :
    (naming.declare name).2 =
      { naming with
        scopes := (naming.declare name).2.scopes
        renames := (naming.declare name).2.renames } := by
  unfold declare
  split <;> simp only [bind] <;> split <;> rfl

@[simp]
theorem declare_labels (name : String) : (naming.declare name).2.labels = naming.labels := by
  rw [declare_snd]

@[simp]
theorem declare_temporaries (name : String) :
    (naming.declare name).2.temporaries = naming.temporaries := by
  rw [declare_snd]

/-- A declaration adds one entry to the innermost scope. -/
theorem scopes_declare {naming : Naming} {scope : List (String × String)}
    {outer : List (List (String × String))} (scopes : naming.scopes = scope :: outer)
    (name : String) :
    (naming.declare name).2.scopes = ((name, (naming.declare name).1) :: scope) :: outer := by
  unfold declare
  split <;> simp only [bind, scopes]

/-- A declaration changes the innermost scope only. -/
theorem tail_scopes_declare (naming : Naming) (name : String) :
    (naming.declare name).2.scopes.tail = naming.scopes.tail := by
  cases scopes : naming.scopes with
  | nil =>
    unfold declare
    split <;> simp only [bind, scopes]
  | cons =>
    rw [scopes_declare scopes]
    rfl

end Naming

namespace Lower

open StateRun

theorem run_temporary (naming : Naming) :
    temporary.run naming =
      (naming.temporaries + 1, naming.withTemporaries (naming.temporaries + 1)) :=
  rfl

theorem run_label (naming : Naming) :
    label.run naming = (naming.labels + 1, naming.withLabels (naming.labels + 1)) :=
  rfl

theorem run_resolve (name : String) (naming : Naming) :
    (resolve name).run naming = (naming.resolve name, naming) :=
  rfl

theorem run_inScope {α : Type} (inside : Lower α) (naming : Naming) :
    (inScope inside).run naming =
      ((inside.run naming.openScope).1, (inside.run naming.openScope).2.closeScope) :=
  rfl

theorem run_declare (name : String) (naming : Naming) :
    (declare name).run naming = naming.declare name :=
  rfl

mutual

/-- Lowering an expression hands out temporaries only. -/
theorem run_expression_naming (expr : Expr) (naming : Naming) :
    ∃ count, ((expression expr).run naming).2 =
      naming.withTemporaries (naming.temporaries + count) := by
  cases expr with
  | literal constant => cases constant <;> exact ⟨0, rfl⟩
  | identifier => exact ⟨0, rfl⟩
  | binary operator lhs rhs =>
    obtain ⟨lhsCount, lhsNaming⟩ := run_expression_naming lhs naming
    obtain ⟨rhsCount, rhsNaming⟩ :=
      run_expression_naming rhs (naming.withTemporaries (naming.temporaries + lhsCount))
    refine ⟨lhsCount + rhsCount + 1, ?_⟩
    simp only [expression, run_bind, run_pure, run_temporary, lhsNaming, rhsNaming,
      withTemporaries_withTemporaries, withTemporaries_temporaries,
      Nat.add_assoc]
  | call name arguments =>
    obtain ⟨count, argumentsNaming⟩ := run_expressions_naming arguments naming
    refine ⟨count + 1, ?_⟩
    simp only [expression, run_bind, run_pure, run_temporary, argumentsNaming,
      withTemporaries_withTemporaries, withTemporaries_temporaries,
      Nat.add_assoc]

/-- Lowering several expressions hands out temporaries only. -/
theorem run_expressions_naming (exprs : List Expr) (naming : Naming) :
    ∃ count, ((expressions exprs).run naming).2 =
      naming.withTemporaries (naming.temporaries + count) := by
  cases exprs with
  | nil => exact ⟨0, rfl⟩
  | cons first rest =>
    obtain ⟨firstCount, firstNaming⟩ := run_expression_naming first naming
    obtain ⟨restCount, restNaming⟩ :=
      run_expressions_naming rest (naming.withTemporaries (naming.temporaries + firstCount))
    refine ⟨firstCount + restCount, ?_⟩
    simp only [expressions, run_bind, run_pure, firstNaming, restNaming,
      withTemporaries_withTemporaries, withTemporaries_temporaries,
      Nat.add_assoc]

end

@[simp]
theorem run_expression_labels (expr : Expr) (naming : Naming) :
    ((expression expr).run naming).2.labels = naming.labels := by
  obtain ⟨_, naming_eq⟩ := run_expression_naming expr naming
  rw [naming_eq, withTemporaries_labels]

@[simp]
theorem run_expression_scopes (expr : Expr) (naming : Naming) :
    ((expression expr).run naming).2.scopes = naming.scopes := by
  obtain ⟨_, naming_eq⟩ := run_expression_naming expr naming
  rw [naming_eq, withTemporaries_scopes]

@[simp]
theorem run_expression_renames (expr : Expr) (naming : Naming) :
    ((expression expr).run naming).2.renames = naming.renames := by
  obtain ⟨_, naming_eq⟩ := run_expression_naming expr naming
  rw [naming_eq, withTemporaries_renames]

end Lower

end BanglaScript
