import BanglaScript.Proofs.Lowering.Mentioned

/-!
# Names under flat scoping

Lowering renames a variable that hides another one.  Under flat scoping no variable of
a valid program does.  Checking keeps every name that a variable, a function or a
parameter has introduced, and refuses another variable of that name, while lowering
knows only the names of the open scopes.  So the names that lowering knows are always
among those that checking knows.
-/

namespace BanglaScript

variable {name : String} {types : Types} {onStatement : Statement → Bool} {onExpr : Expr → Bool}
  {fits : Operand → Prop}

/-- A name that has a type has one behind every statement that declares something new. -/
theorem Visit.retype_ne_none {visit : Visit}
    (new : ∀ name ∈ visit.phrase.declared, types name = none) (given : types name ≠ none) :
    visit.retype types name ≠ none := by
  obtain ⟨_, typed⟩ := Option.ne_none_iff_exists'.mp given
  rw [retype_of_typed new typed]
  exact Option.some_ne_none _

/-- Checking knows the names in use and goes on with the visits. -/
def Naming.IsKnown (fits : Operand → Prop) (behind : Findings) (visits : List Visit)
    (naming : Naming) : Prop :=
  ∃ types, Follow types visits behind ∧
    ∀ entry ∈ naming.entries, types entry.1 ≠ none ∧ fits (.variable entry.2)

/-- No name that is declared is in use, so every variable keeps its name. -/
theorem Lower.SuppliesOwn.invariant (supplies : SuppliesOwn onStatement onExpr fits)
    (behind : Findings) :
    Invariant onStatement fits (fun declared => declared.2.bound? declared.1 = none)
      (Naming.IsKnown fits behind) where
  fitting := fun ⟨_, _, known⟩ entry member => (known entry member).2
  fewer := fun ⟨types, follow, known⟩ fewer =>
    ⟨types, follow, fun entry member => known entry (fewer member)⟩
  visited {visit _ _} nothing := fun ⟨types, follow, known⟩ => by
    cases follow with
    | cons _ new _ rest =>
      exact ⟨_, rest, fun entry member =>
        ⟨Visit.retype_ne_none new (known entry member).1, (known entry member).2⟩⟩
  declaration {name initial _ _ naming} condition := fun ⟨types, follow, known⟩ => by
    cases follow with
    | cons _ new _ rest =>
      have free : naming.bound? name = none := by
        cases bound : naming.bound? name with
        | none => rfl
        | some =>
          have unknown := new name (List.mem_singleton_self name)
          exact absurd unknown (known _ (Naming.exists_of_bound? bound)).1
      have own := supplies.declaration name initial condition
      have target : (naming.declare name).1 = name := by rw [Naming.declare, free]
      refine ⟨free, target.symm ▸ own, _, rest, fun entry member => ?_⟩
      rcases Naming.mem_entries_declare member with rfl | old
      · refine ⟨?_, target.symm ▸ own⟩
        cases initial <;> simp [Visit.retype]
      · exact ⟨Visit.retype_ne_none new (known entry old).1, (known entry old).2⟩
  function := fun ⟨types, follow, known⟩ => by
    cases follow with
    | cons _ new _ rest =>
      refine ⟨_, rest, fun entry member => ?_⟩
      rcases Naming.mem_entries_openFunction member with ⟨parameter, depth, index, same⟩ | old
      · exact ⟨by simp [Visit.retype, parameter], same ▸ supplies.slot depth index⟩
      · exact ⟨Visit.retype_ne_none new (known entry old).1, (known entry old).2⟩

/-! ## Programs -/

/-- The variables that lowering a program declares, each with the names in use where it gets
its own. -/
def Program.declarings (program : Program) : List (String × Naming) :=
  Lower.declaringsAll program.body (Naming.openScope {})

/-- An expression is not the variable. -/
def Expr.avoids (name : String) : Expr → Bool
  | .identifier other => other ≠ name
  | _ => true

/-- A statement does not declare or assign the variable. -/
def Statement.avoids (name : String) : Statement → Bool
  | .declaration other _ | .assignment other _ => other ≠ name
  | _ => true

/-- The program declares, assigns or reads a variable of the name. -/
def Program.hasVariable (program : Program) (name : String) : Bool :=
  !Statement.allIn (Statement.avoids name) (Expr.avoids name) program.body

/-- A variable that the program does not have can only be a slot. -/
theorem suppliesOwn_avoids (name : String) :
    Lower.SuppliesOwn (Statement.avoids name) (Expr.avoids name) fun operand =>
      operand = .variable name → ∃ depth index, name = slotName depth index where
  temporary _ := nofun
  number _ _ := nofun
  string _ _ := nofun
  identifier _ other same := absurd (Operand.variable.inj same) (of_decide_eq_true other)
  assignment _ _ other same := absurd (Operand.variable.inj same) (of_decide_eq_true other)
  declaration _ _ other same := absurd (Operand.variable.inj same) (of_decide_eq_true other)
  slot depth index same := ⟨depth, index, (Operand.variable.inj same).symm⟩

/-- In a program that is valid under flat scoping no variable hides another one, so each gets
its own name.  The variables that the lowered program reads and writes are variables of
the program under these names, and slots of parameters. -/
theorem declare_eq_self_of_flat {program : Program} (valid : (program.check .flat).isValid) :
    (∀ declared ∈ program.declarings,
      declared.2.bound? declared.1 = none ∧ (declared.2.declare declared.1).1 = declared.1) ∧
    ∀ name, .variable name ∈ Code.operands program.lower →
      program.hasVariable name ∨ ∃ depth index, name = slotName depth index := by
  have follow := Check.follow_visitsAll program.body .empty (List.isEmpty_iff.mp valid)
  rw [← List.append_nil (Check.visitsAll _ _)] at follow
  have start (fits : Operand → Prop) : (Naming.openScope {}).IsKnown fits _ _ :=
    ⟨_, follow, List.forall_mem_nil _⟩
  refine ⟨fun declared member => ?_, fun name member => or_iff_not_imp_left.mpr fun lacks => ?_⟩
  · have supplies : Lower.SuppliesOwn (fun _ => true) (fun _ => true) fun _ => True := by
      constructor <;> simp
    have lowers := Lower.lowers_statements supplies (supplies.invariant _) program.body
      program.allIn_true (start _)
    have free := lowers.declared declared member
    exact ⟨free, by rw [Naming.declare, free]⟩
  · rw [Program.hasVariable, Bool.not_eq_true', Bool.not_eq_false] at lacks
    have supplies := suppliesOwn_avoids name
    have lowers := Lower.lowers_statements supplies (supplies.invariant _) program.body lacks
      (start _)
    obtain ⟨instruction, found, inside⟩ := List.mem_flatMap.mp member
    exact (lowers.code instruction found).1 _ inside rfl

/-- A function has two parameters with the name of a variable, and declares others in its
body and in a block. -/
def reusingParameters : Program :=
  ⟨[.declaration "x" (some (.literal (.string "a"))),
    .function "f" ["x", "x"]
      [.declaration "y" none, .assignment "y" (.identifier "x"),
        .block [.declaration "z" (some (.identifier "y")), .print (.identifier "z")]],
    .print (.identifier "x")]⟩

theorem declare_eq_self_reusingParameters :
    (reusingParameters.check .flat).isValid ∧
      reusingParameters.declarings.map Prod.fst = ["x", "y", "z"] ∧
      (∀ declared ∈ reusingParameters.declarings,
        declared.2.bound? declared.1 = none ∧ (declared.2.declare declared.1).1 = declared.1) ∧
      .variable "param1" ∈ Code.operands reusingParameters.lower ∧
      (reusingParameters.hasVariable "param1" ∨
        ∃ depth index, "param1" = slotName depth index) := by
  have valid : (reusingParameters.check .flat).isValid := by decide
  have read : .variable "param1" ∈ Code.operands reusingParameters.lower := by decide
  have ⟨own, names⟩ := declare_eq_self_of_flat valid
  exact ⟨valid, by decide, own, read, names _ read⟩

end BanglaScript
