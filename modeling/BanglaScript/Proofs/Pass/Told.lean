import BanglaScript.Compile
import BanglaScript.Proofs.Pass.WellFormed

/-!
# What optimized code tells

The passes tell nothing new: whatever optimized code does in a body, the code did
there before.  Folding replaces names by numbers, and a value that is held has been
written in the same body, as nothing is held across the ends of a function.
-/

namespace BanglaScript

open Eventful List

namespace Pass

variable {first second : Instruction} {spot : Spot} {told : List (List Nat × Event)}

/-- Instructions that may stand for each other open and close the same. -/
theorem Replaces.behind_eq (replaces : Replaces first second) (spot : Spot) :
    behind second spot = behind first spot := by
  have stays {instruction : Instruction} {place : Place}
      (computed : instruction.computed? = some place) : behind instruction spot = spot := by
    cases instruction with
    | assign | binary => rfl
    | _ => cases computed
  rcases replaces with rfl | ⟨place, firstPlace, secondPlace⟩
  · rfl
  · rw [stays firstPlace, stays secondPlace]

/-- What the rest tells, behind a step that tells nothing new. -/
theorem eventsFrom_cons_subset {rest result : List Instruction} (told : List (List Nat × Event))
    (replaces : Replaces first second)
    (here : (events second).map (spot.bodies, ·) ⊆ told ++ (events first).map (spot.bodies, ·))
    (later : eventsFrom (behind first spot) result ⊆
      (told ++ (events first).map (spot.bodies, ·)) ++ eventsFrom (behind first spot) rest) :
    eventsFrom spot (second :: result) ⊆ told ++ eventsFrom spot (first :: rest) := by
  rw [eventsFrom_cons, eventsFrom_cons, replaces.behind_eq, ← append_assoc]
  exact append_subset.mpr ⟨subset_append_of_subset_left _ here, later⟩

/-! ## Folding -/

theorem storage?_substitute {constants : Constants} {operand : Operand} {name : String}
    (read : (constants.substitute operand).storage? = some name) :
    operand.storage? = some name := by
  cases operand with
  | temporary =>
    rw [Constants.substitute] at read
    split at read
    · cases read
    · exact read
  | _ => exact read

theorem ofReads_substitute_subset (constants : Constants) (operands : List Operand) :
    Event.ofReads (operands.map constants.substitute) ⊆ Event.ofReads operands := by
  intro event member
  obtain ⟨_, used, rfl⟩ := mem_map.mp member
  obtain ⟨_, substituted, read⟩ := mem_filterMap.mp used
  obtain ⟨original, held, rfl⟩ := mem_map.mp substituted
  exact mem_map_of_mem (mem_filterMap.mpr ⟨original, held, storage?_substitute read⟩)

/-- Folding replaces names by numbers. -/
theorem Folds.events_subset {constants : Constants} {instruction folded : Instruction}
    (folds : Folds constants instruction folded) : events folded ⊆ events instruction := by
  have subset (operands : List Operand) (target : Option Place) :
      Event.ofReads (operands.map constants.substitute) ++ [] ++ Event.ofWrite target ⊆
        Event.ofReads operands ++ [] ++ Event.ofWrite target := by
    rw [append_nil, append_nil]
    exact append_subset.mpr
      ⟨subset_append_of_subset_left _ (ofReads_substitute_subset constants operands),
        subset_append_right _ _⟩
  cases folds with
  | evaluate => exact subset_append_right _ _
  | operate target lhs rhs => exact subset [lhs, rhs] (some (.temporary target))
  | assign target value => exact subset [value] (some target)
  | keep => exact List.Subset.refl _

theorem eventsFrom_foldFrom_subset (constants : Constants) (code : List Instruction) (spot : Spot) :
    eventsFrom spot (foldFrom constants code) ⊆ eventsFrom spot code := by
  induction code generalizing constants spot with
  | nil => exact List.Subset.refl _
  | cons first rest ih =>
    refine eventsFrom_cons_subset [] (replaces_foldStep constants first) ?_ ?_
    · exact map_subset _ (folds_foldStep constants first).events_subset
    · exact subset_append_of_subset_right _ (ih _ _)

/-! ## Strength reduction -/

theorem events_shiftStep (instruction : Instruction) :
    events (shiftStep instruction) = events instruction := by
  rcases shiftStep_cases instruction with
    stays | ⟨opcode, shift, target, lhs, value, exponent, rfl, _, _, becomes⟩
  · rw [stays]
  · rw [becomes]
    rfl

theorem eventsFrom_shiftPowers_subset (code : List Instruction) (spot : Spot) :
    eventsFrom spot (shiftPowers code) ⊆ eventsFrom spot code := by
  induction code generalizing spot with
  | nil => exact List.Subset.refl _
  | cons first rest ih =>
    refine eventsFrom_cons_subset [] (replaces_shiftStep first) ?_ ?_
    · rw [events_shiftStep]
      exact List.Subset.refl _
    · exact subset_append_of_subset_right _ (ih _)

/-! ## Dead code -/

theorem eventsFrom_filter_isLive_subset (whole code : List Instruction) (spot : Spot) :
    eventsFrom spot (code.filter (isLive whole)) ⊆ eventsFrom spot code := by
  induction code generalizing spot with
  | nil => exact List.Subset.refl _
  | cons first rest ih =>
    cases live : isLive whole first with
    | true =>
      rw [filter_cons_of_pos live]
      refine eventsFrom_cons_subset [] (.inl rfl) (List.Subset.refl _) ?_
      exact subset_append_of_subset_right _ (ih _)
    | false =>
      obtain ⟨_, _, rfl⟩ := eq_assign_of_not_isLive live
      rw [filter_cons_of_neg (by simp [live]), eventsFrom_cons]
      exact subset_append_of_subset_right _ (ih spot)

/-! ## Reuse -/

/-- The temporaries of what is held have been used in the body. -/
def Available.AreToldIn (available : Available) (bodies : List Nat)
    (told : List (List Nat × Event)) : Prop :=
  ∀ held ∈ available, (bodies, .use (Place.temporary held.result).text) ∈ told

variable {available : Available}

/-- What is held behind an instruction has been used in the body.  Where a function
begins or ends nothing is held. -/
theorem areToldIn_reuseStep (areTold : available.AreToldIn spot.bodies told)
    (instruction : Instruction) :
    (reuseStep available instruction).2.AreToldIn (behind instruction spot).bodies
      (told ++ (events instruction).map (spot.bodies, ·)) := by
  intro held member
  have stays : behind instruction spot = spot := by
    have entry := isEntry_eq_false_of_mem_reuseStep member
    cases instruction with
    | functionStart | functionEnd => cases entry
    | _ => rfl
  rw [stays]
  rcases mem_of_mem_reuseStep member with older | ⟨opcode, _, operation⟩
  · exact mem_append_left _ (areTold held older)
  · cases mem_singleton.mp operation
    refine mem_append_right _ (mem_map_of_mem (mem_append_right _ ?_))
    exact mem_singleton_self _

/-- A copy of a held value reads what has been written in the body. -/
theorem events_reuseStep_subset {bodies : List Nat} (areTold : available.AreToldIn bodies told)
    (instruction : Instruction) :
    (events (reuseStep available instruction).1).map (bodies, ·) ⊆
      told ++ (events instruction).map (bodies, ·) := by
  rcases reuseStep_cases available instruction with
    stays | ⟨opcode, target, lhs, rhs, rfl, ⟨result, found, copied⟩ | remembered⟩
  · rw [stays]
    exact subset_append_right _ _
  · rw [copied]
    obtain ⟨held, heldFound, rfl⟩ := Option.map_eq_some_iff.mp found
    have read := areTold held (mem_of_find?_eq_some heldFound)
    refine cons_subset.mpr ⟨mem_append_left _ read, ?_⟩
    exact subset_append_of_subset_right _
      (map_subset _ (subset_append_right _ _))
  · rw [remembered]
    exact subset_append_right _ _

/-- By induction on the code: what is held in front of an instruction has been used
in the body where the instruction stands. -/
theorem eventsFrom_reuseFrom_subset (areTold : available.AreToldIn spot.bodies told)
    (code : List Instruction) :
    eventsFrom spot (reuseFrom available code) ⊆ told ++ eventsFrom spot code := by
  induction code generalizing available spot told with
  | nil => exact nil_subset _
  | cons first rest ih =>
    exact eventsFrom_cons_subset told (replaces_reuseStep available first)
      (events_reuseStep_subset areTold first) (ih (areToldIn_reuseStep areTold first))

/-! ## The optimizer -/

theorem eventsFrom_run_subset (pass : Pass) (code : List Instruction) (spot : Spot) :
    eventsFrom spot (pass.run code) ⊆ eventsFrom spot code := by
  cases pass with
  | constantFolding => exact eventsFrom_foldFrom_subset [] code spot
  | deadCode => exact eventsFrom_filter_isLive_subset code code spot
  | reuse =>
    have nothing : Available.AreToldIn [] spot.bodies [] :=
      forall_mem_nil _
    exact eventsFrom_reuseFrom_subset nothing code
  | strength => exact eventsFrom_shiftPowers_subset code spot

theorem eventsFrom_runAll_subset (passes : List Pass) (code : List Instruction) (spot : Spot) :
    eventsFrom spot (runAll passes code).1 ⊆ eventsFrom spot code := by
  induction passes generalizing code with
  | nil => exact List.Subset.refl _
  | cons pass rest ih => exact List.Subset.trans (ih _) (eventsFrom_run_subset pass code spot)

end Pass

/-- Whatever the choices of a compilation, its code tells nothing that the program
does not tell. -/
theorem Options.eventsFrom_improve_subset (options : Options) (code : List Instruction)
    (spot : Spot) : eventsFrom spot (options.improve code).1 ⊆ eventsFrom spot code := by
  unfold improve
  split
  · exact Pass.eventsFrom_runAll_subset Pass.all code spot
  · exact List.Subset.refl _

end BanglaScript
