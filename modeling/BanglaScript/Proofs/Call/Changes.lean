import BanglaScript.Proofs.Call.Returning

/-!
# What calls change

What a call can change is read off the code, without running it.  Control may
go from an instruction to its successors, and from a call into the function
that it reaches.  A place that a function has for itself is restored when the
function is left, and so is everything that happens to it in between.  Any
other place stays as it was unless an instruction that control may come to
writes it, or a function that may be entered takes an argument in it.
-/

namespace BanglaScript

open List Option

/-- Where control may go on in the same function.  A call goes on behind
itself. -/
def Code.successors (code : Code) (position : Nat) : Instruction → List Nat
  | .branch _ whenTrue whenFalse =>
    (code.labelPosition? whenTrue).toList ++ (code.labelPosition? whenFalse).toList
  | .jump label => (code.labelPosition? label).toList
  | .functionStart name _ =>
    ((code.functionEnd? name 0 (position + 1) (code.size - (position + 1))).map (· + 1)).toList
  | .functionEnd _ | .giveBack _ => []
  | _ => [position + 1]

/-- Other places keep what they hold when places are written one after the other. -/
theorem Store.foldl_set_of_notMem {Value Slot : Type} (slots : List Slot) (place : Slot → Place)
    (value : Slot → Value) (store : Store Value) {other : Place}
    (outside : other ∉ slots.map place) :
    slots.foldl (fun store slot => store.set (place slot) (value slot)) store other =
      store other := by
  induction slots generalizing store with
  | nil => rfl
  | cons slot slots ih =>
    rw [map_cons, mem_cons, not_or] at outside
    rw [foldl_cons, ih _ outside.2]
    exact store.set_of_ne _ outside.1

namespace Machine

variable {Value : Type} (linkage : Linkage) (code : Code) {place : Place} {arguments : Nat}

/-- From the position on, the place may be changed before the function is left. -/
inductive MayChange (place : Place) : Nat → Prop
  | write {position : Nat} {instruction : Instruction}
      (found : code[position]? = some instruction)
      (writes : instruction.target? = some place) : MayChange place position
  | next {position successor : Nat} {instruction : Instruction}
      (found : code[position]? = some instruction)
      (follows : successor ∈ code.successors position instruction)
      (later : MayChange place successor) : MayChange place position
  | call {position arguments : Nat} {name : String} {callee : Callee}
      (found : code[position]? = some (.call name arguments))
      (reached : linkage position name = some callee) (shared : callee.owns place = false)
      (inside : MayChange place callee.entry) : MayChange place position
  | parameter {position arguments : Nat} {name : String} {callee : Callee}
      (found : code[position]? = some (.call name arguments))
      (reached : linkage position name = some callee) (shared : callee.owns place = false)
      (takes : place ∈ callee.parameters) : MayChange place position

/-- A call of the function may change the place. -/
def Callee.MayChange (callee : Callee) (place : Place) : Prop :=
  callee.owns place = false ∧
    (place ∈ callee.parameters ∨ Machine.MayChange linkage code place callee.entry)

variable {meaning : Meaning Value} {linkage code} {state next final : State Value}

/-- A step inside of a function goes to a successor and writes the target of its
instruction. -/
theorem step_of_level (taken : step meaning linkage code state = some next)
    (level : next.frames = state.frames) :
    ∃ instruction, code[state.position]? = some instruction ∧
      next.position ∈ code.successors state.position instruction ∧
      ∀ place, instruction.target? ≠ some place → next.store place = state.store place := by
  obtain ⟨instruction, found, executed⟩ := bind_eq_some_iff.mp taken
  refine ⟨instruction, found, ?_⟩
  have written {target place : Place} (value : Value) (other : some target ≠ some place) :
      state.store.set target value place = state.store place :=
    state.store.set_of_ne value fun same => other (congrArg some same.symm)
  cases instruction with
  | assign | binary | pop =>
    cases executed
    exact ⟨mem_singleton_self _, fun place other => written _ other⟩
  | branch =>
    obtain ⟨position, reached, rfl⟩ := map_eq_some_iff.mp executed
    refine ⟨mem_append.mpr ?_, fun _ _ => rfl⟩
    split at reached
    · exact .inl (mem_toList.mpr reached)
    · exact .inr (mem_toList.mpr reached)
  | jump =>
    obtain ⟨_, reached, rfl⟩ := map_eq_some_iff.mp executed
    exact ⟨mem_toList.mpr reached, fun _ _ => rfl⟩
  | label | push | print =>
    cases executed
    exact ⟨mem_singleton_self _, fun _ _ => rfl⟩
  | functionStart =>
    obtain ⟨finish, ended, rfl⟩ := map_eq_some_iff.mp executed
    exact ⟨mem_toList.mpr (map_eq_some_iff.mpr ⟨finish, ended, rfl⟩),
      fun _ _ => rfl⟩
  | functionEnd => exact absurd level (frames_ne_of_leave executed)
  | call =>
    obtain ⟨_, _, rfl⟩ := map_eq_some_iff.mp executed
    exact absurd level (cons_ne_self _ _)
  | giveBack value => cases value <;> exact absurd level (frames_ne_of_leave executed)

/-- Entering a function writes its parameters only. -/
theorem store_enter (state : State Value) (callee : Callee) (arguments : Nat)
    (other : place ∉ callee.parameters) :
    (state.enter meaning callee arguments).store place = state.store place := by
  refine Store.foldl_set_of_notMem callee.parameters.zipIdx Prod.fst _ state.store ?_
  rwa [zipIdx_map_fst]

variable {callee : Callee}

/-- A call keeps what the function may not change, if the function keeps what
may not be changed from its entry on. -/
theorem store_eq_of_back (unchanged : ¬ callee.MayChange linkage code place)
    (returns : Returns meaning linkage code (state.enter meaning callee arguments) final)
    (kept : ¬ MayChange linkage code place callee.entry → final.store place =
      if callee.owns place then state.store place
      else (state.enter meaning callee arguments).store place) :
    final.store place = state.store place := by
  cases owned : callee.owns place with
  -- What the function has for itself is restored, whatever it does.
  | true => exact (returns.back rfl).2.2 place owned
  | false =>
    have outside : place ∉ callee.parameters := fun takes => unchanged ⟨owned, .inl takes⟩
    rw [kept fun inside => unchanged ⟨owned, .inr inside⟩, owned, if_neg Bool.false_ne_true,
      store_enter state callee arguments outside]

/-- A place that may not be changed has its value when the function is left,
unless it is restored. -/
theorem Returns.store_eq (returns : Returns meaning linkage code state final)
    (unchanged : ¬ MayChange linkage code place state.position) {frame : Frame Value}
    {frames : List (Frame Value)} (opened : state.frames = frame :: frames) :
    final.store place =
      if frame.isRestored place then frame.store place else state.store place := by
  induction returns generalizing frame frames with
  | leave taken closed =>
    obtain ⟨_, _, _, _, leaves⟩ := leave_of_opened taken closed
    rw [leave_eq opened, Option.some.injEq] at leaves
    rw [← leaves]
    rfl
  | next taken level rest ih =>
    obtain ⟨_, found, follows, kept⟩ := step_of_level taken level
    rw [ih (fun later => unchanged (.next found follows later)) (level.trans opened),
      kept place fun writes => unchanged (.write found writes)]
  | call taken entered inner rest innerIh restIh =>
    obtain ⟨_, _, callee, found, reached, rfl⟩ := eq_enter_of_opened taken entered
    obtain ⟨position, level, _⟩ := inner.back rfl
    have behind : ¬ MayChange linkage code place _ := fun later =>
      unchanged (.next found (mem_singleton.mpr position) later)
    have inside : ¬ callee.MayChange linkage code place := by
      rintro ⟨shared, takes | later⟩
      · exact unchanged (.parameter found reached shared takes)
      · exact unchanged (.call found reached shared later)
    rw [restIh behind (level.trans opened),
      store_eq_of_back inside inner fun within => innerIh within rfl]

end Machine

end BanglaScript
