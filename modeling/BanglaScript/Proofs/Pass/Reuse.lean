import BanglaScript.Proofs.Pass.Held
import BanglaScript.Proofs.Pass.Lockstep
import BanglaScript.Proofs.Parser.Words
import BanglaScript.Proofs.Script.Values

/-!
# Reusing held values

Labels, function boundaries and calls forget what is held, so however control
comes to an instruction, the entries that the table has in front of it are true
of the store.  A copy therefore gives the value that the remembered operation
has now.

That is the value of the replaced operation only if both have the same
operands.  The table tells operands apart by their texts and puts those of an
addition in order.  Where texts tell all operands apart and no addition that is
replaced joins its operands to another text than they join to when exchanged,
reuse keeps the meaning of the code.  Otherwise it does not.
-/

namespace BanglaScript

open Machine List

namespace Pass

/-! ## Where control goes -/

/-- What is held in front of the state's position is true, unless a label stands
there, and nothing is held where open calls go on. -/
structure IsSound {Value : Type} (meaning : Meaning Value) (code : List Instruction)
    (state : State Value) : Prop where
  held : (heldBefore code state.position).AreTrue meaning state.store ∨
    ∃ label, code[state.position]? = some (.label label)
  frames : ∀ ⦃frame : Frame Value⦄, frame ∈ state.frames → heldBefore code frame.next = []

section Sound

variable {Value : Type} {meaning : Meaning Value} {linkage : Linkage} {code : List Instruction}
  {state : State Value}

/-- Only at a label may the table be wrong. -/
theorem IsSound.areTrue (sound : IsSound meaning code state) {instruction : Instruction}
    (found : code[state.position]? = some instruction)
    (other : instruction.definedLabel? = none) :
    (heldBefore code state.position).AreTrue meaning state.store := by
  rcases sound.held with areTrue | ⟨label, atLabel⟩
  · exact areTrue
  · rw [found, Option.some.injEq] at atLabel
    subst atLabel
    cases other

/-- A state where nothing is held is sound. -/
theorem isSound_of_heldBefore_eq_nil (nothing : heldBefore code state.position = [])
    (frames : ∀ ⦃frame : Frame Value⦄, frame ∈ state.frames → heldBefore code frame.next = []) :
    IsSound meaning code state :=
  ⟨.inl (nothing ▸ .nil), frames⟩

variable {next : State Value}

/-- Going to a label is sound. -/
theorem IsSound.goTo_label (sound : IsSound meaning code state) {label : Nat}
    (goes : (Code.labelPosition? code.toArray label).map state.goTo = some next) :
    IsSound meaning code next := by
  obtain ⟨_, found, rfl⟩ := Option.map_eq_some_iff.mp goes
  have atLabel := Code.getElem?_of_labelPosition? found
  rw [getElem?_toArray] at atLabel
  exact ⟨.inr ⟨label, atLabel⟩, sound.frames⟩

/-- Leaving a call is sound. -/
theorem IsSound.leave (sound : IsSound meaning code state) {result : Value}
    (leaves : state.leave result = some next) : IsSound meaning code next := by
  unfold State.leave at leaves
  split at leaves
  case h_1 => cases leaves
  case h_2 frame frames opened =>
    cases leaves
    have nothing := sound.frames (opened ▸ mem_cons_self)
    refine isSound_of_heldBefore_eq_nil nothing fun frame member => ?_
    exact sound.frames (opened ▸ mem_cons_of_mem _ member)

/-- Writing the value of an operation is sound. -/
theorem areTrue_reuseStep_binary {available : Available} {store : Store Value}
    (areTrue : available.AreTrue meaning store) (opcode : Opcode) (target : Nat)
    (lhs rhs : Operand) :
    (reuseStep available (.binary opcode target lhs rhs)).2.AreTrue meaning
      (store.set (.temporary target) (meaning.operate opcode (meaning.ofOperand store lhs)
        (meaning.ofOperand store rhs))) := by
  rcases reuseStep_cases available (.binary opcode target lhs rhs) with
    stays | ⟨opcode, target, lhs, rhs, same, ⟨result, _, copied⟩ | remembered⟩
  · rw [stays]
    exact areTrue.forget _ _
  · cases same
    rw [copied]
    exact areTrue.forget _ _
  · cases same
    rw [remembered]
    exact areTrue.remember opcode lhs rhs target

/-- One step of the code keeps states sound. -/
theorem IsSound.step (enters : EntersFunctions linkage code) (sound : IsSound meaning code state)
    (taken : Machine.step meaning linkage code.toArray state = some next) :
    IsSound meaning code next := by
  obtain ⟨instruction, found, executed⟩ := Option.bind_eq_some_iff.mp taken
  rw [getElem?_toArray] at found
  have passed := heldBefore_succ found
  cases instruction with
  | assign target =>
    cases executed
    exact ⟨.inl (passed ▸ (sound.areTrue found rfl).forget target _), sound.frames⟩
  | binary =>
    cases executed
    exact ⟨.inl (passed ▸ areTrue_reuseStep_binary (sound.areTrue found rfl) _ _ _ _),
      sound.frames⟩
  | branch | jump => exact sound.goTo_label executed
  | label =>
    cases executed
    exact isSound_of_heldBefore_eq_nil passed sound.frames
  | functionStart =>
    obtain ⟨_, ended, rfl⟩ := Option.map_eq_some_iff.mp executed
    have atEnd := Code.getElem?_of_functionEnd? ended
    rw [getElem?_toArray] at atEnd
    exact isSound_of_heldBefore_eq_nil (heldBefore_succ atEnd) sound.frames
  | functionEnd => exact sound.leave executed
  | push | print =>
    cases executed
    exact ⟨.inl (passed ▸ sound.areTrue found rfl), sound.frames⟩
  | call =>
    obtain ⟨callee, reached, rfl⟩ := Option.map_eq_some_iff.mp executed
    obtain ⟨_, _, _, entry, atStart⟩ := enters reached
    have nothing : heldBefore code callee.entry = [] := entry ▸ heldBefore_succ atStart
    exact isSound_of_heldBefore_eq_nil nothing (forall_mem_cons.mpr ⟨passed, @sound.frames⟩)
  | pop =>
    cases executed
    exact ⟨.inl (passed ▸ (sound.areTrue found rfl).forget _ _), sound.frames⟩
  | giveBack value => cases value <;> exact sound.leave executed

/-- Every state that the code reaches is sound. -/
theorem isSound_of_run (enters : EntersFunctions linkage code) {count : Nat}
    (reached : Machine.run meaning linkage code.toArray count (State.start meaning) =
      some state) :
    IsSound meaning code state := by
  have atStart : IsSound meaning code (State.start meaning) := ⟨.inl .nil, forall_mem_nil _⟩
  exact run_keeps (fun _ _ sound taken => sound.step enters taken) atStart reached

end Sound

/-! ## Operands -/

/-- The operands of all operations. -/
def operated (code : List Instruction) : List Operand :=
  code.flatMap fun instruction =>
    match instruction with
    | .binary _ _ lhs rhs => [lhs, rhs]
    | _ => []

theorem mem_operated {code : List Instruction} {opcode : Opcode} {target : Nat}
    {lhs rhs : Operand} (member : Instruction.binary opcode target lhs rhs ∈ code) :
    lhs ∈ operated code ∧ rhs ∈ operated code :=
  ⟨mem_flatMap.mpr ⟨_, member, by simp⟩, mem_flatMap.mpr ⟨_, member, by simp⟩⟩

/-- Operands that are spelled alike are the same. -/
def AreSpelledApart (code : List Instruction) : Prop :=
  ∀ first ∈ operated code, ∀ second ∈ operated code, first.text = second.text → first = second

instance (code : List Instruction) : Decidable (AreSpelledApart code) :=
  inferInstanceAs (Decidable (∀ first ∈ operated code, ∀ second ∈ operated code,
    first.text = second.text → first = second))

/-- An addition is held that has the operands in the other order. -/
def Available.holdsExchanged (available : Available) (lhs rhs : Operand) : Bool :=
  available.any fun held => held.key.opcode = .add ∧ held.lhs = rhs ∧ held.rhs = lhs

/-- An addition in front of which its exchange is held joins the same text in
either order, if it joins texts at all. -/
def JoinsAlike (conversions : Conversions) (code : List Instruction)
    (state : State ScriptValue) : Prop :=
  ∀ ⦃target : Nat⦄ ⦃lhs rhs : Operand⦄,
    code[state.position]? = some (.binary .add target lhs rhs) →
    (heldBefore code state.position).holdsExchanged lhs rhs →
    ScriptValue.JoinAlike conversions ((Meaning.script conversions).ofOperand state.store lhs)
      ((Meaning.script conversions).ofOperand state.store rhs)

/-- A held operation with the key of another one has its value. -/
theorem operate_eq_of_key_eq {conversions : Conversions} {code : List Instruction}
    {state : State ScriptValue} (apart : AreSpelledApart code)
    (alike : JoinsAlike conversions code state) {opcode : Opcode} {target : Nat}
    {lhs rhs : Operand} (found : code[state.position]? = some (.binary opcode target lhs rhs))
    {held : Held} (member : held ∈ heldBefore code state.position)
    (sameKey : held.key = ExpressionKey.of opcode lhs rhs) :
    (Meaning.script conversions).operate held.key.opcode
        ((Meaning.script conversions).ofOperand state.store held.lhs)
        ((Meaning.script conversions).ofOperand state.store held.rhs) =
      (Meaning.script conversions).operate opcode
        ((Meaning.script conversions).ofOperand state.store lhs)
        ((Meaning.script conversions).ofOperand state.store rhs) := by
  obtain ⟨_, key, passed⟩ := comesFrom_of_mem_heldBefore member
  obtain ⟨lhsMem, rhsMem⟩ := mem_operated (mem_of_getElem? found)
  obtain ⟨heldLhsMem, heldRhsMem⟩ := mem_operated passed
  have sameOpcode : held.key.opcode = opcode := by rw [sameKey, ExpressionKey.opcode_of]
  obtain ⟨-, ⟨sameLhs, sameRhs⟩ | ⟨commutes, crossLhs, crossRhs⟩⟩ :=
    ExpressionKey.spelled_alike (sameKey.symm.trans key)
  · rw [sameOpcode, apart lhs lhsMem held.lhs heldLhsMem sameLhs,
      apart rhs rhsMem held.rhs heldRhsMem sameRhs]
  · have lhsEq := apart lhs lhsMem held.rhs heldRhsMem crossLhs
    have rhsEq := apart rhs rhsMem held.lhs heldLhsMem crossRhs
    rw [sameOpcode, ← lhsEq, ← rhsEq]
    refine (Meaning.operate_script_comm commutes ?_).symm
    rintro rfl
    refine alike found (any_eq_true.mpr ⟨held, member, ?_⟩)
    simp [sameOpcode, lhsEq, rhsEq]

/-! ## The pass -/

theorem standsFor_reuseHeld (code : List Instruction) :
    StandsFor (reuseHeld code).toArray code.toArray :=
  .of_stepwise (getElem?_reuseFrom [] code) fun _ _ => replaces_reuseStep _ _

/-- In a sound state a copy gives the value of the operation that it replaces. -/
theorem computesAlike_reuseHeld {conversions : Conversions} {code : List Instruction}
    {state : State ScriptValue} (apart : AreSpelledApart code)
    (sound : IsSound (Meaning.script conversions) code state)
    (alike : JoinsAlike conversions code state) :
    ComputesAlike (Meaning.script conversions) (reuseHeld code).toArray code.toArray state := by
  intro first second sourceFound rewrittenFound
  rw [getElem?_toArray] at sourceFound rewrittenFound
  rw [reuseHeld, getElem?_reuseFrom, sourceFound] at rewrittenFound
  cases rewrittenFound
  rcases reuseStep_cases (heldBefore code state.position) first with
    stays | ⟨opcode, target, lhs, rhs, rfl, ⟨result, found, copied⟩ | remembered⟩
  · exact congrArg _ (congrArg Prod.fst stays)
  · obtain ⟨held, held?, rfl⟩ := Option.map_eq_some_iff.mp found
    have member := mem_of_find?_eq_some held?
    have sameKey : held.key = ExpressionKey.of opcode lhs rhs := by
      simpa using find?_some held?
    have isTrue := sound.areTrue sourceFound rfl member
    have value := isTrue.trans (operate_eq_of_key_eq apart alike sourceFound member sameKey)
    exact (congrArg _ (congrArg Prod.fst copied)).trans (congrArg some value)
  · exact congrArg _ (congrArg Prod.fst remembered)

end Pass

/-- Reusing held values keeps the meaning of code, whatever function a call reaches, if
operands that are spelled alike are the same and no addition for which the exchanged one
is held joins texts that depend on the order.  Step by step the code is in the same state,
whether the run ends or not, the same is seen of it, and the same is printed. -/
theorem run_reuseHeld {conversions : Conversions} {linkage : Linkage}
    {code : List Instruction} (apart : Pass.AreSpelledApart code)
    (enters : Pass.EntersFunctions linkage code)
    (alike : ∀ ⦃count state⦄, run (Meaning.script conversions) linkage code.toArray count
      (State.start (Meaning.script conversions)) = some state →
        Pass.JoinsAlike conversions code state) :
    let meaning := Meaning.script conversions
    (∀ count, run meaning linkage (Pass.reuseHeld code).toArray count (State.start meaning) =
      run meaning linkage code.toArray count (State.start meaning)) ∧
    (∀ count, trace meaning linkage (Pass.reuseHeld code).toArray count (State.start meaning) =
      trace meaning linkage code.toArray count (State.start meaning)) ∧
    ∀ output, Prints meaning linkage (Pass.reuseHeld code).toArray output ↔
      Prints meaning linkage code.toArray output := by
  intro meaning
  have stands := Pass.standsFor_reuseHeld code
  have computes ⦃count : Nat⦄ ⦃state : State ScriptValue⦄
      (reached : run meaning linkage code.toArray count (State.start meaning) = some state) :
      ComputesAlike meaning (Pass.reuseHeld code).toArray code.toArray state :=
    Pass.computesAlike_reuseHeld apart (Pass.isSound_of_run enters reached) (alike reached)
  have same := run_and_trace_eq_of_computesAlike stands computes
  exact ⟨fun count => (same count).1, fun count => (same count).2,
    prints_iff_of_computesAlike stands computes⟩

/-- Two numbers are added in both orders, and a function prints one of them. -/
def summing : List Instruction :=
  [.functionStart "show" 0, .print (.variable "a"), .functionEnd "show",
    .assign (.variable "a") (.number (.ofNat 1)), .assign (.variable "b") (.number (.ofNat 2)),
    .binary .add 1 (.variable "a") (.variable "b"),
    .binary .add 2 (.variable "b") (.variable "a"),
    .call "show" 0, .print (.temporary 2)]

/-- Every call reaches the function at the head of the code. -/
def summingLinkage : Linkage := fun _ _ => some ⟨1, [], fun _ => false⟩

/-- The second sum becomes a copy of the first, and the same is printed. -/
theorem prints_reuseHeld_summing :
    Pass.reuseHeld summing = summing.set 6 (.assign (.temporary 2) (.temporary 1)) ∧
      Prints (Meaning.script .coarse) summingLinkage (Pass.reuseHeld summing).toArray
        [.number (.ofNat 1), .number ((Number.ofNat 2).add (.ofNat 1))] := by
  have apart : Pass.AreSpelledApart summing := by decide
  have enters : Pass.EntersFunctions summingLinkage summing := by
    rintro position name callee ⟨⟩
    exact ⟨0, "show", 0, rfl, rfl⟩
  refine ⟨by decide, ((run_reuseHeld apart enters ?_).2.2 _).mpr ⟨9, _, rfl, rfl, rfl⟩⟩
  -- The run takes nine steps.  Two of them add, and only in front of the second
  -- addition its exchange is held.
  rintro (_ | _ | _ | _ | _ | _ | _ | _ | _ | _ | count) state reached target lhs rhs found
    exchanged <;> cases reached <;> cases found
  · cases exchanged
  · rintro (isString | isString) <;> cases isString

/-- Two strings are joined in both orders. -/
def joiningBothWays : Program :=
  ⟨[.declaration "a" (some (.literal (.string "x"))),
    .declaration "b" (some (.literal (.string "y"))),
    .print (.binary .add (.identifier "a") (.identifier "b")),
    .print (.binary .add (.identifier "b") (.identifier "a"))]⟩

/-- A variable has the name of a temporary. -/
def namingTemporary : Program :=
  ⟨[.declaration "t1" (some (.literal (.string "x"))),
    .declaration "b" (some (.literal (.string "y"))),
    .print (.binary .add (.binary .add (.identifier "b") (.identifier "b")) (.identifier "b")),
    .print (.binary .add (.identifier "t1") (.identifier "b"))]⟩

/-- Reuse does not keep what every valid program prints.  Strings that are joined
in both orders are printed in one order only, and a variable that has the name
of a temporary is taken for it. -/
theorem not_prints_reuseHeld :
    (joiningBothWays.IsSpelled ∧ (joiningBothWays.check .flat).isValid ∧
      Prints (Meaning.script .coarse) (fun _ _ => none) joiningBothWays.lower.toArray
        [.string "xy", .string "yx"] ∧
      ¬ Prints (Meaning.script .coarse) (fun _ _ => none)
        (Pass.reuseHeld joiningBothWays.lower).toArray [.string "xy", .string "yx"]) ∧
    (namingTemporary.IsSpelled ∧ (namingTemporary.check .flat).isValid ∧
      Prints (Meaning.script .coarse) (fun _ _ => none) namingTemporary.lower.toArray
        [.string "yyy", .string "xy"] ∧
      ¬ Prints (Meaning.script .coarse) (fun _ _ => none)
        (Pass.reuseHeld namingTemporary.lower).toArray [.string "yyy", .string "xy"]) := by
  refine ⟨⟨⟨"dhore a = \"x\"; dhore b = \"y\"; dekhao(a + b); dekhao(b + a);", by decide +kernel⟩,
    by decide, ⟨6, _, rfl, rfl, rfl⟩, fun printed => ?_⟩,
    ⟨⟨"dhore t1 = \"x\"; dhore b = \"y\"; dekhao(b + b + b); dekhao(t1 + b);", by decide +kernel⟩,
    by decide, ⟨7, _, rfl, rfl, rfl⟩, fun printed => ?_⟩⟩
  · have joinedOnce : Prints (Meaning.script .coarse) (fun _ _ => none)
        (Pass.reuseHeld joiningBothWays.lower).toArray [.string "xy", .string "xy"] :=
      ⟨6, _, rfl, rfl, rfl⟩
    exact absurd (printed.unique joinedOnce) (by decide)
  · have mistaken : Prints (Meaning.script .coarse) (fun _ _ => none)
        (Pass.reuseHeld namingTemporary.lower).toArray [.string "yyy", .string "yyy"] :=
      ⟨7, _, rfl, rfl, rfl⟩
    exact absurd (printed.unique mistaken) (by decide)

end BanglaScript
