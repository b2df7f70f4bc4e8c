import BanglaScript.Proofs.Lowering.Temporaries
import BanglaScript.Proofs.Pass.Lockstep
import BanglaScript.Proofs.Script.Values

/-!
# Folding the constants of lowered programs

The table of known numbers is never forgotten on the way through the code, not
at labels, functions or calls.  In a lowered program this does no harm.  Each
temporary is written by one instruction, so a temporary with an entry in the
table only ever gets the number of its entry.  And it is read in the stretch of
code that writes it, so it has been written when it is read, even if calls have
run the same code in between.

The invariant says this of the state and of all calls that are open: whatever
store comes back when a call returns, the temporaries that have been folded
since the last boundary hold their numbers there.
-/

namespace BanglaScript

open Machine List

/-- Where evaluation of an operation on two numbers gives a finite value, the
operation computes this value. -/
def Meaning.Evaluates {Value : Type} (meaning : Meaning Value) : Prop :=
  ∀ ⦃opcode : Opcode⦄ ⦃lhs rhs value : Number⦄, opcode.evaluate lhs rhs = some value →
    value.isFinite → meaning.operate opcode (meaning.number lhs) (meaning.number rhs) =
      meaning.number value

namespace Pass

/-! ## The table along the code -/

/-- What is known when the code has been passed up to a position. -/
def constantsBefore (code : List Instruction) (position : Nat) : Constants :=
  (code.take position).foldl (fun constants instruction => (foldStep constants instruction).2) []

section Table

variable {code : List Instruction} {position number : Nat} {instruction : Instruction}
  {constant : Number}

theorem constantsBefore_succ (found : code[position]? = some instruction) :
    constantsBefore code (position + 1) =
      (foldStep (constantsBefore code position) instruction).2 := by
  rw [constantsBefore, take_add_one, found, foldl_append]
  rfl

theorem getElem?_foldFrom (constants : Constants) (code : List Instruction) (position : Nat) :
    (foldFrom constants code)[position]? = code[position]?.map fun instruction =>
      (foldStep ((code.take position).foldl
        (fun constants instruction => (foldStep constants instruction).2) constants)
        instruction).1 := by
  induction code generalizing constants position with
  | nil => rfl
  | cons first rest ih =>
    cases position with
    | zero => rfl
    | succ position => exact ih (foldStep constants first).2 position

/-- Every instruction is folded with what is known in front of it. -/
theorem getElem?_foldConstants (found : code[position]? = some instruction) :
    (foldConstants code)[position]? =
      some (foldStep (constantsBefore code position) instruction).1 := by
  rw [foldConstants, getElem?_foldFrom, found]
  rfl

theorem standsFor_foldConstants (code : List Instruction) :
    StandsFor (foldConstants code).toArray code.toArray :=
  .of_stepwise (getElem?_foldFrom [] code) fun _ _ => replaces_foldStep _ _

/-- A number is learned exactly where the folded instruction assigns it. -/
theorem mem_foldStep_iff {constants : Constants} :
    (number, constant) ∈ (foldStep constants instruction).2 ↔ (number, constant) ∈ constants ∨
      (foldStep constants instruction).1 = .assign (.temporary number) (.number constant) := by
  cases instruction with
  | binary =>
    simp only [foldStep]
    split <;> simp [or_comm, eq_comm]
  | assign =>
    simp only [foldStep]
    split
    case h_1 substituted => simp [substituted, or_comm, eq_comm]
    case h_2 other =>
      simpa using fun temporary number => absurd number (other _ _ temporary)
  | _ => simp [foldStep]

/-- The code folds the temporary to the number at a position. -/
def FoldsTo (code : List Instruction) (position number : Nat) (constant : Number) : Prop :=
  (foldConstants code)[position]? = some (.assign (.temporary number) (.number constant))

/-- Every entry of the table has been folded before. -/
theorem exists_foldsTo_of_mem (member : (number, constant) ∈ constantsBefore code position) :
    ∃ earlier, earlier < position ∧ FoldsTo code earlier number constant := by
  induction position with
  | zero => cases member
  | succ position ih =>
    have fromEarlier (older : (number, constant) ∈ constantsBefore code position) :
        ∃ earlier, earlier < position + 1 ∧ FoldsTo code earlier number constant := by
      obtain ⟨earlier, before, folds⟩ := ih older
      exact ⟨earlier, Nat.lt_succ_of_lt before, folds⟩
    cases found : code[position]? with
    | none =>
      rw [constantsBefore, take_add_one, found, foldl_append] at member
      exact fromEarlier member
    | some =>
      rw [constantsBefore_succ found] at member
      rcases mem_foldStep_iff.mp member with older | learned
      · exact fromEarlier older
      · refine ⟨position, Nat.lt_succ_self _, ?_⟩
        rw [FoldsTo, getElem?_foldConstants found, learned]

/-- What is folded to a number is the write of the temporary. -/
theorem FoldsTo.exists_write (folds : FoldsTo code position number constant) :
    ∃ writer, code[position]? = some writer ∧ writer.writtenTemporary? = some number := by
  cases found : code[position]? with
  | none =>
    rw [FoldsTo, foldConstants, getElem?_foldFrom, found] at folds
    cases folds
  | some writer =>
    refine ⟨writer, rfl, ?_⟩
    rw [FoldsTo, getElem?_foldConstants found] at folds
    rcases replaces_foldStep (constantsBefore code position) writer with
      same | ⟨place, first, second⟩
    · rw [← same, Option.some.inj folds]
      rfl
    · rw [Option.some.inj folds] at second
      cases second
      cases writer <;> cases first <;> rfl

end Table

/-! ## Folded temporaries hold their numbers -/

section Known

variable {Value : Type} {meaning : Meaning Value} {linkage : Linkage} {code : List Instruction}
  {last : Nat}

/-- The temporaries that have been folded before the position hold their
numbers, as far as no boundary follows up to the position. -/
def IsKnown (meaning : Meaning Value) (code : List Instruction) (position : Nat)
    (store : Store Value) : Prop :=
  ∀ ⦃earlier number : Nat⦄ ⦃constant : Number⦄, earlier < position →
    FoldsTo code earlier number constant →
    (∀ ⦃between other⦄, earlier < between → between ≤ position → code[between]? = some other →
      other.isBoundary = false) →
    store (.temporary number) = meaning.number constant

variable {position : Nat} {store : Store Value} {instruction : Instruction}

/-- Nothing is known at a boundary. -/
theorem isKnown_of_isBoundary (found : code[position]? = some instruction)
    (boundary : instruction.isBoundary = true) : IsKnown meaning code position store := by
  intro earlier number constant before _ noBoundary
  cases (noBoundary before (Nat.le_refl _) found).symm.trans boundary

/-- Only assignments and operations are folded. -/
theorem not_foldsTo (found : code[position]? = some instruction)
    (other : instruction.computed? = none) {number : Nat} {constant : Number} :
    ¬ FoldsTo code position number constant := by
  intro folds
  rw [FoldsTo, getElem?_foldConstants found] at folds
  rcases replaces_foldStep (constantsBefore code position) instruction with same | ⟨_, computed, _⟩
  · rw [same] at folds
    cases folds
    cases other
  · cases other.symm.trans computed

/-- Behind an instruction, what is known includes what it has folded. -/
theorem IsKnown.succ (known : IsKnown meaning code position store)
    (written : ∀ ⦃number constant⦄, FoldsTo code position number constant →
      store (.temporary number) = meaning.number constant) :
    IsKnown meaning code (position + 1) store := by
  intro earlier number constant before folds noBoundary
  rcases Nat.lt_succ_iff_lt_or_eq.mp before with older | rfl
  · exact known older folds fun between other lower upper =>
      noBoundary lower (Nat.le_succ_of_le upper)
  · exact written folds

/-- Nothing is known behind a boundary. -/
theorem isKnown_succ_of_isBoundary (found : code[position]? = some instruction)
    (boundary : instruction.isBoundary = true) : IsKnown meaning code (position + 1) store := by
  refine (isKnown_of_isBoundary found boundary).succ fun number constant folds => ?_
  refine absurd folds (not_foldsTo found ?_)
  cases instruction <;> first | rfl | cases boundary

/-- Writing a place keeps what is known, if a folded temporary gets its own
number. -/
theorem IsKnown.set (known : IsKnown meaning code position store) {place : Place} {value : Value}
    (written : ∀ ⦃earlier number constant⦄, FoldsTo code earlier number constant →
      place = .temporary number → value = meaning.number constant) :
    IsKnown meaning code position (store.set place value) := by
  intro earlier number constant before folds noBoundary
  by_cases same : Place.temporary number = place
  · rw [same, Store.set_self]
    exact written folds same.symm
  · rw [store.set_of_ne value same]
    exact known before folds noBoundary

/-- Writing variables keeps what is known. -/
theorem IsKnown.foldl_set (known : IsKnown meaning code position store) {Slot : Type}
    {slots : List Slot} {place : Slot → Place} (value : Slot → Value)
    (areVariables : ∀ slot ∈ slots, ∃ name, place slot = .variable name) :
    IsKnown meaning code position
      (slots.foldl (fun store slot => store.set (place slot) (value slot)) store) := by
  refine foldlRecOn slots _ known fun store known slot member => ?_
  obtain ⟨_, isVariable⟩ := areVariables slot member
  exact known.set fun _ _ _ _ isTemporary => by cases isVariable.symm.trans isTemporary

/-! ## States -/

/-- Where the state and its open calls go on, with the stores that they have. -/
def stack (state : State Value) : List (Nat × Store Value) :=
  (state.position, state.store) :: state.frames.map fun frame => (frame.next, frame.store)

/-- What is known at an entry and at the older ones holds in its store.  Any
mixture of the stores can come back when calls return. -/
def AreKnown (meaning : Meaning Value) (code : List Instruction) : List (Nat × Store Value) → Prop
  | [] => True
  | entry :: older =>
    (∀ position ∈ (entry :: older).map Prod.fst, IsKnown meaning code position entry.2) ∧
      AreKnown meaning code older

variable {state : State Value}

/-- The operand that takes the place of a known temporary has its value. -/
theorem ofOperand_substitute (orderly : Code.IsOrderly 0 code last)
    (known : IsKnown meaning code position store) (found : code[position]? = some instruction)
    (straight : instruction.isBoundary = false) {operand : Operand}
    (reads : operand ∈ instruction.reads) :
    meaning.ofOperand store ((constantsBefore code position).substitute operand) =
      meaning.ofOperand store operand := by
  cases operand with
  | temporary =>
    simp only [Constants.substitute]
    split
    case h_2 => rfl
    case h_1 constant looked =>
      obtain ⟨_, _, split, -⟩ := lookup_eq_some_iff.mp looked
      obtain ⟨folded, foldedBefore, folds⟩ :=
        exists_foldsTo_of_mem (split ▸ mem_append_right _ mem_cons_self)
      obtain ⟨_, _, _, writerFound, writes, noBoundary⟩ :=
        orderly.settled.exists_write found reads
      obtain ⟨_, folderFound, folderWrites⟩ := folds.exists_write
      -- Only one instruction writes the temporary, so it is the folded one.
      cases orderly.eq_of_writtenTemporary? folderFound writerFound folderWrites writes
      refine (known foldedBefore folds fun between other lower upper otherFound => ?_).symm
      rcases Nat.lt_or_eq_of_le upper with inside | rfl
      · exact noBoundary lower inside otherFound
      · cases found.symm.trans otherFound
        exact straight
  | «variable» | number | string => rfl

/-- The folded instruction computes the value of the instruction. -/
theorem ofComputation?_foldStep (orderly : Code.IsOrderly 0 code last)
    (evaluates : meaning.Evaluates) (known : IsKnown meaning code position store)
    (found : code[position]? = some instruction) :
    meaning.ofComputation? store (foldStep (constantsBefore code position) instruction).1 =
      meaning.ofComputation? store instruction := by
  cases instruction with
  | binary =>
    have left := ofOperand_substitute orderly known found rfl mem_cons_self
    have right := ofOperand_substitute orderly known found rfl
      (mem_cons_of_mem _ mem_cons_self)
    simp only [foldStep]
    split
    case h_1 value folded =>
      simp only [foldedValue?, Option.bind_eq_bind, Option.bind_eq_some_iff] at folded
      obtain ⟨_, leftIs, _, rightIs, _, evaluated, finite⟩ := folded
      have isNumber {operand : Operand} {number : Number} (is : operand.number? = some number) :
          operand = .number number := by
        cases operand <;> cases is
        rfl
      rw [isNumber leftIs] at left
      rw [isNumber rightIs] at right
      simp only [Option.ite_none_right_eq_some, Option.some.injEq] at finite
      obtain ⟨isFinite, rfl⟩ := finite
      rw [Meaning.ofComputation?, Meaning.ofComputation?, ← left, ← right]
      exact congrArg some (evaluates evaluated isFinite).symm
    case h_2 => rw [Meaning.ofComputation?, Meaning.ofComputation?, left, right]
  | assign =>
    have same := ofOperand_substitute orderly known found rfl mem_cons_self
    simp only [foldStep]
    split <;> exact congrArg some same
  | _ => rfl

theorem computesAlike_foldConstants (orderly : Code.IsOrderly 0 code last)
    (evaluates : meaning.Evaluates) (known : IsKnown meaning code state.position state.store) :
    ComputesAlike meaning (foldConstants code).toArray code.toArray state := by
  intro first second sourceFound rewrittenFound
  rw [getElem?_toArray] at sourceFound rewrittenFound
  rw [getElem?_foldConstants sourceFound] at rewrittenFound
  cases rewrittenFound
  exact ofComputation?_foldStep orderly evaluates known sourceFound

/-! ## Steps -/

/-- The places that take the arguments of calls are variables. -/
def PassesVariables (linkage : Linkage) : Prop :=
  ∀ ⦃position : Nat⦄ ⦃name : String⦄ ⦃callee : Callee⦄, linkage position name = some callee →
    ∀ place ∈ callee.parameters, ∃ name, place = .variable name

section

variable (sound : AreKnown meaning code (stack state))

include sound

/-- A state that goes on elsewhere. -/
theorem AreKnown.goTo {position : Nat} (known : IsKnown meaning code position state.store) :
    AreKnown meaning code (stack (state.goTo position)) := by
  exact ⟨forall_mem_cons.mpr ⟨known, (forall_mem_cons.mp sound.1).2⟩, sound.2⟩

/-- Passing an instruction that writes nothing. -/
theorem AreKnown.next
    (found : code[state.position]? = some instruction) (other : instruction.computed? = none) :
    AreKnown meaning code (stack state.next) :=
  sound.goTo ((sound.1 _ mem_cons_self).succ fun _ _ folds =>
    absurd folds (not_foldsTo found other))

/-- Passing an instruction that writes a place. -/
theorem AreKnown.write {place : Place} {value : Value}
    (written : ∀ ⦃earlier number constant⦄, FoldsTo code earlier number constant →
      place = .temporary number → value = meaning.number constant)
    (computed : ∀ ⦃number constant⦄, FoldsTo code state.position number constant →
      place = .temporary number) :
    AreKnown meaning code (stack (state.write place value)) := by
  have kept := fun position member => (sound.1 position member).set written
  obtain ⟨here, older⟩ := forall_mem_cons.mp kept
  refine ⟨forall_mem_cons.mpr ⟨here.succ fun number constant folds => ?_, older⟩, sound.2⟩
  rw [computed folds, Store.set_self]
  exact written folds (computed folds)

/-- Entering a function. -/
theorem AreKnown.enter
    (found : code[state.position]? = some instruction) (other : instruction.computed? = none)
    {callee : Callee} {start : Nat} {function : String} {parameters : Nat}
    (entry : callee.entry = start + 1)
    (atStart : code[start]? = some (.functionStart function parameters))
    (areVariables : ∀ place ∈ callee.parameters, ∃ name, place = .variable name) (arguments : Nat) :
    AreKnown meaning code (stack (state.enter meaning callee arguments)) := by
  have passed := sound.next found other
  refine ⟨forall_mem_cons.mpr ⟨?_, fun entered older => ?_⟩, passed⟩
  · simp only [State.enter, entry]
    exact isKnown_succ_of_isBoundary atStart rfl
  · exact (passed.1 entered older).foldl_set _ fun slot slotMem =>
      areVariables slot.1 (fst_mem_of_mem_zipIdx slotMem)

/-- Returning from a call. -/
theorem AreKnown.leave {result : Value}
    {next : State Value} (leaves : state.leave result = some next) :
    AreKnown meaning code (stack next) := by
  unfold State.leave at leaves
  split at leaves
  case h_1 => cases leaves
  case h_2 frame frames opened =>
    cases leaves
    rw [stack, opened, map_cons] at sound
    obtain ⟨current, caller, older⟩ := sound
    refine ⟨fun other member => ?_, older⟩
    -- Every place comes from the caller's store or from the present one.
    intro earlier number constant before folds noBoundary
    have inCaller := caller other member before folds noBoundary
    have inCurrent := current other (mem_cons_of_mem _ member) before folds noBoundary
    simp only
    split
    · exact inCaller
    · exact inCurrent

end

/-- Only the folded instruction itself writes a temporary that is folded. -/
theorem FoldsTo.eq_of_writtenTemporary? {last : Nat} (orderly : Code.IsOrderly 0 code last)
    {earlier number : Nat} {constant : Number} (folds : FoldsTo code earlier number constant)
    (found : code[position]? = some instruction)
    (writes : instruction.writtenTemporary? = some number) : earlier = position := by
  obtain ⟨_, writerFound, writerWrites⟩ := folds.exists_write
  exact orderly.eq_of_writtenTemporary? writerFound found writerWrites writes

variable (orderly : Code.IsOrderly 0 code last) (evaluates : meaning.Evaluates)

include orderly evaluates

/-- Carrying out an assignment or an operation. -/
theorem AreKnown.compute
    (sound : AreKnown meaning code (stack state)) (found : code[state.position]? = some instruction)
    {place : Place} (computed : instruction.computed? = some place) {value : Value}
    (computes : meaning.ofComputation? state.store instruction = some value) :
    AreKnown meaning code (stack (state.write place value)) := by
  have writes : instruction.writtenTemporary? = place.temporary? := by
    cases instruction <;> cases computed <;> rfl
  refine sound.write ?_ ?_
  · rintro earlier number constant folds rfl
    cases folds.eq_of_writtenTemporary? orderly found writes
    have same := ofComputation?_foldStep orderly evaluates (sound.1 _ mem_cons_self) found
    rw [FoldsTo, getElem?_foldConstants found, Option.some.injEq] at folds
    rw [folds, computes] at same
    exact (Option.some.inj same).symm
  · intro number constant folds
    obtain ⟨_, writerFound, writerWrites⟩ := folds.exists_write
    cases found.symm.trans writerFound
    rw [writes] at writerWrites
    cases place <;> cases writerWrites
    rfl

variable (enters : EntersFunctions linkage code) (passes : PassesVariables linkage)

include enters passes

/-- What is known stays known with every step. -/
theorem AreKnown.step (sound : AreKnown meaning code (stack state)) {next : State Value}
    (taken : Machine.step meaning linkage code.toArray state = some next) :
    AreKnown meaning code (stack next) := by
  obtain ⟨instruction, found, executed⟩ := Option.bind_eq_some_iff.mp taken
  rw [getElem?_toArray] at found
  have atLabel {label : Nat} {next : State Value}
      (goes : (Code.labelPosition? code.toArray label).map state.goTo = some next) :
      AreKnown meaning code (stack next) := by
    obtain ⟨_, labelled, rfl⟩ := Option.map_eq_some_iff.mp goes
    have standsThere := Code.getElem?_of_labelPosition? labelled
    rw [getElem?_toArray] at standsThere
    exact sound.goTo (isKnown_of_isBoundary standsThere rfl)
  cases instruction with
  | assign | binary =>
    cases executed
    exact sound.compute orderly evaluates found rfl rfl
  | branch | jump => exact atLabel executed
  | label | push | print =>
    cases executed
    exact sound.next found rfl
  | functionStart =>
    obtain ⟨_, ended, rfl⟩ := Option.map_eq_some_iff.mp executed
    have atEnd := Code.getElem?_of_functionEnd? ended
    rw [getElem?_toArray] at atEnd
    exact sound.goTo (isKnown_succ_of_isBoundary atEnd rfl)
  | functionEnd => exact sound.leave executed
  | call name arguments =>
    obtain ⟨_, reached, rfl⟩ := Option.map_eq_some_iff.mp executed
    obtain ⟨_, _, _, entry, atStart⟩ := enters reached
    exact sound.enter found rfl entry atStart (passes reached) arguments
  | pop =>
    cases executed
    refine sound.write ?_ fun number constant folds => absurd folds (not_foldsTo found rfl)
    rintro earlier number constant folds ⟨⟩
    cases folds.eq_of_writtenTemporary? orderly found rfl
    exact absurd folds (not_foldsTo found rfl)
  | giveBack value => cases value <;> exact sound.leave executed

/-- In every state that the code reaches from its head, what is known holds. -/
theorem isKnown_of_run {count : Nat}
    (reached : Machine.run meaning linkage code.toArray count (State.startIn meaning store) =
      some state) : IsKnown meaning code state.position state.store := by
  have atStart : AreKnown meaning code (stack (State.startIn meaning store)) :=
    ⟨forall_mem_singleton.mpr nofun, trivial⟩
  have keeps (state next : State Value) (sound : AreKnown meaning code (stack state))
      (taken : Machine.step meaning linkage code.toArray state = some next) :
      AreKnown meaning code (stack next) :=
    sound.step orderly evaluates enters passes taken
  exact (run_keeps keeps atStart reached).1 _ mem_cons_self

end Known

end Pass

/-- Constant folding keeps the meaning of every lowered program, whatever the
operations do where evaluation gives no finite value.  Step by step the folded
program is in the same state, and the same is seen of it: the same values are
printed, and the same calls are made with the same arguments and return the
same values. -/
theorem run_foldConstants_lower {Value : Type} {meaning : Meaning Value} {linkage : Linkage}
    (program : Program) (evaluates : meaning.Evaluates)
    (enters : Pass.EntersFunctions linkage program.lower)
    (passes : Pass.PassesVariables linkage) (store : Store Value) :
    (∀ count, run meaning linkage (Pass.foldConstants program.lower).toArray count
        (State.startIn meaning store) =
      run meaning linkage program.lower.toArray count (State.startIn meaning store)) ∧
    (∀ count, trace meaning linkage (Pass.foldConstants program.lower).toArray count
        (State.startIn meaning store) =
      trace meaning linkage program.lower.toArray count (State.startIn meaning store)) ∧
    (∀ output, Prints meaning linkage (Pass.foldConstants program.lower).toArray output ↔
      Prints meaning linkage program.lower.toArray output) := by
  obtain ⟨_, orderly⟩ := isOrderly_lower program
  have stands := Pass.standsFor_foldConstants program.lower
  have alike (store : Store Value) ⦃count : Nat⦄ ⦃state : State Value⦄
      (reached : run meaning linkage program.lower.toArray count (State.startIn meaning store) =
        some state) :
      ComputesAlike meaning (Pass.foldConstants program.lower).toArray program.lower.toArray
        state :=
    Pass.computesAlike_foldConstants orderly evaluates
      (Pass.isKnown_of_run orderly evaluates enters passes reached)
  have same := run_and_trace_eq_of_computesAlike stands (alike store)
  exact ⟨fun count => (same count).1, fun count => (same count).2,
    prints_iff_of_computesAlike stands (alike fun _ => meaning.undefined)⟩

/-- The arithmetic of scripts is the one that folding evaluates. -/
theorem evaluates_script (conversions : Conversions) : (Meaning.script conversions).Evaluates := by
  intro opcode lhs rhs value evaluated _
  cases opcode with
  | div =>
    simp only [Opcode.evaluate, Option.ite_none_left_eq_some] at evaluated
    exact congrArg ScriptValue.number (Option.some.inj evaluated.2)
  | add | sub | mul => exact congrArg ScriptValue.number (Option.some.inj evaluated)
  | _ => cases evaluated

/-- A sum of constants is held in a temporary while a function is called that
multiplies constants itself. -/
def addingConstants : Program :=
  ⟨[.function "shift" ["x"] [.giveBack (some (.binary .add (.identifier "x")
      (.binary .multiply (.literal (.number (.ofNat 2))) (.literal (.number (.ofNat 3))))))],
    .print (.call "shift" [.binary .add (.binary .add (.literal (.number (.ofNat 1)))
      (.literal (.number (.ofNat 2)))) (.call "shift" [.literal (.number (.ofNat 4))])])]⟩

/-- Every call reaches the only function. -/
def addingLinkage : Linkage := fun _ _ =>
  some ⟨2, [.variable (slotName 0 0)], fun place => place = .variable (slotName 0 0)⟩

/-- The product and the sum are folded, the sum also behind the call, and the
program prints the same. -/
theorem prints_foldConstants_addingConstants :
    (Pass.foldConstants addingConstants.lower)[2]? =
        some (.assign (.temporary 1) (.number (.ofNat 6))) ∧
      (Pass.foldConstants addingConstants.lower)[10]? =
        some (.binary .add 5 (.number (.ofNat 3)) (.temporary 4)) ∧
      Prints (Meaning.script .coarse) addingLinkage
        (Pass.foldConstants addingConstants.lower).toArray [.number (.ofNat 19)] := by
  have enters : Pass.EntersFunctions addingLinkage addingConstants.lower := by
    rintro position name callee ⟨⟩
    exact ⟨1, "shift", 1, rfl, rfl⟩
  have passes : Pass.PassesVariables addingLinkage := by
    rintro position name callee ⟨⟩ place member
    exact ⟨_, mem_singleton.mp member⟩
  obtain ⟨-, -, prints⟩ := run_foldConstants_lower addingConstants (evaluates_script .coarse) enters
    passes fun _ => .undefined
  refine ⟨by decide, by decide, (prints _).mpr ⟨17, _, rfl, rfl, ?_⟩⟩
  decide +kernel

end BanglaScript
