import BanglaScript.Proofs.Code.Segment

/-!
# Running instructions

The machine has a position in the code, one store for variables and
temporaries, the operands that have been pushed, the calls that have not
returned and the output printed so far.  What the operations compute and which
values count as true is left open, and so is which function a call reaches.

A run that reaches the end of the code is finished.  A run that cannot go on
anywhere else, because a label or a function is missing or because there is no
call to return from, is stuck.
-/

namespace BanglaScript

open Option

/-- What values are and what is computed with them.  Programs compute with their ten
operators.  Shifts occur in instructions only. -/
structure Meaning (Value : Type) where
  number : Number → Value
  string : String → Value
  boolean : Bool → Value
  /-- The value of what has never been written, and of a call without result. -/
  undefined : Value
  apply : BinaryOperator → Value → Value → Value
  shiftLeft : Value → Value → Value
  shiftRight : Value → Value → Value
  /-- A branch takes its first target on this value. -/
  isTrue : Value → Bool

/-- What an opcode computes: the operator that it stands for, or a shift. -/
def Meaning.operate {Value : Type} (meaning : Meaning Value) : Opcode → Value → Value → Value
  | .add => meaning.apply .add
  | .sub => meaning.apply .subtract
  | .mul => meaning.apply .multiply
  | .div => meaning.apply .divide
  | .eq => meaning.apply .equal
  | .ne => meaning.apply .notEqual
  | .lt => meaning.apply .less
  | .gt => meaning.apply .greater
  | .le => meaning.apply .lessEqual
  | .ge => meaning.apply .greaterEqual
  | .shl => meaning.shiftLeft
  | .shr => meaning.shiftRight

/-- An operator is lowered to an opcode that computes it. -/
theorem Meaning.operate_ofOperator {Value : Type} (meaning : Meaning Value)
    (operator : BinaryOperator) :
    meaning.operate (Opcode.ofOperator operator) = meaning.apply operator := by
  cases operator <;> rfl

/-- What every place holds. -/
abbrev Store (Value : Type) := Place → Value

namespace Store

variable {Value : Type}

/-- Write a place. -/
def set (store : Store Value) (place : Place) (value : Value) : Store Value :=
  fun other => if other = place then value else store other

@[simp]
theorem set_self (store : Store Value) (place : Place) (value : Value) :
    store.set place value place = value :=
  if_pos rfl

theorem set_of_ne (store : Store Value) {place other : Place} (value : Value)
    (different : other ≠ place) : store.set place value other = store other :=
  if_neg different

theorem set_eq_self (store : Store Value) (place : Place) :
    store.set place (store place) = store := by
  funext other
  by_cases same : other = place
  · rw [same, set_self]
  · exact set_of_ne store _ same

end Store

/-- The value of a name of the lowered program.  The truth values are names
that hold themselves. -/
def Meaning.ofName {Value : Type} (meaning : Meaning Value) (store : Store Value)
    (name : String) : Value :=
  if name = "true" then meaning.boolean true
  else if name = "false" then meaning.boolean false
  else store (.variable name)

/-- The value of an operand. -/
def Meaning.ofOperand {Value : Type} (meaning : Meaning Value) (store : Store Value) :
    Operand → Value
  | .variable name => meaning.ofName store name
  | .temporary number => store (.temporary number)
  | .number value => meaning.number value
  | .string contents => meaning.string contents

/-- The value of an operand depends on the place that it reads. -/
theorem Meaning.ofOperand_congr {Value : Type} (meaning : Meaning Value)
    {first second : Store Value} {operand : Operand}
    (same : ∀ place, operand.place? = some place → second place = first place) :
    meaning.ofOperand second operand = meaning.ofOperand first operand := by
  cases operand with
  | «variable» name => simp only [ofOperand, ofName, same (.variable name) rfl]
  | temporary number => exact same (.temporary number) rfl
  | number | string => rfl

/-! ## Stores that agree -/

/-- The stores hold the same in these places. -/
def Store.AgreesOn {Value : Type} (places : Place → Bool) (first second : Store Value) : Prop :=
  ∀ ⦃place : Place⦄, places place = true → second place = first place

/-- The place is a variable, or one of these temporaries. -/
def Place.isVariableOr (temporaries : Nat → Bool) : Place → Bool
  | .variable _ => true
  | .temporary number => temporaries number

namespace Store.AgreesOn

variable {Value : Type} {places others : Place → Bool} {first second third : Store Value}
  {temporaries : Nat → Bool}

theorem refl (store : Store Value) : AgreesOn places store store := fun _ _ => rfl

theorem onVariables (agrees : AgreesOn (Place.isVariableOr temporaries) first second)
    (name : String) : second (.variable name) = first (.variable name) :=
  agrees rfl

theorem of_variables (named : ∀ name, second (.variable name) = first (.variable name))
    (numbered : ∀ number, temporaries number = true →
      second (.temporary number) = first (.temporary number)) :
    AgreesOn (Place.isVariableOr temporaries) first second := by
  intro place inside
  cases place with
  | «variable» name => exact named name
  | temporary number => exact numbered number inside

variable (agrees : AgreesOn places first second)

include agrees

theorem symm : AgreesOn places second first := fun _ inside => (agrees inside).symm

theorem trans (later : AgreesOn places second third) : AgreesOn places first third :=
  fun _ inside => (later inside).trans (agrees inside)

theorem mono (covered : ∀ place, others place = true → places place = true) :
    AgreesOn others first second :=
  fun place inside => agrees (covered place inside)

/-- Both stores are written alike, and agree on what is written. -/
theorem set_of_covered (place : Place) (value : Value)
    (covered : ∀ other, others other = true → other = place ∨ places other = true) :
    AgreesOn others (first.set place value) (second.set place value) := by
  intro other otherIn
  by_cases same : other = place
  · rw [same, set_self, set_self]
  · rw [set_of_ne _ _ same, set_of_ne _ _ same, agrees ((covered other otherIn).resolve_left same)]

theorem set (place : Place) (value : Value) :
    AgreesOn places (first.set place value) (second.set place value) :=
  agrees.set_of_covered place value fun _ => .inr

/-- What is written elsewhere is not noticed. -/
theorem set_left {place : Place} (outside : places place = false) (value : Value) :
    AgreesOn places (first.set place value) second := by
  intro other otherIn
  have different : other ≠ place := by
    rintro rfl
    rw [outside] at otherIn
    cases otherIn
  rw [set_of_ne _ _ different, agrees otherIn]

/-- Places that are written one after the other. -/
theorem foldl_set {Slot : Type} (slots : List Slot) (place : Slot → Place) (value : Slot → Value) :
    AgreesOn places
      (slots.foldl (fun store slot => store.set (place slot) (value slot)) first)
      (slots.foldl (fun store slot => store.set (place slot) (value slot)) second) := by
  induction slots generalizing first second with
  | nil => exact agrees
  | cons slot slots ih => exact ih (agrees.set (place slot) (value slot))

end Store.AgreesOn

/-! ## Steps and runs -/

namespace Machine

variable {count first second : Nat}

/-- A call that has not returned: where it goes on, and what its caller's
places held. -/
structure Frame (Value : Type) where
  next : Nat
  store : Store Value
  isRestored : Place → Bool

/-- The function that a call reaches: where its body starts, which places take
its arguments, and which places it has for itself. -/
structure Callee where
  entry : Nat
  parameters : List Place
  owns : Place → Bool

/-- The function that a call at a position reaches, by its name. -/
abbrev Linkage := Nat → String → Option Callee

/-- The state of a run. -/
structure State (Value : Type) where
  position : Nat
  store : Store Value
  /-- The operands pushed for a call, the last one first. -/
  pushed : List Value
  frames : List (Frame Value)
  /-- The result of the last call. -/
  result : Value
  output : List Value

namespace State

variable {Value : Type}

/-- Before the first instruction, when nothing has been written. -/
def start (meaning : Meaning Value) : State Value :=
  { position := 0, store := fun _ => meaning.undefined, pushed := [], frames := []
    result := meaning.undefined, output := [] }

/-- Behind the instruction, with nothing else changed. -/
def next (state : State Value) : State Value := { state with position := state.position + 1 }

/-- Behind an instruction that writes a place. -/
def write (state : State Value) (place : Place) (value : Value) : State Value :=
  { state.next with store := state.store.set place value }

/-- At another position. -/
def goTo (state : State Value) (position : Nat) : State Value :=
  { state with position := position }

/-- Inside the function that a call reaches. -/
def enter (state : State Value) (meaning : Meaning Value) (callee : Callee)
    (arguments : Nat) : State Value :=
  let values := (state.pushed.take arguments).reverse
  { state with
    position := callee.entry
    store := callee.parameters.zipIdx.foldl
      (fun store slot => store.set slot.1 (values[slot.2]?.getD meaning.undefined)) state.store
    pushed := state.pushed.drop arguments
    frames := ⟨state.position + 1, state.store, callee.owns⟩ :: state.frames }

/-- Behind the call that is left.  Without a call there is nowhere to go. -/
def leave (state : State Value) (result : Value) : Option (State Value) :=
  match state.frames with
  | [] => none
  | frame :: frames =>
    some { state with
      position := frame.next
      store := fun place =>
        if frame.isRestored place then frame.store place else state.store place
      frames := frames
      result := result }

end State

variable {Value : Type} (meaning : Meaning Value) (linkage : Linkage) (code : Code)

/-- Carry out one instruction. -/
def execute (state : State Value) : Instruction → Option (State Value)
  | .assign target value => some (state.write target (meaning.ofOperand state.store value))
  | .binary opcode target lhs rhs =>
    some (state.write (.temporary target) (meaning.operate opcode
      (meaning.ofOperand state.store lhs) (meaning.ofOperand state.store rhs)))
  | .branch condition whenTrue whenFalse =>
    let label :=
      if meaning.isTrue (meaning.ofOperand state.store condition) then whenTrue else whenFalse
    (code.labelPosition? label).map state.goTo
  | .jump label => (code.labelPosition? label).map state.goTo
  | .label _ => some state.next
  -- A function that is reached in sequence is passed over.
  | .functionStart name _ =>
    (code.functionEnd? name 0 (state.position + 1) (code.size - (state.position + 1))).map
      fun finish => state.goTo (finish + 1)
  | .functionEnd _ => state.leave meaning.undefined
  | .push value =>
    some { state.next with pushed := meaning.ofOperand state.store value :: state.pushed }
  | .call name arguments =>
    (linkage state.position name).map fun callee => state.enter meaning callee arguments
  | .pop target => some (state.write (.temporary target) state.result)
  | .giveBack none => state.leave meaning.undefined
  | .giveBack (some value) => state.leave (meaning.ofOperand state.store value)
  | .print value =>
    some { state.next with output := state.output ++ [meaning.ofOperand state.store value] }

/-- One step of a run. -/
def step (state : State Value) : Option (State Value) :=
  code[state.position]?.bind (execute meaning linkage code state)

/-- The state after a number of steps. -/
def run : Nat → State Value → Option (State Value)
  | 0, state => some state
  | count + 1, state => (step meaning linkage code state).bind (run count)

/-- The code runs to its end and prints the output. -/
def Prints (output : List Value) : Prop :=
  ∃ count final, run meaning linkage code count (State.start meaning) = some final ∧
    final.position = code.size ∧ final.output = output

/-! ## Runs -/

variable {meaning linkage code} {state middle target source : State Value}

theorem step_eq {instruction : Instruction} (found : code[state.position]? = some instruction) :
    step meaning linkage code state = execute meaning linkage code state instruction := by
  rw [step, found, bind_some]

theorem step_eq_none_of_size_le (outside : code.size ≤ state.position) :
    step meaning linkage code state = none := by
  rw [step, Array.getElem?_eq_none outside, bind_none]

@[simp]
theorem run_zero (state : State Value) : run meaning linkage code 0 state = some state :=
  rfl

theorem run_succ (first : step meaning linkage code state = some middle) :
    run meaning linkage code (count + 1) state = run meaning linkage code count middle := by
  rw [run, first, bind_some]

theorem run_one (only : step meaning linkage code state = some target) :
    run meaning linkage code 1 state = some target :=
  run_succ only

theorem run_add (first second : Nat) (state : State Value) :
    run meaning linkage code (first + second) state =
      (run meaning linkage code first state).bind (run meaning linkage code second) := by
  induction first generalizing state with
  | zero => rw [Nat.zero_add, run_zero, bind_some]
  | succ first ih =>
    rw [Nat.succ_add, run, run, bind_assoc]
    exact congrArg _ (funext ih)

/-- Runs can be put one behind the other. -/
theorem run_trans (toMiddle : run meaning linkage code first source = some middle)
    (toTarget : run meaning linkage code second middle = some target) :
    run meaning linkage code (first + second) source = some target := by
  rw [run_add, toMiddle, bind_some, toTarget]

/-- What every step keeps, a run keeps. -/
theorem run_keeps {Kept : State Value → Prop}
    (keeps : ∀ state next, Kept state → step meaning linkage code state = some next → Kept next)
    (kept : Kept state) (reached : run meaning linkage code count state = some target) :
    Kept target := by
  induction count generalizing state with
  | zero =>
    cases reached
    exact kept
  | succ count ih =>
    obtain ⟨middle, first, rest⟩ := bind_eq_some_iff.mp reached
    exact ih (keeps state middle kept first) rest

/-- A run that cannot go on passes through every state that is reached at
all. -/
theorem run_through {total : Nat} {final : State Value}
    (toFinal : run meaning linkage code total source = some final)
    (stopped : step meaning linkage code final = none)
    (toMiddle : run meaning linkage code count source = some middle) :
    ∃ rest, total = count + rest ∧ run meaning linkage code rest middle = some final := by
  by_cases early : count ≤ total
  · obtain ⟨rest, rfl⟩ := Nat.exists_eq_add_of_le early
    rw [run_add, toMiddle, bind_some] at toFinal
    exact ⟨rest, rfl, toFinal⟩
  · obtain ⟨_, rfl⟩ := Nat.exists_eq_add_of_lt (Nat.lt_of_not_le early)
    rw [Nat.add_assoc, run_add, toFinal, bind_some, run, stopped] at toMiddle
    cases toMiddle

/-- Two runs from one state that cannot go on are the same run. -/
theorem eq_of_stopped {left right : State Value}
    (toLeft : run meaning linkage code first source = some left)
    (leftStopped : step meaning linkage code left = none)
    (toRight : run meaning linkage code second source = some right)
    (rightStopped : step meaning linkage code right = none) : left = right := by
  obtain ⟨rest, _, toEnd⟩ := run_through toLeft leftStopped toRight
  cases rest with
  | zero => exact (Option.some.inj toEnd).symm
  | succ =>
    rw [run, rightStopped] at toEnd
    cases toEnd

/-- A code prints at most one output. -/
theorem Prints.unique {first second : List Value} (left : Prints meaning linkage code first)
    (right : Prints meaning linkage code second) : first = second := by
  obtain ⟨_, _, toLeft, leftEnded, rfl⟩ := left
  obtain ⟨_, _, toRight, rightEnded, rfl⟩ := right
  rw [eq_of_stopped toLeft (step_eq_none_of_size_le (Nat.le_of_eq leftEnded.symm)) toRight
    (step_eq_none_of_size_le (Nat.le_of_eq rightEnded.symm))]

end Machine

end BanglaScript
