import BanglaScript.Proofs.Machine

/-!
# What can be seen of a run

Besides what it prints, a run shows to which labels control goes, which calls
are made with which arguments, and what they return.  These events form the
trace of the run.  A run that cannot go on has ended, either behind the code or
at an instruction that cannot be carried out.

A run without end is known by its finite parts: two codes behave alike if the
same traces can be seen and the same ends are reached.
-/

namespace BanglaScript.Machine

/-- What can be seen when an instruction is carried out. -/
inductive Event (Value : Type) where
  | wentTo (label : Nat)
  | called (name : String) (arguments : List Value)
  | returned (result : Value)
  | printed (value : Value)

variable {Value : Type} (meaning : Meaning Value) (linkage : Linkage) (code : Code)

/-- What is seen of an instruction that is carried out. -/
def event? (state : State Value) : Instruction → Option (Event Value)
  | .branch condition whenTrue whenFalse =>
    some (.wentTo (if meaning.isTrue (meaning.ofOperand state.store condition) then whenTrue
      else whenFalse))
  | .jump label => some (.wentTo label)
  | .call name arguments => some (.called name (state.pushed.take arguments).reverse)
  | .functionEnd _ | .giveBack none => some (.returned meaning.undefined)
  | .giveBack (some value) => some (.returned (meaning.ofOperand state.store value))
  | .print value => some (.printed (meaning.ofOperand state.store value))
  | _ => none

/-- What is seen of the next step. -/
def seen (state : State Value) : List (Event Value) :=
  (code[state.position]?.bind (event? meaning state)).toList

/-- What is seen of a number of steps, or of all steps if there are fewer. -/
def trace : Nat → State Value → List (Event Value)
  | 0, _ => []
  | count + 1, state =>
    match step meaning linkage code state with
    | none => []
    | some next => seen meaning code state ++ trace count next

/-- Some part of the run shows the events. -/
def Shows (start : State Value) (events : List (Event Value)) : Prop :=
  ∃ count, trace meaning linkage code count start = events

/-- The run shows the events and then cannot go on.  It stops at the last
instruction, or behind the code if there is none, and leaves the store. -/
def Ends (start : State Value) (events : List (Event Value)) (last : Option Instruction)
    (store : Store Value) : Prop :=
  ∃ count final, run meaning linkage code count start = some final ∧
    step meaning linkage code final = none ∧ trace meaning linkage code count start = events ∧
    code[final.position]? = last ∧ final.store = store

/-- Before the first instruction, with a store that holds something already. -/
def State.startIn (store : Store Value) : State Value := { State.start meaning with store := store }

variable {meaning linkage code}

@[simp]
theorem trace_zero (state : State Value) : trace meaning linkage code 0 state = [] :=
  rfl

theorem trace_succ {count : Nat} {state next : State Value}
    (first : step meaning linkage code state = some next) :
    trace meaning linkage code (count + 1) state =
      seen meaning code state ++ trace meaning linkage code count next := by
  rw [trace, first]

/-- The trace of a run and of a run behind it. -/
theorem trace_add {first second : Nat} {source middle : State Value}
    (reached : run meaning linkage code first source = some middle) :
    trace meaning linkage code (first + second) source =
      trace meaning linkage code first source ++ trace meaning linkage code second middle := by
  induction first generalizing source with
  | zero =>
    cases reached
    rw [Nat.zero_add, trace_zero, List.nil_append]
  | succ first ih =>
    obtain ⟨_, taken, rest⟩ := Option.bind_eq_some_iff.mp reached
    rw [Nat.succ_add, trace_succ taken, trace_succ taken, ih rest, List.append_assoc]

variable (meaning linkage code) in
/-- Every trace is the trace of steps that can all be taken. -/
theorem exists_run_of_trace (count : Nat) (start : State Value) :
    ∃ steps final, run meaning linkage code steps start = some final ∧
      trace meaning linkage code steps start = trace meaning linkage code count start := by
  induction count generalizing start with
  | zero => exact ⟨0, start, rfl, rfl⟩
  | succ count ih =>
    cases taken : step meaning linkage code start with
    | none =>
      refine ⟨0, start, rfl, ?_⟩
      rw [trace_zero, trace, taken]
    | some next =>
      obtain ⟨steps, final, reached, same⟩ := ih next
      refine ⟨steps + 1, final, (run_succ taken).trans reached, ?_⟩
      rw [trace_succ taken, trace_succ taken, same]

end BanglaScript.Machine
