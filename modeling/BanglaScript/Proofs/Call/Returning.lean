import BanglaScript.Proofs.Machine

/-!
# Calls that come back

A call opens a frame, and the function that it reaches may open others before
it returns.  When the frame is closed the caller goes on behind the call, with
its own places restored.  Told in this way a call is one event, however many
steps the machine takes until it comes back.
-/

namespace BanglaScript

open List

/-- The value that an instruction returns from a function. -/
def Meaning.ofReturn? {Value : Type} (meaning : Meaning Value) (store : Store Value) :
    Instruction → Option Value
  | .functionEnd _ | .giveBack none => some meaning.undefined
  | .giveBack (some value) => some (meaning.ofOperand store value)
  | _ => none

namespace Machine

/-- Behind the call that opened a frame, with the places of the caller restored. -/
def State.closed {Value : Type} (state : State Value) (frame : Frame Value)
    (frames : List (Frame Value)) (result : Value) : State Value :=
  { state with
    position := frame.next
    store := fun place => if frame.isRestored place then frame.store place else state.store place
    frames := frames
    result := result }

variable {Value : Type} (meaning : Meaning Value) (linkage : Linkage) (code : Code)

/-- From a state inside of a call the machine goes on until it has left the
call.  Calls that are made on the way come back first. -/
inductive Returns : State Value → State Value → Prop
  | leave {state final : State Value} {frame : Frame Value}
      (taken : step meaning linkage code state = some final)
      (opened : state.frames = frame :: final.frames) : Returns state final
  | next {state next final : State Value} (taken : step meaning linkage code state = some next)
      (level : next.frames = state.frames) (rest : Returns next final) : Returns state final
  | call {state entered back final : State Value} {frame : Frame Value}
      (taken : step meaning linkage code state = some entered)
      (opened : entered.frames = frame :: state.frames) (inner : Returns entered back)
      (rest : Returns back final) : Returns state final

/-- The machine carries out a number of instructions, together with the
functions that they call. -/
inductive Passes : Nat → State Value → State Value → Prop
  | done {state : State Value} : Passes 0 state state
  | next {count : Nat} {state next final : State Value}
      (taken : step meaning linkage code state = some next) (level : next.frames = state.frames)
      (rest : Passes count next final) : Passes (count + 1) state final
  | call {count : Nat} {state entered back final : State Value} {frame : Frame Value}
      (taken : step meaning linkage code state = some entered)
      (opened : entered.frames = frame :: state.frames)
      (inner : Returns meaning linkage code entered back) (rest : Passes count back final) :
      Passes (count + 1) state final

variable {meaning linkage code} {state next final other : State Value}

/-! ## Frames -/

/-- Frames that are opened make the stack longer. -/
theorem frames_ne_cons_cons (frames : List (Frame Value)) (first second : Frame Value) :
    frames ≠ first :: second :: frames := by
  intro same
  have lengths := congrArg List.length same
  simp only [length_cons] at lengths
  omega

variable {frame : Frame Value} {frames : List (Frame Value)}

theorem leave_eq (opened : state.frames = frame :: frames) (result : Value) :
    state.leave result = some (state.closed frame frames result) := by
  rw [State.leave, opened]
  rfl

/-- Leaving a function closes its frame. -/
theorem exists_frame_of_leave {result : Value} (leaves : state.leave result = some next) :
    ∃ frame, state.frames = frame :: next.frames := by
  cases opened : state.frames with
  | nil =>
    rw [State.leave, opened] at leaves
    cases leaves
  | cons frame =>
    rw [leave_eq opened, Option.some.injEq] at leaves
    exact ⟨frame, leaves ▸ rfl⟩

theorem frames_ne_of_leave {result : Value} (leaves : state.leave result = some next) :
    next.frames ≠ state.frames := by
  obtain ⟨_, opened⟩ := exists_frame_of_leave leaves
  exact fun level => cons_ne_self _ _ (level.trans opened).symm

/-- What returns a value leaves the function. -/
theorem execute_eq_leave {instruction : Instruction} {result : Value}
    (returned : meaning.ofReturn? state.store instruction = some result) :
    execute meaning linkage code state instruction = state.leave result := by
  cases instruction with
  | functionEnd =>
    cases returned
    rfl
  | giveBack value => cases value <;> cases returned <;> rfl
  | _ => cases returned

section

variable (taken : step meaning linkage code state = some next)

include taken

/-- A step stays in the function, enters one, or leaves the function. -/
theorem step_cases : next.frames = state.frames ∨
      (∃ name arguments callee, code[state.position]? = some (.call name arguments) ∧
        linkage state.position name = some callee ∧
        next = state.enter meaning callee arguments) ∨
      ∃ instruction result, code[state.position]? = some instruction ∧
        meaning.ofReturn? state.store instruction = some result ∧
        state.leave result = some next := by
  have moved {label : Nat} (goes : (code.labelPosition? label).map state.goTo = some next) :
      next.frames = state.frames := by
    obtain ⟨_, _, rfl⟩ := Option.map_eq_some_iff.mp goes
    rfl
  obtain ⟨instruction, found, executed⟩ := Option.bind_eq_some_iff.mp taken
  cases instruction with
  | assign | binary | label | push | pop | print => cases executed; exact .inl rfl
  | branch | jump => exact .inl (moved executed)
  | functionStart =>
    obtain ⟨_, _, rfl⟩ := Option.map_eq_some_iff.mp executed
    exact .inl rfl
  | functionEnd => exact .inr (.inr ⟨_, _, found, rfl, executed⟩)
  | call name arguments =>
    obtain ⟨callee, reached, rfl⟩ := Option.map_eq_some_iff.mp executed
    exact .inr (.inl ⟨name, arguments, callee, found, reached, rfl⟩)
  | giveBack value => cases value <;> exact .inr (.inr ⟨_, _, found, rfl, executed⟩)

/-- A step that opens a frame is a call. -/
theorem eq_enter_of_opened (opened : next.frames = frame :: state.frames) :
    ∃ name arguments callee, code[state.position]? = some (.call name arguments) ∧
      linkage state.position name = some callee ∧
      next = state.enter meaning callee arguments := by
  rcases step_cases taken with level | entered | ⟨_, _, _, _, leaves⟩
  · exact absurd (opened.symm.trans level) (cons_ne_self _ _)
  · exact entered
  · obtain ⟨closed, shorter⟩ := exists_frame_of_leave leaves
    exact absurd (shorter.trans (congrArg (closed :: ·) opened)) (frames_ne_cons_cons _ _ _)

/-- A step that closes a frame returns a value. -/
theorem leave_of_opened (opened : state.frames = frame :: next.frames) :
    ∃ instruction result, code[state.position]? = some instruction ∧
      meaning.ofReturn? state.store instruction = some result ∧
      state.leave result = some next := by
  rcases step_cases taken with level | ⟨name, arguments, callee, _, _, rfl⟩ | left
  · exact absurd (opened.symm.trans level.symm) (cons_ne_self _ _)
  · exact absurd opened (frames_ne_cons_cons _ _ _)
  · exact left

end

namespace Returns

/-- A call that has come back goes on where its frame says. -/
theorem back (returns : Returns meaning linkage code state final)
    (opened : state.frames = frame :: frames) :
    final.position = frame.next ∧ final.frames = frames ∧
      ∀ place, frame.isRestored place → final.store place = frame.store place := by
  induction returns generalizing frame frames with
  | leave taken closed =>
    obtain ⟨_, _, _, _, leaves⟩ := leave_of_opened taken closed
    rw [leave_eq opened, Option.some.injEq] at leaves
    rw [← leaves]
    exact ⟨rfl, rfl, fun place restored => if_pos restored⟩
  | next taken level rest ih => exact ih (level.trans opened)
  | call taken entered inner rest innerIh restIh =>
    exact restIh ((innerIh entered).2.1.trans opened)

/-- A call comes back in one way only. -/
theorem unique (first : Returns meaning linkage code state final)
    (second : Returns meaning linkage code state other) : final = other := by
  induction first generalizing other with
  | leave taken opened =>
    cases second with
    | leave otherTaken => exact Option.some.inj (taken.symm.trans otherTaken)
    | next otherTaken level =>
      cases taken.symm.trans otherTaken
      exact absurd (level.trans opened).symm (cons_ne_self _ _)
    | call otherTaken entered =>
      cases taken.symm.trans otherTaken
      exact absurd (opened.trans (congrArg _ entered)) (frames_ne_cons_cons _ _ _)
  | next taken level rest ih =>
    cases second with
    | leave otherTaken opened =>
      cases taken.symm.trans otherTaken
      exact absurd (level.trans opened).symm (cons_ne_self _ _)
    | next otherTaken _ otherRest =>
      cases taken.symm.trans otherTaken
      exact ih otherRest
    | call otherTaken entered =>
      cases taken.symm.trans otherTaken
      exact absurd (entered.symm.trans level) (cons_ne_self _ _)
  | call taken entered inner rest innerIh restIh =>
    cases second with
    | leave otherTaken opened =>
      cases taken.symm.trans otherTaken
      exact absurd (opened.trans (congrArg _ entered)) (frames_ne_cons_cons _ _ _)
    | next otherTaken level =>
      cases taken.symm.trans otherTaken
      exact absurd (entered.symm.trans level) (cons_ne_self _ _)
    | call otherTaken _ otherInner otherRest =>
      cases taken.symm.trans otherTaken
      cases innerIh otherInner
      exact restIh otherRest

end Returns

namespace Passes

variable {first second : Nat} {middle : State Value}

theorem trans (toMiddle : Passes meaning linkage code first state middle)
    (toFinal : Passes meaning linkage code second middle final) :
    Passes meaning linkage code (first + second) state final := by
  induction toMiddle with
  | done => rwa [Nat.zero_add]
  | next taken level rest ih =>
    rw [Nat.succ_add]
    exact .next taken level (ih toFinal)
  | call taken opened inner rest ih =>
    rw [Nat.succ_add]
    exact .call taken opened inner (ih toFinal)

/-- Instructions are carried out one behind the other. -/
theorem split (passes : Passes meaning linkage code (first + second) state final) :
    ∃ middle, Passes meaning linkage code first state middle ∧
      Passes meaning linkage code second middle final := by
  induction first generalizing state with
  | zero => exact ⟨state, .done, by rwa [Nat.zero_add] at passes⟩
  | succ first ih =>
    rw [Nat.succ_add] at passes
    cases passes with
    | next taken level rest =>
      obtain ⟨middle, toMiddle, toFinal⟩ := ih rest
      exact ⟨middle, .next taken level toMiddle, toFinal⟩
    | call taken opened inner rest =>
      obtain ⟨middle, toMiddle, toFinal⟩ := ih rest
      exact ⟨middle, .call taken opened inner toMiddle, toFinal⟩

theorem unique {count : Nat} (passes : Passes meaning linkage code count state final)
    (others : Passes meaning linkage code count state other) : final = other := by
  induction passes with
  | done =>
    cases others
    rfl
  | next taken level rest ih =>
    cases others with
    | next otherTaken _ otherRest =>
      cases taken.symm.trans otherTaken
      exact ih otherRest
    | call otherTaken opened =>
      cases taken.symm.trans otherTaken
      exact absurd (opened.symm.trans level) (cons_ne_self _ _)
  | call taken opened inner rest ih =>
    cases others with
    | next otherTaken level =>
      cases taken.symm.trans otherTaken
      exact absurd (opened.symm.trans level) (cons_ne_self _ _)
    | call otherTaken _ otherInner otherRest =>
      cases taken.symm.trans otherTaken
      cases inner.unique otherInner
      exact ih otherRest

end Passes

end Machine

end BanglaScript
