import BanglaScript.Proofs.Pass.Rewriting
import BanglaScript.Proofs.Trace
import Mathlib.Data.List.Forall2

/-!
# Runs without dead code

Dropping instructions moves everything behind them to an earlier position.  The
position that belongs to a position of the whole code is the number of
instructions before it that stay; labels, ends of functions and the
instructions that stay are found there.

A state of the short code follows a state of the whole code if it stands at the
position that belongs to it and if the two stores agree on the variables and on
the temporaries that the code reads.  An instruction that stays takes such
states to such states and shows the same; a dropped instruction is a step of
the whole code alone and shows nothing.
-/

namespace BanglaScript

open List

namespace Pass

/-- The place can be noticed: it is a variable, or a temporary that the code
reads. -/
def isNoticed (code : List Instruction) : Place → Bool
  | .variable _ => true
  | .temporary number => isRead code number

/-! ## Positions -/

/-- The position that belongs to a position of the whole code: the number of
instructions before it that stay. -/
def keptBefore (code : List Instruction) (position : Nat) : Nat :=
  (code.take position).countP (isLive code)

/-- Where an instruction of the short code stands in the whole code. -/
def origin? (code : List Instruction) (position : Nat) : Option Nat :=
  (code.zipIdx.filter fun entry => isLive code entry.1)[position]?.map Prod.snd

/-- The calls of the short code reach the functions that they reached. -/
def relocated (code : List Instruction) (linkage : Machine.Linkage) : Machine.Linkage :=
  fun position name => (origin? code position).bind fun origin =>
    (linkage origin name).map fun callee =>
      { callee with entry := keptBefore code callee.entry }

/-- An element that a filter keeps stands behind those before it that are
kept. -/
theorem getElem?_filter_countP {Element : Type} {keeps : Element → Bool} {list : List Element}
    {position : Nat} {element : Element} (found : list[position]? = some element)
    (kept : keeps element = true) :
    (list.filter keeps)[(list.take position).countP keeps]? = some element := by
  obtain ⟨inside, rfl⟩ := List.getElem?_eq_some_iff.mp found
  have split : list.filter keeps = (list.take position).filter keeps ++
      list[position] :: (list.drop (position + 1)).filter keeps := by
    conv => lhs; rw [← take_append_drop position list, drop_eq_getElem_cons inside]
    rw [filter_append, filter_cons_of_pos kept]
  rw [split, countP_eq_length_filter, getElem?_append_right (Nat.le_refl _), Nat.sub_self,
    getElem?_cons_zero]

section Positions

variable {code : List Instruction} {position : Nat} {instruction : Instruction}

@[simp]
theorem keptBefore_zero (code : List Instruction) : keptBefore code 0 = 0 :=
  rfl

theorem keptBefore_of_length_le (outside : code.length ≤ position) :
    keptBefore code position = (dropUnread code).length := by
  rw [keptBefore, take_of_length_le outside, countP_eq_length_filter, dropUnread]

theorem keptBefore_succ_of_not_isLive (found : code[position]? = some instruction)
    (dead : isLive code instruction = false) :
    keptBefore code (position + 1) = keptBefore code position := by
  rw [keptBefore, take_add_one, found, countP_append]
  simp [dead, keptBefore]

theorem keptBefore_mono (code : List Instruction) {first second : Nat} (ordered : first ≤ second) :
    keptBefore code first ≤ keptBefore code second :=
  (take_sublist_take_left ordered).countP_le

theorem getElem?_dropUnread_of_length_le (outside : code.length ≤ position) :
    (dropUnread code)[keptBefore code position]? = none := by
  rw [keptBefore_of_length_le outside]
  exact getElem?_eq_none (Nat.le_refl _)

section Kept

variable (found : code[position]? = some instruction) (live : isLive code instruction = true)

include found live

theorem keptBefore_succ_of_isLive :
    keptBefore code (position + 1) = keptBefore code position + 1 := by
  rw [keptBefore, take_add_one, found, countP_append]
  simp [live, keptBefore]

/-- An instruction that stays is found at the position that belongs to its
own. -/
theorem getElem?_dropUnread :
    (dropUnread code)[keptBefore code position]? = some instruction :=
  getElem?_filter_countP found live

theorem origin?_keptBefore :
    origin? code (keptBefore code position) = some position := by
  have numbered : code.zipIdx[position]? = some (instruction, position) := by
    rw [getElem?_zipIdx, found, Option.map_some, Nat.zero_add]
  have count : (code.zipIdx.take position).countP (fun entry => isLive code entry.1) =
      keptBefore code position := by
    rw [keptBefore, ← zipIdx_map_fst 0 code, ← map_take, countP_map, zipIdx_map_fst]
    rfl
  rw [origin?, ← count, getElem?_filter_countP numbered live, Option.map_some]

end Kept

/-! ## Searches -/

/-- A search for something that stays finds it where it belongs.  The range
grows by one position at a time, and a dropped instruction adds nothing to the
range of the short code. -/
theorem lastPosition?_keptBefore (inWhole inShort : Nat → Bool)
    (agree : ∀ ⦃position instruction⦄, code[position]? = some instruction →
      isLive code instruction = true → inShort (keptBefore code position) = inWhole position)
    (absent : ∀ ⦃position instruction⦄, code[position]? = some instruction →
      isLive code instruction = false → inWhole position = false)
    {count : Nat} (inside : count ≤ code.length) :
    Code.lastPosition? inShort 0 (keptBefore code count) =
      (Code.lastPosition? inWhole 0 count).map (keptBefore code) := by
  induction count with
  | zero => rfl
  | succ count ih =>
    have found : code[count]? = some code[count] := getElem?_eq_getElem inside
    rw [Code.lastPosition?, Nat.zero_add]
    cases live : isLive code code[count] with
    | true =>
      rw [keptBefore_succ_of_isLive found live, Code.lastPosition?, Nat.zero_add,
        agree found live, ih (by omega)]
      split <;> rfl
    | false =>
      rw [keptBefore_succ_of_not_isLive found live, absent found live, ih (by omega)]
      rfl

/-- Only assignments to temporaries that nothing reads are dropped. -/
theorem eq_assign_of_isLive_eq_false (dead : isLive code instruction = false) :
    ∃ number value, instruction = .assign (.temporary number) value ∧
      isRead code number = false := by
  obtain ⟨number, value, rfl⟩ := eq_assign_of_not_isLive dead
  have unread : ¬ (isRead code number = true ∨ value.temporary?.isSome = true) :=
    of_decide_eq_false dead
  exact ⟨number, value, rfl, Bool.eq_false_iff.mpr fun read => unread (.inl read)⟩

theorem labelPosition?_dropUnread (code : List Instruction) (label : Nat) :
    Code.labelPosition? (dropUnread code).toArray label =
      (Code.labelPosition? code.toArray label).map (keptBefore code) := by
  have agree ⦃position : Nat⦄ ⦃instruction : Instruction⦄
      (found : code[position]? = some instruction) (live : isLive code instruction = true) :
      decide ((dropUnread code).toArray[keptBefore code position]? = some (.label label)) =
        decide (code.toArray[position]? = some (.label label)) := by
    simp only [getElem?_toArray, found, getElem?_dropUnread found live]
  have absent ⦃position : Nat⦄ ⦃instruction : Instruction⦄
      (found : code[position]? = some instruction) (dead : isLive code instruction = false) :
      decide (code.toArray[position]? = some (.label label)) = false := by
    obtain ⟨_, _, rfl, -⟩ := eq_assign_of_isLive_eq_false dead
    simp [found]
  have searched := lastPosition?_keptBefore
    (fun position => code.toArray[position]? = some (.label label))
    (fun position => (dropUnread code).toArray[position]? = some (.label label)) agree absent
    (Nat.le_refl _)
  rwa [keptBefore_of_length_le (Nat.le_refl _)] at searched

/-- The end of a function is found where it belongs. -/
theorem functionEnd?_dropUnread (name : String) (depth : Nat) {start count : Nat}
    (inside : start + count ≤ code.length) :
    Code.functionEnd? (dropUnread code).toArray name depth (keptBefore code start)
        (keptBefore code (start + count) - keptBefore code start) =
      (Code.functionEnd? code.toArray name depth start count).map (keptBefore code) := by
  induction count generalizing depth start with
  | zero => simp [Code.functionEnd?]
  | succ count ih =>
    have found : code[start]? = some code[start] := getElem?_eq_getElem (by omega)
    have behind (depth : Nat) := @ih depth (start + 1) (by omega)
    rw [Nat.add_right_comm, Nat.add_assoc] at behind
    cases live : isLive code code[start] with
    | true =>
      have counted : keptBefore code (start + (count + 1)) - keptBefore code start =
          keptBefore code (start + (count + 1)) - keptBefore code (start + 1) + 1 := by
        have grows := keptBefore_mono code (show start + 1 ≤ start + (count + 1) by omega)
        rw [keptBefore_succ_of_isLive found live] at grows ⊢
        omega
      rw [keptBefore_succ_of_isLive found live] at behind counted
      rw [counted, Code.functionEnd?, Code.functionEnd?, getElem?_toArray,
        getElem?_toArray, found, getElem?_dropUnread found live]
      split <;> simp only [behind]
      split
      · rfl
      · split <;> rfl
    | false =>
      obtain ⟨_, _, assigned, -⟩ := eq_assign_of_isLive_eq_false live
      rw [keptBefore_succ_of_not_isLive found live] at behind
      rw [behind, Code.functionEnd?, getElem?_toArray, found, assigned]

end Positions

end Pass

/-! ## Steps -/

namespace Machine

open Pass

variable {Value : Type} {meaning : Meaning Value} {linkage : Linkage} {code : List Instruction}

/-- A call of the short code follows a call of the whole code. -/
structure Frame.Follows (code : List Instruction) (whole short : Frame Value) : Prop where
  next_eq : short.next = keptBefore code whole.next
  agrees : whole.store.AgreesOn (isNoticed code) short.store
  isRestored_eq : short.isRestored = whole.isRestored

/-- A state of the short code follows a state of the whole code. -/
structure State.Follows (code : List Instruction) (whole short : State Value) : Prop where
  position_eq : short.position = keptBefore code whole.position
  agrees : whole.store.AgreesOn (isNoticed code) short.store
  pushed_eq : short.pushed = whole.pushed
  frames : List.Forall₂ (Frame.Follows code) whole.frames short.frames
  result_eq : short.result = whole.result
  output_eq : short.output = whole.output

/-- The operands of an instruction of the code have the same value in stores
that agree. -/
theorem ofOperand_eq_of_agreesOn (meaning : Meaning Value) {first second : Store Value}
    (agrees : first.AgreesOn (isNoticed code) second) {instruction : Instruction}
    (member : instruction ∈ code) {operand : Operand} (reads : operand ∈ instruction.reads) :
    meaning.ofOperand second operand = meaning.ofOperand first operand := by
  refine meaning.ofOperand_congr fun place isPlace => agrees ?_
  cases place with
  | «variable» => rfl
  | temporary =>
    exact any_eq_true.mpr ⟨instruction, member, any_eq_true.mpr ⟨_, reads, decide_eq_true isPlace⟩⟩

variable {whole short : State Value} (follows : State.Follows code whole short)

include follows

namespace State.Follows

variable {instruction : Instruction}

theorem event?_eq (member : instruction ∈ code) :
    event? meaning short instruction = event? meaning whole instruction := by
  have same {operand : Operand} (reads : operand ∈ instruction.reads) :=
    ofOperand_eq_of_agreesOn meaning follows.agrees member reads
  cases instruction with
  | branch | print => rw [event?, event?, same mem_cons_self]
  | call => rw [event?, event?, follows.pushed_eq]
  | giveBack value =>
    cases value with
    | none => rfl
    | some => rw [event?, event?, same mem_cons_self]
  | _ => rfl

/-- Both states go to positions that belong to each other. -/
theorem goTo (position : Nat) :
    State.Follows code (whole.goTo position) (short.goTo (keptBefore code position)) :=
  { follows with position_eq := rfl }

/-- Both states return from their calls. -/
theorem leave (result : Value) :
    Option.Rel (State.Follows code) (whole.leave result) (short.leave result) := by
  have frames := follows.frames
  unfold State.leave
  generalize whole.frames = wholeFrames at frames
  generalize short.frames = shortFrames at frames
  cases frames with
  | nil => exact .none
  | cons frameFollows restFollows =>
    refine .some { follows with
      position_eq := frameFollows.next_eq, agrees := ?_, frames := restFollows, result_eq := rfl }
    intro place noticed
    simp only [frameFollows.isRestored_eq, frameFollows.agrees noticed, follows.agrees noticed]

section Kept

variable (found : code[whole.position]? = some instruction)
  (live : isLive code instruction = true)

include found live

/-- Both states go on behind an instruction that stays. -/
theorem next : State.Follows code whole.next short.next := by
  refine { follows with position_eq := ?_ }
  rw [State.next, follows.position_eq]
  exact (keptBefore_succ_of_isLive found live).symm

/-- Both states write the same value. -/
theorem write (place : Place) (value : Value) :
    State.Follows code (whole.write place value) (short.write place value) :=
  { follows.next found live with agrees := follows.agrees.set place value }

/-- Both states take the values of a call into the same parameters. -/
theorem enter (callee : Callee) (arguments : Nat) :
    State.Follows code (whole.enter meaning callee arguments)
      (short.enter meaning { callee with entry := keptBefore code callee.entry } arguments) where
  position_eq := rfl
  agrees := by
    rw [State.enter, State.enter, follows.pushed_eq]
    exact follows.agrees.foldl_set _ _ _
  pushed_eq := congrArg (List.drop arguments) follows.pushed_eq
  frames := .cons ⟨(follows.next found live).position_eq, follows.agrees, rfl⟩ follows.frames
  result_eq := follows.result_eq
  output_eq := follows.output_eq

/-- An instruction that stays does the same in both codes. -/
theorem rel_execute :
    Option.Rel (State.Follows code) (execute meaning linkage code.toArray whole instruction)
      (execute meaning (relocated code linkage) (dropUnread code).toArray short
        instruction) := by
  have same {operand : Operand} (reads : operand ∈ instruction.reads) :=
    ofOperand_eq_of_agreesOn meaning follows.agrees (mem_of_getElem? found) reads
  have atLabel (label : Nat) : Option.Rel (State.Follows code)
      ((Code.labelPosition? code.toArray label).map whole.goTo)
      ((Code.labelPosition? (dropUnread code).toArray label).map short.goTo) := by
    rw [labelPosition?_dropUnread]
    cases Code.labelPosition? code.toArray label with
    | none => exact .none
    | some position => exact .some (follows.goTo position)
  cases instruction with
  | assign =>
    rw [execute, execute, same mem_cons_self]
    exact .some (follows.write found live _ _)
  | binary =>
    rw [execute, execute, same mem_cons_self, same (mem_cons_of_mem _ mem_cons_self)]
    exact .some (follows.write found live _ _)
  | branch =>
    rw [execute, execute, same mem_cons_self]
    exact atLabel _
  | jump label => exact atLabel label
  | label => exact .some (follows.next found live)
  | functionStart name =>
    have inside := (List.getElem?_eq_some_iff.mp found).1
    have searched := functionEnd?_dropUnread name 0
      (show whole.position + 1 + (code.length - (whole.position + 1)) ≤ code.length by omega)
    rw [Nat.add_sub_cancel' (by omega), keptBefore_of_length_le (Nat.le_refl _),
      keptBefore_succ_of_isLive found live, ← follows.position_eq] at searched
    rw [execute, execute, size_toArray, size_toArray, searched]
    cases ended : Code.functionEnd? code.toArray name 0 (whole.position + 1)
        (code.length - (whole.position + 1)) with
    | none => exact .none
    | some finish =>
      have atEnd := Code.getElem?_of_functionEnd? ended
      rw [getElem?_toArray] at atEnd
      have moved := follows.goTo (finish + 1)
      rw [keptBefore_succ_of_isLive atEnd rfl] at moved
      exact .some moved
  | functionEnd => exact follows.leave _
  | push =>
    rw [execute, execute, same mem_cons_self, follows.pushed_eq]
    exact .some { follows.next found live with pushed_eq := rfl }
  | call name arguments =>
    have reached : relocated code linkage short.position name =
        (linkage whole.position name).map fun callee =>
          { callee with entry := keptBefore code callee.entry } := by
      rw [relocated, follows.position_eq, origin?_keptBefore found live, Option.bind_some]
    rw [execute, execute, reached]
    cases linkage whole.position name with
    | none => exact .none
    | some callee => exact .some (follows.enter found live callee arguments)
  | pop =>
    rw [execute, execute, follows.result_eq]
    exact .some (follows.write found live _ _)
  | giveBack value =>
    cases value with
    | none => exact follows.leave _
    | some =>
      rw [execute, execute, same mem_cons_self]
      exact follows.leave _
  | print =>
    rw [execute, execute, same mem_cons_self, follows.output_eq]
    exact .some { follows.next found live with output_eq := rfl }

variable (meaning linkage) in
/-- An instruction that stays is a step of both codes, and the same is seen of
it. -/
theorem rel_step :
    Option.Rel (State.Follows code) (step meaning linkage code.toArray whole)
        (step meaning (relocated code linkage) (dropUnread code).toArray short) ∧
      seen meaning (dropUnread code).toArray short = seen meaning code.toArray whole := by
  have inWhole : code.toArray[whole.position]? = some instruction := by
    rw [getElem?_toArray, found]
  have inShort : (dropUnread code).toArray[short.position]? = some instruction := by
    rw [getElem?_toArray, follows.position_eq, getElem?_dropUnread found live]
  constructor
  · rw [step_eq inWhole, step_eq inShort]
    exact follows.rel_execute found live
  · rw [seen, seen, inWhole, inShort, Option.bind_some, Option.bind_some,
      follows.event?_eq (mem_of_getElem? found)]

end Kept

section Dropped

variable (found : code[whole.position]? = some instruction)
  (dead : isLive code instruction = false)

include found dead

/-- Only the whole code writes a temporary that nothing reads. -/
theorem write_left {number : Nat} (unread : isRead code number = false) (value : Value) :
    State.Follows code (whole.write (.temporary number) value) short :=
  { follows with
    position_eq := follows.position_eq.trans (keptBefore_succ_of_not_isLive found dead).symm
    agrees := follows.agrees.set_left (show isNoticed code (.temporary number) = false from unread)
      value }

variable (meaning linkage) in
/-- A dropped instruction is a step of the whole code alone. -/
theorem exists_step_left :
    ∃ next, step meaning linkage code.toArray whole = some next ∧
      next.position = whole.position + 1 ∧ seen meaning code.toArray whole = [] ∧
      State.Follows code next short := by
  obtain ⟨number, value, rfl, unread⟩ := eq_assign_of_isLive_eq_false dead
  have atPosition : code.toArray[whole.position]? = some (.assign (.temporary number) value) := by
    rw [getElem?_toArray, found]
  refine ⟨_, step_eq atPosition, rfl, ?_, follows.write_left found dead unread _⟩
  rw [seen, atPosition]
  rfl

end Dropped

end State.Follows

/-! ## Runs -/

/-- Every run of the whole code has a run of the short code that shows the
same. -/
theorem exists_run_dropUnread {count : Nat} {final : State Value}
    (reached : run meaning linkage code.toArray count whole = some final) :
    ∃ shortCount shortFinal,
      run meaning (relocated code linkage) (dropUnread code).toArray shortCount short =
          some shortFinal ∧
        trace meaning (relocated code linkage) (dropUnread code).toArray shortCount short =
          trace meaning linkage code.toArray count whole ∧
        State.Follows code final shortFinal := by
  induction count generalizing whole short with
  | zero =>
    cases reached
    exact ⟨0, short, rfl, rfl, follows⟩
  | succ count ih =>
    obtain ⟨_, taken, rest⟩ := Option.bind_eq_some_iff.mp reached
    obtain ⟨instruction, found, -⟩ := Option.bind_eq_some_iff.mp taken
    rw [getElem?_toArray] at found
    cases live : isLive code instruction with
    | true =>
      obtain ⟨related, sameSeen⟩ := follows.rel_step meaning linkage found live
      rw [taken] at related
      generalize stepped : step meaning (relocated code linkage)
        (dropUnread code).toArray short = shortStep at related
      cases related with
      | @some _ shortNext nextFollows =>
        obtain ⟨shortCount, shortFinal, shortReached, sameTrace, finalFollows⟩ :=
          ih nextFollows rest
        refine ⟨shortCount + 1, shortFinal, (run_succ stepped).trans shortReached, ?_,
          finalFollows⟩
        rw [trace_succ stepped, trace_succ taken, sameSeen, sameTrace]
    | false =>
      obtain ⟨_, otherTaken, -, silent, nextFollows⟩ :=
        follows.exists_step_left meaning linkage found live
      cases otherTaken.symm.trans taken
      rw [trace_succ taken, silent, nil_append]
      exact ih nextFollows rest

variable (meaning linkage) in
/-- The whole code passes the dropped instructions in front of it, unseen, and
then stands at what the short code stands at. -/
theorem exists_run_catch_up :
    ∃ count final, run meaning linkage code.toArray count whole = some final ∧
      trace meaning linkage code.toArray count whole = [] ∧ State.Follows code final short ∧
      code[final.position]? = (dropUnread code)[short.position]? := by
  -- The distance to the end of the code decreases with every dropped instruction.
  induction distance : code.length - whole.position generalizing whole with
  | zero =>
    have outside : code.length ≤ whole.position := Nat.le_of_sub_eq_zero distance
    refine ⟨0, whole, rfl, rfl, follows, ?_⟩
    rw [follows.position_eq, getElem?_dropUnread_of_length_le outside, getElem?_eq_none outside]
  | succ distance ih =>
    have found := getElem?_eq_getElem (show whole.position < code.length by omega)
    cases live : isLive code code[whole.position] with
    | true =>
      refine ⟨0, whole, rfl, rfl, follows, ?_⟩
      rw [follows.position_eq, getElem?_dropUnread found live, found]
    | false =>
      obtain ⟨_, taken, _, silent, nextFollows⟩ :=
        follows.exists_step_left meaning linkage found live
      obtain ⟨count, final, reached, sameTrace, finalFollows, sameInstruction⟩ :=
        ih nextFollows (by omega)
      refine ⟨count + 1, final, (run_succ taken).trans reached, ?_, finalFollows,
        sameInstruction⟩
      rw [trace_succ taken, silent, sameTrace, nil_append]

/-- At what stays, one code can go on if and only if the other can. -/
theorem State.Follows.step_eq_none_iff
    (aligned : code[whole.position]? = (dropUnread code)[short.position]?) :
    step meaning (relocated code linkage) (dropUnread code).toArray short = none ↔
      step meaning linkage code.toArray whole = none := by
  cases found : code[whole.position]? with
  | none =>
    have shortFound := aligned.symm.trans found
    simp [step, found, shortFound]
  | some =>
    have live := (mem_filter.mp (mem_of_getElem? (aligned.symm.trans found))).2
    have related := (follows.rel_step meaning linkage found live).1
    generalize step meaning linkage code.toArray whole = wholeStep at related
    generalize step meaning (relocated code linkage) (dropUnread code).toArray short =
      shortStep at related
    cases related <;> simp

/-- Every run of the short code has a run of the whole code that shows the
same. -/
theorem exists_run_of_dropUnread {count : Nat} {shortFinal : State Value}
    (reached : run meaning (relocated code linkage) (dropUnread code).toArray count short =
      some shortFinal) :
    ∃ wholeCount final, run meaning linkage code.toArray wholeCount whole = some final ∧
      trace meaning linkage code.toArray wholeCount whole =
        trace meaning (relocated code linkage) (dropUnread code).toArray count short ∧
      State.Follows code final shortFinal := by
  induction count generalizing whole short with
  | zero =>
    cases reached
    exact ⟨0, whole, rfl, rfl, follows⟩
  | succ count ih =>
    obtain ⟨_, taken, rest⟩ := Option.bind_eq_some_iff.mp reached
    obtain ⟨_, shortFound, -⟩ := Option.bind_eq_some_iff.mp taken
    rw [getElem?_toArray] at shortFound
    obtain ⟨passed, middle, toMiddle, silent, middleFollows, aligned⟩ :=
      exists_run_catch_up meaning linkage follows
    have live := (mem_filter.mp (mem_of_getElem? shortFound)).2
    obtain ⟨related, sameSeen⟩ :=
      middleFollows.rel_step meaning linkage (aligned.trans shortFound) live
    rw [taken] at related
    generalize stepped : step meaning linkage code.toArray middle = wholeStep at related
    cases related with
    | @some next _ nextFollows =>
      obtain ⟨wholeCount, final, wholeReached, sameTrace, finalFollows⟩ := ih nextFollows rest
      refine ⟨passed + (wholeCount + 1), final,
        run_trans toMiddle ((run_succ stepped).trans wholeReached), ?_, finalFollows⟩
      rw [trace_add toMiddle, silent, nil_append, trace_succ stepped, trace_succ taken,
        sameSeen, sameTrace]

/-- A run that cannot go on stands at no dropped instruction. -/
theorem State.Follows.aligned_of_stopped
    (stopped : step meaning linkage code.toArray whole = none) :
    code[whole.position]? = (dropUnread code)[short.position]? := by
  obtain ⟨count, _, reached, -, -, aligned⟩ :=
    exists_run_catch_up meaning linkage follows
  cases count with
  | zero =>
    cases reached
    exact aligned
  | succ =>
    rw [run, stopped] at reached
    cases reached

end Machine

open Machine Pass

/-- Dead code elimination keeps the behaviour of every code from every store.
What can be seen of runs of the short code is what can be seen of runs of the
whole code: the same labels are gone to, the same calls are made with the same
arguments, the same results are returned and the same values are printed.  One
run ends if and only if the other does, at the same instruction, and then the
stores agree on the variables and on the temporaries that the code reads. -/
theorem shows_iff_and_ends_dropUnread {Value : Type} (meaning : Meaning Value)
    (linkage : Linkage) (code : List Instruction) (store : Store Value) :
    (∀ events,
      Shows meaning (relocated code linkage) (dropUnread code).toArray
          (State.startIn meaning store) events ↔
        Shows meaning linkage code.toArray (State.startIn meaning store) events) ∧
    (∀ events last final,
      Ends meaning linkage code.toArray (State.startIn meaning store) events last final →
        ∃ shortFinal,
          Ends meaning (relocated code linkage) (dropUnread code).toArray
            (State.startIn meaning store) events last shortFinal ∧
          final.AgreesOn (isNoticed code) shortFinal) ∧
    (∀ events last shortFinal,
      Ends meaning (relocated code linkage) (dropUnread code).toArray
          (State.startIn meaning store) events last shortFinal →
        ∃ final,
          Ends meaning linkage code.toArray (State.startIn meaning store) events last final ∧
          final.AgreesOn (isNoticed code) shortFinal) := by
  have follows : State.Follows code (State.startIn meaning store) (State.startIn meaning store) :=
    ⟨rfl, fun _ _ => rfl, rfl, .nil, rfl, rfl⟩
  refine ⟨fun events => ⟨?_, ?_⟩, ?_, ?_⟩
  · rintro ⟨count, rfl⟩
    obtain ⟨steps, final, reached, sameTrace⟩ := exists_run_of_trace meaning
      (relocated code linkage) (dropUnread code).toArray count (State.startIn meaning store)
    obtain ⟨wholeCount, _, _, wholeTrace, _⟩ := exists_run_of_dropUnread follows reached
    exact ⟨wholeCount, wholeTrace.trans sameTrace⟩
  · rintro ⟨count, rfl⟩
    obtain ⟨_, final, reached, sameTrace⟩ := exists_run_of_trace meaning linkage
      code.toArray count (State.startIn meaning store)
    obtain ⟨shortCount, _, _, shortTrace, _⟩ := exists_run_dropUnread follows reached
    exact ⟨shortCount, shortTrace.trans sameTrace⟩
  · rintro events last store ⟨count, final, reached, stopped, rfl, rfl, rfl⟩
    obtain ⟨shortCount, shortFinal, shortReached, sameTrace, finalFollows⟩ :=
      exists_run_dropUnread follows reached
    have aligned := finalFollows.aligned_of_stopped stopped
    refine ⟨shortFinal.store, ⟨shortCount, shortFinal, shortReached,
      (finalFollows.step_eq_none_iff aligned).mpr stopped, sameTrace, ?_, rfl⟩,
      finalFollows.agrees⟩
    rw [getElem?_toArray, getElem?_toArray, aligned]
  · rintro events last store ⟨count, shortFinal, reached, stopped, rfl, rfl, rfl⟩
    obtain ⟨wholeCount, _, toMiddle, sameTrace, middleFollows⟩ :=
      exists_run_of_dropUnread follows reached
    obtain ⟨passed, final, toFinal, silent, finalFollows, aligned⟩ :=
      exists_run_catch_up meaning linkage middleFollows
    refine ⟨final.store, ⟨wholeCount + passed, final, run_trans toMiddle toFinal,
      (finalFollows.step_eq_none_iff aligned).mp stopped, ?_, ?_, rfl⟩, finalFollows.agrees⟩
    · rw [trace_add toMiddle, silent, append_nil, sameTrace]
    · rw [getElem?_toArray, getElem?_toArray, aligned]

/-- Every value is a text, and only the empty text is not true. -/
def Meaning.texts : Meaning String where
  number := Number.scriptText
  string := id
  boolean := toString
  undefined := "undefined"
  apply _ lhs rhs := lhs ++ rhs
  shiftLeft lhs rhs := lhs ++ rhs
  shiftRight lhs rhs := lhs ++ rhs
  isTrue value := value ≠ ""

/-- A loop that copies its condition to a temporary that nothing reads. -/
def loopingWithCopy : List Instruction :=
  [.assign (.temporary 1) (.string "lost"), .label 1,
    .assign (.temporary 2) (.variable "x"), .branch (.variable "x") 2 3, .label 2,
    .assign (.variable "x") (.string ""), .jump 1, .label 3, .print (.string "done")]

/-- Both assignments to temporaries are dropped, and the loop runs and ends as
before. -/
theorem ends_dropUnread_loopingWithCopy :
    Pass.dropUnread loopingWithCopy = (loopingWithCopy.eraseIdx 2).eraseIdx 0 ∧
      ∃ final : Store String,
        Ends .texts (relocated loopingWithCopy fun _ _ => none) (dropUnread loopingWithCopy).toArray
            (State.startIn .texts fun _ => "on")
            [.wentTo 2, .wentTo 1, .wentTo 3, .printed "done"] none final ∧
          final (.variable "x") = "" := by
  refine ⟨by decide, ?_⟩
  obtain ⟨-, ends, -⟩ := shows_iff_and_ends_dropUnread .texts (fun _ _ => none) loopingWithCopy
    (fun _ => "on")
  obtain ⟨final, shortEnds, agrees⟩ := ends _ _ _ ⟨12, _, rfl, rfl, rfl, rfl, rfl⟩
  exact ⟨final, shortEnds, agrees rfl⟩

end BanglaScript
