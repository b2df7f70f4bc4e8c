import BanglaScript.Proofs.Call.Returning
import BanglaScript.Proofs.Lowering.Temporaries
import BanglaScript.Proofs.Pass.Lockstep
import BanglaScript.Proofs.Structure.Lowered

/-!
# What calls depend on

In a lowered program every temporary is read behind its write, every call
stands behind its operands and every result is taken directly behind a call.
So a function finds nothing of its caller but the variables and the arguments:
whatever else two callers have in their temporaries, under their operands or in
their open calls, the function runs alike for both, gives the same result,
prints the same and leaves the same variables.
-/

namespace BanglaScript

open List Option

/-- Variables and some of the temporaries. -/
abbrev Place.isAmong (numbers : List Nat) : Place → Bool := isVariableOr (· ∈ numbers)

theorem Place.isAmong_mono {fewer numbers : List Nat} (subset : fewer ⊆ numbers) (place : Place)
    (inside : place.isAmong fewer) : place.isAmong numbers := by
  cases place with
  | «variable» => rfl
  | temporary => exact decide_eq_true (subset (of_decide_eq_true inside))

/-- A temporary that is written is one of the temporaries. -/
theorem Place.isAmong_written (place : Place) {numbers : List Nat} (other : Place)
    (inside : other.isAmong (place.temporary?.toList ++ numbers)) :
    other = place ∨ other.isAmong numbers := by
  cases other with
  | «variable» => exact .inr rfl
  | temporary number =>
    refine (mem_append.mp (of_decide_eq_true inside)).imp (fun written => ?_) (decide_eq_true ·)
    cases place with
    | «variable» => cases written
    | temporary => exact congrArg _ (mem_singleton.mp written)

/-- What the instructions directly in front have done for a call: how many
operands they have pushed, and whether they have made one. -/
structure Prepared where
  pushed : Nat := 0
  called : Bool := false

namespace Prepared

/-- What is prepared behind another instruction. -/
def behind (prepared : Prepared) : Instruction → Prepared
  | .push _ => { pushed := prepared.pushed + 1 }
  | .call _ _ => { called := true }
  | _ => {}

/-- A call finds its operands, and a result is taken from a call. -/
def covers (prepared : Prepared) : Instruction → Bool
  | .call _ arguments => arguments ≤ prepared.pushed
  | .pop _ => prepared.called
  | _ => true

/-- All that is prepared here is prepared there. -/
structure IsWithin (first second : Prepared) : Prop where
  pushed : first.pushed ≤ second.pushed
  called : first.called → second.called

namespace IsWithin

variable {first second : Prepared}

theorem refl (prepared : Prepared) : IsWithin prepared prepared := ⟨Nat.le_refl _, id⟩

/-- Nothing is prepared everywhere. -/
theorem nothing (prepared : Prepared) : IsWithin {} prepared := ⟨Nat.zero_le _, nofun⟩

theorem behind (within : first.IsWithin second) (instruction : Instruction) :
    (first.behind instruction).IsWithin (second.behind instruction) := by
  cases instruction with
  | push => exact ⟨Nat.succ_le_succ within.pushed, nofun⟩
  | _ => exact .refl _

theorem covers (within : first.IsWithin second) {instruction : Instruction}
    (covered : first.covers instruction) : second.covers instruction := by
  cases instruction with
  | call =>
    exact decide_eq_true (Nat.le_trans (of_decide_eq_true covered) within.pushed)
  | pop => exact within.called covered
  | _ => rfl

end IsWithin

end Prepared

namespace Code

/-- Every call finds its operands, and every result is taken from a call. -/
def IsPrepared : Prepared → List Instruction → Prop
  | _, [] => True
  | prepared, first :: rest => prepared.covers first ∧ IsPrepared (prepared.behind first) rest

theorem IsPrepared.mono {first second : Prepared} (within : first.IsWithin second)
    {code : List Instruction} (prepared : IsPrepared first code) : IsPrepared second code := by
  induction code generalizing first second with
  | nil => exact trivial
  | cons instruction rest ih =>
    exact ⟨within.covers prepared.1, ih (within.behind instruction) prepared.2⟩

theorem isPrepared_append {prepared : Prepared} {first second : List Instruction} :
    IsPrepared prepared (first ++ second) ↔
      IsPrepared prepared first ∧ IsPrepared (first.foldl Prepared.behind prepared) second := by
  induction first generalizing prepared with
  | nil => exact (true_and _).symm ▸ Iff.rfl
  | cons instruction rest ih =>
    rw [cons_append, IsPrepared, IsPrepared, ih, and_assoc]
    rfl

/-- Parts that need nothing from what stands in front of them can be put one
behind the other. -/
theorem IsPrepared.append {first second : List Instruction} (firstPrepared : IsPrepared {} first)
    (secondPrepared : IsPrepared {} second) : IsPrepared {} (first ++ second) :=
  isPrepared_append.mpr ⟨firstPrepared, secondPrepared.mono (.nothing _)⟩

theorem IsPrepared.nil : IsPrepared {} [] := trivial

theorem IsPrepared.cons {instruction : Instruction} {rest : List Instruction}
    (covered : Prepared.covers {} instruction) (restPrepared : IsPrepared {} rest) :
    IsPrepared {} (instruction :: rest) :=
  ⟨covered, restPrepared.mono (.nothing _)⟩

end Code

/-! ## Lowered programs -/

namespace LabelledNode

open Code

theorem isPrepared_straight (node : StraightNode) : IsPrepared {} node.instructions := by
  cases node with
  | call name arguments =>
    have pushes (values : List Operand) (prepared : Prepared) :
        IsPrepared prepared (values.map Instruction.push) ∧
          prepared.pushed + values.length ≤
            ((values.map Instruction.push).foldl Prepared.behind prepared).pushed := by
      induction values generalizing prepared with
      | nil => exact ⟨trivial, Nat.le_refl _⟩
      | cons value rest ih =>
        obtain ⟨inRest, counted⟩ := ih (prepared.behind (.push value))
        refine ⟨⟨rfl, inRest⟩, Nat.le_trans (Nat.le_of_eq ?_) counted⟩
        simp only [length_cons, Prepared.behind]
        omega
    obtain ⟨pushed, counted⟩ := pushes arguments {}
    rw [Nat.zero_add] at counted
    exact isPrepared_append.mpr ⟨pushed, decide_eq_true counted, rfl, trivial⟩
  | _ => exact .cons rfl .nil

theorem passesOn_isPrepared : PassesOn (IsPrepared {}) where
  nil := .nil
  append := .append
  straight := isPrepared_straight
  label _ := .cons rfl .nil
  jump _ := .cons rfl .nil
  branch _ _ _ := .cons rfl .nil
  function _ _ body := .cons rfl (body.append (.cons rfl .nil))

end LabelledNode

/-- A lowered program prepares its calls. -/
theorem isPrepared_lower (program : Program) : Code.IsPrepared {} program.lower := by
  rw [LabelledNode.lower_eq_instructionsAll]
  exact LabelledNode.passesOn_isPrepared.nodes _

/-! ## What is known at a position -/

namespace Code

/-- What is gathered from the instructions in front of a position, however
control comes there.  Control may come to a label from elsewhere, so nothing is
known at labels. -/
def gatheredAt {α : Type} (pass : α → Instruction → α) (nothing : α) (code : List Instruction)
    (position : Nat) : α :=
  match code[position]? with
  | some (.label _) => nothing
  | _ => (code.take position).foldl pass nothing

/-- The temporaries that have been written since the last boundary. -/
def recentAt (code : List Instruction) (position : Nat) : List Nat :=
  gatheredAt Instruction.passRecent [] code position

/-- What has been prepared for a call. -/
def preparedAt (code : List Instruction) (position : Nat) : Prepared :=
  gatheredAt Prepared.behind {} code position

variable {code : List Instruction} {position : Nat} {instruction : Instruction}

section Gathered

variable {α : Type} {pass : α → Instruction → α} {nothing : α}

theorem gatheredAt_label {label : Nat} (found : code[position]? = some (.label label)) :
    gatheredAt pass nothing code position = nothing := by
  rw [gatheredAt, found]

theorem gatheredAt_of_not_label (found : code[position]? = some instruction)
    (other : instruction.definedLabel? = none) :
    gatheredAt pass nothing code position = (code.take position).foldl pass nothing := by
  unfold gatheredAt
  split
  case h_1 atLabel =>
    cases found.symm.trans atLabel
    cases other
  case h_2 => rfl

/-- Behind an instruction nothing is known, or what it leaves. -/
theorem gatheredAt_succ (holds : α → Prop)
    (forgets : ∀ known label, pass known (.label label) = nothing)
    (found : code[position]? = some instruction) (unknown : holds nothing)
    (left : holds (pass (gatheredAt pass nothing code position) instruction)) :
    holds (gatheredAt pass nothing code (position + 1)) := by
  have passed : (code.take (position + 1)).foldl pass nothing =
      pass ((code.take position).foldl pass nothing) instruction := by
    rw [take_add_one, found, foldl_append]
    rfl
  rw [gatheredAt, passed]
  split
  · exact unknown
  · cases instruction with
    | label label => rwa [forgets]
    | _ => rwa [gatheredAt_of_not_label found rfl] at left

end Gathered

theorem recentAt_succ (found : code[position]? = some instruction) :
    recentAt code (position + 1) ⊆ instruction.passRecent (recentAt code position) :=
  gatheredAt_succ (List.Subset · _) (fun _ _ => rfl) found (nil_subset _) (List.Subset.refl _)

theorem preparedAt_succ (found : code[position]? = some instruction) :
    (preparedAt code (position + 1)).IsWithin ((preparedAt code position).behind instruction) :=
  gatheredAt_succ (Prepared.IsWithin · _) (fun _ _ => rfl) found (.nothing _) (.refl _)

/-- The code reads the temporaries that it has written and prepares its calls. -/
structure IsSelfContained (code : List Instruction) : Prop where
  settled : IsSettled [] code
  prepared : IsPrepared {} code

namespace IsSelfContained

variable (contained : IsSelfContained code) (found : code[position]? = some instruction)

include contained found

/-- What is read is recent. -/
theorem mem_recentAt {number : Nat}
    (reads : .temporary number ∈ instruction.reads) : number ∈ recentAt code position := by
  have other : instruction.definedLabel? = none := by
    cases instruction with
    | label => cases reads
    | _ => rfl
  rw [recentAt, gatheredAt_of_not_label found other]
  exact contained.settled.mem_recentBehind found reads

/-- What is read has the same value in stores that agree on what is recent. -/
theorem ofOperand_eq {Value : Type} {meaning : Meaning Value} {first second : Store Value}
    (agrees : first.AgreesOn (Place.isAmong (recentAt code position)) second) {operand : Operand}
    (reads : operand ∈ instruction.reads) :
    meaning.ofOperand second operand = meaning.ofOperand first operand := by
  refine meaning.ofOperand_congr fun place isPlace => agrees ?_
  cases operand with
  | «variable» => cases isPlace; rfl
  | temporary => cases isPlace; exact decide_eq_true (contained.mem_recentAt found reads)
  | number | string => cases isPlace

/-- What is needed for a call is prepared. -/
theorem covers_preparedAt : (preparedAt code position).covers instruction := by
  have prepared := contained.prepared
  obtain ⟨inside, here⟩ := List.getElem?_eq_some_iff.mp found
  rw [← take_append_drop position code, drop_eq_getElem_cons inside, here,
    isPrepared_append] at prepared
  unfold preparedAt gatheredAt
  split
  case h_1 atLabel =>
    cases found.symm.trans atLabel
    rfl
  case h_2 => exact prepared.2.1

end IsSelfContained

end Code

theorem isSelfContained_lower (program : Program) : Code.IsSelfContained program.lower := by
  obtain ⟨_, orderly⟩ := isOrderly_lower program
  exact ⟨orderly.settled, isPrepared_lower program⟩

/-! ## Runs that go alike -/

namespace Machine

variable {Value : Type} {meaning : Meaning Value} {linkage : Linkage} {code : List Instruction}

/-- Two states stand at one position, and they have the same in the variables
and in everything that the code in front of the position has left for it. -/
structure State.Alike (code : List Instruction) (first second : State Value) : Prop where
  position : second.position = first.position
  stores : first.store.AgreesOn (Place.isAmong (Code.recentAt code first.position)) second.store
  pushed : second.pushed.take (Code.preparedAt code first.position).pushed =
    first.pushed.take (Code.preparedAt code first.position).pushed
  result : (Code.preparedAt code first.position).called → second.result = first.result

/-- Two runs have printed the same. -/
def State.PrintAlike (first next second other : State Value) : Prop :=
  ∃ printed, next.output = first.output ++ printed ∧ other.output = second.output ++ printed

namespace State.PrintAlike

variable {first next final second other last : State Value}

theorem silent (outputs : next.output = first.output) (others : other.output = second.output) :
    PrintAlike first next second other :=
  ⟨[], by rw [outputs, append_nil], by rw [others, append_nil]⟩

theorem trans (here : PrintAlike first next second other)
    (later : PrintAlike next final other last) : PrintAlike first final second last := by
  obtain ⟨printed, outputs, others⟩ := here
  obtain ⟨more, finalOutput, lastOutput⟩ := later
  refine ⟨printed ++ more, ?_, ?_⟩
  · rw [finalOutput, outputs, append_assoc]
  · rw [lastOutput, others, append_assoc]

end State.PrintAlike

/-- Calls enter functions at the head of their bodies, and every function has the
temporaries for itself. -/
structure LinksFunctions (linkage : Linkage) (code : List Instruction) : Prop where
  enters : Pass.EntersFunctions linkage code
  ownsTemporaries : ∀ ⦃position : Nat⦄ ⦃name : String⦄ ⦃callee : Callee⦄,
    linkage position name = some callee → ∀ number, callee.owns (.temporary number) = true

namespace State.Alike

variable {first second next other : State Value} {instruction : Instruction}

/-- States behind an instruction are alike if they have the same in what it
leaves. -/
theorem behind (found : code[first.position]? = some instruction)
    (firstPosition : next.position = first.position + 1)
    (secondPosition : other.position = first.position + 1)
    (stores : next.store.AgreesOn
      (Place.isAmong (instruction.passRecent (Code.recentAt code first.position))) other.store)
    (pushed : other.pushed.take ((Code.preparedAt code first.position).behind instruction).pushed =
      next.pushed.take ((Code.preparedAt code first.position).behind instruction).pushed)
    (result : ((Code.preparedAt code first.position).behind instruction).called →
      other.result = next.result) : Alike code next other := by
  have within := Code.preparedAt_succ found
  rw [← firstPosition] at within
  refine ⟨secondPosition.trans firstPosition.symm, ?_, ?_,
    fun called => result (within.called called)⟩
  · rw [firstPosition]
    exact stores.mono (Place.isAmong_mono (Code.recentAt_succ found))
  · have shorter := congrArg (List.take (Code.preparedAt code next.position).pushed) pushed
    rwa [take_take, take_take, Nat.min_eq_left within.pushed] at shorter

/-- Where nothing is known, the variables are enough. -/
theorem of_nothing (position : second.position = first.position)
    (named : ∀ name, second.store (.variable name) = first.store (.variable name))
    (recent : Code.recentAt code first.position ⊆ [])
    (prepared : (Code.preparedAt code first.position).IsWithin {}) : Alike code first second := by
  refine ⟨position, .of_variables named fun number member =>
      absurd (recent (of_decide_eq_true member)) not_mem_nil, ?_,
    fun called => absurd (prepared.called called) Bool.false_ne_true⟩
  rw [Nat.le_zero.mp prepared.pushed, take_zero, take_zero]

/-- Both states go to a label. -/
theorem goTo_label (alike : Alike code first second) {position label : Nat}
    (found : Code.labelPosition? code.toArray label = some position) :
    Alike code (first.goTo position) (second.goTo position) := by
  have atLabel := Code.getElem?_of_labelPosition? found
  rw [getElem?_toArray] at atLabel
  refine of_nothing rfl alike.stores.onVariables ?_ ?_
  · rw [Code.recentAt, State.goTo, Code.gatheredAt_label atLabel]
    exact List.Subset.refl _
  · rw [Code.preparedAt, State.goTo, Code.gatheredAt_label atLabel]
    exact .refl _

/-- Both states write a place alike. -/
theorem write (alike : Alike code first second) (found : code[first.position]? = some instruction)
    {place : Place} (target : instruction.target? = some place)
    (straight : instruction.isBoundary = false)
    (unprepared : ∀ prepared : Prepared, prepared.behind instruction = {}) (value : Value) :
    Alike code (first.write place value) (second.write place value) := by
  have written : instruction.writtenTemporary? = place.temporary? := by
    rw [Instruction.writtenTemporary?, target, bind_some]
  refine behind found rfl (congrArg (· + 1) alike.position) ?_ ?_ ?_
  · rw [Instruction.passRecent, straight, if_neg Bool.false_ne_true, written]
    exact alike.stores.set_of_covered place value place.isAmong_written
  · rw [unprepared, take_zero, take_zero]
  · rw [unprepared]
    rintro ⟨⟩

/-- A step inside of a function goes alike. -/
theorem step (contained : Code.IsSelfContained code) (alike : Alike code first second)
    (taken : Machine.step meaning linkage code.toArray first = some next)
    (level : next.frames = first.frames) :
    ∃ other, Machine.step meaning linkage code.toArray second = some other ∧
      other.frames = second.frames ∧ Alike code next other ∧
      PrintAlike first next second other := by
  obtain ⟨instruction, found, executed⟩ := bind_eq_some_iff.mp taken
  have otherFound : code.toArray[second.position]? = some instruction := alike.position ▸ found
  rw [step_eq otherFound]
  rw [getElem?_toArray] at found
  have same {operand : Operand} (reads : operand ∈ instruction.reads) :
      meaning.ofOperand second.store operand = meaning.ofOperand first.store operand :=
    contained.ofOperand_eq found alike.stores reads
  have position := congrArg (· + 1) alike.position
  cases instruction with
  | assign =>
    cases executed
    refine ⟨_, rfl, rfl, ?_, .silent rfl rfl⟩
    rw [same mem_cons_self]
    exact alike.write found rfl rfl (fun _ => rfl) _
  | binary =>
    cases executed
    refine ⟨_, rfl, rfl, ?_, .silent rfl rfl⟩
    rw [same mem_cons_self, same (mem_cons_of_mem _ mem_cons_self)]
    exact alike.write found rfl rfl (fun _ => rfl) _
  | branch =>
    obtain ⟨target, reached, rfl⟩ := map_eq_some_iff.mp executed
    refine ⟨second.goTo target, ?_, rfl, alike.goTo_label reached, .silent rfl rfl⟩
    rw [execute, same mem_cons_self]
    exact map_eq_some_iff.mpr ⟨target, reached, rfl⟩
  | jump =>
    obtain ⟨target, reached, rfl⟩ := map_eq_some_iff.mp executed
    exact ⟨second.goTo target, map_eq_some_iff.mpr ⟨target, reached, rfl⟩, rfl,
      alike.goTo_label reached, .silent rfl rfl⟩
  | label =>
    cases executed
    exact ⟨_, rfl, rfl, behind found rfl position (alike.stores.mono (Place.isAmong_mono
        (nil_subset _))) rfl (by rintro ⟨⟩), .silent rfl rfl⟩
  | functionStart =>
    obtain ⟨finish, ended, rfl⟩ := map_eq_some_iff.mp executed
    have atEnd := Code.getElem?_of_functionEnd? ended
    rw [getElem?_toArray] at atEnd
    refine ⟨second.goTo (finish + 1), ?_, rfl, of_nothing rfl alike.stores.onVariables
      (Code.recentAt_succ atEnd) (Code.preparedAt_succ atEnd), .silent rfl rfl⟩
    rw [execute, alike.position]
    exact map_eq_some_iff.mpr ⟨finish, ended, rfl⟩
  | functionEnd => exact absurd level (frames_ne_of_leave executed)
  | push =>
    cases executed
    refine ⟨_, rfl, rfl, ?_, .silent rfl rfl⟩
    refine behind found rfl position alike.stores ?_ (by rintro ⟨⟩)
    simp only [Prepared.behind, take_succ_cons, same mem_cons_self, alike.pushed]
  | call =>
    obtain ⟨_, _, rfl⟩ := map_eq_some_iff.mp executed
    exact absurd level (cons_ne_self _ _)
  | pop =>
    cases executed
    refine ⟨_, rfl, rfl, ?_, .silent rfl rfl⟩
    rw [alike.result (contained.covers_preparedAt found)]
    exact alike.write found rfl rfl (fun _ => rfl) _
  | giveBack value => cases value <;> exact absurd level (frames_ne_of_leave executed)
  | print =>
    cases executed
    refine ⟨_, rfl, rfl, behind found rfl position alike.stores rfl (by rintro ⟨⟩), _, rfl,
      ?_⟩
    rw [same mem_cons_self]

/-- Both states return the same value. -/
theorem ofReturn? (contained : Code.IsSelfContained code) (alike : Alike code first second)
    (found : code[first.position]? = some instruction) :
    meaning.ofReturn? second.store instruction = meaning.ofReturn? first.store instruction := by
  cases instruction with
  | giveBack value =>
    cases value with
    | none => rfl
    | some => exact congrArg some (contained.ofOperand_eq found alike.stores mem_cons_self)
  | _ => rfl

/-- Both states enter a function with the same arguments. -/
theorem enter (links : LinksFunctions linkage code) {position : Nat} {name : String}
    {callee : Callee} (reached : linkage position name = some callee)
    (named : ∀ name, second.store (.variable name) = first.store (.variable name))
    {arguments : Nat} (given : second.pushed.take arguments = first.pushed.take arguments) :
    Alike code (first.enter meaning callee arguments) (second.enter meaning callee arguments) := by
  obtain ⟨_, _, parameters, entry, atStart⟩ := links.enters reached
  have agrees : first.store.AgreesOn (Place.isAmong []) second.store :=
    .of_variables named fun _ member => absurd (of_decide_eq_true member) not_mem_nil
  refine of_nothing rfl ?_ ?_ ?_
  · simp only [State.enter, given]
    exact (agrees.foldl_set callee.parameters.zipIdx Prod.fst _).onVariables
  · rw [State.enter, entry]
    exact Code.recentAt_succ atStart
  · rw [State.enter, entry]
    exact Code.preparedAt_succ atStart

/-- A call finds the same arguments in both states. -/
theorem take_pushed (contained : Code.IsSelfContained code) (alike : Alike code first second)
    {name : String} {arguments : Nat}
    (found : code[first.position]? = some (.call name arguments)) :
    second.pushed.take arguments = first.pushed.take arguments := by
  have enough := of_decide_eq_true (contained.covers_preparedAt found)
  have shorter := congrArg (List.take arguments) alike.pushed
  rwa [take_take, take_take, Nat.min_eq_left enough] at shorter

/-- States are alike behind a call if the function has left the same result and
the same variables, since it gives back the temporaries. -/
theorem back (links : LinksFunctions linkage code) (alike : Alike code first second)
    {name : String} {arguments : Nat} {callee : Callee}
    (found : code[first.position]? = some (.call name arguments))
    (reached : linkage first.position name = some callee)
    (returns : Returns meaning linkage code.toArray (first.enter meaning callee arguments) next)
    (otherReturns : Returns meaning linkage code.toArray (second.enter meaning callee arguments)
      other)
    (results : other.result = next.result)
    (named : ∀ name, other.store (.variable name) = next.store (.variable name)) :
    Alike code next other := by
  obtain ⟨position, _, kept⟩ := returns.back rfl
  obtain ⟨otherPosition, _, otherKept⟩ := otherReturns.back rfl
  refine behind found position (otherPosition.trans (congrArg (· + 1) alike.position))
    (.of_variables named fun number member => ?_) rfl fun _ => results
  have owned := links.ownsTemporaries reached number
  rw [otherKept _ owned, kept _ owned]
  exact alike.stores member

end State.Alike

/-- A function that is left from one of two states alike is left from the other
one too. -/
theorem Returns.alike (contained : Code.IsSelfContained code) (links : LinksFunctions linkage code)
    {first second final : State Value}
    (returns : Returns meaning linkage code.toArray first final)
    (alike : first.Alike code second) {frame other : Frame Value}
    {frames others : List (Frame Value)}
    (opened : first.frames = frame :: frames) (otherOpened : second.frames = other :: others)
    (named : ∀ name, other.store (.variable name) = frame.store (.variable name))
    (restored : other.isRestored = frame.isRestored) :
    ∃ last, Returns meaning linkage code.toArray second last ∧ last.result = final.result ∧
      (∀ name, last.store (.variable name) = final.store (.variable name)) ∧
      State.PrintAlike first final second last := by
  induction returns generalizing second frame other frames others with
  | leave taken closed =>
    obtain ⟨instruction, result, found, returned, leaves⟩ := leave_of_opened taken closed
    have otherFound : code.toArray[second.position]? = some instruction := alike.position ▸ found
    rw [getElem?_toArray] at found
    rw [← alike.ofReturn? contained found] at returned
    have otherTaken : step meaning linkage code.toArray second =
        some (second.closed other others result) := by
      rw [step_eq otherFound, execute_eq_leave returned, leave_eq otherOpened]
    rw [leave_eq opened, Option.some.injEq] at leaves
    rw [← leaves]
    refine ⟨_, .leave otherTaken otherOpened, rfl, fun name => ?_, .silent rfl rfl⟩
    simp only [State.closed, restored, named, alike.stores.onVariables]
  | next taken level rest ih =>
    obtain ⟨_, otherTaken, otherLevel, nextAlike, printed⟩ :=
      alike.step contained taken level
    obtain ⟨last, otherReturns, results, stores, printedLater⟩ :=
      ih nextAlike (level.trans opened) (otherLevel.trans otherOpened) named restored
    exact ⟨last, .next otherTaken otherLevel otherReturns, results, stores,
      printed.trans printedLater⟩
  | @call state _ _ _ _ taken entered inner rest innerIh restIh =>
    obtain ⟨name, arguments, callee, found, reached, rfl⟩ := eq_enter_of_opened taken entered
    have otherFound : code.toArray[second.position]? = some (.call name arguments) :=
      alike.position ▸ found
    rw [getElem?_toArray] at found
    have otherTaken : step meaning linkage code.toArray second =
        some (second.enter meaning callee arguments) := by
      rw [step_eq otherFound, execute, alike.position, reached]
      rfl
    have enteredAlike : State.Alike code (state.enter meaning callee arguments)
        (second.enter meaning callee arguments) :=
      .enter links reached alike.stores.onVariables (alike.take_pushed contained found)
    obtain ⟨_, otherInner, innerResults, innerStores, printed⟩ :=
      innerIh enteredAlike rfl rfl alike.stores.onVariables rfl
    have backAlike := alike.back links found reached inner otherInner innerResults innerStores
    obtain ⟨last, otherRest, results, stores, printedLater⟩ :=
      restIh backAlike ((inner.back rfl).2.1.trans opened)
        ((otherInner.back rfl).2.1.trans otherOpened) named restored
    have entering : State.PrintAlike state (state.enter meaning callee arguments) second
        (second.enter meaning callee arguments) := .silent rfl rfl
    exact ⟨last, .call otherTaken rfl otherInner otherRest, results, stores,
      (entering.trans printed).trans printedLater⟩

end Machine

end BanglaScript
