import BanglaScript.Proofs.Call.Changes
import BanglaScript.Proofs.Call.Independence
import BanglaScript.Proofs.Call.Order

/-!
# Straight code with calls

Instructions that stand one behind the other are carried out one behind the other,
and each call among them does what calls of its function do: what that is depends
on the variables and the arguments alone.  While the code of several operands is
carried out, those that are temporaries keep their values, since functions have
temporaries of their own.  Those that are variables change with the variables.
-/

namespace BanglaScript.Machine

open List

variable {Value : Type} {callee : Callee} {name : String} {arguments rest : List Value}
  {count : Nat}

/-! ## Calls -/

/-- A state that has pushed the arguments of a call and of which nothing else is
known than the variables. -/
def State.calling (meaning : Meaning Value) (values : Variables Value)
    (arguments : List Value) : State Value :=
  { State.start meaning with
    store := .ofVariables meaning values
    pushed := arguments.reverse }

/-- What the calls do that reach functions by their names. -/
def answers (meaning : Meaning Value) (linkage : Linkage) (code : Code)
    (reaches : String → Option Callee) : Calling Value :=
  fun name arguments before result printed after => ∃ callee final,
    reaches name = some callee ∧
      Returns meaning linkage code
        ((State.calling meaning before arguments).enter meaning callee arguments.length) final ∧
      final.result = result ∧ final.output = printed ∧ final.store.named = after

/-- A call that reaches a function by its name may change the variable. -/
def MayChangeVariable (linkage : Linkage) (code : Code) (reaches : String → Option Callee)
    (function name : String) : Prop :=
  ∃ callee, reaches function = some callee ∧ callee.MayChange linkage code (.variable name)

variable {meaning : Meaning Value} {linkage : Linkage} {code : List Instruction}
  {reaches : String → Option Callee}

theorem answers_keeps (code : Code) :
    (answers meaning linkage code reaches).Keeps (MayChangeVariable linkage code reaches) := by
  rintro function arguments before _ _ _ ⟨callee, final, reached, returns, rfl, rfl, rfl⟩ name
    unchanged
  exact store_eq_of_back (fun changes => unchanged ⟨callee, reached, changes⟩) returns
    fun within => returns.store_eq within rfl

/-- Functions come back alike from two callers that have the same variables and
give the same arguments. -/
theorem Returns.of_enter (contained : Code.IsSelfContained code)
    (links : LinksFunctions linkage code) {first final : State Value} {arguments : Nat}
    (returns : Returns meaning linkage code.toArray (first.enter meaning callee arguments) final)
    {position : Nat} (reached : linkage position name = some callee) (second : State Value)
    (named : second.store.named = first.store.named)
    (given : second.pushed.take arguments = first.pushed.take arguments) :
    ∃ last, Returns meaning linkage code.toArray (second.enter meaning callee arguments) last ∧
      last.result = final.result ∧ last.store.named = final.store.named ∧
      State.PrintAlike first final second last := by
  have alike : State.Alike code (first.enter meaning callee arguments)
      (second.enter meaning callee arguments) :=
    .enter links reached (congrFun named) given
  obtain ⟨last, otherReturns, results, stores, printed⟩ :=
    returns.alike contained links alike rfl rfl (congrFun named) rfl
  exact ⟨last, otherReturns, results, funext stores, printed⟩

/-- A call takes the arguments that have been pushed last. -/
theorem take_pushed_calling (values : Variables Value) {state : State Value}
    (pushed : state.pushed = arguments.reverse ++ rest) :
    (State.calling meaning values arguments).pushed.take arguments.length =
      state.pushed.take arguments.length := by
  rw [pushed, State.calling, ← length_reverse, take_length, take_left]

/-- What a call does from a state is what calls do. -/
theorem answers_of_returns (contained : Code.IsSelfContained code)
    (links : LinksFunctions linkage code) {state final : State Value}
    (reached : linkage state.position name = some callee)
    (reaches_eq : linkage state.position name = reaches name)
    (pushed : state.pushed = arguments.reverse ++ rest)
    (returns : Returns meaning linkage code.toArray
      (state.enter meaning callee arguments.length) final) :
    ∃ printed, final.output = state.output ++ printed ∧
      answers meaning linkage code.toArray reaches name arguments state.store.named
        final.result printed final.store.named := by
  obtain ⟨last, otherReturns, results, stores, printed, output, otherOutput⟩ :=
    returns.of_enter contained links reached
      (State.calling meaning state.store.named arguments) rfl (take_pushed_calling _ pushed)
  exact ⟨printed, output, callee, last, reaches_eq ▸ reached, otherReturns, results, otherOutput,
    stores⟩

/-- What calls do, a call does from every state. -/
theorem returns_of_answers (contained : Code.IsSelfContained code)
    (links : LinksFunctions linkage code) (state : State Value)
    (reaches_eq : linkage state.position name = reaches name)
    (pushed : state.pushed = arguments.reverse ++ rest) {result : Value} {printed : List Value}
    {after : Variables Value}
    (answered : answers meaning linkage code.toArray reaches name arguments
      state.store.named result printed after) :
    ∃ callee final, linkage state.position name = some callee ∧
      Returns meaning linkage code.toArray (state.enter meaning callee arguments.length) final ∧
      final.result = result ∧ final.output = state.output ++ printed ∧
      final.store.named = after := by
  obtain ⟨callee, _, reached, returns, rfl, rfl, rfl⟩ := answered
  rw [← reaches_eq] at reached
  obtain ⟨last, otherReturns, results, stores, _, output, otherOutput⟩ :=
    returns.of_enter contained links reached state rfl (take_pushed_calling _ pushed).symm
  refine ⟨callee, last, reached, otherReturns, results, ?_, stores⟩
  rw [otherOutput, output]
  rfl

/-! ## Operands -/

/-- The machine carries out instructions one behind the other and has then some
operands for which the held ones stand.  They keep their meaning as long as the
temporaries that have been handed out are kept. -/
structure Yields (meaning : Meaning Value) (linkage : Linkage) (code : Code)
    (length before behind : Nat) (state : State Value) (operands : List Operand)
    (held : List (Held Value)) (printed : List Value) (final : State Value) : Prop where
  passes : Passes meaning linkage code length state final
  position : final.position = state.position + length
  frames : final.frames = state.frames
  output : final.output = state.output ++ printed
  order : before ≤ behind
  kept : ∀ number, number ≤ before →
    final.store (.temporary number) = state.store (.temporary number)
  stand : ∀ later : Store Value,
    (∀ number, number ≤ behind → later (.temporary number) = final.store (.temporary number)) →
      operands.map (meaning.ofOperand later) = held.map (Held.read meaning later.named)

namespace Yields

variable {code : Code} {length before middle behind : Nat} {state between final : State Value}
  {operands others : List Operand} {held waiting : List (Held Value)}
  {first second printed : List Value}

theorem nil (number : Nat) (state : State Value) :
    Yields meaning linkage code 0 number number state [] [] [] state :=
  ⟨.done, rfl, rfl, (append_nil _).symm, Nat.le_refl _, fun _ _ => rfl, fun _ _ => rfl⟩

/-- An operand that needs no code. -/
theorem operand (number : Nat) (state : State Value) {operand : Operand} {held : Held Value}
    (stands : ∀ later : Store Value,
      meaning.ofOperand later operand = held.read meaning later.named) :
    Yields meaning linkage code 0 number number state [operand] [held] [] state :=
  ⟨.done, rfl, rfl, (append_nil _).symm, Nat.le_refl _, fun _ _ => rfl,
    fun later _ => congrArg (· :: []) (stands later)⟩

theorem append {firstLength secondLength : Nat}
    (yields : Yields meaning linkage code firstLength before middle state operands held first
      between)
    (next : Yields meaning linkage code secondLength middle behind between others waiting second
      final) :
    Yields meaning linkage code (firstLength + secondLength) before behind state
      (operands ++ others) (held ++ waiting) (first ++ second) final where
  passes := yields.passes.trans next.passes
  position := by rw [next.position, yields.position, Nat.add_assoc]
  frames := next.frames.trans yields.frames
  output := by rw [next.output, yields.output, append_assoc]
  order := Nat.le_trans yields.order next.order
  kept := fun number inside => (next.kept number (Nat.le_trans inside yields.order)).trans
    (yields.kept number inside)
  stand := by
    intro later agrees
    rw [map_append, map_append, next.stand later agrees, yields.stand later]
    intro number inside
    exact (agrees number (Nat.le_trans inside next.order)).trans (next.kept number inside)

/-- Instructions that compute no operand. -/
theorem go
    (yields : Yields meaning linkage code length before behind state operands held first between)
    (passes : Passes meaning linkage code count between final)
    (position : final.position = between.position + count) (frames : final.frames = between.frames)
    (output : final.output = between.output ++ second)
    (kept : ∀ number, final.store (.temporary number) = between.store (.temporary number)) :
    Yields meaning linkage code (length + count) before behind state operands held
      (first ++ second) final := by
  have gone : Yields meaning linkage code count behind behind between [] [] second final :=
    ⟨passes, position, frames, output, Nat.le_refl _, fun number _ => kept number, fun _ _ => rfl⟩
  have both := yields.append gone
  rwa [append_nil, append_nil] at both

/-- An instruction that writes the next temporary. -/
theorem write (yields : Yields meaning linkage code length before behind state operands held
      printed between) {value : Value}
    (taken : step meaning linkage code between =
      some (between.write (.temporary (behind + 1)) value)) :
    Yields meaning linkage code (length + 1) before (behind + 1) state
      [.temporary (behind + 1)] [.value value] printed
      (between.write (.temporary (behind + 1)) value) where
  passes := yields.passes.trans (.next taken rfl .done)
  position := congrArg (· + 1) yields.position
  frames := yields.frames
  output := yields.output
  order := Nat.le_succ_of_le yields.order
  kept := by
    intro number inside
    rw [← yields.kept number inside]
    refine Store.set_of_ne _ _ fun same => ?_
    cases same
    exact Nat.not_succ_le_self _ (Nat.le_trans inside yields.order)
  stand := by
    intro later agrees
    have written := (agrees (behind + 1) (Nat.le_refl _)).trans (Store.set_self _ _ _)
    exact congrArg (· :: []) written

/-- The operands are taken behind the code. -/
theorem map_ofOperand (yields : Yields meaning linkage code length before behind state operands
      held printed final) :
    operands.map (meaning.ofOperand final.store) =
      held.map (Held.read meaning final.store.named) :=
  yields.stand final.store fun _ _ => rfl

end Yields

/-- Behind the instructions that push operands. -/
def State.pushing (state : State Value) (meaning : Meaning Value) (operands : List Operand) :
    State Value :=
  { state with
    position := state.position + operands.length
    pushed := (operands.map (meaning.ofOperand state.store)).reverse ++ state.pushed }

theorem State.pushing_cons (state : State Value) (operand : Operand) (rest : List Operand) :
    state.pushing meaning (operand :: rest) =
      State.pushing { state.next with
        pushed := meaning.ofOperand state.store operand :: state.pushed } meaning rest := by
  simp only [pushing, next, length_cons, map_cons, reverse_cons, append_assoc,
    singleton_append, Nat.add_assoc, Nat.add_comm 1]

theorem passes_pushing {code : Code} {state : State Value} {operands : List Operand}
    (holds : code.Holds state.position (operands.map Instruction.push)) :
    Passes meaning linkage code operands.length state (state.pushing meaning operands) := by
  induction operands generalizing state with
  | nil => exact .done
  | cons operand rest ih =>
    rw [map_cons, Code.holds_cons] at holds
    rw [State.pushing_cons]
    exact .next (step_eq holds.1) rfl (ih holds.2)

/-! ## Operations and calls -/

theorem named_write_temporary (state : State Value) (number : Nat) (value : Value) :
    (state.write (.temporary number) value).store.named = state.store.named := by
  funext name
  have other : Place.variable name ≠ .temporary number := nofun
  exact state.store.set_of_ne value other

/-- An operation takes its operands behind their code. -/
theorem yields_binary {code : Code} {length before behind : Nat} {state between : State Value}
    {lhs rhs : Operand} {left right : Held Value} {printed : List Value}
    (yields : Yields meaning linkage code length before behind state [lhs, rhs] [left, right]
      printed between) {opcode : Opcode}
    (found : code[state.position + length]? = some (.binary opcode (behind + 1) lhs rhs)) :
    ∃ final, Yields meaning linkage code (length + 1) before (behind + 1) state
        [.temporary (behind + 1)]
        [.value (meaning.operate opcode (left.read meaning between.store.named)
          (right.read meaning between.store.named))] printed final ∧
      final.store.named = between.store.named := by
  have values := yields.map_ofOperand
  simp only [map_cons, map_nil, List.cons.injEq, and_true] at values
  rw [← yields.position] at found
  rw [← values.1, ← values.2]
  exact ⟨_, yields.write (step_eq found), named_write_temporary between _ _⟩

/-- A call takes its operands behind their code, and its result is taken when it
has come back. -/
theorem yields_call (links : LinksFunctions linkage code) {length before behind : Nat}
    {state between back : State Value} {operands : List Operand} {held : List (Held Value)}
    {first second : List Value}
    (yields : Yields meaning linkage code.toArray length before behind state operands held first
      between)
    (holds : Code.Holds code.toArray between.position (operands.map Instruction.push ++
      [.call name operands.length, .pop (behind + 1)]))
    (reached : linkage (between.position + operands.length) name = some callee)
    (returns : Returns meaning linkage code.toArray
      ((between.pushing meaning operands).enter meaning callee operands.length) back)
    (output : back.output = between.output ++ second) :
    Yields meaning linkage code.toArray (length + operands.length + 1 + 1) before (behind + 1)
      state [.temporary (behind + 1)] [.value back.result] (first ++ second)
      (back.write (.temporary (behind + 1)) back.result) := by
  rw [Code.holds_append, length_map, Code.holds_cons, Code.holds_singleton] at holds
  obtain ⟨pushes, called, popped⟩ := holds
  obtain ⟨position, frames, kept⟩ := returns.back rfl
  have entered : step meaning linkage code.toArray (between.pushing meaning operands) =
      some ((between.pushing meaning operands).enter meaning callee operands.length) := by
    rw [step_eq called, execute]
    exact Option.map_eq_some_iff.mpr ⟨callee, reached, rfl⟩
  have pushed := yields.go (passes_pushing pushes) rfl rfl (append_nil _).symm fun _ => rfl
  have gone := pushed.go (.call entered rfl returns .done) position frames output
    fun number => kept _ (links.ownsTemporaries reached number)
  rw [append_nil] at gone
  have atPop : code.toArray[back.position]? = some (.pop (behind + 1)) := by
    rw [position]
    exact popped
  exact gone.write (step_eq atPop)

/-- A call that is passed has come back. -/
theorem exists_returns_of_passes {code : Code} {arguments : Nat} {state final : State Value}
    (passes : Passes meaning linkage code (count + 1) state final)
    (found : code[state.position]? = some (.call name arguments)) :
    ∃ callee back, linkage state.position name = some callee ∧
      Returns meaning linkage code (state.enter meaning callee arguments) back := by
  have entered {next : State Value} (taken : step meaning linkage code state = some next) :
      ∃ callee, linkage state.position name = some callee ∧
        state.enter meaning callee arguments = next := by
    rw [step_eq found] at taken
    exact Option.map_eq_some_iff.mp taken
  cases passes with
  | next taken level =>
    obtain ⟨callee, _, rfl⟩ := entered taken
    exact absurd level (cons_ne_self _ _)
  | call taken _ inner =>
    obtain ⟨callee, reached, rfl⟩ := entered taken
    exact ⟨callee, _, reached, inner⟩

end BanglaScript.Machine
