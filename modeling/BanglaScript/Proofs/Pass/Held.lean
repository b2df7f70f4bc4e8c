import BanglaScript.Pass.Reuse
import BanglaScript.Proofs.Machine

/-!
# What temporaries hold

While the code is read from its head on, the table of held values follows it.
Every entry of the table is an operation of the code that has been passed, and
as long as control goes from one instruction to the next, the temporary of an
entry holds the value that the operation has in the present store.
-/

namespace BanglaScript

open List

/-- Writing a place that an operand does not read keeps its value. -/
theorem Meaning.ofOperand_set {Value : Type} (meaning : Meaning Value) (store : Store Value)
    {operand : Operand} {place : Place} (unread : ¬ operand.readsPlace place) (value : Value) :
    meaning.ofOperand (store.set place value) operand = meaning.ofOperand store operand := by
  refine meaning.ofOperand_congr fun other reads => store.set_of_ne value ?_
  rintro rfl
  exact unread (decide_eq_true reads)

namespace Pass

variable {opcode : Opcode} {lhs rhs : Operand} {code : List Instruction} {position : Nat}
  {instruction : Instruction}

namespace ExpressionKey

@[simp]
theorem opcode_of (opcode : Opcode) (lhs rhs : Operand) :
    (ExpressionKey.of opcode lhs rhs).opcode = opcode := by
  unfold ExpressionKey.of
  split <;> rfl

/-- The operands of the key stand in the order of the operation, or in the
other order. -/
theorem of_eq_or (opcode : Opcode) (lhs rhs : Operand) :
    ExpressionKey.of opcode lhs rhs = ⟨opcode, lhs.text, rhs.text⟩ ∨
      opcode.isCommutative ∧ ExpressionKey.of opcode lhs rhs = ⟨opcode, rhs.text, lhs.text⟩ := by
  unfold ExpressionKey.of
  split
  case isTrue ordered => exact .inr ⟨ordered.1, rfl⟩
  case isFalse => exact .inl rfl

/-- Operations with one key have the same opcode and operands that are spelled
alike, perhaps in the other order. -/
theorem spelled_alike {other : Opcode} {otherLhs otherRhs : Operand}
    (same : ExpressionKey.of opcode lhs rhs = ExpressionKey.of other otherLhs otherRhs) :
    opcode = other ∧
      (lhs.text = otherLhs.text ∧ rhs.text = otherRhs.text ∨
        opcode.isCommutative ∧ lhs.text = otherRhs.text ∧ rhs.text = otherLhs.text) := by
  have sameOpcode : opcode = other := by simpa using congrArg ExpressionKey.opcode same
  subst sameOpcode
  refine ⟨rfl, ?_⟩
  rcases of_eq_or opcode lhs rhs with first | ⟨commutes, first⟩ <;>
    rcases of_eq_or opcode otherLhs otherRhs with second | ⟨otherCommutes, second⟩ <;>
    rw [first, second, mk.injEq] at same
  · exact .inl same.2
  · exact .inr ⟨otherCommutes, same.2⟩
  · exact .inr ⟨commutes, same.2.2, same.2.1⟩
  · exact .inl ⟨same.2.2, same.2.1⟩

end ExpressionKey

/-! ## The table along the code -/

namespace Available

/-- What is held behind instructions that are passed one after the other. -/
def behind (available : Available) (code : List Instruction) : Available :=
  code.foldl (fun held instruction => (reuseStep held instruction).2) available

end Available

/-- What is held when the code has been passed up to a position. -/
def heldBefore (code : List Instruction) (position : Nat) : Available :=
  Available.behind [] (code.take position)

theorem heldBefore_succ (found : code[position]? = some instruction) :
    heldBefore code (position + 1) = (reuseStep (heldBefore code position) instruction).2 := by
  rw [heldBefore, take_add_one, found, Available.behind, foldl_append]
  rfl

/-- Every instruction is replaced by what is held in front of it. -/
theorem getElem?_reuseFrom (available : Available) (code : List Instruction) (position : Nat) :
    (reuseFrom available code)[position]? = code[position]?.map fun instruction =>
      (reuseStep (available.behind (code.take position)) instruction).1 := by
  induction code generalizing available position with
  | nil => rfl
  | cons first rest ih =>
    cases position with
    | zero => rfl
    | succ position => exact ih (reuseStep available first).2 position

theorem length_reuseFrom (available : Available) (code : List Instruction) :
    (reuseFrom available code).length = code.length := by
  induction code generalizing available with
  | nil => rfl
  | cons first rest ih => exact congrArg (· + 1) (ih _)

/-- The operation that an entry remembers stands in the code. -/
def Held.ComesFrom (held : Held) (code : List Instruction) : Prop :=
  ∃ opcode, held.key = ExpressionKey.of opcode held.lhs held.rhs ∧
    Instruction.binary opcode held.result held.lhs held.rhs ∈ code

namespace Available

variable {available : Available} {held : Held}

theorem mem_of_mem_forget {place : Place} (member : held ∈ available.forget place) :
    held ∈ available ∧ ¬ held.isSpoiledBy place := by
  simpa [forget] using member

theorem mem_of_mem_after (member : held ∈ available.after instruction) : held ∈ available := by
  unfold after at member
  split at member
  case h_5 =>
    split at member
    · exact (mem_of_mem_forget member).1
    · exact member
  all_goals cases member

/-- What is remembered besides the older entries is the operation. -/
theorem mem_of_mem_remember {result : Nat}
    (member : held ∈ available.remember opcode lhs rhs result) :
    held ∈ available ∨
      held = ⟨ExpressionKey.of opcode lhs rhs, lhs, rhs, result⟩ ∧
        ¬ lhs.readsPlace (.temporary result) ∧ ¬ rhs.readsPlace (.temporary result) := by
  simp only [remember] at member
  split at member
  case isTrue => exact .inl member
  case isFalse apart =>
    rw [not_or] at apart
    exact (mem_cons.mp member).symm.imp_right fun new => ⟨new, apart⟩

end Available

/-- An instruction stays, or it is an arithmetic operation that is replaced by a
copy or remembered. -/
theorem reuseStep_cases (available : Available) (instruction : Instruction) :
    reuseStep available instruction = (instruction, available.after instruction) ∨
      ∃ opcode target lhs rhs, instruction = .binary opcode target lhs rhs ∧
        ((∃ result, available.find? (ExpressionKey.of opcode lhs rhs) = some result ∧
            reuseStep available instruction =
              (.assign (.temporary target) (.temporary result),
                available.forget (.temporary target))) ∨
          reuseStep available instruction =
            (instruction,
              (available.forget (.temporary target)).remember opcode lhs rhs target)) := by
  cases instruction with
  | binary opcode target lhs rhs =>
    by_cases arithmetic : opcode.isArithmetic
    · refine .inr ⟨opcode, target, lhs, rhs, rfl, ?_⟩
      simp only [reuseStep, if_pos arithmetic]
      cases found : available.find? (ExpressionKey.of opcode lhs rhs) with
      | some result => exact .inl ⟨result, rfl, rfl⟩
      | none => exact .inr rfl
    · exact .inl (if_neg arithmetic)
  | _ => exact .inl rfl

/-- An entry was there before, or it is the operation that is passed. -/
theorem mem_of_mem_reuseStep {available : Available} {held : Held}
    (member : held ∈ (reuseStep available instruction).2) :
    held ∈ available ∨ held.ComesFrom [instruction] := by
  rcases reuseStep_cases available instruction with
    stays | ⟨opcode, target, lhs, rhs, rfl, ⟨result, _, copied⟩ | remembered⟩
  · rw [stays] at member
    exact .inl (Available.mem_of_mem_after member)
  · rw [copied] at member
    exact .inl (Available.mem_of_mem_forget member).1
  · rw [remembered] at member
    rcases Available.mem_of_mem_remember member with older | ⟨rfl, _⟩
    · exact .inl (Available.mem_of_mem_forget older).1
    · exact .inr ⟨opcode, rfl, mem_singleton_self _⟩

theorem comesFrom_of_mem_behind {available : Available} {held : Held}
    (member : held ∈ available.behind code) : held ∈ available ∨ held.ComesFrom code := by
  induction code generalizing available with
  | nil => exact .inl member
  | cons first rest ih =>
    rcases ih member with passed | ⟨opcode, key, found⟩
    · refine (mem_of_mem_reuseStep passed).imp_right ?_
      rintro ⟨opcode, key, found⟩
      exact ⟨opcode, key, mem_cons.mpr (.inl (mem_singleton.mp found))⟩
    · exact .inr ⟨opcode, key, mem_cons_of_mem _ found⟩

/-- Every entry remembers an operation of the code. -/
theorem comesFrom_of_mem_heldBefore {held : Held} (member : held ∈ heldBefore code position) :
    held.ComesFrom code := by
  rcases comesFrom_of_mem_behind member with absent | ⟨opcode, key, found⟩
  · cases absent
  · exact ⟨opcode, key, mem_of_mem_take found⟩

/-! ## Held values -/

/-- The temporary of the entry holds the value of the operation. -/
def Held.IsTrue {Value : Type} (held : Held) (meaning : Meaning Value) (store : Store Value) :
    Prop :=
  store (.temporary held.result) =
    meaning.operate held.key.opcode (meaning.ofOperand store held.lhs)
      (meaning.ofOperand store held.rhs)

/-- All entries are true of the store. -/
def Available.AreTrue {Value : Type} (available : Available) (meaning : Meaning Value)
    (store : Store Value) : Prop :=
  ∀ ⦃held : Held⦄, held ∈ available → held.IsTrue meaning store

section Writes

variable {Value : Type} {meaning : Meaning Value} {store : Store Value}

/-- A write keeps the entries that it does not spoil. -/
theorem Held.IsTrue.set {held : Held} (isTrue : held.IsTrue meaning store) {place : Place}
    (unspoiled : ¬ held.isSpoiledBy place) (value : Value) :
    held.IsTrue meaning (store.set place value) := by
  simp only [isSpoiledBy, decide_eq_true_eq, not_or] at unspoiled
  obtain ⟨lhsUnread, rhsUnread, elsewhere⟩ := unspoiled
  rw [Held.IsTrue, store.set_of_ne value elsewhere, meaning.ofOperand_set store lhsUnread,
    meaning.ofOperand_set store rhsUnread]
  exact isTrue

namespace Available.AreTrue

variable {available : Available}

theorem nil : AreTrue [] meaning store := by
  intro held member
  cases member

theorem forget (areTrue : available.AreTrue meaning store) (place : Place) (value : Value) :
    (available.forget place).AreTrue meaning (store.set place value) := by
  intro held member
  obtain ⟨older, unspoiled⟩ := mem_of_mem_forget member
  exact (areTrue older).set unspoiled value

/-- An operation whose value has just been written is true. -/
theorem remember (areTrue : available.AreTrue meaning store) (opcode : Opcode)
    (lhs rhs : Operand) (target : Nat) :
    ((available.forget (.temporary target)).remember opcode lhs rhs target).AreTrue meaning
      (store.set (.temporary target) (meaning.operate opcode (meaning.ofOperand store lhs)
        (meaning.ofOperand store rhs))) := by
  intro held member
  rcases mem_of_mem_remember member with older | ⟨rfl, lhsUnread, rhsUnread⟩
  · exact areTrue.forget _ _ older
  · rw [Held.IsTrue, meaning.ofOperand_set store lhsUnread, meaning.ofOperand_set store rhsUnread,
      store.set_self, ExpressionKey.opcode_of]

end Available.AreTrue

end Writes

end Pass

end BanglaScript
