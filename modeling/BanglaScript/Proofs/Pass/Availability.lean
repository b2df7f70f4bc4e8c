import BanglaScript.Proofs.Pass.Held

/-!
# Which operations are replaced

The table of held values is filled and emptied while the code is read.  What it
holds in front of a position can also be told from the code that comes out: it is
the operations in front of the position whose operands and result have not been
written since, with no label, function boundary or call in between.  So an
arithmetic operation is replaced exactly if such an operation with its key stands
in front of it, and then there is only one.
-/

namespace BanglaScript

open List

/-- Control may come from elsewhere or go elsewhere, so that nothing is known about
what was held before. -/
def Instruction.isBarrier : Instruction → Bool
  | .label _ | .functionStart _ _ | .functionEnd _ | .call _ _ => true
  | _ => false

namespace Number

theorem orderKey_injective {first second : Number} (same : first.orderKey = second.orderKey) :
    first = second := by
  obtain ⟨firstBits⟩ := first
  obtain ⟨secondBits⟩ := second
  have firstLt := firstBits.toNat_lt
  have secondLt := secondBits.toNat_lt
  have bits : firstBits.toNat = secondBits.toNat := by
    simp only [orderKey, isNegative, Nat.pow_eq, decide_eq_true_eq] at same
    split at same <;> split at same <;> omega
  rw [UInt64.toNat_inj.mp bits]

end Number

namespace Pass

/-! ## Keys -/

theorem compareOperands_swap (lhs rhs : Operand) :
    compareOperands lhs rhs = (compareOperands rhs lhs).swap := by
  unfold compareOperands
  cases lhs <;> cases rhs <;> exact Std.OrientedOrd.eq_swap

/-- Operands that compare as equal are spelled alike. -/
theorem text_eq_of_compareOperands {lhs rhs : Operand} (same : compareOperands lhs rhs = .eq) :
    lhs.text = rhs.text := by
  unfold compareOperands at same
  split at same
  · rw [Number.orderKey_injective (Std.LawfulEqOrd.eq_of_compare same)]
  · exact Std.LawfulEqOrd.eq_of_compare same

/-- The order of operands that can be exchanged makes no difference to the key. -/
theorem ExpressionKey.of_comm {opcode : Opcode} (commutes : opcode.isCommutative)
    (lhs rhs : Operand) : ExpressionKey.of opcode lhs rhs = ExpressionKey.of opcode rhs lhs := by
  have swapped := compareOperands_swap rhs lhs
  unfold ExpressionKey.of
  simp only [commutes, true_and]
  cases compared : compareOperands lhs rhs with
  | lt | gt => simp [swapped, compared]
  | eq => simp [swapped, compared, text_eq_of_compareOperands compared]

/-! ## One instruction -/

namespace Held

/-- The instruction is the operation that the entry remembers, and it does not write one
of its own operands. -/
structure IsComputedBy (held : Held) (instruction : Instruction) : Prop where
  operation : instruction = .binary held.key.opcode held.result held.lhs held.rhs
  key : held.key = ExpressionKey.of held.key.opcode held.lhs held.rhs
  apart : ¬ held.lhs.readsPlace (.temporary held.result) ∧
    ¬ held.rhs.readsPlace (.temporary held.result)

/-- The instruction leaves the operands and the result of the entry as they are. -/
structure IsKeptBy (held : Held) (instruction : Instruction) : Prop where
  passes : instruction.isBarrier = false
  writes : ∀ place, instruction.target? = some place →
    place ≠ .temporary held.result ∧ ¬ held.lhs.readsPlace place ∧ ¬ held.rhs.readsPlace place

theorem not_isSpoiledBy_iff {held : Held} {place : Place} :
    ¬ held.isSpoiledBy place ↔
      place ≠ .temporary held.result ∧ ¬ held.lhs.readsPlace place ∧
        ¬ held.rhs.readsPlace place := by
  simp only [isSpoiledBy, decide_eq_true_eq, not_or]
  constructor
  · rintro ⟨lhs, rhs, result⟩
    exact ⟨fun same => result same.symm, lhs, rhs⟩
  · rintro ⟨result, lhs, rhs⟩
    exact ⟨lhs, rhs, fun same => result same.symm⟩

end Held

namespace Available

variable {available : Available}

theorem mem_forget_iff {place : Place} {held : Held} :
    held ∈ available.forget place ↔ held ∈ available ∧ ¬ held.isSpoiledBy place := by
  simp [forget]

theorem mem_after_iff {instruction : Instruction} {held : Held} :
    held ∈ available.after instruction ↔ held ∈ available ∧ held.IsKeptBy instruction := by
  have writing {place : Place} (passes : instruction.isBarrier = false)
      (target : instruction.target? = some place) :
      held ∈ available.forget place ↔ held ∈ available ∧ held.IsKeptBy instruction := by
    rw [mem_forget_iff, Held.not_isSpoiledBy_iff]
    refine and_congr_right fun _ => ⟨fun kept => ⟨passes, ?_⟩, fun kept => kept.writes _ target⟩
    intro other same
    cases target.symm.trans same
    exact kept
  have reading (passes : instruction.isBarrier = false) (target : instruction.target? = none) :
      held ∈ available ↔ held ∈ available ∧ held.IsKeptBy instruction := by
    refine ⟨fun member => ⟨member, passes, ?_⟩, And.left⟩
    intro place same
    cases target.symm.trans same
  have barrier (stops : instruction.isBarrier = true) :
      held ∈ ([] : Available) ↔ held ∈ available ∧ held.IsKeptBy instruction := by
    refine ⟨fun member => absurd member not_mem_nil, fun kept => ?_⟩
    cases stops.symm.trans kept.2.passes
  cases instruction with
  | assign | binary | pop => exact writing rfl rfl
  | label | functionStart | functionEnd | call => exact barrier rfl
  | branch | jump | push | giveBack | print => exact reading rfl rfl

theorem mem_remember_iff {opcode : Opcode} {lhs rhs : Operand} {result : Nat} {held : Held} :
    held ∈ available.remember opcode lhs rhs result ↔
      held ∈ available ∨ held.IsComputedBy (.binary opcode result lhs rhs) := by
  constructor
  · intro member
    rcases mem_of_mem_remember member with older | ⟨rfl, apart⟩
    · exact .inl older
    · exact .inr ⟨by simp, by simp, apart⟩
  · simp only [remember]
    rintro (older | ⟨operation, key, apart⟩)
    · split
      · exact older
      · exact mem_cons_of_mem _ older
    · cases operation
      rw [if_neg (not_or.mpr apart), ← key]
      exact mem_cons_self

end Available

/-- One instruction leaves the entries that the new instruction keeps, and adds what it
computes.  Only arithmetic is remembered. -/
theorem mem_reuseStep_iff {available : Available} {instruction : Instruction} {held : Held} :
    held ∈ (reuseStep available instruction).2 ↔
      held ∈ available ∧ held.IsKeptBy (reuseStep available instruction).1 ∨
        held.key.opcode.isArithmetic ∧ held.IsComputedBy (reuseStep available instruction).1 := by
  have passing {result : Instruction × Available}
      (stays : result = (instruction, available.after instruction))
      (plain : held.key.opcode.isArithmetic → ¬ held.IsComputedBy instruction) :
      held ∈ result.2 ↔ held ∈ available ∧ held.IsKeptBy result.1 ∨
        held.key.opcode.isArithmetic ∧ held.IsComputedBy result.1 := by
    rw [stays, Available.mem_after_iff]
    exact (or_iff_left fun computed => plain computed.1 computed.2).symm
  cases instruction with
  | binary opcode target lhs rhs =>
    by_cases arithmetic : opcode.isArithmetic
    · simp only [reuseStep, if_pos arithmetic]
      cases found : available.find? (ExpressionKey.of opcode lhs rhs) with
      | some =>
        dsimp only
        rw [Available.mem_after_iff]
        refine (or_iff_left fun computed => ?_).symm
        cases computed.2.operation
      | none =>
        dsimp only
        rw [Available.mem_remember_iff]
        refine or_congr ?_ ⟨fun computed => ⟨?_, computed⟩, And.right⟩
        · exact @Available.mem_after_iff available (.binary opcode target lhs rhs) held
        · cases computed.operation
          exact arithmetic
    · refine passing (if_neg arithmetic) fun other computed => arithmetic ?_
      cases computed.operation
      exact other
  | _ =>
    refine passing rfl fun _ computed => ?_
    cases computed.operation

section Replaced

variable {available : Available} {instruction : Instruction} {opcode : Opcode} {target : Nat}
  {lhs rhs : Operand}

/-- An operation that comes out has been there. -/
theorem eq_of_reuseStep_binary
    (replaced : (reuseStep available instruction).1 = .binary opcode target lhs rhs) :
    instruction = .binary opcode target lhs rhs := by
  rcases reuseStep_cases available instruction with
    stays | ⟨_, _, _, _, _, ⟨_, _, copied⟩ | remembered⟩
  · exact (congrArg Prod.fst stays).symm.trans replaced
  · cases (congrArg Prod.fst copied).symm.trans replaced
  · exact (congrArg Prod.fst remembered).symm.trans replaced

/-- If something with the key of an arithmetic operation is held, the operation becomes a
copy of such a result. -/
theorem exists_copy_of_mem (target : Nat) (arithmetic : opcode.isArithmetic) {held : Held}
    (member : held ∈ available) (key : held.key = ExpressionKey.of opcode lhs rhs) :
    ∃ copied ∈ available, copied.key = ExpressionKey.of opcode lhs rhs ∧
      (reuseStep available (.binary opcode target lhs rhs)).1 =
        .assign (.temporary target) (.temporary copied.result) := by
  cases found : List.find? (fun held : Held => held.key = ExpressionKey.of opcode lhs rhs)
      available with
  | none => exact absurd (decide_eq_true key) (find?_eq_none.mp found held member)
  | some copied =>
    refine ⟨copied, mem_of_find?_eq_some found, ?_, ?_⟩
    · simpa using find?_some found
    · simp only [reuseStep, if_pos arithmetic, Available.find?, found, Option.map_some]

/-- Only an arithmetic operation whose key is held is replaced. -/
theorem exists_mem_of_reuseStep_ne (changed : (reuseStep available instruction).1 ≠ instruction) :
    ∃ opcode target lhs rhs, instruction = .binary opcode target lhs rhs ∧ opcode.isArithmetic ∧
      ∃ held ∈ available, held.key = ExpressionKey.of opcode lhs rhs := by
  cases instruction with
  | binary opcode target lhs rhs =>
    by_cases arithmetic : opcode.isArithmetic
    · simp only [reuseStep, if_pos arithmetic] at changed
      cases found : available.find? (ExpressionKey.of opcode lhs rhs) with
      | none => simp [found] at changed
      | some =>
        obtain ⟨held, heldFound, _⟩ := Option.map_eq_some_iff.mp found
        refine ⟨opcode, target, lhs, rhs, rfl, arithmetic, held,
          mem_of_find?_eq_some heldFound, ?_⟩
        simpa using find?_some heldFound
    · exact absurd (congrArg Prod.fst (if_neg arithmetic)) changed
  | _ => exact absurd rfl changed

end Replaced

/-! ## The whole code -/

/-- The operation of the entry stands at `start`, and its operands and result are not
written between there and `position`, with no barrier in between. -/
structure Held.IsHeldSince (held : Held) (code : List Instruction) (start position : Nat) :
    Prop where
  before : start < position
  computed : ∃ instruction, code[start]? = some instruction ∧ held.IsComputedBy instruction
  kept : ∀ between, start < between → between < position →
    ∀ instruction, code[between]? = some instruction → held.IsKeptBy instruction

section Table

variable {code : List Instruction} {position start : Nat} {held : Held}

theorem Held.isHeldSince_succ_iff {instruction : Instruction}
    (found : code[position]? = some instruction) :
    held.IsHeldSince code start (position + 1) ↔
      held.IsHeldSince code start position ∧ held.IsKeptBy instruction ∨
        start = position ∧ held.IsComputedBy instruction := by
  constructor
  · rintro ⟨before, computed, kept⟩
    rcases Nat.lt_succ_iff_lt_or_eq.mp before with earlier | rfl
    · refine .inl ⟨⟨earlier, computed, fun between behind front => ?_⟩, ?_⟩
      · exact kept between behind (Nat.lt_succ_of_lt front)
      · exact kept position earlier (Nat.lt_succ_self _) instruction found
    · obtain ⟨other, there, computed⟩ := computed
      cases found.symm.trans there
      exact .inr ⟨rfl, computed⟩
  · rintro (⟨since, keeps⟩ | ⟨rfl, computed⟩)
    · refine ⟨Nat.lt_succ_of_lt since.before, since.computed, ?_⟩
      intro between behind front other there
      rcases Nat.lt_succ_iff_lt_or_eq.mp front with earlier | rfl
      · exact since.kept between behind earlier other there
      · cases found.symm.trans there
        exact keeps
    · refine ⟨Nat.lt_succ_self _, ⟨instruction, found, computed⟩, ?_⟩
      intro between behind front
      omega

/-- Behind the end of the code nothing is computed and nothing is written. -/
theorem Held.isHeldSince_succ_iff_of_none (ended : code[position]? = none) :
    held.IsHeldSince code start (position + 1) ↔ held.IsHeldSince code start position := by
  constructor
  · rintro ⟨before, computed, kept⟩
    rcases Nat.lt_succ_iff_lt_or_eq.mp before with earlier | rfl
    · exact ⟨earlier, computed, fun between behind front =>
        kept between behind (Nat.lt_succ_of_lt front)⟩
    · obtain ⟨instruction, there, _⟩ := computed
      cases ended.symm.trans there
  · rintro ⟨before, computed, kept⟩
    refine ⟨Nat.lt_succ_of_lt before, computed, fun between behind front instruction there => ?_⟩
    rcases Nat.lt_succ_iff_lt_or_eq.mp front with earlier | rfl
    · exact kept between behind earlier instruction there
    · cases ended.symm.trans there

theorem getElem?_reuseHeld_eq (code : List Instruction) (position : Nat) :
    (reuseHeld code)[position]? =
      code[position]?.map fun instruction => (reuseStep (heldBefore code position) instruction).1 :=
  getElem?_reuseFrom [] code position

/-- The entries in front of a position are the operations of the new code that are held
there. -/
theorem mem_heldBefore_iff :
    held ∈ heldBefore code position ↔
      held.key.opcode.isArithmetic ∧ ∃ start, held.IsHeldSince (reuseHeld code) start position := by
  induction position with
  | zero =>
    refine ⟨fun member => absurd member not_mem_nil, ?_⟩
    rintro ⟨_, start, since⟩
    exact absurd since.before (Nat.not_lt_zero _)
  | succ position ih =>
    have output := getElem?_reuseHeld_eq code position
    cases found : code[position]? with
    | none =>
      rw [found] at output
      have same : heldBefore code (position + 1) = heldBefore code position := by
        rw [heldBefore, take_add_one, found, Option.toList_none, append_nil]
        rfl
      simp only [same, ih, Held.isHeldSince_succ_iff_of_none output]
    | some =>
      rw [found] at output
      rw [heldBefore_succ found, mem_reuseStep_iff, ih]
      simp only [Held.isHeldSince_succ_iff output]
      constructor
      · rintro (⟨⟨arithmetic, start, since⟩, kept⟩ | ⟨arithmetic, computed⟩)
        · exact ⟨arithmetic, start, .inl ⟨since, kept⟩⟩
        · exact ⟨arithmetic, position, .inr ⟨rfl, computed⟩⟩
      · rintro ⟨arithmetic, start, ⟨since, kept⟩ | ⟨-, computed⟩⟩
        · exact .inl ⟨⟨arithmetic, start, since⟩, kept⟩
        · exact .inr ⟨arithmetic, computed⟩

/-- Of what is held in front of a position, no two operations have the same key: the later
one would have been replaced. -/
theorem Held.IsHeldSince.unique {other : Held} {otherStart : Nat}
    (arithmetic : held.key.opcode.isArithmetic)
    (since : held.IsHeldSince (reuseHeld code) start position)
    (otherSince : other.IsHeldSince (reuseHeld code) otherStart position)
    (sameKey : other.key = held.key) : otherStart = start ∧ other = held := by
  have notBefore {first second : Held} {earlier later : Nat}
      (arithmetic : second.key.opcode.isArithmetic)
      (firstSince : first.IsHeldSince (reuseHeld code) earlier position)
      (secondSince : second.IsHeldSince (reuseHeld code) later position)
      (sameKey : first.key = second.key) : ¬ earlier < later := by
    intro before
    have member : first ∈ heldBefore code later :=
      mem_heldBefore_iff.mpr ⟨sameKey ▸ arithmetic, earlier, before, firstSince.computed,
        fun between behind front => firstSince.kept between behind
          (Nat.lt_trans front secondSince.before)⟩
    obtain ⟨_, found, rfl, secondKey, _⟩ := secondSince.computed
    rw [getElem?_reuseHeld_eq] at found
    obtain ⟨_, _, replaced⟩ := Option.map_eq_some_iff.mp found
    obtain rfl := eq_of_reuseStep_binary replaced
    obtain ⟨_, _, _, replacedByCopy⟩ :=
      exists_copy_of_mem second.result arithmetic member (sameKey.trans secondKey)
    cases replacedByCopy.symm.trans replaced
  have sameStart : otherStart = start := by
    have notLater := notBefore (sameKey ▸ arithmetic) since otherSince sameKey.symm
    have notEarlier := notBefore arithmetic otherSince since sameKey
    omega
  refine ⟨sameStart, ?_⟩
  obtain ⟨_, found, rfl, _, _⟩ := since.computed
  obtain ⟨_, otherFound, rfl, _, _⟩ := otherSince.computed
  rw [sameStart, found] at otherFound
  obtain ⟨_, _, _, _⟩ := held
  obtain ⟨_, _, _, _⟩ := other
  obtain rfl := sameKey
  cases otherFound
  rfl

end Table

/-- The operation at the position is arithmetic, and one with its key is held there since
`start`. -/
structure Repeats (code result : List Instruction) (position target start : Nat) (held : Held) :
    Prop where
  operation : ∃ opcode lhs rhs, code[position]? = some (.binary opcode target lhs rhs) ∧
    opcode.isArithmetic ∧ held.key = ExpressionKey.of opcode lhs rhs
  since : held.IsHeldSince result start position

namespace Repeats

variable {code : List Instruction} {position target start : Nat} {held : Held}

variable (repeated : Repeats code (reuseHeld code) position target start held)

include repeated

theorem isArithmetic : held.key.opcode.isArithmetic := by
  obtain ⟨_, _, _, _, _, key⟩ := repeated.operation
  rwa [key, ExpressionKey.opcode_of]

theorem unique {otherTarget otherStart : Nat} {other : Held}
    (again : Repeats code (reuseHeld code) position otherTarget otherStart other) :
    otherStart = start ∧ other = held := by
  obtain ⟨_, _, _, found, _, key⟩ := repeated.operation
  obtain ⟨_, _, _, otherFound, _, otherKey⟩ := again.operation
  cases found.symm.trans otherFound
  exact repeated.since.unique repeated.isArithmetic again.since (otherKey.trans key.symm)

/-- What repeats a held operation becomes a copy of its result. -/
theorem getElem?_eq :
    (reuseHeld code)[position]? = some (.assign (.temporary target) (.temporary held.result)) := by
  obtain ⟨opcode, lhs, rhs, found, arithmetic, key⟩ := repeated.operation
  have member : held ∈ heldBefore code position :=
    mem_heldBefore_iff.mpr ⟨repeated.isArithmetic, start, repeated.since⟩
  obtain ⟨copied, copiedMember, copiedKey, replaced⟩ :=
    exists_copy_of_mem target arithmetic member key
  obtain ⟨_, _, copiedSince⟩ := mem_heldBefore_iff.mp copiedMember
  have same : copied = held :=
    (repeated.unique ⟨⟨opcode, lhs, rhs, found, arithmetic, copiedKey⟩, copiedSince⟩).2
  rw [getElem?_reuseHeld_eq, found, Option.map_some, replaced, same]

end Repeats

theorem exists_repeats_of_ne {code : List Instruction} {position : Nat}
    (changed : (reuseHeld code)[position]? ≠ code[position]?) :
    ∃ target start held, Repeats code (reuseHeld code) position target start held := by
  rw [getElem?_reuseHeld_eq] at changed
  cases found : code[position]? with
  | none => exact absurd (by rw [found]; rfl) changed
  | some =>
    rw [found, Option.map_some, Ne, Option.some.injEq] at changed
    obtain ⟨opcode, target, lhs, rhs, rfl, arithmetic, held, member, key⟩ :=
      exists_mem_of_reuseStep_ne changed
    obtain ⟨_, start, since⟩ := mem_heldBefore_iff.mp member
    exact ⟨target, start, held, ⟨opcode, lhs, rhs, found, arithmetic, key⟩, since⟩

/-- The code keeps its length.  An instruction changes exactly if it repeats an operation
that is held in the new code; then it becomes a copy of the result, and the operation is
the only one that it repeats.  Operands that can be exchanged may stand in either order. -/
theorem getElem?_reuseHeld_ne_iff (code : List Instruction) :
    (reuseHeld code).length = code.length ∧
      (∀ position, (reuseHeld code)[position]? ≠ code[position]? ↔
        ∃ target start held, Repeats code (reuseHeld code) position target start held) ∧
      (∀ position target start held,
        Repeats code (reuseHeld code) position target start held →
          (reuseHeld code)[position]? =
              some (.assign (.temporary target) (.temporary held.result)) ∧
            ∀ otherTarget otherStart other,
              Repeats code (reuseHeld code) position otherTarget otherStart other →
                otherStart = start) ∧
      ∀ opcode lhs rhs, opcode.isCommutative →
        ExpressionKey.of opcode lhs rhs = ExpressionKey.of opcode rhs lhs := by
  refine ⟨length_reuseFrom [] code, fun position => ⟨exists_repeats_of_ne, ?_⟩, ?_, ?_⟩
  · rintro ⟨target, start, held, repeated⟩ same
    obtain ⟨opcode, lhs, rhs, found, _, _⟩ := repeated.operation
    cases (repeated.getElem?_eq.symm.trans same).trans found
  · intro position target start held repeated
    exact ⟨repeated.getElem?_eq, fun _ _ _ again => (repeated.unique again).1⟩
  · intro opcode lhs rhs commutes
    exact ExpressionKey.of_comm commutes lhs rhs

/-- A sum is computed three times, and an operand is written before the third. -/
def reassigning : List Instruction :=
  [.binary .add 1 (.variable "a") (.variable "b"), .binary .add 2 (.variable "b") (.variable "a"),
    .assign (.variable "a") (.temporary 2), .binary .add 3 (.variable "a") (.variable "b")]

/-- The second sum repeats the first and becomes a copy.  The third repeats nothing. -/
theorem getElem?_reuseHeld_reassigning :
    (Repeats reassigning (reuseHeld reassigning) 1 2 0
        ⟨⟨.add, "a", "b"⟩, .variable "a", .variable "b", 1⟩ ∧
      (reuseHeld reassigning)[1]? = some (.assign (.temporary 2) (.temporary 1))) ∧
      ¬ ∃ target start held, Repeats reassigning (reuseHeld reassigning) 3 target start held := by
  obtain ⟨_, changes, copies, _⟩ := getElem?_reuseHeld_ne_iff reassigning
  have repeated : Repeats reassigning (reuseHeld reassigning) 1 2 0
      ⟨⟨.add, "a", "b"⟩, .variable "a", .variable "b", 1⟩ :=
    ⟨⟨.add, .variable "b", .variable "a", rfl, rfl, by decide⟩, by decide,
      ⟨_, rfl, rfl, by decide, by decide⟩, fun between behind front => by omega⟩
  exact ⟨⟨repeated, (copies _ _ _ _ repeated).1⟩,
    fun again => (changes 3).mpr again (by decide)⟩

end Pass

end BanglaScript
