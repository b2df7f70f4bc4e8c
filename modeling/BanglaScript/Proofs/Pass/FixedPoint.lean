import BanglaScript.Proofs.Lowering.Mentioned
import BanglaScript.Proofs.Pass.DeadCode
import BanglaScript.Proofs.Pass.Fold
import BanglaScript.Proofs.Pass.Held
import BanglaScript.Proofs.Pass.Strength

/-!
# One run of the optimizer is enough

What a pass leaves has a normal form: nothing is left to fold, every assignment
to a temporary is read or copies a temporary, no operation has a value that is
held, and no product or quotient with a power of two is left.  Code in the
normal form of a pass is not changed by it, so every pass is idempotent.

The passes behind constant folding keep its normal form, and so on.  For dead
code this needs the code of a program.  There a temporary is written once and
read behind its write, so what still reads a temporary with a known number is no
operation, and no later pass takes the reading away.
-/

namespace BanglaScript

open List

namespace Instruction

variable {instruction : Instruction}

/-- The temporary to which the instruction assigns a number. -/
def numbered? : Instruction → Option Nat
  | .assign (.temporary number) (.number _) => some number
  | _ => none

/-- The instruction is an operation whose value can be held. -/
def isArithmetic : Instruction → Bool
  | .binary opcode _ _ _ => opcode.isArithmetic
  | _ => false

theorem eq_binary_of_isArithmetic (arithmetic : instruction.isArithmetic = true) :
    ∃ opcode target lhs rhs, instruction = .binary opcode target lhs rhs := by
  cases instruction with
  | binary opcode target lhs rhs => exact ⟨opcode, target, lhs, rhs, rfl⟩
  | _ => cases arithmetic

theorem eq_assign_of_numbered? {number : Nat} (numbered : instruction.numbered? = some number) :
    ∃ value, instruction = .assign (.temporary number) (.number value) := by
  unfold numbered? at numbered
  split at numbered
  · cases numbered
    exact ⟨_, rfl⟩
  · cases numbered

/-- The instruction computes a value from the temporary. -/
def ComputesFrom (instruction : Instruction) (number : Nat) : Prop :=
  instruction.computed? ≠ none ∧ .temporary number ∈ instruction.reads

end Instruction

namespace Pass

variable {opcode : Opcode} {code result : List Instruction} {instruction : Instruction}
  {number last : Nat}

/-! ## Constant folding -/

/-- No operation has a finite value that is known, and nothing is computed from
a temporary to which a number has been assigned before. -/
structure IsFolded (code : List Instruction) : Prop where
  unknown : ∀ ⦃opcode target lhs rhs⦄, .binary opcode target lhs rhs ∈ code →
    foldedValue? opcode lhs rhs = none
  apart : code.Pairwise fun earlier later =>
    ∀ number, earlier.numbered? = some number → ¬ later.ComputesFrom number

/-- Nothing is computed from a temporary that the table knows. -/
def Constants.AreUnused (constants : Constants) (code : List Instruction) : Prop :=
  ∀ ⦃number value⦄, (number, value) ∈ constants →
    ∀ instruction ∈ code, ¬ instruction.ComputesFrom number

section Fold

variable {constants : Constants} {folded : Instruction} {value : Number}

theorem mem_of_lookup (found : constants.lookup number = some value) :
    (number, value) ∈ constants := by
  obtain ⟨_, _, rfl, -⟩ := lookup_eq_some_iff.mp found
  exact mem_append_right _ mem_cons_self

theorem substitute_eq_self {operand : Operand}
    (unused : ∀ ⦃number value⦄, (number, value) ∈ constants → operand ≠ .temporary number) :
    constants.substitute operand = operand := by
  cases operand with
  | temporary number =>
    rw [Constants.substitute]
    cases found : constants.lookup number with
    | none => rfl
    | some => exact absurd rfl (unused (mem_of_lookup found))
  | _ => rfl

/-- Substitution leaves no known temporary. -/
theorem substitute_ne (known : (number, value) ∈ constants) (operand : Operand) :
    constants.substitute operand ≠ .temporary number := by
  cases operand with
  | temporary other =>
    rw [Constants.substitute]
    cases found : constants.lookup other with
    | none =>
      intro same
      cases same
      exact bne_iff_ne.mp (lookup_eq_none_iff.mp found _ known) rfl
    | some => rintro ⟨⟩
  | _ => rintro ⟨⟩

/-- An instruction stays if its operands are not known. -/
theorem Folds.eq_self (folds : Folds constants instruction folded)
    (unused : constants.AreUnused [instruction])
    (unknown : ∀ ⦃opcode target lhs rhs⦄, instruction = .binary opcode target lhs rhs →
      foldedValue? opcode lhs rhs = none) :
    folded = instruction := by
  have stays {operand : Operand} (reads : operand ∈ instruction.reads)
      (computed : instruction.computed? ≠ none) : constants.substitute operand = operand :=
    substitute_eq_self fun number value known same =>
      unused known instruction (mem_singleton_self _) ⟨computed, same ▸ reads⟩
  cases folds with
  | evaluate target known =>
    rw [stays mem_cons_self nofun, stays (mem_cons_of_mem _ (mem_singleton_self _)) nofun,
      unknown rfl] at known
    cases known
  | operate target lhs rhs =>
    rw [stays mem_cons_self nofun, stays (mem_cons_of_mem _ (mem_singleton_self rhs)) nofun]
  | assign target value => rw [stays (mem_singleton_self value) nofun]
  | keep => rfl

/-- Code in normal form stays, whatever temporaries are known that it does not
compute from. -/
theorem foldFrom_eq_self (folded : IsFolded code) (unused : constants.AreUnused code) :
    foldFrom constants code = code := by
  induction code generalizing constants with
  | nil => rfl
  | cons first rest ih =>
    obtain ⟨apart, restApart⟩ := pairwise_cons.mp folded.apart
    have stays : (foldStep constants first).1 = first := by
      have folds := folds_foldStep constants first
      refine folds.eq_self (fun number value known instruction member => ?_) ?_
      · rw [mem_singleton.mp member]
        exact unused known first mem_cons_self
      · rintro opcode target lhs rhs rfl
        exact folded.unknown mem_cons_self
    have restFolded : IsFolded rest :=
      ⟨fun _ _ _ _ member => folded.unknown (mem_cons_of_mem _ member), restApart⟩
    refine congrArg₂ List.cons stays (ih restFolded ?_)
    intro number value known instruction member
    rcases mem_foldStep_iff.mp known with older | learned
    · exact unused older instruction (mem_cons_of_mem _ member)
    · rw [stays] at learned
      exact apart instruction member number (learned ▸ rfl)

theorem foldConstants_eq_self (folded : IsFolded code) : foldConstants code = code :=
  foldFrom_eq_self folded nofun

/-- A folded instruction computes nothing from known temporaries. -/
theorem Folds.not_computesFrom (folds : Folds constants instruction folded)
    (known : (number, value) ∈ constants) : ¬ folded.ComputesFrom number := by
  rintro ⟨computed, reads⟩
  cases folds with
  | evaluate => exact absurd (mem_singleton.mp reads) nofun
  | operate target lhs rhs =>
    rcases mem_cons.mp reads with same | later
    · exact substitute_ne known lhs same.symm
    · exact substitute_ne known rhs (mem_singleton.mp later).symm
  | assign target value => exact substitute_ne known value (mem_singleton.mp reads).symm
  | keep other => exact computed other

/-- An operation that is not folded has no known value. -/
theorem Folds.foldedValue?_eq_none {target : Nat} {lhs rhs : Operand}
    (folds : Folds constants instruction (.binary opcode target lhs rhs)) :
    foldedValue? opcode lhs rhs = none := by
  cases folds with
  | operate _ _ _ unknown => exact unknown
  | keep other => cases other

theorem isFolded_foldFrom (constants : Constants) (code : List Instruction) :
    IsFolded (foldFrom constants code) ∧ constants.AreUnused (foldFrom constants code) := by
  induction code generalizing constants with
  | nil =>
    refine ⟨⟨fun _ _ _ _ member => ?_, .nil⟩, fun _ _ _ => forall_mem_nil _⟩
    exact absurd member not_mem_nil
  | cons first rest ih =>
    obtain ⟨folded, unused⟩ := ih (foldStep constants first).2
    refine ⟨⟨?_, pairwise_cons.mpr ⟨?_, folded.apart⟩⟩, ?_⟩
    · intro opcode target lhs rhs member
      rcases mem_cons.mp member with here | later
      · exact Folds.foldedValue?_eq_none (here ▸ folds_foldStep constants first)
      · exact folded.unknown later
    · intro later member number numbered
      obtain ⟨value, assigned⟩ := Instruction.eq_assign_of_numbered? numbered
      exact unused (mem_foldStep_iff.mpr (.inr assigned)) later member
    · intro number value known instruction member
      rcases mem_cons.mp member with rfl | later
      · exact (folds_foldStep constants first).not_computesFrom known
      · exact unused (mem_foldStep_iff.mpr (.inl known)) instruction later

end Fold

/-! ## Common subexpressions -/

namespace Available

variable {fewer available : Available}

theorem forget_subset (subset : fewer ⊆ available) (place : Place) :
    fewer.forget place ⊆ available.forget place :=
  filter_subset _ subset

theorem subset_remember (opcode : Opcode) (lhs rhs : Operand) (result : Nat) :
    available ⊆ available.remember opcode lhs rhs result := by
  unfold remember
  dsimp only
  split
  · exact List.Subset.refl _
  · exact subset_cons_self _ _

theorem remember_subset (subset : fewer ⊆ available) (opcode : Opcode) (lhs rhs : Operand)
    (result : Nat) :
    fewer.remember opcode lhs rhs result ⊆ available.remember opcode lhs rhs result := by
  unfold remember
  dsimp only
  split
  · exact subset
  · exact cons_subset_cons _ subset

theorem after_subset (subset : fewer ⊆ available) (instruction : Instruction) :
    fewer.after instruction ⊆ available.after instruction := by
  unfold after
  split
  case h_5 =>
    split
    · exact forget_subset subset _
    · exact subset
  all_goals exact nil_subset _

theorem find?_eq_none_of_subset (subset : fewer ⊆ available) {key : ExpressionKey}
    (absent : available.find? key = none) : fewer.find? key = none := by
  rw [find?, Option.map_eq_none_iff, find?_eq_none] at absent ⊢
  exact fun held member => absent held (subset member)

end Available

/-- No operation has a value that is held when the code is passed. -/
def IsReused : Available → List Instruction → Prop
  | _, [] => True
  | available, first :: rest =>
    (reuseStep available first).1 = first ∧ IsReused (reuseStep available first).2 rest

section Reuse

variable {fewer available : Available}

theorem reuseFrom_cons (available : Available) (first : Instruction) (rest : List Instruction) :
    reuseFrom available (first :: rest) =
      (reuseStep available first).1 :: reuseFrom (reuseStep available first).2 rest :=
  rfl

theorem reuseFrom_eq_self (reused : IsReused available code) : reuseFrom available code = code := by
  induction code generalizing available with
  | nil => rfl
  | cons first rest ih => rw [reuseFrom_cons, reused.1, ih reused.2]

theorem reuseStep_reuseStep (available : Available) (instruction : Instruction) :
    reuseStep available (reuseStep available instruction).1 = reuseStep available instruction := by
  rcases reuseStep_cases available instruction with
    stays | ⟨opcode, target, lhs, rhs, rfl, ⟨result, _, copied⟩ | remembered⟩
  · rw [stays, stays]
  · rw [copied]
    rfl
  · rw [remembered, remembered]

theorem isReused_reuseFrom (available : Available) (code : List Instruction) :
    IsReused available (reuseFrom available code) := by
  induction code generalizing available with
  | nil => trivial
  | cons first rest ih =>
    have same := reuseStep_reuseStep available first
    rw [reuseFrom_cons, IsReused, same]
    exact ⟨rfl, ih _⟩

theorem reuseStep_of_plain (available : Available) (plain : instruction.isArithmetic = false) :
    reuseStep available instruction = (instruction, available.after instruction) := by
  cases instruction with
  | binary => exact if_neg (Bool.eq_false_iff.mp plain)
  | _ => rfl

/-- An instruction that stays with all that is held stays with less. -/
theorem reuseStep_mono (subset : fewer ⊆ available)
    (stays : (reuseStep available instruction).1 = instruction) :
    (reuseStep fewer instruction).1 = instruction ∧
      (reuseStep fewer instruction).2 ⊆ (reuseStep available instruction).2 := by
  by_cases arithmetic : instruction.isArithmetic = true
  · obtain ⟨opcode, _, lhs, rhs, rfl⟩ := Instruction.eq_binary_of_isArithmetic arithmetic
    have operation : opcode.isArithmetic = true := arithmetic
    cases found : available.find? (ExpressionKey.of opcode lhs rhs) with
    | some =>
      simp only [reuseStep, if_pos operation, found] at stays
      cases stays
    | none =>
      have absent := Available.find?_eq_none_of_subset subset found
      simp only [reuseStep, if_pos operation, found, absent, true_and]
      exact Available.remember_subset (Available.forget_subset subset _) _ _ _ _
  · have plain := Bool.eq_false_iff.mpr arithmetic
    rw [reuseStep_of_plain fewer plain, reuseStep_of_plain available plain]
    exact ⟨rfl, Available.after_subset subset _⟩

/-- What is written is forgotten, whatever else happens. -/
theorem forget_subset_reuseStep (opcode : Opcode) (target : Nat) (lhs rhs : Operand) :
    available.forget (.temporary target) ⊆
      (reuseStep available (.binary opcode target lhs rhs)).2 := by
  rcases reuseStep_cases available (.binary opcode target lhs rhs) with
    stays | ⟨_, _, _, _, same, ⟨result, _, copied⟩ | remembered⟩
  · rw [stays]
    exact List.Subset.refl _
  · cases same
    rw [copied]
    exact List.Subset.refl _
  · cases same
    rw [remembered]
    exact Available.subset_remember _ _ _ _

/-- Shifts are not remembered, so less is held behind them. -/
theorem IsReused.shiftPowers (reused : IsReused available code) (subset : fewer ⊆ available) :
    IsReused fewer (shiftPowers code) := by
  induction code generalizing fewer available with
  | nil => trivial
  | cons first rest ih =>
    obtain ⟨stays, restReused⟩ := reused
    rw [Pass.shiftPowers, map_cons, IsReused]
    rcases shiftStep_cases first with
      same | ⟨opcode, shift, target, lhs, value, exponent, rfl, isShift, _, shifted⟩
    · obtain ⟨staysToo, restSubset⟩ := reuseStep_mono subset stays
      rw [same]
      exact ⟨staysToo, ih restReused restSubset⟩
    · have plain :
          (shiftStep (.binary opcode target lhs (.number value))).isArithmetic = false := by
        rw [shifted]
        cases opcode <;> cases isShift <;> rfl
      rw [reuseStep_of_plain fewer plain, shifted]
      refine ⟨rfl, ih restReused (List.Subset.trans ?_ (forget_subset_reuseStep _ _ _ _))⟩
      exact Available.forget_subset subset _

end Reuse

/-! ## Strength reduction -/

theorem shiftStep_shiftStep (instruction : Instruction) :
    shiftStep (shiftStep instruction) = shiftStep instruction := by
  rcases shiftStep_cases instruction with
    same | ⟨opcode, shift, target, lhs, value, exponent, rfl, isShift, _, shifted⟩
  · rw [same, same]
  · rw [shifted]
    cases opcode <;> cases isShift <;> rfl

theorem shiftPowers_shiftPowers (code : List Instruction) :
    shiftPowers (shiftPowers code) = shiftPowers code := by
  rw [shiftPowers, shiftPowers, map_map]
  exact map_congr_left fun instruction _ => shiftStep_shiftStep instruction

/-! ## Dead code -/

section Dead

variable {other : List Instruction}

theorem isRead_iff : isRead code number ↔
    ∃ instruction ∈ code, .temporary number ∈ instruction.reads := by
  have reads (operand : Operand) :
      operand.readsPlace (.temporary number) = true ↔ operand = .temporary number := by
    cases operand <;> simp [Operand.readsPlace, Operand.place?]
  simp only [isRead, Instruction.readsPlace, any_eq_true, reads, exists_eq_right]

/-- Readings of temporaries stay, since copies of a temporary do. -/
theorem isRead_dropUnread (read : isRead code number) : isRead (dropUnread code) number := by
  obtain ⟨reader, member, reads⟩ := isRead_iff.mp read
  refine isRead_iff.mpr ⟨reader, mem_filter.mpr ⟨member, ?_⟩, reads⟩
  cases live : isLive code reader with
  | true => rfl
  | false =>
    obtain ⟨_, _, rfl⟩ := eq_assign_of_not_isLive live
    cases mem_singleton.mp reads
    simp [isLive, Operand.temporary?] at live

theorem isLive_mono (live : isLive code instruction)
    (reads : ∀ number, isRead code number → isRead other number) : isLive other instruction := by
  unfold isLive at live ⊢
  split at live
  · exact decide_eq_true ((of_decide_eq_true live).imp_left (reads _))
  · rfl

theorem dropUnread_dropUnread (code : List Instruction) :
    dropUnread (dropUnread code) = dropUnread code :=
  filter_eq_self.mpr fun _ member =>
    isLive_mono (mem_filter.mp member).2 fun _ => isRead_dropUnread

end Dead

/-- Every pass is idempotent, whatever the code. -/
theorem run_run (pass : Pass) (code : List Instruction) :
    pass.run (pass.run code) = pass.run code := by
  cases pass with
  | constantFolding => exact foldConstants_eq_self (isFolded_foldFrom [] code).1
  | deadCode => exact dropUnread_dropUnread code
  | reuse => exact reuseFrom_eq_self (isReused_reuseFrom [] code)
  | strength => exact shiftPowers_shiftPowers code

/-! ## What later passes keep -/

/-- Shifts are not evaluated. -/
theorem foldedValue?_shift {shift : Opcode} (isShift : shift? opcode = some shift)
    (lhs rhs : Operand) : foldedValue? shift lhs rhs = none := by
  have unevaluated (left right : Number) : shift.evaluate left right = none := by
    cases opcode <;> cases isShift <;> rfl
  unfold foldedValue?
  cases lhs.number? <;> cases rhs.number? <;> simp [unevaluated]

theorem numbered?_shiftStep (numbered : (shiftStep instruction).numbered? = some number) :
    instruction.numbered? = some number := by
  rcases shiftStep_cases instruction with same | ⟨_, _, _, _, _, _, _, _, _, shifted⟩
  · rwa [same] at numbered
  · rw [shifted] at numbered
    cases numbered

theorem computesFrom_of_shiftStep (computes : (shiftStep instruction).ComputesFrom number) :
    instruction.ComputesFrom number := by
  rcases shiftStep_cases instruction with
    same | ⟨_, _, _, _, _, _, rfl, _, _, shifted⟩
  · rwa [same] at computes
  · rw [shifted] at computes
    rcases mem_cons.mp computes.2 with left | right
    · exact ⟨nofun, mem_cons.mpr (.inl left)⟩
    · exact absurd (mem_singleton.mp right) nofun

/-- An instruction stays in its place, or the result of an operation of the code is
copied there. -/
theorem getElem?_reuseHeld {position : Nat}
    (found : (reuseHeld code)[position]? = some instruction) :
    code[position]? = some instruction ∨
      ∃ target opcode result lhs rhs,
        instruction = .assign (.temporary target) (.temporary result) ∧
          .binary opcode result lhs rhs ∈ code := by
  rw [reuseHeld, getElem?_reuseFrom] at found
  obtain ⟨original, originalFound, rfl⟩ := Option.map_eq_some_iff.mp found
  rcases reuseStep_cases (heldBefore code position) original with
    stays | ⟨opcode, target, lhs, rhs, rfl, ⟨result, held, copied⟩ | remembered⟩
  · exact .inl (originalFound.trans (congrArg some (congrArg Prod.fst stays).symm))
  · obtain ⟨entry, entryFound, rfl⟩ := Option.map_eq_some_iff.mp held
    obtain ⟨operation, _, member⟩ :=
      comesFrom_of_mem_heldBefore (mem_of_find?_eq_some entryFound)
    exact .inr ⟨target, operation, entry.result, entry.lhs, entry.rhs, congrArg Prod.fst copied,
      member⟩
  · exact .inl (originalFound.trans (congrArg some (congrArg Prod.fst remembered).symm))

namespace IsFolded

/-- Nothing behind the assignment of a number computes from its temporary. -/
theorem not_computesFrom (folded : IsFolded code) {first second : Nat}
    {earlier later : Instruction} (ordered : first < second)
    (earlierFound : code[first]? = some earlier) (laterFound : code[second]? = some later)
    (numbered : earlier.numbered? = some number) :
    ¬ later.ComputesFrom number := by
  obtain ⟨firstInside, rfl⟩ := List.getElem?_eq_some_iff.mp earlierFound
  obtain ⟨secondInside, rfl⟩ := List.getElem?_eq_some_iff.mp laterFound
  exact pairwise_iff_getElem.mp folded.apart first second firstInside secondInside ordered
    number numbered

theorem sublist {part : List Instruction} (folded : IsFolded code) (sublist : part.Sublist code) :
    IsFolded part :=
  ⟨fun _ _ _ _ member => folded.unknown (sublist.subset member), folded.apart.sublist sublist⟩

theorem shiftPowers (folded : IsFolded code) : IsFolded (shiftPowers code) where
  unknown := by
    intro opcode target lhs rhs member
    obtain ⟨instruction, found, same⟩ := mem_map.mp member
    rcases shiftStep_cases instruction with
      stays | ⟨_, shift, _, _, _, _, _, isShift, _, shifted⟩
    · exact folded.unknown (stays.symm.trans same ▸ found)
    · cases shifted.symm.trans same
      exact foldedValue?_shift isShift _ _
  apart := by
    refine pairwise_map.mpr (folded.apart.imp fun apart number numbered computes => ?_)
    exact apart number (numbered?_shiftStep numbered) (computesFrom_of_shiftStep computes)

/-- A copy is taken from the result of an operation, which no number has been
assigned to. -/
theorem reuseHeld (folded : IsFolded code) (distinct : (Code.writtenTemporaries code).Nodup) :
    IsFolded (reuseHeld code) where
  unknown := by
    intro opcode target lhs rhs member
    obtain ⟨_, found⟩ := getElem?_of_mem member
    rcases getElem?_reuseHeld found with stays | ⟨_, _, _, _, _, copied, _⟩
    · exact folded.unknown (mem_of_getElem? stays)
    · cases copied
  apart := by
    rw [pairwise_iff_getElem]
    intro first second firstInside secondInside ordered number numbered computes
    have earlier := getElem?_eq_getElem firstInside
    have later := getElem?_eq_getElem secondInside
    rcases getElem?_reuseHeld earlier with assigned | ⟨_, _, _, _, _, copied, _⟩
    · rcases getElem?_reuseHeld later with
        stays | ⟨target, opcode, result, lhs, rhs, copied, operated⟩
      · exact folded.not_computesFrom ordered assigned stays numbered computes
      · obtain ⟨_, assignment⟩ := Instruction.eq_assign_of_numbered? numbered
        rw [copied] at computes
        cases mem_singleton.mp computes.2
        rw [assignment] at assigned
        cases Code.eq_of_nodup_writtenTemporaries distinct (mem_of_getElem? assigned) operated
          rfl rfl
    · rw [copied] at numbered
      cases numbered

end IsFolded

/-- Every rewriting writes some of the temporaries, in the same order. -/
theorem Rewrites.writtenTemporaries_sublist (rewrites : Rewrites code result) :
    (Code.writtenTemporaries result).Sublist (Code.writtenTemporaries code) := by
  have split (first : Instruction) (rest : List Instruction) :
      Code.writtenTemporaries (first :: rest) =
        Code.writtenTemporaries [first] ++ Code.writtenTemporaries rest :=
    Code.writtenTemporaries_append [first] rest
  have computed {instruction : Instruction} {place : Place}
      (here : instruction.computed? = some place) :
      Code.writtenTemporaries [instruction] = place.temporary?.toList := by
    cases instruction <;> cases here <;> rfl
  induction rewrites with
  | nil => exact List.Sublist.refl _
  | @keep code result kept rest ih =>
    rw [split kept result, split kept code]
    exact (List.Sublist.refl _).append ih
  | @compute code result first second place firstPlace secondPlace rest ih =>
    rw [split second result, split first code, computed secondPlace, computed firstPlace]
    exact (List.Sublist.refl _).append ih
  | drop temporary value rest ih =>
    rw [split]
    exact ih.trans (sublist_append_right _ _)

/-- Folding adds no reading of a temporary. -/
theorem Folds.mem_reads {constants : Constants} {folded : Instruction}
    (folds : Folds constants instruction folded) (reads : .temporary number ∈ folded.reads) :
    .temporary number ∈ instruction.reads := by
  have same {operand : Operand} (substituted : .temporary number = constants.substitute operand) :
      .temporary number = operand := by
    cases operand with
    | temporary =>
      rw [Constants.substitute] at substituted
      split at substituted
      · cases substituted
      · exact substituted
    | _ => exact substituted
  cases folds with
  | evaluate => cases mem_singleton.mp reads
  | operate =>
    rcases mem_cons.mp reads with left | right
    · exact mem_cons.mpr (.inl (same left))
    · exact mem_cons_of_mem _ (mem_singleton.mpr (same (mem_singleton.mp right)))
  | assign => exact mem_singleton.mpr (same (mem_singleton.mp reads))
  | keep => exact reads

/-- In code that assigns variables only, folding assigns numbers to temporaries. -/
theorem Folds.exists_number {constants : Constants} {value : Operand}
    (plain : instruction.assignsTemporary = false)
    (folds : Folds constants instruction (.assign (.temporary number) value)) :
    ∃ constant, value = .number constant := by
  cases folds with
  | evaluate => exact ⟨_, rfl⟩
  | assign => cases plain
  | keep other => cases other

/-- In the folded code of a program, what reads a temporary with a known number
computes nothing. -/
theorem computed?_eq_none_of_reads {value : Operand} {reader : Instruction}
    (orderly : Code.IsOrderly 0 code last)
    (plain : Code.AssignsVariables code)
    (assigned : .assign (.temporary number) value ∈ foldConstants code)
    (member : reader ∈ foldConstants code) (reads : .temporary number ∈ reader.reads) :
    reader.computed? = none := by
  have original {position : Nat} {folded : Instruction}
      (found : (foldConstants code)[position]? = some folded) :
      ∃ instruction, code[position]? = some instruction ∧
        (foldStep (constantsBefore code position) instruction).1 = folded := by
    rw [foldConstants, getElem?_foldFrom] at found
    exact Option.map_eq_some_iff.mp found
  obtain ⟨_, firstFound⟩ := getElem?_of_mem assigned
  obtain ⟨_, secondFound⟩ := getElem?_of_mem member
  obtain ⟨source, sourceFound, folds⟩ := original firstFound
  obtain ⟨_, rfl⟩ := Folds.exists_number (plain source (mem_of_getElem? sourceFound))
    (folds ▸ folds_foldStep _ source)
  obtain ⟨_, readerFound, rfl⟩ := original secondFound
  -- The temporary is read behind its only write, which is the folded one.
  obtain ⟨_, _, ordered, writerFound, writes, _⟩ :=
    orderly.settled.exists_write readerFound ((folds_foldStep _ _).mem_reads reads)
  obtain ⟨_, folderFound, folderWrites⟩ := FoldsTo.exists_write firstFound
  cases orderly.eq_of_writtenTemporary? folderFound writerFound folderWrites writes
  by_contra computed
  exact (isFolded_foldFrom [] code).1.not_computesFrom ordered firstFound secondFound rfl
    ⟨computed, reads⟩

/-- What is assigned behind dead code elimination was there before, or it is a
copy. -/
theorem mem_of_mem_shiftPowers_reuseHeld {target : Place} {value : Operand}
    (member : .assign target value ∈ shiftPowers (reuseHeld code))
    (other : value.temporary? = none) : .assign target value ∈ code := by
  obtain ⟨instruction, held, same⟩ := mem_map.mp member
  rcases shiftStep_cases instruction with stays | ⟨_, _, _, _, _, _, _, _, _, shifted⟩
  · obtain ⟨_, found⟩ := getElem?_of_mem held
    rw [stays.symm.trans same] at found
    rcases getElem?_reuseHeld found with here | ⟨_, _, _, _, _, copied, _⟩
    · exact mem_of_getElem? here
    · cases copied
      cases other
  · cases shifted.symm.trans same

/-- Every assignment to a temporary that is left when all passes have run is read
or a copy. -/
theorem isLive_optimized (orderly : Code.IsOrderly 0 code last)
    (plain : Code.AssignsVariables code) :
    ∀ instruction ∈ shiftPowers (reuseHeld (dropUnread (foldConstants code))),
      isLive (shiftPowers (reuseHeld (dropUnread (foldConstants code)))) instruction := by
  intro instruction member
  cases instruction with
  | assign target value =>
    cases target with
    | «variable» => rfl
    | temporary number =>
      refine decide_eq_true ?_
      cases copied : value.temporary? with
      | some => exact .inr rfl
      | none =>
        obtain ⟨assigned, live⟩ :=
          mem_filter.mp (mem_of_mem_shiftPowers_reuseHeld member copied)
        -- A reading that computes nothing is kept by every later pass.
        have read : isRead (foldConstants code) number := by
          simpa [isLive, copied] using live
        obtain ⟨reader, readerMember, reads⟩ := isRead_iff.mp read
        have nothing := computed?_eq_none_of_reads orderly plain assigned readerMember reads
        refine .inl (isRead_iff.mpr ⟨reader, ?_, reads⟩)
        have kept (pass : Pass) (code : List Instruction) :=
          ((rewrites_run pass code).mem_iff nothing).mpr
        exact kept .strength _ (kept .reuse _ (kept .deadCode _ readerMember))
  | _ => rfl

/-- No pass changes the optimized code of a program. -/
theorem run_optimize_lower (program : Program) (pass : Pass) :
    pass.run (optimize program.lower) = optimize program.lower := by
  obtain ⟨_, orderly⟩ := isOrderly_lower program
  cases pass with
  | constantFolding =>
    have folded := (isFolded_foldFrom [] program.lower).1
    have written : (Code.writtenTemporaries program.lower).Nodup :=
      orderly.written ▸ nodup_range' 1
    have distinct : (Code.writtenTemporaries (dropUnread (foldConstants program.lower))).Nodup :=
      written.sublist ((rewrites_run .deadCode _).writtenTemporaries_sublist.trans
        (rewrites_run .constantFolding _).writtenTemporaries_sublist)
    have kept : IsFolded (dropUnread (foldConstants program.lower)) :=
      folded.sublist filter_sublist
    exact foldConstants_eq_self (kept.reuseHeld distinct).shiftPowers
  | deadCode =>
    exact filter_eq_self.mpr (isLive_optimized orderly (assignsVariables_lower program))
  | reuse =>
    have reused := isReused_reuseFrom [] (dropUnread (foldConstants program.lower))
    exact reuseFrom_eq_self (reused.shiftPowers (List.Subset.refl _))
  | strength => exact shiftPowers_shiftPowers _

theorem runAll_eq_self (passes : List Pass)
    (fixed : ∀ pass : Pass, pass.run code = code) : (runAll passes code).1 = code := by
  induction passes with
  | nil => rfl
  | cons pass rest ih =>
    change (runAll rest (pass.run code)).1 = code
    rw [fixed pass, ih]

end Pass

/-- **One run of the optimizer reaches a fixed point.**  No pass changes the
optimized code of a program, and neither does the optimizer.  Every pass by
itself is idempotent, whatever the code. -/
theorem optimize_optimize_lower (program : Program) :
    (∀ pass : Pass, pass.run (optimize program.lower) = optimize program.lower) ∧
      optimize (optimize program.lower) = optimize program.lower ∧
      ∀ (pass : Pass) (code : List Instruction), pass.run (pass.run code) = pass.run code :=
  ⟨Pass.run_optimize_lower program,
    Pass.runAll_eq_self Pass.all (Pass.run_optimize_lower program), Pass.run_run⟩

end BanglaScript
