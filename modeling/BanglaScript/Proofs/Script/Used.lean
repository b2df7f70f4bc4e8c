import BanglaScript.Proofs.Script.Progress

/-!
# What nodes use

A node uses some names directly, and others in its functions.  What it uses is a
variable that it mentions, or a temporary.
-/

namespace BanglaScript

open List

variable {operands : List Operand}

namespace Emit

/-- The names of the uses that do not stand in a nested function, in order. -/
def directNames (uses : List NameUse) : List String :=
  (uses.filter NameUse.isDirect).map NameUse.name

theorem directNames_append (first second : List NameUse) :
    directNames (first ++ second) = directNames first ++ directNames second := by
  rw [directNames, filter_append, map_append]
  rfl

@[simp]
theorem directNames_ofReads (path : List Nat) (operands : List Operand) :
    directNames (NameUse.ofReads path operands) = operands.filterMap Operand.storage? := by
  simp [directNames, NameUse.ofReads, filter_map, Function.comp_def]

@[simp]
theorem directNames_ofWrite (path : List Nat) (target : Option Place) :
    directNames (NameUse.ofWrite path target) = target.toList.map Place.text := by
  cases target <;> rfl

/-- The names of a plan are used directly in its body. -/
theorem hoisted_subset_directNames (body : List Node) (outer : List String) (level : Nat) :
    (Introductions.ofBody body outer level).hoisted ⊆
      directNames ((NameUse.ofNodes level [] body).run 0).1 := by
  intro name hoisted
  obtain ⟨⟨use, member, rfl, direct⟩, _⟩ := Introductions.mem_ofUses.1.mp hoisted
  exact mem_map.mpr ⟨use, mem_filter.mpr ⟨(mem_filter.mp member).1, direct⟩, rfl⟩

end Emit

/-! ## What nodes mention -/

/-- A name by which a variable cannot be mistaken for anything else. -/
structure IsOwnName (name : String) : Prop where
  notTruth : ¬ IsTruth name
  notTemporary : ∀ number, name ≠ (Place.temporary number).text
  notSlot : ∀ depth index, name ≠ slotName depth index

namespace IsOwnName

variable {name : String}

theorem not_mem_slots (own : IsOwnName name) (depth parameters : Nat) :
    name ∉ Node.slots depth parameters := by
  intro member
  obtain ⟨index, _, same⟩ := mem_map.mp member
  exact own.notSlot depth index same.symm

/-- Only a variable is read under the name. -/
theorem mem_variables (own : IsOwnName name) (member : name ∈ operands.filterMap Operand.storage?) :
    name ∈ operands.filterMap Operand.variable? := by
  obtain ⟨operand, operandMem, stored⟩ := mem_filterMap.mp member
  cases operand with
  | «variable» => exact mem_filterMap.mpr ⟨_, operandMem, stored⟩
  | temporary number => exact absurd (Option.some.inj stored).symm (own.notTemporary number)
  | number | string => cases stored

/-- Only a variable is written under the name. -/
theorem eq_variable (own : IsOwnName name) {target : Place} (same : target.text = name) :
    target = .variable name := by
  cases target with
  | «variable» => exact congrArg Place.variable same
  | temporary number => exact absurd same.symm (own.notTemporary number)

/-- Temporaries, slots and truth values are told by their first letters. -/
theorem of_toList_eq {first : Char} {rest : List Char} (spelled : name.toList = first :: rest)
    (notT : first ≠ 't') (notF : first ≠ 'f') (notP : first ≠ 'p') : IsOwnName name := by
  constructor
  · rintro (rfl | rfl)
    · exact notT (List.cons.inj spelled).1.symm
    · exact notF (List.cons.inj spelled).1.symm
  · rintro number rfl
    have temporary : (Place.temporary number).text.toList = 't' :: Nat.toDigits 10 number := by
      simp [Place.text, toString]
    exact notT (List.cons.inj (spelled.symm.trans temporary)).1
  · rintro depth index rfl
    have slot : ∃ rest, (slotName depth index).toList = 'p' :: rest := by
      unfold slotName
      split <;> exact ⟨_, by simp; rfl⟩
    obtain ⟨_, slot⟩ := slot
    exact notP (List.cons.inj (spelled.symm.trans slot)).1

end IsOwnName

namespace NameUse

variable {name : String} {path : List Nat} {use : NameUse}

theorem mem_variables_of_mem_ofReads (own : IsOwnName name) (member : use ∈ ofReads path operands)
    (named : use.name = name) : name ∈ operands.filterMap Operand.variable? := by
  obtain ⟨_, otherMem, rfl⟩ := mem_map.mp member
  exact own.mem_variables (named ▸ otherMem)

theorem mem_variable?_of_mem_ofWrite (own : IsOwnName name) {target : Option Place}
    (member : use ∈ ofWrite path target) (named : use.name = name) :
    name ∈ (target.bind Place.variable?).toList := by
  obtain ⟨_, placeMem, rfl⟩ := mem_map.mp member
  rw [Option.mem_toList.mp placeMem, own.eq_variable named]
  exact mem_singleton.mpr rfl

mutual

/-- A node mentions the variables that it uses. -/
theorem mem_mentioned (own : IsOwnName name) (code : Node) {level : Nat} {path : List Nat}
    {count : Nat} {use : NameUse} (member : use ∈ ((ofNode level path code).run count).1)
    (named : use.name = name) : name ∈ Node.mentioned level code := by
  have read {path : List Nat} {condition : Operand} (member : use ∈ ofReads path [condition]) :
      name ∈ condition.variable?.toList := by
    simpa using mem_variables_of_mem_ofReads own member named
  cases code with
  | simple =>
    rcases mem_append.mp member with read | written
    · exact mem_append_left _ (mem_variables_of_mem_ofReads own read named)
    · exact mem_append_right _ (mem_variable?_of_mem_ofWrite own written named)
  | call callee arguments result =>
    rcases mem_append.mp member with read | written
    · exact mem_variables_of_mem_ofReads own read named
    · have none := mem_variable?_of_mem_ofWrite own written named
      cases result <;> cases none
  | ifThen condition body =>
    rw [run_ifThen] at member
    rcases mem_append.mp member with test | inside
    · exact mem_append_left _ (read test)
    · exact mem_append_right _ (mem_mentionedAll own body inside named)
  | ifElse condition body alternative =>
    rw [run_ifElse] at member
    rcases mem_append.mp member with before | otherwise
    · rcases mem_append.mp before with test | inside
      · exact mem_append_left _ (mem_append_left _ (read test))
      · exact mem_append_left _
          (mem_append_right _ (mem_mentionedAll own body inside named))
    · exact mem_append_right _ (mem_mentionedAll own alternative otherwise named)
  | loop before condition body =>
    rw [run_loop] at member
    rcases mem_append.mp member with start | inside
    · rcases mem_append.mp start with first | test
      · exact mem_append_left _
          (mem_append_left _ (mem_mentionedAll own before first named))
      · exact mem_append_left _ (mem_append_right _ (read test))
    · exact mem_append_right _ (mem_mentionedAll own body inside named)
  | function =>
    obtain ⟨_, otherMem, rfl⟩ := mem_map.mp member
    exact named ▸ mem_eraseDups.mp otherMem
  | unstructured => cases member

theorem mem_mentionedAll (own : IsOwnName name) (code : List Node) {level : Nat}
    {path : List Nat} {count : Nat} {use : NameUse}
    (member : use ∈ ((ofNodes level path code).run count).1) (named : use.name = name) :
    name ∈ Node.mentionedAll level code := by
  cases code with
  | nil => cases member
  | cons first rest =>
    rw [run_cons] at member
    rcases mem_append.mp member with here | later
    · exact mem_append_left _ (mem_mentioned own first here named)
    · exact mem_append_right _ (mem_mentionedAll own rest later named)

end

end NameUse

end BanglaScript
