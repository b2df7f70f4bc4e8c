import BanglaScript.Node.Recovery

/-!
# Parts of code

Code is an array, but it is built from lists that stand one behind the other.
`Holds` says where a list of instructions stands in the code; it splits along
concatenations, so a statement about a part of a list becomes one about a range
of positions.  Where no label is defined twice, the position of a label is the
place where a part defines it.
-/

namespace BanglaScript.Code

open List

variable {code : Code} {position start count label : Nat} {part instructions : List Instruction}
  {instruction : Instruction} {holds : Nat → Bool}

/-- The instructions of `part` stand in the code from `position` on. -/
def Holds (code : Code) (position : Nat) (part : List Instruction) : Prop :=
  ∀ index, index < part.length → code[position + index]? = part[index]?

@[simp]
theorem holds_nil (code : Code) (position : Nat) : code.Holds position [] := by
  intro index inside
  cases inside

theorem holds_append (code : Code) (position : Nat) (first second : List Instruction) :
    code.Holds position (first ++ second) ↔
      code.Holds position first ∧ code.Holds (position + first.length) second := by
  constructor
  · intro holds
    constructor
    · intro index inside
      have found := holds index (by simp only [length_append]; omega)
      rwa [getElem?_append_left inside] at found
    · intro index inside
      have found := holds (first.length + index) (by simp only [length_append]; omega)
      rw [getElem?_append_right (by omega), Nat.add_sub_cancel_left, ← Nat.add_assoc] at found
      exact found
  · rintro ⟨holdsFirst, holdsSecond⟩ index inside
    by_cases early : index < first.length
    · rw [getElem?_append_left early]
      exact holdsFirst index early
    · have found := holdsSecond (index - first.length)
        (by simp only [length_append] at inside; omega)
      rw [getElem?_append_right (by omega), ← found]
      congr 1
      omega

theorem holds_cons (code : Code) (position : Nat) (first : Instruction)
    (rest : List Instruction) :
    code.Holds position (first :: rest) ↔
      code[position]? = some first ∧ code.Holds (position + 1) rest := by
  rw [← singleton_append, holds_append]
  apply and_congr_left
  intro _
  constructor
  · intro holds
    exact holds 0 (by simp)
  · intro found index inside
    have isZero : index = 0 := by simpa using inside
    subst isZero
    exact found

theorem holds_singleton (code : Code) (position : Nat) (instruction : Instruction) :
    code.Holds position [instruction] ↔ code[position]? = some instruction := by
  simp [holds_cons]

/-- A list of instructions stands at the head of its own array. -/
theorem holds_toArray (instructions : List Instruction) :
    Code.Holds instructions.toArray 0 instructions := by
  intro index _
  simp

/-- What stands inside a held part stands in the part. -/
theorem Holds.mem {index : Nat} (holds : code.Holds position part)
    (found : code[index]? = some instruction) (reached : position ≤ index)
    (inside : index < position + part.length) : instruction ∈ part := by
  have part_eq := holds (index - position) (by omega)
  rw [Nat.add_sub_cancel' reached, found] at part_eq
  exact mem_of_getElem? part_eq.symm

/-- What stands in a held part stands inside its range. -/
theorem Holds.exists_position (holds : code.Holds position part) (member : instruction ∈ part) :
    ∃ index, position ≤ index ∧ index < position + part.length ∧
      code[index]? = some instruction := by
  obtain ⟨index, found⟩ := getElem?_of_mem member
  have inside := (List.getElem?_eq_some_iff.mp found).1
  exact ⟨position + index, by omega, by omega, (holds index inside).trans found⟩

/-! ## Searches -/

section

variable (reached : start ≤ position) (inside : position < start + count)
  (found : holds position = true)

include reached inside found

/-- The first position is the one that is not preceded by another. -/
theorem firstPosition?_eq_some
    (none_before : ∀ index, start ≤ index → index < position → holds index = false) :
    firstPosition? holds start count = some position := by
  induction count generalizing start with
  | zero => omega
  | succ count ih =>
    by_cases here : start = position
    · subst here
      simp [firstPosition?, found]
    · rw [firstPosition?, none_before start (Nat.le_refl _) (by omega)]
      exact ih (by omega) (by omega)
        (fun index lower upper => none_before index (by omega) upper)

/-- The last position is the one that is not followed by another. -/
theorem lastPosition?_eq_some
    (none_behind : ∀ index, position < index → index < start + count → holds index = false) :
    lastPosition? holds start count = some position := by
  induction count with
  | zero => omega
  | succ count ih =>
    by_cases here : start + count = position
    · subst here
      simp [lastPosition?, found]
    · rw [lastPosition?, none_behind (start + count) (by omega) (by omega)]
      exact ih (by omega) (fun index lower upper => none_behind index lower (by omega))

end

/-- The property holds at the last position where it is found. -/
theorem holds_of_lastPosition? (found : lastPosition? holds start count = some position) :
    holds position = true := by
  induction count with
  | zero => cases found
  | succ count ih =>
    rw [lastPosition?] at found
    split at found
    case isTrue here =>
      cases found
      exact here
    case isFalse => exact ih found

/-- Where a function ends, its end stands. -/
theorem getElem?_of_functionEnd? {name : String} {depth finish : Nat}
    (found : code.functionEnd? name depth start count = some finish) :
    code[finish]? = some (.functionEnd name) := by
  induction count generalizing depth start with
  | zero => cases found
  | succ count ih =>
    rw [functionEnd?] at found
    split at found
    case h_2 closing ended =>
      split at found
      · exact ih found
      · split at found
        case isTrue same =>
          cases found
          rw [ended, same]
        case isFalse => exact ih found
    all_goals exact ih found

/-! ## Labels -/

/-- The label stands where it is found. -/
theorem getElem?_of_labelPosition? (found : code.labelPosition? label = some position) :
    code[position]? = some (.label label) :=
  of_decide_eq_true (holds_of_lastPosition? found)

/-- The labels that instructions define, in order. -/
def definedLabels (instructions : List Instruction) : List Nat :=
  instructions.filterMap Instruction.definedLabel?

@[simp]
theorem definedLabels_nil : definedLabels [] = [] := rfl

@[simp]
theorem definedLabels_append (first second : List Instruction) :
    definedLabels (first ++ second) = definedLabels first ++ definedLabels second := by
  simp [definedLabels]

theorem mem_definedLabels :
    label ∈ definedLabels instructions ↔ Instruction.label label ∈ instructions := by
  constructor
  · intro defined
    obtain ⟨instruction, member, _⟩ := mem_filterMap.mp defined
    cases instruction <;> simp_all [Instruction.definedLabel?]
  · intro member
    exact mem_filterMap.mpr ⟨_, member, rfl⟩

/-- No label is defined at two positions. -/
def LabelsDistinct (code : Code) : Prop :=
  ∀ ⦃label first second : Nat⦄, code[first]? = some (Instruction.label label) →
    code[second]? = some (Instruction.label label) → first = second

/-- A list that defines no label twice is code with distinct labels. -/
theorem labelsDistinct_toArray (distinct : (definedLabels instructions).Nodup) :
    LabelsDistinct instructions.toArray := by
  intro label first second firstFound secondFound
  simp only [getElem?_toArray] at firstFound secondFound
  induction instructions generalizing first second with
  | nil => simp at firstFound
  | cons instruction rest ih =>
    have absent : instruction = .label label → label ∉ definedLabels rest := by
      rintro rfl
      exact (nodup_cons.mp distinct).1
    have restDistinct : (definedLabels rest).Nodup := by
      have whole := distinct
      rw [← singleton_append, definedLabels_append] at whole
      exact (nodup_append.mp whole).2.1
    cases first with
    | zero =>
      cases second with
      | zero => rfl
      | succ =>
        have member := mem_of_getElem? (by simpa using secondFound)
        exact absurd (mem_definedLabels.mpr member) (absent (by simpa using firstFound))
    | succ =>
      cases second with
      | zero =>
        have member := mem_of_getElem? (by simpa using firstFound)
        exact absurd (mem_definedLabels.mpr member) (absent (by simpa using secondFound))
      | succ =>
        rw [getElem?_cons_succ] at firstFound secondFound
        exact congrArg (· + 1) (ih restDistinct firstFound secondFound)

/-- A label that is defined once is found where it is defined. -/
theorem labelPosition?_eq_some (distinct : code.LabelsDistinct)
    (found : code[position]? = some (.label label)) :
    code.labelPosition? label = some position := by
  have inside := (Array.getElem?_eq_some_iff.mp found).1
  apply lastPosition?_eq_some (Nat.zero_le _) (by omega) (by simpa using found)
  intro index later _
  apply decide_eq_false
  intro sameLabel
  have equal := distinct found sameLabel
  omega

end BanglaScript.Code
