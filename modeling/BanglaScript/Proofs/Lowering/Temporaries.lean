import BanglaScript.Proofs.Lowering.Frame

/-!
# The temporaries of lowered programs

Lowering hands out temporaries in order and gives each to one instruction that
writes it.  A temporary is read only behind its write, and control neither comes
from elsewhere nor goes elsewhere in between.  Calls do not count here, since
they come back.

These facts are shown along the walk that lowers a program, so they are stated
for parts of code in a form that goes together with concatenation.
-/

namespace BanglaScript

open List Naming

variable {instruction : Instruction}

namespace Instruction

/-- Control comes from elsewhere or goes elsewhere. -/
def isBoundary : Instruction → Bool
  | .branch _ _ _ | .jump _ | .label _ | .functionStart _ _ | .functionEnd _ => true
  | _ => false

/-- The temporary that the instruction writes. -/
def writtenTemporary? (instruction : Instruction) : Option Nat :=
  instruction.target?.bind Place.temporary?

/-- The temporaries that have been written since the last boundary. -/
def passRecent (recent : List Nat) (instruction : Instruction) : List Nat :=
  if instruction.isBoundary then [] else instruction.writtenTemporary?.toList ++ recent

theorem passRecent_mono {first second : List Nat} (subset : first ⊆ second)
    (instruction : Instruction) : instruction.passRecent first ⊆ instruction.passRecent second := by
  unfold passRecent
  split
  · exact List.Subset.refl []
  · exact append_subset.mpr ⟨subset_append_left _ _,
      subset_append_of_subset_right _ subset⟩

theorem subset_passRecent (straight : instruction.isBoundary = false) (recent : List Nat) :
    recent ⊆ instruction.passRecent recent := by
  rw [passRecent, straight, if_neg Bool.false_ne_true]
  exact subset_append_right _ _

end Instruction

namespace Code

/-- The temporaries that instructions write, in order. -/
def writtenTemporaries (code : List Instruction) : List Nat :=
  code.filterMap Instruction.writtenTemporary?

/-- The temporaries that have been written since the last boundary, behind the
code. -/
def recentBehind (recent : List Nat) (code : List Instruction) : List Nat :=
  code.foldl Instruction.passRecent recent

/-- Every temporary that is read has been written since the last boundary. -/
def IsSettled : List Nat → List Instruction → Prop
  | _, [] => True
  | recent, first :: rest =>
    (∀ ⦃number⦄, .temporary number ∈ first.reads → number ∈ recent) ∧
      IsSettled (first.passRecent recent) rest

theorem writtenTemporaries_append (first second : List Instruction) :
    writtenTemporaries (first ++ second) = writtenTemporaries first ++ writtenTemporaries second :=
  filterMap_append

theorem recentBehind_append (recent : List Nat) (first second : List Instruction) :
    recentBehind recent (first ++ second) = recentBehind (recentBehind recent first) second :=
  foldl_append

theorem recentBehind_mono {first second : List Nat} (subset : first ⊆ second)
    (code : List Instruction) : recentBehind first code ⊆ recentBehind second code := by
  induction code generalizing first second with
  | nil => exact subset
  | cons instruction rest ih => exact ih (Instruction.passRecent_mono subset instruction)

theorem subset_recentBehind {code : List Instruction}
    (straight : ∀ instruction ∈ code, instruction.isBoundary = false) (recent : List Nat) :
    recent ⊆ recentBehind recent code := by
  induction code generalizing recent with
  | nil => exact List.Subset.refl recent
  | cons instruction rest ih =>
    have here := Instruction.subset_passRecent (straight instruction mem_cons_self) recent
    exact List.Subset.trans here
      (ih (fun other member => straight other (mem_cons_of_mem _ member)) _)

theorem isSettled_append {recent : List Nat} {first second : List Instruction} :
    IsSettled recent (first ++ second) ↔
      IsSettled recent first ∧ IsSettled (recentBehind recent first) second := by
  induction first generalizing recent with
  | nil => exact (true_and _).symm ▸ Iff.rfl
  | cons instruction rest ih =>
    rw [cons_append, IsSettled, IsSettled, ih, and_assoc]
    rfl

theorem IsSettled.mono {first second : List Nat} {code : List Instruction}
    (settled : IsSettled first code) (subset : first ⊆ second) : IsSettled second code := by
  induction code generalizing first second with
  | nil => exact trivial
  | cons instruction rest ih =>
    exact ⟨fun number read => subset (settled.1 read),
      ih settled.2 (Instruction.passRecent_mono subset instruction)⟩

/-! ## Parts of lowered code -/

/-- The code writes the temporaries from one number up to another, in order,
and reads a temporary only where it is settled. -/
structure IsOrderly (before : Nat) (code : List Instruction) (behind : Nat) : Prop where
  le : before ≤ behind
  written : writtenTemporaries code = List.range' (before + 1) (behind - before)
  settled : IsSettled [] code

namespace IsOrderly

theorem append {before middle behind : Nat} {first second : List Instruction}
    (firstOrderly : IsOrderly before first middle)
    (secondOrderly : IsOrderly middle second behind) :
    IsOrderly before (first ++ second) behind where
  le := Nat.le_trans firstOrderly.le secondOrderly.le
  written := by
    have behindFirst : middle + 1 = before + 1 + (middle - before) := by
      have := firstOrderly.le
      omega
    have counted : middle - before + (behind - middle) = behind - before := by
      have := firstOrderly.le
      have := secondOrderly.le
      omega
    rw [writtenTemporaries_append, firstOrderly.written, secondOrderly.written, behindFirst,
      range'_append_1, counted]
  settled := isSettled_append.mpr
    ⟨firstOrderly.settled, secondOrderly.settled.mono (nil_subset _)⟩

theorem nil (number : Nat) : IsOrderly number [] number :=
  ⟨Nat.le_refl _, by rw [Nat.sub_self]; rfl, trivial⟩

/-- An instruction that neither reads nor writes a temporary. -/
theorem single (number : Nat) (instruction : Instruction) (reads : instruction.reads = [])
    (writes : instruction.writtenTemporary? = none) : IsOrderly number [instruction] number where
  le := Nat.le_refl _
  written := by
    rw [Nat.sub_self, writtenTemporaries, filterMap_cons_none writes]
    rfl
  settled := by
    refine ⟨fun other read => ?_, trivial⟩
    rw [reads] at read
    cases read

end IsOrderly

/-- The code writes temporaries in order without a boundary, and the values can
be read behind it. -/
structure Computes (before : Nat) (code : List Instruction) (values : List Operand)
    (behind : Nat) : Prop extends IsOrderly before code behind where
  straight : ∀ instruction ∈ code, instruction.isBoundary = false
  recent : ∀ ⦃number⦄, .temporary number ∈ values → number ∈ recentBehind [] code

namespace Computes

variable {before middle behind : Nat} {first second code : List Instruction}
  {values firstValues secondValues : List Operand}

theorem append (firstComputes : Computes before first firstValues middle)
    (secondComputes : Computes middle second secondValues behind) :
    Computes before (first ++ second) (firstValues ++ secondValues) behind where
  toIsOrderly := firstComputes.toIsOrderly.append secondComputes.toIsOrderly
  straight := forall_mem_append.mpr ⟨firstComputes.straight, secondComputes.straight⟩
  recent := by
    intro number member
    rw [recentBehind_append]
    rcases mem_append.mp member with inFirst | inSecond
    · exact subset_recentBehind secondComputes.straight _ (firstComputes.recent inFirst)
    · exact recentBehind_mono (nil_subset _) second (secondComputes.recent inSecond)

/-- A value that is no temporary needs no code. -/
theorem value (number : Nat) {value : Operand} (other : value.temporary? = none) :
    Computes number [] [value] number where
  toIsOrderly := .nil number
  straight := forall_mem_nil _
  recent := by
    intro number member
    rw [← mem_singleton.mp member] at other
    cases other

theorem nil (number : Nat) : Computes number [] [] number :=
  ⟨.nil number, forall_mem_nil _, nofun⟩

variable (computes : Computes before code values behind)

include computes

/-- The values may be read behind the code. -/
theorem settled_reading
    (reads : instruction.reads ⊆ values) : IsSettled [] (code ++ [instruction]) :=
  isSettled_append.mpr
    ⟨computes.settled, fun _ read => computes.recent (reads read), trivial⟩

/-- An instruction that reads the values and writes no temporary. -/
theorem reading (instruction : Instruction)
    (reads : instruction.reads ⊆ values) (writes : instruction.writtenTemporary? = none) :
    IsOrderly before (code ++ [instruction]) behind where
  le := computes.le
  written := by
    rw [writtenTemporaries_append, computes.written, writtenTemporaries,
      filterMap_cons_none writes, filterMap_nil, append_nil]
  settled := computes.settled_reading reads

/-- Another instruction that reads the values and writes no temporary. -/
theorem concat (instruction : Instruction)
    (reads : instruction.reads ⊆ values) (writes : instruction.writtenTemporary? = none)
    (straight : instruction.isBoundary = false) :
    Computes before (code ++ [instruction]) values behind where
  toIsOrderly := computes.reading instruction reads writes
  straight := forall_mem_append.mpr ⟨computes.straight, forall_mem_singleton.mpr straight⟩
  recent := by
    intro number member
    rw [recentBehind_append]
    exact Instruction.subset_passRecent straight _ (computes.recent member)

/-- An instruction that reads the values and writes the next temporary. -/
theorem write (instruction : Instruction) (reads : instruction.reads ⊆ values)
    (writes : instruction.writtenTemporary? = some (behind + 1))
    (straight : instruction.isBoundary = false) :
    Computes before (code ++ [instruction]) [.temporary (behind + 1)] (behind + 1) where
  le := Nat.le_succ_of_le computes.le
  written := by
    have behindCode : behind + 1 = before + 1 + (behind - before) := by
      have := computes.le
      omega
    rw [writtenTemporaries_append, computes.written, writtenTemporaries,
      filterMap_cons_some writes, filterMap_nil, Nat.succ_sub computes.le,
      range'_concat, Nat.one_mul, ← behindCode]
  settled := computes.settled_reading reads
  straight := forall_mem_append.mpr ⟨computes.straight, forall_mem_singleton.mpr straight⟩
  recent := by
    intro number member
    cases mem_singleton.mp member
    rw [recentBehind_append]
    simp [recentBehind, Instruction.passRecent, straight, writes]

/-- Pushing values. -/
theorem push {pushed : List Operand} (subset : pushed ⊆ values) :
    Computes before (code ++ pushed.map Instruction.push) values behind := by
  induction pushed generalizing code with
  | nil => rwa [map_nil, append_nil]
  | cons value rest ih =>
    obtain ⟨valueMem, restSubset⟩ := cons_subset.mp subset
    rw [map_cons, append_cons]
    have reads : (Instruction.push value).reads ⊆ values :=
      cons_subset.mpr ⟨valueMem, nil_subset _⟩
    exact ih (computes.concat (.push value) reads rfl rfl) restSubset

end Computes

end Code

/-! ## Lowering -/

namespace Lower

open Code StateRun

mutual

theorem computes_expression (expr : Expr) (naming : Naming) :
    Computes naming.temporaries ((expression expr).run naming).1.1
      [((expression expr).run naming).1.2] ((expression expr).run naming).2.temporaries := by
  cases expr with
  | literal constant => cases constant <;> exact .value _ rfl
  | identifier => exact .value _ rfl
  | binary operator lhs rhs =>
    have lhsComputes := computes_expression lhs naming
    have rhsComputes := computes_expression rhs ((expression lhs).run naming).2
    exact (lhsComputes.append rhsComputes).write _ (List.Subset.refl _) rfl rfl
  | call name arguments =>
    have computes := (computes_expressions arguments naming).push (List.Subset.refl _)
    have called := computes.concat (.call name ((expressions arguments).run naming).1.2.length)
      (nil_subset _) rfl rfl
    have popped := called.write (.pop (((expressions arguments).run naming).2.temporaries + 1))
      (nil_subset _) rfl rfl
    rw [append_assoc _ [_] [_]] at popped
    exact popped

theorem computes_expressions (exprs : List Expr) (naming : Naming) :
    Computes naming.temporaries ((expressions exprs).run naming).1.1
      ((expressions exprs).run naming).1.2 ((expressions exprs).run naming).2.temporaries := by
  cases exprs with
  | nil => exact .nil _
  | cons first rest =>
    exact (computes_expression first naming).append
      (computes_expressions rest ((expression first).run naming).2)

end

/-- The code of a value and an instruction that reads it. -/
theorem isOrderly_reading (expr : Expr) (naming : Naming) (instruction : Instruction)
    (reads : instruction.reads = [((expression expr).run naming).1.2])
    (writes : instruction.writtenTemporary? = none) :
    IsOrderly naming.temporaries (((expression expr).run naming).1.1 ++ [instruction])
      ((expression expr).run naming).2.temporaries :=
  (computes_expression expr naming).reading instruction (reads ▸ List.Subset.refl _) writes

/-- The code of a condition, up to where its body starts. -/
theorem isOrderly_branch (expr : Expr) (naming : Naming) (bodyLabel otherLabel : Nat) :
    IsOrderly naming.temporaries (((expression expr).run naming).1.1 ++
        [.branch ((expression expr).run naming).1.2 bodyLabel otherLabel, .label bodyLabel])
      ((expression expr).run naming).2.temporaries := by
  rw [append_cons]
  exact (isOrderly_reading expr naming _ rfl rfl).append (.single _ _ rfl rfl)

/-- The code of an assignment to a variable. -/
theorem isOrderly_assign (expr : Expr) (naming : Naming) (target : String) :
    IsOrderly naming.temporaries (((expression expr).run naming).1.1 ++
        assign (.variable target) ((expression expr).run naming).1.2)
      ((expression expr).run naming).2.temporaries := by
  unfold assign
  split
  · rw [append_nil]
    exact (computes_expression expr naming).toIsOrderly
  · exact isOrderly_reading expr naming _ rfl rfl

mutual

theorem isOrderly_statement (source : Statement) (naming : Naming) :
    IsOrderly naming.temporaries ((statement source).run naming).1
      ((statement source).run naming).2.temporaries := by
  have marked {number label : Nat} : IsOrderly number [.label label] number :=
    .single number _ rfl rfl
  have passed {number target label : Nat} :
      IsOrderly number [.jump target, .label label] number :=
    (IsOrderly.single number _ rfl rfl).append marked
  cases source with
  | declaration name initial =>
    cases initial with
    | none =>
      simp only [statement, run_bind, run_pure, run_declare, declare_temporaries]
      exact .nil _
    | some initial =>
      simp only [statement, run_bind, run_pure, run_declare, declare_temporaries]
      exact isOrderly_assign initial naming _
  | assignment name value => exact isOrderly_assign value naming _
  | ifThen condition body =>
    have inBody := isOrderly_statements body
      ((do let _ ← expression condition; let _ ← label; label).run naming).2.openScope
    exact ((isOrderly_branch condition naming _ _).append inBody).append marked
  | ifElse condition body alternative =>
    let tested := ((do
      let _ ← expression condition
      let _ ← label
      let _ ← label
      label).run naming).2
    have inBody := isOrderly_statements body tested.openScope
    have inAlternative := isOrderly_statements alternative
      ((inScope (statements body)).run tested).2.openScope
    exact ((((isOrderly_branch condition naming _ _).append inBody).append passed).append
      inAlternative).append marked
  | repeatWhile condition body =>
    let start := ((do let _ ← label; let _ ← label; label).run naming).2
    have inBody := isOrderly_statements body ((expression condition).run start).2.openScope
    exact ((marked.append (isOrderly_branch condition start _ _)).append inBody).append passed
  | block body => exact isOrderly_statements body naming.openScope
  | function name parameters body =>
    have inBody := isOrderly_statements body
      ((label.run naming).2.openFunction parameters).openScope
    exact ((marked.append (.single _ (.functionStart name parameters.length) rfl rfl)).append
      inBody).append (.single _ (.functionEnd name) rfl rfl)
  | giveBack value =>
    cases value with
    | none => exact .single _ _ rfl rfl
    | some value => exact isOrderly_reading value naming _ rfl rfl
  | print value => exact isOrderly_reading value naming _ rfl rfl
  | expression value => exact (computes_expression value naming).toIsOrderly

theorem isOrderly_statements (sources : List Statement) (naming : Naming) :
    IsOrderly naming.temporaries ((statements sources).run naming).1
      ((statements sources).run naming).2.temporaries := by
  cases sources with
  | nil => exact .nil _
  | cons first rest =>
    exact (isOrderly_statement first naming).append
      (isOrderly_statements rest ((statement first).run naming).2)

end

end Lower

/-- The temporaries of a lowered program are written in order, each once, and
read where they are settled. -/
theorem isOrderly_lower (program : Program) : ∃ last, Code.IsOrderly 0 program.lower last :=
  ⟨_, Lower.isOrderly_statements program.body (Naming.openScope {})⟩

/-! ## Positions -/

namespace Code

variable {code : List Instruction} {first second : Instruction} {number position : Nat}

/-- Only one instruction writes a temporary. -/
theorem IsOrderly.eq_of_writtenTemporary? {before behind : Nat}
    (orderly : IsOrderly before code behind) {firstPosition secondPosition : Nat}
    (firstFound : code[firstPosition]? = some first)
    (secondFound : code[secondPosition]? = some second)
    (firstWrites : first.writtenTemporary? = some number)
    (secondWrites : second.writtenTemporary? = some number) : firstPosition = secondPosition := by
  have distinct : (writtenTemporaries code).Nodup := orderly.written ▸ nodup_range' 1
  rw [writtenTemporaries, List.Nodup, pairwise_filterMap, pairwise_iff_getElem]
    at distinct
  obtain ⟨firstInside, rfl⟩ := List.getElem?_eq_some_iff.mp firstFound
  obtain ⟨secondInside, rfl⟩ := List.getElem?_eq_some_iff.mp secondFound
  rcases Nat.lt_trichotomy firstPosition secondPosition with earlier | same | later
  · exact absurd rfl (distinct _ _ firstInside secondInside earlier _ firstWrites _ secondWrites)
  · exact same
  · exact absurd rfl (distinct _ _ secondInside firstInside later _ secondWrites _ firstWrites)

/-- Two instructions that write the same temporary are the same. -/
theorem eq_of_nodup_writtenTemporaries (distinct : (writtenTemporaries code).Nodup)
    (firstMember : first ∈ code) (secondMember : second ∈ code)
    (firstWrites : first.writtenTemporary? = some number)
    (secondWrites : second.writtenTemporary? = some number) : first = second := by
  have written {instruction : Instruction} {code : List Instruction} (member : instruction ∈ code)
      (writes : instruction.writtenTemporary? = some number) : number ∈ writtenTemporaries code :=
    mem_filterMap.mpr ⟨instruction, member, writes⟩
  induction code with
  | nil => cases firstMember
  | cons head rest ih =>
    have restDistinct : (writtenTemporaries rest).Nodup :=
      distinct.sublist ((sublist_cons_self head rest).filterMap _)
    have fresh (writes : head.writtenTemporary? = some number) :
        number ∉ writtenTemporaries rest := by
      rw [writtenTemporaries, filterMap_cons_some writes] at distinct
      exact (nodup_cons.mp distinct).1
    rcases mem_cons.mp firstMember with rfl | firstLater <;>
      rcases mem_cons.mp secondMember with rfl | secondLater
    · rfl
    · exact absurd (written secondLater secondWrites) (fresh firstWrites)
    · exact absurd (written firstLater firstWrites) (fresh secondWrites)
    · exact ih restDistinct firstLater secondLater

/-- A temporary that has been written since the last boundary was written at
some position, and there is no boundary behind it. -/
theorem exists_of_mem_recentBehind (recent : number ∈ recentBehind [] (code.take position)) :
    ∃ earlier instruction, earlier < position ∧ code[earlier]? = some instruction ∧
      instruction.writtenTemporary? = some number ∧
      ∀ ⦃between other⦄, earlier < between → between < position → code[between]? = some other →
        other.isBoundary = false := by
  induction position with
  | zero => cases recent
  | succ position ih =>
    have behindOlder (older : number ∈ recentBehind [] (code.take position))
        (straight : ∀ other, code[position]? = some other → other.isBoundary = false) :
        ∃ earlier instruction, earlier < position + 1 ∧ code[earlier]? = some instruction ∧
          instruction.writtenTemporary? = some number ∧
          ∀ ⦃between other⦄, earlier < between → between < position + 1 →
            code[between]? = some other → other.isBoundary = false := by
      obtain ⟨earlier, instruction, before, found, writes, noBoundary⟩ := ih older
      refine ⟨earlier, instruction, Nat.lt_succ_of_lt before, found, writes, ?_⟩
      intro between other lower upper otherFound
      by_cases last : between = position
      · exact straight other (last ▸ otherFound)
      · exact noBoundary lower (by omega) otherFound
    rw [take_add_one, recentBehind_append] at recent
    cases found : code[position]? with
    | none =>
      rw [found] at recent
      exact behindOlder recent (by rw [found]; rintro other ⟨⟩)
    | some instruction =>
      rw [found] at recent
      change number ∈ instruction.passRecent _ at recent
      cases boundary : instruction.isBoundary with
      | true => simp [Instruction.passRecent, boundary] at recent
      | false =>
        rw [Instruction.passRecent, boundary, if_neg Bool.false_ne_true,
          mem_append, Option.mem_toList] at recent
        rcases recent with writes | older
        · refine ⟨position, instruction, Nat.lt_succ_self _, found, writes, ?_⟩
          intro between other lower upper
          omega
        · refine behindOlder older ?_
          rw [found]
          rintro other ⟨⟩
          exact boundary

section

variable (settled : IsSettled [] code) (found : code[position]? = some instruction)
  (reads : .temporary number ∈ instruction.reads)

include settled found reads

theorem IsSettled.mem_recentBehind : number ∈ recentBehind [] (code.take position) := by
  obtain ⟨inside, rfl⟩ := List.getElem?_eq_some_iff.mp found
  rw [← take_append_drop position code, drop_eq_getElem_cons inside, isSettled_append] at settled
  exact settled.2.1 reads

/-- What is read has been written, with no boundary in between. -/
theorem IsSettled.exists_write :
    ∃ earlier writer, earlier < position ∧ code[earlier]? = some writer ∧
      writer.writtenTemporary? = some number ∧
      ∀ ⦃between other⦄, earlier < between → between < position → code[between]? = some other →
        other.isBoundary = false :=
  exists_of_mem_recentBehind (settled.mem_recentBehind found reads)

end

end Code

end BanglaScript
