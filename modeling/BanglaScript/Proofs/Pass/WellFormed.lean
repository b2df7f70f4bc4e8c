import BanglaScript.Proofs.Pass.FixedPoint

/-!
# Temporaries and labels through the optimizer

Lowering writes each temporary once, reads it behind its write in the same
stretch of straight code, and defines each label once.  The passes rely on this
and none of them checks it.

A pass keeps the writes that are read, and where it lets an instruction read
another temporary, that temporary holds its value since the last label.  So the
facts stay true of the code behind every pass, with one exception: a reading may
move behind a branch, as branches and jumps do not end the life of a held value.
-/

namespace BanglaScript

open List LabelledNode

/-- Control comes in from elsewhere, or another function begins. -/
def Instruction.isEntry : Instruction → Bool
  | .label _ | .functionStart _ _ | .functionEnd _ => true
  | _ => false

namespace Code

/-- Before the position the temporary is written, and no barrier stands in
between. -/
def IsWrittenBefore (barrier : Instruction → Bool) (code : List Instruction)
    (position number : Nat) : Prop :=
  ∃ earlier writer, earlier < position ∧ code[earlier]? = some writer ∧
    writer.writtenTemporary? = some number ∧
    ∀ ⦃between other⦄, earlier < between → between < position → code[between]? = some other →
      barrier other = false

/-- Every temporary that is read is written before, and no barrier stands in
between. -/
def WritesBeforeReads (barrier : Instruction → Bool) (code : List Instruction) : Prop :=
  ∀ ⦃position number : Nat⦄ ⦃reader : Instruction⦄, code[position]? = some reader →
    .temporary number ∈ reader.reads → IsWrittenBefore barrier code position number

/-- The labels up to a number are defined once each, there are no others, and
every branch and jump goes to one of them. -/
structure HasLabels (last : Nat) (code : List Instruction) : Prop where
  defined : (definedLabels code).Perm (List.range' 1 last)
  targets : ∀ instruction ∈ code, ∀ label ∈ instruction.targetLabels,
    label ∈ List.range' 1 last

variable {code : List Instruction}

/-- Fewer barriers are easier to stay clear of. -/
theorem WritesBeforeReads.mono {first second : Instruction → Bool}
    (writes : WritesBeforeReads first code)
    (fewer : ∀ instruction, first instruction = false → second instruction = false) :
    WritesBeforeReads second code := by
  intro position number reader found reads
  obtain ⟨earlier, writer, before, writerFound, written, clear⟩ := writes found reads
  refine ⟨earlier, writer, before, writerFound, written, ?_⟩
  intro between other lower upper otherFound
  exact fewer other (clear lower upper otherFound)

theorem IsWrittenBefore.succ {barrier : Instruction → Bool} {position number : Nat}
    (written : IsWrittenBefore barrier code position number)
    (passed : ∀ instruction, code[position]? = some instruction → barrier instruction = false) :
    IsWrittenBefore barrier code (position + 1) number := by
  obtain ⟨earlier, writer, before, found, writes, clear⟩ := written
  refine ⟨earlier, writer, Nat.lt_succ_of_lt before, found, writes, ?_⟩
  intro between other lower upper otherFound
  rcases Nat.lt_succ_iff_lt_or_eq.mp upper with inside | rfl
  · exact clear lower inside otherFound
  · exact passed other otherFound

theorem isEntry_eq_false_of_isBoundary {instruction : Instruction}
    (straight : instruction.isBoundary = false) : instruction.isEntry = false := by
  cases instruction <;> first | rfl | cases straight

end Code

/-! ## Labels of lowered programs -/

/-- A lowered program has the labels that were handed out for it. -/
theorem hasLabels_lower (program : Program) : ∃ last, Code.HasLabels last program.lower := by
  let last := ((LabelledNode.ofStatements program.body).run (Naming.openScope {})).2.labels
  have defines : LabelledNode.DefinesLabels 0 last (LabelledNode.ofProgram program) :=
    definesLabels_ofStatements program.body (Naming.openScope {})
  have mem_iff (label : Nat) : label ∈ Code.definedLabels program.lower ↔
      label ∈ List.range' 1 last := by
    rw [lower_eq_instructionsAll, ← count_pos_iff, defines.count label, mem_range'_1]
    split <;> omega
  refine ⟨last, ?_, ?_⟩
  · have distinct := nodup_definedLabels_ofProgram program
    rw [← lower_eq_instructionsAll] at distinct
    exact (perm_ext_iff_of_nodup distinct (nodup_range' 1)).mpr mem_iff
  · intro instruction member label target
    rw [← mem_iff, Code.mem_definedLabels]
    rw [lower_eq_instructionsAll] at member ⊢
    exact label_mem_of_targetAll _ target member

/-! ## What every pass keeps -/

namespace Pass

open Code

variable {position number : Nat} {held : Held} {instruction : Instruction}
  {result : List Instruction} {step : Nat → Instruction → Instruction}

theorem Rewrites.hasLabels {code : List Instruction} (rewrites : Rewrites code result) {last : Nat}
    (labels : HasLabels last code) : HasLabels last result := by
  constructor
  · rw [rewrites.definedLabels_eq]
    exact labels.defined
  · intro instruction member label target
    have plain : instruction.computed? = none := by
      cases instruction <;> first | rfl | cases target
    exact labels.targets instruction ((rewrites.mem_iff plain).mp member) label target

section

variable {first second : Instruction} (replaces : Replaces first second)

include replaces

theorem Replaces.writtenTemporary?_eq : second.writtenTemporary? = first.writtenTemporary? := by
  refine replaces.view_eq Place.temporary? fun {instruction _} computed => ?_
  cases instruction <;> cases computed <;> rfl

theorem Replaces.isEntry_eq : second.isEntry = first.isEntry := by
  refine replaces.view_eq (fun _ => false) fun {instruction _} computed => ?_
  cases instruction <;> first | rfl | cases computed

end

section

variable {code : List Instruction}
  (stepwise : ∀ position, result[position]? = code[position]?.map (step position))
  (replaces : ∀ position instruction, Replaces instruction (step position instruction))

include stepwise replaces

/-- A pass that replaces every instruction in its place keeps the writes. -/
theorem isWrittenBefore_of_replaces
    (written : IsWrittenBefore Instruction.isEntry code position number) :
    IsWrittenBefore Instruction.isEntry result position number := by
  obtain ⟨earlier, writer, before, found, writes, clear⟩ := written
  refine ⟨earlier, step earlier writer, before, ?_, ?_, ?_⟩
  · rw [stepwise, found, Option.map_some]
  · rw [(replaces earlier writer).writtenTemporary?_eq, writes]
  · intro between other lower upper otherFound
    rw [stepwise, Option.map_eq_some_iff] at otherFound
    obtain ⟨source, sourceFound, rfl⟩ := otherFound
    rw [(replaces between source).isEntry_eq]
    exact clear lower upper sourceFound

/-- Such a pass keeps the order of writes and reads, if what it lets an
instruction read is written before. -/
theorem writesBeforeReads_of_replaces
    (reads : ∀ ⦃position number : Nat⦄ ⦃instruction : Instruction⦄,
      code[position]? = some instruction →
      .temporary number ∈ (step position instruction).reads →
      .temporary number ∈ instruction.reads ∨
        IsWrittenBefore Instruction.isEntry code position number)
    (writes : WritesBeforeReads Instruction.isEntry code) :
    WritesBeforeReads Instruction.isEntry result := by
  intro position number reader found read
  rw [stepwise, Option.map_eq_some_iff] at found
  obtain ⟨_, sourceFound, rfl⟩ := found
  apply isWrittenBefore_of_replaces stepwise replaces
  rcases reads sourceFound read with same | written
  · exact writes sourceFound same
  · exact written

end

/-! ## Each pass -/

variable {code : List Instruction}

theorem writesBeforeReads_foldConstants (writes : WritesBeforeReads Instruction.isEntry code) :
    WritesBeforeReads Instruction.isEntry (foldConstants code) := by
  apply writesBeforeReads_of_replaces (getElem?_foldFrom [] code)
    (fun _ _ => replaces_foldStep _ _) _ writes
  intro position number instruction _ read
  exact .inl ((folds_foldStep _ _).mem_reads read)

theorem writesBeforeReads_shiftPowers (writes : WritesBeforeReads Instruction.isEntry code) :
    WritesBeforeReads Instruction.isEntry (shiftPowers code) := by
  have stepwise (position : Nat) :
      (shiftPowers code)[position]? = code[position]?.map shiftStep := getElem?_map
  apply writesBeforeReads_of_replaces stepwise (fun _ => replaces_shiftStep) _ writes
  intro position number instruction _ read
  left
  rcases shiftStep_cases instruction with
    stays | ⟨opcode, shift, target, lhs, value, exponent, rfl, _, _, becomes⟩
  · rwa [stays] at read
  · rw [becomes] at read
    rcases mem_cons.mp read with left | right
    · exact mem_cons.mpr (.inl left)
    · exact absurd (mem_singleton.mp right) nofun

/-- Nothing is held behind an instruction where control comes in. -/
theorem isEntry_eq_false_of_mem_reuseStep {available : Available}
    (member : held ∈ (reuseStep available instruction).2) : instruction.isEntry = false := by
  cases instruction with
  | label | functionStart | functionEnd => cases member
  | _ => rfl

/-- A value that is held has been written since control last came in from
elsewhere.  By induction on the position: entries of the table are dropped where
that happens, and a new one is the operation just passed. -/
theorem isWrittenBefore_of_mem_heldBefore (member : held ∈ heldBefore code position) :
    IsWrittenBefore Instruction.isEntry code position held.result := by
  induction position with
  | zero => cases member
  | succ position ih =>
    cases found : code[position]? with
    | none =>
      have same : heldBefore code (position + 1) = heldBefore code position := by
        rw [heldBefore, take_add_one, found]
        simp [heldBefore]
      rw [same] at member
      refine (ih member).succ ?_
      intro other otherFound
      rw [found] at otherFound
      cases otherFound
    | some instruction =>
      rw [heldBefore_succ found] at member
      rcases mem_of_mem_reuseStep member with older | ⟨opcode, _, operation⟩
      · refine (ih older).succ ?_
        intro other otherFound
        cases found.symm.trans otherFound
        exact isEntry_eq_false_of_mem_reuseStep member
      · refine ⟨position, instruction, Nat.lt_succ_self _, found, ?_, ?_⟩
        · rw [← mem_singleton.mp operation]
          rfl
        · intro between _ lower upper
          omega

theorem writesBeforeReads_reuseHeld (writes : WritesBeforeReads Instruction.isEntry code) :
    WritesBeforeReads Instruction.isEntry (reuseHeld code) := by
  apply writesBeforeReads_of_replaces (getElem?_reuseFrom [] code)
    (fun _ _ => replaces_reuseStep _ _) _ writes
  intro position number instruction _ read
  change _ ∈ ((reuseStep (heldBefore code position) instruction).1).reads at read
  rcases reuseStep_cases (heldBefore code position) instruction with
    stays | ⟨opcode, target, lhs, rhs, rfl, ⟨result, found, copied⟩ | remembered⟩
  · rw [stays] at read
    exact .inl read
  · rw [copied] at read
    cases mem_singleton.mp read
    obtain ⟨_, heldFound, rfl⟩ := Option.map_eq_some_iff.mp found
    exact .inr (isWrittenBefore_of_mem_heldBefore (mem_of_find?_eq_some heldFound))
  · rw [remembered] at read
    exact .inl read

/-- An element of a filtered list is kept, and in the whole list it stands
behind as many kept elements. -/
theorem exists_getElem?_of_filter {Element : Type} {keeps : Element → Bool} {list : List Element}
    {short : Nat} {element : Element} (found : (list.filter keeps)[short]? = some element) :
    ∃ position, list[position]? = some element ∧ keeps element = true ∧
      (list.take position).countP keeps = short := by
  induction list generalizing short with
  | nil => cases found
  | cons first rest ih =>
    cases kept : keeps first with
    | true =>
      rw [filter_cons_of_pos kept] at found
      cases short with
      | zero =>
        cases found
        exact ⟨0, rfl, kept, rfl⟩
      | succ =>
        obtain ⟨position, there, keptThere, count⟩ := ih found
        exact ⟨position + 1, there, keptThere, by
          rw [take_succ_cons, countP_cons_of_pos kept, count]⟩
    | false =>
      rw [filter_cons_of_neg (Bool.eq_false_iff.mp kept)] at found
      obtain ⟨position, there, keptThere, count⟩ := ih found
      exact ⟨position + 1, there, keptThere, by
        rw [take_succ_cons, countP_cons_of_neg (Bool.eq_false_iff.mp kept), count]⟩

theorem keptBefore_lt_of_isLive {first second : Nat} (found : code[first]? = some instruction)
    (live : isLive code instruction = true) (ordered : first < second) :
    keptBefore code first < keptBefore code second := by
  have behind : keptBefore code (first + 1) ≤ keptBefore code second :=
    keptBefore_mono code ordered
  rw [keptBefore_succ_of_isLive found live] at behind
  exact behind

/-- An instruction that is read from is not dropped. -/
theorem isLive_of_isRead {writer : Instruction} (written : writer.writtenTemporary? = some number)
    (read : isRead code number = true) : isLive code writer = true := by
  cases live : isLive code writer with
  | true => rfl
  | false =>
    obtain ⟨_, _, rfl, unread⟩ := eq_assign_of_isLive_eq_false live
    cases written
    rw [read] at unread
    cases unread

theorem writesBeforeReads_dropUnread (writes : WritesBeforeReads Instruction.isEntry code) :
    WritesBeforeReads Instruction.isEntry (dropUnread code) := by
  intro short number reader shortFound read
  obtain ⟨_, found, _, rfl⟩ := exists_getElem?_of_filter shortFound
  obtain ⟨earlier, writer, before, writerFound, written, clear⟩ := writes found read
  have isRead := isRead_iff.mpr ⟨reader, mem_of_getElem? found, read⟩
  have writerLive := isLive_of_isRead written isRead
  refine ⟨keptBefore code earlier, writer, keptBefore_lt_of_isLive writerFound writerLive before,
    getElem?_dropUnread writerFound writerLive, written, ?_⟩
  intro between other lower upper otherFound
  obtain ⟨_, middleFound, _, rfl⟩ := exists_getElem?_of_filter otherFound
  apply clear _ _ middleFound
  · by_contra behind
    exact absurd (keptBefore_mono code (Nat.le_of_not_lt behind)) (Nat.not_le_of_lt lower)
  · by_contra behind
    exact absurd (keptBefore_mono code (Nat.le_of_not_lt behind)) (Nat.not_le_of_lt upper)

/-- Behind every pass the temporaries that are read are still written before. -/
theorem writesBeforeReads_run (pass : Pass) (writes : WritesBeforeReads Instruction.isEntry code) :
    WritesBeforeReads Instruction.isEntry (pass.run code) := by
  cases pass with
  | constantFolding => exact writesBeforeReads_foldConstants writes
  | deadCode => exact writesBeforeReads_dropUnread writes
  | reuse => exact writesBeforeReads_reuseHeld writes
  | strength => exact writesBeforeReads_shiftPowers writes

theorem writesBeforeReads_runAll (passes : List Pass)
    (writes : WritesBeforeReads Instruction.isEntry code) :
    WritesBeforeReads Instruction.isEntry (runAll passes code).1 := by
  induction passes generalizing code with
  | nil => exact writes
  | cons pass rest ih => exact ih (writesBeforeReads_run pass writes)

end Pass

/-! ## Lowered programs -/

theorem writesBeforeReads_lower (program : Program) :
    Code.WritesBeforeReads Instruction.isBoundary program.lower := by
  obtain ⟨_, orderly⟩ := isOrderly_lower program
  intro position number reader found read
  exact orderly.settled.exists_write found read

/-- The temporaries of a lowered program are written once each and in their
order, and read behind their writes in the same stretch of straight code; its
labels are defined once each, and branches and jumps go to defined labels.
Behind any sequence of passes each temporary is written at most once, what is
read is written before since control last came in from elsewhere, and the labels
are the same. -/
theorem wellFormed_runAll_lower (program : Program) :
    ∃ temporaries labels,
      Code.writtenTemporaries program.lower = List.range' 1 temporaries ∧
      Code.WritesBeforeReads Instruction.isBoundary program.lower ∧
      Code.HasLabels labels program.lower ∧
      ∀ passes : List Pass,
        (Code.writtenTemporaries (Pass.runAll passes program.lower).1).Nodup ∧
        Code.WritesBeforeReads Instruction.isEntry (Pass.runAll passes program.lower).1 ∧
        Code.HasLabels labels (Pass.runAll passes program.lower).1 := by
  obtain ⟨temporaries, orderly⟩ := isOrderly_lower program
  obtain ⟨labels, hasLabels⟩ := hasLabels_lower program
  have writes := writesBeforeReads_lower program
  have once : (Code.writtenTemporaries program.lower).Nodup := by
    rw [orderly.written]
    exact nodup_range' _
  refine ⟨temporaries, labels, orderly.written, writes, hasLabels, ?_⟩
  intro passes
  refine ⟨?_, ?_, ?_⟩
  · exact @Pass.runAll_of_rewrites (fun code => (Code.writtenTemporaries code).Nodup)
      (fun _ _ rewrites once => once.sublist rewrites.writtenTemporaries_sublist) passes _ once
  · exact Pass.writesBeforeReads_runAll passes
      (writes.mono fun _ => Code.isEntry_eq_false_of_isBoundary)
  · exact Pass.runAll_of_rewrites (fun _ _ rewrites => rewrites.hasLabels) passes hasLabels

end BanglaScript
