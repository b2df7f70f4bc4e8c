import BanglaScript.Proofs.Script.Surroundings

/-!
# What a plan says about the uses of a body

A plan covers every direct use of a name that is not visible from outside.  A
name that is introduced inline has a direct write as its first use, and all of
its uses stand in the block of this write.
-/

namespace BanglaScript

open List

namespace Introductions

/-! ## Common paths -/

theorem commonPath_isPrefix (first second : List Nat) :
    commonPath first second <+: first ∧ commonPath first second <+: second := by
  induction first generalizing second with
  | nil => cases second <;> exact .intro nil_prefix nil_prefix
  | cons head rest ih =>
    cases second with
    | nil => exact .intro nil_prefix nil_prefix
    | cons other others =>
      simp only [commonPath]
      split
      · rename_i same
        exact (ih others).imp (cons_prefix_cons.mpr ⟨rfl, ·⟩) (cons_prefix_cons.mpr ⟨same, ·⟩)
      · exact .intro nil_prefix nil_prefix

/-- What all paths have in common lies on each of them. -/
theorem foldl_commonPath_isPrefix (path : List Nat) (uses : List NameUse) :
    uses.foldl (fun path use => commonPath path use.path) path <+: path ∧
      ∀ use ∈ uses, uses.foldl (fun path use => commonPath path use.path) path <+: use.path := by
  induction uses generalizing path with
  | nil => exact ⟨prefix_rfl, by simp⟩
  | cons first rest ih =>
    obtain ⟨start, others⟩ := ih (commonPath path first.path)
    refine ⟨start.trans (commonPath_isPrefix _ _).1, ?_⟩
    intro use member
    rcases mem_cons.mp member with rfl | later
    · exact start.trans (commonPath_isPrefix _ _).2
    · exact others use later

/-- The first use of an inline name is a direct write, and the other uses stand
in its block. -/
theorem isInline_cons {first : NameUse} {rest : List NameUse} (inline : isInline (first :: rest)) :
    first.isWrite ∧ first.isDirect ∧ ∀ use ∈ rest, first.path <+: use.path := by
  simp only [isInline, decide_eq_true_eq] at inline
  refine ⟨inline.1, inline.2.1, fun use member => ?_⟩
  rw [inline.2.2]
  exact (foldl_commonPath_isPrefix first.path rest).2 use member

end Introductions

/-- The uses of a name. -/
def NameUse.ofName (name : String) (uses : List NameUse) : List NameUse :=
  uses.filter fun use => use.name = name

/-- A plan fits the uses of a body inside of which the outer names are visible
from the start. -/
structure Introductions.Fits (plan : Introductions) (outer : List String) (uses : List NameUse) :
    Prop where
  covers : ∀ use ∈ uses, use.isDirect →
    use.name ∈ outer ∨ IsTruth use.name ∨ use.name ∈ plan.hoisted ∨ use.name ∈ plan.inline
  hoisted : ∀ name ∈ plan.hoisted, name ∉ outer ∧ name ∉ plan.inline
  hoisted_nodup : plan.hoisted.Nodup
  inline : ∀ name ∈ plan.inline, name ∉ outer ∧
    ∃ first rest, NameUse.ofName name uses = first :: rest ∧ first.isWrite ∧ first.isDirect ∧
      ∀ use ∈ rest, first.path <+: use.path

namespace Introductions

theorem ofName_filter {name : String} {uses : List NameUse} {isNew : NameUse → Bool}
    (new : ∀ use : NameUse, use.name = name → isNew use) :
    NameUse.ofName name (uses.filter isNew) = NameUse.ofName name uses := by
  rw [NameUse.ofName, filter_filter, NameUse.ofName]
  refine filter_congr fun use _ => ?_
  by_cases same : use.name = name
  · simp [same, new use same]
  · simp [same]

theorem nodup_eraseDups (names : List String) : names.eraseDups.Nodup := by
  match names with
  | [] => exact nodup_nil
  | first :: rest =>
    rw [eraseDups_cons, nodup_cons, mem_eraseDups]
    exact ⟨by simp, nodup_eraseDups _⟩
termination_by names.length
decreasing_by exact Nat.lt_succ_of_le (length_filter_le _ _)

/-- The names of a plan are the names of direct uses. -/
theorem mem_ofUses {uses : List NameUse} {name : String} :
    (name ∈ (ofUses uses).hoisted ↔
      (∃ use ∈ uses, use.name = name ∧ use.isDirect) ∧ ¬ isInline (NameUse.ofName name uses)) ∧
    (name ∈ (ofUses uses).inline ↔
      (∃ use ∈ uses, use.name = name ∧ use.isDirect) ∧ isInline (NameUse.ofName name uses)) := by
  have own : (name ∈ (uses.map NameUse.name).eraseDups ∧
      (uses.filter fun use => use.name = name).any NameUse.isDirect) ↔
      ∃ use ∈ uses, use.name = name ∧ use.isDirect := by
    simp only [mem_eraseDups, mem_map, any_eq_true, mem_filter, decide_eq_true_eq]
    constructor
    · rintro ⟨_, use, ⟨member, named⟩, direct⟩
      exact ⟨use, member, named, direct⟩
    · rintro ⟨use, member, named, direct⟩
      exact ⟨⟨use, member, named⟩, use, ⟨member, named⟩, direct⟩
  constructor
  · rw [← own]
    simp only [ofUses, mem_filter, NameUse.ofName, decide_eq_true_eq]
  · rw [← own]
    simp only [ofUses, mem_filter, NameUse.ofName]

/-- The plan of a body fits its uses. -/
theorem fits_ofBody (body : List Node) (outer : List String) (level : Nat) :
    (ofBody body outer level).Fits outer ((NameUse.ofNodes level [] body).run 0).1 := by
  let isNew (use : NameUse) : Bool :=
    ¬ (use.name ∈ outer ∨ use.name = "true" ∨ use.name = "false")
  let uses := ((NameUse.ofNodes level [] body).run 0).1
  have plan : ofBody body outer level = ofUses (uses.filter isNew) := rfl
  have notOuter {use : NameUse} (member : use ∈ uses.filter isNew) : use.name ∉ outer := by
    have new := (mem_filter.mp member).2
    simp only [isNew, decide_eq_true_eq, not_or] at new
    exact new.1
  rw [plan]
  refine ⟨fun use member direct => ?_, fun name member => ?_, ?_, fun name member => ?_⟩
  · by_cases new : isNew use
    · have own : ∃ other ∈ uses.filter isNew, other.name = use.name ∧ other.isDirect :=
        ⟨use, mem_filter.mpr ⟨member, new⟩, rfl, direct⟩
      by_cases inline : isInline (NameUse.ofName use.name (uses.filter isNew))
      · exact .inr (.inr (.inr (mem_ofUses.2.mpr ⟨own, inline⟩)))
      · exact .inr (.inr (.inl (mem_ofUses.1.mpr ⟨own, inline⟩)))
    · simp only [isNew, decide_eq_true_eq, Decidable.not_not] at new
      rcases new with inside | truth
      · exact .inl inside
      · exact .inr (.inl truth)
  · obtain ⟨⟨use, used, rfl, _⟩, notInline⟩ := mem_ofUses.1.mp member
    exact ⟨notOuter used, fun inline => notInline (mem_ofUses.2.mp inline).2⟩
  · exact ((nodup_eraseDups _).filter _).filter _
  · obtain ⟨⟨use, used, rfl, _⟩, inline⟩ := mem_ofUses.2.mp member
    have new := (mem_filter.mp used).2
    have same : NameUse.ofName use.name (uses.filter isNew) = NameUse.ofName use.name uses :=
      ofName_filter fun other named => by simpa only [isNew, named] using new
    rw [same] at inline
    refine ⟨notOuter used, ?_⟩
    cases uses_eq : NameUse.ofName use.name uses with
    | nil =>
      rw [uses_eq] at inline
      cases inline
    | cons first rest =>
      rw [uses_eq] at inline
      exact ⟨first, rest, rfl, isInline_cons inline⟩

end Introductions

end BanglaScript
