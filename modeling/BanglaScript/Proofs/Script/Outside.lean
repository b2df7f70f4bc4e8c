import BanglaScript.Proofs.Script.Bound

/-!
# Lines outside of functions

Scripts are flat lists in which some lines open a function and others close one.
What does not stand inside of a function is found by counting the blocks that are
open since the outermost function was opened.  The points of a script tell more:
which functions are open.  Where both go together, the lines outside of functions
are those at points around which there is no function.
-/

namespace BanglaScript

open Eventful List

/-- Elements of lists with functions in them. -/
class Nesting (Element : Type) where
  /-- How many blocks are open behind an element since the outermost function was
  opened.  Outside of functions it is zero. -/
  depthBehind : Element → Nat → Nat

section Lists

open Nesting

variable {Element : Type} [Nesting Element]

/-- The depth behind several elements. -/
def depthBehindAll (depth : Nat) (list : List Element) : Nat :=
  list.foldl (fun depth element => depthBehind element depth) depth

/-- The elements that do not stand inside of a function.  The element that opens
a function stands outside of it. -/
def outsideFunctions : Nat → List Element → List Element
  | _, [] => []
  | 0, first :: rest => first :: outsideFunctions (depthBehind first 0) rest
  | depth + 1, first :: rest => outsideFunctions (depthBehind first (depth + 1)) rest

end Lists

/-- How many blocks are open behind a line since the outermost function was
opened. -/
def Sentence.depthBehind : Sentence → Nat → Nat
  | .openFunction _ _, depth => depth + 1
  | .openIf _, depth + 1 | .openWhile _, depth + 1 | .openForever, depth + 1 => depth + 2
  | .close, depth + 1 => depth
  | _, depth => depth

instance : Nesting Sentence := ⟨Sentence.depthBehind⟩

/-- A line outside of functions reads or writes the name. -/
def IsUsedOutside (sentences : List Sentence) (name : String) : Prop :=
  name ∈ (outsideFunctions 0 sentences).flatMap Sentence.used

/-- Two lines use the name, and between them there is a point where no function
is open.  So they do not stand in the same outermost function. -/
def IsUsedApart (sentences : List Sentence) (name : String) : Prop :=
  ∃ (first between second : Nat) (here there : Sentence),
    first < between ∧ between ≤ second ∧ depthBehindAll 0 (sentences.take between) = 0 ∧
    sentences[first]? = some here ∧ name ∈ here.used ∧
    sentences[second]? = some there ∧ name ∈ there.used

/-! ## Depths of points -/

/-- How many blocks there are up to the outermost function, from the innermost
outwards. -/
def depthOf : List (Option Nat) → Nat
  | [] => 0
  | none :: around => if depthOf around = 0 then 0 else depthOf around + 1
  | some _ :: around => depthOf around + 1

/-- How many blocks are open at a point since the outermost function was opened. -/
def Spot.depth (spot : Spot) : Nat := depthOf spot.blocks

theorem Spot.depth_eq_zero_iff {spot : Spot} : spot.depth = 0 ↔ spot.bodies = [] := by
  obtain ⟨blocks, _⟩ := spot
  change depthOf blocks = 0 ↔ blocks.filterMap id = []
  induction blocks with
  | nil => exact iff_of_true rfl rfl
  | cons block around ih =>
    cases block with
    | none =>
      rw [depthOf, filterMap_cons_none rfl, ← ih]
      split <;> simp_all
    | some => exact iff_of_false (Nat.succ_ne_zero _) (cons_ne_nil _ _)

/-- A line that does not close a block to open another one changes the depth as it
changes the point. -/
theorem Sentence.depthBehind_depth {sentence : Sentence} (other : sentence ≠ .openElse)
    (spot : Spot) :
    sentence.depthBehind spot.depth = (sentence.spotBehind spot).depth := by
  obtain ⟨blocks, _⟩ := spot
  change _ = depthOf _
  cases sentence with
  | openElse => exact absurd rfl other
  | openIf | openWhile | openForever =>
    change _ = if depthOf blocks = 0 then 0 else depthOf blocks + 1
    cases same : depthOf blocks <;> simp [Spot.depth, depthBehind, same]
  | close =>
    rcases blocks with _ | ⟨_ | _, around⟩
    · rfl
    · cases same : depthOf around <;>
        simp [Spot.depth, depthOf, depthBehind, spotBehind, Spot.left, same]
    · rfl
  | openFunction => rfl
  | _ => cases same : depthOf blocks <;> simp [Spot.depth, depthBehind, spotBehind, same]

/-- On every line, counting blocks goes together with the points. -/
def AreCounted (sentences : List Sentence) : Prop :=
  ∀ start, ∀ entry ∈ placed start sentences,
    entry.2.depthBehind entry.1.depth = (entry.2.spotBehind entry.1).depth

namespace AreCounted

variable {first second sentences : List Sentence} {sentence : Sentence} {name : String}

theorem single (other : sentence ≠ .openElse) : AreCounted [sentence] := fun start =>
  forall_mem_singleton.mpr (Sentence.depthBehind_depth other start)

theorem append (firstCounted : AreCounted first) (secondCounted : AreCounted second) :
    AreCounted (first ++ second) := by
  intro start
  rw [placed_append]
  exact forall_mem_append.mpr ⟨firstCounted start, secondCounted _⟩

end AreCounted

section

variable {sentences : List Sentence} {spot : Spot}
  (counted : ∀ entry ∈ placed spot sentences,
    entry.2.depthBehind entry.1.depth = (entry.2.spotBehind entry.1).depth)

include counted

theorem depthBehindAll_depth :
    depthBehindAll spot.depth sentences = (spotBehind spot sentences).depth := by
  induction sentences generalizing spot with
  | nil => rfl
  | cons first rest ih =>
    obtain ⟨here, later⟩ := forall_mem_cons.mp counted
    change depthBehindAll (first.depthBehind spot.depth) rest = _
    rw [here]
    exact ih later

/-- The lines outside of functions are those at points outside of functions. -/
theorem outsideFunctions_depth : outsideFunctions spot.depth sentences =
      ((placed spot sentences).filter fun entry => entry.1.bodies = []).map Prod.snd := by
  induction sentences generalizing spot with
  | nil => cases spot.depth <;> rfl
  | cons first rest ih =>
    obtain ⟨here, later⟩ := forall_mem_cons.mp counted
    have next : outsideFunctions (first.depthBehind spot.depth) rest = _ :=
      (congrArg (outsideFunctions · rest) here).trans (ih later)
    rw [placed]
    by_cases outside : spot.bodies = []
    · rw [filter_cons_of_pos (by simpa using outside), map_cons]
      rw [Spot.depth_eq_zero_iff.mpr outside] at next ⊢
      exact congrArg (first :: ·) next
    · obtain ⟨depth, same⟩ := Nat.exists_eq_succ_of_ne_zero
        (mt Spot.depth_eq_zero_iff.mp outside)
      rw [filter_cons_of_neg (by simpa using outside)]
      rw [same] at next ⊢
      exact next

end

theorem AreCounted.depthBehindAll_take {sentences : List Sentence} (counted : AreCounted sentences)
    (line : Nat) :
    depthBehindAll 0 (sentences.take line) = (spotBehind {} (sentences.take line)).depth := by
  have whole := counted {}
  rw [← take_append_drop line sentences, placed_append] at whole
  exact depthBehindAll_depth (forall_mem_append.mp whole).1

/-- A line uses names where it does something with them. -/
theorem Sentence.use_mem_events_iff {sentence : Sentence} {name : String} :
    .use name ∈ events sentence ↔ name ∈ sentence.used := by
  have others : .use name ∉ sentence.marks := by
    unfold marks
    split <;> simp
  simp only [events, used, mem_map, mem_append, exists_eq_right, Event.use.injEq, others, or_false]

/-- The program uses the names outside of its functions that it uses in no body. -/
theorem AreCounted.isUsedOutside_iff {sentences : List Sentence} (counted : AreCounted sentences)
    {name : String} :
    IsUsedOutside sentences name ↔ ([], .use name) ∈ eventsFrom {} sentences := by
  change name ∈ (outsideFunctions (Spot.depth {}) sentences).flatMap Sentence.used ↔ _
  simp only [outsideFunctions_depth (counted {}), eventsFrom, mem_flatMap, mem_map, mem_filter,
    decide_eq_true_eq, Prod.mk.injEq, ← Sentence.use_mem_events_iff]
  constructor
  · rintro ⟨_, ⟨entry, ⟨member, outside⟩, rfl⟩, used⟩
    exact ⟨entry, member, _, used, outside, rfl⟩
  · rintro ⟨entry, member, _, used, outside, rfl⟩
    exact ⟨_, ⟨entry, ⟨member, outside⟩, rfl⟩, used⟩

end BanglaScript
