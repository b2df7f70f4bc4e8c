import BanglaScript.Node.Introduction

/-!
# What happens in which body

Code and scripts are flat lists with functions in them.  Numbering the functions
in the order in which they are opened, every element stands in the bodies of some
of them.  What happens in a list is told as events, each with the numbers of the
functions around it from the innermost outwards.

An account tells the same of a tree: it is put together from the accounts of its
parts.  A list tells an account if it closes what it opens and its events are those
of the account, wherever the list stands.
-/

namespace BanglaScript

open List

/-- What an element does. -/
inductive Event where
  /-- A name is read or written. -/
  | use (name : String)
  | call (name : String)
  /-- A function is declared. -/
  | function (name : String)
  | giveBack
deriving DecidableEq

/-- The event is a use of a name. -/
def Event.isUse : Event → Bool
  | .use _ => true
  | _ => false

/-- A point of a list with functions in it. -/
structure Spot where
  /-- The open blocks from the innermost outwards.  The body of a function has the
  number of the function, other blocks have none. -/
  blocks : List (Option Nat) := []
  /-- How many functions have been opened so far. -/
  functions : Nat := 0
deriving DecidableEq

namespace Spot

/-- The numbers of the functions around the point, from the innermost outwards. -/
def bodies (spot : Spot) : List Nat := spot.blocks.filterMap id

/-- Inside of a block. -/
def inBlock (spot : Spot) : Spot := { spot with blocks := none :: spot.blocks }

/-- Inside of the next function. -/
def inFunction (spot : Spot) : Spot := ⟨some spot.functions :: spot.blocks, spot.functions + 1⟩

/-- Outside of the innermost block. -/
def left (spot : Spot) : Spot := { spot with blocks := spot.blocks.tail }

/-- Behind a number of functions. -/
def past (spot : Spot) (count : Nat) : Spot := { spot with functions := spot.functions + count }

theorem past_past (spot : Spot) (first second : Nat) :
    (spot.past first).past second = spot.past (first + second) := by
  simp [past, Nat.add_assoc]

end Spot

/-- Elements of lists with functions in them, and what they do. -/
class Eventful (Element : Type) where
  /-- The point behind an element. -/
  behind : Element → Spot → Spot
  events : Element → List Event

open Eventful

section Lists

variable {Element : Type} [Eventful Element]

/-- The point behind several elements. -/
def spotBehind (spot : Spot) (list : List Element) : Spot :=
  list.foldl (fun spot element => behind element spot) spot

/-- The elements with the points where they stand. -/
def placed (spot : Spot) : List Element → List (Spot × Element)
  | [] => []
  | first :: rest => (spot, first) :: placed (behind first spot) rest

/-- The events of a list with the functions around them. -/
def eventsFrom (spot : Spot) (list : List Element) : List (List Nat × Event) :=
  (placed spot list).flatMap fun entry => (events entry.2).map (entry.1.bodies, ·)

section

variable (spot : Spot)

include spot

theorem spotBehind_append (first second : List Element) :
    spotBehind spot (first ++ second) = spotBehind (spotBehind spot first) second :=
  foldl_append

theorem placed_append (first second : List Element) :
    placed spot (first ++ second) = placed spot first ++ placed (spotBehind spot first) second := by
  induction first generalizing spot with
  | nil => rfl
  | cons element rest ih => exact congrArg ((spot, element) :: ·) (ih _)

theorem eventsFrom_append (first second : List Element) : eventsFrom spot (first ++ second) =
      eventsFrom spot first ++ eventsFrom (spotBehind spot first) second := by
  rw [eventsFrom, placed_append, flatMap_append]
  rfl

theorem eventsFrom_cons (first : Element) (rest : List Element) : eventsFrom spot (first :: rest) =
      (events first).map (spot.bodies, ·) ++ eventsFrom (behind first spot) rest :=
  flatMap_cons

theorem eventsFrom_singleton (element : Element) :
    eventsFrom spot [element] = (events element).map (spot.bodies, ·) :=
  append_nil _

theorem getElem?_placed (list : List Element) (position : Nat) : (placed spot list)[position]? =
      list[position]?.map (spotBehind spot (list.take position), ·) := by
  induction list generalizing spot position with
  | nil => rfl
  | cons first rest ih =>
    cases position with
    | zero => rfl
    | succ position => exact ih (behind first spot) position

theorem mem_placed {list : List Element} {position : Nat} {element : Element}
    (found : list[position]? = some element) :
    (spotBehind spot (list.take position), element) ∈ placed spot list := by
  refine mem_iff_getElem?.mpr ⟨position, ?_⟩
  rw [getElem?_placed, found]
  rfl

end

/-- Where an element stands is known from its position. -/
theorem exists_of_mem_placed {list : List Element} {spot : Spot} {entry : Spot × Element}
    (member : entry ∈ placed spot list) :
    ∃ position : Nat, list[position]? = some entry.2 ∧
      entry = (spotBehind spot (list.take position), entry.2) := by
  obtain ⟨position, found⟩ := mem_iff_getElem?.mp member
  rw [getElem?_placed] at found
  obtain ⟨_, there, rfl⟩ := Option.map_eq_some_iff.mp found
  exact ⟨position, there, rfl⟩

end Lists

/-! ## Accounts -/

/-- What a tree with functions in it tells, once the functions around it and the
number of the next function are known. -/
@[ext]
structure Account where
  /-- How many functions there are. -/
  functions : Nat
  events : List Nat → Nat → List (List Nat × Event)

namespace Account

/-- Nothing happens. -/
def nothing : Account := ⟨0, fun _ _ => []⟩

/-- Events of one body. -/
def of (events : List Event) : Account := ⟨0, fun bodies _ => events.map (bodies, ·)⟩

/-- One account after the other. -/
def next (first second : Account) : Account :=
  ⟨first.functions + second.functions, fun bodies count =>
    first.events bodies count ++ second.events bodies (count + first.functions)⟩

/-- A function with the account of its body. -/
def function (name : String) (body : Account) : Account :=
  ⟨body.functions + 1, fun bodies count =>
    (bodies, .function name) :: body.events (count :: bodies) (count + 1)⟩

theorem nothing_next (account : Account) : nothing.next account = account := by
  ext1
  · exact Nat.zero_add _
  · rfl

theorem next_nothing (account : Account) : account.next nothing = account := by
  ext1
  · rfl
  · funext bodies count
    exact append_nil _

theorem next_assoc (first second third : Account) :
    (first.next second).next third = first.next (second.next third) := by
  ext1
  · exact Nat.add_assoc _ _ _
  · funext bodies count
    simp only [next, append_assoc, Nat.add_assoc]

theorem of_append (first second : List Event) :
    of (first ++ second) = (of first).next (of second) := by
  ext1
  · rfl
  · funext bodies count
    exact map_append

/-- The account without the uses of names. -/
def withoutUses (account : Account) : Account :=
  ⟨account.functions, fun bodies count =>
    (account.events bodies count).filter fun entry => !entry.2.isUse⟩

theorem withoutUses_of (events : List Event) :
    (of events).withoutUses = of (events.filter fun event => !event.isUse) := by
  ext1
  · rfl
  · funext bodies count
    exact filter_map

theorem withoutUses_next (first second : Account) :
    (first.next second).withoutUses = first.withoutUses.next second.withoutUses := by
  ext1
  · rfl
  · funext bodies count
    exact filter_append _ _

theorem withoutUses_function (name : String) (body : Account) :
    (function name body).withoutUses = function name body.withoutUses := rfl

/-- Everything happens inside of the functions around, and inside of functions that
the account numbers itself. -/
def IsNested (account : Account) : Prop :=
  ∀ bodies count, ∀ entry ∈ account.events bodies count,
    ∃ inner, entry.1 = inner ++ bodies ∧
      ∀ number ∈ inner, count ≤ number ∧ number < count + account.functions

theorem isNested_nothing : nothing.IsNested :=
  fun _ _ _ member => absurd member not_mem_nil

theorem isNested_of (events : List Event) : (of events).IsNested := by
  intro bodies count entry member
  obtain ⟨_, _, rfl⟩ := mem_map.mp member
  exact ⟨[], rfl, forall_mem_nil _⟩

theorem IsNested.next {first second : Account} (firstNested : first.IsNested)
    (secondNested : second.IsNested) : (first.next second).IsNested := by
  intro bodies count entry member
  rcases mem_append.mp member with here | behind
  · obtain ⟨inner, same, numbers⟩ := firstNested _ _ _ here
    refine ⟨inner, same, fun number inside => ?_⟩
    have bounds := numbers number inside
    exact ⟨bounds.1, by simp only [Account.next]; omega⟩
  · obtain ⟨inner, same, numbers⟩ := secondNested _ _ _ behind
    refine ⟨inner, same, fun number inside => ?_⟩
    have bounds := numbers number inside
    exact ⟨by omega, by simp only [Account.next]; omega⟩

theorem IsNested.function {body : Account} (nested : body.IsNested) (name : String) :
    (function name body).IsNested := by
  intro bodies count entry member
  rcases mem_cons.mp member with rfl | inside
  · exact ⟨[], rfl, forall_mem_nil _⟩
  · obtain ⟨inner, same, numbers⟩ := nested _ _ _ inside
    refine ⟨inner ++ [count], by rw [same, append_assoc]; rfl, fun number member => ?_⟩
    simp only [Account.function]
    rcases mem_append.mp member with deeper | here
    · have bounds := numbers number deeper
      omega
    · cases mem_singleton.mp here
      omega

/-- The names are those that are used outside of the functions of the account. -/
def Owns (account : Account) (names : List String) : Prop :=
  ∀ bodies count name, (bodies, .use name) ∈ account.events bodies count ↔ name ∈ names

theorem owns_nothing : nothing.Owns [] :=
  fun _ _ _ => iff_of_false not_mem_nil not_mem_nil

theorem Owns.next {first second : Account} {firstNames secondNames : List String}
    (firstOwns : first.Owns firstNames) (secondOwns : second.Owns secondNames) :
    (first.next second).Owns (firstNames ++ secondNames) := by
  intro bodies count name
  rw [mem_append, ← firstOwns bodies count, ← secondOwns bodies (count + first.functions)]
  exact mem_append

/-- What happens inside of a function does not happen around it. -/
theorem IsNested.owns_function {body : Account} (nested : body.IsNested) (name : String) :
    (Account.function name body).Owns [] := by
  intro bodies count used
  refine iff_of_false (fun member => ?_) not_mem_nil
  rcases mem_cons.mp member with declared | inside
  · cases declared
  · obtain ⟨_, same, _⟩ := nested _ _ _ inside
    have length := congrArg List.length same
    simp only [length_append, length_cons] at length
    omega

end Account

/-! ## Lists that tell accounts -/

/-- The list closes what it opens, and tells what the account tells. -/
structure Tells {Element : Type} [Eventful Element] (list : List Element) (account : Account) :
    Prop where
  passed : ∀ spot, spotBehind spot list = spot.past account.functions
  told : ∀ spot, eventsFrom spot list = account.events spot.bodies spot.functions

namespace Tells

variable {Element : Type} [Eventful Element] {list first second : List Element}
  {account firstAccount secondAccount : Account} {element opener closer : Element}

theorem nil : Tells ([] : List Element) .nothing := ⟨fun _ => rfl, fun _ => rfl⟩

theorem append (firstTells : Tells first firstAccount) (secondTells : Tells second secondAccount) :
    Tells (first ++ second) (firstAccount.next secondAccount) := by
  constructor
  · intro spot
    rw [spotBehind_append, firstTells.passed, secondTells.passed, Spot.past_past]
    rfl
  · intro spot
    rw [eventsFrom_append, firstTells.told, firstTells.passed, secondTells.told]
    rfl

/-- An element that opens and closes nothing. -/
theorem single (stays : ∀ spot, behind element spot = spot) :
    Tells [element] (.of (events element)) :=
  ⟨stays, fun spot => eventsFrom_singleton spot element⟩

/-- An element at which nothing happens. -/
theorem silent (stays : ∀ spot, behind element spot = spot) (none : events element = []) :
    Tells [element] .nothing := by
  have tells := single stays
  rwa [none] at tells

section

variable (inside : Tells list account) (closes : ∀ spot, behind closer spot = spot.left)
  (quiet : events closer = [])

include inside closes quiet

/-- What happens between the two ends of a part, and where the part leads. -/
theorem enclosed (spot : Spot) :
    spotBehind spot ([opener] ++ list ++ [closer]) =
        ((behind opener spot).past account.functions).left ∧
      eventsFrom spot ([opener] ++ list ++ [closer]) = (events opener).map (spot.bodies, ·) ++
        account.events (behind opener spot).bodies (behind opener spot).functions := by
  constructor
  · rw [spotBehind_append, spotBehind_append, inside.passed]
    exact closes _
  · rw [eventsFrom_append, eventsFrom_append, inside.told, eventsFrom_singleton,
      eventsFrom_singleton, quiet]
    exact append_nil _

/-- A part in a block. -/
theorem block (opens : ∀ spot, behind opener spot = spot.inBlock) :
    Tells ([opener] ++ list ++ [closer]) ((Account.of (events opener)).next account) := by
  constructor <;> intro spot
  · rw [(enclosed inside closes quiet spot).1, opens]
    exact congrArg spot.past (Nat.zero_add _).symm
  · rw [(enclosed inside closes quiet spot).2, opens]
    rfl

/-- A function. -/
theorem function {name : String} (opens : ∀ spot, behind opener spot = spot.inFunction)
    (opening : events opener = [.function name]) :
    Tells ([opener] ++ list ++ [closer]) (.function name account) := by
  constructor <;> intro spot
  · rw [(enclosed inside closes quiet spot).1, opens]
    simp [Spot.left, Spot.past, Spot.inFunction, Account.function, Nat.add_right_comm,
      Nat.add_assoc]
  · rw [(enclosed inside closes quiet spot).2, opens, opening]
    rfl

end

end Tells

/-! ## Instructions -/

namespace Instruction

/-- What an instruction does besides reading and writing. -/
def marks : Instruction → List Event
  | .call name _ => [.call name]
  | .functionStart name _ => [.function name]
  | .giveBack _ => [.giveBack]
  | _ => []

/-- The point behind an instruction. -/
def spotBehind : Instruction → Spot → Spot
  | .functionStart _ _, spot => spot.inFunction
  | .functionEnd _, spot => spot.left
  | _, spot => spot

end Instruction

/-- The uses of operands that are read. -/
def Event.ofReads (operands : List Operand) : List Event :=
  (operands.filterMap Operand.storage?).map .use

/-- The use of a place that is written, if there is one. -/
def Event.ofWrite (target : Option Place) : List Event :=
  target.toList.map fun place => .use place.text

/-- Without the uses, only what is done besides reading and writing is left. -/
theorem Event.filter_ofReads_append (reads : List Operand) (marks : List Event)
    (target : Option Place) :
    (ofReads reads ++ marks ++ ofWrite target).filter (fun event => !event.isUse) =
      marks.filter fun event => !event.isUse := by
  have read : (ofReads reads).filter (fun event => !event.isUse) = [] := by
    rw [ofReads, filter_map]
    simp [Function.comp_def, isUse]
  have written : (ofWrite target).filter (fun event => !event.isUse) = [] := by
    cases target <;> rfl
  rw [filter_append, filter_append, read, written, nil_append, append_nil]

theorem Account.owns_of (reads : List Operand) {marks : List Event} (target : Option Place)
    (others : ∀ event ∈ marks, event.isUse = false) :
    (of (Event.ofReads reads ++ marks ++ Event.ofWrite target)).Owns
      (reads.filterMap Operand.storage? ++ target.toList.map Place.text) := by
  intro bodies count name
  have notMarked : .use name ∉ marks := fun member => Bool.noConfusion (others _ member)
  simp only [of, Event.ofReads, Event.ofWrite, mem_map, mem_append, Prod.mk.injEq,
    true_and, exists_eq_right, Event.use.injEq, notMarked, or_false]

instance : Eventful Instruction where
  behind := Instruction.spotBehind
  events instruction :=
    Event.ofReads instruction.reads ++ instruction.marks ++ Event.ofWrite instruction.target?

end BanglaScript
