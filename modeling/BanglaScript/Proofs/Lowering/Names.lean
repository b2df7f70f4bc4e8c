import BanglaScript.Proofs.Evaluation
import BanglaScript.Proofs.Lowering.Frame

/-!
# Names that stand for variables

Each variable that is visible while a program is lowered has a name in the
lowered program.  No two of these names are the same, so what the scopes of the
program hold can be read off the store, and writing one variable changes no
other.
-/

namespace BanglaScript

open List

variable {name target : String} {scope : List (String × String)} {entry : String × String}
  {scopes : List (List (String × String))}

namespace Naming

theorem toDigits_injective {first second : Nat}
    (same : Nat.toDigits 10 first = Nat.toDigits 10 second) : first = second := by
  rw [← Nat.ofDigitChars_ten_toDigits (n := first), same, Nat.ofDigitChars_ten_toDigits]

/-- The fresh name that a variable gets. -/
def renamed (name : String) (count : Nat) : String := s!"{name}${count}"

theorem toList_renamed (name : String) (count : Nat) :
    (renamed name count).toList = name.toList ++ '$' :: Nat.toDigits 10 count := by
  simp [renamed, toString]

theorem toList_slotName (index : Nat) :
    (slotName 0 index).toList = "param".toList ++ Nat.toDigits 10 index := by
  simp [slotName, toString]

/-- A slot inside of other functions looks like a fresh name. -/
theorem slotName_eq_renamed {depth : Nat} (inside : depth ≠ 0) (index : Nat) :
    slotName depth index = renamed (slotName 0 index) depth := by
  simp [slotName, renamed, inside, toString]

/-- A name that can be declared and is not like any fresh name. -/
structure IsPlain (name : String) : Prop where
  noDollar : '$' ∉ name.toList
  notTrue : name ≠ "true"
  notFalse : name ≠ "false"

theorem renamed_ne {plain : String} (noDollar : '$' ∉ plain.toList) (count : Nat) :
    renamed name count ≠ plain := by
  rintro rfl
  exact noDollar (by simp [toList_renamed])

/-- What follows the dollar sign of a fresh name. -/
theorem dropWhile_renamed (noDollar : '$' ∉ name.toList) (count : Nat) :
    (renamed name count).toList.dropWhile (· ≠ '$') = '$' :: Nat.toDigits 10 count := by
  rw [toList_renamed, dropWhile_append_of_pos]
  · rfl
  · intro character member
    exact decide_eq_true fun same => noDollar (same ▸ member)

/-- Fresh names of different numbers differ. -/
theorem renamed_injective {first second : String} {firstCount secondCount : Nat}
    (firstPlain : '$' ∉ first.toList) (secondPlain : '$' ∉ second.toList)
    (same : renamed first firstCount = renamed second secondCount) : firstCount = secondCount := by
  have lists := dropWhile_renamed firstPlain firstCount
  rw [same, dropWhile_renamed secondPlain] at lists
  exact toDigits_injective (List.cons.inj lists).2.symm

/-- The visible variables with their names in the lowered program. -/
def entries (naming : Naming) : List (String × String) := naming.scopes.flatten

/-- A variable keeps its name, or it has got one of the fresh names so far. -/
def IsNameOf (renames : Nat) (entry : String × String) : Prop :=
  entry.2 = entry.1 ∨ ∃ count, count ≤ renames ∧ entry.2 = renamed entry.1 count

/-- Visible variables have different names, all of which come from plain
names, and a scope is open. -/
structure Separates (naming : Naming) : Prop where
  isOpen : naming.scopes ≠ []
  distinct : (naming.entries.map Prod.snd).Nodup
  plain : ∀ entry ∈ naming.entries, IsPlain entry.1
  named : ∀ entry ∈ naming.entries, IsNameOf naming.renames entry

theorem exists_of_bound? {naming : Naming} (bound : naming.bound? name = some target) :
    (name, target) ∈ naming.entries := by
  obtain ⟨_, scopeMem, found⟩ := exists_of_findSome?_eq_some bound
  obtain ⟨_, _, rfl, _⟩ := lookup_eq_some_iff.mp found
  exact mem_flatten.mpr ⟨_, scopeMem, by simp⟩

theorem ne_of_bound?_eq_none {naming : Naming} (free : naming.bound? name = none)
    (member : entry ∈ naming.entries) : entry.1 ≠ name := by
  obtain ⟨scope, scopeMem, entryMem⟩ := mem_flatten.mp member
  have missing := findSome?_eq_none_iff.mp free scope scopeMem
  have different := lookup_eq_none_iff.mp missing entry entryMem
  exact fun same => bne_iff_ne.mp different same.symm

/-- A declaration adds at most its own entry. -/
theorem mem_entries_declare {naming : Naming} (member : entry ∈ (naming.declare name).2.entries) :
    entry = (name, (naming.declare name).1) ∨ entry ∈ naming.entries := by
  have onBinding {naming : Naming} {target : String}
      (member : entry ∈ (naming.bind name target).entries) :
      entry = (name, target) ∨ entry ∈ naming.entries := by
    unfold bind at member
    split at member
    · exact .inr member
    · rename_i scope outer scopes
      have entries : naming.entries = scope ++ outer.flatten := congrArg List.flatten scopes
      exact entries ▸ mem_cons.mp member
  unfold declare at member ⊢
  split at member
  · exact onBinding member
  · exact @onBinding { naming with renames := naming.renames + 1 } _ member

theorem renames_bind (naming : Naming) (name target : String) :
    (naming.bind name target).renames = naming.renames := by
  unfold bind
  split <;> rfl

theorem renames_declare (naming : Naming) (name : String) :
    (naming.declare name).2.renames =
      naming.renames + if (naming.bound? name).isSome then 1 else 0 := by
  unfold declare
  cases naming.bound? name <;> exact renames_bind _ _ _

/-- A declaration gives a variable its own name or a fresh one. -/
theorem declare_named (naming : Naming) (name : String) :
    naming.renames ≤ (naming.declare name).2.renames ∧
      IsNameOf (naming.declare name).2.renames (name, (naming.declare name).1) := by
  unfold declare
  split
  · exact ⟨Nat.le_of_eq (renames_bind _ _ _).symm, .inl rfl⟩
  · simp only [renames_bind]
    exact ⟨Nat.le_succ _, .inr ⟨naming.renames + 1, Nat.le_refl _, rfl⟩⟩

theorem IsNameOf.mono {first second : Nat} (named : IsNameOf first entry)
    (renames : first ≤ second) : IsNameOf second entry := by
  rcases named with kept | ⟨count, used, fresh⟩
  · exact .inl kept
  · exact .inr ⟨count, Nat.le_trans used renames, fresh⟩

namespace Separates

variable {naming : Naming}

variable (separates : naming.Separates)

include separates

/-- No variable has the name of a truth value. -/
theorem ne_truth (member : entry ∈ naming.entries) : entry.2 ≠ "true" ∧ entry.2 ≠ "false" := by
  have plain := separates.plain entry member
  rcases separates.named entry member with kept | ⟨count, _, fresh⟩
  · rw [kept]
    exact ⟨plain.notTrue, plain.notFalse⟩
  · rw [fresh]
    exact ⟨renamed_ne (by decide) count, renamed_ne (by decide) count⟩

theorem openScope : naming.openScope.Separates :=
  ⟨cons_ne_nil _ _, separates.distinct, separates.plain, separates.named⟩

/-- The same scopes with at least as many fresh names used. -/
theorem of_scopes {later : Naming}
    (scopes : later.scopes = naming.scopes) (renames : naming.renames ≤ later.renames) :
    later.Separates := by
  have same : later.entries = naming.entries := congrArg List.flatten scopes
  refine ⟨scopes ▸ separates.isOpen, same ▸ separates.distinct, same ▸ separates.plain, ?_⟩
  intro entry member
  exact (separates.named entry (same ▸ member)).mono renames

/-- The name that a declaration gives to a variable is new. -/
theorem declare_not_mem (plain : IsPlain name) :
    (naming.declare name).1 ∉ naming.entries.map Prod.snd := by
  intro member
  obtain ⟨entry, entryMem, same⟩ := mem_map.mp member
  have entryPlain := (separates.plain entry entryMem).noDollar
  have entryNamed := separates.named entry entryMem
  unfold Naming.declare at same
  split at same
  · rename_i free
    rcases entryNamed with kept | ⟨count, _, fresh⟩
    · exact ne_of_bound?_eq_none free entryMem (kept.symm.trans same)
    · exact renamed_ne plain.noDollar count (fresh.symm.trans same)
  · have same : entry.2 = renamed name (naming.renames + 1) := same
    rcases entryNamed with kept | ⟨count, used, fresh⟩
    · exact renamed_ne entryPlain _ (same.symm.trans kept)
    · have counts := renamed_injective entryPlain plain.noDollar (fresh.symm.trans same)
      omega

/-- A declaration adds one entry to the innermost scope. -/
theorem declare_scopes (name : String) :
    ∃ scope outer, naming.scopes = scope :: outer ∧
      (naming.declare name).2.scopes = ((name, (naming.declare name).1) :: scope) :: outer := by
  obtain ⟨scope, outer, scopes⟩ := exists_cons_of_ne_nil separates.isOpen
  exact ⟨scope, outer, scopes, scopes_declare scopes name⟩

theorem declare (plain : IsPlain name) : (naming.declare name).2.Separates := by
  obtain ⟨_, _, before, after⟩ := separates.declare_scopes name
  obtain ⟨renames, added⟩ := declare_named naming name
  have entries : (naming.declare name).2.entries =
      (name, (naming.declare name).1) :: naming.entries := by
    rw [Naming.entries, Naming.entries, before, after]
    rfl
  refine ⟨after ▸ cons_ne_nil _ _, ?_, ?_, ?_⟩
  · rw [entries, map_cons, nodup_cons]
    exact ⟨separates.declare_not_mem plain, separates.distinct⟩
  · rw [entries]
    intro entry member
    rcases mem_cons.mp member with rfl | old
    · exact plain
    · exact separates.plain entry old
  · rw [entries]
    intro entry member
    rcases mem_cons.mp member with rfl | old
    · exact added
    · exact (separates.named entry old).mono renames

end Separates

/-! ## What the scopes hold -/

variable {Value : Type}

/-- One scope of the program, read off the store. -/
def viewScope (store : Store Value) (scope : List (String × String)) : List (String × Value) :=
  scope.map fun entry => (entry.1, store (.variable entry.2))

/-- The scopes of the program, read off the store. -/
def view (naming : Naming) (store : Store Value) : Scopes Value :=
  naming.scopes.map (viewScope store)

theorem lookup_viewScope (store : Store Value) (scope : List (String × String)) (name : String) :
    (viewScope store scope).lookup name =
      (scope.lookup name).map fun target => store (.variable target) :=
  Scopes.lookup_map (fun target => store (.variable target)) scope name

/-- The value of a variable is what its name holds. -/
theorem find?_view (naming : Naming) (store : Store Value) (name : String) :
    (naming.view store).find? name =
      (naming.bound? name).map fun target => store (.variable target) :=
  Scopes.find?_mapValues (fun target => store (.variable target)) naming.scopes name

/-- Only the names of visible variables matter. -/
theorem view_congr {naming : Naming} {first second : Store Value}
    (same : ∀ name, second (.variable name) = first (.variable name)) :
    naming.view second = naming.view first := by
  apply map_congr_left
  intro scope _
  apply map_congr_left
  intro entry _
  rw [same]

/-- Writing a name that stands for no variable of a scope changes nothing
there. -/
theorem viewScope_set (fresh : target ∉ scope.map Prod.snd) (store : Store Value) (value : Value) :
    viewScope (store.set (.variable target) value) scope = viewScope store scope := by
  apply map_congr_left
  intro entry member
  rw [store.set_of_ne value]
  intro same
  cases same
  exact fresh (mem_map_of_mem member)

theorem map_viewScope_set (fresh : target ∉ scopes.flatten.map Prod.snd) (store : Store Value)
    (value : Value) :
    scopes.map (viewScope (store.set (.variable target) value)) =
      scopes.map (viewScope store) := by
  apply map_congr_left
  intro scope scopeMem
  apply viewScope_set
  intro member
  obtain ⟨entry, entryMem, same⟩ := mem_map.mp member
  exact fresh (mem_map.mpr ⟨entry, mem_flatten.mpr ⟨scope, scopeMem, entryMem⟩, same⟩)

/-- What a look-up finds is one of the names. -/
theorem mem_of_lookup (found : scope.lookup name = some target) : target ∈ scope.map Prod.snd := by
  obtain ⟨_, _, rfl, _⟩ := lookup_eq_some_iff.mp found
  simp

/-- Assigning a variable of a scope writes its name. -/
theorem assignIn_viewScope {store : Store Value} (distinct : (scope.map Prod.snd).Nodup)
    (found : scope.lookup name = some target) (value : Value) :
    Scopes.assignIn name value (viewScope store scope) =
      viewScope (store.set (.variable target) value) scope := by
  induction scope with
  | nil => cases found
  | cons entry rest ih =>
    obtain ⟨bound, other⟩ := entry
    obtain ⟨fresh, restDistinct⟩ := nodup_cons.mp distinct
    by_cases same : name = bound
    · rw [same, lookup_cons_self] at found
      cases found
      have unchanged := viewScope_set fresh store value
      simp only [viewScope, map_cons, Scopes.assignIn, same, if_true] at unchanged ⊢
      rw [unchanged, Store.set_self]
    · rw [lookup_cons, beq_false_of_ne same] at found
      have unchanged : store.set (.variable target) value (.variable other) =
          store (.variable other) := by
        refine store.set_of_ne value fun samePlace => fresh ?_
        cases samePlace
        exact mem_of_lookup found
      simp only [viewScope, map_cons, Scopes.assignIn, Ne.symm same, if_false] at ih ⊢
      rw [ih restDistinct found, unchanged]

/-- Assigning a visible variable writes its name. -/
theorem assign?_map_viewScope {store : Store Value}
    (distinct : (scopes.flatten.map Prod.snd).Nodup)
    (found : scopes.findSome? (·.lookup name) = some target) (value : Value) :
    Scopes.assign? name value (scopes.map (viewScope store)) =
      some (scopes.map (viewScope (store.set (.variable target) value))) := by
  induction scopes with
  | nil => cases found
  | cons scope outer ih =>
    rw [flatten_cons, map_append, nodup_append] at distinct
    obtain ⟨scopeDistinct, outerDistinct, apart⟩ := distinct
    simp only [map_cons, Scopes.assign?, lookup_viewScope, Option.isSome_map]
    rw [findSome?_cons] at found
    cases here : scope.lookup name with
    | some =>
      rw [here] at found
      cases found
      have unchanged := map_viewScope_set
        (fun member => apart _ (mem_of_lookup here) _ member rfl) store value
      rw [unchanged, ← assignIn_viewScope scopeDistinct here value]
      rfl
    | none =>
      rw [here] at found
      have outerMem : target ∈ outer.flatten.map Prod.snd := by
        obtain ⟨other, otherMem, otherFound⟩ := exists_of_findSome?_eq_some found
        obtain ⟨entry, entryMem, same⟩ := mem_map.mp (mem_of_lookup otherFound)
        exact mem_map.mpr ⟨entry, mem_flatten.mpr ⟨other, otherMem, entryMem⟩, same⟩
      have unchanged := viewScope_set
        (fun member => apart _ member _ outerMem rfl) store value
      rw [ih outerDistinct found, unchanged]
      rfl

/-- Declaring a variable writes its new name. -/
theorem Separates.bind_view {naming : Naming} (separates : naming.Separates)
    (plain : IsPlain name) (store : Store Value) (value : Value) :
    (naming.view store).bind name value =
      (naming.declare name).2.view (store.set (.variable (naming.declare name).1) value) := by
  obtain ⟨_, _, before, after⟩ := separates.declare_scopes name
  have unchanged := map_viewScope_set (separates.declare_not_mem plain) store value
  rw [before] at unchanged
  rw [view, view, before, after, map_cons, map_cons]
  simp only [map_cons, List.cons.injEq] at unchanged
  rw [← unchanged.1, ← unchanged.2]
  simp only [Scopes.bind, viewScope, map_cons, Store.set_self]

end Naming

end BanglaScript
