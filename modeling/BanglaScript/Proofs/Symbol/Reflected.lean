import BanglaScript.Proofs.Symbol.History
import Mathlib.Data.List.Forall2
import Mathlib.Data.List.Nodup

/-!
# Symbol tables reflect their histories

The symbols of a table are numbered by their keys, in the order of the first
declarations.  Every call keeps this, so every answer of a table can be read off
the history of the calls.
-/

namespace BanglaScript

open List

/-! ## Numbers of keys

The keys in the order of their first declaration.  The number of a symbol is the
position of its key. -/

variable {key : TableKey} {name : String}

section Keys

variable {keys : List TableKey}

theorem getElem?_append_singleton_eq_some {other : TableKey} {number : Nat} :
    (keys ++ [key])[number]? = some other ↔
      keys[number]? = some other ∨ number = keys.length ∧ key = other := by
  rw [getElem?_append]
  split
  case isTrue small =>
    exact ⟨.inl, fun found => found.resolve_right fun last => absurd last.1 (Nat.ne_of_lt small)⟩
  case isFalse large =>
    rw [getElem?_eq_none (Nat.le_of_not_lt large)]
    by_cases last : number = keys.length
    · simp [last]
    · have beyond : number - keys.length ≠ 0 := by omega
      simp [last, beyond]

theorem getElem?_of_isPrefix {Item : Type} {first second : List Item} (isPrefix : first <+: second)
    {position : Nat} {item : Item} (found : first[position]? = some item) :
    second[position]? = some item := by
  obtain ⟨_, rfl⟩ := isPrefix
  rw [getElem?_append_left (List.getElem?_eq_some_iff.mp found).1, found]

theorem eq_of_getElem?_eq_some (nodup : keys.Nodup) {first second : Nat}
    (firstFound : keys[first]? = some key) (secondFound : keys[second]? = some key) :
    first = second := by
  obtain ⟨small, _⟩ := List.getElem?_eq_some_iff.mp firstFound
  exact (getElem?_inj small nodup).mp (firstFound.trans secondFound.symm)

/-- Changing what stands under one of different keys changes one place of a
list. -/
theorem map_update_of_nodup {Item : Type} (nodup : keys.Nodup) {number : Nat}
    (found : keys[number]? = some key) (item : TableKey → Item) (value : Item) :
    keys.map (Function.update item key value) = (keys.map item).set number value := by
  refine ext_getElem? fun position => ?_
  rw [getElem?_map, getElem?_set, getElem?_map, length_map]
  by_cases same : number = position
  · subst same
    rw [if_pos rfl, if_pos (List.getElem?_eq_some_iff.mp found).1, found, Option.map_some,
      Function.update_self]
  · rw [if_neg same]
    refine Option.map_congr fun other member => Function.update_of_ne ?_ _ _
    rintro rfl
    exact same (eq_of_getElem?_eq_some nodup found member)

theorem Scope.find?_bind (scope : Scope) (name other : String) (number : Nat) :
    (scope.bind name number).find? other =
      if other = name then some number else scope.find? other := by
  rw [find?, bind, lookup_cons]
  by_cases same : other = name
  · simp [same]
  · have different : (other == name) = false := beq_eq_false_iff_ne.mpr same
    simp [same, different, find?]

/-- A scope maps its names to the numbers of their keys. -/
def Holds (keys : List TableKey) (place : Nat) (scope : Scope) : Prop :=
  ∀ name number, scope.find? name = some number ↔ keys[number]? = some (place, name)

namespace Holds

variable {place : Nat} {scope : Scope}

theorem find?_eq_none_iff (holds : Holds keys place scope) :
    scope.find? name = none ↔ (place, name) ∉ keys := by
  rw [Option.eq_none_iff_forall_ne_some, mem_iff_getElem?, not_exists]
  exact forall_congr' fun number => not_congr (holds name number)

/-- A scope that has just been opened holds nothing. -/
theorem ofNone (none : ∀ key ∈ keys, key.1 ≠ place) (label : String) :
    Holds keys place { name := label } := fun _ _ =>
  ⟨nofun, fun found => absurd rfl (none _ (mem_of_getElem? found))⟩

/-- Scopes do not change by a declaration in another one. -/
theorem append (holds : Holds keys place scope) (different : key.1 ≠ place) :
    Holds (keys ++ [key]) place scope := fun name number => by
  rw [holds, getElem?_append_singleton_eq_some]
  refine ⟨.inl, fun found => found.resolve_right fun last => different ?_⟩
  rw [last.2]

theorem bind (holds : Holds keys place scope) (new : (place, name) ∉ keys) :
    Holds (keys ++ [(place, name)]) place (scope.bind name keys.length) := fun other number => by
  rw [getElem?_append_singleton_eq_some, ← holds]
  rw [Scope.find?_bind]
  by_cases same : other = name
  · subst same
    rw [if_pos rfl, holds.find?_eq_none_iff.mpr new]
    simp [eq_comm]
  · rw [if_neg same]
    simp [Ne.symm same]

end Holds

/-- A scope that is open has its name and holds its keys. -/
def Mirrors (keys : List TableKey) (opened : Nat × String) (scope : Scope) : Prop :=
  scope.name = opened.2 ∧ Holds keys opened.1 scope

theorem forall₂_mirrors_append {inner : List (Nat × String)} {scopes : List Scope}
    (mirrors : List.Forall₂ (Mirrors keys) inner scopes)
    (different : ∀ opened ∈ inner, key.1 ≠ opened.1) :
    List.Forall₂ (Mirrors (keys ++ [key])) inner scopes := by
  induction mirrors with
  | nil => exact .nil
  | cons here _ ih =>
    obtain ⟨differentHere, differentRest⟩ := forall_mem_cons.mp different
    exact .cons ⟨here.1, here.2.append differentHere⟩ (ih differentRest)

end Keys

/-! ## Tables and their histories -/

open History in
/-- The table of a run is the one that its history tells of. -/
structure Reflects (keys : List TableKey) (history : History) (run : TableRun) : Prop where
  scoping : run.table.scoping = history.scoping
  blocks : run.table.blockCount = history.blocks
  globalName : run.table.globalScope.name = "global"
  inner : List.Forall₂ (Mirrors keys) history.inner run.table.innerScopes
  globalScope : Holds keys 0 run.table.globalScope
  nodup : keys.Nodup
  declared : ∀ key, key ∈ keys ↔ key ∈ history.declarations
  symbols : run.table.symbols.map some = keys.map history.current?
  numbers : List.Forall₂ (fun number key => keys[number]? = some key) run.numbers
    history.declarations
  ordered : history.IsOrdered

namespace Reflects

variable {keys : List TableKey} {history : History} {run : TableRun}

theorem empty (scoping : Scoping) :
    Reflects [] { scoping := scoping } ⟨.empty scoping, []⟩ where
  scoping := rfl
  blocks := rfl
  globalName := rfl
  inner := .nil
  globalScope := .ofNone (fun _ member => (not_mem_nil member).elim) _
  nodup := nodup_nil
  declared _ := Iff.rfl
  symbols := rfl
  numbers := .nil
  ordered := ⟨.nil, nofun, nofun, nofun⟩

/-! ### Answers -/

section

variable (reflects : Reflects keys history run)

include reflects

theorem innermost :
    run.table.innermostScope.name = history.innermost.2 ∧
      Holds keys history.innermost.1 run.table.innermostScope := by
  have inner := reflects.inner
  rw [SymbolTable.innermostScope, History.innermost]
  generalize history.inner = opened at inner
  generalize run.table.innerScopes = scopes at inner
  cases inner with
  | nil => exact ⟨reflects.globalName, reflects.globalScope⟩
  | cons here => exact here

theorem receivingScope : Holds keys history.receiving run.table.receivingScope := by
  rw [SymbolTable.receivingScope, History.receiving, reflects.scoping]
  cases history.scoping with
  | flat => exact reflects.globalScope
  | lexical => exact reflects.innermost.2

theorem searchedScopes : List.Forall₂ (Holds keys) history.searched run.table.searchedScopes := by
  rw [SymbolTable.searchedScopes, History.searched, reflects.scoping]
  cases history.scoping with
  | flat => exact .cons reflects.globalScope .nil
  | lexical =>
    have inner : List.Forall₂ (Holds keys) (history.inner.map Prod.fst) run.table.innerScopes :=
      forall₂_map_left_iff.mpr (reflects.inner.imp fun _ _ => And.right)
    exact rel_append inner (.cons reflects.globalScope .nil)

/-- The number that a name refers to is the one of the key that it refers to. -/
theorem resolve? (name : String) :
    Option.Rel (fun number key => keys[number]? = some key) (run.table.resolve? name)
      (history.resolve? name) := by
  have scopes := reflects.searchedScopes
  rw [SymbolTable.resolve?, History.resolve?]
  generalize history.searched = places at scopes
  generalize run.table.searchedScopes = list at scopes
  induction scopes with
  | nil => exact .none
  | @cons place scope _ _ here _ ih =>
    rw [findSome?_cons, map_cons, find?_cons]
    cases found : scope.find? name with
    | none =>
      have absent := here.find?_eq_none_iff.mp found
      rw [reflects.declared] at absent
      rw [decide_eq_false absent]
      exact ih
    | some number =>
      have held := (here name number).mp found
      rw [decide_eq_true ((reflects.declared _).mp (mem_of_getElem? held))]
      exact .some held

theorem number (declaration : Nat) :
    Option.Rel (fun number key => keys[number]? = some key) run.numbers[declaration]?
      history.declarations[declaration]? := by
  have numbers := reflects.numbers
  generalize history.declarations = declarations at numbers
  generalize run.numbers = list at numbers
  induction numbers generalizing declaration with
  | nil => exact .none
  | cons here _ ih =>
    cases declaration with
    | zero => exact .some here
    | succ declaration => exact ih declaration

/-- The symbol with a number stands under the key with this number. -/
theorem get? {number : Nat} (found : keys[number]? = some key) :
    ∃ symbol, run.table.get? number = some symbol ∧ history.current? key = some symbol := by
  have same := congrArg (·[number]?) reflects.symbols
  simp only [getElem?_map, found, Option.map_some] at same
  obtain ⟨symbol, held, current⟩ := Option.map_eq_some_iff.mp same
  exact ⟨symbol, held, current.symm⟩

/-! ### Calls -/

theorem openScope (name : String) :
    Reflects keys (history.openScope name) { run with table := run.table.openScope name } :=
  { reflects with
    inner := by
      refine .cons ⟨rfl, .ofNone (fun key member => ?_) name⟩ reflects.inner
      have old := reflects.ordered.declared key ((reflects.declared key).mp member)
      exact Nat.ne_of_lt (Nat.lt_succ_of_le old)
    ordered := reflects.ordered.openScope name }

theorem countBlock : Reflects keys { history with blocks := history.blocks + 1 }
      { run with table := { run.table with blockCount := run.table.blockCount + 1 } } :=
  { reflects with
    blocks := congrArg (· + 1) reflects.blocks
    ordered := { reflects.ordered with } }

theorem closeScope : Reflects keys { history with inner := history.inner.tail }
      { run with table := run.table.closeScope } :=
  { reflects with
    inner := by
      have inner := reflects.inner
      change List.Forall₂ _ history.inner.tail run.table.innerScopes.tail
      generalize history.inner = opened at inner
      generalize run.table.innerScopes = scopes at inner
      cases inner with
      | nil => exact .nil
      | cons _ outer => exact outer
    ordered := reflects.ordered.closeScope }

/-- The symbol of a key gets a value. -/
theorem initializeAt {number : Nat} (found : keys[number]? = some key) :
    Reflects keys (history.record (.initialized key))
      { run with table := run.table.initializeAt number } :=
  { reflects with
    declared := by
      rw [History.declarations_initialized]
      exact reflects.declared
    symbols := by
      obtain ⟨_, held, current⟩ := reflects.get? found
      rw [History.current?_initialized, map_update_of_nodup reflects.nodup found,
        ← reflects.symbols, current]
      change (run.table.symbols.modify number Symbol.withValue).map some = _
      rw [SymbolTable.get?] at held
      simp [modify_eq_set_getElem?, held]
    numbers := by
      rw [History.declarations_initialized]
      exact reflects.numbers
    ordered := reflects.ordered.initialized key }

/-- A second declaration of a key replaces the first one. -/
theorem redeclare {number : Nat} (found : keys[number]? = some key) (symbol : Symbol)
    (ordered : (history.record (.declared key symbol)).IsOrdered) :
    Reflects keys (history.record (.declared key symbol))
      ⟨{ run.table with symbols := run.table.symbols.set number symbol },
        run.numbers ++ [number]⟩ :=
  { reflects with
    declared := fun other => by
      rw [History.declarations_declared, mem_append, mem_singleton, ← reflects.declared]
      exact ⟨.inl, fun member => member.elim id fun same => same ▸ mem_of_getElem? found⟩
    symbols := by
      rw [History.current?_declared, map_update_of_nodup reflects.nodup found, ← reflects.symbols,
        map_set]
    numbers := by
      rw [History.declarations_declared]
      exact rel_append reflects.numbers (.cons found .nil)
    ordered := ordered }

/-- A new name is bound in the scope that receives it, and in no other. -/
theorem bindNew (new : (history.receiving, name) ∉ keys) :
    let bound := run.table.mapReceivingScope fun scope => scope.bind name keys.length
    let more := keys ++ [(history.receiving, name)]
    List.Forall₂ (Mirrors more) history.inner bound.innerScopes ∧
      bound.globalScope.name = "global" ∧ Holds more 0 bound.globalScope := by
  have inner := reflects.inner
  have ordered := reflects.ordered
  have positive : ∀ opened ∈ history.inner, 0 ≠ opened.1 := fun opened member =>
    Nat.ne_of_lt (ordered.positive opened member)
  have inGlobal (place : history.receiving = 0) :
      Holds (keys ++ [(0, name)]) 0 (run.table.globalScope.bind name keys.length) :=
    reflects.globalScope.bind (place ▸ new)
  simp only [SymbolTable.mapReceivingScope, reflects.scoping]
  cases mode : history.scoping with
  | flat =>
    have place : history.receiving = 0 := by rw [History.receiving, mode]
    rw [place]
    exact ⟨forall₂_mirrors_append inner positive, reflects.globalName, inGlobal place⟩
  | lexical =>
    have place : history.receiving = history.innermost.1 := by rw [History.receiving, mode]
    cases opens : history.inner with
    | nil =>
      rw [opens] at inner
      have global : history.receiving = 0 := by rw [place, History.innermost, opens]; rfl
      rw [forall₂_nil_left_iff.mp inner, global]
      exact ⟨.nil, reflects.globalName, inGlobal global⟩
    | cons opened outer =>
      have here : history.receiving = opened.1 := by rw [place, History.innermost, opens]; rfl
      rw [opens] at inner positive
      obtain ⟨_, _, first, rest, list⟩ := forall₂_cons_left_iff.mp inner
      rw [list, here]
      have smaller : ∀ other ∈ outer, opened.1 ≠ other.1 := fun other member => by
        have pairs := ordered.inner
        rw [opens, map_cons, pairwise_cons] at pairs
        exact Nat.ne_of_gt (pairs.1 other.1 (mem_map_of_mem member))
      refine ⟨.cons ⟨first.1, first.2.bind (here ▸ new)⟩ (forall₂_mirrors_append rest smaller),
        reflects.globalName, reflects.globalScope.append ?_⟩
      exact (positive opened mem_cons_self).symm

/-- The first declaration of a key gives it the next number. -/
theorem declareNew (symbol : Symbol) (new : (history.receiving, name) ∉ keys) :
    Reflects (keys ++ [(history.receiving, name)])
      (history.record (.declared (history.receiving, name) symbol))
      ⟨{ run.table with symbols := run.table.symbols ++ [symbol] }.mapReceivingScope fun scope =>
        scope.bind name run.table.symbols.length, run.numbers ++ [run.table.symbols.length]⟩ := by
  have length : run.table.symbols.length = keys.length := by
    simpa using congrArg List.length reflects.symbols
  obtain ⟨inner, globalName, globalScope⟩ := reflects.bindNew new
  have table : { run.table with symbols := run.table.symbols ++ [symbol] }.mapReceivingScope
      (fun scope => scope.bind name run.table.symbols.length) =
      { run.table.mapReceivingScope fun scope => scope.bind name keys.length with
        symbols := run.table.symbols ++ [symbol], scoping := run.table.scoping,
        blockCount := run.table.blockCount } := by
    rw [length]
    simp only [SymbolTable.mapReceivingScope]
    split <;> rfl
  rw [table]
  exact {
    scoping := reflects.scoping
    blocks := reflects.blocks
    globalName := globalName
    inner := inner
    globalScope := globalScope
    nodup := by
      rw [← concat_eq_append]
      exact reflects.nodup.concat new
    declared := fun key => by
      rw [History.declarations_declared, mem_append, mem_append, reflects.declared]
    symbols := by
      rw [History.current?_declared, map_append, map_append, reflects.symbols]
      congr 1
      · refine map_congr_left fun key member => (Function.update_of_ne ?_ _ _).symm
        rintro rfl
        exact new member
      · rw [map_singleton, map_singleton, Function.update_self]
    numbers := by
      rw [History.declarations_declared]
      refine rel_append (reflects.numbers.imp fun number key found => ?_) (.cons ?_ .nil)
      · exact getElem?_append_singleton_eq_some.mpr (.inl found)
      · exact getElem?_append_singleton_eq_some.mpr (.inr ⟨length, rfl⟩)
    ordered := reflects.ordered.declare name symbol }

theorem declare (name : String) (type : ValueType) (kind : SymbolKind) :
    ∃ keys, Reflects keys (history.after (.declare name type kind))
      (run.after (.declare name type kind)) := by
  have holds := reflects.receivingScope
  rw [History.after, TableRun.after, SymbolTable.declare, reflects.innermost.1]
  cases found : run.table.receivingScope.find? name with
  | some number =>
    exact ⟨keys, reflects.redeclare ((holds name number).mp found) _
      (reflects.ordered.declare name _)⟩
  | none => exact ⟨_, reflects.declareNew _ (holds.find?_eq_none_iff.mp found)⟩

/-- Every call leads on from a table and its history to a table and its history. -/
theorem after (call : TableCall) : ∃ keys, Reflects keys (history.after call) (run.after call) := by
  cases call with
  | openScope name => exact ⟨keys, reflects.openScope name⟩
  | openFunction => exact ⟨keys, reflects.openScope _⟩
  | openBlock =>
    have opened := reflects.countBlock.openScope s!"block_{history.blocks + 1}"
    rw [← reflects.blocks] at opened
    rw [History.after, ← reflects.blocks]
    exact ⟨keys, opened⟩
  | closeScope => exact ⟨keys, reflects.closeScope⟩
  | declare name type kind => exact reflects.declare name type kind
  | initializeName name =>
    have resolved := reflects.resolve? name
    rw [History.after, TableRun.after, SymbolTable.initializeName]
    generalize run.table.resolve? name = number? at resolved
    generalize history.resolve? name = key? at resolved
    cases resolved with
    | none => exact ⟨keys, reflects⟩
    | some found => exact ⟨keys, reflects.initializeAt found⟩
  | initializeDeclared declaration =>
    have numbered := reflects.number declaration
    rw [History.after, TableRun.after]
    generalize run.numbers[declaration]? = number? at numbered
    generalize history.declarations[declaration]? = key? at numbered
    cases numbered with
    | none => exact ⟨keys, reflects⟩
    | some found => exact ⟨keys, reflects.initializeAt found⟩

end

/-- The table of any calls reflects their history. -/
theorem ofCalls (scoping : Scoping) (calls : List TableCall) :
    ∃ keys, Reflects keys (History.ofCalls scoping calls) (TableRun.ofCalls scoping calls) := by
  induction calls using List.reverseRecOn with
  | nil => exact ⟨[], .empty scoping⟩
  | append_singleton calls call ih =>
    obtain ⟨_, reflects⟩ := ih
    rw [History.ofCalls, TableRun.ofCalls, foldl_append, foldl_append]
    exact reflects.after call

/-! ### What the history answers -/

variable (reflects : Reflects keys history run)

include reflects

theorem lookup?_eq (name : String) : run.table.lookup? name = history.lookup? name := by
  have resolved := reflects.resolve? name
  rw [SymbolTable.lookup?, History.lookup?]
  generalize run.table.resolve? name = number? at resolved
  generalize history.resolve? name = key? at resolved
  cases resolved with
  | none => rfl
  | some found =>
    obtain ⟨_, held, current⟩ := reflects.get? found
    exact held.trans current.symm

/-- What the receiving scope has a number for is a symbol. -/
theorem exists_get?_of_find? {name : String} {number : Nat}
    (found : run.table.receivingScope.find? name = some number) :
    ∃ symbol, run.table.get? number = some symbol := by
  obtain ⟨symbol, held, _⟩ := reflects.get? ((reflects.receivingScope name number).mp found)
  exact ⟨symbol, held⟩

theorem conflict?_eq (name : String) : run.table.conflict? name = history.conflict? name := by
  have holds := reflects.receivingScope
  rw [SymbolTable.conflict?, History.conflict?]
  cases found : run.table.receivingScope.find? name with
  | none =>
    have absent := holds.find?_eq_none_iff.mp found
    rw [reflects.declared] at absent
    exact (History.current?_eq_none absent).symm
  | some number =>
    obtain ⟨_, held, current⟩ := reflects.get? ((holds name number).mp found)
    exact held.trans current.symm

/-- The key of the number that a declaration has given. -/
theorem getElem?_of_number {declaration number : Nat}
    (given : run.numbers[declaration]? = some number)
    (declared : history.declarations[declaration]? = some key) : keys[number]? = some key := by
  have numbered := reflects.number declaration
  rw [given, declared] at numbered
  cases numbered with
  | some found => exact found

end Reflects

/-! ## Closed scopes -/

namespace Reflects

variable {keys : List TableKey} {history : History} {run : TableRun}

/-- A scope in which something has been declared is open or has been left. -/
theorem isClosed (reflects : Reflects keys history run) (lexical : history.scoping = .lexical)
    (declared : key ∈ history.declarations) (left : key.1 ∉ history.searched) :
    history.IsClosed key.1 := by
  rw [History.searched, lexical, mem_append, mem_singleton, not_or] at left
  exact ⟨reflects.ordered.declared key declared, left.1, left.2⟩

/-- Under lexical scoping no name refers to what has been declared in a scope that
has been left, however the table is used from then on. -/
theorem resolve?_ne_of_left {scoping : Scoping} (lexical : scoping = .lexical)
    {calls : List TableCall} {declaration number : Nat}
    (given : (TableRun.ofCalls scoping calls).numbers[declaration]? = some number)
    (declared : (History.ofCalls scoping calls).declarations[declaration]? = some key)
    (left : key.1 ∉ (History.ofCalls scoping calls).searched) (later : List TableCall)
    (name : String) :
    (TableRun.ofCalls scoping (calls ++ later)).table.resolve? name ≠ some number := by
  obtain ⟨_, before⟩ := Reflects.ofCalls scoping calls
  obtain ⟨keys, behind⟩ := Reflects.ofCalls scoping (calls ++ later)
  have mode := (History.scoping_ofCalls scoping calls).trans lexical
  have laterMode := (History.scoping_ofCalls scoping (calls ++ later)).trans lexical
  have closed : (History.ofCalls scoping (calls ++ later)).IsClosed key.1 := by
    rw [History.ofCalls, foldl_append]
    exact (before.isClosed mode (mem_of_getElem? declared) left).foldl_after later
  have numbered : keys[number]? = some key := by
    refine behind.getElem?_of_number (getElem?_of_isPrefix ?_ given)
      (getElem?_of_isPrefix ?_ declared)
    · rw [TableRun.ofCalls, TableRun.ofCalls, foldl_append]
      exact TableRun.numbers_isPrefix _ later
    · rw [History.ofCalls, History.ofCalls, foldl_append]
      exact History.declarations_isPrefix _ later
  intro found
  have resolved := behind.resolve? name
  rw [found] at resolved
  cases resolution : (History.ofCalls scoping (calls ++ later)).resolve? name with
  | none =>
    rw [resolution] at resolved
    cases resolved
  | some =>
    rw [resolution] at resolved
    cases resolved with
    | some same =>
      cases numbered.symm.trans same
      obtain ⟨_, isSearched, rfl⟩ := mem_map.mp (mem_of_find?_eq_some resolution)
      rw [History.searched, laterMode, mem_append, mem_singleton] at isSearched
      exact isSearched.elim closed.notOpen closed.notGlobal

end Reflects

end BanglaScript
