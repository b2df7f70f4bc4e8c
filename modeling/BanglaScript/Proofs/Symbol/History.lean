import BanglaScript.Symbol.Table
import Mathlib.Data.List.Induction
import Mathlib.Logic.Function.Basic

/-!
# The history of a symbol table

A table is used by a sequence of calls.  The history of the calls says, without
numbers for symbols, what has happened: which scopes have been opened and are
still open, what has been declared where, and what has got a value.
-/

namespace BanglaScript

open List

/-! ## Calls -/

/-- A call that changes a symbol table. -/
inductive TableCall where
  | openScope (name : String)
  | openBlock
  | openFunction (name : String)
  | closeScope
  | declare (name : String) (type : ValueType) (kind : SymbolKind)
  | initializeName (name : String)
  /-- The number of the symbol is the one that an earlier declaration gave. -/
  | initializeDeclared (declaration : Nat)
deriving DecidableEq

/-- A table with the numbers that its declarations have given, one after the
other. -/
structure TableRun where
  table : SymbolTable
  numbers : List Nat := []
deriving DecidableEq

namespace TableRun

/-- Behind one more call. -/
def after (run : TableRun) : TableCall → TableRun
  | .openScope name => { run with table := run.table.openScope name }
  | .openBlock => { run with table := run.table.openBlock }
  | .openFunction name => { run with table := run.table.openFunction name }
  | .closeScope => { run with table := run.table.closeScope }
  | .declare name type kind =>
    let declared := run.table.declare name type kind
    ⟨declared.2, run.numbers ++ [declared.1]⟩
  | .initializeName name => { run with table := run.table.initializeName name }
  | .initializeDeclared declaration =>
    match run.numbers[declaration]? with
    | some number => { run with table := run.table.initializeAt number }
    | none => run

/-- All of the calls, from the empty table on. -/
def ofCalls (scoping : Scoping) (calls : List TableCall) : TableRun :=
  calls.foldl after ⟨.empty scoping, []⟩

end TableRun

/-! ## Histories -/

/-- A name in a scope.  Scopes are numbered in the order in which they are opened,
and the global one has the number 0. -/
abbrev TableKey := Nat × String

inductive TableEvent where
  | declared (key : TableKey) (symbol : Symbol)
  | initialized (key : TableKey)
deriving DecidableEq

namespace TableEvent

def declaration? : TableEvent → Option TableKey
  | declared key _ => some key
  | initialized _ => none

/-- What stands under a key after an event. -/
def update (key : TableKey) (symbol? : Option Symbol) : TableEvent → Option Symbol
  | declared other symbol => if other = key then some symbol else symbol?
  | initialized other => if other = key then symbol?.map Symbol.withValue else symbol?

end TableEvent

/-- What has happened to a table. -/
structure History where
  scoping : Scoping
  /-- The open scopes inside of the global one, with their numbers and names, from
  the innermost outwards. -/
  inner : List (Nat × String) := []
  opened : Nat := 0
  blocks : Nat := 0
  /-- From the first event on. -/
  events : List TableEvent := []
deriving DecidableEq

namespace History

/-- The keys of all declarations, one after the other. -/
def declarations (history : History) : List TableKey :=
  history.events.filterMap TableEvent.declaration?

/-- The last declaration under a key, with the values it has got since then. -/
def current? (history : History) (key : TableKey) : Option Symbol :=
  history.events.foldl (TableEvent.update key) none

/-- The number and the name of the innermost open scope. -/
def innermost (history : History) : Nat × String := history.inner.headD (0, "global")

/-- The scope that receives a declaration. -/
def receiving (history : History) : Nat :=
  match history.scoping with
  | .flat => 0
  | .lexical => history.innermost.1

/-- The scopes in which a name is searched, in order. -/
def searched (history : History) : List Nat :=
  match history.scoping with
  | .flat => [0]
  | .lexical => history.inner.map Prod.fst ++ [0]

/-- The first of the searched scopes that has declared a name. -/
def resolve? (history : History) (name : String) : Option TableKey :=
  (history.searched.map (·, name)).find? (· ∈ history.declarations)

def lookup? (history : History) (name : String) : Option Symbol :=
  (history.resolve? name).bind history.current?

def conflict? (history : History) (name : String) : Option Symbol :=
  history.current? (history.receiving, name)

def openScope (history : History) (name : String) : History :=
  { history with
    inner := (history.opened + 1, name) :: history.inner, opened := history.opened + 1 }

/-- One more event. -/
def record (history : History) (event : TableEvent) : History :=
  { history with events := history.events ++ [event] }

/-- What stands under a key, if there is one, gets a value. -/
def recordValue (history : History) : Option TableKey → History
  | some key => history.record (.initialized key)
  | none => history

/-- Behind one more call. -/
def after (history : History) : TableCall → History
  | .openScope name => history.openScope name
  | .openBlock =>
    { history with blocks := history.blocks + 1 }.openScope s!"block_{history.blocks + 1}"
  | .openFunction name => history.openScope ("function_" ++ name)
  | .closeScope => { history with inner := history.inner.tail }
  | .declare name type kind =>
    history.record (.declared (history.receiving, name)
      { name := name, type := type, kind := kind, scope := history.innermost.2 })
  | .initializeName name => history.recordValue (history.resolve? name)
  | .initializeDeclared declaration => history.recordValue history.declarations[declaration]?

/-- The history of calls. -/
def ofCalls (scoping : Scoping) (calls : List TableCall) : History :=
  calls.foldl after { scoping := scoping }

/-! ### Events and scopes -/

section

variable (history : History)

include history

theorem declarations_declared (key : TableKey) (symbol : Symbol) :
    (history.record (.declared key symbol)).declarations = history.declarations ++ [key] :=
  filterMap_append

theorem declarations_initialized (key : TableKey) :
    (history.record (.initialized key)).declarations = history.declarations :=
  filterMap_append.trans (append_nil _)

theorem declarations_recordValue (key? : Option TableKey) :
    (history.recordValue key?).declarations = history.declarations := by
  cases key? with
  | none => rfl
  | some key => exact history.declarations_initialized key

theorem current?_record (event : TableEvent) (key : TableKey) :
    (history.record event).current? key = event.update key (history.current? key) := by
  rw [current?, record, foldl_append]
  rfl

theorem current?_declared (key : TableKey) (symbol : Symbol) :
    (history.record (.declared key symbol)).current? =
      Function.update history.current? key (some symbol) := by
  funext other
  rw [current?_record, TableEvent.update, Function.update_apply]
  simp only [eq_comm]

theorem current?_initialized (key : TableKey) : (history.record (.initialized key)).current? =
      Function.update history.current? key ((history.current? key).map Symbol.withValue) := by
  funext other
  rw [current?_record, TableEvent.update, Function.update_apply]
  by_cases same : key = other
  · rw [if_pos same, if_pos same.symm, same]
  · rw [if_neg same, if_neg (Ne.symm same)]

end

theorem current?_eq_none {history : History} {key : TableKey}
    (absent : key ∉ history.declarations) : history.current? key = none := by
  obtain ⟨scoping, inner, opened, blocks, events⟩ := history
  induction events using List.reverseRecOn with
  | nil => rfl
  | append_singleton events event ih =>
    let earlier : History := ⟨scoping, inner, opened, blocks, events⟩
    change (earlier.record event).current? key = none
    rw [current?_record]
    cases event with
    | declared other symbol =>
      have before : key ∉ earlier.declarations ++ [other] :=
        declarations_declared _ _ symbol ▸ absent
      rw [mem_append, mem_singleton, not_or] at before
      rw [TableEvent.update, if_neg (Ne.symm before.2)]
      exact ih before.1
    | initialized other =>
      have before : key ∉ earlier.declarations :=
        declarations_initialized earlier other ▸ absent
      have none : earlier.current? key = none := ih before
      rw [TableEvent.update, none]
      split <;> rfl

/-- Open scopes have numbers of their own, from the innermost outwards ever smaller
ones, and nothing has been declared in a scope that has not been opened. -/
structure IsOrdered (history : History) : Prop where
  inner : (history.inner.map Prod.fst).Pairwise (· > ·)
  positive : ∀ scope ∈ history.inner, 0 < scope.1
  opened : ∀ scope ∈ history.inner, scope.1 ≤ history.opened
  declared : ∀ key ∈ history.declarations, key.1 ≤ history.opened

namespace IsOrdered

variable {history : History}

variable (ordered : history.IsOrdered)

include ordered

theorem openScope (name : String) :
    (history.openScope name).IsOrdered where
  inner := pairwise_cons.mpr ⟨fun number member => by
    obtain ⟨scope, isOpen, rfl⟩ := mem_map.mp member
    exact Nat.lt_succ_of_le (ordered.opened scope isOpen), ordered.inner⟩
  positive := forall_mem_cons.mpr ⟨Nat.succ_pos _, ordered.positive⟩
  opened := forall_mem_cons.mpr
    ⟨Nat.le_refl _, fun scope member => Nat.le_succ_of_le (ordered.opened scope member)⟩
  declared key member := Nat.le_succ_of_le (ordered.declared key member)

theorem closeScope :
    IsOrdered { history with inner := history.inner.tail } where
  inner := map_tail ▸ ordered.inner.tail
  positive scope member := ordered.positive scope (mem_of_mem_tail member)
  opened scope member := ordered.opened scope (mem_of_mem_tail member)
  declared := ordered.declared

theorem innermost_le : history.innermost.1 ≤ history.opened := by
  rw [innermost]
  cases open_eq : history.inner with
  | nil => exact Nat.zero_le _
  | cons scope => exact ordered.opened scope (open_eq ▸ mem_cons_self)

theorem receiving_le : history.receiving ≤ history.opened := by
  rw [receiving]
  split
  · exact Nat.zero_le _
  · exact ordered.innermost_le

theorem declare (name : String) (symbol : Symbol) :
    (history.record (.declared (history.receiving, name) symbol)).IsOrdered :=
  { ordered with
    declared := fun key member => by
      rw [declarations_declared, mem_append, mem_singleton] at member
      rcases member with old | rfl
      · exact ordered.declared key old
      · exact ordered.receiving_le }

theorem initialized (key : TableKey) : (history.record (.initialized key)).IsOrdered :=
  { ordered with declared := declarations_initialized history key ▸ ordered.declared }

end IsOrdered

end History

/-! ## Closed scopes -/

namespace History

/-- A scope has been opened and left. -/
structure IsClosed (history : History) (place : Nat) : Prop where
  opened : place ≤ history.opened
  notOpen : place ∉ history.inner.map Prod.fst
  notGlobal : place ≠ 0

namespace IsClosed

variable {history : History} {place : Nat}

variable (closed : history.IsClosed place)

include closed

theorem openScope (name : String) :
    (history.openScope name).IsClosed place where
  opened := Nat.le_succ_of_le closed.opened
  notOpen := not_mem_cons_of_ne_of_not_mem
    (Nat.ne_of_lt (Nat.lt_succ_of_le closed.opened)) closed.notOpen
  notGlobal := closed.notGlobal

theorem recordValue (key? : Option TableKey) : (history.recordValue key?).IsClosed place := by
  cases key? with
  | none => exact closed
  | some => exact { closed with }

/-- A scope that has been left is never open again. -/
theorem after (call : TableCall) : (history.after call).IsClosed place := by
  cases call with
  | openScope name => exact closed.openScope name
  | openFunction => exact closed.openScope _
  | openBlock =>
    have counted : IsClosed { history with blocks := history.blocks + 1 } place :=
      { closed with }
    exact counted.openScope _
  | closeScope =>
    refine ⟨closed.opened, fun member => closed.notOpen ?_, closed.notGlobal⟩
    rw [History.after, map_tail] at member
    exact mem_of_mem_tail member
  | declare => exact { closed with }
  | initializeName | initializeDeclared => exact closed.recordValue _

theorem foldl_after (calls : List TableCall) :
    (calls.foldl History.after history).IsClosed place := by
  induction calls generalizing history with
  | nil => exact closed
  | cons call rest ih => exact ih (closed.after call)

end IsClosed

theorem scoping_after (history : History) (call : TableCall) :
    (history.after call).scoping = history.scoping := by
  cases call with
  | initializeName | initializeDeclared =>
    rw [after, recordValue.eq_def]
    split <;> rfl
  | _ => rfl

theorem scoping_ofCalls (scoping : Scoping) (calls : List TableCall) :
    (ofCalls scoping calls).scoping = scoping := by
  induction calls using List.reverseRecOn with
  | nil => rfl
  | append_singleton calls call ih =>
    rw [ofCalls, foldl_append]
    exact (scoping_after _ call).trans ih

theorem declarations_isPrefix_after (history : History) (call : TableCall) :
    history.declarations <+: (history.after call).declarations := by
  cases call with
  | declare =>
    rw [after, declarations_declared]
    exact prefix_append _ _
  | initializeName | initializeDeclared =>
    simp only [after, declarations_recordValue, prefix_rfl]
  | _ => exact prefix_rfl

theorem declarations_isPrefix (history : History) (calls : List TableCall) :
    history.declarations <+: (calls.foldl after history).declarations := by
  induction calls generalizing history with
  | nil => exact prefix_rfl
  | cons call rest ih => exact (history.declarations_isPrefix_after call).trans (ih _)

end History

namespace TableRun

theorem numbers_isPrefix_after (run : TableRun) (call : TableCall) :
    run.numbers <+: (run.after call).numbers := by
  cases call with
  | declare => exact prefix_append _ _
  | initializeDeclared =>
    rw [after]
    split <;> exact prefix_rfl
  | _ => exact prefix_rfl

theorem numbers_isPrefix (run : TableRun) (calls : List TableCall) :
    run.numbers <+: (calls.foldl after run).numbers := by
  induction calls generalizing run with
  | nil => exact prefix_rfl
  | cons call rest ih => exact (run.numbers_isPrefix_after call).trans (ih _)

end TableRun

end BanglaScript
