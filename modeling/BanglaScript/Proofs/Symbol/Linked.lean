import BanglaScript.Proofs.Symbol.Reflected

/-!
# Symbol tables with linked scopes

A table may also keep all scopes for good, in the order in which they are opened,
each with the position of the scope around it.  A stack has the positions of the
open scopes, and a lookup walks from one scope to the one around it.  Such a table
never looks for a scope where there is none, its walks end, and it gives the same
answers as the table that forgets the scopes it has left.
-/

namespace BanglaScript

open List

/-! ## Linked tables -/

/-- A scope that knows where the scope around it stands. -/
structure LinkedScope extends Scope where
  parent? : Option Nat
deriving DecidableEq

structure LinkedTable where
  scoping : Scoping
  symbols : List Symbol := []
  scopes : List LinkedScope := [⟨{ name := "global" }, none⟩]
  /-- The positions of the open scopes, from the innermost outwards. -/
  stack : List Nat := [0]
  blockCount : Nat := 0
deriving DecidableEq

namespace LinkedTable

def depth (table : LinkedTable) : Nat := table.stack.length

def innermost (table : LinkedTable) : Nat := table.stack.headD 0

def openScope (table : LinkedTable) (name : String) : LinkedTable :=
  { table with
    scopes := table.scopes ++ [⟨{ name := name }, some table.innermost⟩]
    stack := table.scopes.length :: table.stack }

/-- Leave the innermost scope.  The last one is never left. -/
def closeScope (table : LinkedTable) : LinkedTable :=
  if 1 < table.stack.length then { table with stack := table.stack.tail } else table

/-- The position of the scope that receives a declaration. -/
def receiving (table : LinkedTable) : Nat :=
  match table.scoping with
  | .flat => 0
  | .lexical => table.innermost

/-- Change the scope at a position. -/
def rebind (scopes : List LinkedScope) (place : Nat) (change : Scope → Scope) : List LinkedScope :=
  scopes.modify place fun scope => ⟨change scope.toScope, scope.parent?⟩

/-- Declare a name, if the scopes that are needed for it are there. -/
def declare? (table : LinkedTable) (name : String) (type : ValueType) (kind : SymbolKind) :
    Option (Nat × LinkedTable) := do
  let current ← table.scopes[table.innermost]?
  let scope ← table.scopes[table.receiving]?
  let symbol : Symbol := { name := name, type := type, kind := kind, scope := current.name }
  match scope.find? name with
  | some index => return (index, { table with symbols := table.symbols.set index symbol })
  | none =>
    let index := table.symbols.length
    return (index,
      { table with
        symbols := table.symbols ++ [symbol]
        scopes := rebind table.scopes table.receiving fun scope => scope.bind name index })

/-- Walk outwards until a scope has the name.  There is no answer if the walk takes
more than a number of steps, or comes to where there is no scope. -/
def walk? (scopes : List LinkedScope) (name : String) : Nat → Option Nat → Option (Option Nat)
  | _, none => some none
  | 0, some _ => none
  | steps + 1, some place => do
    let scope ← scopes[place]?
    match scope.find? name with
    | some number => return some number
    | none => walk? scopes name steps scope.parent?

/-- The number of the symbol that a name refers to, found within a number of
steps. -/
def resolve? (table : LinkedTable) (steps : Nat) (name : String) : Option (Option Nat) :=
  walk? table.scopes name steps (some table.receiving)

/-- The symbol that a new declaration of the name would replace, if the scope and the
symbol that are needed for it are there. -/
def conflict? (table : LinkedTable) (name : String) : Option (Option Symbol) := do
  let scope ← table.scopes[table.receiving]?
  match scope.find? name with
  | some number => return some (← table.symbols[number]?)
  | none => return none

def initializeAt (table : LinkedTable) (index : Nat) : LinkedTable :=
  { table with symbols := table.symbols.modify index Symbol.withValue }

end LinkedTable

/-- A linked table with the numbers that its declarations have given. -/
structure LinkedRun where
  table : LinkedTable
  numbers : List Nat := []
deriving DecidableEq

namespace LinkedRun

/-- Behind one more call, if nothing is missing. -/
def after? (run : LinkedRun) : TableCall → Option LinkedRun
  | .openScope name => some { run with table := run.table.openScope name }
  | .openBlock =>
    let count := run.table.blockCount + 1
    some { run with
      table := { run.table with blockCount := count }.openScope s!"block_{count}" }
  | .openFunction name => some { run with table := run.table.openScope ("function_" ++ name) }
  | .closeScope => some { run with table := run.table.closeScope }
  | .declare name type kind => do
    let declared ← run.table.declare? name type kind
    return ⟨declared.2, run.numbers ++ [declared.1]⟩
  | .initializeName name => do
    match ← run.table.resolve? run.table.scopes.length name with
    | some number => return { run with table := run.table.initializeAt number }
    | none => return run
  | .initializeDeclared declaration =>
    match run.numbers[declaration]? with
    | some number => some { run with table := run.table.initializeAt number }
    | none => some run

/-- All of the calls, from the empty table on. -/
def ofCalls? (scoping : Scoping) (calls : List TableCall) : Option LinkedRun :=
  calls.foldlM after? ⟨{ scoping := scoping }, []⟩

end LinkedRun

/-! ## Chains of scopes -/

open LinkedTable (rebind walk?)

/-- The scopes stand at the positions of a stack.  Each of them is linked to the
next, which stands further to the front. -/
inductive Chained (scopes : List LinkedScope) : List Nat → List Scope → Prop where
  | nil : Chained scopes [] []
  | cons {place : Nat} {outer : List Nat} {scope : Scope} {around : List Scope}
      (stands : scopes[place]? = some ⟨scope, outer.head?⟩)
      (smaller : ∀ other ∈ outer, other < place) (rest : Chained scopes outer around) :
      Chained scopes (place :: outer) (scope :: around)

namespace Chained

variable {scopes : List LinkedScope} {stack : List Nat} {chain : List Scope} {place : Nat}
  {inner : List Scope} {last : Scope}

section

variable (chained : Chained scopes stack chain)

include chained

theorem length_eq : stack.length = chain.length := by
  induction chained with
  | nil => rfl
  | cons _ _ _ ih => exact congrArg (· + 1) ih

/-- There are at least as many scopes as a chain has. -/
theorem length_le : stack.length ≤ scopes.length := by
  cases chained with
  | nil => exact Nat.zero_le _
  | cons stands smaller rest =>
    have few : ∀ {stack : List Nat} {chain : List Scope} {bound : Nat},
        Chained scopes stack chain → (∀ other ∈ stack, other < bound) → stack.length ≤ bound := by
      intro stack chain bound chained below
      induction chained generalizing bound with
      | nil => exact Nat.zero_le _
      | @cons place _ _ _ _ smaller _ ih =>
        exact Nat.lt_of_le_of_lt (ih smaller) (below place mem_cons_self)
    exact Nat.succ_le_of_lt (Nat.lt_of_le_of_lt (few rest smaller)
      (List.getElem?_eq_some_iff.mp stands).1)

/-- What is last behind the first position is last. -/
theorem getLast?_tail (notEmpty : chain ≠ []) {first : Nat}
    (bottom : (first :: stack).getLast? = some place) : stack.getLast? = some place := by
  cases chained with
  | nil => exact absurd rfl notEmpty
  | cons => exact bottom

theorem lt_length (member : place ∈ stack) : place < scopes.length := by
  induction chained with
  | nil => cases member
  | cons stands _ _ ih =>
    rcases mem_cons.mp member with rfl | behind
    · exact (List.getElem?_eq_some_iff.mp stands).1
    · exact ih behind

/-- More scopes at the end change nothing. -/
theorem append (scope : LinkedScope) : Chained (scopes ++ [scope]) stack chain := by
  induction chained with
  | nil => exact .nil
  | cons stands smaller _ ih =>
    exact .cons (getElem?_of_isPrefix (prefix_append _ _) stands) smaller ih

end

theorem getElem?_rebind_of_ne {other : Nat} (different : place ≠ other) (change : Scope → Scope) :
    (rebind scopes place change)[other]? = scopes[other]? := by
  simp [rebind, different]

/-- Scopes that are not in a chain may change. -/
theorem rebind_of_notMem (chained : Chained scopes stack chain) (absent : place ∉ stack)
    (change : Scope → Scope) : Chained (rebind scopes place change) stack chain := by
  induction chained with
  | nil => exact .nil
  | cons stands smaller _ ih =>
    obtain ⟨different, absentBehind⟩ := ne_and_not_mem_of_not_mem_cons absent
    refine .cons ?_ smaller (ih absentBehind)
    rw [getElem?_rebind_of_ne different]
    exact stands

/-- The innermost scope of a chain changes. -/
theorem rebind_head {outer : List Nat} {scope : Scope} {around : List Scope}
    (chained : Chained scopes (place :: outer) (scope :: around)) (change : Scope → Scope) :
    Chained (rebind scopes place change) (place :: outer) (change scope :: around) := by
  cases chained with
  | cons stands smaller rest =>
    refine .cons ?_ smaller
      (rest.rebind_of_notMem (fun member => Nat.lt_irrefl _ (smaller place member)) change)
    rw [rebind, getElem?_modify_eq, stands]
    rfl

section

variable (chained : Chained scopes stack (inner ++ [last])) (bottom : stack.getLast? = some place)

include chained bottom

/-- The outermost scope of a chain is linked to no other. -/
theorem getElem?_last : scopes[place]? = some ⟨last, none⟩ := by
  induction inner generalizing stack with
  | nil =>
    cases chained with
    | cons stands _ rest =>
      cases rest
      cases bottom
      exact stands
  | cons scope inner ih =>
    cases chained with
    | cons _ _ rest => exact ih rest (rest.getLast?_tail (by simp) bottom)

/-- The outermost scope of a chain changes. -/
theorem rebind_last (change : Scope → Scope) :
    Chained (rebind scopes place change) stack (inner ++ [change last]) := by
  induction inner generalizing stack with
  | nil =>
    cases chained with
    | @cons only _ _ _ stands smaller rest =>
      cases rest
      cases bottom
      exact rebind_head (.cons stands smaller .nil) change
  | cons scope inner ih =>
    cases chained with
    | @cons first outer _ _ stands smaller rest =>
      have bottomBehind := rest.getLast?_tail (by simp) bottom
      have different : place ≠ first :=
        Nat.ne_of_lt (smaller place (mem_of_getLast? bottomBehind))
      refine .cons ?_ smaller (ih rest bottomBehind)
      rw [getElem?_rebind_of_ne different]
      exact stands

end

/-- A walk along a chain searches its scopes one after the other. -/
theorem walk?_eq (chained : Chained scopes stack chain) (name : String) {steps : Nat}
    (enough : stack.length ≤ steps) :
    walk? scopes name steps stack.head? = some (chain.findSome? fun scope => scope.find? name) := by
  induction chained generalizing steps with
  | nil => cases steps <;> rfl
  | @cons place outer scope around stands smaller rest ih =>
    obtain ⟨_, rfl⟩ := Nat.exists_eq_add_of_le' (Nat.lt_of_lt_of_le (Nat.succ_pos _) enough)
    simp only [head?_cons, walk?, stands, Option.bind_eq_bind, Option.bind_some, findSome?_cons]
    cases scope.find? name with
    | some => rfl
    | none => exact ih (Nat.le_of_succ_le_succ enough)

end Chained

/-! ## Linked tables and tables -/

/-- Both tables have the same symbols and the same open scopes. -/
structure Links (linked : LinkedTable) (table : SymbolTable) : Prop where
  scoping : linked.scoping = table.scoping
  symbols : linked.symbols = table.symbols
  blockCount : linked.blockCount = table.blockCount
  chained : Chained linked.scopes linked.stack (table.innerScopes ++ [table.globalScope])
  bottom : linked.stack.getLast? = some 0

namespace Links

open Chained (rebind_head)

variable {linked : LinkedTable} {table : SymbolTable}

theorem empty (scoping : Scoping) : Links { scoping := scoping } (.empty scoping) where
  scoping := rfl
  symbols := rfl
  blockCount := rfl
  chained := .cons rfl nofun .nil
  bottom := rfl

variable (links : Links linked table)

include links

theorem depth_eq : linked.depth = table.depth := by
  rw [LinkedTable.depth, links.chained.length_eq, length_append]
  rfl

/-- The innermost of the open scopes stands on top of the stack. -/
theorem innermost :
    ∃ outer around, linked.stack = linked.innermost :: outer ∧
      table.innerScopes ++ [table.globalScope] = table.innermostScope :: around ∧
      linked.scopes[linked.innermost]? = some ⟨table.innermostScope, outer.head?⟩ := by
  have chained := links.chained
  rw [LinkedTable.innermost, SymbolTable.innermostScope]
  generalize linked.stack = stack at chained
  cases inner : table.innerScopes with
  | nil | cons =>
    rw [inner] at chained
    cases chained with
    | cons stands => exact ⟨_, _, rfl, rfl, stands⟩

theorem receivingScope :
    ∃ parent?, linked.scopes[linked.receiving]? = some ⟨table.receivingScope, parent?⟩ := by
  rw [LinkedTable.receiving, SymbolTable.receivingScope, links.scoping]
  cases table.scoping with
  | flat => exact ⟨none, links.chained.getElem?_last links.bottom⟩
  | lexical =>
    obtain ⟨outer, _, _, _, stands⟩ := links.innermost
    exact ⟨outer.head?, stands⟩

/-- The scopes in which a name is searched are chained from the receiving one
outwards. -/
theorem searchedScopes :
    ∃ stack, stack.head? = some linked.receiving ∧
      Chained linked.scopes stack table.searchedScopes := by
  rw [LinkedTable.receiving, SymbolTable.searchedScopes, links.scoping]
  cases table.scoping with
  | flat =>
    exact ⟨[0], rfl, .cons (links.chained.getElem?_last links.bottom) (forall_mem_nil _) .nil⟩
  | lexical =>
    obtain ⟨_, _, top, _, _⟩ := links.innermost
    exact ⟨linked.stack, congrArg List.head? top, links.chained⟩

/-- A lookup ends after at most as many steps as there are scopes. -/
theorem resolve? (name : String) {steps : Nat} (enough : linked.scopes.length ≤ steps) :
    linked.resolve? steps name = some (table.resolve? name) := by
  obtain ⟨_, top, chained⟩ := links.searchedScopes
  rw [LinkedTable.resolve?, ← top]
  exact chained.walk?_eq name (Nat.le_trans chained.length_le enough)

/-- A conflict is found in the same scope of both tables. -/
theorem conflict? {name : String}
    (present : ∀ number, table.receivingScope.find? name = some number →
      ∃ symbol, table.get? number = some symbol) :
    linked.conflict? name = some (table.conflict? name) := by
  obtain ⟨_, receiving⟩ := links.receivingScope
  rw [LinkedTable.conflict?, SymbolTable.conflict?, receiving]
  simp only [Option.bind_eq_bind, Option.bind_some]
  cases found : table.receivingScope.find? name with
  | none => rfl
  | some number =>
    obtain ⟨symbol, held⟩ := present number found
    have linkedHeld : linked.symbols[number]? = some symbol := links.symbols ▸ held
    rw [Option.bind_some, held]
    simp only [linkedHeld]
    rfl

/-! ### Calls -/

theorem openScope (name : String) : Links (linked.openScope name) (table.openScope name) := by
  obtain ⟨_, _, top, _, _⟩ := links.innermost
  have last : (linked.scopes.length :: linked.stack).getLast? = linked.stack.getLast? := by
    rw [top]
    rfl
  have stands : (linked.scopes ++
      [⟨{ name := name }, some linked.innermost⟩])[linked.scopes.length]? =
      some ⟨{ name := name }, linked.stack.head?⟩ := by
    rw [getElem?_concat_length, top]
    rfl
  exact { links with
    chained := .cons stands (fun _ => links.chained.lt_length) (links.chained.append _)
    bottom := last.trans links.bottom }

theorem countBlock : Links { linked with blockCount := linked.blockCount + 1 }
      { table with blockCount := table.blockCount + 1 } :=
  { links with blockCount := congrArg (· + 1) links.blockCount }

theorem closeScope : Links linked.closeScope table.closeScope := by
  have lengths := links.chained.length_eq
  rw [length_append, length_singleton] at lengths
  rw [LinkedTable.closeScope]
  split
  case isTrue several =>
    obtain ⟨_, _, top, _, _⟩ := links.innermost
    cases inner : table.innerScopes with
    | nil =>
      rw [inner] at lengths
      exact absurd lengths (Nat.ne_of_gt several)
    | cons =>
      have chained := links.chained
      have bottom := links.bottom
      rw [inner, top] at chained
      rw [top] at bottom
      cases chained with
      | cons _ _ rest =>
        exact { links with
          chained := by
            change Chained linked.scopes linked.stack.tail (table.innerScopes.tail ++ _)
            rw [top, inner]
            exact rest
          bottom := by
            change linked.stack.tail.getLast? = some 0
            rw [top]
            exact rest.getLast?_tail (by simp) bottom }
  case isFalse single =>
    have none : table.innerScopes = [] := eq_nil_of_length_eq_zero (by omega)
    have same : table.closeScope = table := by
      rw [SymbolTable.closeScope, none, tail_nil, ← none]
    rw [same]
    exact links

theorem initializeAt (index : Nat) : Links (linked.initializeAt index) (table.initializeAt index) :=
  { links with symbols := congrArg (List.modify · index Symbol.withValue) links.symbols }

/-- A new name is bound in the same scope of both tables. -/
theorem bindNew (symbol : Symbol) (change : Scope → Scope) :
    Links { linked with
        symbols := table.symbols ++ [symbol]
        scopes := rebind linked.scopes linked.receiving change }
      ({ table with symbols := table.symbols ++ [symbol] }.mapReceivingScope change) := by
  obtain ⟨_, _, _, innerScopes, _⟩ := table
  obtain ⟨scoping, _, _, _, _⟩ := linked
  obtain ⟨rfl, rfl, rfl, chained, bottom⟩ := links
  cases scoping with
  | flat => exact ⟨rfl, rfl, rfl, chained.rebind_last bottom change, bottom⟩
  | lexical =>
    cases innerScopes with
    | nil | cons =>
      cases chained with
      | cons stands smaller rest =>
        exact ⟨rfl, rfl, rfl, rebind_head (.cons stands smaller rest) change, bottom⟩

theorem declare (name : String) (type : ValueType) (kind : SymbolKind) :
    ∃ changed, linked.declare? name type kind = some ((table.declare name type kind).1, changed) ∧
      Links changed (table.declare name type kind).2 := by
  obtain ⟨_, _, _, _, current⟩ := links.innermost
  obtain ⟨_?, receiving⟩ := links.receivingScope
  rw [LinkedTable.declare?, SymbolTable.declare, current, receiving]
  simp only [Option.bind_eq_bind, Option.bind_some]
  cases table.receivingScope.find? name with
  | some index =>
    exact ⟨_, rfl, { links with symbols := congrArg (List.set · index _) links.symbols }⟩
  | none =>
    rw [links.symbols]
    exact ⟨_, rfl, links.bindNew _ _⟩

end Links

/-- Both runs have given the same numbers. -/
structure LinkedRun.Follows (linked : LinkedRun) (run : TableRun) : Prop where
  links : Links linked.table run.table
  numbers : linked.numbers = run.numbers

namespace LinkedRun

/-- Every call finds all that it needs, and both tables do the same. -/
theorem Follows.after? {linked : LinkedRun} {run : TableRun} (follows : linked.Follows run)
    (call : TableCall) : ∃ changed, linked.after? call = some changed ∧
      changed.Follows (run.after call) := by
  obtain ⟨links, numbers⟩ := follows
  cases call with
  | openScope name => exact ⟨_, rfl, links.openScope name, numbers⟩
  | openFunction => exact ⟨_, rfl, links.openScope _, numbers⟩
  | openBlock =>
    have behind := links.countBlock.openScope s!"block_{linked.table.blockCount + 1}"
    refine ⟨_, rfl, ?_, numbers⟩
    rw [TableRun.after, SymbolTable.openBlock, ← links.blockCount]
    exact links.blockCount.symm ▸ behind
  | closeScope => exact ⟨_, rfl, links.closeScope, numbers⟩
  | declare name type kind =>
    obtain ⟨_, declared, linksBehind⟩ := links.declare name type kind
    rw [LinkedRun.after?, declared]
    exact ⟨_, rfl, linksBehind, congrArg (· ++ [_]) numbers⟩
  | initializeName name =>
    rw [LinkedRun.after?, links.resolve? name (Nat.le_refl _), TableRun.after,
      SymbolTable.initializeName]
    cases run.table.resolve? name with
    | none => exact ⟨_, rfl, links, numbers⟩
    | some number => exact ⟨_, rfl, links.initializeAt number, numbers⟩
  | initializeDeclared declaration =>
    rw [LinkedRun.after?, TableRun.after, numbers]
    cases run.numbers[declaration]? with
    | none => exact ⟨_, rfl, links, numbers⟩
    | some number => exact ⟨_, rfl, links.initializeAt number, rfl⟩

/-- Linked tables can be used in any way, and go along with tables. -/
theorem follows_ofCalls? (scoping : Scoping) (calls : List TableCall) :
    ∃ linked, ofCalls? scoping calls = some linked ∧
      linked.Follows (TableRun.ofCalls scoping calls) := by
  induction calls using List.reverseRecOn with
  | nil => exact ⟨_, rfl, .empty scoping, rfl⟩
  | append_singleton calls call ih =>
    obtain ⟨_, before, follows⟩ := ih
    obtain ⟨changed, step, followsBehind⟩ := follows.after? call
    refine ⟨changed, ?_, ?_⟩
    · rw [ofCalls?] at before ⊢
      rw [foldlM_append, before]
      exact (Option.bind_some _ _).trans (by rw [foldlM_cons, step]; rfl)
    · rw [TableRun.ofCalls, foldl_append]
      exact followsBehind

end LinkedRun

/-! ## Answers -/

/-- The table gives the answers that can be read off a history. -/
structure TableRun.Answers (run : TableRun) (history : History) : Prop where
  lookup : ∀ name, run.table.lookup? name = history.lookup? name
  conflict : ∀ name, run.table.conflict? name = history.conflict? name
  count : run.numbers.length = history.declarations.length
  /-- Declarations with the same name in the same scope give the same number, and
  no others do. -/
  numbers : ∀ {declaration other number otherNumber : Nat},
    run.numbers[declaration]? = some number → run.numbers[other]? = some otherNumber →
    (number = otherNumber ↔ history.declarations[declaration]? = history.declarations[other]?)
  /-- The symbol with a number is the last one declared under its key, with the
  values it has got since then. -/
  get : ∀ {declaration number : Nat} {key : TableKey}, run.numbers[declaration]? = some number →
    history.declarations[declaration]? = some key →
    ∃ symbol, run.table.get? number = some symbol ∧ history.current? key = some symbol

theorem Reflects.answers {keys : List TableKey} {history : History} {run : TableRun}
    (reflects : Reflects keys history run) : run.Answers history where
  lookup := reflects.lookup?_eq
  conflict := reflects.conflict?_eq
  count := reflects.numbers.length_eq
  numbers {declaration other number otherNumber} given otherGiven := by
    have numbered := reflects.number declaration
    have otherNumbered := reflects.number other
    rw [given] at numbered
    rw [otherGiven] at otherNumbered
    generalize history.declarations[declaration]? = key? at numbered
    generalize history.declarations[other]? = otherKey? at otherNumbered
    cases numbered with
    | some found =>
      cases otherNumbered with
      | some otherFound =>
        constructor
        · rintro rfl
          exact found.symm.trans otherFound
        · intro same
          cases same
          exact eq_of_getElem?_eq_some reflects.nodup found otherFound
  get given declared := reflects.get? (reflects.getElem?_of_number given declared)

/-- However a table is used, it gives the answers of the history.  Under lexical
scoping nothing is found again that has been declared in a scope that has been
left.  With linked scopes the table finds the same names and the same conflicts, every
scope and symbol that it needs is there, the global scope is never left, and all walks
end. -/
theorem answers_ofCalls (scoping : Scoping) (calls : List TableCall) :
    let run := TableRun.ofCalls scoping calls
    let history := History.ofCalls scoping calls
    run.Answers history ∧
      (scoping = .lexical → ∀ (declaration number : Nat) (key : TableKey),
        run.numbers[declaration]? = some number → history.declarations[declaration]? = some key →
        key.1 ∉ history.searched → ∀ (later : List TableCall) (name : String),
          (TableRun.ofCalls scoping (calls ++ later)).table.resolve? name ≠ some number) ∧
      ∃ linked, LinkedRun.ofCalls? scoping calls = some linked ∧
        linked.numbers = run.numbers ∧ linked.table.symbols = run.table.symbols ∧
        linked.table.depth = run.table.depth ∧ 1 ≤ linked.table.depth ∧
        (∀ name : String, linked.table.conflict? name = some (run.table.conflict? name)) ∧
        ∀ (name : String) (steps : Nat), linked.table.scopes.length ≤ steps →
          linked.table.resolve? steps name = some (run.table.resolve? name) := by
  intro run history
  obtain ⟨_, reflects⟩ := Reflects.ofCalls scoping calls
  obtain ⟨linked, linkedRun, links, numbers⟩ := LinkedRun.follows_ofCalls? scoping calls
  refine ⟨reflects.answers, ?_, linked, linkedRun, numbers, links.symbols, links.depth_eq, ?_,
    fun name => ?_, ?_⟩
  · intro lexical declaration number key given declared left later name
    exact Reflects.resolve?_ne_of_left lexical given declared left later name
  · rw [links.depth_eq]
    exact Nat.le_add_left 1 _
  · exact links.conflict? fun _ found => reflects.exists_get?_of_find? found
  · intro name steps enough
    exact links.resolve? name enough

example :
    let calls : List TableCall :=
      [.openBlock, .declare "x" .number .variable, .closeScope, .openBlock,
        .declare "x" .string .variable, .declare "x" .any .variable]
    (TableRun.ofCalls .lexical calls).numbers = [0, 1, 1] ∧
      (TableRun.ofCalls .flat calls).numbers = [0, 0, 0] := by
  decide

end BanglaScript
