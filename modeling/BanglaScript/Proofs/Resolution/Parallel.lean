import BanglaScript.Proofs.Resolution.Mentions

/-!
# Tables and names in parallel

Checking and lowering open and leave scopes together.  Each scope of the table
stands beside a scope of names: a variable or parameter of the one is bound in the
other to the name that its symbol has been given, and nothing else is bound.  Every
change of the table keeps this if the names change with it.

A name may be declared again in its scope, as parameters are that share a name.  The
symbol then keeps its number and is given another name, so it matters that no other
scope has this number: inner scopes have larger ones than those around them.
-/

namespace BanglaScript

open List

/-- The symbols of the inner scope have larger numbers than those of the outer
one. -/
def Scope.IsAbove (inner outer : Scope) : Prop :=
  ∀ name number, inner.find? name = some number → outer.IsBelow number

/-- The variables and parameters of a scope are bound to the names that their
symbols have been given, and nothing else is bound. -/
structure Pairs (symbols : List Symbol) (given : Nat → Option String) (scope : Scope)
    (names : List (String × String)) : Prop where
  bound : ∀ {name : String} {number : Nat}, scope.find? name = some number →
    ∃ symbol, symbols[number]? = some symbol ∧ symbol.name = name ∧
      names.lookup name = (if symbol.kind = .function then none else given number) ∧
      (symbol.kind ≠ .function → (given number).isSome)
  free : ∀ {name : String}, scope.find? name = none → names.lookup name = none

namespace Pairs

variable {symbols later : List Symbol} {given laterGiven : Nat → Option String} {scope : Scope}
  {names : List (String × String)}

theorem empty (label : String) : Pairs symbols given { name := label } [] :=
  ⟨nofun, fun _ => rfl⟩

variable (pairs : Pairs symbols given scope names)

include pairs

theorem isBelow : scope.IsBelow symbols.length := by
  intro name position found
  obtain ⟨_, held, _⟩ := pairs.bound found
  exact (List.getElem?_eq_some_iff.mp held).1

/-- A scope binds different names to different numbers. -/
theorem name_eq {name other : String} {number : Nat}
    (found : scope.find? name = some number) (otherFound : scope.find? other = some number) :
    other = name := by
  obtain ⟨_, held, named, _⟩ := pairs.bound found
  obtain ⟨_, sameHeld, otherNamed, _⟩ := pairs.bound otherFound
  cases held.symm.trans sameHeld
  exact otherNamed.symm.trans named

/-- Symbols may change as long as those of the scope keep their names and kinds,
and the names they have been given. -/
theorem mono
    (keeps : ∀ {name : String} {number : Nat} {symbol : Symbol}, scope.find? name = some number →
      symbols[number]? = some symbol → laterGiven number = given number ∧
        ∃ other, later[number]? = some other ∧ other.name = symbol.name ∧
          other.kind = symbol.kind) : Pairs later laterGiven scope names := by
  refine ⟨fun found => ?_, pairs.free⟩
  obtain ⟨_, held, named, bound, isGiven⟩ := pairs.bound found
  obtain ⟨sameGiven, other, otherHeld, sameName, sameKind⟩ := keeps found held
  refine ⟨other, otherHeld, sameName.trans named, ?_, ?_⟩
  · rw [bound, sameKind, sameGiven]
  · rw [sameKind, sameGiven]
    exact isGiven

/-- One name of the scope may be declared, for the first time or again. -/
theorem declare {changed : Scope}
    {changedNames : List (String × String)} {number : Nat} {symbol : Symbol}
    (here : changed.find? symbol.name = some number)
    (others : ∀ other, other ≠ symbol.name → changed.find? other = scope.find? other)
    (held : later[number]? = some symbol)
    (keeps : ∀ {other : String} {position : Nat}, other ≠ symbol.name →
      scope.find? other = some position →
        later[position]? = symbols[position]? ∧ laterGiven position = given position)
    (bound : changedNames.lookup symbol.name =
      if symbol.kind = .function then none else laterGiven number)
    (isGiven : symbol.kind ≠ .function → (laterGiven number).isSome)
    (otherNames : ∀ other, other ≠ symbol.name → changedNames.lookup other = names.lookup other) :
    Pairs later laterGiven changed changedNames := by
  refine ⟨fun {name position} found => ?_, fun {name} missing => ?_⟩
  · by_cases same : name = symbol.name
    · subst same
      cases here.symm.trans found
      exact ⟨symbol, held, rfl, bound, isGiven⟩
    · rw [others name same] at found
      obtain ⟨sameSymbol, sameGiven⟩ := keeps same found
      rw [otherNames name same, sameSymbol, sameGiven]
      exact pairs.bound found
  · have different : name ≠ symbol.name := by
      rintro rfl
      cases here.symm.trans missing
    rw [otherNames name different]
    exact pairs.free ((others name different).symm.trans missing)

end Pairs

namespace SymbolTable

/-- The number that a declaration gives depends on the name only. -/
theorem declare_number (table : SymbolTable) (name : String) (type otherType : ValueType)
    (kind otherKind : SymbolKind) :
    (table.declare name type kind).1 = (table.declare name otherType otherKind).1 := by
  unfold declare
  dsimp only
  split <;> rfl

end SymbolTable

/-! ## Parallel scopes -/

/-- The open scopes of a table stand beside scopes of names. -/
structure Parallel (table : SymbolTable) (given : Nat → Option String)
    (scopes : List (List (String × String))) : Prop where
  lexical : table.scoping = .lexical
  pairs : List.Forall₂ (Pairs table.symbols given) table.searchedScopes scopes
  apart : table.searchedScopes.Pairwise Scope.IsAbove

namespace Parallel

variable {table : SymbolTable} {given : Nat → Option String}
  {scopes outerNames : List (List (String × String))} {names : List (String × String)}

theorem empty : Parallel (.empty .lexical) (fun _ => none) [[]] :=
  ⟨rfl, .cons (.empty "global") .nil, pairwise_singleton _ _⟩

section

variable (parallel : Parallel table given scopes)

include parallel

/-- Symbols may change as long as they keep their names and kinds. -/
theorem of_searchedScopes {other : SymbolTable} (scoping : other.scoping = table.scoping)
    (searched : other.searchedScopes = table.searchedScopes)
    (symbols : ∀ {number : Nat} {symbol : Symbol}, table.symbols[number]? = some symbol →
      ∃ later, other.symbols[number]? = some later ∧ later.name = symbol.name ∧
        later.kind = symbol.kind) : Parallel other given scopes := by
  refine ⟨scoping.trans parallel.lexical, ?_, searched ▸ parallel.apart⟩
  rw [searched]
  exact parallel.pairs.imp fun _ _ here => here.mono fun _ held => ⟨rfl, symbols held⟩

theorem initializeAt (index : Nat) : Parallel (table.initializeAt index) given scopes := by
  refine parallel.of_searchedScopes rfl rfl fun {number symbol} held => ?_
  rw [SymbolTable.initializeAt, getElem?_modify, held]
  by_cases same : index = number
  · exact ⟨symbol.withValue, by simp [same], rfl, rfl⟩
  · exact ⟨symbol, by simp [same], rfl, rfl⟩

theorem initializeName (name : String) : Parallel (table.initializeName name) given scopes := by
  unfold SymbolTable.initializeName
  split
  · exact parallel
  · exact parallel.initializeAt _

theorem openScope (label : String) : Parallel (table.openScope label) given ([] :: scopes) := by
  refine ⟨parallel.lexical, ?_, ?_⟩
  · rw [SymbolTable.searchedScopes_openScope parallel.lexical]
    exact .cons (.empty label) parallel.pairs
  · rw [SymbolTable.searchedScopes_openScope parallel.lexical, pairwise_cons]
    exact ⟨fun _ _ => nofun, parallel.apart⟩

theorem openBlock : Parallel table.openBlock given ([] :: scopes) := by
  have counted : Parallel { table with blockCount := table.blockCount + 1 } given scopes :=
    parallel.of_searchedScopes rfl rfl fun held => ⟨_, held, rfl, rfl⟩
  exact counted.openScope _

theorem closeScope (inside : table.searchedScopes.tail ≠ []) :
    Parallel table.closeScope given scopes.tail := by
  have closed := SymbolTable.searchedScopes_closeScope parallel.lexical inside
  refine ⟨parallel.lexical, ?_, ?_⟩
  · rw [closed]
    have pairs := parallel.pairs
    generalize table.searchedScopes = list at pairs
    cases pairs with
    | nil => exact .nil
    | cons _ outside => exact outside
  · rw [closed]
    exact parallel.apart.tail

/-- There is always an innermost scope. -/
theorem exists_cons : ∃ names outer, scopes = names :: outer := by
  apply exists_cons_of_ne_nil
  rintro rfl
  exact table.searchedScopes_ne_nil (forall₂_nil_right_iff.mp parallel.pairs)

end

section

variable (parallel : Parallel table given (names :: outerNames))

include parallel

/-- The innermost scopes stand beside each other. -/
theorem receivingScope : Pairs table.symbols given table.receivingScope names := by
  obtain ⟨_, searched⟩ := SymbolTable.searchedScopes_eq_cons parallel.lexical
  have pairs := parallel.pairs
  rw [searched] at pairs
  exact (forall₂_cons.mp pairs).1

/-- A name without a conflict is not bound in the innermost scope. -/
theorem find?_receivingScope {name : String} (free : table.conflict? name = none) :
    table.receivingScope.find? name = none := by
  cases found : table.receivingScope.find? name with
  | none => rfl
  | some =>
    obtain ⟨_, held, _⟩ := parallel.receivingScope.bound found
    rw [SymbolTable.conflict?, found, Option.bind_some, SymbolTable.get?, held] at free
    cases free

/-- A declaration changes the innermost scopes, and nothing but its own name. -/
theorem declare {name : String}
    (type : ValueType) {kind : SymbolKind} {laterGiven : Nat → Option String}
    {changedNames : List (String × String)}
    (keeps : ∀ position, position ≠ (table.declare name type kind).1 →
      laterGiven position = given position)
    (bound : changedNames.lookup name =
      if kind = .function then none else laterGiven (table.declare name type kind).1)
    (isGiven : kind ≠ .function → (laterGiven (table.declare name type kind).1).isSome)
    (otherNames : ∀ other, other ≠ name → changedNames.lookup other = names.lookup other) :
    Parallel (table.declare name type kind).2 laterGiven (changedNames :: outerNames) := by
  have innermost := parallel.receivingScope
  obtain ⟨_, outer, receives⟩ := SymbolTable.exists_receives parallel.lexical name type kind
    innermost.isBelow
  have pairs := parallel.pairs
  have apart := parallel.apart
  rw [receives.before] at pairs apart
  obtain ⟨_, outside⟩ := forall₂_cons.mp pairs
  obtain ⟨above, outerApart⟩ := pairwise_cons.mp apart
  have inRange : ∀ scope ∈ outer, scope.IsBelow table.symbols.length :=
    ((forall₂_and_left _ _).mp
      (outside.imp fun _ _ related => ⟨related.isBelow, related⟩)).1
  -- The declared symbol belongs to the innermost scope and to no other one.
  have below : ∀ scope ∈ outer, scope.IsBelow (table.declare name type kind).1 := by
    intro scope member
    rcases receives.number_eq with again | new
    · exact above scope member _ _ again
    · rw [new]
      exact inRange scope member
  have different : ∀ {other position}, other ≠ name →
      table.receivingScope.find? other = some position →
      position ≠ (table.declare name type kind).1 := by
    rintro other position otherName found rfl
    rcases receives.number_eq with again | new
    · exact otherName (innermost.name_eq again found)
    · exact Nat.ne_of_lt (innermost.isBelow other _ found) new
  refine ⟨receives.scoping.trans parallel.lexical, ?_, ?_⟩
  · rw [receives.after]
    refine .cons ?_ ?_
    · exact innermost.declare receives.here receives.others receives.held
        (fun otherName found => ⟨receives.symbols _ (different otherName found),
          keeps _ (different otherName found)⟩) bound isGiven otherNames
    · refine ((forall₂_and_left _ _).mpr ⟨below, outside⟩).imp
        fun _ _ ⟨isBelow, related⟩ => related.mono fun found held => ?_
      have other := Nat.ne_of_lt (isBelow _ _ found)
      exact ⟨keeps _ other, _, (receives.symbols _ other).trans held, rfl, rfl⟩
  · rw [receives.after, pairwise_cons]
    refine ⟨fun scope member other number found => ?_, outerApart⟩
    by_cases same : other = name
    · subst same
      cases receives.here.symm.trans found
      exact below scope member
    · rw [receives.others other same] at found
      exact above scope member other number found

end

/-- A new function is given no name. -/
theorem declareFunction (parallel : Parallel table given scopes) {name : String}
    (type : ValueType) (free : table.conflict? name = none) :
    Parallel (table.declare name type .function).2 given scopes := by
  obtain ⟨_, _, rfl⟩ := parallel.exists_cons
  refine parallel.declare type (fun _ _ => rfl) ?_ (fun isFunction => absurd rfl isFunction)
    fun _ _ => rfl
  rw [if_pos rfl]
  exact parallel.receivingScope.free (parallel.find?_receivingScope free)

/-! ## Looking names up -/

variable {naming : Naming} {name : String}

section

variable (parallel : Parallel table given naming.scopes)

include parallel

/-- What the table does not find is not bound, and what it finds is bound to the name that
its symbol has been given, unless it is a function. -/
theorem bound?_of_resolve? : (table.resolve? name = none → naming.bound? name = none) ∧
    ∀ number, table.resolve? name = some number →
      ∃ symbol, table.get? number = some symbol ∧ (symbol.kind ≠ .function →
        ∃ generated, given number = some generated ∧ naming.bound? name = some generated) := by
  have pairs := parallel.pairs
  simp only [SymbolTable.resolve?, SymbolTable.get?, Naming.bound?]
  generalize table.searchedScopes = searched, naming.scopes = scopes at pairs
  induction pairs with
  | nil => exact ⟨fun _ => rfl, by rintro _ ⟨⟩⟩
  | @cons scope names _ _ here _ ih =>
    simp only [findSome?_cons]
    cases found : scope.find? name with
    | none =>
      rw [here.free found]
      exact ih
    | some =>
      refine ⟨by rintro ⟨⟩, ?_⟩
      rintro _ ⟨⟩
      obtain ⟨symbol, held, _, bound, isGiven⟩ := here.bound found
      refine ⟨symbol, held, fun notFunction => ?_⟩
      obtain ⟨generated, given_eq⟩ := Option.isSome_iff_exists.mp (isGiven notFunction)
      refine ⟨generated, given_eq, ?_⟩
      rw [bound, if_neg notFunction, given_eq]

/-- A name that cannot be looked up is bound nowhere. -/
theorem resolve?_eq_none (missing : table.lookup? name = none) : table.resolve? name = none := by
  cases resolved : table.resolve? name with
  | none => rfl
  | some =>
    obtain ⟨_, held, _⟩ := parallel.bound?_of_resolve?.2 _ resolved
    rw [SymbolTable.lookup?, resolved, Option.bind_some, held] at missing
    cases missing

end

/-- Both walks find the same where a name is used. -/
theorem fits {log : MentionLog} (parallel : Parallel table log.given? naming.scopes)
    (truth : table.lookup? name = none → name = "true" ∨ name = "false") :
    Fits log (.used name table) (.used name naming) := by
  refine .used (fun symbol found notFunction => ?_) fun missing => ⟨truth missing, ?_⟩
  · obtain ⟨number, resolved, held⟩ := Option.bind_eq_some_iff.mp found
    obtain ⟨_, otherHeld, bound⟩ := parallel.bound?_of_resolve?.2 _ resolved
    cases held.symm.trans otherHeld
    obtain ⟨_, given_eq, bound_eq⟩ := bound notFunction
    refine ⟨number, resolved, held, ?_⟩
    rw [given_eq, Naming.resolve, bound_eq, Option.getD_some]
  · rw [Naming.resolve, parallel.bound?_of_resolve?.1 (parallel.resolve?_eq_none missing),
      Option.getD_none]

end Parallel

end BanglaScript
