import BanglaScript.Proofs.Check.Scoped
import BanglaScript.Proofs.Symbol.Reflected

/-!
# Symbols while checking

A declaration adds a symbol and never replaces one, except for parameters that share a
name; but the symbol that is replaced then is one of the function itself.  So checking
keeps the symbols that it finds, which may at most get a value.
-/

namespace BanglaScript

open StateRun List

/-- The symbols of the scope have smaller numbers. -/
def Scope.IsBelow (number : Nat) (scope : Scope) : Prop :=
  ∀ name position, scope.find? name = some position → position < number

/-! ## Declarations -/

/-- What the declaration of a symbol changes under lexical scoping.  Its number is the
one of its name in the innermost scope, or the next one. -/
structure SymbolTable.Receives (table declared : SymbolTable) (number : Nat) (symbol : Symbol)
    (scope changed : Scope) (outer : List Scope) : Prop where
  scoping : declared.scoping = table.scoping
  before : table.searchedScopes = scope :: outer
  after : declared.searchedScopes = changed :: outer
  sameName : changed.name = scope.name
  number_eq : scope.find? symbol.name = some number ∨ number = table.symbols.length
  here : changed.find? symbol.name = some number
  others : ∀ other, other ≠ symbol.name → changed.find? other = scope.find? other
  held : declared.symbols[number]? = some symbol
  symbols : ∀ position, position ≠ number →
    declared.symbols[position]? = table.symbols[position]?

namespace SymbolTable

theorem mapReceivingScope_symbols (table : SymbolTable) (change : Scope → Scope) :
    (table.mapReceivingScope change).symbols = table.symbols := by
  unfold mapReceivingScope
  split <;> rfl

/-- Under lexical scoping the innermost scope is the first one that is searched. -/
theorem searchedScopes_eq_cons {table : SymbolTable} (lexical : table.scoping = .lexical) :
    ∃ outer, table.searchedScopes = table.receivingScope :: outer := by
  simp only [searchedScopes, receivingScope, innermostScope, lexical]
  cases table.innerScopes with
  | nil => exact ⟨[], rfl⟩
  | cons scope outer => exact ⟨outer ++ [table.globalScope], rfl⟩

theorem exists_receives {table : SymbolTable} (lexical : table.scoping = .lexical) (name : String)
    (type : ValueType) (kind : SymbolKind)
    (inRange : table.receivingScope.IsBelow table.symbols.length) :
    ∃ changed outer, table.Receives (table.declare name type kind).2
      (table.declare name type kind).1
      { name := name, type := type, kind := kind, scope := table.innermostScope.name }
      table.receivingScope changed outer := by
  obtain ⟨outer, scopes⟩ := searchedScopes_eq_cons lexical
  let symbol : Symbol :=
    { name := name, type := type, kind := kind, scope := table.innermostScope.name }
  cases found : table.receivingScope.find? name with
  | some number =>
    refine ⟨table.receivingScope, outer, ?_⟩
    simp only [declare, found]
    exact {
      scoping := rfl
      before := scopes
      after := scopes
      sameName := rfl
      number_eq := .inl found
      here := found
      others := fun _ _ => rfl
      held := getElem?_set_self (inRange name number found)
      symbols := fun _ different => getElem?_set_ne (Ne.symm different) }
  | none =>
    let grown : SymbolTable := { table with symbols := table.symbols ++ [symbol] }
    obtain ⟨scope, others, before, after⟩ := searchedScopes_mapReceivingScope grown lexical
      fun scope => scope.bind name table.symbols.length
    obtain ⟨rfl, rfl⟩ := List.cons.inj (scopes.symm.trans before)
    refine ⟨table.receivingScope.bind name table.symbols.length, outer, ?_⟩
    simp only [declare, found]
    exact {
      scoping := mapReceivingScope_scoping grown _
      before := scopes
      after := after
      sameName := rfl
      number_eq := .inr rfl
      here := by rw [Scope.find?_bind, if_pos rfl]
      others := fun other different => by rw [Scope.find?_bind, if_neg different]
      held := by
        rw [mapReceivingScope_symbols]
        exact getElem?_concat_length ..
      symbols := fun position different => by
        rw [mapReceivingScope_symbols]
        rcases Nat.lt_or_gt_of_ne different with inside | behind
        · exact getElem?_append_left inside
        · rw [getElem?_eq_none (Nat.le_of_lt behind)]
          exact getElem?_eq_none (by simpa using Nat.succ_le_of_lt behind) }

end SymbolTable

/-! ## Symbols that stay -/

namespace SymbolTable

/-- Every symbol is still there under its number.  It may have got a value, and nothing
else about it has changed. -/
def KeepsSymbols (before after : SymbolTable) : Prop :=
  ∀ number symbol, before.get? number = some symbol →
    after.get? number = some symbol ∨ after.get? number = some symbol.withValue

variable {before between after : SymbolTable} {name : String}

theorem KeepsSymbols.trans (here : KeepsSymbols before between)
    (there : KeepsSymbols between after) : KeepsSymbols before after := by
  intro number symbol held
  rcases here number symbol held with same | valued
  · exact there number symbol same
  · exact .inr ((there number symbol.withValue valued).elim id id)

theorem KeepsSymbols.initializeAt (keeps : KeepsSymbols before after) (index : Nat) :
    KeepsSymbols before (after.initializeAt index) := by
  refine keeps.trans fun number symbol held => ?_
  rw [get?] at held
  simp only [get?, SymbolTable.initializeAt, getElem?_modify, held]
  split
  · exact .inr rfl
  · exact .inl rfl

/-- A declaration that replaces none of the earlier symbols keeps them. -/
theorem KeepsSymbols.declare (keeps : KeepsSymbols before after)
    (spares : ∀ number, after.receivingScope.find? name = some number → before.get? number = none)
    (type : ValueType) (kind : SymbolKind) :
    KeepsSymbols before (after.declare name type kind).2 := by
  intro number symbol held
  have kept := keeps number symbol held
  unfold SymbolTable.declare
  dsimp only
  split
  · rename_i index found
    have other : index ≠ number := by
      rintro rfl
      cases held.symm.trans (spares index found)
    simpa only [get?, getElem?_set_ne other] using kept
  · have grown {later : Symbol} (there : after.get? number = some later) (symbol : Symbol) :
        (after.symbols ++ [symbol])[number]? = some later := by
      rw [getElem?_append_left (List.getElem?_eq_some_iff.mp there).1]
      exact there
    simp only [get?, mapReceivingScope_symbols]
    exact kept.imp (grown · _) (grown · _)

/-- A declaration binds its name to the next number or leaves the scope as it is. -/
theorem find?_receivingScope_declare {table : SymbolTable} {type : ValueType} {kind : SymbolKind}
    {other : String} {number : Nat}
    (found : (table.declare name type kind).2.receivingScope.find? other = some number) :
    table.receivingScope.find? other = some number ∨ number = table.symbols.length := by
  have received (grown : SymbolTable) (change : Scope → Scope) :
      (grown.mapReceivingScope change).receivingScope = change grown.receivingScope := by
    unfold mapReceivingScope receivingScope innermostScope
    cases grown.scoping <;> cases grown.innerScopes <;> rfl
  unfold SymbolTable.declare at found
  dsimp only at found
  split at found
  · exact .inl found
  · rw [received, Scope.find?_bind] at found
    split at found
    · exact .inr (Option.some.inj found).symm
    · exact .inl found

end SymbolTable

/-! ## Findings -/

/-- What has been found is still there, and under lexical scoping so are the symbols. -/
structure Findings.Adds (before after : Findings) : Prop where
  scoping : after.table.scoping = before.table.scoping
  symbols : before.table.scoping = .lexical → before.table.KeepsSymbols after.table
  errors : before.errors <+: after.errors
  warnings : before.warnings <+: after.warnings
  notes : before.notes <+: after.notes

namespace Findings.Adds

variable {before between after : Findings}

theorem refl (findings : Findings) : Adds findings findings :=
  ⟨rfl, fun _ _ _ => .inl, prefix_rfl, prefix_rfl, prefix_rfl⟩

theorem trans (here : Adds before between) (there : Adds between after) : Adds before after :=
  ⟨there.scoping.trans here.scoping,
    fun lexical => (here.symbols lexical).trans (there.symbols (here.scoping.trans lexical)),
    here.errors.trans there.errors, here.warnings.trans there.warnings,
    here.notes.trans there.notes⟩

/-- The table may change as long as it keeps its symbols. -/
theorem withTable (adds : Adds before between) {table : SymbolTable}
    (scoping : table.scoping = between.table.scoping)
    (symbols : before.table.scoping = .lexical → before.table.KeepsSymbols table) :
    Adds before { between with table := table } :=
  ⟨scoping.trans adds.scoping, symbols, adds.errors, adds.warnings, adds.notes⟩

theorem declare (adds : Adds before between) {name : String}
    (spares : before.table.scoping = .lexical → ∀ number,
      between.table.receivingScope.find? name = some number → before.table.get? number = none)
    (type : ValueType) (kind : SymbolKind) (initialized : Bool) :
    Adds before ((Check.declare name type kind initialized).run between).2 := by
  have declared (lexical : before.table.scoping = .lexical) :=
    (adds.symbols lexical).declare (spares lexical) type kind
  have scoping := between.table.declare_scoping name type kind
  refine adds.withTable ?_ fun lexical => ?_ <;> dsimp only <;> split
  · exact scoping
  · exact scoping
  · exact (declared lexical).initializeAt _
  · exact declared lexical

/-- Parameters are declared in a scope that has only new symbols. -/
theorem declareParameters (adds : Adds before between)
    (new : before.table.scoping = .lexical → ∀ name number,
      between.table.receivingScope.find? name = some number → before.table.get? number = none)
    (parameters : List String) :
    Adds before ((Check.declareParameters parameters).run between).2 := by
  induction parameters generalizing between with
  | nil => exact adds
  | cons parameter rest ih =>
    have declared := adds.declare (new · parameter) .any .parameter true
    refine ih declared fun lexical name number found => ?_
    rcases SymbolTable.find?_receivingScope_declare found with old | rfl
    · exact new lexical name number old
    · -- A symbol with this number would have been kept, but the table ends before it.
      apply Option.eq_none_iff_forall_ne_some.mpr
      intro symbol held
      have kept := adds.symbols lexical _ symbol held
      simp [SymbolTable.get?] at kept

/-- Every step of checking adds to the findings. -/
theorem keptBySteps : KeptBySteps Adds where
  refl := refl
  trans := trans
  report error findings := { refl findings with errors := prefix_append _ [error] }
  warn warning findings := { refl findings with warnings := prefix_append _ [warning] }
  note remark findings := { refl findings with notes := prefix_append _ [remark] }
  declare {name findings} free type kind initialized := by
    refine (refl findings).declare (fun _ number found => ?_) type kind initialized
    rwa [SymbolTable.conflict?, found] at free
  initializeName name findings := by
    refine (refl findings).withTable ?_ fun lexical => ?_ <;> dsimp only <;>
      unfold SymbolTable.initializeName <;> split
    · rfl
    · rfl
    · exact (refl findings).symbols lexical
    · exact ((refl findings).symbols lexical).initializeAt _
  inBlock {inside} keeps findings := by
    let opened : Findings := { findings with table := findings.table.openBlock }
    have entered : Adds findings opened := (refl findings).withTable rfl fun _ _ _ => .inl
    have left := entered.trans (keeps opened)
    exact left.withTable rfl left.symbols
  inFunction name parameters {inside} keeps findings := by
    let opened : Findings := { findings with table := findings.table.openFunction name }
    have entered : Adds findings opened := (refl findings).withTable rfl fun _ _ _ => .inl
    have new : findings.table.scoping = .lexical → ∀ other number,
        opened.table.receivingScope.find? other = some number →
        findings.table.get? number = none := by
      intro lexical other number found
      have none : opened.table.receivingScope.find? other = none := by
        have scoping : opened.table.scoping = .lexical := lexical
        simp only [SymbolTable.receivingScope, scoping]
        rfl
      cases none.symm.trans found
    have left := (entered.declareParameters new parameters).trans (keeps _)
    exact left.withTable rfl left.symbols

end Findings.Adds

end BanglaScript
