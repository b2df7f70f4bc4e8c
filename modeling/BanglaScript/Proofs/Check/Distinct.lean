import BanglaScript.Proofs.Check.Called

/-!
# Programs that introduce every name once

A program may introduce each of its names only once, by a variable, a function or a
parameter, and leave the names of the truth values alone.  Then nothing hides
anything, and it does not matter whether names are kept in one scope or in many: a
program that is valid under lexical scoping is valid under flat scoping, with the
same warnings, notes and symbols.

The two runs of the checker go side by side.  Under flat scoping more names can be
found, because those of closed blocks are still there.  Only an error can tell the
difference, for what lexical scoping finds, flat scoping finds under the same number.
-/

namespace BanglaScript

open StateRun List

/-! ## Names -/

mutual

/-- The names of the variables, functions and parameters in a statement. -/
def Statement.introduced : Statement → List String
  | .declaration name _ => [name]
  | .ifThen _ body => Statement.introducedIn body
  | .ifElse _ body alternative => Statement.introducedIn body ++ Statement.introducedIn alternative
  | .repeatWhile _ body => Statement.introducedIn body
  | .block body => Statement.introducedIn body
  | .function name parameters body => name :: (parameters ++ Statement.introducedIn body)
  | _ => []

/-- The same for statements one after the other. -/
def Statement.introducedIn : List Statement → List String
  | [] => []
  | first :: rest => first.introduced ++ Statement.introducedIn rest

end

/-- The names of all variables, functions and parameters of a program. -/
def Program.introduced (program : Program) : List String := Statement.introducedIn program.body

/-- The names differ from each other and from the truth values. -/
structure AreDistinct (names : List String) : Prop where
  nodup : names.Nodup
  plain : ∀ name ∈ names, name ≠ "true" ∧ name ≠ "false"

namespace AreDistinct

variable {names more : List String} {name : String}

theorem left (distinct : AreDistinct (names ++ more)) : AreDistinct names :=
  ⟨(nodup_append.mp distinct.nodup).1, fun name member =>
    distinct.plain name (mem_append_left more member)⟩

theorem notMem (distinct : AreDistinct (names ++ name :: more)) : name ∉ names :=
  fun member => (nodup_append.mp distinct.nodup).2.2 name member name mem_cons_self rfl

end AreDistinct

/-! ## Tables -/

namespace SymbolTable

/-- Nothing but the bindings of a scope is changed. -/
theorem mapReceivingScope_bind (table : SymbolTable) (name : String) (index : Nat) :
    let changed := table.mapReceivingScope (·.bind name index)
    changed.symbols = table.symbols ∧ changed.blockCount = table.blockCount ∧
      changed.globalScope.name = table.globalScope.name ∧
      changed.innerScopes.map Scope.name = table.innerScopes.map Scope.name := by
  unfold mapReceivingScope
  split
  · rename_i inner
    rw [inner]
    exact ⟨rfl, rfl, rfl, rfl⟩
  · exact ⟨rfl, rfl, rfl, rfl⟩

/-- The tables of two runs under flat and under lexical scoping that have introduced
the names. -/
structure Alike (names : List String) (flat lexical : SymbolTable) : Prop where
  flatScoping : flat.scoping = .flat
  lexicalScoping : lexical.scoping = .lexical
  symbols : flat.symbols = lexical.symbols
  blockCount : flat.blockCount = lexical.blockCount
  globalName : flat.globalScope.name = lexical.globalScope.name
  innerNames : flat.innerScopes.map Scope.name = lexical.innerScopes.map Scope.name
  /-- What lexical scoping can find, flat scoping finds. -/
  found : ∀ scope ∈ lexical.searchedScopes, ∀ name index, scope.find? name = some index →
    flat.globalScope.find? name = some index
  introduced : ∀ name index, flat.globalScope.find? name = some index → name ∈ names

namespace Alike

variable {names : List String} {flat lexical : SymbolTable} {name : String}

theorem empty : Alike [] (.empty .flat) (.empty .lexical) where
  flatScoping := rfl
  lexicalScoping := rfl
  symbols := rfl
  blockCount := rfl
  globalName := rfl
  innerNames := rfl
  found scope member name index bound := by
    cases mem_singleton.mp member
    cases bound
  introduced name index bound := by cases bound

variable (alike : Alike names flat lexical)

include alike

theorem innermostName : flat.innermostScope.name = lexical.innermostScope.name := by
  have inner := alike.innerNames
  unfold innermostScope
  cases flatInner : flat.innerScopes <;> cases lexicalInner : lexical.innerScopes <;>
    simp only [flatInner, lexicalInner, map_nil, map_cons, List.cons.injEq, reduceCtorEq]
      at inner ⊢
  · exact alike.globalName
  · exact inner.1

theorem resolve?_flat (name : String) : flat.resolve? name = flat.globalScope.find? name := by
  rw [resolve?, searchedScopes, alike.flatScoping]
  simp

theorem resolve?_eq_some {index : Nat}
    (resolved : lexical.resolve? name = some index) : flat.resolve? name = some index := by
  obtain ⟨scope, member, bound⟩ := exists_of_findSome?_eq_some resolved
  rw [alike.resolve?_flat]
  exact alike.found scope member name index bound

theorem lookup?_eq_some {symbol : Symbol}
    (found : lexical.lookup? name = some symbol) : flat.lookup? name = some symbol := by
  obtain ⟨_, resolved, held⟩ := Option.bind_eq_some_iff.mp found
  rw [lookup?, alike.resolve?_eq_some resolved, Option.bind_some, get?, alike.symbols]
  exact held

theorem globalScope_find?_of_notMem (fresh : name ∉ names) :
    flat.globalScope.find? name = none := by
  cases bound : flat.globalScope.find? name with
  | none => rfl
  | some index => exact absurd (alike.introduced name index bound) fresh

theorem lookup?_of_notMem (fresh : name ∉ names) : flat.lookup? name = none := by
  rw [lookup?, alike.resolve?_flat, alike.globalScope_find?_of_notMem fresh]
  rfl

theorem find?_of_notMem (fresh : name ∉ names)
    {scope : Scope} (member : scope ∈ lexical.searchedScopes) : scope.find? name = none := by
  cases bound : scope.find? name with
  | none => rfl
  | some index =>
    have found := alike.found scope member name index bound
    rw [alike.globalScope_find?_of_notMem fresh] at found
    cases found

theorem receivingScope_flat : flat.receivingScope = flat.globalScope := by
  rw [receivingScope, alike.flatScoping]

/-- Under lexical scoping the innermost scope is searched first. -/
theorem receivingScope_mem : lexical.receivingScope ∈ lexical.searchedScopes := by
  rw [receivingScope, searchedScopes, alike.lexicalScoping, innermostScope]
  cases lexical.innerScopes <;> simp

theorem conflict?_of_notMem (fresh : name ∉ names) :
    flat.conflict? name = none ∧ lexical.conflict? name = none := by
  rw [conflict?, conflict?, alike.receivingScope_flat, alike.globalScope_find?_of_notMem fresh,
    alike.find?_of_notMem fresh alike.receivingScope_mem]
  exact ⟨rfl, rfl⟩

/-- A new name gets the next number in both tables. -/
theorem declare (fresh : name ∉ names) (type : ValueType) (kind : SymbolKind) :
    (flat.declare name type kind).1 = (lexical.declare name type kind).1 ∧
      Alike (names ++ [name]) (flat.declare name type kind).2
        (lexical.declare name type kind).2 := by
  let symbol : Symbol :=
    { name := name, type := type, kind := kind, scope := lexical.innermostScope.name }
  let number := lexical.symbols.length
  let grown : SymbolTable := { lexical with symbols := lexical.symbols ++ [symbol] }
  have flatDeclared : flat.declare name type kind =
      (number, { flat with
        symbols := lexical.symbols ++ [symbol]
        globalScope := flat.globalScope.bind name number }) := by
    simp only [SymbolTable.declare, alike.receivingScope_flat,
      alike.globalScope_find?_of_notMem fresh, alike.innermostName, alike.symbols,
      mapReceivingScope, alike.flatScoping]
    rfl
  have lexicalDeclared : lexical.declare name type kind =
      (number, grown.mapReceivingScope (·.bind name number)) := by
    rw [SymbolTable.declare, alike.find?_of_notMem fresh alike.receivingScope_mem]
  obtain ⟨symbols, blockCount, globalName, innerNames⟩ :=
    grown.mapReceivingScope_bind name number
  obtain ⟨scope, outer, before, behind⟩ :=
    searchedScopes_mapReceivingScope grown alike.lexicalScoping (·.bind name number)
  have searched : lexical.searchedScopes = scope :: outer := before
  have kept {other : String} {index : Nat} {within : Scope}
      (member : within ∈ lexical.searchedScopes) (bound : within.find? other = some index) :
      (flat.globalScope.bind name number).find? other = some index := by
    have different : other ≠ name := by
      rintro rfl
      cases (alike.find?_of_notMem fresh member).symm.trans bound
    rw [Scope.find?_bind, if_neg different]
    exact alike.found within member other index bound
  rw [flatDeclared, lexicalDeclared]
  refine ⟨rfl, alike.flatScoping, ?_, symbols.symm, alike.blockCount.trans blockCount.symm,
    alike.globalName.trans globalName.symm, alike.innerNames.trans innerNames.symm, ?_, ?_⟩
  · exact (mapReceivingScope_scoping _ _).trans alike.lexicalScoping
  · rw [behind]
    intro within member other index bound
    rcases mem_cons.mp member with rfl | outside
    · rw [Scope.find?_bind] at bound
      split at bound
      · rename_i same
        rw [Scope.find?_bind, if_pos same]
        exact bound
      · exact kept (searched ▸ mem_cons_self) bound
    · exact kept (searched ▸ mem_cons_of_mem _ outside) bound
  · intro other index bound
    rw [Scope.find?_bind] at bound
    split at bound
    · rename_i same
      exact mem_append_right names (mem_singleton.mpr same)
    · exact mem_append_left _ (alike.introduced other index bound)

/-- Other symbols may be held as long as they are the same. -/
theorem withSymbols (symbols : List Symbol) :
    Alike names { flat with symbols := symbols } { lexical with symbols := symbols } :=
  { alike with symbols := rfl }

theorem initializeAt (index : Nat) :
    Alike names (flat.initializeAt index) (lexical.initializeAt index) := by
  rw [SymbolTable.initializeAt, SymbolTable.initializeAt, alike.symbols]
  exact alike.withSymbols _

theorem initializeName {symbol : Symbol} (found : lexical.lookup? name = some symbol) :
    Alike names (flat.initializeName name) (lexical.initializeName name) := by
  obtain ⟨index, resolved, _⟩ := Option.bind_eq_some_iff.mp found
  rw [SymbolTable.initializeName, SymbolTable.initializeName, resolved,
    alike.resolve?_eq_some resolved]
  exact alike.initializeAt index

theorem openScope (scopeName : String) :
    Alike names (flat.openScope scopeName) (lexical.openScope scopeName) :=
  { alike with
    innerNames := congrArg (scopeName :: ·) alike.innerNames
    found := fun scope member other index bound => by
      rw [searchedScopes_openScope alike.lexicalScoping] at member
      rcases mem_cons.mp member with rfl | outside
      · cases bound
      · exact alike.found scope outside other index bound }

theorem openBlock : Alike names flat.openBlock lexical.openBlock := by
  have counted : Alike names { flat with blockCount := flat.blockCount + 1 }
      { lexical with blockCount := lexical.blockCount + 1 } :=
    { alike with blockCount := congrArg (· + 1) alike.blockCount }
  rw [SymbolTable.openBlock, SymbolTable.openBlock, alike.blockCount] at *
  exact counted.openScope _

theorem closeScope : Alike names flat.closeScope lexical.closeScope :=
  { alike with
    innerNames := by
      rw [SymbolTable.closeScope, SymbolTable.closeScope, map_tail, map_tail, alike.innerNames]
    found := fun scope member other index bound => by
      refine alike.found scope ?_ other index bound
      simp only [searchedScopes, SymbolTable.closeScope, alike.lexicalScoping] at member ⊢
      exact mem_append.mpr ((mem_append.mp member).imp_left mem_of_mem_tail) }

end Alike

end SymbolTable

/-- The findings of two runs that have introduced the names. -/
structure Findings.Alike (names : List String) (flat lexical : Findings) : Prop where
  table : SymbolTable.Alike names flat.table lexical.table
  errors : flat.errors = lexical.errors
  warnings : flat.warnings = lexical.warnings
  notes : flat.notes = lexical.notes

namespace Check

open Findings

variable {α β : Type} {here there : List String}

/-- A computation that introduces the names and takes no error back.  If it finds no
error under lexical scoping, it does the same under flat scoping. -/
structure Agrees (computation : Check α) (new : List String) : Prop where
  errors : ∀ findings, findings.errors <+: (computation.run findings).2.errors
  agrees : ∀ {names : List String} {flat lexical : Findings}, Alike names flat lexical →
    AreDistinct (names ++ new) → (computation.run lexical).2.errors = [] →
    (computation.run flat).1 = (computation.run lexical).1 ∧
      Alike (names ++ new) (computation.run flat).2 (computation.run lexical).2

namespace Agrees

variable {first : Check α} {next : α → Check β}

/-- Neither is anything introduced nor is an error found. -/
theorem silent {computation : Check α}
    (errors : ∀ findings, (computation.run findings).2.errors = findings.errors)
    (agrees : ∀ {names : List String} {flat lexical : Findings}, Alike names flat lexical →
      (computation.run flat).1 = (computation.run lexical).1 ∧
        Alike names (computation.run flat).2 (computation.run lexical).2) :
    Agrees computation [] where
  errors findings := (errors findings).symm ▸ prefix_refl _
  agrees alike _ _ := by
    rw [append_nil]
    exact agrees alike

theorem pure (value : α) : Agrees (Pure.pure value) [] :=
  silent (fun _ => rfl) fun alike => ⟨rfl, alike⟩

theorem note (remark : CheckNote) : Agrees (Check.note remark) [] :=
  silent (fun _ => rfl) fun alike =>
    ⟨rfl, { alike with notes := congrArg (· ++ [remark]) alike.notes }⟩

theorem warn (warning : CheckWarning) : Agrees (Check.warn warning) [] :=
  silent (fun _ => rfl) fun alike =>
    ⟨rfl, { alike with warnings := congrArg (· ++ [warning]) alike.warnings }⟩

theorem update {change : SymbolTable → SymbolTable}
    (changes : ∀ {names : List String} {flat lexical : SymbolTable},
      SymbolTable.Alike names flat lexical →
      SymbolTable.Alike names (change flat) (change lexical)) :
    Agrees (Check.update change) [] :=
  silent (fun _ => rfl) fun alike => ⟨rfl, { alike with table := changes alike.table }⟩

/-- There is nothing to show where an error is found. -/
theorem report (error : CheckError) : Agrees (Check.report error) [] where
  errors findings := (sameTable_report error findings).errors
  agrees _ _ valid := absurd valid (errors_report error _)

theorem reported (error : CheckError) : Agrees (do let _ ← Check.report error) here where
  errors findings := (sameTable_report error findings).errors
  agrees _ _ valid := absurd valid (errors_report error _)

theorem bind (firstAgrees : Agrees first here)
    (nextAgrees : ∀ value, Agrees (next value) there) :
    Agrees (first >>= next) (here ++ there) where
  errors findings := (firstAgrees.errors findings).trans ((nextAgrees _).errors _)
  agrees alike distinct valid := by
    rw [← append_assoc] at distinct ⊢
    have firstValid := errors_eq_nil ((nextAgrees _).errors _) valid
    obtain ⟨same, between⟩ := firstAgrees.agrees alike distinct.left firstValid
    rw [run_bind, run_bind, same]
    exact (nextAgrees _).agrees between distinct valid

/-- What comes first introduces nothing. -/
theorem behind (firstAgrees : Agrees first [])
    (nextAgrees : ∀ value, Agrees (next value) here) : Agrees (first >>= next) here :=
  firstAgrees.bind nextAgrees

/-- Both tables give the same answer to a question. -/
theorem ask {question : SymbolTable → α}
    (same : ∀ {names : List String} {flat lexical : Findings}, Alike names flat lexical →
      AreDistinct (names ++ here) →
      ((Check.ask question >>= next).run lexical).2.errors = [] →
      question flat.table = question lexical.table)
    (nextAgrees : ∀ answer, Agrees (next answer) here) :
    Agrees (Check.ask question >>= next) here where
  errors findings := (nextAgrees _).errors findings
  agrees {names flat lexical} alike distinct valid := by
    have answer : (Check.ask question).run flat = (question lexical.table, flat) := by
      rw [← same alike distinct valid]
      rfl
    rw [run_bind, answer]
    exact (nextAgrees _).agrees alike distinct valid

end Agrees

/-! ## Expressions -/

/-- Only the names of the truth values may be looked up without being found. -/
theorem agrees_identifier (name : String) : Agrees (identifier name) [] := by
  refine .ask (fun {names flat lexical} alike distinct valid => ?_) fun found => ?_
  · cases found : lexical.table.lookup? name with
    | some => exact alike.table.lookup?_eq_some found
    | none =>
      refine alike.table.lookup?_of_notMem fun member => ?_
      have plain := distinct.left.plain name member
      exact (isTruth_of_identifier found valid).elim plain.1 plain.2
  · cases found with
    | none =>
      dsimp only
      split
      · exact .pure _
      · exact .report _
    | some =>
      dsimp only
      split
      · exact .bind (.warn _) fun _ => .pure _
      · exact .pure _

theorem agrees_binary (operator : BinaryOperator) (lhs rhs : ValueType) :
    Agrees (binary operator lhs rhs) [] := by
  unfold binary
  repeat' split
  all_goals first | exact .pure _ | exact .report _

mutual

theorem agrees_expression (expr : Expr) : Agrees (expression expr) [] := by
  cases expr with
  | literal constant => cases constant <;> exact .pure _
  | identifier name => exact agrees_identifier name
  | binary operator lhs rhs =>
    exact .bind (agrees_expression lhs) fun _ =>
      .bind (agrees_expression rhs) fun _ => agrees_binary operator _ _
  | call name arguments =>
    refine .ask (fun alike _ valid => ?_) fun symbol? => ?_
    · obtain ⟨⟨_, found, _⟩, _⟩ := isFunction_of_call valid
      rw [found]
      exact alike.table.lookup?_eq_some found
    · have further (noted : Bool) : Agrees (do
          callArguments noted 1 arguments
          Pure.pure ValueType.any) [] :=
        .bind (agrees_callArguments noted 1 arguments) fun _ => .pure _
      dsimp only
      split
      · exact .bind (.report _) fun _ => further _
      · exact further _

theorem agrees_callArguments (noted : Bool) (number : Nat) (arguments : List Expr) :
    Agrees (callArguments noted number arguments) [] := by
  cases arguments with
  | nil => exact .pure _
  | cons argument rest =>
    refine .bind (agrees_expression argument) fun type => ?_
    dsimp only
    split
    · exact .bind (.note _) fun _ => agrees_callArguments noted (number + 1) rest
    · exact agrees_callArguments noted (number + 1) rest

end

/-! ## Statements -/

theorem agrees_declare (name : String) (type : ValueType) (kind : SymbolKind)
    (initialized : Bool) : Agrees (declare name type kind initialized) [name] where
  errors findings := (keepsOuter_declare name type kind initialized findings).errors
  agrees alike distinct _ := by
    obtain ⟨number, declared⟩ := alike.table.declare distinct.notMem type kind
    refine ⟨rfl, ⟨?_, alike.errors, alike.warnings, alike.notes⟩⟩
    simp only [declare, update, run_modify]
    rw [number]
    split
    · exact declared.initializeAt _
    · exact declared

/-- A name that has not been introduced conflicts with nothing. -/
theorem conflict?_eq {names more : List String} {name : String} {flat lexical : Findings}
    (alike : Alike names flat lexical) (distinct : AreDistinct (names ++ name :: more)) :
    flat.table.conflict? name = lexical.table.conflict? name := by
  obtain ⟨inFlat, inLexical⟩ := alike.table.conflict?_of_notMem distinct.notMem
  rw [inFlat, inLexical]

theorem agrees_introduce (name : String) (type : ValueType) (initialized : Bool) :
    Agrees (introduce name type initialized) [name] := by
  refine .ask (fun alike distinct _ => conflict?_eq alike distinct) fun found => ?_
  cases found with
  | some => exact .reported _
  | none => exact .bind (agrees_declare name type .variable initialized) fun _ => .note _

theorem agrees_declaration (name : String) (initial : Option Expr) :
    Agrees (declaration name initial) [name] := by
  cases initial with
  | none => exact agrees_introduce name .any false
  | some value => exact .bind (agrees_expression value) fun type => agrees_introduce name type true

theorem agrees_assignment (name : String) (value : Expr) :
    Agrees (assignment name value) [] where
  errors findings := (sameScopes_assignment name value findings).errors
  agrees {names flat lexical} alike distinct valid := by
    obtain ⟨valueValid, _, found, _⟩ := assignment_of_valid valid
    obtain ⟨sameType, behind⟩ := (agrees_expression value).agrees alike distinct valueValid
    have foundFlat := behind.table.lookup?_eq_some found
    simp only [assignment, run_bind, ask, run_get, run_pure, found, foundFlat, sameType] at valid ⊢
    split
    · exact ⟨trivial, behind.table.initializeName found, behind.errors, behind.warnings,
        congrArg (· ++ _) behind.notes⟩
    · rename_i incompatible
      rw [if_neg incompatible] at valid
      exact absurd valid (errors_report _ _)

theorem agrees_condition (construct : Construct) (value : Expr) :
    Agrees (condition construct value) [] := by
  refine .bind (agrees_expression value) fun found => ?_
  split
  · exact .reported _
  · exact .pure _

theorem agrees_declareParameters (parameters : List String) :
    Agrees (declareParameters parameters) parameters := by
  induction parameters with
  | nil => exact .pure _
  | cons name rest ih => exact .bind (agrees_declare name .any .parameter true) fun _ => ih

/-- What is done inside a scope introduces what it introduces by itself. -/
theorem agrees_scoped (opening : SymbolTable → SymbolTable) {inside : Check Unit}
    (opens : ∀ {names : List String} {flat lexical : SymbolTable},
      SymbolTable.Alike names flat lexical →
      SymbolTable.Alike names (opening flat) (opening lexical))
    (agrees : Agrees inside here) :
    Agrees (do update opening; inside; update (·.closeScope)) here := by
  have closed := agrees.bind fun _ => Agrees.update SymbolTable.Alike.closeScope
  rw [append_nil] at closed
  exact .bind (.update opens) fun _ => closed

theorem agrees_inBlock {inside : Check Unit} (agrees : Agrees inside here) :
    Agrees (inBlock inside) here :=
  agrees_scoped (·.openBlock) SymbolTable.Alike.openBlock agrees

mutual

theorem agrees_statement (phrase : Statement) : Agrees (statement phrase) phrase.introduced := by
  cases phrase with
  | declaration name initial => exact agrees_declaration name initial
  | assignment name value => exact agrees_assignment name value
  | ifThen test body | repeatWhile test body =>
    exact .behind (agrees_condition _ test) fun _ => agrees_inBlock (agrees_statements body)
  | ifElse test body alternative =>
    exact .behind (agrees_condition _ test) fun _ =>
      .bind (agrees_inBlock (agrees_statements body)) fun _ =>
        agrees_inBlock (agrees_statements alternative)
  | block body => exact agrees_inBlock (agrees_statements body)
  | function name parameters body =>
    have inside : Agrees (do
        declareParameters parameters
        inBlock (statements body)) (parameters ++ Statement.introducedIn body) :=
      .bind (agrees_declareParameters parameters) fun _ =>
        agrees_inBlock (agrees_statements body)
    have around := agrees_scoped (·.openFunction name) (fun alike => alike.openScope _) inside
    refine .ask (fun alike distinct _ => conflict?_eq alike distinct) fun found => ?_
    split
    · exact .reported _
    · exact .bind (agrees_declare name .function .function true) fun _ =>
        .behind (.note _) fun _ => around
  | giveBack value =>
    cases value with
    | none => exact .note _
    | some value => exact .bind (agrees_expression value) fun _ => .note _
  | print value => exact .bind (agrees_expression value) fun _ => .note _
  | expression value => exact .bind (agrees_expression value) fun _ => .pure _

theorem agrees_statements (phrases : List Statement) :
    Agrees (statements phrases) (Statement.introducedIn phrases) := by
  cases phrases with
  | nil => exact .pure _
  | cons first rest => exact .bind (agrees_statement first) fun _ => agrees_statements rest

end

end Check

/-- **The two scoping rules agree where names are unique.**  If a program introduces
every name once and is valid under lexical scoping, it is valid under flat scoping,
and the warnings, notes and symbols are the same. -/
theorem check_flat_of_distinct {program : Program} (nodup : program.introduced.Nodup)
    (plain : ∀ name ∈ program.introduced, name ≠ "true" ∧ name ≠ "false")
    (valid : (program.check .lexical).isValid) :
    (program.check .flat).isValid ∧
      (program.check .flat).warnings = (program.check .lexical).warnings ∧
      (program.check .flat).notes = (program.check .lexical).notes ∧
      (program.check .flat).table.symbols = (program.check .lexical).table.symbols := by
  have started : Findings.Alike [] { table := .empty .flat } { table := .empty .lexical } :=
    ⟨.empty, rfl, rfl, rfl⟩
  obtain ⟨_, alike⟩ := (Check.agrees_statements program.body).agrees started ⟨nodup, plain⟩
    (List.isEmpty_iff.mp valid)
  have errors : (program.check .flat).errors = (program.check .lexical).errors := alike.errors
  refine ⟨?_, alike.warnings, alike.notes, alike.table.symbols⟩
  rw [Findings.isValid, errors]
  exact valid

/-- A block, a loop and a function with parameters, each with a variable of its own,
one of which is read before it has a value. -/
theorem check_flat_of_distinct_nested :
    let program : Program :=
      ⟨[.declaration "x" (some (.literal (.string "a"))),
        .block [.declaration "y" none, .print (.identifier "y")],
        .function "f" ["a", "b"]
          [.declaration "z" (some (.identifier "a")), .giveBack (some (.identifier "z"))],
        .repeatWhile (.identifier "true")
          [.declaration "w" (some (.call "f" [.identifier "x"])),
            .assignment "x" (.identifier "w")]]⟩
    program.introduced = ["x", "y", "f", "a", "b", "z", "w"] ∧
      (program.check .lexical).isValid ∧
      (program.check .lexical).warnings = [.usedBeforeInitialization "y"] ∧
      (program.check .flat).isValid ∧
      (program.check .flat).warnings = (program.check .lexical).warnings ∧
      (program.check .flat).notes = (program.check .lexical).notes ∧
      (program.check .flat).table.symbols = (program.check .lexical).table.symbols :=
  ⟨by decide, by decide, by decide, check_flat_of_distinct (by decide) (by decide) (by decide)⟩

end BanglaScript
