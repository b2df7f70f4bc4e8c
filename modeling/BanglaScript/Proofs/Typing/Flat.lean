import BanglaScript.Proofs.Check.Backed
import BanglaScript.Proofs.Typing.Recorded

/-!
# Types under flat scoping

Under flat scoping a name has one type at a time in the whole program, and every
statement works with what the statements before it have left, in the order of the text.
A variable or a function needs a new name.  Only a parameter may have the name of
something else: from there on the name has the type `any`, inside of the function and
behind it, and its old type does not come back.
-/

namespace BanglaScript

open StateRun Findings List

/-- The types of the names that are declared. -/
abbrev Types := String → Option ValueType

/-! ## Tables -/

namespace SymbolTable

/-- Under flat scoping the declared names have the given types, and no name has got the
type of a phrase at fault. -/
structure HasTypes (table : SymbolTable) (types : Types) : Prop where
  flat : table.scoping = .flat
  typed : ∀ name, (table.globalScope.find? name).map (table.recorded[·]?) =
    (types name).map fun type => some (name, type)
  sound : ∀ name, types name ≠ some .error

namespace HasTypes

variable {table : SymbolTable} {types : Types} {name : String}

theorem empty : (SymbolTable.empty .flat).HasTypes fun _ => none :=
  ⟨rfl, fun _ => rfl, nofun⟩

variable (has : table.HasTypes types)

include has

/-- Scopes are only labels, and values have nothing to do with types. -/
theorem of_recorded {other : SymbolTable} (scoping : other.scoping = table.scoping)
    (globalScope : other.globalScope = table.globalScope)
    (recorded : other.recorded = table.recorded) : other.HasTypes types := by
  refine ⟨scoping.trans has.flat, ?_, has.sound⟩
  rw [globalScope, recorded]
  exact has.typed

theorem initializeName (name : String) : (table.initializeName name).HasTypes types := by
  unfold SymbolTable.initializeName
  split
  · exact has
  · exact has.of_recorded rfl rfl (recorded_initializeAt _ _)

theorem exists_type {index : Nat} (found : table.globalScope.find? name = some index) :
    ∃ type, types name = some type ∧ table.recorded[index]? = some (name, type) := by
  have typed := has.typed name
  rw [found] at typed
  obtain ⟨type, known, recorded⟩ := Option.map_eq_some_iff.mp typed.symm
  exact ⟨type, known, recorded.symm⟩

theorem conflict? (name : String) : (table.conflict? name).map Symbol.type = types name := by
  have typed := has.typed name
  simp only [SymbolTable.conflict?, receivingScope, has.flat]
  cases found : table.globalScope.find? name with
  | none =>
    rw [found] at typed
    exact (Option.map_eq_none_iff.mp typed.symm).symm
  | some =>
    obtain ⟨type, known, held⟩ := has.exists_type found
    rw [recorded, getElem?_map] at held
    obtain ⟨_, got, same⟩ := Option.map_eq_some_iff.mp held
    cases same
    exact (congrArg (Option.map Symbol.type) got).trans known.symm

theorem eq_none_of_conflict? (free : table.conflict? name = none) : types name = none := by
  rw [← has.conflict? name, free]
  rfl

/-- What a name refers to is what its declaration would replace. -/
theorem lookup? (name : String) : (table.lookup? name).map Symbol.type = types name := by
  rw [← has.conflict? name]
  simp [SymbolTable.lookup?, SymbolTable.conflict?, resolve?, searchedScopes, receivingScope,
    has.flat]

/-- A declaration changes what is recorded under one number, which no other name has. -/
theorem declare (name : String) {type : ValueType} (sound : type ≠ .error) (kind : SymbolKind) :
    (table.declare name type kind).2.HasTypes (Function.update types name (some type)) := by
  refine ⟨(table.declare_scoping name type kind).trans has.flat, fun other => ?_, fun other => ?_⟩
  · have there := has.typed other
    have inRange {name : String} {index : Nat}
        (found : table.globalScope.find? name = some index) : index < table.symbols.length := by
      obtain ⟨_, _, held⟩ := has.exists_type found
      exact table.length_recorded ▸ (List.getElem?_eq_some_iff.mp held).1
    rw [Function.update_apply]
    simp only [SymbolTable.declare, receivingScope, has.flat]
    cases found : table.globalScope.find? name with
    | none =>
      simp only [mapReceivingScope, Scope.find?_bind]
      split
      · simp [*, recorded]
      · rw [← there]
        cases bound : table.globalScope.find? other with
        | none => rfl
        | some => simp [recorded, getElem?_append_left, inRange bound]
    | some index =>
      dsimp only
      split
      · simp [*, recorded, inRange found]
      · rename_i different
        rw [← there]
        cases bound : table.globalScope.find? other with
        | none => rfl
        | some place =>
          have apart : index ≠ place := by
            rintro rfl
            obtain ⟨_, _, held⟩ := has.exists_type found
            obtain ⟨_, _, again⟩ := has.exists_type bound
            cases held.symm.trans again
            exact different rfl
          simp [recorded, getElem?_set_ne apart]
  · rw [Function.update_apply]
    split
    · simpa using sound
    · exact has.sound other

end HasTypes

end SymbolTable

namespace Check

variable {findings : Findings} {types : Types} {name : String}

/-- The names have the same types behind. -/
def KeepsTypes (before after : Findings) : Prop :=
  ∀ types, before.table.HasTypes types → after.table.HasTypes types

theorem KeepsTypes.keptByRecords : KeptByRecords KeepsTypes where
  refl _ _ := id
  trans here there types has := there types (here types has)
  report _ _ _ := id
  warn _ _ _ := id
  note _ _ _ := id

theorem hasTypes_declare (has : findings.table.HasTypes types) (name : String)
    (type : ValueType) (sound : type ≠ .error) (kind : SymbolKind) (initialized : Bool) :
    ((declare name type kind initialized).run findings).2.table.HasTypes
      (Function.update types name (some type)) := by
  have declared := has.declare name sound kind
  simp only [declare, update, run_modify]
  split
  · exact declared.of_recorded rfl rfl (SymbolTable.recorded_initializeAt _ _)
  · exact declared

theorem hasTypes_declareParameters (parameters : List String)
    (has : findings.table.HasTypes types) :
    ((declareParameters parameters).run findings).2.table.HasTypes fun name =>
      if name ∈ parameters then some .any else types name := by
  induction parameters generalizing findings types with
  | nil => exact has
  | cons parameter rest ih =>
    have declared := ih (hasTypes_declare has parameter .any nofun .parameter true)
    refine (congrArg _ (funext fun name => ?_)).mp declared
    by_cases same : name = parameter <;> simp [same]

/-! ## Expressions -/

/-- An expression without errors has a type. -/
theorem expression_ne_error (expr : Expr) (has : findings.table.HasTypes types)
    (valid : ((expression expr).run findings).2.errors = []) :
    ((expression expr).run findings).1 ≠ .error := by
  have carries : Carries fun findings type => type = .error → findings.errors ≠ [] :=
    ⟨fun holds errors fault none => holds fault (errors_eq_nil errors none),
      fun _ _ proper fault => absurd fault proper, fun some _ => some⟩
  refine fun fault => carries.expression expr (fun name symbol found same => ?_) fault valid
  have typed := has.lookup? name
  rw [found] at typed
  exact absurd (typed.symm.trans (congrArg some same)) (has.sound name)

end Check

/-! ## Visits -/

namespace Visit

variable {visit : Visit} {types : Types} {name : String}

/-- The type that an expression has at this place. -/
def typeOf (visit : Visit) (value : Expr) : ValueType :=
  ((Check.expression value).run visit.findings).1

/-- A function with a parameter of the name is declared here. -/
def hasParameter (name : String) (visit : Visit) : Bool :=
  match visit.phrase with
  | .function _ parameters _ => name ∈ parameters
  | _ => false

/-- The types behind what the statement itself declares. -/
def retype (visit : Visit) (types : Types) : Types :=
  match visit.phrase with
  | .declaration name none => Function.update types name (some .any)
  | .declaration name (some initial) => Function.update types name (some (visit.typeOf initial))
  | .function name parameters _ => fun other =>
    if other ∈ parameters then some .any else Function.update types name (some .function) other
  | _ => types

/-- A name that has a type keeps it, unless it becomes a parameter. -/
theorem retype_of_typed (new : ∀ name ∈ visit.phrase.declared, types name = none)
    {type : ValueType} (typed : types name = some type) :
    visit.retype types name = some (if visit.hasParameter name then .any else type) := by
  obtain ⟨phrase, _⟩ := visit
  have other {declared : String} (member : declared ∈ phrase.declared) : name ≠ declared := by
    rintro rfl
    cases typed.symm.trans (new name member)
  cases phrase with
  | declaration declared initial =>
    have different := other (mem_singleton_self declared)
    cases initial <;> exact (Function.update_of_ne different _ _).trans typed
  | function declared parameters =>
    have different := other (mem_singleton_self declared)
    by_cases member : name ∈ parameters <;>
      simp [retype, hasParameter, member, different, typed]
  | _ => exact typed

end Visit

/-- Visits without errors that follow each other, each one with the types that the ones
before it have left. -/
inductive Follow : Types → List Visit → Findings → Prop where
  | nil {types : Types} {behind : Findings} (has : behind.table.HasTypes types) :
      Follow types [] behind
  | cons {types : Types} {visit : Visit} {visits : List Visit} {behind : Findings}
      (has : visit.findings.table.HasTypes types)
      (new : ∀ name ∈ visit.phrase.declared, types name = none)
      (valid : ((Check.statement visit.phrase).run visit.findings).2.errors = [])
      (rest : Follow (visit.retype types) visits behind) : Follow types (visit :: visits) behind

namespace Follow

variable {types : Types} {visits more : List Visit} {between behind : Findings}

theorem append (follow : Follow types visits between)
    (next : ∀ types, between.table.HasTypes types → Follow types more behind) :
    Follow types (visits ++ more) behind := by
  induction follow with
  | nil has => exact next _ has
  | cons has new valid _ ih => exact .cons has new valid (ih next)

theorem keep (follow : Follow types visits between) (keeps : Check.KeepsTypes between behind) :
    Follow types visits behind :=
  append_nil visits ▸ follow.append fun types has => .nil (keeps types has)

/-- A name that has a type keeps it along visits without a parameter of its name. -/
theorem split (follow : Follow types (visits ++ more) behind) :
    ∃ later, Follow later more behind ∧ ∀ name type, types name = some type →
      later name = some (if visits.any (·.hasParameter name) then .any else type) := by
  induction visits generalizing types with
  | nil => exact ⟨types, follow, fun _ _ typed => typed⟩
  | cons visit visits ih =>
    cases follow with
    | cons has new valid rest =>
      obtain ⟨later, follow, keeps⟩ := ih rest
      refine ⟨later, follow, fun name type typed => ?_⟩
      rw [keeps name _ (Visit.retype_of_typed new typed), any_cons]
      cases visit.hasParameter name <;> simp

end Follow

/-! ## Programs -/

namespace Check

variable {findings : Findings} {types : Types} {name : String}

theorem follow_inBlock {body : List Statement}
    (inside : ∀ {findings : Findings} {types : Types}, findings.table.HasTypes types →
      ((statements body).run findings).2.errors = [] →
        Follow types (visitsAll body findings) ((statements body).run findings).2)
    (has : findings.table.HasTypes types)
    (valid : ((inBlock (statements body)).run findings).2.errors = []) :
    Follow types (visitsAll body (opened findings))
      ((inBlock (statements body)).run findings).2 := by
  have openedTypes : (opened findings).table.HasTypes types := has.of_recorded rfl rfl rfl
  exact (inside openedTypes valid).keep fun _ has => has.of_recorded rfl rfl rfl

mutual

/-- Checking a statement without errors comes to visits that follow each other. -/
theorem follow_visits (phrase : Statement) {findings : Findings} {types : Types}
    (has : findings.table.HasTypes types)
    (valid : ((statement phrase).run findings).2.errors = []) :
    Follow types (visits phrase findings) ((statement phrase).run findings).2 := by
  have kept := KeepsTypes.keptByRecords
  have new {name : String} (free : findings.table.conflict? name = none) :
      ∀ other ∈ [name], types other = none := by
    intro other member
    rw [mem_singleton.mp member]
    exact has.eq_none_of_conflict? free
  cases phrase with
  | declaration name initial =>
    cases initial with
    | none =>
      obtain ⟨free, _, table⟩ := table_of_introduce valid
      have declared := hasTypes_declare has name .any nofun .variable false
      rw [← table] at declared
      exact .cons has (new free) valid (.nil declared)
    | some value =>
      obtain ⟨free, valueValid, table⟩ := table_of_declaration valid
      have sound := expression_ne_error value has valueValid
      have declared := hasTypes_declare has name _ sound .variable true
      rw [← table] at declared
      exact .cons has (new free) valid (.nil declared)
  | assignment name value =>
    have gains : Relates KeepsTypes (update (·.initializeName name)) := by
      intro findings types has
      exact has.initializeName name
    have assigned := kept.assignment gains value findings types has
    exact .cons has nofun valid (.nil assigned)
  | ifThen test body =>
    have tested := kept.condition .conditional test findings types has
    have inside := follow_inBlock (follow_visitsAll body) tested valid
    exact .cons has nofun valid inside
  | ifElse test body alternative =>
    have tested := kept.condition .conditional test findings types has
    have inside := follow_inBlock (follow_visitsAll body) tested (inBlock_errors valid)
    refine .cons has nofun valid (inside.append ?_)
    intro types between
    exact follow_inBlock (follow_visitsAll alternative) between valid
  | repeatWhile test body =>
    have tested := kept.condition .loop test findings types has
    have inside := follow_inBlock (follow_visitsAll body) tested valid
    exact .cons has nofun valid inside
  | block body =>
    have inside := follow_inBlock (follow_visitsAll body) has valid
    exact .cons has nofun valid inside
  | function name parameters body =>
    have free := free_of_function valid
    refine .cons has (new free) valid ?_
    rw [run_function_of_free free] at valid ⊢
    have declared := hasTypes_declare has name .function nofun .function true
    have entered : (enteredFunction name parameters findings).table.HasTypes
        (Function.update types name (some .function)) := declared.of_recorded rfl rfl rfl
    have bound := hasTypes_declareParameters parameters entered
    have inside := follow_inBlock (follow_visitsAll body) bound valid
    -- Leaving the function only closes its scope.
    refine inside.keep ?_
    intro types has
    exact has.of_recorded rfl rfl rfl
  | giveBack value =>
    cases value with
    | none => exact .cons has nofun valid (.nil has)
    | some value =>
      have evaluated := kept.expression value findings types has
      exact .cons has nofun valid (.nil evaluated)
  | print value | expression value =>
    have evaluated := kept.expression value findings types has
    exact .cons has nofun valid (.nil evaluated)

theorem follow_visitsAll (phrases : List Statement) {findings : Findings} {types : Types}
    (has : findings.table.HasTypes types)
    (valid : ((statements phrases).run findings).2.errors = []) :
    Follow types (visitsAll phrases findings) ((statements phrases).run findings).2 := by
  cases phrases with
  | nil => exact .nil has
  | cons first rest =>
    have firstValid := errors_eq_nil (keepsOuter_statements rest _).errors valid
    exact (follow_visits first has firstValid).append fun _ between =>
      follow_visitsAll rest between valid

end

end Check

/-- In a program that is valid under flat scoping, a variable that is declared with a
number, a string or a truth value has this type at every assignment behind its
declaration, and the value that is assigned has this type or `any`, unless a function
with a parameter of the same name is declared between them.  Behind such a function the
variable has the type `any`. -/
theorem typeOf_assigned {program : Program} (valid : (program.check .flat).isValid)
    {earlier between later : List Visit} {declared assigned : Visit} {name : String}
    {initial value : Expr}
    (listed : program.visits .flat = earlier ++ declared :: (between ++ assigned :: later))
    (declares : declared.phrase = .declaration name (some initial))
    (assigns : assigned.phrase = .assignment name value)
    (basic : declared.typeOf initial ∈ [ValueType.number, .string, .boolean]) :
    (assigned.findings.table.lookup? name).map Symbol.type =
        some (if between.any (·.hasParameter name) then .any else declared.typeOf initial) ∧
      (between.any (·.hasParameter name) = false →
        assigned.typeOf value = declared.typeOf initial ∨ assigned.typeOf value = .any) := by
  have follow := Check.follow_visitsAll program.body .empty (List.isEmpty_iff.mp valid)
  rw [← Program.visits, listed] at follow
  obtain ⟨_, follow, _⟩ := follow.split
  cases follow with
  | cons _ _ _ follow =>
    obtain ⟨_, follow, keeps⟩ := follow.split
    cases follow with
    | cons has _ assignedValid =>
      have typed := keeps name (declared.typeOf initial) (by simp [Visit.retype, declares])
      have lookup := has.lookup? name
      refine ⟨lookup.trans typed, fun none => ?_⟩
      rw [assigns] at assignedValid
      obtain ⟨valueValid, symbol, found, fits⟩ := Check.assignment_of_valid assignedValid
      have sound := Check.expression_ne_error value has valueValid
      rw [(Check.sameTable_expression value _).table] at found
      rw [found, typed, none] at lookup
      have same : symbol.type = declared.typeOf initial := Option.some.inj lookup
      rw [same] at fits
      change Check.compatible (assigned.typeOf value) _ at fits
      change assigned.typeOf value ≠ .error at sound
      simp only [mem_cons, not_mem_nil, or_false] at basic
      rcases basic with basic | basic | basic <;>
        simpa [Check.compatible, basic, sound] using fits

/-- A variable is assigned in a loop of a function that is declared behind it. -/
def assigningInside : Program :=
  ⟨[.declaration "x" (some (.literal (.number ⟨1⟩))),
    .function "f" ["y"]
      [.repeatWhile (.identifier "y")
        [.assignment "x" (.binary .add (.identifier "x") (.literal (.number ⟨1⟩)))]]]⟩

theorem typeOf_assigned_inside :
    (assigningInside.check .flat).isValid ∧
      ∃ declared ∈ assigningInside.visits .flat, ∃ assigned ∈ assigningInside.visits .flat,
        declared.typeOf (.literal (.number ⟨1⟩)) = .number ∧
        (assigned.findings.table.lookup? "x").map Symbol.type = some .number ∧
        (assigned.typeOf (.binary .add (.identifier "x") (.literal (.number ⟨1⟩))) = .number ∨
          assigned.typeOf (.binary .add (.identifier "x") (.literal (.number ⟨1⟩))) = .any) := by
  have valid : (assigningInside.check .flat).isValid := by decide
  have typed := @typeOf_assigned assigningInside valid [] [_, _] [] _ _ "x" _ _ rfl rfl rfl
    (mem_cons_self)
  exact ⟨valid, _, .head _, _, .tail _ (.tail _ (.tail _ (.head _))), rfl, typed.1, typed.2 rfl⟩

/-- A function has a parameter with the name of a variable. -/
def reusingName : Program :=
  ⟨[.declaration "x" (some (.literal (.number ⟨1⟩))), .function "f" ["x"] [],
    .assignment "x" (.literal (.string "s"))]⟩

/-- Behind the function a string is assigned, and it is written to the variable, not to
the parameter. -/
theorem not_typeOf_assigned :
    (reusingName.check .flat).isValid ∧
      (∃ declared between assigned, reusingName.visits .flat = [declared, between, assigned] ∧
        declared.phrase = .declaration "x" (some (.literal (.number ⟨1⟩))) ∧
        assigned.phrase = .assignment "x" (.literal (.string "s")) ∧
        declared.typeOf (.literal (.number ⟨1⟩)) = .number ∧
        assigned.typeOf (.literal (.string "s")) = .string) ∧
      [.assign (.variable "x") (.number ⟨1⟩), .assign (.variable "x") (.string "s")].Sublist
        reusingName.lower :=
  ⟨by decide, ⟨_, _, _, rfl, rfl, rfl, rfl, rfl⟩, by decide⟩

end BanglaScript
