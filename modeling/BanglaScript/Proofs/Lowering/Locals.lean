import BanglaScript.Proofs.Lowering.Told
import BanglaScript.Proofs.Parser.Words
import BanglaScript.Proofs.Script.Used
import Mathlib.Data.List.Pairwise

/-!
# Variables of functions

Every declaration of a program stands in the bodies of some functions.  A variable
keeps its name in the lowered program unless it hides another one; then it gets a
fresh name, and the fresh names are numbered in order.  So a variable with a fresh
name is used only in the bodies in which it is declared.
-/

namespace BanglaScript

open StateRun List Account Bool

/-- A variable that a program declares. -/
structure Declaration where
  /-- The functions around the declaration, from the innermost outwards. -/
  bodies : List Nat
  /-- The name in the program. -/
  source : String
  /-- The number of the fresh name, if the variable hides another one. -/
  number? : Option Nat
deriving DecidableEq

/-- The name in the lowered program. -/
def Declaration.lowered (declared : Declaration) : String :=
  match declared.number? with
  | none => declared.source
  | some number => Naming.renamed declared.source number

variable {declared : Declaration} {program : Program}

theorem Declaration.lowered_of_number {number : Nat} (numbered : declared.number? = some number) :
    declared.lowered = Naming.renamed declared.source number := by
  rw [lowered, numbered]

mutual

/-- The declarations of a statement, in order.  The functions around it, the number of
the next function and the names in use are given. -/
def Statement.declarations (bodies : List Nat) (count : Nat) (naming : Naming) :
    Statement → List Declaration
  | .declaration name _ => [⟨bodies, name, (naming.bound? name).map fun _ => naming.renames + 1⟩]
  | .ifThen condition body =>
    declarationsAll bodies count
      ((Node.Direct.expression condition).run naming).2.openScope body
  | .ifElse condition body alternative =>
    let tested := ((Node.Direct.expression condition).run naming).2
    let behind := ((Lower.inScope (Node.Direct.statements body)).run tested).2
    declarationsAll bodies count tested.openScope body ++
      declarationsAll bodies (count + (accountAll body).functions) behind.openScope alternative
  | .repeatWhile condition body =>
    declarationsAll bodies count
      ((Node.Direct.expression condition).run naming).2.openScope body
  | .block body => declarationsAll bodies count naming.openScope body
  | .function _ parameters body =>
    declarationsAll (count :: bodies) (count + 1) (naming.openFunction parameters).openScope body
  | .assignment _ _ | .giveBack _ | .print _ | .expression _ => []

/-- The declarations of statements, one after the other. -/
def Statement.declarationsAll (bodies : List Nat) (count : Nat) (naming : Naming) :
    List Statement → List Declaration
  | [] => []
  | first :: rest =>
    first.declarations bodies count naming ++
      declarationsAll bodies (count + first.account.functions)
        ((Node.Direct.statement first).run naming).2 rest

end

/-- The declarations of a program. -/
def Program.declarations (program : Program) : List Declaration :=
  Statement.declarationsAll [] 0 (Naming.openScope {}) program.body

namespace Naming

/-- The names that variables have in the lowered program. -/
def names (naming : Naming) : List String := naming.entries.map Prod.snd

/-- The name that a declaration gets. -/
theorem declare_fst (naming : Naming) (name : String) (bodies : List Nat) :
    (naming.declare name).1 =
      (⟨bodies, name, (naming.bound? name).map fun _ => naming.renames + 1⟩ :
        Declaration).lowered := by
  unfold declare Declaration.lowered
  cases naming.bound? name <;> rfl

/-- A declaration adds at most its own name. -/
theorem mem_names_declare {naming : Naming} {name target : String}
    (member : target ∈ (naming.declare name).2.names) :
    target ∈ naming.names ∨ (naming.declare name).1 = target := by
  obtain ⟨_, found, rfl⟩ := mem_map.mp member
  rcases mem_entries_declare found with rfl | old
  · exact .inr rfl
  · exact .inl (mem_map_of_mem old)

end Naming

/-! ## How names are handed out -/

/-- The declarations take the numbers of fresh names in order. -/
structure TakesNumbers (before : Nat) (declarations : List Declaration) (after : Nat) : Prop where
  grows : before ≤ after
  numbers : declarations.filterMap Declaration.number? =
    List.range' (before + 1) (after - before)

theorem TakesNumbers.append {before between after : Nat} {first second : List Declaration}
    (here : TakesNumbers before first between) (there : TakesNumbers between second after) :
    TakesNumbers before (first ++ second) after := by
  refine ⟨Nat.le_trans here.grows there.grows, ?_⟩
  obtain ⟨firstCount, rfl⟩ := Nat.exists_eq_add_of_le here.grows
  obtain ⟨secondCount, rfl⟩ := Nat.exists_eq_add_of_le there.grows
  have counts : before + firstCount + secondCount - before = firstCount + secondCount := by omega
  rw [filterMap_append, here.numbers, there.numbers, Nat.add_sub_cancel_left,
    Nat.add_sub_cancel_left, counts, Nat.add_right_comm before firstCount 1]
  exact range'_append_1

/-- Names are handed out and used in some part of a program, between two states.  The
part changes the innermost scope only, and uses a name only where it is visible already
or declared. -/
structure Hands (name : String) (bodies : List Nat) (before : Naming)
    (declarations : List Declaration) (events : List (List Nat × Event)) (after : Naming) :
    Prop where
  outer : after.scopes.tail = before.scopes.tail
  numbers : TakesNumbers before.renames declarations after.renames
  words : ∀ declared ∈ declarations, '$' ∉ declared.source.toList
  visible : name ∈ after.names → name ∈ before.names ∨
    ∃ declared ∈ declarations, declared.lowered = name ∧ declared.bodies = bodies
  inside : ∀ body, (body, .use name) ∈ events → bodies <:+ body
  used : ∀ body, (body, .use name) ∈ events → name ∈ before.names ∨
    ∃ declared ∈ declarations, declared.lowered = name ∧ declared.bodies <:+ body

namespace Hands

variable {name : String} {bodies : List Nat} {before between after : Naming}
  {first second declarations : List Declaration}
  {firstEvents secondEvents events : List (List Nat × Event)}

theorem append (here : Hands name bodies before first firstEvents between)
    (there : Hands name bodies between second secondEvents after) :
    Hands name bodies before (first ++ second) (firstEvents ++ secondEvents) after where
  outer := there.outer.trans here.outer
  numbers := here.numbers.append there.numbers
  words := forall_mem_append.mpr ⟨here.words, there.words⟩
  visible member := by
    rcases there.visible member with earlier | ⟨declared, found, named, own⟩
    · rcases here.visible earlier with old | ⟨declared, found, named, own⟩
      · exact .inl old
      · exact .inr ⟨declared, mem_append_left _ found, named, own⟩
    · exact .inr ⟨declared, mem_append_right _ found, named, own⟩
  inside body member := (mem_append.mp member).elim (here.inside body) (there.inside body)
  used body member := by
    rcases mem_append.mp member with earlier | later
    · rcases here.used body earlier with old | ⟨declared, found, named, own⟩
      · exact .inl old
      · exact .inr ⟨declared, mem_append_left _ found, named, own⟩
    · rcases there.used body later with known | ⟨declared, found, named, own⟩
      · rcases here.visible known with old | ⟨declared, found, named, rfl⟩
        · exact .inl old
        · exact .inr ⟨declared, mem_append_left _ found, named, there.inside body later⟩
      · exact .inr ⟨declared, mem_append_right _ found, named, own⟩

/-- Nothing is declared, and only visible names are used. -/
theorem flat (scopes : after.scopes = before.scopes) (renames : after.renames = before.renames)
    (inside : ∀ body, (body, .use name) ∈ events → bodies <:+ body ∧ name ∈ before.names) :
    Hands name bodies before [] events after where
  outer := congrArg List.tail scopes
  numbers := ⟨Nat.le_of_eq renames.symm, by rw [renames, Nat.sub_self]; rfl⟩
  words _ member := absurd member not_mem_nil
  visible member := by
    rw [Naming.names, Naming.entries, scopes] at member
    exact .inl member
  inside body member := (inside body member).1
  used body member := .inl (inside body member).2

/-- A part with a scope of its own. -/
theorem inScope (hands : Hands name bodies before.openScope declarations events after) :
    Hands name bodies before declarations events after.closeScope where
  outer := congrArg List.tail hands.outer
  numbers := hands.numbers
  words := hands.words
  visible member := by
    change name ∈ after.scopes.tail.flatten.map Prod.snd at member
    rw [hands.outer] at member
    exact .inl member
  inside := hands.inside
  used := hands.used

/-- The body of a function. -/
theorem function (own : IsOwnName name) {count : Nat} {parameters : List String}
    (hands : Hands name (count :: bodies) (before.openFunction parameters) declarations events
      after) (callee : String) :
    Hands name bodies before declarations ((bodies, .function callee) :: events)
      after.closeFunction := by
  have notSlot (member : name ∈ (before.openFunction parameters).names) : name ∈ before.names := by
    rw [Naming.names, Naming.entries] at member
    obtain ⟨_, found, rfl⟩ := mem_map.mp member
    rcases mem_append.mp found with slot | old
    · obtain ⟨_, _, rfl⟩ := mem_map.mp (mem_reverse.mp slot)
      exact absurd rfl (own.notSlot _ _)
    · exact mem_map_of_mem old
  have use {body : List Nat}
      (member : (body, .use name) ∈ (bodies, .function callee) :: events) :
      (body, .use name) ∈ events :=
    (mem_cons.mp member).resolve_left fun same => by cases same
  exact {
    outer := congrArg List.tail hands.outer
    numbers := hands.numbers
    words := hands.words
    visible := fun member => by
      change name ∈ after.scopes.tail.flatten.map Prod.snd at member
      rw [hands.outer] at member
      exact .inl member
    inside := fun body member => (suffix_cons _ _).trans (hands.inside body (use member))
    used := fun body member => (hands.used body (use member)).imp_left notSlot }

end Hands

namespace Node.Direct

variable {name : String} {naming : Naming} {events marks : List Event} {body : List Nat}
  {operands : List Operand} {target : Nat}

/-- An unbound name stands for itself, and it is a word. -/
theorem mem_names_of_resolve (dollar : '$' ∈ name.toList) {source : String}
    (word : '$' ∉ source.toList) (same : naming.resolve source = name) : name ∈ naming.names := by
  unfold Naming.resolve at same
  cases bound : naming.bound? source with
  | none =>
    rw [bound] at same
    exact absurd dollar (same ▸ word)
  | some =>
    rw [bound] at same
    exact mem_map.mpr ⟨_, Naming.exists_of_bound? bound, same⟩

theorem dollar_notMem_temporary (number : Nat) :
    '$' ∉ (Place.temporary number).text.toList := by
  have digits : '$' ∉ Nat.toDigits 10 number := fun member =>
    absurd (Nat.isDigit_of_mem_toDigits (by decide) (by decide) member) (by decide)
  simp [Place.text, toString, digits]

/-- What an account of one body uses. -/
theorem mem_of_events {bodies : List Nat} {count : Nat}
    (member : (body, .use name) ∈ (Account.of events).events bodies count) :
    .use name ∈ events := by
  obtain ⟨_, found, same⟩ := mem_map.mp member
  cases same
  exact found

theorem mem_of_ofReads (member : .use name ∈ Event.ofReads operands) :
    name ∈ operands.filterMap Operand.storage? := by
  obtain ⟨_, found, same⟩ := mem_map.mp member
  cases same
  exact found

/-- What reads operands and writes a temporary uses the names of the operands. -/
theorem mem_of_computed (dollar : '$' ∈ name.toList) (others : ∀ event ∈ marks, event.isUse = false)
    (member : .use name ∈
      Event.ofReads operands ++ marks ++ Event.ofWrite (some (.temporary target))) :
    name ∈ operands.filterMap Operand.storage? := by
  rcases mem_append.mp member with before | written
  · rcases mem_append.mp before with read | mark
    · exact mem_of_ofReads read
    · exact Bool.noConfusion (others _ mark)
  · cases mem_singleton.mp written
    exact absurd dollar (dollar_notMem_temporary target)

/-- The nodes of expressions use visible names only, and so do the values. -/
structure Reads (name : String) (before : Naming) (nodes : List Node) (values : List Operand)
    (after : Naming) : Prop where
  scopes : after.scopes = before.scopes
  renames : after.renames = before.renames
  used : ∀ bodies count body, (body, .use name) ∈ (accountAll nodes).events bodies count →
    name ∈ before.names
  value : name ∈ values.filterMap Operand.storage? → name ∈ before.names

namespace Reads

variable {before between after : Naming} {first second nodes : List Node}
  {firstValues secondValues values : List Operand}

theorem names_eq (reads : Reads name before nodes values after) : after.names = before.names := by
  rw [Naming.names, Naming.entries, reads.scopes]
  rfl

theorem append (here : Reads name before first firstValues between)
    (there : Reads name between second secondValues after) :
    Reads name before (first ++ second) (firstValues ++ secondValues) after where
  scopes := there.scopes.trans here.scopes
  renames := there.renames.trans here.renames
  used bodies count body member := by
    rw [accountAll_append] at member
    rcases mem_append.mp member with earlier | later
    · exact here.used _ _ _ earlier
    · exact here.names_eq ▸ there.used _ _ _ later
  value member := by
    rw [filterMap_append] at member
    rcases mem_append.mp member with earlier | later
    · exact here.value earlier
    · exact here.names_eq ▸ there.value later

/-- A node that reads the values and writes a temporary. -/
theorem compute (dollar : '$' ∈ name.toList) (reads : Reads name before nodes values after)
    {node : Node} (others : ∀ event ∈ marks, event.isUse = false)
    (computes : account node =
      .of (Event.ofReads values ++ marks ++ Event.ofWrite (some (.temporary target))))
    (temporaries : Nat) :
    Reads name before (nodes ++ [node]) [.temporary target]
      (after.withTemporaries temporaries) where
  scopes := reads.scopes
  renames := reads.renames
  used bodies count body member := by
    rw [accountAll_append, accountAll, accountAll, computes, next_nothing] at member
    rcases mem_append.mp member with earlier | computed
    · exact reads.used _ _ _ earlier
    · exact reads.value (mem_of_computed dollar others (mem_of_events computed))
  value member := by
    cases mem_singleton.mp member
    exact absurd dollar (dollar_notMem_temporary target)

end Reads

mutual

theorem reads_expression (dollar : '$' ∈ name.toList) (expr : Expr)
    (words : expr.all Expr.usesWord) (naming : Naming) :
    Reads name naming ((expression expr).run naming).1.1 [((expression expr).run naming).1.2]
      ((expression expr).run naming).2 := by
  cases expr with
  | literal constant =>
    cases constant <;>
      exact ⟨rfl, rfl, fun _ _ _ member => absurd member not_mem_nil,
        fun member => absurd member not_mem_nil⟩
  | identifier =>
    refine ⟨rfl, rfl, fun _ _ _ member => absurd member not_mem_nil, fun member => ?_⟩
    exact mem_names_of_resolve dollar (of_decide_eq_true words)
      (mem_singleton.mp member).symm
  | binary operator lhs rhs =>
    simp only [Expr.all, and_eq_true] at words
    have both := (reads_expression dollar lhs words.1.2 naming).append
      (reads_expression dollar rhs words.2 _)
    exact both.compute dollar (forall_mem_nil _) rfl _
  | call callee arguments =>
    simp only [Expr.all, and_eq_true] at words
    exact (reads_expressions dollar arguments words.2 naming).compute dollar
      (by simp [Event.isUse]) rfl _

theorem reads_expressions (dollar : '$' ∈ name.toList) (exprs : List Expr)
    (words : Expr.allIn Expr.usesWord exprs) (naming : Naming) :
    Reads name naming ((expressions exprs).run naming).1.1 ((expressions exprs).run naming).1.2
      ((expressions exprs).run naming).2 := by
  cases exprs with
  | nil =>
    exact ⟨rfl, rfl, fun _ _ _ member => absurd member not_mem_nil,
      fun member => absurd member not_mem_nil⟩
  | cons first rest =>
    simp only [Expr.allIn, and_eq_true] at words
    exact (reads_expression dollar first words.1 naming).append
      (reads_expressions dollar rest words.2 _)

end

/-! ## Statements -/

theorem functions_expression (expr : Expr) (naming : Naming) :
    (accountAll ((expression expr).run naming).1.1).functions = 0 :=
  congrArg Account.functions (marked_expression expr naming)

theorem functions_statement (phrase : Statement) (naming : Naming) :
    (accountAll ((statement phrase).run naming).1).functions = phrase.account.functions := by
  rw [← marked_statement phrase naming]
  rfl

theorem functions_statements (phrases : List Statement) (naming : Naming) :
    (accountAll ((statements phrases).run naming).1).functions =
      (Statement.accountAll phrases).functions := by
  rw [← marked_statements phrases naming]
  rfl

section Statements

variable {bodies : List Nat} {before after : Naming} {nodes : List Node} {values : List Operand}
  {expr : Expr} {count : Nat} {source : String}

theorem Reads.hands (reads : Reads name before nodes values after) (bodies : List Nat)
    (count : Nat) : Hands name bodies before [] ((accountAll nodes).events bodies count) after := by
  refine .flat reads.scopes reads.renames fun body member => ⟨?_, reads.used _ _ _ member⟩
  obtain ⟨inner, same, _⟩ := isNested_accountAll nodes _ _ _ member
  exact ⟨inner, same.symm⟩

/-- Only the values are used. -/
theorem Reads.hands_of (reads : Reads name before nodes values after)
    (used : .use name ∈ events → name ∈ values.filterMap Operand.storage?) (bodies : List Nat)
    (count : Nat) : Hands name bodies after [] ((Account.of events).events bodies count) after := by
  refine .flat rfl rfl fun body member => ?_
  obtain ⟨_, found, same⟩ := mem_map.mp member
  cases same
  exact ⟨suffix_rfl, reads.names_eq ▸ reads.value (used found)⟩

section

variable {naming : Naming} {values : List Operand}
  (reads : Reads name naming ((expression expr).run naming).1.1 values
    ((expression expr).run naming).2)

include reads

/-- What comes behind the nodes of an expression. -/
theorem hands_behind {declarations : List Declaration} {rest : List Node}
    (hands : Hands name bodies ((expression expr).run naming).2 declarations
      ((accountAll rest).events bodies count) after) :
    Hands name bodies naming declarations
      ((accountAll (((expression expr).run naming).1.1 ++ rest)).events bodies count) after := by
  rw [accountAll_append]
  change Hands _ _ _ _ (_ ++ (accountAll rest).events bodies (count + (accountAll _).functions)) _
  rw [functions_expression]
  exact (reads.hands bodies count).append hands

/-- A last node that only reads the value of the expression. -/
theorem hands_behind_simple (count : Nat) {instruction : Instruction}
    (same : instruction.reads = values) (others : ∀ event ∈ instruction.marks, event.isUse = false)
    (nothing : instruction.target? = none) :
    Hands name bodies naming []
      ((accountAll (((expression expr).run naming).1.1 ++ [.simple instruction])).events bodies
        count) ((expression expr).run naming).2 := by
  have used (member : .use name ∈ Eventful.events instruction) :
      name ∈ values.filterMap Operand.storage? := by
    rcases mem_append.mp member with before | written
    · rcases mem_append.mp before with read | mark
      · exact same ▸ mem_of_ofReads read
      · exact Bool.noConfusion (others _ mark)
    · rw [nothing] at written
      cases written
  apply hands_behind reads
  rw [accountAll, accountAll, next_nothing]
  exact reads.hands_of used bodies count

end

/-- An assignment uses its target and a visible value. -/
theorem Reads.of_mem_assign {value : Operand} (reads : Reads name before nodes [value] after)
    {target : String}
    (member : (body, .use name) ∈
      (accountAll (assign (.variable target) value)).events bodies count) :
    body = bodies ∧ (name ∈ after.names ∨ target = name) := by
  unfold assign at member
  split at member
  · cases member
  · rw [accountAll, accountAll, next_nothing, account] at member
    obtain ⟨_, found, same⟩ := mem_map.mp member
    cases same
    refine ⟨rfl, ?_⟩
    rcases mem_append.mp found with before | written
    · have read := mem_of_ofReads ((mem_append.mp before).resolve_right not_mem_nil)
      exact .inl (reads.names_eq ▸ reads.value read)
    · cases mem_singleton.mp written
      exact .inr rfl

/-- A variable is declared. -/
theorem hands_declare (word : '$' ∉ source.toList) (naming : Naming)
    {events : List (List Nat × Event)}
    (used : ∀ body, (body, .use name) ∈ events → body = bodies ∧
      (name ∈ naming.names ∨ (naming.declare source).1 = name)) :
    Hands name bodies naming
      [⟨bodies, source, (naming.bound? source).map fun _ => naming.renames + 1⟩] events
      (naming.declare source).2 where
  outer := naming.tail_scopes_declare source
  numbers := by
    rw [naming.renames_declare]
    cases bound : naming.bound? source with
    | none => exact ⟨Nat.le_refl _, by simp⟩
    | some => exact ⟨Nat.le_succ _, by simp⟩
  words := forall_mem_singleton.mpr word
  visible member := by
    rcases Naming.mem_names_declare member with old | new
    · exact .inl old
    · exact .inr ⟨_, mem_singleton_self _, (naming.declare_fst source bodies) ▸ new, rfl⟩
  inside body member := (used body member).1 ▸ suffix_rfl
  used body member := by
    obtain ⟨rfl, old | new⟩ := used body member
    · exact .inl old
    · exact .inr ⟨_, mem_singleton_self _, (naming.declare_fst source body) ▸ new,
        suffix_rfl⟩

/-- A variable is declared with an initial value. -/
theorem hands_declaration (word : '$' ∉ source.toList) {initial : Expr} {naming : Naming}
    (count : Nat)
    (reads : Reads name naming ((expression initial).run naming).1.1
      [((expression initial).run naming).1.2] ((expression initial).run naming).2) :
    Hands name bodies naming
      [⟨bodies, source, (naming.bound? source).map fun _ => naming.renames + 1⟩]
      ((accountAll ((statement (.declaration source (some initial))).run naming).1).events bodies
        count) ((statement (.declaration source (some initial))).run naming).2 := by
  have bound : naming.bound? source = ((expression initial).run naming).2.bound? source := by
    rw [Naming.bound?, Naming.bound?, reads.scopes]
  rw [bound, ← reads.renames]
  exact hands_behind reads (hands_declare word _ fun _ member => reads.of_mem_assign member)

/-- A visible variable is assigned. -/
theorem hands_assignment (dollar : '$' ∈ name.toList) (word : '$' ∉ source.toList) {value : Expr}
    {naming : Naming} (count : Nat)
    (reads : Reads name naming ((expression value).run naming).1.1
      [((expression value).run naming).1.2] ((expression value).run naming).2) :
    Hands name bodies naming []
      ((accountAll ((statement (.assignment source value)).run naming).1).events bodies count)
      ((statement (.assignment source value)).run naming).2 := by
  refine hands_behind reads (.flat rfl rfl fun body member => ?_)
  obtain ⟨rfl, read | written⟩ := reads.of_mem_assign member
  · exact ⟨suffix_rfl, read⟩
  · exact ⟨suffix_rfl, mem_names_of_resolve dollar word written⟩

end Statements

mutual

theorem hands_statement (own : IsOwnName name) (dollar : '$' ∈ name.toList) (phrase : Statement)
    (words : phrase.all Statement.usesWord Expr.usesWord) (bodies : List Nat) (count : Nat)
    (naming : Naming) :
    Hands name bodies naming (phrase.declarations bodies count naming)
      ((accountAll ((statement phrase).run naming).1).events bodies count)
      ((statement phrase).run naming).2 := by
  have reads (expr : Expr) (words : expr.all Expr.usesWord) :=
    reads_expression dollar expr words naming
  cases phrase with (simp only [Statement.all, and_eq_true] at words)
  | declaration source initial =>
    have word := of_decide_eq_true words.1
    cases initial with
    | none => exact hands_declare word naming nofun
    | some initial => exact hands_declaration word count (reads initial words.2)
  | assignment source value =>
    exact hands_assignment dollar (of_decide_eq_true words.1) count (reads value words.2)
  | ifThen condition body =>
    have inside := hands_statements own dollar body words.2 bodies count
      ((expression condition).run naming).2.openScope
    refine hands_behind (reads condition words.1.2) ?_
    rw [accountAll, accountAll, next_nothing]
    exact ((reads condition words.1.2).hands_of mem_of_ofReads bodies count).append inside.inScope
  | ifElse condition body alternative =>
    let tested := ((expression condition).run naming).2
    let behind := ((Lower.inScope (statements body)).run tested).2
    have inside := hands_statements own dollar body words.1.2 bodies count tested.openScope
    have otherwise := hands_statements own dollar alternative words.2 bodies
      (count + (Statement.accountAll body).functions) behind.openScope
    refine hands_behind (reads condition words.1.1.2) ?_
    rw [accountAll, accountAll, next_nothing]
    change Hands _ _ _ _ (_ ++ (accountAll _).events bodies
      (count + (0 + (accountAll ((statements body).run tested.openScope).1).functions))) _
    rw [Nat.zero_add, functions_statements]
    exact (((reads condition words.1.1.2).hands_of mem_of_ofReads bodies count).append
      inside.inScope).append otherwise.inScope
  | repeatWhile condition body =>
    have inside := hands_statements own dollar body words.2 bodies count
      ((expression condition).run naming).2.openScope
    have tested := reads condition words.1.2
    rw [statement]
    simp only [run_bind, run_pure]
    rw [accountAll, accountAll, next_nothing]
    change Hands _ _ _ _
      ((_ ++ (Account.of _).events bodies (count + (accountAll _).functions)) ++
        (accountAll _).events bodies (count + ((accountAll _).functions + 0))) _
    rw [functions_expression]
    exact ((tested.hands bodies count).append
      (tested.hands_of mem_of_ofReads bodies count)).append inside.inScope
  | block body =>
    exact (hands_statements own dollar body words.2 bodies count naming.openScope).inScope
  | function callee parameters body =>
    have inside := hands_statements own dollar body words.2 (count :: bodies) (count + 1)
      (naming.openFunction parameters).openScope
    have whole := inside.inScope.function own callee
    rw [statement]
    simp only [run_bind, run_pure]
    rw [accountAll, accountAll, next_nothing]
    exact whole
  | giveBack value =>
    cases value with
    | none =>
      refine .flat rfl rfl fun body member => ?_
      cases mem_singleton.mp member
    | some value =>
      exact hands_behind_simple (reads value words.2) count rfl
        (forall_mem_singleton.mpr rfl) rfl
  | print value =>
    exact hands_behind_simple (reads value words.2) count rfl
      (forall_mem_nil _) rfl
  | expression value =>
    exact (reads value words.2).hands bodies count

theorem hands_statements (own : IsOwnName name) (dollar : '$' ∈ name.toList)
    (phrases : List Statement) (words : Statement.allIn Statement.usesWord Expr.usesWord phrases)
    (bodies : List Nat) (count : Nat) (naming : Naming) :
    Hands name bodies naming (Statement.declarationsAll bodies count naming phrases)
      ((accountAll ((statements phrases).run naming).1).events bodies count)
      ((statements phrases).run naming).2 := by
  cases phrases with
  | nil => exact .flat rfl rfl nofun
  | cons first rest =>
    simp only [Statement.allIn, and_eq_true] at words
    have both := (hands_statement own dollar first words.1 bodies count naming).append
      (hands_statements own dollar rest words.2 bodies (count + first.account.functions) _)
    rw [statements, Statement.declarationsAll]
    simp only [run_bind, run_pure, accountAll_append]
    change Hands _ _ _ _ (_ ++ (accountAll _).events bodies (count + (accountAll _).functions)) _
    rw [functions_statement]
    exact both

end

end Node.Direct

/-! ## Programs -/

namespace Program

/-- The code of a program tells what its nodes tell. -/
theorem eventsFrom_lower (program : Program) :
    eventsFrom {} program.lower = (Node.accountAll program.toNodes).events [] 0 := by
  rw [LabelledNode.lower_eq_instructionsAll, (LabelledNode.tells_nodes _).told,
    LabelledNode.toNodes_ofProgram]
  rfl

theorem hands_declarations (words : program.usesWords) {name : String} (own : IsOwnName name)
    (dollar : '$' ∈ name.toList) :
    Hands name [] (Naming.openScope {}) program.declarations (eventsFrom {} program.lower)
      ((Node.Direct.statements program.body).run (Naming.openScope {})).2 := by
  rw [eventsFrom_lower]
  exact Node.Direct.hands_statements own dollar program.body words [] 0 _

/-- Variables with the same fresh name are the same. -/
theorem eq_of_lowered_eq {declarations : List Declaration} {before after : Nat}
    (numbers : TakesNumbers before declarations after)
    (words : ∀ declared ∈ declarations, '$' ∉ declared.source.toList)
    {first second : Declaration} (firstMember : first ∈ declarations)
    (secondMember : second ∈ declarations) (fresh : first.number?.isSome)
    (same : second.lowered = first.lowered) : second = first := by
  obtain ⟨number, numbered⟩ := Option.isSome_iff_exists.mp fresh
  rw [Declaration.lowered_of_number numbered] at same
  have equal : second.number? = some number := by
    cases found : second.number? with
    | none =>
      rw [Declaration.lowered, found] at same
      exact absurd same.symm (Naming.renamed_ne (words second secondMember) number)
    | some =>
      rw [Declaration.lowered_of_number found] at same
      rw [Naming.renamed_injective (words second secondMember) (words first firstMember) same]
  have distinct : (declarations.filterMap Declaration.number?).Nodup :=
    numbers.numbers ▸ nodup_range'
  have symmetric : Std.Symm fun first second : Declaration =>
      ∀ number, first.number? = some number →
        ∀ other, second.number? = some other → number ≠ other :=
    ⟨fun _ _ apart _ here _ there => (apart _ there _ here).symm⟩
  apply Classical.byContradiction
  intro different
  exact (pairwise_filterMap.mp distinct).forall secondMember firstMember different
    _ equal _ numbered rfl

/-- A variable with a fresh name is used only where its functions are around. -/
theorem bodies_suffix_of_use (words : program.usesWords) (member : declared ∈ program.declarations)
    (fresh : declared.number?.isSome) (own : IsOwnName declared.lowered) {body : List Nat}
    (used : (body, .use declared.lowered) ∈ eventsFrom {} program.lower) :
    declared.bodies <:+ body := by
  obtain ⟨_, numbered⟩ := Option.isSome_iff_exists.mp fresh
  have dollar : '$' ∈ declared.lowered.toList := by
    rw [Declaration.lowered_of_number numbered, Naming.toList_renamed]
    exact mem_append_right _ mem_cons_self
  have hands := hands_declarations words own dollar
  rcases hands.used body used with none | ⟨other, otherMember, same, around⟩
  · cases none
  · rwa [eq_of_lowered_eq hands.numbers hands.words member otherMember fresh same] at around

end Program

end BanglaScript
