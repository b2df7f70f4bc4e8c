import BanglaScript.Compile
import BanglaScript.Proofs.Parser.Words
import BanglaScript.Proofs.Script.Homes

/-!
# Variables that a program stores outside of its functions

A declaration with an initial value is lowered to an assignment, and the optimizer
keeps assignments to variables.  The script has a line for every assignment.  So a
variable that is given a value outside of functions is used outside of functions
by the script, and all of its uses refer to one binding.

A declaration without an initial value is lowered to nothing.  If the variable is
then used by functions only, each of the outermost functions has a variable of its
own.
-/

namespace BanglaScript

open List LabelledNode Code Emit

namespace Lower

/-- The variable to which a value is stored.  A variable is not assigned to
itself. -/
def storedTo (target : String) (value : Operand) : List String :=
  if value.readsPlace (.variable target) then [] else [target]

mutual

/-- The variables, by their names in the lowered program, to which a statement
stores a value outside of functions.  Names are handed out as in lowering. -/
def stored : Statement → Lower (List String)
  | .declaration name (some initial) => do
    let (_, value) ← expression initial
    let target ← declare name
    return storedTo target value
  | .assignment name value => do
    let (_, value) ← expression value
    let target ← resolve name
    return storedTo target value
  | .ifThen condition body => do
    let _ ← expression condition
    let _ ← label
    let _ ← label
    inScope (storedAll body)
  | .ifElse condition body alternative => do
    let _ ← expression condition
    let _ ← label
    let _ ← label
    let _ ← label
    let inBody ← inScope (storedAll body)
    let inAlternative ← inScope (storedAll alternative)
    return inBody ++ inAlternative
  | .repeatWhile condition body => do
    let _ ← label
    let _ ← label
    let _ ← label
    let _ ← expression condition
    inScope (storedAll body)
  | .block body => inScope (storedAll body)
  | other => do
    let _ ← statement other
    return []

/-- The variables to which statements store values outside of functions. -/
def storedAll : List Statement → Lower (List String)
  | [] => return []
  | first :: rest => do
    let byFirst ← stored first
    let byRest ← storedAll rest
    return byFirst ++ byRest

end

end Lower

/-- The variables to which a program stores a value outside of its functions, be
it by a declaration with an initial value or by an assignment. -/
def Program.stored (program : Program) : List String :=
  ((Lower.storedAll program.body).run (Naming.openScope {})).1

/-! ## Assignments in code -/

/-- The variable that an instruction assigns. -/
def Instruction.assigned? : Instruction → Option String
  | .assign (.variable name) _ => some name
  | _ => none

namespace Code

/-- The code leaves the functions that it enters. -/
def StaysInBody (code : List Instruction) : Prop :=
  ∀ spot, (spotBehind spot code).bodies = spot.bodies

/-- Wherever the code stands, it assigns the variable in the body around it. -/
def AssignsInBody (code : List Instruction) (name : String) : Prop :=
  ∀ spot, ∃ entry ∈ placed spot code,
    entry.1.bodies = spot.bodies ∧ entry.2.assigned? = some name

variable {before code : List Instruction} {name : String}

theorem StaysInBody.of_tells {account : Account} (tells : Tells code account) :
    StaysInBody code := by
  intro spot
  rw [tells.passed]
  rfl

theorem StaysInBody.append (beforeStays : StaysInBody before) (stays : StaysInBody code) :
    StaysInBody (before ++ code) := by
  intro spot
  rw [spotBehind_append, stays, beforeStays]

namespace AssignsInBody

theorem before_append (assigns : AssignsInBody code name) (after : List Instruction) :
    AssignsInBody (code ++ after) name := by
  intro spot
  obtain ⟨entry, member, here⟩ := assigns spot
  exact ⟨entry, placed_append spot code after ▸ mem_append_left _ member, here⟩

theorem behind_append (assigns : AssignsInBody code name) (stays : StaysInBody before) :
    AssignsInBody (before ++ code) name := by
  intro spot
  obtain ⟨entry, member, here⟩ := assigns (spotBehind spot before)
  exact ⟨entry, placed_append spot before code ▸ mem_append_right _ member, stays spot ▸ here⟩

end AssignsInBody

/-- What is assigned outside of functions is used outside of functions. -/
theorem AssignsInBody.mem_eventsFrom (assigns : AssignsInBody code name) :
    ([], .use name) ∈ eventsFrom {} code := by
  obtain ⟨⟨spot, instruction⟩, member, outside, assigned⟩ := assigns {}
  refine mem_flatMap.mpr ⟨_, member, mem_map.mpr ⟨_, ?_, congrArg (·, _) outside⟩⟩
  cases instruction with
  | assign target =>
    cases target with
    | «variable» =>
      cases assigned
      exact mem_append_right _ mem_cons_self
    | temporary => cases assigned
  | _ => cases assigned

end Code

/-- The optimizer keeps the assignments of variables. -/
theorem Pass.Rewrites.assignsInBody {code result : List Instruction}
    (rewrites : Pass.Rewrites code result) {name : String} :
    Code.AssignsInBody code name → Code.AssignsInBody result name := by
  have stays {instruction : Instruction} {place : Place}
      (computed : instruction.computed? = some place) (spot : Spot) :
      Eventful.behind instruction spot = spot := by
    cases instruction <;> first | rfl | cases computed
  have assigned {instruction : Instruction} {place : Place}
      (computed : instruction.computed? = some place) :
      instruction.assigned? = place.variable? := by
    cases instruction with
    | assign =>
      cases computed
      cases place <;> rfl
    | binary =>
      cases computed
      rfl
    | _ => cases computed
  have keeps (spot : Spot) (bodies : List Nat)
      (before : ∃ entry ∈ placed spot code, entry.1.bodies = bodies ∧
        entry.2.assigned? = some name) :
      ∃ entry ∈ placed spot result, entry.1.bodies = bodies ∧ entry.2.assigned? = some name := by
    induction rewrites generalizing spot with
    | nil => exact before
    | keep instruction _ ih =>
      simp only [placed, mem_cons, exists_eq_or_imp] at before ⊢
      exact before.imp_right (ih _)
    | compute firstPlace secondPlace _ ih =>
      simp only [placed, mem_cons, exists_eq_or_imp, stays firstPlace, stays secondPlace,
        assigned firstPlace, assigned secondPlace] at before ⊢
      exact before.imp_right (ih _)
    | drop temporary value _ ih =>
      simp only [placed, mem_cons, exists_eq_or_imp] at before
      exact ih _ (before.resolve_left fun here => by cases here.2)
  exact fun assigns spot => keeps spot spot.bodies (assigns spot)

/-! ## Assignments of lowered programs -/

namespace Lower

open StateRun

theorem staysInBody_expression (expr : Expr) (naming : Naming) :
    StaysInBody ((expression expr).run naming).1.1 := by
  rw [run_expression]
  exact .of_tells (tells_straights _)

theorem staysInBody_test (condition : Expr) {naming : Naming} {whenTrue whenFalse number : Nat} :
    StaysInBody (((expression condition).run naming).1.1 ++
      [.branch ((expression condition).run naming).1.2 whenTrue whenFalse, .label number]) :=
  (staysInBody_expression condition naming).append (.of_tells (tells_branch _ _ _ _))

theorem staysInBody_statement (phrase : Statement) (naming : Naming) :
    StaysInBody ((statement phrase).run naming).1 := by
  rw [run_statement]
  exact .of_tells (tells_nodes _)

theorem staysInBody_statements (phrases : List Statement) (naming : Naming) :
    StaysInBody ((statements phrases).run naming).1 := by
  rw [run_statements]
  exact .of_tells (tells_nodes _)

/-- Both walks hand out the same names, and the code assigns what is stored. -/
structure StoresAs (names : List String × Naming) (code : List Instruction × Naming) : Prop where
  naming : names.2 = code.2
  stored : ∀ name ∈ names.1, AssignsInBody code.1 name

theorem assignsInBody_storedTo {code : List Instruction} (stays : StaysInBody code)
    (target : String) (value : Operand) :
    ∀ name ∈ storedTo target value,
      AssignsInBody (code ++ assign (.variable target) value) name := by
  intro name member
  refine AssignsInBody.behind_append (fun spot => ?_) stays
  unfold storedTo at member
  unfold assign
  split at member
  · cases member
  · rename_i changes
    cases mem_singleton.mp member
    rw [if_neg changes]
    exact ⟨_, mem_cons_self, rfl, rfl⟩

/-- A scope between code that stays in its body and other code. -/
theorem StoresAs.inScope {names : Lower (List String)} {inside : Lower (List Instruction)}
    {naming : Naming}
    (storesAs : StoresAs (names.run naming.openScope) (inside.run naming.openScope))
    {before : List Instruction} (stays : StaysInBody before) (after : List Instruction) :
    StoresAs ((Lower.inScope names).run naming)
      (before ++ ((Lower.inScope inside).run naming).1 ++ after,
        ((Lower.inScope inside).run naming).2) := by
  constructor
  · exact congrArg Naming.closeScope storesAs.naming
  · exact fun name member => ((storesAs.stored name member).behind_append stays).before_append _

mutual

/-- The code of every statement assigns what the statement stores. -/
theorem storesAs_statement (phrase : Statement) (naming : Naming) :
    StoresAs ((stored phrase).run naming) ((statement phrase).run naming) := by
  cases phrase with
  | declaration name initial =>
    cases initial with
    | none => exact ⟨rfl, forall_mem_nil _⟩
    | some initial =>
      exact ⟨rfl, assignsInBody_storedTo (staysInBody_expression initial naming) _ _⟩
  | assignment name value =>
    exact ⟨rfl, assignsInBody_storedTo (staysInBody_expression value naming) _ _⟩
  | ifThen condition body =>
    exact (storesAs_statements body _).inScope (staysInBody_test condition) _
  | ifElse condition body alternative =>
    let tested := ((expression condition).run naming).2
    let entered := (label.run (label.run (label.run tested).2).2).2
    have before := @staysInBody_test condition naming (tested.labels + 1) (tested.labels + 3)
      (tested.labels + 1)
    have first := (storesAs_statements body entered.openScope).inScope before
      [.jump (tested.labels + 2), .label (tested.labels + 3)]
    have between := (before.append (staysInBody_statements body entered.openScope)).append
      (.of_tells (tells_jump (tested.labels + 2) (tested.labels + 3)))
    have second := (storesAs_statements alternative
      ((inScope (statements body)).run entered).2.openScope).inScope between
      [.label (tested.labels + 2)]
    simp only [stored, run_bind, run_pure]
    rw [show ((inScope (storedAll body)).run entered).2 = _ from first.naming]
    refine ⟨second.naming, forall_mem_append.mpr ⟨fun name member => ?_, second.stored⟩⟩
    exact ((first.stored name member).before_append _).before_append _
  | repeatWhile condition body =>
    exact (storesAs_statements body _).inScope
      ((StaysInBody.of_tells (tells_label _)).append (staysInBody_test condition)) _
  | block body =>
    obtain ⟨same, included⟩ := storesAs_statements body naming.openScope
    exact ⟨congrArg Naming.closeScope same, included⟩
  | function | giveBack | print | expression => exact ⟨rfl, forall_mem_nil _⟩

theorem storesAs_statements (phrases : List Statement) (naming : Naming) :
    StoresAs ((storedAll phrases).run naming) ((statements phrases).run naming) := by
  cases phrases with
  | nil => exact ⟨rfl, forall_mem_nil _⟩
  | cons first rest =>
    obtain ⟨same, included⟩ := storesAs_statement first naming
    have later := storesAs_statements rest ((statement first).run naming).2
    simp only [storedAll, statements, run_bind, run_pure, same]
    exact ⟨later.naming, forall_mem_append.mpr
      ⟨fun name member => (included name member).before_append _, fun name member =>
        (later.stored name member).behind_append (staysInBody_statement first naming)⟩⟩

end

end Lower

/-- What every rewriting keeps, the choices of a compilation keep. -/
theorem Options.improve_of_rewrites {Kept : List Instruction → Prop}
    (step : ∀ code result, Pass.Rewrites code result → Kept code → Kept result)
    (options : Options) {code : List Instruction} (kept : Kept code) :
    Kept (options.improve code).1 := by
  unfold improve
  split
  · exact Pass.runAll_of_rewrites step Pass.all kept
  · exact kept

/-- The script of a program uses outside of functions what the program stores
outside of its functions. -/
theorem isUsedOutside_of_mem_stored (options : Options) {program : Program} {name : String}
    (stored : name ∈ program.stored) :
    IsUsedOutside (Draft.ofCode (options.improve program.lower).1).sentences name := by
  let Kept (code : List Instruction) : Prop :=
    LabelledNode.IsCodeOf (Node.skeletonAll program.toNodes) code ∧ AssignsInBody code name
  have lowered : Kept program.lower :=
    ⟨isCodeOf_lower program,
      (Lower.storesAs_statements program.body (Naming.openScope {})).stored name stored⟩
  obtain ⟨isCode, assigns⟩ : Kept (options.improve program.lower).1 :=
    options.improve_of_rewrites (fun code result rewrites ⟨isCode, assigns⟩ =>
      ⟨isCode.of_rewrites rewrites, rewrites.assignsInBody assigns⟩) lowered
  have composed := composed_ofNodes (Node.areWritten_recover (options.improve program.lower).1)
  rw [Draft.ofCode, composed.areCounted.isUsedOutside_iff, ← Draft.ofCode, isCode.eventsFrom_ofCode]
  exact assigns.mem_eventsFrom

/-- A variable to which the program stores a value outside of its functions is used
outside of functions by the script, and every variable that is used so refers to
one binding throughout the script, in the program and in all functions.  A variable
that different functions use refers to one binding only then. -/
theorem refersToOne_iff_isUsedOutside (options : Options) (program : Program) :
    let sentences := (Draft.ofCode (options.improve program.lower).1).sentences
    (∀ name ∈ program.stored, IsUsedOutside sentences name) ∧
      ∀ name, IsOwnName name →
        (IsUsedOutside sentences name → RefersToOne sentences name) ∧
        (IsUsedApart sentences name →
          RefersToOne sentences name → IsUsedOutside sentences name) := by
  have written := Node.areWritten_recover (options.improve program.lower).1
  refine ⟨fun name stored => isUsedOutside_of_mem_stored options stored, fun name own => ?_⟩
  exact ⟨refersToOne_ofNodes own written, isUsedOutside_of_refersToOne own written⟩

/-- The lines of a program that the optimizer leaves as it is come from its nodes. -/
theorem Draft.ofCode_improve {options : Options} {program : Program}
    (unchanged : (options.improve program.lower).1 = program.lower) :
    Draft.ofCode (options.improve program.lower).1 = Draft.ofNodes program.toNodes := by
  rw [unchanged, Draft.ofCode, lower_eq_instructionsAll,
    recover_instructionsAll (nodup_definedLabels_ofProgram program),
    toNodes_ofProgram]

/-- A variable that has an initial value is written by one function and read by
another one, inside of a third. -/
def sharing : Program :=
  ⟨[.declaration "g" (some (.literal (.string "a"))),
    .function "f" [] [.assignment "g" (.literal (.string "x"))],
    .function "h" []
      [.function "k" [] [.print (.identifier "g")], .expression (.call "k" [])],
    .expression (.call "f" []), .expression (.call "h" []), .print (.identifier "g")]⟩

/-- The lines of its script. -/
def sharingLines : List Sentence :=
  [.store true (.variable "g") (.copy (.string "a")),
    .openFunction "f" [], .store false (.variable "g") (.copy (.string "x")), .close,
    .openFunction "h" [], .openFunction "k" [], .print (.variable "g"), .close,
    .store true (.temporary 1) (.call "k" []), .close,
    .store true (.temporary 2) (.call "f" []), .store true (.temporary 3) (.call "h" []),
    .print (.variable "g")]

/-- All uses refer to one binding. -/
theorem refersToOne_sharing :
    "g" ∈ sharing.stored ∧ IsOwnName "g" ∧
      (Draft.ofCode (Options.improve {} sharing.lower).1).sentences = sharingLines ∧
      IsUsedOutside sharingLines "g" ∧ IsUsedApart sharingLines "g" ∧
      RefersToOne sharingLines "g" := by
  have lines : (Draft.ofCode (Options.improve {} sharing.lower).1).sentences = sharingLines := by
    rw [Draft.ofCode_improve (by decide)]
    decide
  have stored : "g" ∈ sharing.stored := by decide
  have own : IsOwnName "g" := .of_toList_eq rfl (by decide) (by decide) (by decide)
  have apart : IsUsedApart sharingLines "g" :=
    ⟨2, 4, 6, _, _, by decide, by decide, rfl, rfl, by decide, rfl, by decide⟩
  obtain ⟨storedUsed, named⟩ := refersToOne_iff_isUsedOutside {} sharing
  rw [lines] at storedUsed named
  have one := (named "g" own).1 (storedUsed "g" stored)
  exact ⟨stored, own, lines, (named "g" own).2 apart one, apart, one⟩

/-- A variable without an initial value is written by one function and read by
another one. -/
def declaredOnly : Program :=
  ⟨[.declaration "g" none,
    .function "f" [] [.assignment "g" (.literal (.string "x"))],
    .function "h" [] [.print (.identifier "g")],
    .expression (.call "f" []), .expression (.call "h" [])]⟩

/-- The lines of its script. -/
def declaredOnlyLines : List Sentence :=
  [.openFunction "f" [], .store true (.variable "g") (.copy (.string "x")), .close,
    .openFunction "h" [], .introduce ["g"], .print (.variable "g"), .close,
    .store true (.temporary 1) (.call "f" []), .store true (.temporary 2) (.call "h" [])]

/-- A variable of the program has the name of a parameter slot. -/
def namingSlot : Program :=
  ⟨[.declaration "param0" (some (.literal (.string "a"))),
    .function "f" ["x"] [.print (.identifier "param0")],
    .expression (.call "f" [.literal (.string "b")])]⟩

/-- The lines of its script. -/
def namingSlotLines : List Sentence :=
  [.store true (.variable "param0") (.copy (.string "a")),
    .openFunction "f" ["param0"], .print (.variable "param0"), .close,
    .store true (.temporary 1) (.call "f" [.string "b"])]

/-- Not every variable of a valid program that is declared outside of functions
refers to one binding.  Without an initial value each function has a variable of
its own, and a variable that has the name of a slot is taken for the parameter. -/
theorem not_refersToOne_declaredOnly :
    (declaredOnly.IsSpelled ∧ (∀ scoping, (declaredOnly.check scoping).isValid) ∧
      ∀ options : Options, ¬ RefersToOne
        (Draft.ofCode (options.improve declaredOnly.lower).1).sentences "g") ∧
    (namingSlot.IsSpelled ∧ (∀ scoping, (namingSlot.check scoping).isValid) ∧
      ∀ options : Options, ¬ RefersToOne
        (Draft.ofCode (options.improve namingSlot.lower).1).sentences "param0") := by
  refine ⟨⟨⟨"dhore g; function f() \x7b g = \"x\"; \x7d " ++
    "function h() \x7b dekhao(g); \x7d f(); h();", by decide +kernel⟩,
      by rintro (_ | _) <;> decide, ?_⟩,
    ⟨⟨"dhore param0 = \"a\"; function f(x) \x7b dekhao(param0); \x7d f(\"b\");", by decide +kernel⟩,
      by rintro (_ | _) <;> decide, ?_⟩⟩
  · rintro ⟨scoping, optimize⟩
    have lines : (Draft.ofCode
        ((⟨scoping, optimize⟩ : Options).improve declaredOnly.lower).1).sentences =
        declaredOnlyLines := by
      rw [Draft.ofCode_improve (by cases optimize <;> rfl)]
      decide
    rw [lines]
    rintro ⟨origin, refers⟩
    have stored : some 1 = some origin := @refers 1 _ rfl (by decide)
    have printed : some 4 = some origin := @refers 5 _ rfl (by decide)
    exact absurd (stored.trans printed.symm) (by decide)
  · rintro ⟨scoping, optimize⟩
    have lines : (Draft.ofCode
        ((⟨scoping, optimize⟩ : Options).improve namingSlot.lower).1).sentences =
        namingSlotLines := by
      rw [Draft.ofCode_improve (by cases optimize <;> rfl)]
      decide
    rw [lines]
    rintro ⟨origin, refers⟩
    have stored : some 0 = some origin := @refers 0 _ rfl (by decide)
    have printed : some 1 = some origin := @refers 2 _ rfl (by decide)
    exact absurd (stored.trans printed.symm) (by decide)

end BanglaScript
