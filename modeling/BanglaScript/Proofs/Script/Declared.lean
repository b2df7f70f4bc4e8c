import BanglaScript.Proofs.Script.Writing
import BanglaScript.Proofs.Structure.Arranged

/-!
# Scripts declare their names

The lines of every node lead from one point of a body to another, by induction
on the nodes.  So all lines of a script are declared where they stand, whatever
instructions it was made from.
-/

namespace BanglaScript

open List Surroundings

namespace Emit

open Point

theorem opens_openIf (condition : Operand) : Opens (.openIf condition) :=
  ⟨rfl, fun _ => rfl⟩

theorem opens_openWhile (condition : Operand) : Opens (.openWhile condition) :=
  ⟨rfl, fun _ => rfl⟩

theorem opens_openForever : Opens .openForever :=
  ⟨rfl, fun _ => rfl⟩

/-- What is written leads on, whatever the body it stands in and the uses that it tells of. -/
def LeadsOn (tell : Nat → List Nat → NameUse.Numbering (List NameUse))
    (write : Introductions → Nat → Nat → Emit Draft) : Prop :=
  ∀ ⦃plan : Introductions⦄ ⦃outer : List String⦄ ⦃uses : List NameUse⦄ ⦃path : List Nat⦄
    ⦃point : Point⦄ (level depth : Nat), point.Stands plan outer path → plan.Fits outer uses →
    point.done ++ ((tell level path).run point.count).1 <+: uses →
    point.Leads plan outer path ((write plan level depth).run point.known).1.sentences
      ((tell level path).run point.count).1 ((tell level path).run point.count).2
      ((write plan level depth).run point.known).2

/-- The lines of nodes lead on. -/
abbrev LeadsThrough (code : List Node) : Prop :=
  LeadsOn (NameUse.ofNodes · · code) (nodes · · · code)

/-- The lines of a node lead on. -/
abbrev LeadsOver (code : Node) : Prop :=
  LeadsOn (NameUse.ofNode · · code) (node · · · code)

section Parts

variable {plan : Introductions} {outer : List String} {uses : List NameUse} {path : List Nat}
  {point : Point} {condition : Operand} {body alternative : List Node} {first : Node}
  {rest : List Node} {surroundings : Surroundings}

theorem leadsThrough_nil : LeadsThrough [] := fun _ _ _ _ _ _ _ stands _ _ => stands.nothing

theorem leadsThrough_cons (passes : LeadsOver first) (through : LeadsThrough rest) :
    LeadsThrough (first :: rest) := by
  intro plan outer uses path point level depth stands fits reached
  simp only [NameUse.run_cons, run_cons, Draft.sentences_append] at reached ⊢
  rw [← append_assoc] at reached
  have head := passes level depth stands fits ((prefix_append _ _).trans reached)
  exact head.append (through level depth head.stands fits reached)

theorem leadsOver_simple {instruction : Instruction} (written : instruction.isWritten) :
    LeadsOver (.simple instruction) := by
  intro plan outer uses path point level depth stands fits reached
  cases instruction with
  | assign | binary => exact stands.store fits reached
  | print =>
    exact stands.readOnly fits rfl rfl (fun _ => rfl) rfl reached rfl
  | giveBack value =>
    have operands : (Sentence.giveBack value).operands = (Instruction.giveBack value).reads := by
      cases value <;> rfl
    exact stands.readOnly fits rfl rfl (fun _ => rfl) operands reached rfl
  | _ => cases written

theorem leadsOver_call (name : String) (arguments : List Operand) (result : Option Nat) :
    LeadsOver (.call name arguments result) := by
  intro plan outer uses path point level depth stands fits reached
  cases result with
  | some => exact stands.store fits reached
  | none =>
    exact stands.readOnly fits rfl rfl (fun _ => rfl) rfl reached rfl

theorem leadsOver_unstructured (instruction : Instruction) :
    LeadsOver (.unstructured instruction) := by
  intro plan outer uses path point level depth stands fits reached
  exact stands.line fits rfl rfl (fun _ => rfl) reached rfl

/-- A block whose opening line reads a condition. -/
theorem Point.Stands.leads_block (stands : point.Stands plan outer path)
    (fits : plan.Fits outer uses) (through : LeadsThrough body) (level depth : Nat)
    {opener : Sentence} (opens : Opens opener)
    (reached : point.done ++ (NameUse.ofReads path opener.operands ++
      ((NameUse.ofNodes level (path ++ [point.count + 1]) body).run
        (point.count + 1)).1) <+: uses) :
    point.Leads plan outer path
      ([opener] ++ ((nodes plan level depth body).run point.known).1.sentences ++ [.close])
      (NameUse.ofReads path opener.operands ++
        ((NameUse.ofNodes level (path ++ [point.count + 1]) body).run (point.count + 1)).1)
      ((NameUse.ofNodes level (path ++ [point.count + 1]) body).run (point.count + 1)).2
      ⟨point.known.visible, ((nodes plan level depth body).run point.known).2.introduced⟩ := by
  rw [← append_assoc] at reached
  have opened := (prefix_append _ _).trans reached
  obtain ⟨_, entered⟩ := stands.enter fits opens opened
  obtain ⟨ordered, stand⟩ :=
    NameUse.standIn_ofNodes level body (NameUse.le_of_mem_append_singleton stands.progress.inside)
  have inside := through level depth entered fits reached
  exact stands.block fits opens opened inside stand (Nat.le_of_succ_le ordered)

theorem leadsOver_ifThen (through : LeadsThrough body) : LeadsOver (.ifThen condition body) := by
  intro plan outer uses path point level depth stands fits reached
  simp only [NameUse.run_ifThen, run_ifThen, Draft.sentences_append] at reached ⊢
  exact stands.leads_block fits through level (depth + 1) (opens_openIf condition) reached

theorem leadsOver_while (through : LeadsThrough body) :
    LeadsOver (.loop [] condition body) := by
  intro plan outer uses path point level depth stands fits reached
  simp only [run_while, Draft.sentences_append]
  exact stands.leads_block fits through level (depth + 1) (opens_openWhile condition) reached

theorem leadsOver_ifElse (through : LeadsThrough body) (elseThrough : LeadsThrough alternative) :
    LeadsOver (.ifElse condition body alternative) := by
  intro plan outer uses path point level depth stands fits reached
  simp only [NameUse.run_ifElse, run_ifElse, Draft.sentences_append] at reached ⊢
  rw [← append_assoc] at reached
  have first := stands.leads_block fits through level (depth + 1) (opens_openIf condition)
    ((prefix_append _ _).trans reached)
  have second := first.stands.leads_block fits elseThrough level (depth + 1) opens_openForever
    reached
  exact (first.append second).otherwise

theorem leadsOver_forever (beforeThrough : LeadsThrough (first :: rest))
    (through : LeadsThrough body) : LeadsOver (.loop (first :: rest) condition body) := by
  intro plan outer uses path point level depth stands fits reached
  simp only [NameUse.run_loop, isEmpty_cons, Bool.false_eq_true, if_false] at reached ⊢
  simp only [run_forever, Draft.sentences_append]
  -- The opening line reads nothing; what follows it comes in three parts.
  have nothing : point.done = point.done ++ NameUse.ofReads path Sentence.openForever.operands :=
    (append_nil _).symm
  rw [← append_assoc, ← append_assoc, nothing] at reached
  have tested := (prefix_append _ _).trans reached
  have started := (prefix_append _ _).trans tested
  have opened := (prefix_append _ _).trans started
  obtain ⟨_, entered⟩ := stands.enter fits opens_openForever opened
  have before := beforeThrough level (depth + 1) entered fits started
  have test : Leads _ plan outer _ [.leaveUnless condition] _ _ _ :=
    before.stands.line fits rfl rfl (fun _ => rfl) tested rfl
  have throughTest := before.append test
  have inside := throughTest.append (through level (depth + 1) throughTest.stands fits
    (by simpa only [Point.next, append_assoc, Sentence.operands] using reached))
  have inBlock := NameUse.le_of_mem_append_singleton stands.progress.inside
  obtain ⟨ordered, stand⟩ := NameUse.standIn_ofNodes level (first :: rest) inBlock
  obtain ⟨bodyOrdered, bodyStand⟩ := NameUse.standIn_ofNodes level body fun block member =>
    Nat.le_trans (inBlock block member) ordered
  have testStand : NameUse.StandIn (path ++ [point.count + 1]) (point.count + 1)
      (NameUse.ofReads (path ++ [point.count + 1]) [condition]) :=
    .of_eq_path inBlock fun use member => NameUse.path_of_mem_ofReads member
  exact stands.block fits opens_openForever opened inside
    (((stand.mono bodyOrdered).append (testStand.mono (Nat.le_trans ordered bodyOrdered))).append
      bodyStand)
    (Nat.le_trans (Nat.le_of_succ_le ordered) bodyOrdered)

/-- The lines of a body are declared. -/
theorem areDeclaredIn_body (through : LeadsThrough body) (fresh : IsFresh surroundings outer)
    (level depth : Nat) :
    let plan := Introductions.ofBody body outer level
    let lines := headed plan depth ((nodes plan level depth body).run (atHead plan outer)).1
    AreDeclaredIn surroundings lines.sentences ∧
      SameOutside surroundings (surroundings.afterAll lines.sentences) := by
  have fits := Introductions.fits_ofBody body outer level
  exact areDeclaredIn_headed fits fresh
    (through level depth (stands_belowHead fresh) fits prefix_rfl)

/-- Inside of a function its parameters are visible, too. -/
theorem isFresh_openFunction {known : KnownNames} (agrees : Agrees known surroundings)
    (name : String) (parameters : List String) :
    IsFresh (surroundings.after (.openFunction name parameters)) (parameters ++ known.visible) := by
  refine ⟨fun other => ?_, rfl, rfl⟩
  have visible : (surroundings.after (.openFunction name parameters)).visible =
      parameters ++ surroundings.visible := by
    simp [Surroundings.after, Surroundings.visible, OpenBody.visible]
  rw [visible, mem_append, mem_append, agrees.visible]

/-- A function does not bind a name of the plan: where the function mentions the
name, the name is visible. -/
theorem Point.Stands.not_binds_function (stands : point.Stands plan outer path)
    (fits : plan.Fits outer uses) {level : Nat} (depth : Nat) {callee : String} {parameters : Nat}
    (reached : point.done ++ ((NameUse.ofNode level path
      (.function callee parameters body)).run point.count).1 <+: uses)
    (passive : ∀ use ∈ ((NameUse.ofNode level path (.function callee parameters body)).run
      point.count).1, use.IsPassive) {name : String} (own : IsOwnName name)
    (inline : name ∈ plan.inline) :
    ¬ Binds name ((node plan level depth (.function callee parameters body)).run
      point.known).1 := by
  intro binds
  obtain ⟨notVisible, mentioned⟩ := binds_function own
    (fun plan depth known => bindsOnly_nodes own body plan (level + 1) depth known) binds
  have used : (⟨name, path, false, false⟩ : NameUse) ∈
      ((NameUse.ofNode level path (.function callee parameters body)).run point.count).1 :=
    mem_map.mpr ⟨name, mem_eraseDups.mpr mentioned, rfl⟩
  obtain ⟨first, rest, found, inPath⟩ := Progress.exists_first fits reached passive inline used rfl
  exact notVisible (stands.progress.inline name inline first rest found inPath)

/-- Behind a function everything is as it was before it. -/
theorem closed_of_function {inside : Surroundings} {name : String} {parameters : List String}
    (outside : SameOutside (surroundings.after (.openFunction name parameters)) inside) :
    inside.closed = { surroundings with isHead := false } := by
  simp only [Surroundings.closed, outside.around, outside.outer]
  rfl

theorem leadsOver_function (name : String) (parameters : Nat) (through : LeadsThrough body) :
    LeadsOver (.function name parameters body) := by
  intro plan outer uses path point level depth stands fits reached
  have fresh := isFresh_openFunction stands.agrees name (Node.slots level parameters)
  have inside := through (level + 1) (depth + 1) (stands_belowHead fresh)
    (Introductions.fits_ofBody body _ (level + 1)) prefix_rfl
  obtain ⟨declared, outside⟩ := areDeclaredIn_body through fresh (level + 1) (depth + 1)
  simp only [run_function, Draft.sentences_append]
  have opens : (Sentence.openFunction name (Node.slots level parameters)).IsDeclaredIn
      point.surroundings :=
    Sentence.isDeclaredIn_of_onlyReads rfl (forall_mem_nil _)
  have closed := closed_of_function outside
  have passive : ∀ use ∈ ((NameUse.ofNode level path (.function name parameters body)).run
      point.count).1, use.IsPassive := by
    intro use member
    obtain ⟨other, _, rfl⟩ := mem_map.mp member
    exact fun active => Bool.noConfusion active.1
  have progress := stands.progress.passive fits reached passive
    (.of_eq_path stands.progress.inside fun use member => by
      obtain ⟨other, _, rfl⟩ := mem_map.mp member
      rfl)
  refine ⟨(stay_headed inside.stay _).block fun _ => rfl, ?_, ?_, fun other own inline => ?_,
    progress, ?_⟩
  · simp only [areDeclaredIn_append, afterAll_append]
    exact ⟨⟨⟨opens, trivial⟩, declared⟩, isDeclaredIn_close _, trivial⟩
  · have same : SameOutside point.surroundings { point.surroundings with isHead := false } :=
      ⟨rfl, rfl, rfl⟩
    rw [← closed] at same
    rw [afterAll_append, afterAll_append]
    exact same
  · have unbound := stands.not_binds_function fits depth reached passive own inline
    simp only [Binds, run_function, Draft.sentences_append] at unbound
    exact .of_unbound (fun sentence member bound => unbound ⟨sentence, member, bound⟩) Iff.rfl
  · have agrees : Agrees point.known { point.surroundings with isHead := false } :=
      ⟨stands.agrees.visible, stands.agrees.introduced⟩
    rw [← closed] at agrees
    rw [Point.next, afterAll_append, afterAll_append]
    exact agrees

end Parts

mutual

/-- The lines of every written node lead on. -/
theorem leadsOver_node (code : Node) (written : code.isWritten) : LeadsOver code := by
  cases code with
  | simple => exact leadsOver_simple written
  | call name arguments result => exact leadsOver_call name arguments result
  | ifThen condition body => exact leadsOver_ifThen (leadsThrough_nodes body written)
  | ifElse condition body alternative =>
    simp only [Node.isWritten, Bool.and_eq_true] at written
    exact leadsOver_ifElse (leadsThrough_nodes body written.1)
      (leadsThrough_nodes alternative written.2)
  | loop before condition body =>
    simp only [Node.isWritten, Bool.and_eq_true] at written
    have through : LeadsThrough body := leadsThrough_nodes body written.2
    have beforeThrough : LeadsThrough before := leadsThrough_nodes before written.1
    cases before with
    | nil => exact leadsOver_while through
    | cons => exact leadsOver_forever beforeThrough through
  | function name parameters body =>
    exact leadsOver_function name parameters (leadsThrough_nodes body written)
  | unstructured instruction => exact leadsOver_unstructured instruction

theorem leadsThrough_nodes (code : List Node) (written : Node.areWritten code) :
    LeadsThrough code := by
  cases code with
  | nil => exact leadsThrough_nil
  | cons first rest =>
    simp only [Node.areWritten, Bool.and_eq_true] at written
    exact leadsThrough_cons (leadsOver_node first written.1) (leadsThrough_nodes rest written.2)

end

end Emit

/-- Names are declared before they are used, and introduced once, in the script
of any list of instructions. -/
theorem areDeclared_ofCode (code : List Instruction) :
    (Script.ofCode code).lines =
        (Draft.ofCode code).map (fun entry => ⟨entry.1, entry.2.text⟩) ∧
      AreDeclaredIn {} (Draft.ofCode code).sentences := by
  have through : Emit.LeadsThrough (Node.recover code) :=
    Emit.leadsThrough_nodes _ (Node.areWritten_recover code)
  have fresh : Emit.IsFresh {} [] := ⟨fun name => Iff.rfl, rfl, rfl⟩
  exact ⟨rfl, (Emit.areDeclaredIn_body through fresh 0 0).1⟩

end BanglaScript
