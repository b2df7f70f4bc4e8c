import BanglaScript.Proofs.Script.Declared
import BanglaScript.Proofs.Script.Running

/-!
# Acts of a script in their scopes

Every line of a script is declared where it stands.  For the acts that the lines
form, this says: an act uses names that are visible, or that it introduces
itself, and what it introduces is not visible yet.  What a block introduces is
visible in the rest of the block only.
-/

namespace BanglaScript

open List Surroundings

variable {name : String}

/-! ## Names of acts -/

/-- A line uses visible names, and introduces names that are not visible. -/
structure Sentence.IsScopedIn (visible : List String) (sentence : Sentence) : Prop where
  reads : ∀ name ∈ sentence.reads, name ∈ visible ∨ IsTruth name
  writes : ∀ name ∈ sentence.writes,
    name ∈ visible ∨ name ∈ sentence.introduced ∨ IsTruth name
  new : ∀ name ∈ sentence.introduced, name ∉ visible ∧ ¬ IsTruth name

theorem Sentence.IsScopedIn.seen {sentence : Sentence} {visible : List String}
    (fits : sentence.IsScopedIn visible) {operand : Operand}
    (member : operand ∈ sentence.operands) :
    ∀ name ∈ operand.storage?, name ∈ visible ∨ IsTruth name := fun name named =>
  fits.reads name (mem_filterMap.mpr ⟨operand, member, named⟩)

variable {opener : Sentence} {plan : Introductions}

namespace Act

mutual

/-- An act uses names that are visible where they are used. -/
def IsScopedIn (visible : List String) : Act → Prop
  | line sentence _ => sentence.IsScopedIn visible
  | ifThen condition body =>
    (Sentence.openIf condition).IsScopedIn visible ∧ AreScopedIn visible body
  | ifElse condition body alternative =>
    (Sentence.openIf condition).IsScopedIn visible ∧ AreScopedIn visible body ∧
      AreScopedIn visible alternative
  | loopWhile condition body =>
    (Sentence.openWhile condition).IsScopedIn visible ∧ AreScopedIn visible body
  | forever body => AreScopedIn visible body

/-- Each of the acts sees what the ones before it have introduced. -/
def AreScopedIn (visible : List String) : List Act → Prop
  | [] => True
  | first :: rest => first.IsScopedIn visible ∧ AreScopedIn (first.introduced ++ visible) rest

end

/-- The names that are visible behind acts. -/
def visibleBehind (visible : List String) (acts : List Act) : List String :=
  acts.foldl (fun visible act => act.introduced ++ visible) visible

theorem mem_visibleBehind {acts : List Act} {visible : List String} :
    name ∈ visibleBehind visible acts ↔ name ∈ acts.flatMap introduced ∨ name ∈ visible := by
  induction acts generalizing visible with
  | nil => simp [visibleBehind]
  | cons first rest ih =>
    have behind := @ih (first.introduced ++ visible)
    rw [visibleBehind] at behind
    rw [visibleBehind, foldl_cons, behind, flatMap_cons, mem_append,
      mem_append, or_left_comm, or_assoc]

theorem subset_visibleBehind (visible : List String) (acts : List Act) :
    visible ⊆ visibleBehind visible acts := fun _ member => mem_visibleBehind.mpr (.inr member)

theorem areScopedIn_append {visible : List String} {first second : List Act} :
    AreScopedIn visible (first ++ second) ↔
      AreScopedIn visible first ∧ AreScopedIn (visibleBehind visible first) second := by
  induction first generalizing visible with
  | nil => exact (iff_of_eq (true_and _)).symm
  | cons act rest ih =>
    rw [cons_append, AreScopedIn, AreScopedIn, ih, and_assoc]
    rfl

/-- What acts introduce is not visible before them, and is not a truth value. -/
theorem AreScopedIn.new {acts : List Act} {visible : List String}
    (fits : AreScopedIn visible acts) {name : String} (member : name ∈ acts.flatMap introduced) :
    name ∉ visible ∧ ¬ IsTruth name := by
  induction acts generalizing visible with
  | nil => cases member
  | cons first rest ih =>
    rcases mem_append.mp (flatMap_cons ▸ member) with here | later
    · cases first with
      | line => exact Sentence.IsScopedIn.new fits.1 name here
      | _ => cases here
    · obtain ⟨hidden, untrue⟩ := ih fits.2 later
      exact ⟨fun old => hidden (mem_append_right _ old), untrue⟩

/-! ## Declared lines -/

open Emit (SameOutside)
open Emit.Point (Opens closed_of_sameOutside visible_opened)

/-- The visible names are those of a list. -/
def Sees (surroundings : Surroundings) (visible : List String) : Prop :=
  ∀ name, name ∈ surroundings.visible ↔ name ∈ visible

/-- No line introduces a truth value. -/
def KeepsTruth (sentences : List Sentence) : Prop :=
  ∀ sentence ∈ sentences, ∀ name ∈ sentence.introduced, ¬ IsTruth name

theorem keepsTruth_nil : KeepsTruth [] := forall_mem_nil _

theorem keepsTruth_append {first second : List Sentence} :
    KeepsTruth (first ++ second) ↔ KeepsTruth first ∧ KeepsTruth second :=
  forall_mem_append

section Declared

variable {surroundings : Surroundings} {visible : List String} {sentence : Sentence}
  {body : List Act}

section

variable (sees : Sees surroundings visible)

include sees

theorem Sees.isScopedIn
    (declared : sentence.IsDeclaredIn surroundings) (untrue : KeepsTruth [sentence]) :
    sentence.IsScopedIn visible where
  reads name member := by
    rw [← sees]
    exact declared.reads name member
  writes name member := by
    rw [← sees]
    exact declared.writes name member
  new name member := by
    rw [← sees]
    exact ⟨declared.notVisible name member, untrue sentence mem_cons_self name member⟩

/-- A line that is no end and no start of a block adds what it introduces. -/
theorem Sees.after_single (isSingle : sentence.isSingle) :
    SameOutside surroundings (surroundings.after sentence) ∧
      Sees (surroundings.after sentence) (sentence.introduced ++ visible) := by
  have after : surroundings.after sentence =
      surroundings.within (surroundings.body.introduce sentence.introduced) := by
    cases sentence with
    | openIf | openElse | openWhile | openForever | openFunction | close => cases isSingle
    | _ => rfl
  rw [after]
  refine ⟨⟨rfl, rfl, rfl⟩, fun name => ?_⟩
  have behind : (surroundings.within
      (surroundings.body.introduce sentence.introduced)).visible =
      sentence.introduced ++ surroundings.visible := by
    simp [Surroundings.visible, Surroundings.within, OpenBody.visible, OpenBody.introduce]
  rw [behind, mem_append, mem_append, sees]

theorem Sees.opened : Sees surroundings.opened visible := by
  intro name
  rw [visible_opened]
  exact sees name

theorem Sees.closed {inside : Surroundings} (outside : SameOutside surroundings.opened inside) :
    SameOutside surroundings inside.closed ∧ Sees inside.closed visible := by
  obtain ⟨same, visible, _⟩ := closed_of_sameOutside outside
  refine ⟨same, fun name => ?_⟩
  rw [visible]
  exact sees name

end

/-- The acts fit where they stand, and behind them the same blocks are open and
the given names are visible. -/
structure Places (surroundings : Surroundings) (sentences : List Sentence) (fits : Prop)
    (behind : List String) : Prop where
  fits : fits
  outside : SameOutside surroundings (surroundings.afterAll sentences)
  sees : Sees (surroundings.afterAll sentences) behind

/-- Acts fit wherever their lines are declared. -/
def Fit (acts : List Act) : Prop :=
  ∀ ⦃surroundings : Surroundings⦄ ⦃visible : List String⦄, Sees surroundings visible →
    AreDeclaredIn surroundings (sentencesOf acts) → KeepsTruth (sentencesOf acts) →
    Places surroundings (sentencesOf acts) (AreScopedIn visible acts) (visibleBehind visible acts)

/-- A block fits if its acts do. -/
theorem Sees.block (sees : Sees surroundings visible) (fit : Fit body) (opens : Opens opener)
    (declared : AreDeclaredIn surroundings ([opener] ++ sentencesOf body ++ [.close]))
    (untrue : KeepsTruth ([opener] ++ sentencesOf body ++ [.close])) :
    Places surroundings ([opener] ++ sentencesOf body ++ [.close])
      (opener.IsScopedIn visible ∧ AreScopedIn visible body) visible := by
  have opened : surroundings.afterAll [opener] = surroundings.opened := opens.2 _
  simp only [areDeclaredIn_append, keepsTruth_append, opened] at declared untrue
  obtain ⟨⟨opening, inside⟩, _⟩ := declared
  obtain ⟨⟨openingTruth, insideTruth⟩, _⟩ := untrue
  have places := fit sees.opened inside insideTruth
  obtain ⟨outside, behind⟩ := sees.closed places.outside
  have after : surroundings.afterAll ([opener] ++ sentencesOf body ++ [.close]) =
      (surroundings.opened.afterAll (sentencesOf body)).closed := by
    rw [afterAll_append, afterAll_append, opened]
    rfl
  exact ⟨⟨sees.isScopedIn opening.1 openingTruth, places.fits⟩, after ▸ outside, after ▸ behind⟩

/-- A conditional with an alternative fits if the acts of both parts do. -/
theorem Sees.alternative (sees : Sees surroundings visible) {alternative : List Act}
    (fit : Fit body) (elseFit : Fit alternative) {condition : Operand}
    (declared : AreDeclaredIn surroundings (ifElse condition body alternative).sentences)
    (untrue : KeepsTruth (ifElse condition body alternative).sentences) :
    Places surroundings (ifElse condition body alternative).sentences
      ((ifElse condition body alternative).IsScopedIn visible) visible := by
  simp only [sentences, areDeclaredIn_append, keepsTruth_append, afterAll_append]
    at declared untrue
  obtain ⟨⟨⟨⟨opening, inside⟩, _⟩, otherwise⟩, _⟩ := declared
  obtain ⟨⟨⟨⟨openingTruth, insideTruth⟩, _⟩, otherwiseTruth⟩, _⟩ := untrue
  have places := fit sees.opened inside insideTruth
  obtain ⟨outside, between⟩ := sees.closed places.outside
  have elsePlaces := elseFit between.opened otherwise otherwiseTruth
  obtain ⟨elseOutside, behind⟩ := between.closed elsePlaces.outside
  have after : surroundings.afterAll (ifElse condition body alternative).sentences =
      ((surroundings.opened.afterAll (sentencesOf body)).closed.opened.afterAll
        (sentencesOf alternative)).closed := by
    simp only [sentences, afterAll_append]
    rfl
  exact ⟨⟨sees.isScopedIn opening.1 openingTruth, places.fits, elsePlaces.fits⟩,
    after ▸ outside.trans elseOutside, after ▸ behind⟩

end Declared

mutual

/-- An act fits wherever its lines are declared. -/
theorem places_act (act : Act) {surroundings : Surroundings} {visible : List String}
    (sees : Sees surroundings visible) (declared : AreDeclaredIn surroundings act.sentences)
    (untrue : KeepsTruth act.sentences) :
    Places surroundings act.sentences (act.IsScopedIn visible) (act.introduced ++ visible) := by
  cases act with
  | line sentence isSingle =>
    obtain ⟨outside, behind⟩ := sees.after_single isSingle
    exact ⟨sees.isScopedIn declared.1 untrue, outside, behind⟩
  | ifThen condition body =>
    exact sees.block (fit_acts body) (Emit.opens_openIf condition) declared untrue
  | ifElse condition body alternative =>
    exact sees.alternative (fit_acts body) (fit_acts alternative) declared untrue
  | loopWhile condition body =>
    exact sees.block (fit_acts body) (Emit.opens_openWhile condition) declared untrue
  | forever body =>
    obtain ⟨⟨_, fits⟩, outside, behind⟩ :=
      sees.block (fit_acts body) Emit.opens_openForever declared untrue
    exact ⟨fits, outside, behind⟩

theorem fit_acts (acts : List Act) : Fit acts := by
  intro surroundings visible sees declared untrue
  cases acts with
  | nil => exact ⟨trivial, ⟨rfl, rfl, rfl⟩, sees⟩
  | cons first rest =>
    obtain ⟨here, later⟩ := areDeclaredIn_append.mp declared
    obtain ⟨hereTruth, laterTruth⟩ := keepsTruth_append.mp untrue
    have places := places_act first sees here hereTruth
    have restPlaces := fit_acts rest places.sees later laterTruth
    have after : surroundings.afterAll (sentencesOf (first :: rest)) =
        (surroundings.afterAll first.sentences).afterAll (sentencesOf rest) :=
      afterAll_append _ _ _
    exact ⟨⟨places.fits, restPlaces.fits⟩, after ▸ places.outside.trans restPlaces.outside,
      after ▸ restPlaces.sees⟩

end

end Act

/-! ## Acts of nodes -/

namespace Node

open Act (sentencesOf)

mutual

/-- The act is written for the node, and a `let` introduces one of the names. -/
def IsWrittenAs (names : List String) : Node → Act → Prop
  | .simple (.assign target value), act =>
    ∃ isLet : Bool, (isLet → target.text ∈ names) ∧
      act = .line (.store isLet target (.copy value)) rfl
  | .simple (.binary opcode target lhs rhs), act =>
    ∃ isLet : Bool, (isLet → (Place.temporary target).text ∈ names) ∧
      act = .line (.store isLet (.temporary target) (.operation opcode lhs rhs)) rfl
  | .simple (.print value), act => act = .line (.print value) rfl
  | .simple (.giveBack value), act => act = .line (.giveBack value) rfl
  | .ifThen condition body, act =>
    ∃ inner, AreWrittenAs names body inner ∧ act = .ifThen condition inner
  | .ifElse condition body alternative, act =>
    ∃ inner other, AreWrittenAs names body inner ∧ AreWrittenAs names alternative other ∧
      act = .ifElse condition inner other
  | .loop before condition body, act =>
    ∃ first inner, AreWrittenAs names before first ∧ AreWrittenAs names body inner ∧
      act = if before.isEmpty then .loopWhile condition inner
        else .forever (first ++ .line (.leaveUnless condition) rfl :: inner)
  | _, _ => False

/-- The acts are written for the nodes, one for each. -/
def AreWrittenAs (names : List String) : List Node → List Act → Prop
  | [], acts => acts = []
  | first :: rest, acts =>
    ∃ act behind, IsWrittenAs names first act ∧ AreWrittenAs names rest behind ∧
      acts = act :: behind

end

mutual

theorem isWritten_of_isPlain (node : Node) (plain : node.isPlain) : node.isWritten := by
  cases node with
  | simple => exact plain
  | ifThen condition body => exact areWritten_of_arePlain body plain
  | ifElse condition body alternative =>
    simp only [isPlain, isWritten, Bool.and_eq_true] at plain ⊢
    exact plain.imp (areWritten_of_arePlain body) (areWritten_of_arePlain alternative)
  | loop before condition body =>
    simp only [isPlain, isWritten, Bool.and_eq_true] at plain ⊢
    exact plain.imp (areWritten_of_arePlain before) (areWritten_of_arePlain body)
  | call | function | unstructured => cases plain

theorem areWritten_of_arePlain (nodes : List Node) (plain : arePlain nodes) :
    areWritten nodes := by
  cases nodes with
  | nil => rfl
  | cons first rest =>
    simp only [arePlain, areWritten, Bool.and_eq_true] at plain ⊢
    exact plain.imp (isWritten_of_isPlain first) (areWritten_of_arePlain rest)

end

open Act (KeepsTruth keepsTruth_append)

theorem keepsTruth_singleton {sentence : Sentence} (none : sentence.introduced = []) :
    KeepsTruth [sentence] :=
  forall_mem_singleton.mpr fun name member => by
    rw [none] at member
    cases member

theorem keepsTruth_block {body : List Act} (none : opener.introduced = [])
    (inside : KeepsTruth (sentencesOf body)) :
    KeepsTruth ([opener] ++ sentencesOf body ++ [.close]) := by
  rw [keepsTruth_append, keepsTruth_append]
  exact ⟨⟨keepsTruth_singleton none, inside⟩, keepsTruth_singleton rfl⟩

theorem keepsTruth_store {names : List String} (untrue : ∀ name ∈ names, ¬ IsTruth name)
    {isLet : Bool} {target : Place} {value : Computation} (new : isLet → target.text ∈ names) :
    KeepsTruth [.store isLet target value] := by
  cases isLet with
  | false => exact keepsTruth_singleton rfl
  | true => exact forall_mem_singleton.mpr (forall_mem_singleton.mpr (untrue _ (new rfl)))

end Node

/-- A plan introduces no truth value. -/
theorem Introductions.not_isTruth {body : List Node} {outer : List String} {level : Nat}
    (member : name ∈ (ofBody body outer level).hoisted ∨ name ∈ (ofBody body outer level).inline) :
    ¬ IsTruth name := by
  have used := member.elim (fun hoisted => (mem_ofUses.1.mp hoisted).1)
    (fun inline => (mem_ofUses.2.mp inline).1)
  obtain ⟨_, kept, rfl, -⟩ := used
  have new := (mem_filter.mp kept).2
  simp only [decide_eq_true_eq, not_or] at new
  exact not_or.mpr new.2

namespace Emit

open Act (sentencesOf KeepsTruth keepsTruth_append)
open Node (keepsTruth_singleton keepsTruth_block keepsTruth_store)

/-- A name that a line introduces is introduced inline by the plan. -/
theorem mem_inline_of_isFirst {known : KnownNames} (first : ((isFirst plan name).run known).1) :
    name ∈ plan.inline := by
  rw [run_isFirst] at first
  split at first
  case isTrue inline => exact inline.1
  case isFalse => cases first

mutual

/-- The lines of a plain node form an act that is written for it.  What it introduces is
among the names of the plan, so it is no truth value. -/
theorem exists_act_node (untrue : ∀ name ∈ plan.inline, ¬ IsTruth name) (code : Node)
    (plain : code.isPlain) (level depth : Nat) (known : KnownNames) :
    ∃ act, code.IsWrittenAs plan.inline act ∧
      ((node plan level depth code).run known).1.sentences = act.sentences ∧
      KeepsTruth act.sentences := by
  cases code with
  | simple instruction =>
    cases instruction with
    | assign | binary =>
      exact ⟨_, ⟨_, mem_inline_of_isFirst, rfl⟩, rfl,
        keepsTruth_store untrue mem_inline_of_isFirst⟩
    | print | giveBack => exact ⟨_, rfl, rfl, keepsTruth_singleton rfl⟩
    | _ => cases plain
  | ifThen condition body =>
    obtain ⟨inner, written, same, truth⟩ :=
      exists_acts_nodes untrue body plain level (depth + 1) known
    refine ⟨_, ⟨inner, written, rfl⟩, ?_, keepsTruth_block rfl truth⟩
    simp only [run_ifThen, Draft.sentences_append, same]
    rfl
  | ifElse condition body alternative =>
    simp only [Node.isPlain, Bool.and_eq_true] at plain
    obtain ⟨inner, written, same, truth⟩ :=
      exists_acts_nodes untrue body plain.1 level (depth + 1) known
    obtain ⟨other, otherWritten, otherSame, otherTruth⟩ :=
      exists_acts_nodes untrue alternative plain.2 level (depth + 1)
        ⟨known.visible, ((nodes plan level (depth + 1) body).run known).2.introduced⟩
    refine ⟨_, ⟨inner, other, written, otherWritten, rfl⟩, ?_, ?_⟩
    · simp only [run_ifElse, Draft.sentences_append, same, otherSame]
      rfl
    · simp only [Act.sentences, keepsTruth_append]
      exact ⟨⟨⟨⟨keepsTruth_singleton rfl, truth⟩, keepsTruth_singleton rfl⟩, otherTruth⟩,
        keepsTruth_singleton rfl⟩
  | loop before condition body =>
    simp only [Node.isPlain, Bool.and_eq_true] at plain
    have beforeWritten := exists_acts_nodes untrue before plain.1 level (depth + 1) known
    cases before with
    | nil =>
      obtain ⟨inner, written, same, truth⟩ :=
        exists_acts_nodes untrue body plain.2 level (depth + 1) known
      refine ⟨_, ⟨[], inner, rfl, written, rfl⟩, ?_, keepsTruth_block rfl truth⟩
      simp only [run_while, Draft.sentences_append, same]
      rfl
    | cons first rest =>
      obtain ⟨acts, actsWritten, actsSame, actsTruth⟩ := beforeWritten
      obtain ⟨inner, written, same, truth⟩ :=
        exists_acts_nodes untrue body plain.2 level (depth + 1)
          ((nodes plan level (depth + 1) (first :: rest)).run known).2
      refine ⟨_, ⟨acts, inner, actsWritten, written, rfl⟩, ?_, keepsTruth_block rfl ?_⟩
      · simp only [run_forever, Draft.sentences_append, actsSame, same, isEmpty_cons,
          Bool.false_eq_true, if_false, Act.sentences, Act.sentencesOf_append, Act.sentencesOf,
          append_assoc]
        rfl
      · rw [Act.sentencesOf_append, keepsTruth_append]
        exact ⟨actsTruth, keepsTruth_append.mpr ⟨keepsTruth_singleton rfl, truth⟩⟩
  | call | function | unstructured => cases plain

theorem exists_acts_nodes (untrue : ∀ name ∈ plan.inline, ¬ IsTruth name) (code : List Node)
    (plain : Node.arePlain code) (level depth : Nat) (known : KnownNames) :
    ∃ acts, Node.AreWrittenAs plan.inline code acts ∧
      ((nodes plan level depth code).run known).1.sentences = sentencesOf acts ∧
      KeepsTruth (sentencesOf acts) := by
  cases code with
  | nil => exact ⟨[], rfl, rfl, Act.keepsTruth_nil⟩
  | cons first rest =>
    simp only [Node.arePlain, Bool.and_eq_true] at plain
    obtain ⟨act, written, same, truth⟩ := exists_act_node untrue first plain.1 level depth known
    obtain ⟨behind, restWritten, restSame, restTruth⟩ :=
      exists_acts_nodes untrue rest plain.2 level depth ((node plan level depth first).run known).2
    refine ⟨act :: behind, ⟨act, behind, written, restWritten, rfl⟩, ?_,
      keepsTruth_append.mpr ⟨truth, restTruth⟩⟩
    simp only [run_cons, Draft.sentences_append, same, restSame]
    rfl

end

end Emit

/-! ## Acts of a script -/

/-- The act that introduces the hoisted names of a plan, if there are any. -/
def Introductions.headActs (plan : Introductions) : List Act :=
  if plan.hoisted.isEmpty then [] else [.line (.introduce plan.hoisted) rfl]

namespace Introductions

theorem sentencesOf_headActs (plan : Introductions) (depth : Nat) (body : Draft) :
    (Emit.headed plan depth body).sentences =
      Act.sentencesOf plan.headActs ++ body.sentences := by
  unfold Emit.headed headActs
  split <;> rfl

theorem introduced_headActs (plan : Introductions) :
    plan.headActs.flatMap Act.introduced = plan.hoisted := by
  unfold headActs
  split
  case isTrue empty => exact (List.isEmpty_iff.mp empty).symm
  case isFalse => exact append_nil _

theorem keepsTruth_headActs (untrue : ∀ name ∈ plan.hoisted, ¬ IsTruth name) :
    Act.KeepsTruth (Act.sentencesOf plan.headActs) := by
  unfold headActs
  split
  case isTrue => exact Act.keepsTruth_nil
  case isFalse => exact forall_mem_singleton.mpr untrue

end Introductions

/-- The script of plain nodes consists of acts that are written for the nodes and
fit where they stand. -/
theorem Draft.exists_acts_ofNodes {nodes : List Node} (plain : Node.arePlain nodes) :
    let plan := Introductions.ofBody nodes [] 0
    ∃ acts, Node.AreWrittenAs plan.inline nodes acts ∧
      (Draft.ofNodes nodes).sentences = Act.sentencesOf (plan.headActs ++ acts) ∧
      Act.AreScopedIn [] (plan.headActs ++ acts) := by
  intro plan
  obtain ⟨acts, written, same, truth⟩ := Emit.exists_acts_nodes
    (fun _ member => Introductions.not_isTruth (.inr member)) nodes plain 0 0 (Emit.atHead plan [])
  have sentences : (Draft.ofNodes nodes).sentences = Act.sentencesOf (plan.headActs ++ acts) := by
    rw [Act.sentencesOf_append, ← same]
    exact plan.sentencesOf_headActs 0 _
  have declared : AreDeclaredIn {} (Draft.ofNodes nodes).sentences := by
    have through : Emit.LeadsThrough nodes :=
      Emit.leadsThrough_nodes nodes (Node.areWritten_of_arePlain nodes plain)
    have fresh : Emit.IsFresh {} [] := ⟨fun _ => Iff.rfl, rfl, rfl⟩
    exact (Emit.areDeclaredIn_body through fresh 0 0).1
  have untrue : Act.KeepsTruth (Act.sentencesOf (plan.headActs ++ acts)) := by
    rw [Act.sentencesOf_append, Act.keepsTruth_append]
    exact ⟨Introductions.keepsTruth_headActs fun _ member =>
      Introductions.not_isTruth (.inl member), truth⟩
  have sees : Act.Sees {} [] := fun _ => Iff.rfl
  exact ⟨acts, written, sentences, (Act.fit_acts _ sees (sentences ▸ declared) untrue).fits⟩

end BanglaScript
