import BanglaScript.Proofs.Script.SideBySide

/-!
# Block scopes behave like one store

The script of plain nodes is run with a scope for every block, the nodes with one
store.  Act by act both do the same, so they end in the same way and print the
same.
-/

namespace BanglaScript

open List

/-! ## Running acts and nodes -/

namespace Act

open ScopeStack (Shows)
open Effect (Alike)

variable {Value : Type} {meaning : Meaning Value}

theorem run_line (rounds : Nat) (sentence : Sentence) (isSingle : sentence.isSingle)
    (scopes : ScopeStack Value) :
    run meaning rounds (.line sentence isSingle) scopes = sentence.run meaning scopes := rfl

theorem runAll_cons (rounds : Nat) (first : Act) (rest : List Act) (scopes : ScopeStack Value) :
    runAll meaning rounds (first :: rest) scopes =
      (run meaning rounds first scopes).andThen (runAll meaning rounds rest) := rfl

theorem runAll_append (rounds : Nat) (first second : List Act) (scopes : ScopeStack Value) :
    runAll meaning rounds (first ++ second) scopes =
      (runAll meaning rounds first scopes).andThen (runAll meaning rounds second) := by
  induction first generalizing scopes with
  | nil => rfl
  | cons act rest ih =>
    rw [cons_append, runAll_cons, runAll_cons, Effect.andThen_assoc]
    exact congrArg _ (funext ih)

theorem choose_andThen (scopes : ScopeStack Value) (condition : Operand)
    (whenTrue whenFalse : Effect (ScopeStack Value) Value)
    (next : ScopeStack Value → Effect (ScopeStack Value) Value) :
    (scopes.choose meaning condition whenTrue whenFalse).andThen next =
      scopes.choose meaning condition (whenTrue.andThen next) (whenFalse.andThen next) := by
  unfold ScopeStack.choose
  split
  · split <;> rfl
  · rfl

section Blocks

variable {visible : List String} {inner : ScopeOutline} {outer : List ScopeOutline}
  {scopes : ScopeStack Value} {store : NamedStore Value} {rounds : Nat}

/-- Acts do what nodes do, wherever the acts fit and their names have no values
yet. -/
def Follow (meaning : Meaning Value) (rounds : Nat) (acts : List Act) (nodes : List Node) : Prop :=
  ∀ ⦃visible : List String⦄ ⦃inner : ScopeOutline⦄ ⦃outer : List ScopeOutline⦄
    ⦃scopes : ScopeStack Value⦄ ⦃store : NamedStore Value⦄, AreScopedIn visible acts →
    (∀ name ∈ acts.flatMap introduced, inner name = some false) →
    Shows visible (inner :: outer) scopes store → ∀ left,
    Alike (Shows (visibleBehind visible acts) (inner.giving (acts.flatMap introduced) :: outer))
      left (runAll meaning rounds acts scopes) (Node.runAllNamed meaning rounds nodes store)

/-- Acts in a block of their own do what nodes do. -/
theorem Follow.inBlock {acts : List Act} {nodes : List Node}
    (follow : Follow meaning rounds acts nodes) (fits : AreScopedIn visible acts)
    (shows : Shows visible outer scopes store)
    (left : ScopeStack Value → NamedStore Value → Prop) :
    Alike (Shows visible outer) left
      (inBlock (acts.flatMap introduced) (runAll meaning rounds acts) scopes)
      (Node.runAllNamed meaning rounds nodes store) :=
  shows.alike_inBlock (fun _ member => fits.new member) (subset_visibleBehind visible acts)
    (List.Subset.refl _) fun _ entered =>
      follow fits (fun _ member => if_pos member) entered _

/-- The rounds of a loop that computes its condition in the block. -/
theorem Follow.round {first inside : List Act} {before body : List Node} {condition : Operand}
    (follow : Follow meaning rounds first before) (bodyFollow : Follow meaning rounds inside body)
    (fits : AreScopedIn visible (first ++ .line (.leaveUnless condition) rfl :: inside))
    (shows : Shows visible outer scopes store) :
    let acts := first ++ .line (.leaveUnless condition) rfl :: inside
    Alike (Shows visible outer) (Shows visible outer)
      (Act.inBlock (acts.flatMap introduced) (runAll meaning rounds acts) scopes)
      ((Node.runAllNamed meaning rounds before store).andThen fun store =>
        if meaning.isTrue (meaning.ofStored store condition) then
          Node.runAllNamed meaning rounds body store
        else .stop .left store) := by
  intro acts
  obtain ⟨firstFits, test, insideFits⟩ := areScopedIn_append.mp fits
  have names : acts.flatMap introduced = first.flatMap introduced ++ inside.flatMap introduced :=
    flatMap_append
  have hidden : ∀ name ∈ acts.flatMap introduced, name ∉ visible ∧ ¬ IsTruth name :=
    fun _ member => fits.new member
  rw [names] at hidden ⊢
  refine shows.alike_inBlock hidden
    (List.Subset.trans (subset_visibleBehind _ first) (subset_visibleBehind _ inside))
    (List.Subset.refl _) fun scopes entered => ?_
  rw [runAll_append, ScopeOutline.giving_append]
  have firstPending : ∀ name ∈ first.flatMap introduced,
      ScopeOutline.pending (first.flatMap introduced ++ inside.flatMap introduced) name =
        some false :=
    fun name member => if_pos (mem_append_left _ member)
  refine (follow firstFits firstPending entered _).andThen fun middle store shown => ?_
  rw [runAll_cons, run_line, Sentence.run, choose_andThen]
  refine shown.alike_choose (Sentence.IsScopedIn.seen test mem_cons_self) ?_ ?_
  · have insidePending : ∀ name ∈ inside.flatMap introduced,
        (ScopeOutline.pending (first.flatMap introduced ++ inside.flatMap introduced)).giving
          (first.flatMap introduced) name = some false := by
      intro name member
      have later : name ∉ first.flatMap introduced := fun earlier =>
        (AreScopedIn.new insideFits member).1 (mem_visibleBehind.mpr (.inl earlier))
      rw [ScopeOutline.giving, if_neg later]
      exact if_pos (mem_append_right _ member)
    exact bodyFollow insideFits insidePending shown _
  · exact .stop _ _ (by decide) fun _ => shown.leave hidden (subset_visibleBehind _ first)
      (subset_append_left _ _)

end Blocks

mutual

/-- An act does what its node does. -/
theorem alike_act {names : List String} {rounds : Nat} (node : Node) {act : Act}
    (written : node.IsWrittenAs names act) {visible : List String} {inner : ScopeOutline}
    {outer : List ScopeOutline} {scopes : ScopeStack Value} {store : NamedStore Value}
    (fits : act.IsScopedIn visible) (pending : ∀ name ∈ act.introduced, inner name = some false)
    (shows : Shows visible (inner :: outer) scopes store)
    (left : ScopeStack Value → NamedStore Value → Prop) :
    Alike (Shows (act.introduced ++ visible) (inner.giving act.introduced :: outer)) left
      (act.run meaning rounds scopes) (node.runNamed meaning rounds store) := by
  have same : inner.giving [] :: outer = inner :: outer := by rw [ScopeOutline.giving_nil]
  cases node with
  | simple instruction =>
    cases instruction with
    | assign =>
      obtain ⟨isLet, -, rfl⟩ := written
      exact shows.alike_store fits pending
        (shows.ofStored? meaning (Sentence.IsScopedIn.seen fits mem_cons_self))
    | binary opcode target lhs =>
      obtain ⟨_, -, rfl⟩ := written
      refine shows.alike_store fits pending ?_
      have lhsValue := shows.ofStored? meaning
        (Sentence.IsScopedIn.seen fits mem_cons_self)
      have rhsValue := shows.ofStored? meaning (Sentence.IsScopedIn.seen fits
        (mem_cons_of_mem lhs mem_cons_self))
      simp only [Meaning.ofWritten?, lhsValue, rhsValue, Option.bind_eq_bind,
        Option.bind_some, Option.pure_def]
    | print =>
      cases written
      have shown := shows.ofStored? meaning (Sentence.IsScopedIn.seen fits mem_cons_self)
      change Alike (Shows visible (inner.giving [] :: outer)) _ _ _
      rw [same, run_line, Sentence.run, shown]
      exact ⟨rfl, rfl, fun _ => shows, nofun⟩
    | giveBack value =>
      cases written
      cases value with
      | none => exact .stop scopes store nofun nofun
      | some =>
        have given := shows.ofStored? meaning
          (Sentence.IsScopedIn.seen fits mem_cons_self)
        rw [run_line, Sentence.run, given]
        exact .stop scopes store nofun nofun
    | _ => cases written
  | ifThen condition body =>
    obtain ⟨inside, bodyWritten, rfl⟩ := written
    change Alike (Shows visible (inner.giving [] :: outer)) _ _ _
    rw [same]
    exact shows.alike_choose (Sentence.IsScopedIn.seen fits.1 mem_cons_self)
      ((follow_acts body bodyWritten).inBlock fits.2 shows left) (.goOn shows)
  | ifElse condition body alternative =>
    obtain ⟨inside, _, bodyWritten, elseWritten, rfl⟩ := written
    change Alike (Shows visible (inner.giving [] :: outer)) _ _ _
    rw [same]
    exact shows.alike_choose (Sentence.IsScopedIn.seen fits.1 mem_cons_self)
      ((follow_acts body bodyWritten).inBlock fits.2.1 shows left)
      ((follow_acts alternative elseWritten).inBlock fits.2.2 shows left)
  | loop before condition body =>
    obtain ⟨_, _, beforeWritten, bodyWritten, rfl⟩ := written
    cases before with
    | nil =>
      change Alike (Shows visible (inner.giving [] :: outer)) _ _ _
      rw [same]
      refine .loop (fun scopes store shows => ?_) rounds shows
      exact shows.alike_choose (Sentence.IsScopedIn.seen fits.1 mem_cons_self)
        ((follow_acts body bodyWritten).inBlock fits.2 shows _)
        (.stop scopes store nofun fun _ => shows)
    | cons head rest =>
      change Alike (Shows visible (inner.giving [] :: outer)) _ _ _
      rw [same]
      refine .loop (fun scopes store shows => ?_) rounds shows
      exact (follow_acts (head :: rest) beforeWritten).round (follow_acts body bodyWritten)
        fits shows
  | call | function | unstructured => cases written

theorem follow_acts {names : List String} {rounds : Nat} (nodes : List Node) {acts : List Act}
    (written : Node.AreWrittenAs names nodes acts) : Follow meaning rounds acts nodes := by
  intro visible inner outer scopes store fits pending shows left
  cases nodes with
  | nil =>
    cases written
    rw [flatMap_nil, ScopeOutline.giving_nil]
    exact .goOn shows
  | cons node rest =>
    obtain ⟨act, _, nodeWritten, restWritten, rfl⟩ := written
    rw [flatMap_cons, ScopeOutline.giving_append]
    have actPending : ∀ name ∈ act.introduced, inner name = some false := fun name member =>
      pending name (mem_append_left _ member)
    refine (alike_act node nodeWritten fits.1 actPending shows left).andThen
      fun scopes store shown => follow_acts rest restWritten fits.2 ?_ shown left
    intro name member
    have later : name ∉ act.introduced := fun earlier =>
      (AreScopedIn.new fits.2 member).1 (mem_append_left _ earlier)
    rw [ScopeOutline.giving, if_neg later]
    exact pending name (mem_append_right _ member)

end

end Act

/-! ## Scripts of plain nodes -/

section Scripts

open ScopeStack (Shows)
open Effect (Alike)

variable {Value : Type} {meaning : Meaning Value}

/-- Outside of the script only the truth values are known. -/
theorem ScopeStack.shows_builtIn (meaning : Meaning Value) :
    Shows [] [outlineOf (builtIn meaning)] [builtIn meaning] (NamedStore.start meaning) := by
  refine ⟨rfl, fun name seen => ?_⟩
  rcases seen.resolve_left not_mem_nil with rfl | rfl <;> rfl

/-- The head of a script gives the hoisted names their first values. -/
theorem Introductions.alike_headActs (plan : Introductions) (rounds : Nat) {inner : ScopeOutline}
    {outer : List ScopeOutline} {scopes : ScopeStack Value} {store : NamedStore Value}
    (shows : Shows [] (inner :: outer) scopes store) (nodup : plan.hoisted.Nodup)
    (pending : ∀ name ∈ plan.hoisted, inner name = some false)
    (unwritten : ∀ name ∈ plan.hoisted, store name = meaning.undefined)
    (left : ScopeStack Value → NamedStore Value → Prop) :
    Alike (Shows (Act.visibleBehind [] plan.headActs) (inner.giving plan.hoisted :: outer)) left
      (Act.runAll meaning rounds plan.headActs scopes) (.goOn store) := by
  unfold headActs
  split
  case isTrue empty =>
    rw [List.isEmpty_iff.mp empty, ScopeOutline.giving_nil]
    exact .goOn shows
  case isFalse =>
    rw [Act.runAll_cons, Act.run_line]
    exact (shows.alike_introduce pending nodup unwritten).andThen
      fun _ _ shown => Alike.goOn shown

/-- Plain nodes make a script that does, with block scopes, what the nodes do with
one store.  How often loops may be repeated does not matter for runs that end, and
other runs print more and more. -/
theorem run?_ofNodes {nodes : List Node} (plain : Node.arePlain nodes) (meaning : Meaning Value)
    (rounds : Nat) :
    (Draft.ofNodes nodes).run? meaning rounds = some (Node.run meaning rounds nodes) ∧
      ∀ more, rounds ≤ more →
        (Node.run meaning rounds nodes).2 <+: (Node.run meaning more nodes).2 ∧
        ((Node.run meaning rounds nodes).1 ≠ .exhausted →
          Node.run meaning more nodes = Node.run meaning rounds nodes) := by
  refine ⟨?_, fun more le => Node.run_of_le le nodes⟩
  let plan := Introductions.ofBody nodes [] 0
  obtain ⟨acts, written, sentences, fits⟩ := Draft.exists_acts_ofNodes plain
  have names : (plan.headActs ++ acts).flatMap Act.introduced =
      plan.hoisted ++ acts.flatMap Act.introduced := by
    rw [flatMap_append, plan.introduced_headActs]
  have start := (ScopeStack.shows_builtIn meaning).enter fun _ member => fits.new member
  have unwritten : ∀ name ∈ plan.hoisted, NamedStore.start meaning name = meaning.undefined := by
    intro name member
    obtain ⟨notTrue, notFalse⟩ := not_or.mp (Introductions.not_isTruth (.inl member))
    rw [NamedStore.start, if_neg notTrue, if_neg notFalse]
  have pending : ∀ name ∈ plan.hoisted,
      ScopeOutline.pending ((plan.headActs ++ acts).flatMap Act.introduced) name = some false :=
    fun name member => if_pos (names ▸ mem_append_left _ member)
  have fitsBehind := (Act.areScopedIn_append.mp fits).2
  have pendingBehind : ∀ name ∈ acts.flatMap Act.introduced,
      (ScopeOutline.pending ((plan.headActs ++ acts).flatMap Act.introduced)).giving
        plan.hoisted name = some false := by
    intro name member
    have notHoisted : name ∉ plan.hoisted := fun hoisted =>
      (fitsBehind.new member).1
        (Act.mem_visibleBehind.mpr (.inl (plan.introduced_headActs.symm ▸ hoisted)))
    rw [ScopeOutline.giving, if_neg notHoisted]
    exact if_pos (names ▸ mem_append_right _ member)
  have nodup := (Introductions.fits_ofBody nodes [] 0).hoisted_nodup
  have follow : Act.Follow meaning rounds acts nodes := Act.follow_acts nodes written
  have alike := (plan.alike_headActs rounds start nodup pending unwritten fun _ _ => True).andThen
    fun _ _ shown => follow fitsBehind pendingBehind shown fun _ _ => True
  rw [← Act.runAll_append] at alike
  rw [Draft.run?, sentences, Act.read?_sentencesOf]
  exact congrArg some (Prod.ext alike.ending alike.output)

/-- A loop that computes its condition in the block, with a name for each round
and one that is written inside and printed behind. -/
theorem run?_ofNodes_counting :
    let meaning : Meaning Nat :=
      { number := fun number => number.bits.toNat, string := String.length, boolean := Bool.toNat
        undefined := 7, isTrue := (0 < ·), shiftLeft := (· <<< ·), shiftRight := (· >>> ·)
        apply := fun operator lhs rhs =>
          if operator = .less then (decide (lhs < rhs)).toNat else lhs + rhs }
    let nodes : List Node :=
      [.simple (.assign (.variable "i") (.number ⟨0⟩)),
        .loop [.simple (.binary .lt 0 (.variable "i") (.number ⟨2⟩))] (.temporary 0)
          [.simple (.binary .add 1 (.variable "i") (.number ⟨1⟩)),
            .ifThen (.variable "true") [.simple (.assign (.variable "last") (.temporary 1))],
            .simple (.assign (.variable "i") (.temporary 1)), .simple (.print (.variable "i"))],
        .simple (.print (.variable "last")), .simple (.print (.variable "never")),
        .ifElse (.variable "false") [.simple (.print (.variable "i"))] [.simple (.giveBack none)]]
    Node.arePlain nodes ∧
      (Draft.ofNodes nodes).run? meaning 3 = some (.returned, [1, 2, 2, 7]) ∧
      (Draft.ofNodes nodes).run? meaning 1 = some (.exhausted, [1]) :=
  ⟨rfl, (run?_ofNodes rfl _ 3).1.trans (by decide), (run?_ofNodes rfl _ 1).1.trans (by decide)⟩

end Scripts

end BanglaScript
