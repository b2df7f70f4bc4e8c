import BanglaScript.Proofs.Script.Declared
import BanglaScript.Proofs.Script.Outside
import BanglaScript.Proofs.Structure.Told

/-!
# What scripts tell

The lines of written nodes are put together from plain lines, blocks and functions.
So they tell what the nodes tell: every use of a name, every call, function and
return stands in the body where the nodes have it.  Lines introduce only names that
their body uses, and outside of functions they use what the nodes use directly.
-/

namespace BanglaScript

open Eventful StateRun List

/-! ## Names of bodies -/

namespace Emit

open Node

/-- The account of a condition. -/
theorem owns_condition (path : List Nat) (condition : Operand) :
    (Account.of (Event.ofReads [condition])).Owns
      (directNames (NameUse.ofReads path [condition])) := by
  have owns := Account.owns_of [condition] none (forall_mem_nil _)
  simp only [append_nil, Option.toList_none, map_nil, Event.ofWrite] at owns
  rwa [directNames_ofReads]

mutual

/-- The direct uses of a node are those that it tells of the body around it. -/
theorem owns_node (code : Node) (level : Nat) (path : List Nat) (block : Nat) :
    (account code).Owns (directNames ((NameUse.ofNode level path code).run block).1) := by
  cases code with
  | simple instruction =>
    have others : ∀ event ∈ instruction.marks, event.isUse = false := by
      cases instruction <;> simp [Instruction.marks, Event.isUse]
    simp only [NameUse.ofNode, run_pure, directNames_append, directNames_ofReads,
      directNames_ofWrite]
    exact Account.owns_of instruction.reads instruction.target? others
  | call name arguments result =>
    simp only [NameUse.ofNode, run_pure, directNames_append, directNames_ofReads,
      directNames_ofWrite]
    exact Account.owns_of arguments (result.map .temporary) (by simp [Event.isUse])
  | ifThen condition body =>
    simp only [NameUse.ofNode, run_bind, run_pure, directNames_append]
    exact (owns_condition path condition).next (owns_nodes body level _ _)
  | ifElse condition body alternative =>
    simp only [NameUse.ofNode, run_bind, run_pure, directNames_append]
    exact ((owns_condition path condition).next (owns_nodes body level _ _)).next
      (owns_nodes alternative level _ _)
  | loop before condition body =>
    simp only [NameUse.ofNode, run_bind, run_pure, directNames_append]
    exact ((owns_nodes before level _ _).next (owns_condition _ condition)).next
      (owns_nodes body level _ _)
  | function name parameters body =>
    have none : directNames ((NameUse.ofNode level path (.function name parameters body)).run
        block).1 = [] := by
      rw [directNames, map_eq_nil_iff, filter_eq_nil_iff]
      intro use member
      obtain ⟨_, _, rfl⟩ := mem_map.mp member
      exact Bool.false_ne_true
    rw [none]
    exact (isNested_accountAll body).owns_function name
  | unstructured => exact Account.owns_nothing

theorem owns_nodes (code : List Node) (level : Nat) (path : List Nat) (block : Nat) :
    (accountAll code).Owns (directNames ((NameUse.ofNodes level path code).run block).1) := by
  cases code with
  | nil => exact Account.owns_nothing
  | cons first rest =>
    simp only [NameUse.ofNodes, run_bind, run_pure, directNames_append]
    exact (owns_node first level path block).next (owns_nodes rest level path _)

end

end Emit

/-! ## Lines that are put together -/

namespace Sentence

/-- The line stands by itself, and it introduces no name but the one that it writes. -/
def isPlain : Sentence → Bool
  | .store _ _ _ | .perform _ _ | .print _ | .giveBack _ | .leaveUnless _ | .comment _ => true
  | _ => false

/-- The line opens a block. -/
def opensBlock : Sentence → Bool
  | .openIf _ | .openWhile _ | .openForever => true
  | _ => false

/-- A condition is only read. -/
theorem events_openIf (condition : Operand) :
    events (openIf condition) = Event.ofReads [condition] := by
  change Event.ofReads [condition] ++ [] ++ [] = _
  rw [append_nil, append_nil]

end Sentence

/-- Lines that are put together from plain ones, from blocks and from functions, and
what they tell.  The lines of every function satisfy a condition. -/
inductive Composed (inFunction : List Sentence → Prop) : List Sentence → Account → Prop
  | nil : Composed inFunction [] .nothing
  | line {sentence : Sentence} (plain : sentence.isPlain) :
    Composed inFunction [sentence] (.of (events sentence))
  | append {first second : List Sentence} {firstAccount secondAccount : Account}
    (here : Composed inFunction first firstAccount)
    (later : Composed inFunction second secondAccount) :
    Composed inFunction (first ++ second) (firstAccount.next secondAccount)
  | block {opener : Sentence} {list : List Sentence} {account : Account}
    (opens : opener.opensBlock) (inside : Composed inFunction list account) :
    Composed inFunction ([opener] ++ list ++ [.close])
      ((Account.of (events opener)).next account)
  /-- Two blocks of which the second one is opened by closing the first. -/
  | conditional {condition : Operand} {first second : List Sentence}
    {firstAccount secondAccount : Account} (inside : Composed inFunction first firstAccount)
    (otherwise : Composed inFunction second secondAccount) :
    Composed inFunction ([.openIf condition] ++ first ++ [.openElse] ++ second ++ [.close])
      (((Account.of (events (Sentence.openIf condition))).next firstAccount).next secondAccount)
  | function {callee : String} {level parameters : Nat} {list : List Sentence} {account : Account}
    (isBody : inFunction list) (inside : Composed inFunction list account) :
    Composed inFunction
      ([.openFunction callee (Node.slots level parameters)] ++ list ++ [.close])
      (.function callee account)
  /-- The head of a body introduces names that the body uses. -/
  | headed {names : List String} {list : List Sentence} {account : Account}
    (owned : ∀ name ∈ names, ∀ bodies count, (bodies, .use name) ∈ account.events bodies count)
    (below : Composed inFunction list account) :
    Composed inFunction (.introduce names :: list) account

/-- Two blocks tell one after the other what they tell by themselves. -/
theorem tells_conditional {condition : Operand} {first second : List Sentence}
    {firstAccount secondAccount : Account} (firstTells : Tells first firstAccount)
    (secondTells : Tells second secondAccount) :
    Tells ([.openIf condition] ++ first ++ [.openElse] ++ second ++ [.close])
      (((Account.of (events (Sentence.openIf condition))).next firstAccount).next
        secondAccount) := by
  -- Inside of the first block, the line between the blocks changes nothing.
  have between (spot : Spot) : behind Sentence.openElse (spot.inBlock.past firstAccount.functions) =
      spot.inBlock.past firstAccount.functions := rfl
  constructor
  · intro spot
    simp only [spotBehind_append, firstTells.passed, secondTells.passed]
    change Sentence.spotBehind .close
      ((behind Sentence.openElse (spot.inBlock.past firstAccount.functions)).past _) = _
    rw [between, Spot.past_past]
    exact congrArg spot.past (congrArg (· + _) (Nat.zero_add _).symm)
  · intro spot
    simp only [eventsFrom_append, spotBehind_append, firstTells.told, secondTells.told,
      firstTells.passed, eventsFrom_singleton]
    change _ ++ firstAccount.events spot.bodies spot.functions ++ [] ++
      secondAccount.events (behind Sentence.openElse (spot.inBlock.past _)).bodies
        (behind Sentence.openElse (spot.inBlock.past _)).functions ++ [] = _
    rw [between, append_nil, append_nil]
    change _ = Account.events _ _ _ ++ secondAccount.events _ (spot.functions + (0 + _))
    rw [Nat.zero_add]
    rfl

/-- Every name that a line introduces is used in the body of the line.  The other names
that lines bind are slots of parameters. -/
structure IntroducesUsed (sentences : List Sentence) : Prop where
  used : ∀ spot, ∀ entry ∈ placed spot sentences, ∀ name ∈ entry.2.introduced,
    (entry.1.bodies, .use name) ∈ eventsFrom spot sentences
  bound : ∀ sentence ∈ sentences, ∀ name ∈ sentence.bound,
    name ∈ sentence.introduced ∨ ∃ level parameters, name ∈ Node.slots level parameters

namespace IntroducesUsed

variable {first second : List Sentence} {sentence : Sentence}

theorem nil : IntroducesUsed [] :=
  ⟨fun _ _ member => absurd member not_mem_nil, forall_mem_nil _⟩

theorem append (firstUsed : IntroducesUsed first) (secondUsed : IntroducesUsed second) :
    IntroducesUsed (first ++ second) := by
  constructor
  · intro spot entry member name introduced
    rw [placed_append] at member
    rw [eventsFrom_append]
    rcases mem_append.mp member with here | behind
    · exact mem_append_left _ (firstUsed.used spot entry here name introduced)
    · exact mem_append_right _ (secondUsed.used _ entry behind name introduced)
  · intro sentence member
    rcases mem_append.mp member with here | behind
    · exact firstUsed.bound sentence here
    · exact secondUsed.bound sentence behind

/-- A line that uses what it introduces. -/
theorem single (used : ∀ name ∈ sentence.introduced, .use name ∈ events sentence)
    (bound : ∀ name ∈ sentence.bound, name ∈ sentence.introduced ∨
      ∃ level parameters, name ∈ Node.slots level parameters) :
    IntroducesUsed [sentence] := by
  constructor
  · intro spot entry member name introduced
    cases mem_singleton.mp member
    rw [eventsFrom_singleton]
    exact mem_map_of_mem (used name introduced)
  · intro other member
    cases mem_singleton.mp member
    exact bound

/-- A line that binds nothing. -/
theorem silent (none : sentence.introduced = []) (unbound : sentence.bound = []) :
    IntroducesUsed [sentence] :=
  single (fun _ introduced => absurd (none ▸ introduced) not_mem_nil)
    fun _ bound => absurd (unbound ▸ bound) not_mem_nil

/-- A block whose opening line binds nothing. -/
theorem block {opener : Sentence} (inside : IntroducesUsed first) (none : opener.introduced = [])
    (unbound : opener.bound = []) : IntroducesUsed ([opener] ++ first ++ [.close]) :=
  ((silent none unbound).append inside).append (silent rfl rfl)

/-- The head of a function. -/
theorem openFunction (callee : String) (level parameters : Nat) :
    IntroducesUsed [.openFunction callee (Node.slots level parameters)] :=
  single (fun _ introduced => absurd introduced not_mem_nil)
    fun _ bound => .inr ⟨level, parameters, bound⟩

end IntroducesUsed

namespace Composed

variable {inFunction : List Sentence → Prop} {list : List Sentence} {account : Account}

variable (composed : Composed inFunction list account)

include composed

theorem tells : Tells list account := by
  induction composed with
  | nil => exact .nil
  | @line sentence plain =>
    exact .single fun _ => by cases sentence <;> first | rfl | cases plain
  | append _ _ here later => exact here.append later
  | @block opener _ _ opens _ inside =>
    exact inside.block (fun _ => rfl) rfl fun _ => by
      cases opener <;> first | rfl | cases opens
  | conditional _ _ inside otherwise => exact tells_conditional inside otherwise
  | function _ _ inside => exact inside.function (fun _ => rfl) rfl (fun _ => rfl) rfl
  | @headed names _ account _ _ below =>
    have head : Tells [Sentence.introduce names] .nothing := .silent (fun _ => rfl) rfl
    have whole := head.append below
    rwa [Account.nothing_next] at whole

theorem isNested : account.IsNested := by
  induction composed with
  | nil => exact Account.isNested_nothing
  | line => exact Account.isNested_of _
  | append _ _ here later => exact here.next later
  | block _ _ inside => exact (Account.isNested_of _).next inside
  | conditional _ _ inside otherwise => exact ((Account.isNested_of _).next inside).next otherwise
  | function _ _ inside => exact inside.function _
  | headed _ _ below => exact below

/-- Counting blocks goes together with the points. -/
theorem areCounted : AreCounted list := by
  induction composed with
  | nil => exact fun _ => forall_mem_nil _
  | line plain => exact .single (by rintro rfl; cases plain)
  | append _ _ here later => exact here.append later
  | block opens _ inside =>
    exact ((AreCounted.single (by rintro rfl; cases opens)).append inside).append
      (.single (by decide))
  | @conditional condition first second _ _ before _ inside otherwise =>
    have opened : AreCounted ([.openIf condition] ++ first) :=
      (AreCounted.single (by simp)).append inside
    have upToElse : AreCounted ([.openIf condition] ++ first ++ [.openElse]) := by
      intro start
      rw [placed_append, spotBehind_append, before.tells.passed]
      exact forall_mem_append.mpr ⟨opened start, forall_mem_singleton.mpr rfl⟩
    exact (upToElse.append otherwise).append (.single (by decide))
  | function _ _ inside =>
    exact ((AreCounted.single (by simp)).append inside).append (.single (by decide))
  | headed _ _ below => exact (AreCounted.single (by simp)).append below

/-- Lines introduce only names that are used in their bodies. -/
theorem introducesUsed : IntroducesUsed list := by
  induction composed with
  | nil => exact .nil
  | @line sentence plain =>
    cases sentence with
    | store isLet =>
      refine .single (fun name introduced => ?_) fun _ bound => .inl bound
      cases isLet with
      | false => cases introduced
      | true => exact mem_append_right _ (mem_map_of_mem introduced)
    | perform | print | giveBack | leaveUnless | comment => exact .silent rfl rfl
    | _ => cases plain
  | append _ _ here later => exact here.append later
  | @block opener _ _ opens _ inside =>
    exact inside.block (by cases opener <;> first | rfl | cases opens)
      (by cases opener <;> first | rfl | cases opens)
  | conditional _ _ inside otherwise =>
    exact ((inside.append (.silent rfl rfl)).append otherwise).block rfl rfl
  | function _ _ inside =>
    exact ((IntroducesUsed.openFunction _ _ _).append inside).append (.silent rfl rfl)
  | @headed names list account owned below used =>
    constructor
    · intro spot entry member name introduced
      change _ ∈ eventsFrom spot list
      rcases mem_cons.mp member with rfl | later
      · rw [below.tells.told]
        exact owned name introduced _ _
      · exact used.used spot entry later name introduced
    · exact forall_mem_cons.mpr ⟨fun _ bound => .inl bound, used.bound⟩

end Composed

namespace Emit

open Node

/-- The lines of a body below its head, if the outer names are visible around it,
and what is known behind them. -/
def belowHeadOf (code : List Node) (outer : List String) (level depth : Nat) :
    Draft × KnownNames :=
  let plan := Introductions.ofBody code outer level
  (nodes plan level depth code).run (atHead plan outer)

/-- The lines of a body. -/
def bodyLines (code : List Node) (outer : List String) (level depth : Nat) : Draft :=
  headed (Introductions.ofBody code outer level) depth (belowHeadOf code outer level depth).1

variable {inFunction : List Sentence → Prop}

theorem composed_store (plan : Introductions) (depth : Nat) (target : Place) (value : Computation)
    (known : KnownNames) {marks : List Event}
    (marked : ∀ isLet, (Sentence.store isLet target value).marks = marks) :
    Composed inFunction ((store plan depth target value).run known).1.sentences
      (.of (Event.ofReads value.operands ++ marks ++ Event.ofWrite (some target))) := by
  rw [← marked ((isFirst plan target.text).run known).1]
  exact .line rfl

theorem composed_simple {instruction : Instruction} (written : instruction.isWritten)
    (plan : Introductions) (depth : Nat) (known : KnownNames) :
    Composed inFunction ((Emit.instruction plan depth instruction).run known).1.sentences
      (.of (events instruction)) := by
  cases instruction with
  | assign target value => exact composed_store plan depth target (.copy value) known fun _ => rfl
  | binary opcode target lhs rhs =>
    exact composed_store plan depth (.temporary target) (.operation opcode lhs rhs) known
      fun _ => rfl
  | print => exact .line rfl
  | giveBack value =>
    have same : events (Instruction.giveBack value) = events (Sentence.giveBack value) := by
      cases value <;> rfl
    rw [same]
    exact .line rfl
  | _ => cases written

theorem composed_call (name : String) (arguments : List Operand) (result : Option Nat)
    (plan : Introductions) (depth : Nat) (known : KnownNames) :
    Composed inFunction ((Emit.call plan depth name arguments result).run known).1.sentences
      (account (.call name arguments result)) := by
  cases result with
  | some target =>
    exact composed_store plan depth (.temporary target) (.call name arguments) known fun _ => rfl
  | none => exact .line rfl

/-- The plan of a body hoists names that the body uses itself. -/
theorem composed_headed {code : List Node} {outer : List String} {level depth : Nat}
    (below : Composed inFunction (belowHeadOf code outer level depth).1.sentences
      (accountAll code)) :
    Composed inFunction (bodyLines code outer level depth).sentences (accountAll code) := by
  unfold bodyLines headed
  split
  · exact below
  · exact below.headed fun name hoisted bodies count =>
      (owns_nodes code level [] 0 bodies count name).mpr
        (hoisted_subset_directNames code outer level hoisted)

/-- The condition holds of the lines of every body. -/
def HoldsOfBodies (inFunction : List Sentence → Prop) : Prop :=
  ∀ (code : List Node) (outer : List String) (level depth : Nat), areWritten code →
    inFunction (bodyLines code outer level depth).sentences

theorem holdsOfBodies_true : HoldsOfBodies fun _ => True := fun _ _ _ _ _ => trivial

mutual

/-- The lines of every written node are put together, and tell what the node tells. -/
theorem composed_node (holds : HoldsOfBodies inFunction) (code : Node) (written : code.isWritten)
    (plan : Introductions) (level depth : Nat) (known : KnownNames) :
    Composed inFunction ((node plan level depth code).run known).1.sentences (account code) := by
  cases code with
  | simple => exact composed_simple written plan depth known
  | call name arguments result => exact composed_call name arguments result plan depth known
  | ifThen condition body =>
    rw [run_ifThen, Draft.sentences_append, Draft.sentences_append, account,
      ← Sentence.events_openIf]
    exact (composed_nodes holds body written plan level (depth + 1) known).block rfl
  | ifElse condition body alternative =>
    simp only [Node.isWritten, Bool.and_eq_true] at written
    rw [run_ifElse, account, ← Sentence.events_openIf]
    simp only [Draft.sentences_append]
    exact (composed_nodes holds body written.1 plan level (depth + 1) known).conditional
      (composed_nodes holds alternative written.2 plan level (depth + 1) _)
  | loop before condition body =>
    simp only [Node.isWritten, Bool.and_eq_true] at written
    cases before with
    | nil =>
      rw [run_while, Draft.sentences_append, Draft.sentences_append, account,
        ← Sentence.events_openIf, accountAll, Account.nothing_next]
      have whole : Composed inFunction ([.openWhile condition] ++ _ ++ [.close]) _ :=
        (composed_nodes holds body written.2 plan level (depth + 1) known).block rfl
      exact whole
    | cons first rest =>
      have start := composed_nodes holds (first :: rest) written.1 plan level (depth + 1) known
      have test :
          Composed inFunction [.leaveUnless condition] (.of (Event.ofReads [condition])) := by
        rw [← Sentence.events_openIf]
        exact .line rfl
      have inside := (start.append test).append
        (composed_nodes holds body written.2 plan level (depth + 1)
          ((nodes plan level (depth + 1) (first :: rest)).run known).2)
      have whole : Composed inFunction ([Sentence.openForever] ++ _ ++ [Sentence.close]) _ :=
        inside.block rfl
      rw [run_forever]
      simp only [Draft.sentences_append]
      exact Account.nothing_next (account (.loop (first :: rest) condition body)) ▸ whole
  | function name parameters body =>
    rw [run_function, Draft.sentences_append, Draft.sentences_append]
    exact .function (holds body _ (level + 1) (depth + 1) written)
      (composed_headed (composed_nodes holds body written _ (level + 1) (depth + 1) _))
  | unstructured => exact .line rfl

theorem composed_nodes (holds : HoldsOfBodies inFunction) (code : List Node)
    (written : areWritten code) (plan : Introductions) (level depth : Nat) (known : KnownNames) :
    Composed inFunction ((nodes plan level depth code).run known).1.sentences
      (accountAll code) := by
  cases code with
  | nil => exact .nil
  | cons first rest =>
    simp only [Node.areWritten, Bool.and_eq_true] at written
    rw [run_cons, Draft.sentences_append]
    exact (composed_node holds first written.1 plan level depth known).append
      (composed_nodes holds rest written.2 plan level depth _)

end

/-- The lines of a body are put together. -/
theorem composed_bodyLines (holds : HoldsOfBodies inFunction) {code : List Node}
    (written : areWritten code) (outer : List String) (level depth : Nat) :
    Composed inFunction (bodyLines code outer level depth).sentences (accountAll code) :=
  composed_headed (composed_nodes holds code written _ level depth _)

variable {code : List Node} (written : areWritten code)

include written

/-- The lines of a program are put together. -/
theorem composed_ofNodes :
    Composed (fun _ => True) (Draft.ofNodes code).sentences (accountAll code) :=
  composed_bodyLines holdsOfBodies_true written [] 0 0

/-- The program uses a name outside of its functions if its nodes use it directly. -/
theorem isUsedOutside_ofNodes_iff {name : String} :
    IsUsedOutside (Draft.ofNodes code).sentences name ↔
      name ∈ directNames ((NameUse.ofNodes 0 [] code).run 0).1 := by
  have composed := composed_ofNodes written
  rw [composed.areCounted.isUsedOutside_iff, composed.tells.told]
  exact owns_nodes code 0 [] 0 [] 0 name

end Emit

/-- The script of code tells what the code tells. -/
theorem LabelledNode.IsCodeOf.eventsFrom_ofCode {frame : List Node} {code : List Instruction}
    (isCode : IsCodeOf frame code) :
    eventsFrom {} (Draft.ofCode code).sentences = eventsFrom {} code := by
  rw [isCode.tells.told]
  exact (Emit.composed_ofNodes (Node.areWritten_recover code)).tells.told {}

end BanglaScript
