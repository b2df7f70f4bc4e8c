import BanglaScript.Proofs.Code.Account
import BanglaScript.Proofs.Script.Bindings
import BanglaScript.Proofs.Script.Used
import BanglaScript.Proofs.StateRun

/-!
# Names that lines bind

A function introduces a name only if the name is not visible where the function
stands, and if the function or a function in it mentions the name.  Apart from its
functions, a body binds a name as often as it introduces it.
-/

namespace BanglaScript

open Eventful List

namespace Sentence

/-- What a line does besides reading and writing. -/
def marks : Sentence → List Event
  | .store _ _ (.call name _) | .perform name _ => [.call name]
  | .openFunction name _ => [.function name]
  | .giveBack _ => [.giveBack]
  | _ => []

/-- The point behind a line. -/
def spotBehind : Sentence → Spot → Spot
  | .openIf _, spot | .openWhile _, spot | .openForever, spot => spot.inBlock
  | .openElse, spot => spot.left.inBlock
  | .close, spot => spot.left
  | .openFunction _ _, spot => spot.inFunction
  | _, spot => spot

end Sentence

instance : Eventful Sentence where
  behind := Sentence.spotBehind
  events sentence :=
    sentence.reads.map .use ++ sentence.marks ++ sentence.writes.map .use

variable {opener : Sentence}

namespace Emit

theorem run_isFirst (plan : Introductions) (name : String) (known : KnownNames) :
    (isFirst plan name).run known =
      if name ∈ plan.inline ∧ name ∉ known.introduced then
        (true, ⟨name :: known.visible, name :: known.introduced⟩)
      else (false, known) := by
  rw [isFirst, StateRun.run_bind, StateRun.run_get]
  split <;> rfl

section Runs

variable (plan : Introductions) (level depth : Nat) (condition : Operand)
  (body alternative : List Node) (known : KnownNames)

theorem run_ifThen :
    (node plan level depth (.ifThen condition body)).run known =
      let inside := (nodes plan level (depth + 1) body).run known
      (Draft.line depth (.openIf condition) ++ inside.1 ++ Draft.line depth .close,
        ⟨known.visible, inside.2.introduced⟩) :=
  rfl

theorem run_ifElse :
    (node plan level depth (.ifElse condition body alternative)).run known =
      let inside := (nodes plan level (depth + 1) body).run known
      let otherwise := (nodes plan level (depth + 1) alternative).run
        ⟨known.visible, inside.2.introduced⟩
      (Draft.line depth (.openIf condition) ++ inside.1 ++ Draft.line depth .openElse ++
        otherwise.1 ++ Draft.line depth .close, ⟨known.visible, otherwise.2.introduced⟩) :=
  rfl

theorem run_while :
    (node plan level depth (.loop [] condition body)).run known =
      let inside := (nodes plan level (depth + 1) body).run known
      (Draft.line depth (.openWhile condition) ++ inside.1 ++ Draft.line depth .close,
        ⟨known.visible, inside.2.introduced⟩) :=
  rfl

theorem run_forever (first : Node) (rest : List Node) :
    (node plan level depth (.loop (first :: rest) condition body)).run known =
      let before := (nodes plan level (depth + 1) (first :: rest)).run known
      let inside := (nodes plan level (depth + 1) body).run before.2
      (Draft.line depth .openForever ++ (before.1 ++
        Draft.line (depth + 1) (.leaveUnless condition) ++ inside.1) ++ Draft.line depth .close,
        ⟨known.visible, inside.2.introduced⟩) :=
  rfl

theorem run_function (name : String) (parameters : Nat) :
    (node plan level depth (.function name parameters body)).run known =
      let outer := Node.slots level parameters ++ known.visible
      let inner := Introductions.ofBody body outer (level + 1)
      (Draft.line depth (.openFunction name (Node.slots level parameters)) ++
        headed inner (depth + 1)
          ((nodes inner (level + 1) (depth + 1) body).run (atHead inner outer)).1 ++
        Draft.line depth .close, known) :=
  rfl

theorem run_cons (first : Node) (rest : List Node) :
    (nodes plan level depth (first :: rest)).run known =
      let head := (node plan level depth first).run known
      let tail := (nodes plan level depth rest).run head.2
      (head.1 ++ tail.1, tail.2) :=
  rfl

end Runs

variable {name : String} {lines second : Draft} {depth level : Nat} {sentence : Sentence}
  {target : Place} {value : Computation} {known before after : KnownNames}

/-! ## Lines that bind a name -/

/-- How many of the lines bind the name. -/
def bindings (name : String) (lines : Draft) : Nat :=
  lines.sentences.countP fun sentence => name ∈ sentence.bound

/-- Some line binds the name. -/
def Binds (name : String) (lines : Draft) : Prop :=
  ∃ sentence ∈ lines.sentences, name ∈ sentence.bound

theorem bindings_append (first second : Draft) :
    bindings name (first ++ second) = bindings name first + bindings name second := by
  rw [bindings, Draft.sentences_append, countP_append]
  rfl

theorem bindings_eq_zero (unbound : ¬ Binds name lines) : bindings name lines = 0 := by
  rw [bindings, countP_eq_zero]
  intro sentence member bound
  exact unbound ⟨sentence, member, of_decide_eq_true bound⟩

theorem binds_append {first : Draft} :
    Binds name (first ++ second) ↔ Binds name first ∨ Binds name second := by
  rw [Binds, Draft.sentences_append]
  constructor
  · rintro ⟨sentence, member, bound⟩
    exact (mem_append.mp member).imp (⟨sentence, ·, bound⟩) (⟨sentence, ·, bound⟩)
  · rintro (⟨sentence, member, bound⟩ | ⟨sentence, member, bound⟩)
    · exact ⟨sentence, mem_append_left _ member, bound⟩
    · exact ⟨sentence, mem_append_right _ member, bound⟩

theorem binds_line : Binds name (Draft.line depth sentence) ↔ name ∈ sentence.bound := by
  constructor
  · rintro ⟨other, member, bound⟩
    have same : other = sentence := mem_singleton.mp member
    exact same ▸ bound
  · exact fun bound => ⟨sentence, mem_singleton.mpr rfl, bound⟩

/-- A line that binds nothing. -/
theorem not_binds_line (unbound : sentence.bound = []) :
    ¬ Binds name (Draft.line depth sentence) := by
  rw [binds_line, unbound]
  exact not_mem_nil

/-- A block binds what its lines bind. -/
theorem binds_block (unbound : opener.bound = []) :
    Binds name (Draft.line depth opener ++ lines ++ Draft.line depth .close) ↔
      Binds name lines := by
  rw [binds_append, binds_append, or_iff_right (not_binds_line unbound),
    or_iff_left (not_binds_line rfl)]

/-- A conditional binds what the lines of its two blocks bind. -/
theorem binds_conditional {first : Draft} (unbound : opener.bound = []) :
    Binds name (Draft.line depth opener ++ first ++ Draft.line depth .openElse ++ second ++
      Draft.line depth .close) ↔ Binds name first ∨ Binds name second := by
  rw [binds_append, binds_append, binds_append, binds_append,
    or_iff_right (not_binds_line unbound), or_iff_left (not_binds_line rfl),
    or_iff_left (not_binds_line rfl)]

theorem binds_headed {plan : Introductions} (binds : Binds name (headed plan depth lines)) :
    name ∈ plan.hoisted ∨ Binds name lines := by
  unfold headed at binds
  split at binds
  · exact .inr binds
  · have whole : Binds name (Draft.line depth (.introduce plan.hoisted) ++ lines) := binds
    exact (binds_append.mp whole).imp_left binds_line.mp

/-! ## What is bound is mentioned and not visible -/

/-- A line that stores something binds its name only if the plan says so. -/
theorem binds_store {plan : Introductions}
    (binds : Binds name ((store plan depth target value).run known).1) :
    name ∈ plan.inline ∧ target.text = name := by
  have bound : name ∈
      (Sentence.store ((isFirst plan target.text).run known).1 target value).bound :=
    binds_line.mp binds
  rw [run_isFirst] at bound
  split at bound
  · rename_i first
    have same := mem_singleton.mp bound
    exact ⟨same ▸ first.1, same.symm⟩
  · cases bound

theorem mem_visible_store {plan : Introductions} (visible : name ∈ known.visible) :
    name ∈ ((store plan depth target value).run known).2.visible := by
  change name ∈ ((isFirst plan target.text).run known).2.visible
  rw [run_isFirst]
  split
  · exact mem_cons_of_mem _ visible
  · exact visible

/-- What is visible stays visible behind a node. -/
theorem mem_visible_node (code : Node) {plan : Introductions} (visible : name ∈ known.visible) :
    name ∈ ((node plan level depth code).run known).2.visible := by
  cases code with
  | simple instruction =>
    cases instruction with
    | assign | binary => exact mem_visible_store visible
    | _ => exact visible
  | call callee arguments result =>
    cases result with
    | some => exact mem_visible_store visible
    | none => exact visible
  | loop before => cases before <;> exact visible
  | _ => exact visible

theorem mem_visible_nodes (code : List Node) {plan : Introductions}
    (visible : name ∈ known.visible) :
    name ∈ ((nodes plan level depth code).run known).2.visible := by
  induction code generalizing known with
  | nil => exact visible
  | cons first rest ih => exact ih (mem_visible_node first visible)

/-- The lines bind names that the plan introduces inline or that are not visible
before the lines, and only names that the nodes mention. -/
def BindsOnly (name : String) (plan : Introductions) (known : KnownNames)
    (mentioned : List String) (lines : Draft) : Prop :=
  Binds name lines → (name ∈ plan.inline ∨ name ∉ known.visible) ∧ name ∈ mentioned

/-- A function binds only what is not visible where it stands. -/
theorem binds_function (own : IsOwnName name) {body : List Node}
    (inside : ∀ (plan : Introductions) (depth : Nat) (known : KnownNames),
      BindsOnly name plan known (Node.mentionedAll (level + 1) body)
        ((nodes plan (level + 1) depth body).run known).1) {plan : Introductions} {parameters : Nat}
    {callee : String}
    (binds : Binds name ((node plan level depth (.function callee parameters body)).run known).1) :
    name ∉ known.visible ∧ name ∈ Node.mentioned level (.function callee parameters body) := by
  let outer := Node.slots level parameters ++ known.visible
  have fits := Introductions.fits_ofBody body outer (level + 1)
  have notSlot := own.not_mem_slots level parameters
  have mentioned (member : name ∈ Node.mentionedAll (level + 1) body) :
      name ∈ Node.mentioned level (.function callee parameters body) :=
    mem_filter.mpr ⟨member, decide_eq_true notSlot⟩
  have notVisible (new : name ∉ outer) : name ∉ known.visible := fun visible =>
    new (mem_append_right _ visible)
  rw [run_function, binds_append, binds_append, binds_line] at binds
  rcases binds with (slot | headed) | close
  · exact absurd slot notSlot
  · rcases binds_headed headed with hoisted | below
    · obtain ⟨_, used, named⟩ :=
        mem_map.mp (hoisted_subset_directNames body outer (level + 1) hoisted)
      exact ⟨notVisible (fits.hoisted name hoisted).1,
        mentioned (NameUse.mem_mentionedAll own body (mem_filter.mp used).1 named)⟩
    · obtain ⟨inline | new, member⟩ := inside _ _ _ below
      · exact ⟨notVisible (fits.inline name inline).1, mentioned member⟩
      · exact ⟨notVisible fun old => new (mem_append_right _ old), mentioned member⟩
  · exact absurd close (not_binds_line rfl)

mutual

/-- Every node binds only such names. -/
theorem bindsOnly_node (own : IsOwnName name) (code : Node) (plan : Introductions)
    (level depth : Nat) (known : KnownNames) :
    BindsOnly name plan known (Node.mentioned level code)
      ((node plan level depth code).run known).1 := by
  intro binds
  cases code with
  | simple instruction =>
    cases instruction with
    | assign =>
      obtain ⟨inline, same⟩ := binds_store binds
      rw [own.eq_variable same]
      exact ⟨.inl inline, mem_append_right _ (mem_singleton.mpr rfl)⟩
    | binary opcode target =>
      exact absurd (binds_store binds).2.symm (own.notTemporary target)
    | _ => exact absurd binds (not_binds_line rfl)
  | call callee arguments result =>
    cases result with
    | some target => exact absurd (binds_store binds).2.symm (own.notTemporary target)
    | none => exact absurd binds (not_binds_line rfl)
  | ifThen condition body =>
    rw [run_ifThen, binds_block rfl] at binds
    exact (bindsOnly_nodes own body plan level (depth + 1) known binds).imp_right
      (mem_append_right _)
  | ifElse condition body alternative =>
    rw [run_ifElse, binds_conditional rfl] at binds
    rcases binds with inside | otherwise
    · exact (bindsOnly_nodes own body plan level (depth + 1) known inside).imp_right fun member =>
        mem_append_left _ (mem_append_right _ member)
    · exact (bindsOnly_nodes own alternative plan level (depth + 1) _ otherwise).imp_right
        (mem_append_right _)
  | loop before condition body =>
    cases before with
    | nil =>
      rw [run_while, binds_block rfl] at binds
      exact (bindsOnly_nodes own body plan level (depth + 1) known binds).imp_right
        (mem_append_right _)
    | cons first rest =>
      rw [run_forever, binds_block rfl, binds_append, binds_append,
        or_iff_left (not_binds_line rfl)] at binds
      rcases binds with start | inside
      · exact (bindsOnly_nodes own (first :: rest) plan level (depth + 1) known start).imp_right
          fun member => mem_append_left _ (mem_append_left _ member)
      · obtain ⟨reason, mentioned⟩ := bindsOnly_nodes own body plan level (depth + 1) _ inside
        exact ⟨reason.imp_right fun new old => new (mem_visible_nodes (first :: rest) old),
          mem_append_right _ mentioned⟩
  | function callee parameters body =>
    have inside := fun plan depth known =>
      bindsOnly_nodes own body plan (level + 1) depth known
    exact (binds_function own inside binds).imp_left .inr
  | unstructured => exact absurd binds (not_binds_line rfl)

theorem bindsOnly_nodes (own : IsOwnName name) (code : List Node) (plan : Introductions)
    (level depth : Nat) (known : KnownNames) :
    BindsOnly name plan known (Node.mentionedAll level code)
      ((nodes plan level depth code).run known).1 := by
  intro binds
  cases code with
  | nil => exact absurd binds (by rintro ⟨_, ⟨⟩, _⟩)
  | cons first rest =>
    rw [run_cons, binds_append] at binds
    rcases binds with here | later
    · exact (bindsOnly_node own first plan level depth known here).imp_right
        (mem_append_left _)
    · obtain ⟨reason, mentioned⟩ := bindsOnly_nodes own rest plan level depth _ later
      exact ⟨reason.imp_right fun new old => new (mem_visible_node first old),
        mem_append_right _ mentioned⟩

end

/-! ## Lines between two points of a body -/

/-- How often the body has introduced the name so far. -/
def timesIntroduced (name : String) (known : KnownNames) : Nat :=
  if name ∈ known.introduced then 1 else 0

theorem timesIntroduced_le_one (known : KnownNames) : timesIntroduced name known ≤ 1 := by
  unfold timesIntroduced
  split <;> decide

/-- The lines close the blocks that they open, and no others. -/
def Stay (sentences : List Sentence) : Prop :=
  ∀ spot, (spotBehind spot sentences).blocks = spot.blocks

theorem Stay.append {first second : List Sentence} (here : Stay first) (later : Stay second) :
    Stay (first ++ second) := by
  intro spot
  rw [spotBehind_append, later, here]

theorem Stay.block {first : List Sentence} (inside : Stay first)
    (opens : ∀ spot, (opener.spotBehind spot).blocks.tail = spot.blocks) :
    Stay ([opener] ++ first ++ [.close]) := by
  intro spot
  rw [spotBehind_append, spotBehind_append]
  change (spotBehind (opener.spotBehind spot) first).blocks.tail = _
  rw [inside, opens]

/-- The lines bind the name as often as the body introduces it in between, and only in
the body itself. -/
structure BindsBetween (name : String) (before : KnownNames) (sentences : List Sentence)
    (after : KnownNames) : Prop where
  counts : sentences.countP (fun sentence => name ∈ sentence.bound) + timesIntroduced name before =
    timesIntroduced name after
  itself : ∀ spot, ∀ entry ∈ placed spot sentences, name ∈ entry.2.bound →
    entry.1.bodies = spot.bodies

namespace BindsBetween

variable {first second : List Sentence} {between : KnownNames} {visible : List String}

theorem append (here : BindsBetween name before first between) (stay : Stay first)
    (there : BindsBetween name between second after) :
    BindsBetween name before (first ++ second) after := by
  constructor
  · rw [countP_append, ← there.counts, ← here.counts]
    omega
  · intro spot entry member bound
    rw [placed_append] at member
    rcases mem_append.mp member with early | late
    · exact here.itself spot entry early bound
    · rw [there.itself _ entry late bound, Spot.bodies, stay]
      rfl

/-- Lines that do not bind the name. -/
theorem of_unbound (unbound : ∀ sentence ∈ first, name ∉ sentence.bound)
    (same : name ∈ after.introduced ↔ name ∈ before.introduced) :
    BindsBetween name before first after := by
  constructor
  · have none : first.countP (fun sentence => name ∈ sentence.bound) = 0 :=
      countP_eq_zero.mpr fun sentence member bound =>
        unbound sentence member (of_decide_eq_true bound)
    simp only [none, timesIntroduced, same, Nat.zero_add]
  · intro spot entry member bound
    obtain ⟨_, found, _⟩ := exists_of_mem_placed member
    exact absurd bound (unbound _ (mem_of_getElem? found))

/-- A line that binds nothing.  It may change what is visible. -/
theorem line (unbound : sentence.bound = []) :
    BindsBetween name known [sentence] ⟨visible, known.introduced⟩ := by
  refine of_unbound (fun other member => ?_) Iff.rfl
  rw [mem_singleton.mp member, unbound]
  exact not_mem_nil

/-- A line that introduces the name that it writes. -/
theorem store (new : target.text ∉ known.introduced) :
    BindsBetween name known [.store true target value]
      ⟨target.text :: known.visible, target.text :: known.introduced⟩ := by
  by_cases same : name = target.text
  · have once : [Sentence.store true target value].countP (fun sentence => name ∈ sentence.bound) =
        1 := by
      rw [same]
      exact countP_cons_of_pos (decide_eq_true (mem_singleton.mpr rfl))
    have before : timesIntroduced name known = 0 := if_neg (same ▸ new)
    refine ⟨?_, fun spot entry member _ => by rw [mem_singleton.mp member]⟩
    rw [once, before]
    exact (if_pos (same ▸ mem_cons_self)).symm
  · refine of_unbound (fun other member bound => same ?_) (mem_cons.trans (or_iff_right same))
    cases mem_singleton.mp member
    exact mem_singleton.mp bound

/-- A block whose opening line binds nothing. -/
theorem block (inside : BindsBetween name before first after) (unbound : opener.bound = [])
    (opens : ∀ spot, opener.spotBehind spot = spot.inBlock) :
    BindsBetween name before ([opener] ++ first ++ [.close])
      ⟨before.visible, after.introduced⟩ := by
  have opening : BindsBetween name before [opener] before := line unbound
  have closing : BindsBetween name after [.close] ⟨before.visible, after.introduced⟩ := line rfl
  constructor
  · rw [countP_append, countP_append, ← closing.counts, ← inside.counts]
    have none := opening.counts
    omega
  · intro spot entry member bound
    have opened : spotBehind spot [opener] = spot.inBlock := opens spot
    simp only [placed_append, opened, mem_append] at member
    rcases member with (first | inner) | last
    · rw [mem_singleton.mp first]
    · exact inside.itself spot.inBlock entry inner bound
    · rw [mem_singleton.mp last] at bound
      cases bound

end BindsBetween

end Emit

end BanglaScript
