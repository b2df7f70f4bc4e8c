import BanglaScript.Proofs.Script.Shared
import Mathlib.Data.List.Forall2
import Mathlib.Data.List.Infix

/-!
# Where names are bound

A use of a name refers to a binding in the outermost one of the bodies around it
that use the name themselves, that is, on lines that stand in none of their
functions.  For a body introduces only names that it uses itself, and where a body
uses a name itself, the functions in it do not introduce the name again.
-/

namespace BanglaScript

open Eventful List

variable {bodies : List Nat} {line : Nat} {sentence opener : Sentence}

/-- The functions around a line. -/
def bodiesOn (sentences : List Sentence) (line : Nat) : List Nat :=
  (spotBehind {} (sentences.take line)).bodies

/-- The body is the outermost of the bodies around a line that use the name
themselves. -/
structure IsHome (sentences : List Sentence) (name : String) (line : Nat) (body : List Nat) :
    Prop where
  around : body <:+ bodiesOn sentences line
  uses : (body, .use name) ∈ eventsFrom {} sentences
  outermost : ∀ other, other <:+ body → (other, .use name) ∈ eventsFrom {} sentences → other = body

/-! ## Bindings stand around their uses -/

namespace OpenBlocks

/-- The bindings of each open block come from lines in the body of the block or in
one around it.  The blocks are given from the innermost outwards; around them there
is the program. -/
def StandIn (sentences : List Sentence) (blocks : OpenBlocks) (around : List (Option Nat)) : Prop :=
  List.Forall₂
    (fun block outer => ∀ entry ∈ block, bodiesOn sentences entry.2 <:+ outer.filterMap id)
    blocks around.tails

variable {sentences : List Sentence} {blocks : OpenBlocks} {around : List (Option Nat)}

/-- A block with more bindings of a line that stands around it. -/
theorem mem_bound {block : List (String × Nat)}
    (bound : ∀ entry ∈ block, bodiesOn sentences entry.2 <:+ bodies) {names : List String}
    (inside : bodiesOn sentences line <:+ bodies) :
    ∀ entry ∈ names.map (·, line) ++ block, bodiesOn sentences entry.2 <:+ bodies :=
  forall_mem_append.mpr ⟨forall_mem_map.mpr fun _ _ => inside, bound⟩

section

variable (stand : StandIn sentences blocks around)

include stand

theorem StandIn.bind (names : List String) {line : Nat}
    (inside : bodiesOn sentences line <:+ around.filterMap id) :
    StandIn sentences (blocks.bind names line) around := by
  cases around with
  | nil | cons =>
    obtain ⟨_, _, bound, others, rfl⟩ := forall₂_cons_right_iff.mp stand
    exact .cons (mem_bound bound inside) others

theorem StandIn.opened (number : Option Nat) :
    StandIn sentences ([] :: blocks) (number :: around) :=
  .cons (forall_mem_nil _) stand

theorem StandIn.closed : StandIn sentences (closeInnermost blocks) around.tail := by
  cases around with
  | nil =>
    obtain ⟨block, rest, _, none, rfl⟩ := forall₂_cons_right_iff.mp stand
    cases none
    exact stand
  | cons number outer =>
    obtain ⟨_, rest, _, others, rfl⟩ := forall₂_cons_right_iff.mp stand
    cases rest with
    | nil => cases outer <;> cases others
    | cons => exact others

end

/-- Every line keeps this up. -/
theorem StandIn.after {spot : Spot} (stand : StandIn sentences blocks spot.blocks) {line : Nat}
    (here : bodiesOn sentences line = spot.bodies) (sentence : Sentence) :
    StandIn sentences (blocks.after line sentence) (sentence.spotBehind spot).blocks := by
  cases sentence with
  | openIf | openWhile | openForever => exact stand.opened none
  | openElse => exact stand.closed.opened none
  | close => exact stand.closed
  | openFunction =>
    apply (stand.opened (some spot.functions)).bind
    rw [here]
    exact suffix_cons _ _
  | _ => exact stand.bind _ (here ▸ suffix_rfl)

theorem standIn_behind (sentences : List Sentence) (line : Nat) :
    StandIn sentences (OpenBlocks.behind sentences line)
      (spotBehind {} (sentences.take line)).blocks := by
  induction line with
  | zero => exact .cons (forall_mem_nil _) .nil
  | succ line ih =>
    rw [OpenBlocks.behind, take_add_one, spotBehind_append]
    cases sentences[line]? with
    | none => exact ih
    | some sentence => exact ih.after rfl sentence

/-- A binding that is open stands in the body of the point or in one around it. -/
theorem bodiesOn_suffix {entry : String × Nat}
    (member : entry ∈ (OpenBlocks.behind sentences line).flatten) :
    bodiesOn sentences entry.2 <:+ bodiesOn sentences line := by
  obtain ⟨_, isOpen, bound⟩ := mem_flatten.mp member
  obtain ⟨length, related⟩ := forall₂_iff_get.mp (standIn_behind sentences line)
  obtain ⟨position, inside, rfl⟩ := mem_iff_getElem.mp isOpen
  have suffix := related position inside (length ▸ inside) entry bound
  exact suffix.trans (((mem_tails _ _).mp (get_mem _ _)).filterMap id)

end OpenBlocks

/-- What a line introduces it binds. -/
theorem Sentence.introduced_subset_bound (sentence : Sentence) :
    sentence.introduced ⊆ sentence.bound := by
  cases sentence with
  | openFunction => exact nil_subset _
  | _ => exact List.Subset.refl _

/-- A line that uses names opens and closes no body. -/
theorem Sentence.bodies_spotBehind {name : String} (used : name ∈ sentence.used) (spot : Spot) :
    (sentence.spotBehind spot).bodies = spot.bodies := by
  cases sentence with
  | openElse | close | openFunction => cases used
  | _ => rfl

/-- The binding of a name that a line uses stands in the body of the line or in one
around it. -/
theorem bodiesOn_bindingOn? {sentences : List Sentence} {origin : Nat} {name : String}
    (found : sentences[line]? = some sentence) (used : name ∈ sentence.used)
    (binding : bindingOn? sentences line name = some origin) :
    bodiesOn sentences origin <:+ bodiesOn sentences line := by
  have suffix := OpenBlocks.bodiesOn_suffix (OpenBlocks.mem_of_binding? binding)
  rw [bodiesOn, bodiesOn, take_add_one, found, spotBehind_append] at suffix
  change _ <:+ (sentence.spotBehind _).bodies at suffix
  rwa [Sentence.bodies_spotBehind used] at suffix

/-! ## Numbers of functions -/

/-- What is open at the later point was open at the earlier one, or it was opened
between them and has its number from there. -/
structure Spot.Leads (earlier later : Spot) : Prop where
  functions : earlier.functions ≤ later.functions
  bodies : ∀ number ∈ later.bodies, number ∈ earlier.bodies ∨
    earlier.functions ≤ number ∧ number < later.functions

theorem Sentence.leads_spotBehind (sentence : Sentence) (spot : Spot) :
    spot.Leads (sentence.spotBehind spot) := by
  have closed {number : Nat} (member : number ∈ spot.left.bodies) : number ∈ spot.bodies :=
    (tail_sublist spot.blocks).filterMap id |>.subset member
  cases sentence with
  | openFunction =>
    refine ⟨Nat.le_succ _, forall_mem_cons.mpr ⟨.inr ⟨Nat.le_refl _, Nat.lt_succ_self _⟩, ?_⟩⟩
    exact fun _ => .inl
  | openElse | close => exact ⟨Nat.le_refl _, fun _ member => .inl (closed member)⟩
  | _ => exact ⟨Nat.le_refl _, fun _ => .inl⟩

theorem leads_spotBehind (sentences : List Sentence) (spot : Spot) :
    spot.Leads (spotBehind spot sentences) := by
  induction sentences generalizing spot with
  | nil => exact ⟨Nat.le_refl _, fun _ => .inl⟩
  | cons first rest ih =>
    have here := first.leads_spotBehind spot
    have later := ih (first.spotBehind spot)
    refine ⟨Nat.le_trans here.functions later.functions, fun number member => ?_⟩
    rcases later.bodies number member with before | ⟨above, below⟩
    · refine (here.bodies number before).imp_right fun bounds => ?_
      exact ⟨bounds.1, Nat.lt_of_lt_of_le bounds.2 later.functions⟩
    · exact .inr ⟨Nat.le_trans here.functions above, below⟩

theorem leads_take (sentences : List Sentence) {first second : Nat} (ordered : first ≤ second) :
    (spotBehind {} (sentences.take first)).Leads (spotBehind {} (sentences.take second)) := by
  obtain ⟨count, rfl⟩ := Nat.exists_eq_add_of_le ordered
  rw [take_add, spotBehind_append]
  exact leads_spotBehind _ _

/-! ## Lines around other lines of a body -/

/-- Around the lines of `inside`, the list has only lines of the same body. -/
def Frames (list inside : List Sentence) : Prop :=
  ∀ spot, ∃ inner : Spot, inner.bodies = spot.bodies ∧
    placed inner inside ⊆ placed spot list ∧
    ∀ entry ∈ placed spot list, entry.1.bodies = spot.bodies ∨ entry ∈ placed inner inside

namespace Frames

variable {first second : List Sentence} {firstAccount secondAccount : Account}
  {condition : Operand}

/-- A line of its own. -/
theorem single (sentence : Sentence) : Frames [sentence] [] := by
  intro spot
  refine ⟨spot, rfl, nil_subset _, fun entry member => .inl ?_⟩
  cases mem_singleton.mp member
  rfl

/-- A block. -/
theorem block (tells : Tells first firstAccount)
    (opens : ∀ spot, behind opener spot = spot.inBlock) :
    Frames ([opener] ++ first ++ [.close]) first := by
  intro spot
  have opened : spotBehind spot [opener] = spot.inBlock := opens spot
  refine ⟨spot.inBlock, rfl, ?_, ?_⟩ <;>
    simp only [placed_append, spotBehind_append, opened, tells.passed]
  · exact fun entry member => mem_append_left _ (mem_append_right _ member)
  · simp only [forall_mem_append]
    exact ⟨⟨forall_mem_singleton.mpr (.inl rfl), fun _ => .inr⟩,
      forall_mem_singleton.mpr (.inl rfl)⟩

/-- A block with a line in it, which may close the block and open another one. -/
theorem twofold {middle : Sentence} (firstTells : Tells first firstAccount)
    (secondTells : Tells second secondAccount) (opens : ∀ spot, behind opener spot = spot.inBlock)
    (stays : ∀ spot : Spot, behind middle spot.inBlock = spot.inBlock) :
    Frames ([opener] ++ first ++ [middle] ++ second ++ [.close]) (first ++ second) := by
  intro spot
  have opened : spotBehind spot [opener] = spot.inBlock := opens spot
  have between : spotBehind (spot.inBlock.past firstAccount.functions) [middle] =
      spot.inBlock.past firstAccount.functions := stays (spot.past firstAccount.functions)
  refine ⟨spot.inBlock, rfl, ?_, ?_⟩ <;>
    simp only [placed_append, spotBehind_append, opened, firstTells.passed, between,
      secondTells.passed]
  · refine append_subset.mpr ⟨fun entry before => ?_, fun entry later => ?_⟩
    · exact mem_append_left _ (mem_append_left _ (mem_append_left _ (mem_append_right _ before)))
    · exact mem_append_left _ (mem_append_right _ later)
  · have flat {spot : Spot} {inside : List (Spot × Sentence)} {sentence : Sentence} :
        ∀ entry ∈ placed spot [sentence], entry.1.bodies = spot.bodies ∨ entry ∈ inside :=
      forall_mem_singleton.mpr (.inl rfl)
    simp only [forall_mem_append]
    exact ⟨⟨⟨⟨flat, fun _ before => .inr (mem_append_left _ before)⟩, flat⟩,
      fun _ later => .inr (mem_append_right _ later)⟩, flat⟩

end Frames

namespace Emit

open StateRun

variable {name : String} {account : Account} {sentences : List Sentence}
  {inFunction : List Sentence → Prop}

/-! ## Names that a body uses itself -/

/-- Any names can be visible where a body begins. -/
theorem exists_isFresh (outer : List String) : ∃ surroundings, IsFresh surroundings outer := by
  have agrees : Agrees ⟨[], []⟩ {} := ⟨fun _ => Iff.rfl, fun _ => Iff.rfl⟩
  have fresh := isFresh_openFunction agrees "" outer
  exact ⟨_, append_nil outer ▸ fresh⟩

theorem mem_placed_headed {plan : Introductions} {depth : Nat} {lines : Draft} {spot : Spot}
    {entry : Spot × Sentence} (member : entry ∈ placed spot (headed plan depth lines).sentences) :
    entry = (spot, .introduce plan.hoisted) ∨ entry ∈ placed spot lines.sentences := by
  unfold headed at member
  split at member
  · exact .inr member
  · exact mem_cons.mp member

section Bodies

variable {code : List Node} {outer : List String} {level depth : Nat} {spot : Spot}
  {entry : Spot × Sentence}

/-- If a body introduces a name inline, only lines of the body itself bind it. -/
theorem bodies_eq_of_inline (own : IsOwnName name) (written : Node.areWritten code)
    (inline : name ∈ (Introductions.ofBody code outer level).inline)
    (member : entry ∈ placed spot (belowHeadOf code outer level depth).1.sentences)
    (bound : name ∈ entry.2.bound) : entry.1.bodies = spot.bodies := by
  obtain ⟨_, fresh⟩ := exists_isFresh outer
  have leads := leadsThrough_nodes code written level depth (stands_belowHead fresh)
    (Introductions.fits_ofBody code outer level) prefix_rfl
  exact (leads.counts name own inline).itself spot entry member bound

/-- If a body uses the name itself, only lines of the body itself introduce it. -/
def IntroducesItself (name : String) (sentences : List Sentence) : Prop :=
  ∀ spot, (spot.bodies, .use name) ∈ eventsFrom spot sentences →
    ∀ entry ∈ placed spot sentences, name ∈ entry.2.introduced → entry.1.bodies = spot.bodies

theorem introducesItself_bodyLines (own : IsOwnName name) :
    HoldsOfBodies (IntroducesItself name) := by
  intro code outer level depth written spot event entry member introduced
  rcases mem_placed_headed member with rfl | below
  · rfl
  rw [(composed_bodyLines holdsOfBodies_true written outer level depth).tells.told] at event
  have fits := Introductions.fits_ofBody code outer level
  obtain ⟨use, used, rfl⟩ := mem_map.mp ((owns_nodes code level [] 0 _ _ name).mp event)
  obtain ⟨used, isDirect⟩ := mem_filter.mp used
  have bound := Sentence.introduced_subset_bound _ introduced
  obtain ⟨_, found, _⟩ := exists_of_mem_placed below
  obtain ⟨inline | hidden, _⟩ :=
    bindsOnly_nodes own code _ level depth _ ⟨entry.2, mem_of_getElem? found, bound⟩
  · exact bodies_eq_of_inline own written inline below bound
  · rcases fits.covers use used isDirect with outside | truth | hoisted | inline
    · exact absurd (mem_append_right _ outside) hidden
    · exact absurd truth own.notTruth
    · exact absurd (mem_append_left _ hoisted) hidden
    · exact bodies_eq_of_inline own written inline below bound

end Bodies

/-! ## Homes -/

/-- Everything happens in the body of the lines and in their own functions. -/
theorem within (composed : Composed inFunction sentences account) {spot : Spot}
    {event : List Nat × Event} (member : event ∈ eventsFrom spot sentences) :
    ∃ inner, event.1 = inner ++ spot.bodies ∧
      ∀ number ∈ inner, spot.functions ≤ number ∧ number < spot.functions + account.functions :=
  composed.isNested _ _ _ (composed.tells.told spot ▸ member)

/-- The lines introduce a name in no function of a body that uses the name itself.
Only bodies inside of the lines are looked at. -/
def IsHomed (name : String) (sentences : List Sentence) : Prop :=
  ∀ spot, ∀ entry ∈ placed spot sentences, name ∈ entry.2.introduced →
    ∀ body, body <:+ entry.1.bodies → body ≠ entry.1.bodies →
      spot.bodies <:+ body → body ≠ spot.bodies → (body, .use name) ∉ eventsFrom spot sentences

/-- Also the body of the lines is looked at. -/
def IsHomedBody (name : String) (sentences : List Sentence) : Prop :=
  ∀ spot, ∀ entry ∈ placed spot sentences, name ∈ entry.2.introduced →
    ∀ body, body <:+ entry.1.bodies → body ≠ entry.1.bodies →
      spot.bodies <:+ body → (body, .use name) ∉ eventsFrom spot sentences

namespace IsHomed

variable {first second list inside : List Sentence} {firstAccount secondAccount : Account}

theorem nil : IsHomed name [] := fun _ => forall_mem_nil _

theorem framed (frames : Frames list inside) (homed : IsHomed name inside) :
    IsHomed name list := by
  intro spot entry member introduced body around proper below other event
  obtain ⟨inner, sameBodies, _, split⟩ := frames spot
  rcases split entry member with flat | deeper
  · exact other ((flat ▸ around).eq_of_length_le below.length_le)
  obtain ⟨source, sourceMember, happens⟩ := mem_flatMap.mp event
  obtain ⟨_, _, same⟩ := mem_map.mp happens
  cases same
  rcases split source sourceMember with flat | sourceDeeper
  · exact other flat
  · exact homed inner entry deeper introduced _ around proper (sameBodies ▸ below)
      (sameBodies ▸ other) (mem_flatMap.mpr ⟨source, sourceDeeper, happens⟩)

/-- Bodies with different numbers in them are not inside of each other. -/
theorem eq_of_suffix_of_apart {inner outer whole : List Nat} (same : whole = outer ++ bodies)
    (apart : ∀ number ∈ inner, number ∉ outer) (suffix : inner ++ bodies <:+ whole) :
    inner ++ bodies = bodies := by
  obtain ⟨start, split⟩ := suffix
  rw [same, ← append_assoc] at split
  have whole := append_cancel_right split
  cases inner with
  | nil => rfl
  | cons number =>
    exact absurd (whole ▸ mem_append_right start mem_cons_self)
      (apart number mem_cons_self)

theorem append (here : Composed inFunction first firstAccount)
    (later : Composed inFunction second secondAccount) (firstHomed : IsHomed name first)
    (secondHomed : IsHomed name second) : IsHomed name (first ++ second) := by
  intro spot entry member introduced body around proper below other event
  rw [placed_append, here.tells.passed] at member
  rw [eventsFrom_append, here.tells.passed] at event
  -- The functions of the two parts have different numbers.
  rcases mem_append.mp member with inFirst | inSecond <;>
    rcases mem_append.mp event with before | behind
  · exact firstHomed spot entry inFirst introduced body around proper below other before
  · obtain ⟨outer, bodies, numbers⟩ :=
      within here (here.introducesUsed.used _ _ inFirst _ introduced)
    obtain ⟨inner, rfl, bounds⟩ := within later behind
    have apart : ∀ number ∈ inner, number ∉ outer := fun number inside outside =>
      absurd (bounds number inside).1 (Nat.not_le.mpr (numbers number outside).2)
    exact other (eq_of_suffix_of_apart bodies apart around)
  · obtain ⟨outer, bodies, numbers⟩ :=
      within later (later.introducesUsed.used _ _ inSecond _ introduced)
    obtain ⟨inner, rfl, bounds⟩ := within here before
    have apart : ∀ number ∈ inner, number ∉ outer := fun number inside outside =>
      absurd (numbers number outside).1 (Nat.not_le.mpr (bounds number inside).2)
    exact other (eq_of_suffix_of_apart bodies apart around)
  · exact secondHomed _ entry inSecond introduced body around proper below other behind

/-- A function. -/
theorem function {callee : String} {parameters : List String}
    (composed : Composed inFunction inside firstAccount) (homed : IsHomedBody name inside) :
    IsHomed name ([.openFunction callee parameters] ++ inside ++ [.close]) := by
  intro spot entry member introduced body around proper below other event
  have opened : spotBehind spot [Sentence.openFunction callee parameters] = spot.inFunction := rfl
  simp only [placed_append, eventsFrom_append, opened, mem_append] at member event
  rcases member with (opening | deeper) | closing
  · cases mem_singleton.mp opening
    cases introduced
  · rcases event with (opening | happens) | closing
    · rw [eventsFrom_singleton] at opening
      obtain ⟨_, _, same⟩ := mem_map.mp opening
      exact other (congrArg Prod.fst same).symm
    · obtain ⟨inner, same, _⟩ := within composed happens
      exact homed spot.inFunction entry deeper introduced body around proper
        ⟨inner, same.symm⟩ happens
    · cases closing
  · cases mem_singleton.mp closing
    cases introduced

/-- A body that introduces a name in one of its functions does not use it itself. -/
theorem body (homed : IsHomed name inside) (itself : IntroducesItself name inside) :
    IsHomedBody name inside := by
  intro spot entry member introduced body around proper below event
  by_cases here : body = spot.bodies
  · exact proper (here.trans (itself spot (here ▸ event) entry member introduced).symm)
  · exact homed spot entry member introduced body around proper below here event

end IsHomed

/-- Lines that are put together introduce a name in no function of a body that uses the
name itself, if that holds of the lines of every function. -/
theorem isHomed_of_composed (composed : Composed (IntroducesItself name) sentences account) :
    IsHomed name sentences := by
  induction composed with
  | nil => exact .nil
  | line => exact .framed (.single _) .nil
  | append here later firstHomed secondHomed => exact .append here later firstHomed secondHomed
  | @block opener _ _ opens inside homed =>
    exact homed.framed (.block inside.tells fun _ => by
      cases opener <;> first | rfl | cases opens)
  | conditional inside otherwise firstHomed secondHomed =>
    exact (IsHomed.append inside otherwise firstHomed secondHomed).framed
      (.twofold inside.tells otherwise.tells (fun _ => rfl) fun _ => rfl)
  | function isBody inside homed => exact .function inside (homed.body isBody)
  | headed _ _ homed =>
    refine homed.framed fun spot => ?_
    exact ⟨spot, rfl, subset_cons_self _ _, fun entry member =>
      (mem_cons.mp member).imp_left fun same => congrArg (fun entry => entry.1.bodies) same⟩

variable (own : IsOwnName name) {code : List Node} (written : Node.areWritten code)

include own written

/-- A script introduces a name in no function of a body that uses the name itself. -/
theorem isHomedBody_ofNodes : IsHomedBody name (Draft.ofNodes code).sentences :=
  have itself := introducesItself_bodyLines own
  (isHomed_of_composed (composed_bodyLines itself written [] 0 0)).body
    (itself code [] 0 0 written)

/-- A line that uses an own name refers to a binding in the outermost of the bodies
around it that use the name themselves. -/
theorem exists_home
    (found : (Draft.ofNodes code).sentences[line]? = some sentence) (used : name ∈ sentence.used) :
    ∃ origin, bindingOn? (Draft.ofNodes code).sentences line name = some origin ∧
      IsHome (Draft.ofNodes code).sentences name line
        (bodiesOn (Draft.ofNodes code).sentences origin) := by
  have declared : AreDeclaredIn {} (Draft.ofNodes code).sentences :=
    (areDeclaredIn_body (leadsThrough_nodes code written) isFresh_program 0 0).1
  obtain ⟨origin, binding⟩ := declared.exists_bindingOn? own.notTruth found used
  obtain ⟨binder, binderFound, bound⟩ := OpenBlocks.exists_bound_of_binding? binding
  have member := mem_placed {} binderFound
  have introduces := (composed_ofNodes written).introducesUsed
  have introduced : name ∈ binder.introduced := by
    rcases introduces.bound binder (mem_of_getElem? binderFound) name bound with
      introduced | ⟨level, parameters, slot⟩
    · exact introduced
    · exact absurd slot (own.not_mem_slots level parameters)
  refine ⟨origin, binding, bodiesOn_bindingOn? found used binding,
    introduces.used {} _ member name introduced, fun other around happens => ?_⟩
  by_contra proper
  exact isHomedBody_ofNodes own written {} _ member introduced other around proper
    nil_suffix happens

/-- A name that is used in different outermost functions refers to one binding
only if the program uses it outside of its functions. -/
theorem isUsedOutside_of_refersToOne (apart : IsUsedApart (Draft.ofNodes code).sentences name)
    (one : RefersToOne (Draft.ofNodes code).sentences name) :
    IsUsedOutside (Draft.ofNodes code).sentences name := by
  obtain ⟨first, between, second, _, _, before, behind, outside, firstFound, firstUsed,
    secondFound, secondUsed⟩ := apart
  obtain ⟨origin, refers⟩ := one
  obtain ⟨_, binding, home⟩ := exists_home own written firstFound firstUsed
  cases binding.symm.trans (refers firstFound firstUsed)
  have around := bodiesOn_bindingOn? secondFound secondUsed (refers secondFound secondUsed)
  have counted := (composed_ofNodes written).areCounted
  rw [counted.depthBehindAll_take, Spot.depth_eq_zero_iff] at outside
  -- The functions around the two lines have different numbers.
  have none : bodiesOn (Draft.ofNodes code).sentences origin = [] := by
    refine eq_nil_iff_forall_not_mem.mpr fun number member => ?_
    have early := (leads_take _ (Nat.zero_le first)).bodies number (home.around.subset member)
    have late := (leads_take _ behind).bodies number (around.subset member)
    rw [outside] at late
    have between := (leads_take (Draft.ofNodes code).sentences (Nat.le_of_lt before)).functions
    have less := (early.resolve_left not_mem_nil).2
    exact absurd (Nat.lt_of_lt_of_le less between)
      (Nat.not_lt.mpr (late.resolve_left not_mem_nil).1)
  exact counted.isUsedOutside_iff.mpr (none ▸ home.uses)

end Emit

end BanglaScript
