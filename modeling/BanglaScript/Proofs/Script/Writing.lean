import BanglaScript.Proofs.Script.Bound

/-!
# Reading what is written

The lines that are written for a body are read again.  At every point the
reader sees the names that the writer takes for visible, and the names that
the writer takes for introduced.  So a single line is declared where it stands,
and blocks and bodies lead from one such point to another.
-/

namespace BanglaScript

open List Surroundings

namespace Emit

/-- The reader and the writer know the same names. -/
structure Agrees (known : KnownNames) (surroundings : Surroundings) : Prop where
  visible : ∀ name, name ∈ surroundings.visible ↔ name ∈ known.visible
  introduced : ∀ name, name ∈ surroundings.body.introduced ↔ name ∈ known.introduced

/-- Nothing but the innermost block has changed. -/
structure SameOutside (before after : Surroundings) : Prop where
  outer : after.outer = before.outer
  around : after.body.around = before.body.around
  parameters : after.body.parameters = before.body.parameters

theorem SameOutside.trans {first second third : Surroundings} (here : SameOutside first second)
    (there : SameOutside second third) : SameOutside first third :=
  ⟨there.outer.trans here.outer, there.around.trans here.around,
    there.parameters.trans here.parameters⟩

/-- A point between two lines of a body: the uses before it, how many blocks
have been numbered, what the writer knows and what the reader has seen. -/
structure Point where
  done : List NameUse
  count : Nat
  known : KnownNames
  surroundings : Surroundings

namespace Point

variable {first second : List Sentence} {count : Nat} {known : KnownNames}

/-- The point behind some lines and their uses. -/
def next (point : Point) (sentences : List Sentence) (now : List NameUse) (count : Nat)
    (known : KnownNames) : Point :=
  ⟨point.done ++ now, count, known, point.surroundings.afterAll sentences⟩

/-- Writer and reader agree at the point, inside of the blocks of the path. -/
structure Stands (point : Point) (plan : Introductions) (outer : List String) (path : List Nat) :
    Prop where
  progress : Progress plan outer point.done path point.count point.known
  agrees : Agrees point.known point.surroundings

/-- The lines are declared and lead to a point in the same block.  A name of the plan is
bound as often as it is introduced. -/
structure Leads (point : Point) (plan : Introductions) (outer : List String) (path : List Nat)
    (sentences : List Sentence) (now : List NameUse) (count : Nat) (known : KnownNames) :
    Prop where
  stay : Stay sentences
  declared : AreDeclaredIn point.surroundings sentences
  outside : SameOutside point.surroundings (point.surroundings.afterAll sentences)
  counts : ∀ name, IsOwnName name → name ∈ plan.inline →
    BindsBetween name point.known sentences known
  stands : (point.next sentences now count known).Stands plan outer path

variable {plan : Introductions} {outer : List String} {path : List Nat} {point : Point}

theorem Stands.nothing (stands : point.Stands plan outer path) :
    point.Leads plan outer path [] [] point.count point.known := by
  refine ⟨fun _ => rfl, trivial, ⟨rfl, rfl, rfl⟩, fun _ _ _ => .of_unbound nofun Iff.rfl, ?_,
    stands.agrees⟩
  rw [next, append_nil]
  exact stands.progress

theorem Leads.append {now later : List NameUse} {middle : Nat} {between : KnownNames}
    (leads : point.Leads plan outer path first now middle between)
    (further : (point.next first now middle between).Leads plan outer path second later count
      known) : point.Leads plan outer path (first ++ second) (now ++ later) count known := by
  have joined : (point.next first now middle between).next second later count known =
      point.next (first ++ second) (now ++ later) count known := by
    simp only [next, afterAll_append, append_assoc]
  refine ⟨leads.stay.append further.stay,
    areDeclaredIn_append.mpr ⟨leads.declared, further.declared⟩, ?_, fun name own inline =>
      (leads.counts name own inline).append leads.stay (further.counts name own inline),
    joined ▸ further.stands⟩
  rw [afterAll_append]
  exact leads.outside.trans further.outside

/-! ## Single lines -/

section Lines

variable {uses : List NameUse} {operands : List Operand} {sentence : Sentence} {target : Place}
  {value : Computation}

theorem isPassive_of_mem_ofReads {use : NameUse} (member : use ∈ NameUse.ofReads path operands) :
    use.IsPassive ∧ use.isDirect := by
  obtain ⟨_, _, rfl⟩ := mem_map.mp member
  exact ⟨fun active => Bool.noConfusion active.1, rfl⟩

variable (stands : point.Stands plan outer path) (fits : plan.Fits outer uses)

include stands fits

/-- Reading introduces nothing, and what is read is visible. -/
theorem Stands.reads (reached : point.done ++ NameUse.ofReads path operands <+: uses) :
    (∀ name ∈ operands.filterMap Operand.storage?,
        name ∈ point.surroundings.visible ∨ IsTruth name) ∧
      Progress plan outer (point.done ++ NameUse.ofReads path operands) path point.count
        point.known := by
  have passive : ∀ use ∈ NameUse.ofReads path operands, use.IsPassive := fun use member =>
    (isPassive_of_mem_ofReads member).1
  refine ⟨fun name member => ?_, stands.progress.passive fits reached passive ?_⟩
  · have used : ⟨name, path, false, true⟩ ∈ NameUse.ofReads path operands :=
      mem_map.mpr ⟨name, member, rfl⟩
    rw [stands.agrees.visible]
    exact stands.progress.mem_visible fits reached passive used rfl rfl
  · exact .of_eq_path stands.progress.inside fun use member => NameUse.path_of_mem_ofReads member

/-- A line that introduces nothing and neither opens nor closes a block. -/
theorem Stands.line
    (only : sentence.onlyReads) (unbound : sentence.bound = []) (stay : Stay [sentence])
    (reached : point.done ++ NameUse.ofReads path sentence.operands <+: uses)
    (after : point.surroundings.after sentence =
      point.surroundings.within point.surroundings.body) :
    point.Leads plan outer path [sentence] (NameUse.ofReads path sentence.operands) point.count
      point.known := by
  obtain ⟨visible, progress⟩ := stands.reads fits reached
  have declared : sentence.IsDeclaredIn point.surroundings :=
    Sentence.isDeclaredIn_of_onlyReads only visible
  have read : point.surroundings.afterAll [sentence] =
      point.surroundings.within point.surroundings.body := after
  refine ⟨stay, ⟨declared, trivial⟩, ?_, fun _ _ _ => .line unbound, progress, ?_⟩
  · rw [read]
    exact ⟨rfl, rfl, rfl⟩
  · rw [next, read]
    exact ⟨stands.agrees.visible, stands.agrees.introduced⟩

/-- A line that only reads. -/
theorem Stands.readOnly
    (only : sentence.onlyReads) (unbound : sentence.bound = []) (stay : Stay [sentence])
    (same : sentence.operands = operands)
    (reached : point.done ++ (NameUse.ofReads path operands ++ NameUse.ofWrite path none) <+: uses)
    (after : point.surroundings.after sentence =
      point.surroundings.within point.surroundings.body) :
    point.Leads plan outer path [sentence]
      (NameUse.ofReads path operands ++ NameUse.ofWrite path none) point.count point.known := by
  have nothing : NameUse.ofWrite path none = [] := rfl
  rw [nothing, append_nil, ← same] at reached ⊢
  exact stands.line fits only unbound stay reached after

/-- A line that stores something under a name that it introduces. -/
theorem Stands.storeFirst
    (inline : target.text ∈ plan.inline) (new : target.text ∉ point.known.introduced)
    (reached : point.done ++ NameUse.ofReads path value.operands <+: uses) :
    point.Leads plan outer path [.store true target value]
      (NameUse.ofReads path value.operands ++ NameUse.ofWrite path (some target)) point.count
      ⟨target.text :: point.known.visible, target.text :: point.known.introduced⟩ := by
  obtain ⟨visible, progress⟩ := stands.reads fits reached
  obtain ⟨notVisible, written⟩ := progress.write_first fits inline new
  refine ⟨fun _ => rfl, ⟨⟨visible, ?_, ?_, ?_, ?_, ?_⟩, trivial⟩, ⟨rfl, rfl, rfl⟩,
    fun _ _ _ => .store new, ?_, ?_, ?_⟩
  · exact fun name member => .inr (.inl member)
  · intro name member
    rw [mem_singleton.mp member, stands.agrees.visible]
    exact notVisible
  · intro name member
    rw [mem_singleton.mp member, stands.agrees.introduced]
    exact new
  · exact pairwise_singleton _ _
  · exact fun names same => Sentence.noConfusion same
  · rw [next, ← append_assoc]
    exact written
  · exact fun name => mem_cons.trans ((or_congr_right (stands.agrees.visible name)).trans
      mem_cons.symm)
  · exact fun name => mem_cons.trans ((or_congr_right (stands.agrees.introduced name)).trans
      mem_cons.symm)

/-- A line that stores something under a visible name. -/
theorem Stands.storeLater (old : target.text ∈ plan.inline → target.text ∈ point.known.introduced)
    (reached : point.done ++ NameUse.ofReads path value.operands ++
      NameUse.ofWrite path (some target) <+: uses) :
    point.Leads plan outer path [.store false target value]
      (NameUse.ofReads path value.operands ++ NameUse.ofWrite path (some target)) point.count
      point.known := by
  obtain ⟨visible, progress⟩ := stands.reads fits ((prefix_append _ _).trans reached)
  obtain ⟨known, written⟩ := progress.write_later fits reached old
  refine ⟨fun _ => rfl, ⟨⟨visible, ?_, ?_, ?_, ?_, ?_⟩, trivial⟩, ⟨rfl, rfl, rfl⟩,
    fun _ _ _ => .line rfl, ?_, ?_, ?_⟩
  · intro name member
    rw [mem_singleton.mp member, stands.agrees.visible]
    exact known.imp_right .inr
  · exact forall_mem_nil _
  · exact forall_mem_nil _
  · exact nodup_nil
  · exact fun names same => Sentence.noConfusion same
  · rw [next, ← append_assoc]
    exact written
  · exact stands.agrees.visible
  · exact stands.agrees.introduced

/-- A line that stores something. -/
theorem Stands.store {target : Place} {value : Computation}
    (reached : point.done ++ (NameUse.ofReads path value.operands ++
      NameUse.ofWrite path (some target)) <+: uses) :
    point.Leads plan outer path [.store ((isFirst plan target.text).run point.known).1 target value]
      (NameUse.ofReads path value.operands ++ NameUse.ofWrite path (some target)) point.count
      ((isFirst plan target.text).run point.known).2 := by
  rw [← append_assoc] at reached
  rw [run_isFirst]
  by_cases first : target.text ∈ plan.inline ∧ target.text ∉ point.known.introduced
  · rw [if_pos first]
    exact stands.storeFirst fits first.1 first.2 ((prefix_append _ _).trans reached)
  · rw [if_neg first]
    refine stands.storeLater fits (fun inline => ?_) reached
    exact Decidable.not_not.mp fun new => first ⟨inline, new⟩

end Lines

/-! ## Blocks -/

section Blocks

variable {uses now : List NameUse} {lines : List Sentence} {high : Nat} {inner : KnownNames}

/-- A line opens a block if it has no other effect. -/
def Opens (opener : Sentence) : Prop :=
  opener.onlyReads ∧
    ∀ surroundings : Surroundings, surroundings.after opener = surroundings.opened

/-- A line that opens a block binds nothing. -/
theorem Opens.inBlock {opener : Sentence} (opens : Opens opener) :
    opener.bound = [] ∧ ∀ spot, opener.spotBehind spot = spot.inBlock := by
  cases opener with
  | openIf | openWhile | openForever => exact ⟨rfl, fun _ => rfl⟩
  | openFunction =>
    cases congrArg (fun surroundings => surroundings.outer.length) (opens.2 {})
  | introduce | store => cases opens.1
  | _ => cases congrArg (·.body.around.length) (opens.2 (Surroundings.opened {}))

theorem visible_opened (surroundings : Surroundings) :
    surroundings.opened.visible = surroundings.visible := by
  simp [Surroundings.visible, Surroundings.opened, Surroundings.within, OpenBody.visible,
    OpenBody.openBlock]

/-- Inside of the block that a line opens. -/
theorem Stands.enter (stands : point.Stands plan outer path) (fits : plan.Fits outer uses)
    {opener : Sentence} (opens : Opens opener)
    (reached : point.done ++ NameUse.ofReads path opener.operands <+: uses) :
    opener.IsDeclaredIn point.surroundings ∧
      (point.next [opener] (NameUse.ofReads path opener.operands) (point.count + 1)
        point.known).Stands plan outer (path ++ [point.count + 1]) := by
  obtain ⟨only, after⟩ := opens
  obtain ⟨visible, progress⟩ := stands.reads fits reached
  have read : point.surroundings.afterAll [opener] = point.surroundings.opened := after _
  refine ⟨Sentence.isDeclaredIn_of_onlyReads only visible, progress.enter, ?_⟩
  rw [next, read]
  refine ⟨fun name => ?_, stands.agrees.introduced⟩
  rw [visible_opened]
  exact stands.agrees.visible name

/-- Closing a block leads back to the surroundings of the block, except for
what its body has introduced. -/
theorem closed_of_sameOutside {before inside : Surroundings}
    (outside : SameOutside before.opened inside) :
    SameOutside before inside.closed ∧ inside.closed.visible = before.visible ∧
      inside.closed.body.introduced = inside.body.introduced := by
  have closed : inside.closed = inside.within
      { inside.body with block := before.body.block, around := before.body.around } := by
    simp only [Surroundings.closed, outside.around]
    rfl
  rw [closed]
  refine ⟨⟨outside.outer, rfl, outside.parameters⟩, ?_, rfl⟩
  simp only [Surroundings.visible, Surroundings.within, OpenBody.visible, outside.outer,
    outside.parameters]
  rfl

theorem isDeclaredIn_close (surroundings : Surroundings) :
    Sentence.close.IsDeclaredIn surroundings :=
  Sentence.isDeclaredIn_of_onlyReads rfl (forall_mem_nil _)

/-- A block is opened, its lines are written, and it is closed. -/
theorem Stands.block (stands : point.Stands plan outer path) (fits : plan.Fits outer uses)
    {opener : Sentence} (opens : Opens opener)
    (reached : point.done ++ NameUse.ofReads path opener.operands <+: uses)
    (inside : (point.next [opener] (NameUse.ofReads path opener.operands) (point.count + 1)
      point.known).Leads plan outer (path ++ [point.count + 1]) lines now high inner)
    (stand : NameUse.StandIn (path ++ [point.count + 1]) high now) (ordered : point.count ≤ high) :
    point.Leads plan outer path ([opener] ++ lines ++ [.close])
      (NameUse.ofReads path opener.operands ++ now) high
      ⟨point.known.visible, inner.introduced⟩ := by
  obtain ⟨declared, _⟩ := stands.enter fits opens reached
  obtain ⟨_, progress⟩ := stands.reads fits reached
  have outside := inside.outside
  rw [next, show point.surroundings.afterAll [opener] = _ from opens.2 _] at outside
  obtain ⟨same, visible, introduced⟩ := closed_of_sameOutside outside
  have read : point.surroundings.afterAll ([opener] ++ lines ++ [.close]) =
      (point.surroundings.opened.afterAll lines).closed := by
    rw [afterAll_append, afterAll_append,
      show point.surroundings.afterAll [opener] = _ from opens.2 _]
    rfl
  obtain ⟨unbound, opened⟩ := opens.inBlock
  refine ⟨inside.stay.block fun spot => congrArg (·.blocks.tail) (opened spot), ?_, read ▸ same,
    fun name own inline => (inside.counts name own inline).block unbound opened, ?_, ?_⟩
  · rw [areDeclaredIn_append, areDeclaredIn_append]
    exact ⟨⟨⟨declared, trivial⟩, inside.declared⟩, isDeclaredIn_close _, trivial⟩
  · have left := progress.leave ordered inside.stands.progress stand
    rw [append_assoc] at left
    exact left
  · rw [next, read]
    refine ⟨fun name => ?_, fun name => ?_⟩
    · rw [visible]
      exact stands.agrees.visible name
    · rw [introduced]
      have agrees := inside.stands.agrees.introduced name
      rw [next, next, show point.surroundings.afterAll [opener] = _ from opens.2 _] at agrees
      exact agrees

/-- Between two blocks of a conditional the first is closed and the second is
opened. -/
theorem Leads.otherwise
    (leads : point.Leads plan outer path
      (first ++ [.close] ++ ([.openForever] ++ second ++ [.close])) now count known) :
    point.Leads plan outer path (first ++ [.openElse] ++ second ++ [.close]) now count known := by
  have read : point.surroundings.afterAll (first ++ [.openElse] ++ second ++ [.close]) =
      point.surroundings.afterAll
        (first ++ [.close] ++ ([.openForever] ++ second ++ [.close])) := by
    simp only [afterAll_append]
    rfl
  have passed (spot : Spot) : spotBehind spot (first ++ [.openElse] ++ second ++ [.close]) =
      spotBehind spot (first ++ [.close] ++ ([.openForever] ++ second ++ [.close])) := by
    simp only [spotBehind_append]
    rfl
  refine ⟨fun spot => passed spot ▸ leads.stay spot, ?_, read ▸ leads.outside,
    fun name own inline => ?_, ?_⟩
  · have declared := leads.declared
    simp only [areDeclaredIn_append, afterAll_append] at declared ⊢
    have between : Sentence.openElse.IsDeclaredIn (point.surroundings.afterAll first) :=
      Sentence.isDeclaredIn_of_onlyReads rfl (forall_mem_nil _)
    exact ⟨⟨⟨declared.1.1, between, trivial⟩, declared.2.1.2⟩, declared.2.2⟩
  · obtain ⟨counts, itself⟩ := leads.counts name own inline
    refine ⟨by simpa [Sentence.bound, Sentence.introduced] using counts, fun spot entry => ?_⟩
    have within := itself spot entry
    simp only [placed_append, mem_append, spotBehind_append] at within ⊢
    rintro (((early | between) | late) | last) bound
    · exact within (.inl (.inl early)) bound
    · rw [mem_singleton.mp between] at bound
      cases bound
    · exact within (.inr (.inl (.inr late))) bound
    · rw [mem_singleton.mp last] at bound
      cases bound
  · have stands := leads.stands
    rw [next, ← read] at stands
    exact stands

end Blocks

end Point

/-! ## Bodies -/

/-- Nothing of a body has been read, and the names are visible around it. -/
structure IsFresh (surroundings : Surroundings) (outer : List String) : Prop where
  visible : ∀ name, name ∈ surroundings.visible ↔ name ∈ outer
  introduced : surroundings.body.introduced = []
  isHead : surroundings.isHead

/-- Behind the line that introduces the hoisted names, if there is one. -/
def belowHead (plan : Introductions) (surroundings : Surroundings) : Surroundings :=
  if plan.hoisted.isEmpty then surroundings
  else surroundings.after (.introduce plan.hoisted)

section Bodies

variable {plan : Introductions} {outer : List String} {uses : List NameUse}
  {surroundings : Surroundings}

/-- Writer and reader agree at the head of a body. -/
theorem stands_belowHead (fresh : IsFresh surroundings outer) :
    Point.Stands ⟨[], 0, atHead plan outer, belowHead plan surroundings⟩ plan outer [] := by
  refine ⟨Progress.atHead plan outer, ?_, ?_⟩
  · intro name
    simp only [belowHead, atHead]
    split
    · rename_i none
      rw [List.isEmpty_iff.mp none, fresh.visible, nil_append]
    · have after : (surroundings.after (.introduce plan.hoisted)).visible =
          plan.hoisted ++ surroundings.visible := by
        simp [Surroundings.after, Surroundings.visible, Surroundings.within, OpenBody.visible,
          OpenBody.introduce, Sentence.introduced]
      rw [after, mem_append, mem_append, fresh.visible]
  · intro name
    simp only [belowHead, atHead]
    split
    · rename_i none
      rw [List.isEmpty_iff.mp none, fresh.introduced]
    · simp [Surroundings.after, Surroundings.within, OpenBody.introduce, Sentence.introduced,
        fresh.introduced]

theorem stay_headed {lines : Draft} (stay : Stay lines.sentences) (depth : Nat) :
    Stay (headed plan depth lines).sentences := by
  unfold headed
  split
  · exact stay
  · exact fun spot => stay spot

/-- The lines of a body are declared if the lines below its head are. -/
theorem areDeclaredIn_headed (fits : plan.Fits outer uses) (fresh : IsFresh surroundings outer)
    {depth : Nat} {lines : Draft} {now : List NameUse} {count : Nat} {known : KnownNames}
    (leads : Point.Leads ⟨[], 0, atHead plan outer, belowHead plan surroundings⟩ plan outer []
      lines.sentences now count known) :
    AreDeclaredIn surroundings (headed plan depth lines).sentences ∧
      SameOutside surroundings
        (surroundings.afterAll (headed plan depth lines).sentences) := by
  have declared := leads.declared
  have outside := leads.outside
  unfold headed
  unfold belowHead at declared outside
  split
  · rename_i none
    rw [if_pos none] at declared outside
    exact ⟨declared, outside⟩
  · rename_i some
    rw [if_neg some] at declared outside
    refine ⟨⟨⟨?_, ?_, ?_, ?_, fits.hoisted_nodup, fun _ _ => fresh.isHead⟩, declared⟩, ?_⟩
    · exact forall_mem_nil _
    · exact forall_mem_nil _
    · intro name member
      rw [fresh.visible]
      exact (fits.hoisted name member).1
    · rw [fresh.introduced]
      exact fun name member => not_mem_nil
    · have head : SameOutside surroundings (surroundings.after (.introduce plan.hoisted)) :=
        ⟨rfl, rfl, rfl⟩
      exact head.trans outside

end Bodies

end Emit

end BanglaScript
