import BanglaScript.Proofs.Script.Plan

/-!
# Progress through a body

While a body is written, the uses of names come in the order of the lines.  At
every point the uses are divided into those that are done and those to come.
The names that are introduced inline so far are the names of the uses that are
done, and they are visible wherever the block of their first use is open.
-/

namespace BanglaScript

open List

variable {use : NameUse}

namespace NameUse

/-! ## Uses of nodes -/

section Runs

variable (level : Nat) (path : List Nat) (condition : Operand) (body alternative : List Node)
  (count : Nat)

theorem run_ifThen :
    (ofNode level path (.ifThen condition body)).run count =
      let inside := (ofNodes level (path ++ [count + 1]) body).run (count + 1)
      (ofReads path [condition] ++ inside.1, inside.2) :=
  rfl

theorem run_ifElse :
    (ofNode level path (.ifElse condition body alternative)).run count =
      let inside := (ofNodes level (path ++ [count + 1]) body).run (count + 1)
      let otherwise := (ofNodes level (path ++ [inside.2 + 1]) alternative).run (inside.2 + 1)
      (ofReads path [condition] ++ inside.1 ++ otherwise.1, otherwise.2) :=
  rfl

theorem run_loop (before : List Node) :
    (ofNode level path (.loop before condition body)).run count =
      let inner := path ++ [count + 1]
      let first := (ofNodes level inner before).run (count + 1)
      let second := (ofNodes level inner body).run first.2
      (first.1 ++ ofReads (if before.isEmpty then path else inner) [condition] ++ second.1,
        second.2) :=
  rfl

theorem run_cons (first : Node) (rest : List Node) :
    (ofNodes level path (first :: rest)).run count =
      let head := (ofNode level path first).run count
      let tail := (ofNodes level path rest).run head.2
      (head.1 ++ tail.1, tail.2) :=
  rfl

end Runs

/-- Uses stand in a block, or inside of it, in blocks up to a number. -/
def StandIn (path : List Nat) (limit : Nat) (uses : List NameUse) : Prop :=
  ∀ use ∈ uses, path <+: use.path ∧ ∀ block ∈ use.path, block ≤ limit

namespace StandIn

variable {path : List Nat} {limit : Nat} {first second : List NameUse}

theorem append (firstStand : StandIn path limit first) (secondStand : StandIn path limit second) :
    StandIn path limit (first ++ second) :=
  forall_mem_append.mpr ⟨firstStand, secondStand⟩

theorem mono (stand : StandIn path limit first) {higher : Nat} (ordered : limit ≤ higher) :
    StandIn path higher first := fun use member =>
  ⟨(stand use member).1, fun block inside =>
    Nat.le_trans ((stand use member).2 block inside) ordered⟩

theorem outside {block : Nat} (stand : StandIn (path ++ [block]) limit first) :
    StandIn path limit first := fun use member =>
  ⟨(prefix_append path [block]).trans (stand use member).1, (stand use member).2⟩

theorem of_eq_path (inside : ∀ block ∈ path, block ≤ limit)
    (same : ∀ use ∈ first, use.path = path) : StandIn path limit first := by
  intro use member
  rw [same use member]
  exact ⟨prefix_rfl, inside⟩

end StandIn

theorem path_of_mem_ofReads {path : List Nat} {operands : List Operand}
    (member : use ∈ ofReads path operands) : use.path = path := by
  obtain ⟨_, _, rfl⟩ := mem_map.mp member
  rfl

theorem path_of_mem_ofWrite {path : List Nat} {target : Option Place}
    (member : use ∈ ofWrite path target) : use.path = path := by
  obtain ⟨_, _, rfl⟩ := mem_map.mp member
  rfl

theorem le_of_mem_append_singleton {path : List Nat} {limit : Nat}
    (inside : ∀ block ∈ path, block ≤ limit) :
    ∀ block ∈ path ++ [limit + 1], block ≤ limit + 1 :=
  forall_mem_append.mpr ⟨fun block before => Nat.le_succ_of_le (inside block before),
    forall_mem_singleton.mpr (Nat.le_refl _)⟩

mutual

/-- The uses of a node stand in the block of the node. -/
theorem standIn_ofNode (level : Nat) (node : Node) {path : List Nat} {count : Nat}
    (inside : ∀ block ∈ path, block ≤ count) :
    count ≤ ((ofNode level path node).run count).2 ∧
      StandIn path ((ofNode level path node).run count).2
        ((ofNode level path node).run count).1 := by
  have reads (operands : List Operand) : StandIn path count (ofReads path operands) :=
    .of_eq_path inside fun use member => path_of_mem_ofReads member
  cases node with
  | simple | call =>
    exact ⟨Nat.le_refl _, (reads _).append
      (.of_eq_path inside fun use member => path_of_mem_ofWrite member)⟩
  | ifThen condition body =>
    simp only [run_ifThen]
    obtain ⟨ordered, stand⟩ := standIn_ofNodes level body (le_of_mem_append_singleton inside)
    exact ⟨by omega, ((reads _).mono (by omega)).append stand.outside⟩
  | ifElse condition body alternative =>
    simp only [run_ifElse]
    obtain ⟨ordered, stand⟩ := standIn_ofNodes level body (le_of_mem_append_singleton inside)
    obtain ⟨_, elseStand⟩ := standIn_ofNodes level alternative
      (le_of_mem_append_singleton fun block member =>
        Nat.le_trans (inside block member) (Nat.le_of_succ_le ordered))
    exact ⟨by omega, (((reads _).mono (by omega)).append (stand.outside.mono (by omega))).append
      elseStand.outside⟩
  | loop before condition body =>
    simp only [run_loop]
    have entered := le_of_mem_append_singleton inside
    obtain ⟨ordered, stand⟩ := standIn_ofNodes level before entered
    obtain ⟨bodyOrdered, bodyStand⟩ := standIn_ofNodes level body fun block member =>
      Nat.le_trans (entered block member) ordered
    refine ⟨by omega, ((stand.outside.mono bodyOrdered).append ?_).append bodyStand.outside⟩
    split
    · exact (reads _).mono (by omega)
    · have test : StandIn (path ++ [count + 1]) (count + 1) (ofReads _ [condition]) :=
        .of_eq_path entered fun use member => path_of_mem_ofReads member
      exact test.outside.mono (by omega)
  | function name =>
    refine ⟨Nat.le_refl _, .of_eq_path inside fun use member => ?_⟩
    obtain ⟨_, _, rfl⟩ := mem_map.mp member
    rfl
  | unstructured => exact ⟨Nat.le_refl _, forall_mem_nil _⟩

theorem standIn_ofNodes (level : Nat) (nodes : List Node) {path : List Nat} {count : Nat}
    (inside : ∀ block ∈ path, block ≤ count) :
    count ≤ ((ofNodes level path nodes).run count).2 ∧
      StandIn path ((ofNodes level path nodes).run count).2
        ((ofNodes level path nodes).run count).1 := by
  cases nodes with
  | nil => exact ⟨Nat.le_refl _, forall_mem_nil _⟩
  | cons first rest =>
    rw [run_cons]
    obtain ⟨firstOrdered, firstStand⟩ := standIn_ofNode level first inside
    obtain ⟨restOrdered, restStand⟩ := standIn_ofNodes level rest fun block member =>
      Nat.le_trans (inside block member) firstOrdered
    exact ⟨Nat.le_trans firstOrdered restOrdered, (firstStand.mono restOrdered).append restStand⟩

end

end NameUse

/-! ## Names and uses -/

theorem NameUse.ofName_append (name : String) (first second : List NameUse) :
    ofName name (first ++ second) = ofName name first ++ ofName name second :=
  filter_append first second

/-- A use of another name does not count. -/
theorem NameUse.ofName_append_singleton {name : String} (different : use.name ≠ name)
    (uses : List NameUse) : ofName name (uses ++ [use]) = ofName name uses := by
  rw [ofName_append, ofName, ofName, filter_cons_of_neg (by simpa using different),
    filter_nil, append_nil]

theorem NameUse.mem_ofName {name : String} {uses : List NameUse} :
    use ∈ ofName name uses ↔ use ∈ uses ∧ use.name = name := by
  rw [ofName, mem_filter, decide_eq_true_eq]

/-- What is known at a point of a body, behind the uses that are done and inside
of the blocks of a path.  So far `count` blocks have been numbered. -/
structure Progress (plan : Introductions) (outer : List String) (done : List NameUse)
    (path : List Nat) (count : Nat) (known : KnownNames) : Prop where
  introduced : ∀ name, name ∈ known.introduced ↔
    name ∈ plan.hoisted ∨ name ∈ plan.inline ∧ NameUse.ofName name done ≠ []
  always : ∀ name, name ∈ outer ∨ name ∈ plan.hoisted → name ∈ known.visible
  inline : ∀ name ∈ plan.inline, ∀ first rest, NameUse.ofName name done = first :: rest →
    first.path <+: path → name ∈ known.visible
  visible : ∀ name ∈ known.visible, name ∈ outer ∨ name ∈ known.introduced
  numbers : ∀ use ∈ done, ∀ block ∈ use.path, block ≤ count
  inside : ∀ block ∈ path, block ≤ count

/-- A use that introduces no name. -/
def NameUse.IsPassive (use : NameUse) : Prop := ¬ (use.isWrite ∧ use.isDirect)

namespace Progress

open NameUse

variable {plan : Introductions} {outer : List String} {uses done now : List NameUse}
  {path : List Nat} {count : Nat} {known : KnownNames} {name : String}

/-- At the head of a body. -/
theorem atHead (plan : Introductions) (outer : List String) :
    Progress plan outer [] [] 0 (Emit.atHead plan outer) where
  introduced name := by simp [Emit.atHead, ofName]
  always name := by
    simp only [Emit.atHead, mem_append]
    exact Or.symm
  inline name member first rest found := by cases found
  visible name := by
    simp only [Emit.atHead, mem_append]
    exact Or.symm
  numbers := forall_mem_nil _
  inside := forall_mem_nil _

/-- More uses in the open block keep to the blocks that are numbered. -/
theorem numbers_append (progress : Progress plan outer done path count known)
    (stand : StandIn path count now) :
    ∀ use ∈ done ++ now, ∀ block ∈ use.path, block ≤ count :=
  forall_mem_append.mpr ⟨progress.numbers, fun use new => (stand use new).2⟩

/-- A single use in the open block stands in it. -/
theorem standIn_singleton (progress : Progress plan outer done path count known)
    (here : use.path = path) : StandIn path count [use] :=
  .of_eq_path progress.inside fun _ member => (mem_singleton.mp member) ▸ here

/-- A name that is introduced inline has been used before any passive use, and
the block of its first use is still open. -/
theorem exists_first (fits : plan.Fits outer uses) (reached : done ++ now <+: uses)
    (passive : ∀ use ∈ now, use.IsPassive) (inline : name ∈ plan.inline) (member : use ∈ now)
    (named : use.name = name) :
    ∃ first rest, ofName name done = first :: rest ∧ first.path <+: use.path := by
  obtain ⟨_, rfl⟩ := reached
  obtain ⟨_, first, _, all, isWrite, isDirect, extend⟩ := fits.inline name inline
  rw [ofName_append, ofName_append, append_assoc] at all
  have used : use ∈ ofName name now := mem_ofName.mpr ⟨member, named⟩
  cases before : ofName name done with
  | nil =>
    rw [before, nil_append] at all
    cases here : ofName name now with
    | nil =>
      rw [here] at used
      cases used
    | cons head =>
      rw [here, cons_append] at all
      have same : head = first := (List.cons.inj all).1
      have headMem : head ∈ ofName name now := here ▸ mem_cons_self
      exact absurd ⟨same ▸ isWrite, same ▸ isDirect⟩ (passive head (mem_ofName.mp headMem).1)
  | cons head tail =>
    rw [before, cons_append] at all
    obtain ⟨rfl, rfl⟩ := List.cons.inj all
    exact ⟨head, tail, rfl, extend use (by simp [used])⟩

variable (progress : Progress plan outer done path count known)

include progress

/-- If the first use of an inline name is not a new one, the name is visible where the
block of the use is open. -/
theorem inline_append {first : NameUse} {rest : List NameUse} (inline : name ∈ plan.inline)
    (found : ofName name (done ++ now) = first :: rest) (inPath : first.path <+: path)
    (old : ofName name done = [] → first ∈ now → first.name = name → False) :
    name ∈ known.visible := by
  rw [ofName_append] at found
  cases before : ofName name done with
  | nil =>
    rw [before, nil_append] at found
    obtain ⟨member, named⟩ := mem_ofName.mp (found ▸ mem_cons_self)
    exact (old before member named).elim
  | cons head tail =>
    rw [before, cons_append] at found
    obtain ⟨rfl, rfl⟩ := List.cons.inj found
    exact progress.inline name inline head tail before inPath

section

variable (fits : plan.Fits outer uses)

include fits

/-- Passive uses introduce nothing, and they use visible names. -/
theorem passive (reached : done ++ now <+: uses)
    (passive : ∀ use ∈ now, use.IsPassive) (stand : StandIn path count now) :
    Progress plan outer (done ++ now) path count known where
  introduced name := by
    rw [progress.introduced, ofName_append]
    refine or_congr_right (and_congr_right fun inline => ?_)
    constructor
    · intro used empty
      exact used (append_eq_nil_iff.mp empty).1
    · intro used empty
      rw [empty, nil_append] at used
      obtain ⟨_, member⟩ := exists_mem_of_ne_nil _ used
      obtain ⟨member, named⟩ := mem_ofName.mp member
      obtain ⟨first, rest, found, _⟩ := exists_first fits reached passive inline member named
      rw [found] at empty
      cases empty
  always := progress.always
  inline name inline first rest found inPath := by
    refine progress.inline_append inline found inPath fun unused member named => ?_
    obtain ⟨_, _, found, _⟩ := exists_first fits reached passive inline member named
    rw [unused] at found
    cases found
  visible := progress.visible
  numbers := progress.numbers_append stand
  inside := progress.inside

/-- A name that is used directly is visible, if it has been used where it is inline. -/
theorem mem_visible_of_mem (member : use ∈ uses) (direct : use.isDirect)
    (used : use.name ∈ plan.inline →
      ∃ first rest, ofName use.name done = first :: rest ∧ first.path <+: path) :
    use.name ∈ known.visible ∨ IsTruth use.name := by
  rcases fits.covers use member direct with outside | truth | hoisted | inline
  · exact .inl (progress.always _ (.inl outside))
  · exact .inr truth
  · exact .inl (progress.always _ (.inr hoisted))
  · obtain ⟨first, rest, found, inPath⟩ := used inline
    exact .inl (progress.inline _ inline first rest found inPath)

/-- A name that is directly used in a passive way is visible. -/
theorem mem_visible (reached : done ++ now <+: uses)
    (passive : ∀ use ∈ now, use.IsPassive) (member : use ∈ now) (direct : use.isDirect)
    (here : use.path = path) : use.name ∈ known.visible ∨ IsTruth use.name :=
  progress.mem_visible_of_mem fits (reached.subset (mem_append_right _ member)) direct
    fun inline => here ▸ exists_first fits reached passive inline member rfl

/-- The first write of an inline name introduces it. -/
theorem write_first (inline : name ∈ plan.inline) (new : name ∉ known.introduced) :
    name ∉ known.visible ∧
      Progress plan outer (done ++ [⟨name, path, true, true⟩]) path count
        ⟨name :: known.visible, name :: known.introduced⟩ := by
  refine ⟨fun member => ?_, ?_, ?_, ?_, ?_,
    progress.numbers_append (progress.standIn_singleton rfl), progress.inside⟩
  · rcases progress.visible name member with outside | introduced
    · exact (fits.inline name inline).1 outside
    · exact new introduced
  · intro other
    rw [mem_cons, progress.introduced]
    by_cases same : other = name
    · subst same
      simp [ofName, inline]
    · rw [ofName_append_singleton (Ne.symm same), or_iff_right same]
  · exact fun other known => mem_cons_of_mem _ (progress.always other known)
  · intro other otherInline first rest found inPath
    by_cases same : other = name
    · exact same ▸ mem_cons_self
    · rw [ofName_append_singleton (Ne.symm same)] at found
      exact mem_cons_of_mem _ (progress.inline other otherInline first rest found inPath)
  · exact forall_mem_cons.mpr ⟨.inr mem_cons_self, fun other old =>
      (progress.visible other old).imp_right (mem_cons_of_mem _)⟩

/-- Any other write is to a visible name. -/
theorem write_later (reached : done ++ [⟨name, path, true, true⟩] <+: uses)
    (old : name ∈ plan.inline → name ∈ known.introduced) :
    (name ∈ known.visible ∨ IsTruth name) ∧
      Progress plan outer (done ++ [⟨name, path, true, true⟩]) path count known := by
  have used (inline : name ∈ plan.inline) :
      ∃ first rest, ofName name done = first :: rest ∧ first.path <+: path := by
    have introduced := (progress.introduced name).mp (old inline)
    have before := introduced.resolve_left fun hoisted => (fits.hoisted name hoisted).2 inline
    obtain ⟨first, rest, found⟩ := exists_cons_of_ne_nil before.2
    obtain ⟨_, rfl⟩ := reached
    obtain ⟨_, head, tail, all, _, _, extend⟩ := fits.inline name inline
    rw [ofName_append, ofName_append, found] at all
    obtain ⟨rfl, rfl⟩ := List.cons.inj all
    exact ⟨first, rest, found, extend ⟨name, path, true, true⟩ (by simp [ofName])⟩
  refine ⟨?_, ?_, progress.always, ?_, progress.visible,
    progress.numbers_append (progress.standIn_singleton rfl), progress.inside⟩
  · exact progress.mem_visible_of_mem fits (reached.subset (mem_append_right _ mem_cons_self)) rfl
      used
  · intro other
    rw [progress.introduced]
    refine or_congr_right (and_congr_right fun inline => ?_)
    by_cases same : name = other
    · obtain ⟨first, rest, found, _⟩ := used (same ▸ inline)
      rw [← same, ofName_append, found]
      simp
    · rw [ofName_append_singleton same]
  · intro other inline first rest found inPath
    by_cases same : name = other
    · obtain ⟨head, tail, before, inPath⟩ := used (same ▸ inline)
      exact progress.inline other inline head tail (same ▸ before) inPath
    · rw [ofName_append_singleton same] at found
      exact progress.inline other inline first rest found inPath

end

/-- Into a new block. -/
theorem enter : Progress plan outer done (path ++ [count + 1]) (count + 1) known where
  introduced := progress.introduced
  always := progress.always
  inline name inline first rest found inPath := by
    refine progress.inline name inline first rest found ?_
    rcases prefix_concat_iff.mp inPath with whole | before
    · -- No earlier use stands in the new block.
      have member : first ∈ done := (mem_ofName.mp (found ▸ mem_cons_self)).1
      have bound := progress.numbers first member (count + 1) (by simp [whole])
      omega
    · exact before
  visible := progress.visible
  numbers use member block inPath := Nat.le_succ_of_le (progress.numbers use member block inPath)
  inside := le_of_mem_append_singleton progress.inside

/-- Out of a block: what it introduced is not visible any more. -/
theorem leave {block high : Nat} {inner : KnownNames} (ordered : count ≤ high)
    (inside : Progress plan outer (done ++ now) (path ++ [block]) high inner)
    (stand : StandIn (path ++ [block]) high now) :
    Progress plan outer (done ++ now) path high ⟨known.visible, inner.introduced⟩ where
  introduced := inside.introduced
  always := progress.always
  inline name inline first rest found inPath := by
    refine progress.inline_append inline found inPath fun _ member _ => ?_
    have longer := ((stand first member).1.trans inPath).length_le
    rw [length_append, length_singleton] at longer
    omega
  visible name member := by
    refine (progress.visible name member).imp_right fun introduced => ?_
    rcases (progress.introduced name).mp introduced with hoisted | ⟨inline, used⟩
    · exact (inside.introduced name).mpr (.inl hoisted)
    · refine (inside.introduced name).mpr (.inr ⟨inline, fun empty => used ?_⟩)
      rw [ofName_append] at empty
      exact (append_eq_nil_iff.mp empty).1
  numbers := inside.numbers
  inside number member := Nat.le_trans (progress.inside number member) ordered

end Progress

end BanglaScript
