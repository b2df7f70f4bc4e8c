import BanglaScript.Proofs.Script.Surroundings

/-!
# Which binding a name refers to

A name is bound by the line that introduces it, be it by `let` or as the
parameter of a function, and the binding holds in the block of that line.  A use
of the name refers to the binding of the innermost open block that has one.  So
bindings are told apart by the numbers of their lines.

In a script whose lines are all declared, a name that is used has a binding.  If
only one line binds the name, then all of its uses refer to this one.
-/

namespace BanglaScript

open List

variable {surroundings : Surroundings} {sentence : Sentence}

namespace Sentence

/-- The names that a line reads or writes. -/
def used (sentence : Sentence) : List String := sentence.reads ++ sentence.writes

/-- The names that a line binds. -/
def bound : Sentence → List String
  | .openFunction _ parameters => parameters
  | sentence => sentence.introduced

end Sentence

/-- The innermost of several blocks is closed.  The outermost one stays. -/
def closeInnermost {Block : Type} : List Block → List Block
  | _ :: next :: around => next :: around
  | blocks => blocks

/-- The open blocks, from the innermost outwards.  Each has the names that are
bound in it with the numbers of the lines that bind them. -/
abbrev OpenBlocks := List (List (String × Nat))

namespace OpenBlocks

/-- The line whose binding a name refers to. -/
def binding? (blocks : OpenBlocks) (name : String) : Option Nat :=
  blocks.findSome? fun block => block.lookup name

/-- Names are bound in the innermost block. -/
def bind (blocks : OpenBlocks) (names : List String) (line : Nat) : OpenBlocks :=
  blocks.modifyHead fun block => names.map (·, line) ++ block

/-- Behind a line with a number. -/
def after (blocks : OpenBlocks) (line : Nat) : Sentence → OpenBlocks
  | .openIf _ | .openWhile _ | .openForever => [] :: blocks
  | .openElse => [] :: closeInnermost blocks
  | .close => closeInnermost blocks
  | .openFunction _ parameters => bind ([] :: blocks) parameters line
  | sentence => blocks.bind sentence.introduced line

/-- The blocks that are open behind the first lines of a script. -/
def behind (sentences : List Sentence) : Nat → OpenBlocks
  | 0 => [[]]
  | line + 1 =>
    match sentences[line]? with
    | some sentence => (behind sentences line).after line sentence
    | none => behind sentences line

end OpenBlocks

/-- The line whose binding a name refers to on a line.  A line that introduces a
name refers to its own binding. -/
def bindingOn? (sentences : List Sentence) (line : Nat) (name : String) : Option Nat :=
  (OpenBlocks.behind sentences (line + 1)).binding? name

/-- Wherever the name is used, it refers to the same binding. -/
def RefersToOne (sentences : List Sentence) (name : String) : Prop :=
  ∃ origin, ∀ ⦃line : Nat⦄ ⦃sentence : Sentence⦄, sentences[line]? = some sentence →
    name ∈ sentence.used → bindingOn? sentences line name = some origin

/-! ## Visible names have bindings -/

namespace OpenBody

/-- The names of blocks from the inside outwards.  The parameters belong to the
outermost block. -/
def joined (parameters block : List String) : List (List String) → List (List String)
  | [] => [block ++ parameters]
  | next :: around => block :: joined parameters next around

/-- The names of the open blocks of a body. -/
def blocks (body : OpenBody) : List (List String) :=
  joined body.parameters body.block body.around

theorem flatten_joined (parameters block : List String) (around : List (List String)) :
    (joined parameters block around).flatten = block ++ around.flatten ++ parameters := by
  induction around generalizing block with
  | nil => simp [joined]
  | cons next around ih => simp [joined, ih]

/-- There is always a block outside of which nothing is closed. -/
theorem closeInnermost_cons_joined (innermost parameters block : List String)
    (around outside : List (List String)) :
    closeInnermost (innermost :: (joined parameters block around ++ outside)) =
      joined parameters block around ++ outside := by
  cases around <;> rfl

end OpenBody

namespace Surroundings

/-- The names of all open blocks. -/
def blocks (surroundings : Surroundings) : List (List String) :=
  surroundings.body.blocks ++ surroundings.outer.flatMap OpenBody.blocks

theorem flatten_blocks (surroundings : Surroundings) :
    surroundings.blocks.flatten = surroundings.visible := by
  have inBody (body : OpenBody) : body.blocks.flatten = body.visible :=
    OpenBody.flatten_joined body.parameters body.block body.around
  rw [blocks, visible, flatten_append, inBody, flatMap_def, flatten_flatten, map_map, flatMap_def]
  congr 2
  exact map_congr_left fun body _ => inBody body

theorem blocks_closed (surroundings : Surroundings) :
    surroundings.closed.blocks = closeInnermost surroundings.blocks := by
  obtain ⟨⟨parameters, _, block, around⟩, outer, _⟩ := surroundings
  cases around with
  | cons next around =>
    exact (OpenBody.closeInnermost_cons_joined block parameters next around _).symm
  | nil =>
    cases outer with
    | nil => rfl
    | cons body =>
      exact (OpenBody.closeInnermost_cons_joined _ body.parameters body.block body.around
        _).symm

theorem blocks_introduce (surroundings : Surroundings) (names : List String) :
    (surroundings.within (surroundings.body.introduce names)).blocks =
      surroundings.blocks.modifyHead (names ++ ·) := by
  obtain ⟨⟨_, _, _, around⟩, _, _⟩ := surroundings
  cases around <;> simp [blocks, OpenBody.blocks, within, OpenBody.introduce, OpenBody.joined]

end Surroundings

namespace OpenBlocks

variable {name : String} {line origin : Nat} {entry : String × Nat} {sentences : List Sentence}

/-- The names that are bound in the blocks. -/
def names (blocks : OpenBlocks) : List (List String) := blocks.map fun block => block.map Prod.fst

theorem names_closeInnermost (blocks : OpenBlocks) :
    names (closeInnermost blocks) = closeInnermost blocks.names := by
  rcases blocks with _ | ⟨block, _ | ⟨next, around⟩⟩ <;> rfl

theorem names_bind (blocks : OpenBlocks) (bound : List String) (line : Nat) :
    (blocks.bind bound line).names = blocks.names.modifyHead (bound ++ ·) := by
  cases blocks <;> simp [bind, names, Function.comp_def]

variable {blocks : OpenBlocks}

/-- Both ways to read a line see the same names. -/
theorem names_after (same : blocks.names = surroundings.blocks) (line : Nat) (sentence : Sentence) :
    (blocks.after line sentence).names = (surroundings.after sentence).blocks := by
  cases sentence with
  | openIf | openWhile | openForever => exact congrArg ([] :: ·) same
  | openElse =>
    have closed := (names_closeInnermost blocks).trans (congrArg closeInnermost same)
    exact congrArg ([] :: ·) (closed.trans surroundings.blocks_closed.symm)
  | close =>
    rw [after, names_closeInnermost, same]
    exact surroundings.blocks_closed.symm
  | openFunction name parameters =>
    rw [after, names_bind]
    simp only [names, map_cons, map_nil, modifyHead_cons, append_nil]
    exact congrArg (parameters :: ·) same
  | _ =>
    rw [after, names_bind, same]
    · exact (surroundings.blocks_introduce _).symm
    all_goals nofun

theorem names_behind (sentences : List Sentence) (line : Nat) :
    (behind sentences line).names =
      (Surroundings.afterAll {} (sentences.take line)).blocks := by
  induction line with
  | zero => rfl
  | succ line ih =>
    rw [behind, take_add_one, Surroundings.afterAll_append]
    cases sentences[line]? with
    | none => exact ih
    | some sentence => exact names_after ih line sentence

/-- A name that is bound in some block refers to a binding. -/
theorem exists_binding? (member : name ∈ blocks.names.flatten) :
    ∃ origin, blocks.binding? name = some origin := by
  apply Option.isSome_iff_exists.mp
  apply Option.isSome_iff_ne_none.mpr
  intro missing
  rw [binding?, findSome?_eq_none_iff] at missing
  obtain ⟨_, blockMem, nameMem⟩ := mem_flatten.mp member
  obtain ⟨block, inBlocks, rfl⟩ := mem_map.mp blockMem
  obtain ⟨entry, entryMem, rfl⟩ := mem_map.mp nameMem
  have different := lookup_eq_none_iff.mp (missing block inBlocks) entry entryMem
  simp at different

/-- What is bound behind a line was bound before, or the line binds it. -/
theorem mem_after (member : entry ∈ (blocks.after line sentence).flatten) :
    entry ∈ blocks.flatten ∨ entry.1 ∈ sentence.bound ∧ entry.2 = line := by
  have onClosing {entry : String × Nat} (stays : entry ∈ (closeInnermost blocks).flatten) :
      entry ∈ blocks.flatten := by
    rcases blocks with _ | ⟨block, _ | ⟨next, around⟩⟩
    · exact stays
    · exact stays
    · exact mem_append_right block stays
  have onBinding {blocks : OpenBlocks} {names : List String}
      (bound : entry ∈ (blocks.bind names line).flatten) :
      entry ∈ blocks.flatten ∨ entry.1 ∈ names ∧ entry.2 = line := by
    rcases blocks with _ | ⟨block, around⟩
    · exact .inl bound
    · rcases mem_append.mp bound with inBlock | outside
      · rcases mem_append.mp inBlock with new | old
        · obtain ⟨name, nameMem, rfl⟩ := mem_map.mp new
          exact .inr ⟨nameMem, rfl⟩
        · exact .inl (mem_append_left _ old)
      · exact .inl (mem_append_right block outside)
  cases sentence with
  | openIf | openWhile | openForever => exact .inl member
  | openElse | close => exact .inl (onClosing member)
  | openFunction name parameters => exact @onBinding ([] :: blocks) parameters member
  | _ => exact onBinding member

/-- Every binding comes from a line that binds the name. -/
theorem exists_bound_of_mem (member : entry ∈ (behind sentences line).flatten) :
    ∃ sentence, sentences[entry.2]? = some sentence ∧ entry.1 ∈ sentence.bound := by
  induction line with
  | zero => cases member
  | succ line ih =>
    rw [behind] at member
    cases found : sentences[line]? with
    | none =>
      rw [found] at member
      exact ih member
    | some sentence =>
      rw [found] at member
      rcases mem_after member with older | ⟨bound, rfl⟩
      · exact ih older
      · exact ⟨sentence, found, bound⟩

theorem mem_of_binding? (found : blocks.binding? name = some origin) :
    (name, origin) ∈ blocks.flatten := by
  obtain ⟨block, blockMem, looked⟩ := exists_of_findSome?_eq_some found
  obtain ⟨_, _, split, _⟩ := lookup_eq_some_iff.mp looked
  exact mem_flatten.mpr
    ⟨block, blockMem, split ▸ mem_append_right _ mem_cons_self⟩

/-- The line that a name refers to binds it. -/
theorem exists_bound_of_binding? (found : (behind sentences line).binding? name = some origin) :
    ∃ sentence, sentences[origin]? = some sentence ∧ name ∈ sentence.bound :=
  exists_bound_of_mem (mem_of_binding? found)

end OpenBlocks

/-! ## Names with one binding -/

/-- What a line uses is visible behind it. -/
theorem Surroundings.mem_visible_after {name : String} (used : name ∈ sentence.used)
    (known : name ∈ surroundings.visible ∨ name ∈ sentence.introduced) :
    name ∈ (surroundings.after sentence).visible := by
  have onReading (names : List String) :
      (surroundings.within (surroundings.body.introduce names)).visible =
        names ++ surroundings.visible := by
    simp [visible, within, OpenBody.visible, OpenBody.introduce]
  have onOpening : surroundings.opened.visible = surroundings.visible := by
    simp [visible, opened, within, OpenBody.visible, OpenBody.openBlock]
  cases sentence with
  | openIf | openWhile =>
    rw [after, onOpening]
    exact known.resolve_right not_mem_nil
  | introduce | openForever | openElse | close | openFunction | comment => cases used
  | _ =>
    rw [after, onReading]
    · exact mem_append.mpr known.symm
    all_goals nofun

/-- Every line is declared where it stands. -/
theorem AreDeclaredIn.isDeclaredIn {sentences : List Sentence}
    (declared : AreDeclaredIn surroundings sentences) {line : Nat}
    (found : sentences[line]? = some sentence) :
    sentence.IsDeclaredIn (surroundings.afterAll (sentences.take line)) := by
  obtain ⟨inside, rfl⟩ := List.getElem?_eq_some_iff.mp found
  rw [← take_append_drop line sentences, drop_eq_getElem_cons inside,
    areDeclaredIn_append] at declared
  exact declared.2.1

/-- A name that a line uses refers to some binding there. -/
theorem AreDeclaredIn.exists_bindingOn? {sentences : List Sentence}
    (declared : AreDeclaredIn {} sentences) {name : String} (notTruth : ¬ IsTruth name) {line : Nat}
    (found : sentences[line]? = some sentence) (used : name ∈ sentence.used) :
    ∃ origin, bindingOn? sentences line name = some origin := by
  have isDeclared := declared.isDeclaredIn found
  have known : name ∈ (Surroundings.afterAll {} (sentences.take line)).visible ∨
      name ∈ sentence.introduced := by
    rcases mem_append.mp used with read | written
    · exact .inl ((isDeclared.reads name read).resolve_right notTruth)
    · rcases isDeclared.writes name written with visible | introduced | truth
      · exact .inl visible
      · exact .inr introduced
      · exact absurd truth notTruth
  apply OpenBlocks.exists_binding?
  rw [OpenBlocks.names_behind, Surroundings.flatten_blocks, take_add_one, found,
    Surroundings.afterAll_append]
  exact Surroundings.mem_visible_after used known

/-- Where at most one element has a property, two that have it are the same. -/
theorem eq_of_countP_le_one {Element : Type} {holds : Element → Bool} {list : List Element}
    (once : list.countP holds ≤ 1) {first second : Nat} {here there : Element}
    (firstFound : list[first]? = some here) (secondFound : list[second]? = some there)
    (firstHolds : holds here = true) (secondHolds : holds there = true) : first = second := by
  induction list generalizing first second with
  | nil => cases firstFound
  | cons head rest ih =>
    have later {position : Nat} {element : Element} (found : rest[position]? = some element)
        (elementHolds : holds element = true) (headHolds : holds head = true) : False := by
      have positive := countP_pos_iff.mpr ⟨element, mem_of_getElem? found, elementHolds⟩
      rw [countP_cons_of_pos headHolds] at once
      omega
    rcases first with _ | first <;> rcases second with _ | second
    · rfl
    · cases firstFound
      exact (later secondFound secondHolds firstHolds).elim
    · cases secondFound
      exact (later firstFound firstHolds secondHolds).elim
    · have fewer := (sublist_cons_self head rest).countP_le (p := holds)
      exact congrArg (· + 1) (ih (Nat.le_trans fewer once) firstFound secondFound)

/-- If at most one line binds a name, all lines that use the name refer to one
binding. -/
theorem refersToOne_of_countP_le_one {sentences : List Sentence}
    (declared : AreDeclaredIn {} sentences) {name : String} (notTruth : ¬ IsTruth name)
    (once : sentences.countP (fun sentence => name ∈ sentence.bound) ≤ 1) :
    RefersToOne sentences name := by
  by_cases isUsed : ∃ (line : Nat) (sentence : Sentence), sentences[line]? = some sentence ∧
      name ∈ sentence.used
  · obtain ⟨_, _, firstFound, firstUsed⟩ := isUsed
    obtain ⟨origin, binding⟩ := declared.exists_bindingOn? notTruth firstFound firstUsed
    obtain ⟨_, originFound, originBinds⟩ := OpenBlocks.exists_bound_of_binding? binding
    refine ⟨origin, fun line sentence found used => ?_⟩
    obtain ⟨_, otherBinding⟩ := declared.exists_bindingOn? notTruth found used
    obtain ⟨_, otherFound, otherBinds⟩ := OpenBlocks.exists_bound_of_binding? otherBinding
    have same := eq_of_countP_le_one once otherFound originFound (decide_eq_true otherBinds)
      (decide_eq_true originBinds)
    rw [otherBinding, same]
  · exact ⟨0, fun line sentence found used => absurd ⟨line, sentence, found, used⟩ isUsed⟩

end BanglaScript
