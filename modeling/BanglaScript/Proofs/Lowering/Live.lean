import BanglaScript.Proofs.Lowering.Names
import BanglaScript.Token.Lexeme

/-!
# Names of live variables

While a program is lowered, scopes are opened and left and variables are declared
in them.  A variable of an open scope is live.  It has kept its name, or it has got
a fresh name because it hides another one, or it is a parameter in its slot.

The names of live variables differ from each other with one exception: a variable
that the program calls like a slot can meet the parameter in that slot.  The slots
of an outermost function have no dollar sign, so there the plain name is enough;
further inside the number of its fresh name has to be the depth of the function.
-/

namespace BanglaScript

open List Naming

/-! ## The spelling of names -/

variable {name : String}

namespace Naming

theorem renamed_inj {first second : String} {firstCount secondCount : Nat}
    (firstWord : '$' ∉ first.toList) (secondWord : '$' ∉ second.toList) :
    renamed first firstCount = renamed second secondCount ↔
      first = second ∧ firstCount = secondCount := by
  refine ⟨fun same => ?_, fun same => by rw [same.1, same.2]⟩
  have counts := renamed_injective firstWord secondWord same
  have letters : first.toList = second.toList := by
    have lists := congrArg String.toList same
    rw [counts, toList_renamed, toList_renamed] at lists
    exact append_cancel_right lists
  exact ⟨String.toList_inj.mp letters, counts⟩

theorem dollar_notMem_slotName (index : Nat) : '$' ∉ (slotName 0 index).toList := by
  rw [toList_slotName, mem_append, not_or]
  refine ⟨by decide, fun member => ?_⟩
  exact absurd (Nat.isDigit_of_mem_toDigits (by decide) (by decide) member) (by decide)

theorem slotName_inj {depth otherDepth index otherIndex : Nat} :
    slotName depth index = slotName otherDepth otherIndex ↔
      depth = otherDepth ∧ index = otherIndex := by
  have outermost {index otherIndex : Nat} (same : slotName 0 index = slotName 0 otherIndex) :
      index = otherIndex := by
    have lists := congrArg String.toList same
    rw [toList_slotName, toList_slotName] at lists
    exact toDigits_injective (append_cancel_left lists)
  refine ⟨fun same => ?_, fun same => by rw [same.1, same.2]⟩
  by_cases inside : depth = 0 <;> by_cases otherInside : otherDepth = 0
  · rw [inside, otherInside] at same
    exact ⟨inside.trans otherInside.symm, outermost same⟩
  · rw [inside, slotName_eq_renamed otherInside] at same
    exact absurd same.symm (renamed_ne (dollar_notMem_slotName _) _)
  · rw [otherInside, slotName_eq_renamed inside] at same
    exact absurd same (renamed_ne (dollar_notMem_slotName _) _)
  · rw [slotName_eq_renamed inside, slotName_eq_renamed otherInside,
      renamed_inj (dollar_notMem_slotName _) (dollar_notMem_slotName _)] at same
    exact ⟨same.2, outermost same.1⟩

/-- A word is the name of a slot only in an outermost function. -/
theorem eq_slotName_iff (word : '$' ∉ name.toList) {depth index : Nat} :
    name = slotName depth index ↔ depth = 0 ∧ name = slotName 0 index := by
  by_cases inside : depth = 0
  · simp [inside]
  · refine ⟨fun same => ?_, fun same => absurd same.1 inside⟩
    rw [slotName_eq_renamed inside] at same
    exact absurd same.symm (renamed_ne word _)

/-- A fresh name is the name of a slot only if its number is the depth. -/
theorem renamed_eq_slotName_iff (word : '$' ∉ name.toList) {count : Nat} (counted : count ≠ 0)
    {depth index : Nat} :
    renamed name count = slotName depth index ↔ depth = count ∧ name = slotName 0 index := by
  by_cases inside : depth = 0
  · subst inside
    refine ⟨fun same => absurd same (renamed_ne (dollar_notMem_slotName _) _), fun same => ?_⟩
    exact absurd same.1.symm counted
  · rw [slotName_eq_renamed inside, renamed_inj word (dollar_notMem_slotName _), and_comm,
      eq_comm (a := count)]

end Naming

/-! ## Where a name comes from -/

/-- How a live variable came to its name in the lowered program. -/
inductive Origin where
  | kept (name : String)
  /-- The variable hides another one; fresh names are numbered in order. -/
  | fresh (name : String) (count : Nat)
  /-- The function stands inside of `depth` others. -/
  | parameter (name : String) (depth index : Nat)
deriving DecidableEq

namespace Origin

/-- The name in the program. -/
def source : Origin → String
  | kept name | fresh name _ | parameter name _ _ => name

/-- The name in the lowered program. -/
def lowered : Origin → String
  | kept name => name
  | fresh name count => Naming.renamed name count
  | parameter _ depth index => slotName depth index

/-- The variable in its scope. -/
def entry (origin : Origin) : String × String := (origin.source, origin.lowered)

/-- The program calls the first variable like a slot, and this is the slot of the second. -/
def MeetsSlot : Origin → Origin → Prop
  | kept name, parameter _ depth index => depth = 0 ∧ name = slotName 0 index
  | fresh name count, parameter _ depth index => depth = count ∧ name = slotName 0 index
  | _, _ => False

/-- Both are parameters with the same slot. -/
def SharesSlot : Origin → Origin → Prop
  | parameter _ depth index, parameter _ otherDepth otherIndex =>
    depth = otherDepth ∧ index = otherIndex
  | _, _ => False

/-- Declared names are words, and fresh names are numbered from 1 on. -/
def IsProper (renames : Nat) : Origin → Prop
  | kept name => '$' ∉ name.toList
  | fresh name count => '$' ∉ name.toList ∧ count ≠ 0 ∧ count ≤ renames
  | parameter _ _ _ => True

/-- A later variable keeps its name only if no other one has it, and gets a fresh name
with a larger number. -/
def ComesAfter : Origin → Origin → Prop
  | kept name, earlier => earlier.source ≠ name
  | fresh _ count, fresh _ earlierCount => earlierCount < count
  | _, _ => True

theorem IsProper.mono {origin : Origin} {first second : Nat} (proper : origin.IsProper first)
    (grows : first ≤ second) : origin.IsProper second := by
  cases origin with
  | kept => exact proper
  | fresh => exact ⟨proper.1, proper.2.1, Nat.le_trans proper.2.2 grows⟩
  | parameter => trivial

/-- Two live variables have the same name exactly if one is called like the slot of the
other or they share a slot. -/
theorem lowered_eq_iff {later earlier : Origin} {renames : Nat} (proper : later.IsProper renames)
    (earlierProper : earlier.IsProper renames) (after : later.ComesAfter earlier) :
    later.lowered = earlier.lowered ↔
      later.MeetsSlot earlier ∨ earlier.MeetsSlot later ∨ later.SharesSlot earlier := by
  cases later with
  | kept =>
    cases earlier with
    | kept => simpa [lowered, MeetsSlot, SharesSlot] using fun same => after same.symm
    | fresh other count =>
      simpa [lowered, MeetsSlot, SharesSlot] using fun same =>
        renamed_ne proper count (Eq.symm same)
    | parameter =>
      simpa [lowered, MeetsSlot, SharesSlot] using eq_slotName_iff proper
  | fresh name count =>
    cases earlier with
    | kept =>
      simpa [lowered, MeetsSlot, SharesSlot] using renamed_ne earlierProper count
    | fresh other earlierCount =>
      have different : count ≠ earlierCount := Nat.ne_of_gt after
      simpa [lowered, MeetsSlot, SharesSlot] using fun same =>
        different (renamed_injective proper.1 earlierProper.1 same)
    | parameter =>
      simpa [lowered, MeetsSlot, SharesSlot] using
        renamed_eq_slotName_iff proper.1 proper.2.1
  | parameter name depth index =>
    cases earlier with
    | kept =>
      simpa [lowered, MeetsSlot, SharesSlot, eq_comm] using
        eq_slotName_iff earlierProper
    | fresh other count =>
      have met := @renamed_eq_slotName_iff other earlierProper.1 count
        earlierProper.2.1 depth index
      simpa [lowered, MeetsSlot, SharesSlot, eq_comm] using met
    | parameter =>
      simpa [lowered, MeetsSlot, SharesSlot] using slotName_inj

end Origin

/-! ## Calls -/

/-- A call that changes which names are in use. -/
inductive NamingCall where
  | openScope
  | closeScope
  | openFunction (parameters : List String)
  | closeFunction
  | declare (name : String)
deriving DecidableEq

/-- The variables of an open scope, the latest first. -/
structure LiveScope where
  isFunction : Bool
  origins : List Origin
deriving DecidableEq

/-- The names in use, with the open scopes from the innermost outwards. -/
structure NamingRun where
  naming : Naming := {}
  scopes : List LiveScope := []
deriving DecidableEq

variable {scopes : List LiveScope}

namespace NamingRun

/-- All live variables, the latest first. -/
def live (run : NamingRun) : List Origin := run.scopes.flatMap LiveScope.origins

/-- The origin of a variable that is declared now. -/
def originOf (naming : Naming) (name : String) : Origin :=
  if (naming.bound? name).isSome then .fresh name (naming.renames + 1) else .kept name

/-- The parameters of a function inside of `depth` others. -/
def parameterOrigins (depth : Nat) (parameters : List String) : List Origin :=
  (parameters.zipIdx.map fun entry => .parameter entry.1 depth entry.2).reverse

/-- One more variable in the innermost scope, if there is one. -/
def addOrigin (origin : Origin) : List LiveScope → List LiveScope
  | [] => []
  | scope :: outer => { scope with origins := origin :: scope.origins } :: outer

/-- Behind one more call. -/
def after (run : NamingRun) : NamingCall → NamingRun
  | .openScope => ⟨run.naming.openScope, ⟨false, []⟩ :: run.scopes⟩
  | .closeScope => ⟨run.naming.closeScope, run.scopes.tail⟩
  | .openFunction parameters =>
    ⟨run.naming.openFunction parameters,
      ⟨true, parameterOrigins run.naming.functions parameters⟩ :: run.scopes⟩
  | .closeFunction => ⟨run.naming.closeFunction, run.scopes.tail⟩
  | .declare name =>
    ⟨(run.naming.declare name).2, addOrigin (originOf run.naming name) run.scopes⟩

/-- All of the calls, before which no scope is open. -/
def ofCalls (calls : List NamingCall) : NamingRun := calls.foldl after {}

/-- A scope is left by the call that belongs to it. -/
def fits (run : NamingRun) : NamingCall → Bool
  | .closeScope => run.scopes.head?.any fun scope => ¬ scope.isFunction
  | .closeFunction => run.scopes.head?.any fun scope => scope.isFunction
  | _ => true

/-- Every scope is left by the call that belongs to it. -/
def areNested (run : NamingRun) : List NamingCall → Bool
  | [] => true
  | call :: rest => run.fits call && (run.after call).areNested rest

/-! ## What a call keeps -/

/-- The live variables are those of the names in use, and no later one takes the name of
an earlier one. -/
structure IsSound (run : NamingRun) : Prop where
  scopes : run.naming.scopes = run.scopes.map fun scope => scope.origins.map Origin.entry
  proper : ∀ origin ∈ run.live, origin.IsProper run.naming.renames
  ordered : run.live.Pairwise Origin.ComesAfter

namespace IsSound

variable {run : NamingRun}

theorem entries_eq (sound : run.IsSound) : run.naming.entries = run.live.map Origin.entry := by
  rw [Naming.entries, sound.scopes, live, flatMap_def, map_flatten, map_map]
  rfl

theorem start : IsSound {} :=
  ⟨rfl, forall_mem_nil _, .nil⟩

variable (sound : run.IsSound)

include sound

/-- Leaving the innermost scope. -/
theorem leave {naming : Naming} (scopes : naming.scopes = run.naming.scopes.tail)
    (renames : naming.renames = run.naming.renames) : IsSound ⟨naming, run.scopes.tail⟩ := by
  have sublist : (run.scopes.tail.flatMap LiveScope.origins).Sublist run.live := by
    unfold live
    cases run.scopes with
    | nil => exact List.Sublist.refl _
    | cons => exact sublist_append_right _ _
  refine ⟨?_, fun origin member => ?_, sound.ordered.sublist sublist⟩
  · rw [scopes, sound.scopes, map_tail]
  · exact renames ▸ sound.proper origin (sublist.subset member)

/-- Opening the scope of a function. -/
theorem openFunction (parameters : List String) :
    (run.after (.openFunction parameters)).IsSound := by
  have isParameter (origin : Origin)
      (member : origin ∈ parameterOrigins run.naming.functions parameters) :
      ∃ name depth index, origin = .parameter name depth index := by
    obtain ⟨entry, _, rfl⟩ := mem_map.mp (mem_reverse.mp member)
    exact ⟨_, _, _, rfl⟩
  refine ⟨?_, fun origin member => ?_, pairwise_append.mpr ⟨?_, sound.ordered, ?_⟩⟩
  · change Naming.parameterScope _ _ :: run.naming.scopes =
      (parameterOrigins _ _).map Origin.entry :: _
    rw [sound.scopes, parameterOrigins, map_reverse, map_map]
    rfl
  · rcases mem_append.mp member with new | old
    · obtain ⟨_, _, _, rfl⟩ := isParameter origin new
      trivial
    · exact sound.proper origin old
  · refine pairwise_reverse.mpr (pairwise_map.mpr ?_)
    exact pairwise_of_forall fun _ _ => trivial
  · intro later member _ _
    obtain ⟨_, _, _, rfl⟩ := isParameter later member
    trivial

/-- A variable that is declared now comes after all live ones. -/
theorem comesAfter_originOf (name : String) {earlier : Origin}
    (member : earlier ∈ run.live) : (originOf run.naming name).ComesAfter earlier := by
  unfold originOf
  split
  case isTrue hidden =>
    cases earlier with
    | fresh => exact Nat.lt_succ_of_le (sound.proper _ member).2.2
    | kept | parameter => trivial
  case isFalse unbound =>
    have free : run.naming.bound? name = none := Option.not_isSome_iff_eq_none.mp unbound
    have entered : earlier.entry ∈ run.naming.entries :=
      sound.entries_eq ▸ mem_map_of_mem member
    exact ne_of_bound?_eq_none free entered

theorem declare (word : '$' ∉ name.toList) : (run.after (.declare name)).IsSound := by
  have entry : (originOf run.naming name).entry = (name, (run.naming.declare name).1) := by
    unfold originOf Naming.declare
    cases run.naming.bound? name <;> rfl
  obtain ⟨grows, _⟩ := declare_named run.naming name
  have newProper : (originOf run.naming name).IsProper (run.naming.declare name).2.renames := by
    unfold originOf
    split
    case isTrue hidden =>
      rw [renames_declare, if_pos hidden]
      exact ⟨word, Nat.succ_ne_zero _, Nat.le_refl _⟩
    case isFalse => exact word
  cases opened : run.scopes with
  | nil =>
    have unscoped : run.naming.scopes = [] := by rw [sound.scopes, opened, map_nil]
    have nothing : (run.after (.declare name)).scopes = [] := by
      change addOrigin _ run.scopes = []
      rw [opened]
      rfl
    have empty : (run.after (.declare name)).live = [] := by rw [live, nothing, flatMap_nil]
    refine ⟨?_, by simp [empty], by simp [empty]⟩
    rw [nothing]
    simp [NamingRun.after, Naming.declare, Naming.bound?, Naming.bind, unscoped]
  | cons =>
    have added : (run.after (.declare name)).live = originOf run.naming name :: run.live := by
      simp [live, after, opened, addOrigin]
    refine ⟨?_, ?_, ?_⟩
    · have before := sound.scopes
      rw [opened, map_cons] at before
      simp only [after, opened, addOrigin, map_cons, entry]
      exact scopes_declare before name
    · rw [added, forall_mem_cons]
      exact ⟨newProper, fun origin member => (sound.proper origin member).mono grows⟩
    · rw [added, pairwise_cons]
      exact ⟨fun earlier => sound.comesAfter_originOf name, sound.ordered⟩

/-- Every call keeps the live variables apart. -/
theorem after {call : NamingCall}
    (word : ∀ name, call = .declare name → '$' ∉ name.toList) : (run.after call).IsSound := by
  cases call with
  | openScope => exact ⟨congrArg ([] :: ·) sound.scopes, sound.proper, sound.ordered⟩
  | closeScope | closeFunction => exact sound.leave rfl rfl
  | openFunction parameters => exact sound.openFunction parameters
  | declare name => exact sound.declare (word name rfl)

end IsSound

theorem isSound_foldl {calls : List NamingCall} {run : NamingRun} (sound : run.IsSound)
    (words : ∀ name, .declare name ∈ calls → '$' ∉ name.toList) :
    (calls.foldl after run).IsSound := by
  induction calls generalizing run with
  | nil => exact sound
  | cons call rest ih =>
    refine ih (sound.after ?_) fun name member => words name (mem_cons_of_mem _ member)
    rintro name rfl
    exact words name mem_cons_self

/-! ## Nested scopes -/

/-- The number of functions that are open. -/
def openFunctions (scopes : List LiveScope) : Nat := scopes.countP LiveScope.isFunction

/-- Parameters stand in the scopes of functions and know how many functions are around
theirs. -/
def AreLevelled : List LiveScope → Prop
  | [] => True
  | scope :: outer =>
    (∀ name depth index, .parameter name depth index ∈ scope.origins →
      scope.isFunction ∧ depth = openFunctions outer) ∧
    (scope.origins.Pairwise fun later earlier => ¬ later.SharesSlot earlier) ∧
    AreLevelled outer

theorem lt_openFunctions (levelled : AreLevelled scopes) {depth index : Nat}
    (member : .parameter name depth index ∈ scopes.flatMap LiveScope.origins) :
    depth < openFunctions scopes := by
  induction scopes with
  | nil => cases member
  | cons scope outer ih =>
    rw [openFunctions, countP_cons]
    rcases mem_append.mp member with here | there
    · obtain ⟨isFunction, rfl⟩ := levelled.1 name depth index here
      rw [if_pos isFunction]
      exact Nat.lt_succ_self _
    · exact Nat.lt_of_lt_of_le (ih levelled.2.2 there) (Nat.le_add_right _ _)

theorem pairwise_of_areLevelled (levelled : AreLevelled scopes) :
    (scopes.flatMap LiveScope.origins).Pairwise fun later earlier =>
      ¬ later.SharesSlot earlier := by
  induction scopes with
  | nil => exact .nil
  | cons scope outer ih =>
    obtain ⟨levels, here, outerLevelled⟩ := levelled
    refine pairwise_append.mpr ⟨here, ih outerLevelled, ?_⟩
    intro later laterMember earlier earlierMember shares
    cases later with
    | kept | fresh => exact shares
    | parameter =>
      cases earlier with
      | kept | fresh => exact shares
      | parameter =>
        have inner := (levels _ _ _ laterMember).2
        have outside := lt_openFunctions outerLevelled earlierMember
        have same := shares.1
        omega

theorem openFunctions_addOrigin (origin : Origin) (scopes : List LiveScope) :
    openFunctions (addOrigin origin scopes) = openFunctions scopes := by
  cases scopes <;> rfl

/-- A declared variable takes no slot. -/
theorem AreLevelled.addOrigin (levelled : AreLevelled scopes) (naming : Naming) (name : String) :
    AreLevelled (NamingRun.addOrigin (originOf naming name) scopes) := by
  have isVariable (other : String) (depth index : Nat) :
      .parameter other depth index ≠ originOf naming name := by
    unfold originOf
    split <;> nofun
  have apart (earlier : Origin) : ¬ (originOf naming name).SharesSlot earlier := by
    unfold originOf
    split <;> exact id
  cases scopes with
  | nil => trivial
  | cons =>
    obtain ⟨levels, here, outerLevelled⟩ := levelled
    refine ⟨fun other depth index member => ?_, pairwise_cons.mpr ⟨?_, here⟩, outerLevelled⟩
    · have old := (mem_cons.mp member).resolve_left (isVariable other depth index)
      exact levels other depth index old
    · exact fun earlier _ => apart earlier

/-- Functions are counted by the scopes that are open. -/
structure IsLevelled (run : NamingRun) : Prop where
  functions : run.naming.functions = openFunctions run.scopes
  levels : AreLevelled run.scopes

theorem functions_declare (naming : Naming) (name : String) :
    (naming.declare name).2.functions = naming.functions := by
  rw [Naming.declare_snd]

namespace IsLevelled

variable {run : NamingRun}

theorem openFunction (levelled : run.IsLevelled) (parameters : List String) :
    (run.after (.openFunction parameters)).IsLevelled := by
  refine ⟨?_, ?_, ?_, levelled.levels⟩
  · change run.naming.functions + 1 = _
    rw [levelled.functions]
    exact (countP_cons_of_pos rfl).symm
  · intro name depth index member
    obtain ⟨_, _, same⟩ := mem_map.mp (mem_reverse.mp member)
    cases same
    exact ⟨rfl, levelled.functions⟩
  · have indices : (parameters.zipIdx.map Prod.snd).Pairwise (· < ·) := by
      rw [zipIdx_map_snd]
      exact pairwise_lt_range'
    refine pairwise_reverse.mpr (pairwise_map.mpr ?_)
    refine (pairwise_map.mp indices).imp fun less shares => ?_
    exact absurd shares.2 (Nat.ne_of_gt less)

/-- A call that fits keeps the count of functions. -/
theorem after (levelled : run.IsLevelled) {call : NamingCall} (fitting : run.fits call) :
    (run.after call).IsLevelled := by
  obtain ⟨naming, scopes⟩ := run
  obtain ⟨functions, levels⟩ := levelled
  cases call with
  | openScope =>
    refine ⟨functions, ?_, .nil, levels⟩
    exact fun _ _ _ member => absurd member not_mem_nil
  | openFunction parameters => exact openFunction ⟨functions, levels⟩ parameters
  | declare name =>
    exact ⟨(functions_declare naming name).trans
      (functions.trans (openFunctions_addOrigin _ scopes).symm), levels.addOrigin naming name⟩
  | closeScope =>
    cases scopes with
    | nil => cases fitting
    | cons scope =>
      have block : ¬ scope.isFunction := by simpa [fits] using fitting
      refine ⟨functions.trans ?_, levels.2.2⟩
      exact countP_cons_of_neg block
  | closeFunction =>
    cases scopes with
    | nil => cases fitting
    | cons scope outer =>
      have isFunction : scope.isFunction := by simpa [fits] using fitting
      refine ⟨?_, levels.2.2⟩
      change naming.functions - 1 = openFunctions outer
      rw [functions, openFunctions, countP_cons_of_pos isFunction]
      rfl

end IsLevelled

theorem isLevelled_foldl {calls : List NamingCall} {run : NamingRun} (levelled : run.IsLevelled)
    (nested : run.areNested calls) : (calls.foldl after run).IsLevelled := by
  induction calls generalizing run with
  | nil => exact levelled
  | cons call rest ih =>
    rw [areNested, Bool.and_eq_true] at nested
    exact ih (levelled.after nested.1) nested.2

end NamingRun

/-! ## Live variables -/

/-- After any calls the scopes in use hold the live variables with their names.  Two of
these names are the same exactly if a variable is called like the slot of a parameter, or
if two parameters share a slot; and no two parameters do if every scope is left by the call
that belongs to it. -/
theorem lowered_eq_iff_meetsSlot {calls : List NamingCall}
    (words : ∀ name, .declare name ∈ calls → '$' ∉ name.toList) :
    (NamingRun.ofCalls calls).naming.entries =
        (NamingRun.ofCalls calls).live.map Origin.entry ∧
      ((NamingRun.ofCalls calls).live.Pairwise fun later earlier =>
        later.lowered = earlier.lowered ↔
          later.MeetsSlot earlier ∨ earlier.MeetsSlot later ∨ later.SharesSlot earlier) ∧
      (NamingRun.areNested {} calls →
        (NamingRun.ofCalls calls).live.Pairwise fun later earlier =>
          ¬ later.SharesSlot earlier) := by
  have sound : (NamingRun.ofCalls calls).IsSound := NamingRun.isSound_foldl .start words
  refine ⟨sound.entries_eq, ?_, fun nested => ?_⟩
  · refine sound.ordered.imp_of_mem fun laterMember earlierMember after => ?_
    exact Origin.lowered_eq_iff (sound.proper _ laterMember) (sound.proper _ earlierMember) after
  · have levelled : (NamingRun.ofCalls calls).IsLevelled :=
      NamingRun.isLevelled_foldl ⟨rfl, trivial⟩ nested
    exact NamingRun.pairwise_of_areLevelled levelled.levels

/-- Functions inside of each other have parameters and variables of the same name. -/
def crowded : List NamingCall :=
  [.openScope, .declare "x", .openFunction ["x", "y"], .openScope, .declare "x",
    .openFunction ["x"], .openScope, .declare "y"]

/-- All of these variables are live, and their names differ. -/
theorem lowered_eq_iff_crowded :
    NamingRun.areNested {} crowded ∧
      (NamingRun.ofCalls crowded).live = [.fresh "y" 2, .parameter "x" 1 0, .fresh "x" 1,
        .parameter "y" 0 1, .parameter "x" 0 0, .kept "x"] ∧
      (NamingRun.ofCalls crowded).naming.entries = [("y", "y$2"), ("x", "param0$1"), ("x", "x$1"),
        ("y", "param1"), ("x", "param0"), ("x", "x")] ∧
      ((NamingRun.ofCalls crowded).live.Pairwise fun later earlier =>
        later.lowered = earlier.lowered ↔
          later.MeetsSlot earlier ∨ earlier.MeetsSlot later ∨ later.SharesSlot earlier) ∧
      (NamingRun.ofCalls crowded).live.Pairwise fun later earlier =>
        ¬ later.SharesSlot earlier := by
  have words : ∀ name, .declare name ∈ crowded → '$' ∉ name.toList := by
    intro name member
    simp only [crowded, mem_cons, NamingCall.declare.injEq, reduceCtorEq, not_mem_nil,
      false_or, or_false] at member
    rcases member with rfl | rfl | rfl <;> decide
  obtain ⟨entries, names, apart⟩ := lowered_eq_iff_meetsSlot words
  have nested : NamingRun.areNested {} crowded := by decide
  exact ⟨nested, by decide, entries.trans (by decide), names, apart nested⟩

/-- A variable that is called like the slot of an outermost function. -/
def callingSlot : List NamingCall := [.openScope, .declare "param0", .openFunction ["x"]]

/-- A variable whose fresh name is that of a slot inside of another function. -/
def callingInnerSlot : List NamingCall :=
  [.openScope, .declare "param0", .openScope, .declare "param0", .openFunction [], .openScope,
    .openFunction ["x"]]

/-- Live variables can have the same name, although all names are identifiers and scopes are
left in order: a parameter meets a variable of the surrounding scope. -/
theorem not_nodup_callingSlot :
    Lexeme.read 'p' "aram0".toList =
        .ok ⟨.identifier, some (.word "param0"), "param0".toList⟩ ∧
      (NamingRun.areNested {} callingSlot ∧
        (NamingRun.ofCalls callingSlot).naming.entries =
          [("x", "param0"), ("param0", "param0")] ∧
        ¬ ((NamingRun.ofCalls callingSlot).naming.entries.map Prod.snd).Nodup) ∧
      NamingRun.areNested {} callingInnerSlot ∧
        (NamingRun.ofCalls callingInnerSlot).naming.entries =
          [("x", "param0$1"), ("param0", "param0$1"), ("param0", "param0")] ∧
        ¬ ((NamingRun.ofCalls callingInnerSlot).naming.entries.map Prod.snd).Nodup := by
  refine ⟨rfl, ?_⟩
  decide

end BanglaScript
