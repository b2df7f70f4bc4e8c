import BanglaScript.Proofs.Script.Scoped

/-!
# Scopes and stores side by side

Two parts of a run are alike if they end in the same way, print the same and come
to related states.  Scopes are related to a store if every visible name has the
same value in the innermost scope that knows it as in the store.  Which names a
scope has, and which of them have got a value, is kept beside this: a name that a
block is going to introduce has no value in the scope of the block until then.
-/

namespace BanglaScript

open List Function Option

/-! ## Effects side by side -/

namespace Effect

variable {First Second Value : Type}

/-- Two parts of a run end in the same way and print the same.  If they go on,
or leave a loop, their states are related. -/
structure Alike (onward left : First → Second → Prop) (first : Effect First Value)
    (second : Effect Second Value) : Prop where
  ending : first.ending = second.ending
  output : first.output = second.output
  onward : first.ending = .onward → onward first.state second.state
  left : first.ending = .left → left first.state second.state

namespace Alike

variable {onward onward' left left' : First → Second → Prop} {first : Effect First Value}
  {second : Effect Second Value}

theorem goOn {state : First} {other : Second} (related : onward state other) :
    Alike onward left (goOn state : Effect First Value) (goOn other) :=
  ⟨rfl, rfl, fun _ => related, nofun⟩

theorem stop {ending : Ending} (state : First) (other : Second) (notOnward : ending ≠ .onward)
    (related : ending = .left → left state other) :
    Alike onward left (stop ending state : Effect First Value) (stop ending other) :=
  ⟨rfl, rfl, fun goesOn => absurd goesOn notOnward, related⟩

theorem printing (alike : Alike onward left first second) (output : List Value) :
    Alike onward left (first.printing output) (second.printing output) :=
  ⟨alike.ending, congrArg (output ++ ·) alike.output, alike.onward, alike.left⟩

theorem andThen (alike : Alike onward left first second) {next : First → Effect First Value}
    {other : Second → Effect Second Value}
    (nextAlike : ∀ state store, onward state store →
      Alike onward' left (next state) (other store)) :
    Alike onward' left (first.andThen next) (second.andThen other) := by
  obtain ⟨ending, state, output⟩ := first
  obtain ⟨_, store, _⟩ := second
  obtain ⟨rfl, rfl, related, leftRelated⟩ := alike
  cases ending with
  | onward => exact (nextAlike state store (related rfl)).printing output
  | left | returned | exhausted | failed => exact ⟨rfl, rfl, nofun, leftRelated⟩

/-- Rounds that are alike make loops that are alike, which are never left by
more than the loop. -/
theorem loop {round : First → Effect First Value} {other : Second → Effect Second Value}
    (roundAlike : ∀ state store, onward state store →
      Alike onward onward (round state) (other store))
    (rounds : Nat) {state : First} {store : Second} (related : onward state store) :
    Alike onward left (loop round rounds state) (loop other rounds store) := by
  induction rounds generalizing state store with
  | zero => exact .stop state store (by decide) (by rintro ⟨⟩)
  | succ rounds ih =>
    have alike := roundAlike state store related
    rw [Effect.loop, Effect.loop]
    generalize round state = first at alike
    generalize other store = second at alike
    obtain ⟨ending, _, output⟩ := first
    obtain ⟨_, _, _⟩ := second
    obtain ⟨rfl, rfl, goesOn, leaves⟩ := alike
    cases ending with
    | onward => exact (ih (goesOn rfl)).printing output
    | left => exact ⟨rfl, rfl, fun _ => leaves rfl, by rintro ⟨⟩⟩
    | returned | exhausted | failed => exact ⟨rfl, rfl, by rintro ⟨⟩, by rintro ⟨⟩⟩

end Alike

theorem andThen_assoc (first : Effect First Value) (next last : First → Effect First Value) :
    (first.andThen next).andThen last = first.andThen fun state => (next state).andThen last := by
  obtain ⟨ending, state, output⟩ := first
  cases ending with
  | onward =>
    change ((next state).printing output).andThen last =
      ((next state).andThen last).printing output
    generalize next state = second
    obtain ⟨secondEnding, _, _⟩ := second
    cases secondEnding with
    | onward => simp only [andThen, printing, append_assoc]
    | _ => rfl
  | _ => rfl

end Effect

/-! ## Scopes -/

/-- Whether a scope has a name, and whether the name has a value in it. -/
abbrev ScopeOutline := String → Option Bool

/-- Names of a scope have got their values. -/
def ScopeOutline.giving (outline : ScopeOutline) (names : List String) : ScopeOutline := fun name =>
  if name ∈ names then some true else outline name

namespace ScopeOutline

/-- None of the names of a block has a value at first. -/
def pending (names : List String) : ScopeOutline := fun name =>
  if name ∈ names then some false else none

/-- Other names are never in the scope of the block. -/
theorem giving_pending_of_notMem {names given : List String} (subset : given ⊆ names)
    {name : String} (other : name ∉ names) : (pending names).giving given name = none := by
  rw [giving, if_neg fun member => other (subset member), pending, if_neg other]

theorem giving_nil (outline : ScopeOutline) : outline.giving [] = outline := by
  funext name
  exact if_neg not_mem_nil

theorem giving_singleton {outline : ScopeOutline} {name : String}
    (given : outline name = some true) :
    outline.giving [name] = outline := by
  funext other
  unfold giving
  split
  case isTrue same => rw [mem_singleton.mp same, given]
  case isFalse => rfl

theorem giving_append (outline : ScopeOutline) (first second : List String) :
    outline.giving (first ++ second) = (outline.giving first).giving second := by
  funext name
  simp only [giving, mem_append]
  grind

end ScopeOutline

namespace ScopeStack

variable {Value : Type} {name : String}

/-- The outline of a single scope. -/
def outlineOf (scope : BlockScope Value) : ScopeOutline := fun name =>
  (scope name).map Option.isSome

/-- The outlines of all scopes. -/
def outline (scopes : ScopeStack Value) : List ScopeOutline := scopes.map outlineOf

theorem value?_cons (scope : BlockScope Value) (scopes : ScopeStack Value) (name : String) :
    value? (scope :: scopes) name = (scope name).getD (value? scopes name) := by
  rw [value?, findSome?_cons]
  cases scope name with
  | none | some => rfl

/-- A name that the innermost scope does not have is looked up further out. -/
theorem value?_tail {scopes : ScopeStack Value} {inner : ScopeOutline} {outer : List ScopeOutline}
    (outlined : scopes.outline = inner :: outer) (absent : inner name = none) :
    value? scopes.tail name = scopes.value? name := by
  obtain ⟨_, _, rfl, rfl, rfl⟩ := map_eq_cons_iff.mp outlined
  rw [value?_cons, map_eq_none_iff.mp absent]
  rfl

theorem outlineOf_fresh (names : List String) :
    outlineOf (fresh names : BlockScope Value) = .pending names := by
  funext name
  unfold outlineOf fresh ScopeOutline.pending
  split <;> rfl

/-! Writing a name of the innermost scope. -/

theorem outlineOf_update (scope : BlockScope Value) (name : String) (value : Value) :
    outlineOf (Function.update scope name (some (some value))) =
      (outlineOf scope).giving [name] := by
  funext other
  by_cases same : other = name
  · rw [same, outlineOf, update_self, ScopeOutline.giving, if_pos mem_cons_self]
    rfl
  · rw [outlineOf, update_of_ne same, ScopeOutline.giving, if_neg (by simpa using same)]
    rfl

theorem value?_update_cons (scope : BlockScope Value) (scopes : ScopeStack Value) (name : String)
    (value : Value) :
    value? (Function.update scope name (some (some value)) :: scopes) =
      Function.update (value? (scope :: scopes)) name (some value) := by
  funext other
  by_cases same : other = name
  · rw [same, value?_cons, update_self, update_self, getD_some]
  · rw [value?_cons, update_of_ne same, update_of_ne same, value?_cons]

/-- A name that has a value can be written. -/
theorem assign?_of_value? {scopes : ScopeStack Value} {old : Value}
    (found : scopes.value? name = some old) (value : Value) :
    ∃ changed, scopes.assign? name value = some changed ∧ changed.outline = scopes.outline ∧
      changed.value? = Function.update scopes.value? name (some value) := by
  induction scopes with
  | nil => cases found
  | cons scope outer ih =>
    rw [value?_cons] at found
    cases here : scope name with
    | none =>
      rw [here, getD_none] at found
      obtain ⟨changed, assigned, outlined, values⟩ := ih found
      refine ⟨scope :: changed, ?_, congrArg (_ :: ·) outlined, funext fun other => ?_⟩
      · simp only [assign?, here, assigned, map_some]
      · rw [value?_cons, values]
        by_cases same : other = name
        · rw [same, here, getD_none, update_self, update_self]
        · rw [update_of_ne same, update_of_ne same, value?_cons]
    | some =>
      rw [here, getD_some] at found
      subst found
      have given : outlineOf scope name = some true := by rw [outlineOf, here]; rfl
      refine ⟨Function.update scope name (some (some value)) :: outer, ?_, ?_,
        value?_update_cons scope outer name value⟩
      · simp only [assign?, here]
      · rw [outline, map_cons, outlineOf_update, ScopeOutline.giving_singleton given]
        rfl

/-- A name of the innermost scope that has no value can get its first one. -/
theorem introduce?_of_pending {scopes : ScopeStack Value} {inner : ScopeOutline}
    {outer : List ScopeOutline} (outlined : scopes.outline = inner :: outer)
    (pending : inner name = some false) (value : Value) :
    ∃ changed, scopes.introduce? name value = some changed ∧
      changed.outline = inner.giving [name] :: outer ∧
      changed.value? = Function.update scopes.value? name (some value) := by
  obtain ⟨scope, rest, rfl, rfl, rfl⟩ := map_eq_cons_iff.mp outlined
  have here : scope name = some none := by
    rw [outlineOf] at pending
    cases cell : scope name with
    | none => simp [cell] at pending
    | some => simpa [cell] using pending
  refine ⟨Function.update scope name (some (some value)) :: rest, ?_, ?_,
    value?_update_cons scope rest name value⟩
  · simp only [introduce?, here]
  · rw [outline, map_cons, outlineOf_update]

/-! ## Scopes and stores -/

/-- The scopes have outlines, and the visible names have the values of a store. -/
structure Shows (visible : List String) (outlines : List ScopeOutline) (scopes : ScopeStack Value)
    (store : NamedStore Value) : Prop where
  outline : scopes.outline = outlines
  value : ∀ name, name ∈ visible ∨ IsTruth name → scopes.value? name = some (store name)

namespace Shows

variable {visible names : List String} {outer : List ScopeOutline} {scopes : ScopeStack Value}
  {store : NamedStore Value} {meaning : Meaning Value} {seen given : List String}

/-- A name has been written. -/
theorem write (shows : Shows visible outer scopes store) {changed : ScopeStack Value}
    {outlines : List ScopeOutline} {value : Value} (outlined : changed.outline = outlines)
    (values : changed.value? = Function.update scopes.value? name (some value)) :
    Shows (name :: visible) outlines changed (Function.update store name value) := by
  refine ⟨outlined, fun other seen => ?_⟩
  rw [values]
  by_cases same : other = name
  · rw [same, update_self, update_self]
  · rw [update_of_ne same, update_of_ne same]
    exact shows.value other
      (seen.imp_left fun member => (mem_cons.mp member).resolve_left same)

theorem mono (shows : Shows names outer scopes store) (subset : visible ⊆ names) :
    Shows visible outer scopes store :=
  ⟨shows.outline, fun name seen => shows.value name (seen.imp_left (subset ·))⟩

/-- The scope of a new block hides no visible name. -/
theorem enter (shows : Shows visible outer scopes store)
    (hidden : ∀ name ∈ names, name ∉ visible ∧ ¬ IsTruth name) :
    Shows visible (.pending names :: outer) (fresh names :: scopes) store := by
  refine ⟨?_, fun name seen => ?_⟩
  · rw [ScopeStack.outline, map_cons, outlineOf_fresh]
    exact congrArg _ shows.outline
  · have other : name ∉ names := fun member =>
      seen.elim (hidden name member).1 (hidden name member).2
    rw [value?_cons, fresh, if_neg other]
    exact shows.value name seen

/-- Behind a block its names are gone, and the names before it have their values
still. -/
theorem leave (shows : Shows seen ((ScopeOutline.pending names).giving given :: outer) scopes store)
    (hidden : ∀ name ∈ names, name ∉ visible ∧ ¬ IsTruth name) (stillSeen : visible ⊆ seen)
    (own : given ⊆ names) : Shows visible outer scopes.tail store := by
  refine ⟨?_, fun name old => ?_⟩
  · rw [ScopeStack.outline, map_tail]
    exact congrArg List.tail shows.outline
  · have other : name ∉ names := fun member =>
      old.elim (hidden name member).1 (hidden name member).2
    rw [value?_tail shows.outline (ScopeOutline.giving_pending_of_notMem own other)]
    exact shows.value name (old.imp_left (stillSeen ·))

/-- What is alike inside of a block is alike with the block around it. -/
theorem alike_inBlock (shows : Shows visible outer scopes store)
    (hidden : ∀ name ∈ names, name ∉ visible ∧ ¬ IsTruth name) (stillSeen : visible ⊆ seen)
    (own : given ⊆ names) {left : ScopeStack Value → NamedStore Value → Prop}
    {inside : ScopeStack Value → Effect (ScopeStack Value) Value}
    {effect : Effect (NamedStore Value) Value}
    (alike : ∀ inner, Shows visible (.pending names :: outer) inner store →
      Effect.Alike (Shows seen ((ScopeOutline.pending names).giving given :: outer))
        (fun inner store => left inner.tail store) (inside inner) effect) :
    Effect.Alike (Shows visible outer) left (Act.inBlock names inside scopes) effect := by
  have result := alike _ (shows.enter hidden)
  exact ⟨result.ending, result.output,
    fun goesOn => (result.onward goesOn).leave hidden stillSeen own, result.left⟩

/-! ### Values and lines -/

theorem ofStored? (shows : Shows visible outer scopes store) (meaning : Meaning Value)
    {operand : Operand}
    (seen : ∀ name ∈ operand.storage?, name ∈ visible ∨ IsTruth name) :
    meaning.ofStored? scopes.value? operand = some (meaning.ofStored store operand) := by
  cases operand with
  | «variable» name => exact shows.value name (seen name rfl)
  | temporary => exact shows.value _ (seen _ rfl)
  | number | string => rfl

/-- Both go the same way at a condition. -/
theorem alike_choose (shows : Shows visible outer scopes store) {condition : Operand}
    (seen : ∀ name ∈ condition.storage?, name ∈ visible ∨ IsTruth name)
    {onward left : ScopeStack Value → NamedStore Value → Prop}
    {whenTrue whenFalse : Effect (ScopeStack Value) Value}
    {flatTrue flatFalse : Effect (NamedStore Value) Value}
    (alikeTrue : Effect.Alike onward left whenTrue flatTrue)
    (alikeFalse : Effect.Alike onward left whenFalse flatFalse) :
    Effect.Alike onward left (scopes.choose meaning condition whenTrue whenFalse)
      (if meaning.isTrue (meaning.ofStored store condition) then flatTrue else flatFalse) := by
  rw [ScopeStack.choose, shows.ofStored? meaning seen]
  dsimp only
  cases meaning.isTrue (meaning.ofStored store condition) with
  | true => exact alikeTrue
  | false => exact alikeFalse

section Lines

variable {inner : ScopeOutline} {left : ScopeStack Value → NamedStore Value → Prop}

/-- A line that stores a value writes the name of its target, be it new or not. -/
theorem alike_store (shows : Shows visible (inner :: outer) scopes store) {isLet : Bool}
    {target : Place} {value : Computation} {result : Value}
    (fits : (Sentence.store isLet target value).IsScopedIn visible)
    (pending : ∀ name ∈ (Sentence.store isLet target value).introduced, inner name = some false)
    (computed : meaning.ofWritten? scopes.value? value = some result) :
    let new := (Sentence.store isLet target value).introduced
    Effect.Alike (Shows (new ++ visible) (inner.giving new :: outer)) left
      ((Sentence.store isLet target value).run meaning scopes)
      (.goOn (Function.update store target.text result)) := by
  cases isLet with
  | true =>
    obtain ⟨changed, initialized, outlined, values⟩ :=
      introduce?_of_pending shows.outline (pending target.text mem_cons_self) result
    simp only [Sentence.run, computed, bind_eq_bind, bind_some, if_true, initialized]
    exact .goOn (shows.write outlined values)
  | false =>
    have seen : target.text ∈ visible ∨ IsTruth target.text :=
      (fits.writes target.text mem_cons_self).imp_right (·.resolve_left not_mem_nil)
    obtain ⟨_, assigned, outlined, values⟩ :=
      assign?_of_value? (shows.value target.text seen) result
    simp only [Sentence.run, computed, bind_eq_bind, bind_some,
      Bool.false_eq_true, if_false, assigned]
    refine .goOn ((shows.write (outlined.trans shows.outline) values).mono ?_)
    exact subset_cons_self _ _

/-- Hoisted names get the value of what has never been written. -/
theorem alike_introduce (shows : Shows visible (inner :: outer) scopes store)
    (pending : ∀ name ∈ names, inner name = some false) (nodup : names.Nodup)
    (unwritten : ∀ name ∈ names, store name = meaning.undefined) :
    Effect.Alike (Shows (names ++ visible) (inner.giving names :: outer)) left
      ((Sentence.introduce names).run meaning scopes) (.goOn store) := by
  have introduced : ∃ changed,
      names.foldlM (fun scopes name => scopes.introduce? name meaning.undefined) scopes =
        some changed ∧ Shows (names ++ visible) (inner.giving names :: outer) changed store := by
    induction names generalizing visible inner scopes with
    | nil => exact ⟨scopes, rfl, inner.giving_nil.symm ▸ shows⟩
    | cons name rest ih =>
      obtain ⟨notLater, restNodup⟩ := nodup_cons.mp nodup
      obtain ⟨changed, initialized, outlined, values⟩ := introduce?_of_pending shows.outline
        (pending name mem_cons_self) meaning.undefined
      have first := shows.write outlined values
      rw [← unwritten name mem_cons_self, update_eq_self] at first
      have restPending : ∀ other ∈ rest, inner.giving [name] other = some false := by
        intro other member
        have different : other ∉ [name] := fun same =>
          notLater (mem_singleton.mp same ▸ member)
        rw [ScopeOutline.giving, if_neg different]
        exact pending other (mem_cons_of_mem name member)
      obtain ⟨result, folded, shown⟩ := ih first restPending restNodup fun other member =>
        unwritten other (mem_cons_of_mem name member)
      refine ⟨result, ?_, ?_⟩
      · rw [foldlM_cons, initialized]
        exact folded
      · rw [← singleton_append, ScopeOutline.giving_append]
        exact shown.mono fun other member => by grind
  obtain ⟨_, folded, shown⟩ := introduced
  rw [Sentence.run, folded]
  exact .goOn shown

end Lines

end Shows

end ScopeStack

end BanglaScript
