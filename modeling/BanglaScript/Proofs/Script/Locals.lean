import BanglaScript.Proofs.Lowering.Locals
import BanglaScript.Proofs.Script.Functions

/-!
# Bindings of local variables

A line of a script that uses the name of a variable refers to a binding in the
outermost body around it that uses the name itself.  So the binding belongs to the
function that declares the variable exactly if this function uses the name and no
body around the function does.  A variable that hides another one has a fresh name.
It is used only inside of its function, and never bound around it.
-/

namespace BanglaScript

open Eventful List

namespace IsHome

variable {sentences : List Sentence} {name : String} {line : Nat} {body other : List Nat}

/-- There is only one outermost body. -/
theorem unique (home : IsHome sentences name line body)
    (otherHome : IsHome sentences name line other) : body = other := by
  rcases suffix_or_suffix_of_suffix home.around otherHome.around with inside | outside
  · exact otherHome.outermost body inside home.uses
  · exact (home.outermost other outside otherHome.uses).symm

end IsHome

/-- What a line uses is used in its body. -/
theorem mem_eventsFrom_of_used {sentences : List Sentence} {line : Nat} {sentence : Sentence}
    (found : sentences[line]? = some sentence) {name : String} (used : name ∈ sentence.used) :
    (bodiesOn sentences line, .use name) ∈ eventsFrom {} sentences :=
  mem_flatMap.mpr ⟨_, mem_placed {} found, mem_map_of_mem (Sentence.use_mem_events_iff.mpr used)⟩

/-- What a script uses its code in front of the optimizer uses in the same bodies. -/
theorem Options.eventsFrom_sentences_subset (options : Options) (program : Program) :
    eventsFrom {} (options.sentences program) ⊆ eventsFrom {} program.lower := by
  rw [options.eventsFrom_sentences]
  exact options.eventsFrom_improve_subset program.lower {}

/-- A line that uses a declared variable refers to a binding in the function that
declares it exactly if this function is the outermost body around the line that uses
the name of the variable itself.  A variable that hides another one is used and bound
only inside of its function, and all of its uses refer to bindings of the function
itself if the function uses it itself. -/
theorem bindings_of_declarations (options : Options) (program : Program)
    (spelled : program.IsSpelled) :
    let sentences := options.sentences program
    ∀ declared ∈ program.declarations, IsOwnName declared.lowered →
      ∀ (line : Nat) (sentence : Sentence), sentences[line]? = some sentence →
        declared.lowered ∈ sentence.used →
        ∃ origin, bindingOn? sentences line declared.lowered = some origin ∧
          (bodiesOn sentences origin = declared.bodies ↔
            IsHome sentences declared.lowered line declared.bodies) ∧
          (declared.number?.isSome →
            declared.bodies <:+ bodiesOn sentences line ∧
            declared.bodies <:+ bodiesOn sentences origin ∧
            ((declared.bodies, .use declared.lowered) ∈ eventsFrom {} sentences →
              bodiesOn sentences origin = declared.bodies)) := by
  intro sentences declared member own line sentence found used
  obtain ⟨origin, binding, home⟩ :=
    Emit.exists_home own (Node.areWritten_recover _) found used
  refine ⟨origin, binding, ⟨fun same => same ▸ home, home.unique⟩, fun fresh => ?_⟩
  have inside {body : List Nat}
      (happens : (body, .use declared.lowered) ∈ eventsFrom {} sentences) :
      declared.bodies <:+ body :=
    Program.bodies_suffix_of_use spelled.usesWords member fresh own
      (options.eventsFrom_sentences_subset program happens)
  exact ⟨inside (mem_eventsFrom_of_used found used), inside home.uses,
    fun itself => (home.outermost _ (inside home.uses) itself).symm⟩

/-- A function declares a variable that hides one of the program. -/
def hidingVariable : Program :=
  ⟨[.declaration "x" (some (.literal (.string "a"))),
    .function "f" []
      [.declaration "x" (some (.literal (.string "b"))), .print (.identifier "x")],
    .print (.identifier "x")]⟩

/-- The function writes and prints its own variable. -/
theorem bindings_of_hidingVariable :
    hidingVariable.IsSpelled ∧ (hidingVariable.check .lexical).isValid ∧
      ∀ options : Options, ∀ line ∈ [2, 3],
        ∃ origin, bindingOn? (options.sentences hidingVariable) line "x$1" = some origin ∧
          bodiesOn (options.sentences hidingVariable) origin = [0] := by
  have spelled : hidingVariable.IsSpelled :=
    ⟨"dhore x = \"a\"; function f() \x7b dhore x = \"b\"; dekhao(x); \x7d dekhao(x);",
      by decide +kernel⟩
  refine ⟨spelled, by decide, fun options line member => ?_⟩
  have lines : options.sentences hidingVariable =
      [.store true (.variable "x") (.copy (.string "a")), .openFunction "f" [],
        .store true (.variable "x$1") (.copy (.string "b")), .print (.variable "x$1"), .close,
        .print (.variable "x")] := by
    obtain ⟨_, optimize⟩ := options
    rw [Options.sentences, Draft.ofCode_improve (by cases optimize <;> rfl)]
    decide
  let declared : Declaration := ⟨[0], "x", some 1⟩
  have named : declared.lowered = "x$1" := by decide
  have own : IsOwnName declared.lowered := by
    rw [named]
    exact .of_toList_eq rfl (by decide) (by decide) (by decide)
  have itself : (declared.bodies, .use declared.lowered) ∈
      eventsFrom {} (options.sentences hidingVariable) := by
    rw [lines, named]
    decide
  have refers (sentence : Sentence)
      (found : (options.sentences hidingVariable)[line]? = some sentence)
      (used : declared.lowered ∈ sentence.used) :
      ∃ origin, bindingOn? (options.sentences hidingVariable) line "x$1" = some origin ∧
        bodiesOn (options.sentences hidingVariable) origin = [0] := by
    obtain ⟨origin, binding, _, fresh⟩ := bindings_of_declarations options hidingVariable spelled
      declared (by decide) own line sentence found used
    exact ⟨origin, named ▸ binding, (fresh rfl).2.2 itself⟩
  simp only [mem_cons, not_mem_nil, or_false] at member
  rcases member with rfl | rfl
  · exact refers _ (by rw [lines]; rfl) (by rw [named]; decide)
  · exact refers _ (by rw [lines]; rfl) (by rw [named]; decide)

/-- A function declares a variable, and behind it the program declares another one of
the same name. -/
def sharingName : Program :=
  ⟨[.function "f" [] [.declaration "x" (some (.literal (.string "a")))],
    .declaration "x" (some (.literal (.string "b"))), .expression (.call "f" []),
    .print (.identifier "x")]⟩

/-- A function declares a variable that only a function in it uses. -/
def lendingVariable : Program :=
  ⟨[.function "f" []
      [.declaration "x" none,
        .function "g" [] [.assignment "x" (.literal (.string "a"))],
        .expression (.call "g" [])]]⟩

/-- Not every variable of a function is bound in it.  A variable that hides no other one
shares its binding with a later one of the program, and a variable that only an inner
function uses is bound there. -/
theorem not_bindings_of_declarations :
    (sharingName.IsSpelled ∧ (sharingName.check .lexical).isValid ∧
      ⟨[0], "x", none⟩ ∈ sharingName.declarations ∧
      ∀ options : Options, ∃ line sentence origin,
        (options.sentences sharingName)[line]? = some sentence ∧ "x" ∈ sentence.writes ∧
          bodiesOn (options.sentences sharingName) line = [0] ∧
          bindingOn? (options.sentences sharingName) line "x" = some origin ∧
          bodiesOn (options.sentences sharingName) origin = []) ∧
    (lendingVariable.IsSpelled ∧ (lendingVariable.check .lexical).isValid ∧
      ⟨[0], "x", none⟩ ∈ lendingVariable.declarations ∧
      ∀ options : Options, ∃ line sentence origin,
        (options.sentences lendingVariable)[line]? = some sentence ∧ "x" ∈ sentence.writes ∧
          bindingOn? (options.sentences lendingVariable) line "x" = some origin ∧
          bodiesOn (options.sentences lendingVariable) origin = [1, 0]) := by
  have shares : sharingName.IsSpelled :=
    ⟨"function f() \x7b dhore x = \"a\"; \x7d dhore x = \"b\"; f(); dekhao(x);", by decide +kernel⟩
  have lends : lendingVariable.IsSpelled :=
    ⟨"function f() \x7b dhore x; function g() \x7b x = \"a\"; \x7d g(); \x7d", by decide +kernel⟩
  refine ⟨⟨shares, by decide, by decide, ?_⟩, ⟨lends, by decide, by decide, ?_⟩⟩
  · rintro ⟨scoping, optimize⟩
    have lines : (⟨scoping, optimize⟩ : Options).sentences sharingName =
        [.introduce ["x"], .openFunction "f" [],
          .store false (.variable "x") (.copy (.string "a")), .close,
          .store false (.variable "x") (.copy (.string "b")),
          .store true (.temporary 1) (.call "f" []), .print (.variable "x")] := by
      rw [Options.sentences, Draft.ofCode_improve (by cases optimize <;> rfl)]
      decide
    rw [lines]
    exact ⟨2, _, 0, rfl, by decide, by decide, by decide, by decide⟩
  · rintro ⟨scoping, optimize⟩
    have lines : (⟨scoping, optimize⟩ : Options).sentences lendingVariable =
        [.openFunction "f" [], .openFunction "g" [],
          .store true (.variable "x") (.copy (.string "a")), .close,
          .store true (.temporary 1) (.call "g" []), .close] := by
      rw [Options.sentences, Draft.ofCode_improve (by cases optimize <;> rfl)]
      decide
    rw [lines]
    exact ⟨2, _, 2, rfl, by decide, by decide, by decide⟩

end BanglaScript
