import BanglaScript.Proofs.Pass.Told
import BanglaScript.Proofs.Script.Stored

/-!
# Functions and returns in scripts

The script of a program declares, calls and returns exactly where the program does.
So every return of the script stands in a function exactly if those of the program
do, and every call can see its function exactly if the calls of the program can,
which checking with lexical scopes ensures.

Names and functions share one namespace in a script.  A body introduces no name
that it does not use, so it introduces the name of one of its functions only if the
body uses that name for a value, too.
-/

namespace BanglaScript

open Eventful List

variable {program : Program} {bodies : List Nat} {name : String}

/-- The lines of the script that a program is compiled to. -/
def Options.sentences (options : Options) (program : Program) : List Sentence :=
  (Draft.ofCode (options.improve program.lower).1).sentences

/-- The compiled code is the code of a program with the same calls, functions and
returns. -/
theorem Options.isCodeOf_improve (options : Options) (program : Program) :
    LabelledNode.IsCodeOf (Node.skeletonAll program.toNodes) (options.improve program.lower).1 :=
  options.improve_of_rewrites (fun _ _ rewrites isCode => isCode.of_rewrites rewrites)
    (LabelledNode.isCodeOf_lower program)

/-- The script tells what the code tells. -/
theorem Options.eventsFrom_sentences (options : Options) (program : Program) :
    eventsFrom {} (options.sentences program) =
      eventsFrom {} (options.improve program.lower).1 :=
  (options.isCodeOf_improve program).eventsFrom_ofCode

/-- The script has the calls, functions and returns of the program. -/
theorem Options.filter_eventsFrom_sentences (options : Options) (program : Program) :
    (eventsFrom {} (options.sentences program)).filter (fun entry => !entry.2.isUse) =
      program.events := by
  have same : (Node.accountAll (Node.recover (options.improve program.lower).1)).withoutUses =
      Statement.accountAll program.body := by
    rw [(options.isCodeOf_improve program).withoutUses, Node.withoutUses_skeletonAll]
    exact Node.Direct.marked_statements program.body _
  rw [options.eventsFrom_sentences, (options.isCodeOf_improve program).tells.told]
  exact congrArg (fun account => account.events [] 0) same

/-- What a script does besides using names, its program does. -/
theorem Options.mem_eventsFrom_sentences_iff (options : Options) (program : Program)
    (bodies : List Nat) {event : Event} (other : event.isUse = false) :
    (bodies, event) ∈ eventsFrom {} (options.sentences program) ↔
      (bodies, event) ∈ program.events := by
  rw [← options.filter_eventsFrom_sentences, mem_filter]
  simp [other]

/-! ## Static conditions -/

/-- All returns stand in functions. -/
def ReturnsAreInside (events : List (List Nat × Event)) : Prop :=
  ∀ bodies, (bodies, .giveBack) ∈ events → bodies ≠ []

/-- The point lies in no block of its body. -/
def Spot.isTop (spot : Spot) : Bool := spot.blocks.head?.all Option.isSome

/-- The body introduces the name by a `let` at its top level. -/
def LetsAtTop (sentences : List Sentence) (bodies : List Nat) (name : String) : Prop :=
  ∃ entry ∈ placed {} sentences, entry.1.isTop ∧ entry.1.bodies = bodies ∧
    name ∈ entry.2.introduced

/-- The body declares a function of the name at its top level. -/
def DeclaresAtTop (sentences : List Sentence) (bodies : List Nat) (name : String) : Prop :=
  ∃ entry ∈ placed {} sentences, entry.1.isTop ∧ entry.1.bodies = bodies ∧
    ∃ parameters, entry.2 = .openFunction name parameters

theorem callsAreTold_sentences_iff (options : Options) (program : Program) :
    CallsAreTold (eventsFrom {} (options.sentences program))
        (eventsFrom {} (options.sentences program)) ↔
      CallsAreTold program.events program.events := by
  have called (bodies : List Nat) (name : String) :
      (bodies, .call name) ∈ eventsFrom {} (options.sentences program) ↔
        (bodies, .call name) ∈ program.events :=
    options.mem_eventsFrom_sentences_iff program bodies rfl
  have declared (bodies : List Nat) (name : String) :
      (bodies, .function name) ∈ eventsFrom {} (options.sentences program) ↔
        (bodies, .function name) ∈ program.events :=
    options.mem_eventsFrom_sentences_iff program bodies rfl
  simp only [CallsAreTold, called, declared]

theorem returnsAreInside_sentences_iff (options : Options) (program : Program) :
    ReturnsAreInside (eventsFrom {} (options.sentences program)) ↔
      ReturnsAreInside program.events := by
  have returned (bodies : List Nat) :
      (bodies, .giveBack) ∈ eventsFrom {} (options.sentences program) ↔
        (bodies, .giveBack) ∈ program.events :=
    options.mem_eventsFrom_sentences_iff program bodies rfl
  simp only [ReturnsAreInside, returned]

variable {options : Options}

/-- A body that introduces a name uses it, before and behind the optimizer. -/
theorem LetsAtTop.mem_eventsFrom_lower (lets : LetsAtTop (options.sentences program) bodies name) :
    (bodies, .use name) ∈ eventsFrom {} program.lower := by
  obtain ⟨entry, member, _, rfl, introduced⟩ := lets
  have used := (Emit.composed_ofNodes (Node.areWritten_recover _)).introducesUsed.used {} entry
    member name introduced
  apply options.eventsFrom_improve_subset program.lower {}
  rwa [← options.eventsFrom_sentences]

/-- A body that declares a function does so in the program. -/
theorem DeclaresAtTop.mem_events
    (declares : DeclaresAtTop (options.sentences program) bodies name) :
    (bodies, .function name) ∈ program.events := by
  obtain ⟨⟨_, _⟩, member, _, rfl, _, rfl⟩ := declares
  rw [← options.mem_eventsFrom_sentences_iff program _ rfl]
  exact mem_flatMap.mpr ⟨_, member, mem_singleton_self _⟩

/-- In the script of a valid program the calls can see their functions exactly if they
can in the program, which they do under lexical scoping, and the returns stand in
functions exactly if those of the program do.  A body introduces the name of one of
its functions at its top level only if its code in front of the optimizer uses the
name for a value. -/
theorem functions_and_returns_sentences (options : Options) (program : Program)
    (valid : (program.check options.scoping).isValid) :
    let sentences := options.sentences program
    let events := eventsFrom {} sentences
    (CallsAreTold events events ↔ CallsAreTold program.events program.events) ∧
      (options.scoping = .lexical → CallsAreTold events events) ∧
      (ReturnsAreInside events ↔ ReturnsAreInside program.events) ∧
      ∀ bodies name, LetsAtTop sentences bodies name → DeclaresAtTop sentences bodies name →
        (bodies, .function name) ∈ program.events ∧
          (bodies, .use name) ∈ eventsFrom {} program.lower := by
  refine ⟨callsAreTold_sentences_iff options program, fun lexical => ?_,
    returnsAreInside_sentences_iff options program,
    fun bodies name lets declares => ⟨declares.mem_events, lets.mem_eventsFrom_lower⟩⟩
  rw [callsAreTold_sentences_iff]
  exact callsAreTold_of_isValid (lexical ▸ valid)

/-- A function calls the one that is declared inside of it. -/
def nestedCalls : Program :=
  ⟨[.function "f" ["x"]
      [.function "g" ["y"] [.giveBack (some (.identifier "y"))],
        .giveBack (some (.call "g" [.identifier "x"]))],
    .declaration "v" (some (.literal (.string "a"))),
    .print (.call "f" [.identifier "v"])]⟩

/-- Its script is well formed. -/
theorem functions_and_returns_nestedCalls :
    let options : Options := { scoping := .lexical }
    let sentences := options.sentences nestedCalls
    let events := eventsFrom {} sentences
    (nestedCalls.check .lexical).isValid ∧ CallsAreTold events events ∧
      ReturnsAreInside events ∧
      ∀ bodies name, LetsAtTop sentences bodies name → ¬ DeclaresAtTop sentences bodies name := by
  have valid : (nestedCalls.check .lexical).isValid := by decide
  obtain ⟨_, calls, returns, lets⟩ :=
    functions_and_returns_sentences { scoping := .lexical } nestedCalls valid
  have events : nestedCalls.events =
      [([], .function "f"), ([0], .function "g"), ([1, 0], .giveBack), ([0], .call "g"),
        ([0], .giveBack), ([], .call "f")] := rfl
  have used : ([], .use "f") ∉ eventsFrom {} nestedCalls.lower ∧
      ([0], .use "g") ∉ eventsFrom {} nestedCalls.lower := by decide
  refine ⟨valid, calls rfl, returns.mpr fun bodies member => ?_,
    fun bodies name here declares => ?_⟩
  · rw [events] at member
    rintro rfl
    revert member
    decide
  · obtain ⟨declared, isUsed⟩ := lets bodies name here declares
    rw [events] at declared
    simp only [mem_cons, Prod.mk.injEq, Event.function.injEq, reduceCtorEq, and_false,
      not_mem_nil, or_false] at declared
    rcases declared with ⟨rfl, rfl⟩ | ⟨rfl, rfl⟩
    · exact used.1 isUsed
    · exact used.2 isUsed

/-- A function is printed. -/
def showingFunction : Program := ⟨[.function "f" [] [], .print (.identifier "f")]⟩

/-- A function is called outside of the function that declares it. -/
def callingInner : Program :=
  ⟨[.function "f" [] [.function "g" [] []], .expression (.call "g" [])]⟩

/-- The program returns outside of functions. -/
def returningOutside : Program := ⟨[.giveBack none]⟩

/-- Not every script of a valid program is well formed.  The name of a function that
is printed is introduced beside the function, under flat scoping a call need not see
its function, and returns outside of functions stay where they are. -/
theorem not_functions_and_returns :
    (showingFunction.IsSpelled ∧ (∀ scoping, (showingFunction.check scoping).isValid) ∧
      ∀ options : Options, LetsAtTop (options.sentences showingFunction) [] "f" ∧
        DeclaresAtTop (options.sentences showingFunction) [] "f") ∧
    (callingInner.IsSpelled ∧ (callingInner.check .flat).isValid ∧
      ∀ options : Options, ¬ CallsAreTold (eventsFrom {} (options.sentences callingInner))
        (eventsFrom {} (options.sentences callingInner))) ∧
    (returningOutside.IsSpelled ∧ (∀ scoping, (returningOutside.check scoping).isValid) ∧
      ∀ options : Options,
        ¬ ReturnsAreInside (eventsFrom {} (options.sentences returningOutside))) := by
  refine ⟨⟨⟨"function f() \x7b \x7d dekhao(f);", by decide +kernel⟩,
      by rintro (_ | _) <;> decide, ?_⟩,
    ⟨⟨"function f() \x7b function g() \x7b \x7d \x7d g();", by decide +kernel⟩, by decide, ?_⟩,
    ⟨⟨"ferot;", by decide +kernel⟩, by rintro (_ | _) <;> decide, ?_⟩⟩
  · rintro ⟨scoping, optimize⟩
    have lines : (⟨scoping, optimize⟩ : Options).sentences showingFunction =
        [.introduce ["f"], .openFunction "f" [], .close, .print (.variable "f")] := by
      rw [Options.sentences, Draft.ofCode_improve (by cases optimize <;> rfl)]
      decide
    rw [lines]
    exact ⟨⟨_, mem_cons_self, rfl, rfl, mem_singleton_self _⟩,
      ⟨_, mem_cons_of_mem _ mem_cons_self, rfl, rfl, [], rfl⟩⟩
  · intro options told
    rw [callsAreTold_sentences_iff] at told
    obtain ⟨_, around, declared⟩ := told [] "g" (by decide)
    cases suffix_nil.mp around
    revert declared
    decide
  · intro options inside
    rw [returnsAreInside_sentences_iff] at inside
    exact inside [] (by decide) rfl

end BanglaScript
