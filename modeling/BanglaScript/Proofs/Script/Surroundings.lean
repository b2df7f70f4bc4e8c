import BanglaScript.Script.Emission

/-!
# Reading scripts

A script is read line by line.  The lines read so far tell which bodies and
blocks are open, which names each open block has introduced, and which names
are therefore visible.  A line is declared where it stands if it uses visible
names only, or the name that it introduces itself, and if what it introduces is
new: not visible yet, and not introduced by the same body before.

The rules are those of the target language, so nothing here looks at how a
script was made.
-/

namespace BanglaScript

/-- The operands that a computation reads. -/
def Computation.operands : Computation → List Operand
  | copy value => [value]
  | operation _ lhs rhs => [lhs, rhs]
  | call _ arguments => arguments

namespace Sentence

/-- The operands that a line reads. -/
def operands : Sentence → List Operand
  | store _ _ value => value.operands
  | perform _ arguments => arguments
  | print value => [value]
  | giveBack value => value.toList
  | openIf condition | openWhile condition | leaveUnless condition => [condition]
  | introduce _ | openElse | openForever | openFunction _ _ | close | comment _ => []

/-- The names that a line reads. -/
def reads (sentence : Sentence) : List String := sentence.operands.filterMap Operand.storage?

/-- The names that a line writes. -/
def writes : Sentence → List String
  | store _ target _ => [target.text]
  | _ => []

/-- The names that a line introduces by `let`. -/
def introduced : Sentence → List String
  | introduce names => names
  | store true target _ => [target.text]
  | _ => []

end Sentence

/-- The body of the program or of a function, as far as it has been read. -/
structure OpenBody where
  parameters : List String := []
  /-- The names that the body has introduced, in whatever block. -/
  introduced : List String := []
  /-- The names that the innermost open block has introduced. -/
  block : List String := []
  /-- The names that the open blocks around it have introduced, from the inside
  outwards. -/
  around : List (List String) := []
deriving DecidableEq

namespace OpenBody

/-- The names of the body that are visible in its innermost block. -/
def visible (body : OpenBody) : List String :=
  body.block ++ body.around.flatten ++ body.parameters

/-- The body behind a line that introduces names. -/
def introduce (body : OpenBody) (names : List String) : OpenBody :=
  { body with introduced := names ++ body.introduced, block := names ++ body.block }

/-- The body inside of a new block. -/
def openBlock (body : OpenBody) : OpenBody :=
  { body with block := [], around := body.block :: body.around }

end OpenBody

/-- Where a line stands. -/
structure Surroundings where
  /-- The innermost open body. -/
  body : OpenBody := {}
  /-- The open bodies around it, from the inside outwards. -/
  outer : List OpenBody := []
  /-- No line of the innermost body has been read. -/
  isHead : Bool := true
deriving DecidableEq

namespace Surroundings

/-- The names that are visible: parameters of the open bodies, and what their
open blocks have introduced. -/
def visible (surroundings : Surroundings) : List String :=
  surroundings.body.visible ++ surroundings.outer.flatMap OpenBody.visible

/-- Behind a line of the innermost body. -/
def within (surroundings : Surroundings) (body : OpenBody) : Surroundings :=
  { surroundings with body := body, isHead := false }

/-- Inside of a new block. -/
def opened (surroundings : Surroundings) : Surroundings :=
  surroundings.within surroundings.body.openBlock

/-- Outside of the innermost block; where this is the body of a function, behind
the function. -/
def closed (surroundings : Surroundings) : Surroundings :=
  match surroundings.body.around, surroundings.outer with
  | block :: around, _ =>
    surroundings.within { surroundings.body with block := block, around := around }
  | [], body :: outer => { body := body, outer := outer, isHead := false }
  | [], [] => surroundings

/-- Behind a line. -/
def after (surroundings : Surroundings) : Sentence → Surroundings
  | .openIf _ | .openWhile _ | .openForever => surroundings.opened
  | .openElse => surroundings.closed.opened
  | .close => surroundings.closed
  | .openFunction _ parameters =>
    { body := { parameters := parameters }, outer := surroundings.body :: surroundings.outer }
  | sentence => surroundings.within (surroundings.body.introduce sentence.introduced)

/-- Behind several lines. -/
def afterAll (surroundings : Surroundings) (sentences : List Sentence) : Surroundings :=
  sentences.foldl after surroundings

end Surroundings

/-- The names of the truth values. -/
def IsTruth (name : String) : Prop := name = "true" ∨ name = "false"

/-- A line is declared where it stands. -/
structure Sentence.IsDeclaredIn (surroundings : Surroundings) (sentence : Sentence) : Prop where
  reads : ∀ name ∈ sentence.reads, name ∈ surroundings.visible ∨ IsTruth name
  writes : ∀ name ∈ sentence.writes,
    name ∈ surroundings.visible ∨ name ∈ sentence.introduced ∨ IsTruth name
  notVisible : ∀ name ∈ sentence.introduced, name ∉ surroundings.visible
  notIntroduced : ∀ name ∈ sentence.introduced, name ∉ surroundings.body.introduced
  nodup : sentence.introduced.Nodup
  /-- Names are introduced without values at the head of a body only. -/
  atHead : ∀ names, sentence = .introduce names → surroundings.isHead

/-- The line neither writes nor introduces a name. -/
def Sentence.onlyReads : Sentence → Bool
  | .introduce _ | .store _ _ _ => false
  | _ => true

/-- A line that only reads is declared where everything that it reads is
visible. -/
theorem Sentence.isDeclaredIn_of_onlyReads {sentence : Sentence} {surroundings : Surroundings}
    (only : sentence.onlyReads)
    (visible : ∀ name ∈ sentence.reads, name ∈ surroundings.visible ∨ IsTruth name) :
    sentence.IsDeclaredIn surroundings := by
  have writes : sentence.writes = [] := by cases sentence <;> first | rfl | cases only
  have introduced : sentence.introduced = [] := by cases sentence <;> first | rfl | cases only
  refine ⟨visible, by simp [writes], by simp [introduced], by simp [introduced],
    by simp [introduced], ?_⟩
  rintro names rfl
  cases only

/-- Every one of the lines is declared where it stands. -/
def AreDeclaredIn (surroundings : Surroundings) : List Sentence → Prop
  | [] => True
  | first :: rest =>
    first.IsDeclaredIn surroundings ∧ AreDeclaredIn (surroundings.after first) rest

/-- The sentences of a draft without their depths. -/
def Draft.sentences (draft : Draft) : List Sentence := draft.map Prod.snd

/-! ## Lines in parts -/

theorem areDeclaredIn_append {surroundings : Surroundings} {first second : List Sentence} :
    AreDeclaredIn surroundings (first ++ second) ↔
      AreDeclaredIn surroundings first ∧
        AreDeclaredIn (surroundings.afterAll first) second := by
  induction first generalizing surroundings with
  | nil => simp [AreDeclaredIn, Surroundings.afterAll]
  | cons sentence rest ih => simp only [List.cons_append, AreDeclaredIn, ih, and_assoc,
      Surroundings.afterAll, List.foldl_cons]

theorem Surroundings.afterAll_append (surroundings : Surroundings)
    (first second : List Sentence) :
    surroundings.afterAll (first ++ second) =
      (surroundings.afterAll first).afterAll second :=
  List.foldl_append

theorem Draft.sentences_append (first second : Draft) :
    sentences (first ++ second) = sentences first ++ sentences second :=
  List.map_append

end BanglaScript
