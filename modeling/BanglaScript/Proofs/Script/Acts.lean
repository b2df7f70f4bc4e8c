import BanglaScript.Proofs.Script.Surroundings

/-!
# Scripts as trees

The lines of a script open and close blocks.  Read one after the other, with the
open blocks on a stack, they form a tree of acts: single lines, conditionals and
loops.  Writing the acts line by line and reading the lines again gives the same
acts.  Functions are not read here.
-/

namespace BanglaScript

/-- The line neither opens nor closes a block. -/
@[reducible]
def Sentence.isSingle : Sentence → Bool
  | .openIf _ | .openElse | .openWhile _ | .openForever | .openFunction _ _ | .close => false
  | _ => true

/-- A line of a script, or a block with everything inside of it. -/
inductive Act where
  | line (sentence : Sentence) (isSingle : sentence.isSingle)
  | ifThen (condition : Operand) (body : List Act)
  | ifElse (condition : Operand) (body alternative : List Act)
  | loopWhile (condition : Operand) (body : List Act)
  | forever (body : List Act)

namespace Act

mutual

/-- The lines of an act. -/
def sentences : Act → List Sentence
  | line sentence _ => [sentence]
  | ifThen condition body => [.openIf condition] ++ sentencesOf body ++ [.close]
  | ifElse condition body alternative =>
    [.openIf condition] ++ sentencesOf body ++ [.openElse] ++ sentencesOf alternative ++ [.close]
  | loopWhile condition body => [.openWhile condition] ++ sentencesOf body ++ [.close]
  | forever body => [.openForever] ++ sentencesOf body ++ [.close]

/-- The lines of several acts. -/
def sentencesOf : List Act → List Sentence
  | [] => []
  | first :: rest => first.sentences ++ sentencesOf rest

end

theorem sentencesOf_append (first second : List Act) :
    sentencesOf (first ++ second) = sentencesOf first ++ sentencesOf second := by
  induction first with
  | nil => rfl
  | cons act rest ih => rw [List.cons_append, sentencesOf, sentencesOf, ih, List.append_assoc]

/-! ## Reading -/

/-- A block whose end has not been read. -/
inductive Opened where
  | ifThen (condition : Operand)
  | ifElse (condition : Operand) (body : List Act)
  | loopWhile (condition : Operand)
  | forever

/-- The act of a block, once all that is inside of it has been read. -/
def Opened.closed : Opened → List Act → Act
  | ifThen condition, inside => .ifThen condition inside
  | ifElse condition body, inside => .ifElse condition body inside
  | loopWhile condition, inside => .loopWhile condition inside
  | forever, inside => .forever inside

/-- What has been read of a script. -/
structure Reading where
  /-- The acts of the innermost open block. -/
  block : List Act := []
  /-- The open blocks from the innermost outwards, each with the acts before
  it. -/
  around : List (Opened × List Act) := []

namespace Reading

/-- Inside of a new block. -/
def inside (reading : Reading) (opened : Opened) : Reading :=
  ⟨[], (opened, reading.block) :: reading.around⟩

/-- Behind some acts of the innermost block. -/
def behind (reading : Reading) (acts : List Act) : Reading :=
  { reading with block := reading.block ++ acts }

/-- One more line is read, if it fits. -/
def after? (reading : Reading) : Sentence → Option Reading
  | .openIf condition => some (reading.inside (.ifThen condition))
  | .openWhile condition => some (reading.inside (.loopWhile condition))
  | .openForever => some (reading.inside .forever)
  | .openElse =>
    match reading.around with
    | (.ifThen condition, before) :: around =>
      some ⟨[], (.ifElse condition reading.block, before) :: around⟩
    | _ => none
  | .close =>
    match reading.around with
    | (opened, before) :: around => some ⟨before ++ [opened.closed reading.block], around⟩
    | [] => none
  | sentence =>
    if isSingle : sentence.isSingle then some (reading.behind [.line sentence isSingle]) else none

/-- All of the lines are read, if they fit. -/
def afterAll? (reading : Reading) (sentences : List Sentence) : Option Reading :=
  sentences.foldlM after? reading

theorem behind_behind (reading : Reading) (first second : List Act) :
    (reading.behind first).behind second = reading.behind (first ++ second) := by
  rw [behind, behind, behind, List.append_assoc]

theorem afterAll?_append (reading : Reading) (first second : List Sentence) :
    reading.afterAll? (first ++ second) =
      (reading.afterAll? first).bind fun middle => middle.afterAll? second :=
  List.foldlM_append

theorem after?_single (reading : Reading) {sentence : Sentence} (isSingle : sentence.isSingle) :
    reading.after? sentence = some (reading.behind [.line sentence isSingle]) := by
  cases sentence with
  | openIf | openElse | openWhile | openForever | openFunction | close => cases isSingle
  | _ => rfl

/-- A block is opened, its acts are read, and it is closed. -/
theorem afterAll?_block (reading : Reading) {opener : Sentence} {opened : Opened}
    {lines : List Sentence} {body : List Act}
    (opens : reading.after? opener = some (reading.inside opened))
    (inside : (reading.inside opened).afterAll? lines =
      some ((reading.inside opened).behind body)) :
    reading.afterAll? ([opener] ++ lines ++ [.close]) =
      some (reading.behind [opened.closed body]) := by
  have first : reading.afterAll? [opener] = some (reading.inside opened) := by
    rw [afterAll?, List.foldlM_cons, opens]
    rfl
  rw [afterAll?_append, afterAll?_append, first, Option.bind_some, inside, Option.bind_some]
  rfl

end Reading

open Reading

mutual

/-- The lines of an act are read as the act. -/
theorem afterAll?_sentences (act : Act) (reading : Reading) :
    reading.afterAll? act.sentences = some (reading.behind [act]) := by
  cases act with
  | line sentence isSingle =>
    rw [sentences, afterAll?, List.foldlM_cons, after?_single reading isSingle]
    rfl
  | ifThen condition body =>
    have opens : reading.after? (.openIf condition) =
      some (reading.inside (.ifThen condition)) := rfl
    exact reading.afterAll?_block opens (afterAll?_sentencesOf body _)
  | loopWhile condition body =>
    have opens : reading.after? (.openWhile condition) =
      some (reading.inside (.loopWhile condition)) := rfl
    exact reading.afterAll?_block opens (afterAll?_sentencesOf body _)
  | forever body =>
    have opens : reading.after? .openForever = some (reading.inside .forever) := rfl
    exact reading.afterAll?_block opens (afterAll?_sentencesOf body _)
  | ifElse condition body alternative =>
    have first : reading.afterAll? [.openIf condition] =
        some (reading.inside (.ifThen condition)) := rfl
    have between : ((reading.inside (.ifThen condition)).behind body).afterAll? [.openElse] =
        some (reading.inside (.ifElse condition body)) := rfl
    rw [sentences, afterAll?_append, afterAll?_append, afterAll?_append, afterAll?_append, first,
      Option.bind_some, afterAll?_sentencesOf body, Option.bind_some, between, Option.bind_some,
      afterAll?_sentencesOf alternative, Option.bind_some]
    rfl

theorem afterAll?_sentencesOf (acts : List Act) (reading : Reading) :
    reading.afterAll? (sentencesOf acts) = some (reading.behind acts) := by
  cases acts with
  | nil =>
    rw [behind, List.append_nil]
    rfl
  | cons first rest =>
    rw [sentencesOf, afterAll?_append, afterAll?_sentences first, Option.bind_some,
      afterAll?_sentencesOf rest, behind_behind]
    rfl

end

/-- The acts of a script, if every block is closed. -/
def read? (sentences : List Sentence) : Option (List Act) :=
  (Reading.afterAll? {} sentences).bind fun reading =>
    if reading.around.isEmpty then some reading.block else none

/-- What is written is read back. -/
theorem read?_sentencesOf (acts : List Act) : read? (sentencesOf acts) = some acts := by
  rw [read?, afterAll?_sentencesOf, Option.bind_some]
  rfl

end Act

end BanglaScript
