import BanglaScript.Proofs.Lowering.Legible
import BanglaScript.Proofs.Script.Functions

/-!
# String literals in listings and scripts

Quotes stand in listings and scripts only around string literals, as no other text of an
instruction or a line has one: names are words of the source, fresh names or slots.  So
whoever reads such a text from its start, and each literal up to its closing quote, finds
exactly the strings that the code mentions, in their order.
-/

namespace BanglaScript

open List Eventful

namespace Text

/-! ## Reading literals one after the other -/

theorem length_lt_of_unquote? (text : List Char) {contents behind : List Char}
    (read : unquote? text = some (contents, behind)) : behind.length < text.length := by
  fun_induction unquote? text generalizing contents behind with
  | case1 | case3 => cases read
  | case2 | case4 | case5 => grind [Option.bind_eq_bind, Option.bind_eq_some_iff]

/-- The contents of the literals of a text, with anything but quotes between them. -/
def literals? (text : List Char) : Option (List String) :=
  match text with
  | [] => some []
  | character :: rest =>
    if character = '"' then
      match read : unquote? rest with
      | none => none
      | some (contents, behind) =>
        have := length_lt_of_unquote? rest read
        (literals? behind).map (String.ofList contents :: ·)
    else
      literals? rest
termination_by text.length

/-- Whatever stands behind the text, its own literals are read first. -/
def Scans (text : String) (found : List String) : Prop :=
  ∀ rest, literals? (text.toList ++ rest) = (literals? rest).map (found ++ ·)

namespace Scans

variable {text other : String} {found more : List String}

theorem of_quoteless (quoteless : '"' ∉ text.toList) : Scans text [] := by
  intro rest
  rw [show (([] : List String) ++ ·) = id from rfl, Option.map_id_fun, id]
  generalize text.toList = characters at quoteless
  induction characters with
  | nil => rfl
  | cons character characters ih =>
    obtain ⟨plain, others⟩ := not_or.mp (mt mem_cons.mpr quoteless)
    rw [cons_append, literals?, if_neg (Ne.symm plain), ih others]

theorem quoted (contents : String) : Scans (quoted contents) [contents] := by
  intro rest
  rw [toList_quoted, cons_append, append_assoc, singleton_append, literals?, if_pos rfl]
  split
  case h_1 read => cases read.symm.trans (unquote?_flatMap _ _)
  case h_2 read =>
    cases read.symm.trans (unquote?_flatMap _ _)
    rw [String.ofList_toList]
    rfl

theorem append (scans : Scans text found) (otherScans : Scans other more) :
    Scans (text ++ other) (found ++ more) := by
  intro rest
  rw [String.toList_append, append_assoc, scans, otherScans, Option.map_map]
  simp only [Function.comp_def, append_assoc]

theorem behind (scans : Scans text found) (quoteless : '"' ∉ other.toList) :
    Scans (text ++ other) found :=
  append_nil found ▸ scans.append (of_quoteless quoteless)

theorem before (scans : Scans text found) (quoteless : '"' ∉ other.toList) :
    Scans (other ++ text) found :=
  (of_quoteless quoteless).append scans

theorem joined {texts : List String} {founds : List (List String)}
    (each : Forall₂ Scans texts founds) : Scans (Text.join ", " texts) founds.flatten := by
  unfold Text.join
  induction each with
  | nil => exact of_quoteless (by decide)
  | @cons text found texts founds scans others ih =>
    cases others with
    | nil => rwa [String.intercalate_singleton, flatten_singleton]
    | cons =>
      rw [String.intercalate_cons_cons]
      exact (scans.behind (by decide)).append ih

theorem together {Item : Type} {text : Item → String} {found : Item → List String}
    {items : List Item} (each : ∀ item ∈ items, Scans (text item) (found item)) :
    Scans (String.join (items.map text)) (items.flatMap found) := by
  induction items with
  | nil => exact of_quoteless not_mem_nil
  | cons item rest ih =>
    obtain ⟨first, others⟩ := forall_mem_cons.mp each
    rw [map_cons, String.join_cons]
    exact first.append (ih others)

theorem joined_quoteless {texts : List String}
    (quoteless : ∀ text ∈ texts, '"' ∉ text.toList) : Scans (Text.join ", " texts) [] := by
  have each : Forall₂ Scans texts (texts.map fun _ => []) :=
    forall₂_map_right_iff.mpr (forall₂_same.mpr fun text member =>
      .of_quoteless (quoteless text member))
  simpa using joined each

theorem literals?_eq (scans : Scans text found) : literals? text.toList = some found := by
  have read := scans []
  rwa [append_nil, literals?, Option.map_some, append_nil] at read

end Scans

end Text

open Text

/-! ## Texts of instructions and lines -/

/-- The strings that an operand shows. -/
def Operand.literals : Operand → List String
  | .string contents => [contents]
  | _ => []

/-- A variable has no quote in its name. -/
def Operand.IsQuoteless : Operand → Prop
  | .variable name => '"' ∉ name.toList
  | _ => True

/-- Nothing with a quote in its name is used, called or declared. -/
def Event.IsQuoteless : Event → Prop
  | .use name | .call name | .function name => '"' ∉ name.toList
  | .giveBack => True

theorem quote_notMem_toDigits (number : Nat) : '"' ∉ Nat.toDigits 10 number :=
  fun member => absurd (Layout.isDigit_of_mem_toDigits member) (by decide)

theorem Operand.scans {operand : Operand}
    (uses : ∀ event ∈ Event.ofReads [operand], event.IsQuoteless) :
    Scans operand.text operand.literals := by
  cases operand with
  | «variable» | temporary => exact .of_quoteless (uses _ mem_cons_self)
  | number value => exact .of_quoteless (Layout.notMem_write isPlain_script (by decide) value)
  | string contents => exact .quoted contents

namespace Instruction

variable {instruction : Instruction}

theorem scans_of_arguments {founds : List (List String)}
    (arguments : Forall₂ Scans instruction.argumentTexts founds)
    (whole : founds.flatten = instruction.reads.flatMap Operand.literals := by rfl) :
    Scans instruction.text (instruction.reads.flatMap Operand.literals) := by
  have named : '"' ∉ instruction.opcodeName.toList := by
    cases instruction with
    | binary opcode => cases opcode <;> simp [opcodeName, Opcode.name]
    | _ => simp [opcodeName]
  rw [← whole]
  refine .before ?_ ?_
  · split
    case h_1 none =>
      rw [none] at arguments
      cases arguments
      exact .of_quoteless named
    case h_2 => exact (Scans.joined arguments).before (by simp [named])
  · split <;> simp [labelText, toString, quote_notMem_toDigits]

/-- The literals of an instruction are the strings that it reads. -/
theorem scans (uses : ∀ event ∈ events instruction, event.IsQuoteless)
    (function : ∀ name ∈ instruction.function?, '"' ∉ name.toList) :
    Scans instruction.text (instruction.reads.flatMap Operand.literals) := by
  have read {operand : Operand} (member : operand ∈ instruction.reads) :
      Scans operand.text operand.literals :=
    operand.scans fun event use => uses event (mem_append_left _ (mem_append_left _
      (map_subset _ (filterMap_subset _ (cons_subset.mpr ⟨member, nil_subset _⟩)) use)))
  have written {place : Place} (target : instruction.target? = some place) :
      Scans place.text [] :=
    .of_quoteless (uses (.use place.text) (mem_append_right _
      (mem_map_of_mem (Option.mem_toList.mpr target))))
  have named {name : String} (found : instruction.function? = some name) : Scans name [] :=
    .of_quoteless (function name found)
  have counted (number : Nat) : Scans (toString number) [] :=
    .of_quoteless (by simp [quote_notMem_toDigits])
  have labelled (number : Nat) : Scans (labelText number) [] :=
    .of_quoteless (by simp [labelText, toString, quote_notMem_toDigits])
  cases instruction with
  | assign =>
    exact scans_of_arguments (.cons (written rfl) (.cons (read mem_cons_self) .nil))
  | binary =>
    exact scans_of_arguments (.cons (written rfl) (.cons (read mem_cons_self)
      (.cons (read (mem_cons_of_mem _ mem_cons_self)) .nil)))
  | branch =>
    exact scans_of_arguments (.cons (read mem_cons_self) (.cons (labelled _)
      (.cons (labelled _) .nil)))
  | jump | label => exact scans_of_arguments (.cons (labelled _) .nil)
  | functionStart | call =>
    exact scans_of_arguments (.cons (named rfl) (.cons (counted _) .nil))
  | functionEnd => exact scans_of_arguments (.cons (named rfl) .nil)
  | pop => exact scans_of_arguments (.cons (written rfl) .nil)
  | push | print => exact scans_of_arguments (.cons (read mem_cons_self) .nil)
  | giveBack value =>
    cases value with
    | none => exact scans_of_arguments .nil
    | some => exact scans_of_arguments (.cons (read mem_cons_self) .nil)

/-- The literals of a listing are the strings that its instructions read. -/
theorem scans_listing {code : List Instruction}
    (each : ∀ instruction ∈ code,
      Scans instruction.text (instruction.reads.flatMap Operand.literals)) :
    Scans (listing code) (code.flatMap fun instruction =>
      instruction.reads.flatMap Operand.literals) := by
  have lines := Scans.together fun (entry : Instruction × Nat) (member : entry ∈ code.zipIdx) =>
    ((each entry.1 (fst_mem_of_mem_zipIdx member)).before
      (show '"' ∉ (alignRight 4 (toString (entry.2 + 1)) ++ ". ").toList by
        simp [alignRight, quote_notMem_toDigits])).behind (show '"' ∉ "\n".toList by decide)
  have forget := flatMap_map Prod.fst
    (fun instruction : Instruction => instruction.reads.flatMap Operand.literals) code.zipIdx
  rwa [← forget, zipIdx_map_fst] at lines

end Instruction

theorem Computation.scans {value : Computation}
    (read : ∀ operand ∈ value.operands, Scans operand.text operand.literals)
    (called : ∀ name arguments, value = .call name arguments → '"' ∉ name.toList) :
    Scans value.text (value.operands.flatMap Operand.literals) := by
  cases value with
  | copy value =>
    rw [operands, flatMap_singleton]
    exact read value mem_cons_self
  | operation opcode lhs rhs =>
    have symbol : '"' ∉ opcode.scriptSymbol.toList := by
      cases opcode <;> simp [Opcode.scriptSymbol]
    have left := read lhs mem_cons_self
    have right := read rhs (mem_cons_of_mem _ mem_cons_self)
    rw [operands, flatMap_cons, flatMap_singleton, text]
    exact (((left.behind (by decide)).behind symbol).behind (by decide)).append right
  | call name arguments =>
    have each : Forall₂ Scans (arguments.map Operand.text) (arguments.map Operand.literals) :=
      forall₂_map_left_iff.mpr (forall₂_map_right_iff.mpr (forall₂_same.mpr read))
    exact ((Scans.joined each).before (by simp [called name arguments rfl])).behind (by decide)

/-- The literals of a line are the strings that it reads. -/
theorem Sentence.scans {sentence : Sentence}
    (uses : ∀ event ∈ events sentence, event.IsQuoteless)
    (bound : ∀ name ∈ sentence.bound, '"' ∉ name.toList)
    (code : ∀ instruction, sentence ≠ .comment instruction) :
    Scans sentence.text (sentence.operands.flatMap Operand.literals) := by
  have read (operand : Operand) (member : operand ∈ sentence.operands) :
      Scans operand.text operand.literals :=
    operand.scans fun event use => uses event (mem_append_left _ (mem_append_left _
      (map_subset _ (filterMap_subset _ (cons_subset.mpr ⟨member, nil_subset _⟩)) use)))
  have marked {event : Event} (member : event ∈ sentence.marks) : event.IsQuoteless :=
    uses event (mem_append_left _ (mem_append_right _ member))
  have single {operand : Operand} (same : sentence.operands = [operand]) :
      Scans operand.text (sentence.operands.flatMap Operand.literals) := by
    rw [same, flatMap_singleton]
    exact read operand (same ▸ mem_cons_self)
  cases sentence with
  | introduce => exact ((Scans.joined_quoteless bound).before (by decide)).behind (by decide)
  | store isLet target value =>
    have written : '"' ∉ target.text.toList := uses _ (mem_append_right _ mem_cons_self)
    have stored : Scans value.text (value.operands.flatMap Operand.literals) := by
      refine Computation.scans read ?_
      rintro name arguments rfl
      exact marked mem_cons_self
    refine (stored.before ?_).behind (by decide)
    cases isLet <;> simp [written]
  | perform name arguments =>
    have called : Scans (Computation.call name arguments).text
        (arguments.flatMap Operand.literals) := by
      refine Computation.scans read ?_
      rintro _ _ ⟨⟩
      exact marked mem_cons_self
    exact called.behind (by decide)
  | print | openIf | openWhile | leaveUnless =>
    exact ((single rfl).before (by decide)).behind (by decide)
  | giveBack value =>
    cases value with
    | none => exact .of_quoteless (by decide)
    | some => exact ((single rfl).before (by decide)).behind (by decide)
  | openElse | openForever | close => exact .of_quoteless (by decide)
  | openFunction name =>
    have named : '"' ∉ name.toList := marked mem_cons_self
    exact ((Scans.joined_quoteless bound).before (by simp [named])).behind (by decide)
  | comment instruction => exact absurd rfl (code instruction)

/-- The literals of a script are the strings that its lines read. -/
theorem Draft.scans_render {draft : Draft}
    (each : ∀ sentence ∈ draft.sentences,
      Scans sentence.text (sentence.operands.flatMap Operand.literals)) :
    Scans draft.script.render (draft.sentences.flatMap fun sentence =>
      sentence.operands.flatMap Operand.literals) := by
  have lines := Scans.together fun (entry : Nat × Sentence) (member : entry ∈ draft) =>
    ((each entry.2 (mem_map_of_mem member)).before
      (show '"' ∉ (String.ofList (replicate (2 * entry.1) ' ')).toList by simp)).behind
        (show '"' ∉ "\n".toList by decide)
  rwa [Script.render, script, map_map, sentences, flatMap_map]

/-! ## Names of a program -/

theorem supplies_isQuoteless :
    Lower.Supplies Statement.isWritten Expr.isWritten Operand.IsQuoteless
      fun name => '"' ∉ name.toList where
  temporary _ := trivial
  number _ _ := trivial
  string _ _ := trivial
  identifier _ word := notMem_of_isWord (by decide) word
  assignment _ _ word := notMem_of_isWord (by decide) word
  declaration _ _ word := notMem_of_isWord (by decide) word
  renamed _ _ count word := by
    simp [Operand.IsQuoteless, Naming.toList_renamed, quote_notMem_toDigits,
      notMem_of_isWord (show isWordPart '"' = false by decide) word]
  slot depth index := by
    unfold slotName
    split <;> simp [Operand.IsQuoteless, toString, quote_notMem_toDigits]
  call _ _ word := notMem_of_isWord (by decide) word
  function _ _ _ word := notMem_of_isWord (by decide) (Bool.and_eq_true_iff.mp word).1

variable {program : Program}

theorem isQuoteless_of_mem_lower (spelled : program.IsSpelled) {instruction : Instruction}
    (member : instruction ∈ program.lower) : ∀ event ∈ events instruction, event.IsQuoteless := by
  have fits := allFit_lower supplies_isQuoteless spelled.isWritten instruction member
  have stored {operand : Operand} (fit : operand.IsQuoteless) {name : String}
      (found : operand.storage? = some name) : '"' ∉ name.toList := by
    cases operand with
    | «variable» => cases found; exact fit
    | temporary => cases found; simp [Place.text, toString, quote_notMem_toDigits]
    | number | string => cases found
  intro event told
  rcases mem_append.mp told with (told | written)
  · rcases mem_append.mp told with (read | mark)
    · obtain ⟨_, found, rfl⟩ := mem_map.mp read
      obtain ⟨operand, reads, storage⟩ := mem_filterMap.mp found
      exact stored (fits.operands operand (mem_append_left _ reads)) storage
    · have named := fits.function
      cases instruction with
      | call | functionStart => cases mem_singleton.mp mark; exact named _ rfl
      | giveBack => cases mem_singleton.mp mark; trivial
      | _ => cases mark
  · obtain ⟨place, target, rfl⟩ := mem_map.mp written
    have fit := fits.operands place.operand (mem_append_right _ (mem_map_of_mem target))
    cases place <;> exact stored fit rfl

/-- Whatever holds of the events of a list holds of those of its elements. -/
theorem forall_events_of_mem {Element : Type} [Eventful Element] {list : List Element}
    {holds : Event → Prop} (all : ∀ entry ∈ eventsFrom {} list, holds entry.2)
    {element : Element} (member : element ∈ list) : ∀ event ∈ events element, holds event := by
  intro event told
  obtain ⟨_, found⟩ := mem_iff_getElem?.mp member
  exact all _ (mem_flatMap.mpr ⟨_, mem_placed {} found, mem_map_of_mem told⟩)

namespace Emit

/-! ## Lines without comments -/

variable {other : Instruction}

theorem sentences_line (depth : Nat) (sentence : Sentence) :
    (Draft.line depth sentence).sentences = [sentence] :=
  rfl

theorem comment_notMem_headed {plan : Introductions} {depth : Nat} {lines : Draft}
    (below : .comment other ∉ lines.sentences) :
    .comment other ∉ (headed plan depth lines).sentences := by
  unfold headed
  split
  · exact below
  · exact not_mem_append (show _ ∉ [Sentence.introduce _] by simp) below

mutual

/-- Nodes that are written as code leave no comment. -/
theorem comment_notMem_node (code : Node) (written : code.isWritten)
    (structured : code.IsStructured) (plan : Introductions) (level depth : Nat)
    (known : KnownNames) :
    .comment other ∉ ((node plan level depth code).run known).1.sentences := by
  cases code with
  | simple instruction =>
    cases instruction with
    | assign | binary | print | giveBack => exact fun member => nomatch mem_singleton.mp member
    | _ => cases written
  | call name arguments result =>
    cases result <;> exact fun member => nomatch mem_singleton.mp member
  | ifThen condition body =>
    have inside := comment_notMem_nodes body written structured
    simp [run_ifThen, sentences_line, Draft.sentences_append, inside]
  | ifElse condition body alternative =>
    obtain ⟨bodyWritten, otherWritten⟩ := Bool.and_eq_true_iff.mp written
    have inside := comment_notMem_nodes body bodyWritten structured.1
    have otherwise := comment_notMem_nodes alternative otherWritten structured.2
    simp [run_ifElse, sentences_line, Draft.sentences_append, inside, otherwise]
  | loop before condition body =>
    obtain ⟨beforeWritten, bodyWritten⟩ := Bool.and_eq_true_iff.mp written
    have start := comment_notMem_nodes before beforeWritten structured.1
    have inside := comment_notMem_nodes body bodyWritten structured.2
    cases before with
    | nil => simp [run_while, sentences_line, Draft.sentences_append, inside]
    | cons => simp [run_forever, sentences_line, Draft.sentences_append, start, inside]
  | function name parameters body =>
    have inside := comment_notMem_nodes body written structured
    simp [run_function, sentences_line, Draft.sentences_append, comment_notMem_headed, inside]
  | unstructured => exact structured.elim

theorem comment_notMem_nodes (code : List Node) (written : Node.areWritten code)
    (structured : Node.AreStructured code) (plan : Introductions) (level depth : Nat)
    (known : KnownNames) :
    .comment other ∉ ((nodes plan level depth code).run known).1.sentences := by
  cases code with
  | nil => exact not_mem_nil
  | cons first rest =>
    simp only [Node.areWritten, Bool.and_eq_true] at written
    rw [run_cons, Draft.sentences_append]
    exact not_mem_append
      (comment_notMem_node first written.1 structured.1 plan level depth known)
      (comment_notMem_nodes rest written.2 structured.2 plan level depth _)

end

end Emit

/-! ## Literals of a program -/

/-- The literals of the listing and of the script of a program are the strings that are read
there. -/
theorem Options.scans_listing_and_script (options : Options) (spelled : program.IsSpelled) :
    let code := (options.improve program.lower).1
    Scans (Instruction.listing code)
        (code.flatMap fun instruction => instruction.reads.flatMap Operand.literals) ∧
      Scans (Script.ofCode code).render ((options.sentences program).flatMap fun sentence =>
        sentence.operands.flatMap Operand.literals) := by
  intro code
  have told : ∀ entry ∈ eventsFrom {} code, entry.2.IsQuoteless := by
    intro entry member
    obtain ⟨_, there, inside⟩ := mem_flatMap.mp
      (options.eventsFrom_improve_subset program.lower {} member)
    obtain ⟨event, told, rfl⟩ := mem_map.mp inside
    obtain ⟨_, found, _⟩ := exists_of_mem_placed there
    exact isQuoteless_of_mem_lower spelled (mem_of_getElem? found) event told
  have kept : ∀ instruction ∈ code, instruction.computed? = none → instruction ∈ program.lower :=
    @Options.improve_of_rewrites
      (fun code => ∀ instruction ∈ code, instruction.computed? = none → instruction ∈ program.lower)
      (fun _ _ rewrites kept instruction member plain =>
        kept instruction ((rewrites.mem_iff plain).mp member) plain)
      options program.lower fun _ member _ => member
  have composed := (Emit.composed_ofNodes (Node.areWritten_recover code)).introducesUsed
  have lines := options.eventsFrom_sentences program ▸ told
  constructor
  · refine Instruction.scans_listing fun instruction member => ?_
    refine instruction.scans (forall_events_of_mem told member) fun name found => ?_
    have plain : instruction.computed? = none := by
      cases instruction <;> first | rfl | cases found
    exact (allFit_lower supplies_isQuoteless spelled.isWritten instruction
      (kept instruction member plain)).function name found
  · refine Draft.scans_render fun sentence member => ?_
    refine sentence.scans (forall_events_of_mem lines member) ?_ ?_
    · intro name bound
      rcases composed.bound sentence member name bound with introduced | ⟨level, count, slot⟩
      · obtain ⟨_, found⟩ := mem_iff_getElem?.mp member
        exact lines _ (composed.used {} _ (mem_placed {} found) name introduced)
      · obtain ⟨index, _, rfl⟩ := mem_map.mp slot
        exact supplies_isQuoteless.slot level index
    · rintro instruction rfl
      refine Emit.comment_notMem_headed ?_ member
      exact Emit.comment_notMem_nodes _ (Node.areWritten_recover code)
        (options.isCodeOf_improve program).recover.1 _ _ _ _

/-- A literal is told from every other one whatever stands behind it, is read up to its own
closing quote, and stands on one line.  So whoever reads the listing or the script of a
program, optimized or not, finds the strings that its code mentions and nothing else. -/
theorem literals?_listing_and_script :
    (∀ (first second : String) (rest otherRest : List Char),
      (quoted first).toList ++ rest = (quoted second).toList ++ otherRest →
        first = second ∧ rest = otherRest) ∧
    (∀ (contents : String) (rest : List Char), ∃ behind,
      (quoted contents).toList ++ rest = '"' :: behind ∧
        unquote? behind = some (contents.toList, rest)) ∧
    (∀ contents : String,
      '\n' ∉ (quoted contents).toList ∧ '\r' ∉ (quoted contents).toList) ∧
    ∀ (options : Options) (program : Program), program.IsSpelled →
      let code := (options.improve program.lower).1
      literals? (Instruction.listing code).toList =
          some (code.flatMap fun instruction => instruction.reads.flatMap Operand.literals) ∧
        literals? (Script.ofCode code).render.toList =
          some ((options.sentences program).flatMap fun sentence =>
            sentence.operands.flatMap Operand.literals) := by
  refine ⟨fun _ _ _ _ => eq_of_quoted_append_eq, unquote?_quoted, notMem_quoted, ?_⟩
  intro options program spelled
  obtain ⟨listed, scripted⟩ := options.scans_listing_and_script spelled
  exact ⟨listed.literals?_eq, scripted.literals?_eq⟩

/-- The first string ends with a backslash, the second one with a line break. -/
def showingBackslash : Program :=
  ⟨[.declaration "x" (some (.literal (.string "\\"))),
    .print (.binary .add (.identifier "x") (.literal (.string "; y\n")))]⟩

/-- The backslash stays inside of its literals, and the line break becomes an escape. -/
theorem literals?_showingBackslash :
    let code := (({} : Options).improve showingBackslash.lower).1
    showingBackslash.IsSpelled ∧
      literals? (Instruction.listing code).toList = some ["\\", "; y\n"] ∧
      literals? (Script.ofCode code).render.toList = some ["\\", "; y\n"] := by
  have spelled : showingBackslash.IsSpelled :=
    ⟨"dhore x = \"\\\"; dekhao(x + \"; y\n\");", by decide +kernel⟩
  obtain ⟨listed, scripted⟩ := literals?_listing_and_script.2.2.2 {} showingBackslash spelled
  refine ⟨spelled, listed.trans rfl, scripted.trans ?_⟩
  rw [Options.sentences, Draft.ofCode_improve rfl]
  rfl

end BanglaScript
