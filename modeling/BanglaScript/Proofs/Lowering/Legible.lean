import BanglaScript.Proofs.Lowering.Mentioned
import BanglaScript.Proofs.Number.Written
import BanglaScript.Proofs.Parser.Words
import BanglaScript.Proofs.Text.Quoting
import BanglaScript.Proofs.Token.Spaced

/-!
# Texts of operands

Operands are told apart by their texts where values are reused and where the variables
of a script are planned.  A string starts with a quote, a number with a sign or a
digit, and everything else with a letter; equal texts of strings come from equal
strings and equal texts of finite numbers from equal numbers.  A variable, however, can
be called like a temporary.  This is the only way in which different operands of a
program have the same text.
-/

namespace BanglaScript

variable {code : List Instruction} {name : String}

/-- The operand is a variable that is called like the other one, a temporary. -/
def Operand.isCalledLike : Operand → Operand → Bool
  | .variable name, .temporary index => name = (Place.temporary index).text
  | _, _ => false

/-- The text tells every operand of the code, its storage tells every operand that is
stored, and the key of an operation tells its operands up to an exchange. -/
structure Code.TellsApart (code : List Instruction) : Prop where
  text : ∀ first ∈ operands code, ∀ second ∈ operands code, first.text = second.text →
    first = second
  storage : ∀ first ∈ operands code, ∀ second ∈ operands code, first.storage? ≠ none →
    first.storage? = second.storage? → first = second
  key : ∀ lhs ∈ operands code, ∀ rhs ∈ operands code, ∀ otherLhs ∈ operands code,
    ∀ otherRhs ∈ operands code, ∀ opcode otherOpcode,
      Pass.ExpressionKey.of opcode lhs rhs = Pass.ExpressionKey.of otherOpcode otherLhs otherRhs →
        opcode = otherOpcode ∧ (lhs = otherLhs ∧ rhs = otherRhs ∨
          opcode.isCommutative ∧ lhs = otherRhs ∧ rhs = otherLhs)

/-- Whatever tells operands apart by their texts tells apart what is named by texts. -/
theorem Code.TellsApart.of_text
    (text : ∀ first ∈ operands code, ∀ second ∈ operands code, first.text = second.text →
      first = second) : TellsApart code where
  text := text
  storage first firstMember second secondMember stored same := by
    refine text first firstMember second secondMember ?_
    have named {operand : Operand} {name : String} (found : operand.storage? = some name) :
        operand.text = name := by
      cases operand <;> cases found <;> rfl
    obtain ⟨_, found⟩ := Option.ne_none_iff_exists'.mp stored
    rw [named found, named (same ▸ found)]
  key lhs lhsMember rhs rhsMember otherLhs otherLhsMember otherRhs otherRhsMember opcode
      otherOpcode same := by
    -- Either key may have its operands put in order, and then its operation commutes.
    unfold Pass.ExpressionKey.of at same
    split_ifs at same with exchanged otherExchanged otherExchanged
    all_goals
      simp only [Pass.ExpressionKey.mk.injEq] at same
      obtain ⟨rfl, left, right⟩ := same
    · exact ⟨rfl, .inl ⟨text _ lhsMember _ otherLhsMember right,
        text _ rhsMember _ otherRhsMember left⟩⟩
    · exact ⟨rfl, .inr ⟨exchanged.1, text _ lhsMember _ otherRhsMember right,
        text _ rhsMember _ otherLhsMember left⟩⟩
    · exact ⟨rfl, .inr ⟨otherExchanged.1, text _ lhsMember _ otherRhsMember left,
        text _ rhsMember _ otherLhsMember right⟩⟩
    · exact ⟨rfl, .inl ⟨text _ lhsMember _ otherLhsMember left,
        text _ rhsMember _ otherRhsMember right⟩⟩

/-! ## First characters -/

theorem Place.toList_text_temporary (index : Nat) :
    (temporary index).text.toList = 't' :: Nat.toDigits 10 index := by
  simp [text, toString]

namespace Operand

variable {value : Number}

/-- A variable starts with a letter, and a number is finite. -/
def IsLegible : Operand → Prop
  | .variable name => name.toList.head?.any isWordStart
  | .number value => value.isFinite
  | _ => True

theorem toList_text_temporary (index : Nat) :
    (temporary index).text.toList = 't' :: Nat.toDigits 10 index :=
  Place.toList_text_temporary index

theorem isPlain_script : (⟨"Infinity", "", none⟩ : Layout).IsPlain := ⟨rfl, rfl⟩

/-- The text of a number starts neither with a letter nor with a quote. -/
theorem exists_text_number (finite : value.isFinite) :
    ∃ first rest, (number value).text.toList = first :: rest ∧ isWordStart first = false ∧
      first ≠ '"' := by
  obtain ⟨first, rest, written, start⟩ := Layout.exists_write isPlain_script finite
  refine ⟨first, rest, written, ?_⟩
  rcases start with ⟨-, rfl⟩ | ⟨-, digit⟩
  · decide
  · have decimal : isDigit first := by simpa [isDigit, Char.isDigit, Char.le_def] using digit
    refine ⟨Lexeme.isWordStart_eq_false_of_isDigit decimal, ?_⟩
    rintro rfl
    exact absurd digit (by decide)

/-- The text of an operand starts with a letter exactly if the operand is a place. -/
theorem startsWord_text {operand : Operand} (legible : operand.IsLegible) :
    operand.text.toList.head?.any isWordStart = operand.place?.isSome := by
  rcases operand with name | index | value | contents
  · exact legible
  · rw [toList_text_temporary]
    rfl
  · obtain ⟨_, _, written, noWord, -⟩ := exists_text_number legible
    rw [written]
    exact noWord
  · rw [text, Text.toList_quoted]
    rfl

theorem text_number_ne_string (finite : value.isFinite) {contents : String} :
    (number value).text ≠ (string contents).text := by
  intro same
  obtain ⟨_, _, written, -, noQuote⟩ := exists_text_number finite
  rw [same, text, Text.toList_quoted] at written
  exact noQuote (List.cons.inj written).1.symm

variable {first second : Operand}

theorem text_eq_of_isCalledLike (called : first.isCalledLike second) :
    first.text = second.text := by
  unfold isCalledLike at called
  split at called
  · exact of_decide_eq_true called
  · cases called

theorem exists_of_isCalledLike (called : first.isCalledLike second) :
    ∃ index, second = .temporary index := by
  unfold isCalledLike at called
  split at called
  · exact ⟨_, rfl⟩
  · cases called

/-- Two legible operands have the same text exactly if they are the same or one is called
like the other. -/
theorem text_eq_iff (legible : first.IsLegible) (otherLegible : second.IsLegible) :
    first.text = second.text ↔
      first = second ∨ first.isCalledLike second ∨ second.isCalledLike first := by
  constructor
  · intro same
    -- A place can only meet a place, so a literal is compared with literals only.
    have words : first.place?.isSome = second.place?.isSome := by
      rw [← startsWord_text legible, ← startsWord_text otherLegible, same]
    rcases first with name | index | value | contents
    · rcases second with otherName | otherIndex | otherValue | otherContents
      · exact .inl (congrArg Operand.variable same)
      · exact .inr (.inl (decide_eq_true same))
      all_goals cases words
    · rcases second with otherName | otherIndex | otherValue | otherContents
      · exact .inr (.inr (decide_eq_true same.symm))
      · have lists := congrArg String.toList same
        rw [toList_text_temporary, toList_text_temporary] at lists
        exact .inl (congrArg temporary (Naming.toDigits_injective (List.cons.inj lists).2))
      all_goals cases words
    · rcases second with otherName | otherIndex | otherValue | otherContents
      case number =>
        have values := Layout.eq_of_write_eq isPlain_script legible otherLegible same
        exact .inl (congrArg number values)
      case string => exact absurd same (text_number_ne_string legible)
      all_goals cases words
    · rcases second with otherName | otherIndex | otherValue | otherContents
      case number => exact absurd same.symm (text_number_ne_string otherLegible)
      case string => exact .inl (congrArg string (Text.quoted_injective same))
      all_goals cases words
  · rintro (rfl | called | called)
    · rfl
    · exact text_eq_of_isCalledLike called
    · exact (text_eq_of_isCalledLike called).symm

end Operand

/-- The texts of legible operands tell them apart exactly if none is called like another. -/
theorem Code.tellsApart_iff (legible : ∀ operand ∈ operands code, operand.IsLegible) :
    TellsApart code ↔
      ∀ first ∈ operands code, ∀ second ∈ operands code, ¬ first.isCalledLike second := by
  refine ⟨fun apart first firstMember second secondMember called => ?_, fun free =>
    .of_text fun first firstMember second secondMember same => ?_⟩
  · obtain rfl := apart.text first firstMember second secondMember
      (Operand.text_eq_of_isCalledLike called)
    obtain ⟨_, rfl⟩ := Operand.exists_of_isCalledLike called
    cases called
  · rcases (Operand.text_eq_iff (legible first firstMember) (legible second secondMember)).mp same
      with same | called | called
    · exact same
    · exact absurd called (free first firstMember second secondMember)
    · exact absurd called (free second secondMember first firstMember)

/-! ## Operands of a program -/

theorem startsWord_renamed (starts : name.toList.head?.any isWordStart) (count : Nat) :
    (Naming.renamed name count).toList.head?.any isWordStart := by
  rw [Naming.toList_renamed]
  cases letters : name.toList with
  | nil => simp [letters] at starts
  | cons => simpa [letters] using starts

theorem startsWord_slotName (depth index : Nat) :
    (slotName depth index).toList.head?.any isWordStart := by
  have outermost : (slotName 0 index).toList.head?.any isWordStart := by
    rw [Naming.toList_slotName]
    rfl
  by_cases inside : depth = 0
  · rwa [inside]
  · rw [Naming.slotName_eq_renamed inside]
    exact startsWord_renamed outermost depth

/-- The operands of a program whose names are words and whose numbers are finite are
legible. -/
theorem supplies_isLegible :
    Lower.Supplies Statement.isWritten Expr.isWritten Operand.IsLegible where
  temporary _ := trivial
  number _ finite := finite
  string _ _ := trivial
  identifier _ word := (Bool.and_eq_true_iff.mp word).1
  assignment _ _ word := (Bool.and_eq_true_iff.mp word).1
  declaration _ _ word := (Bool.and_eq_true_iff.mp word).1
  renamed _ _ count word := startsWord_renamed (Bool.and_eq_true_iff.mp word).1 count
  slot := startsWord_slotName

/-- The name is that of a temporary. -/
def isTemporaryName (name : String) : Bool :=
  name = (Place.temporary (Nat.ofDigitChars 10 name.toList.tail 0)).text

theorem isTemporaryName_text (index : Nat) : isTemporaryName (Place.temporary index).text := by
  rw [isTemporaryName, Place.toList_text_temporary, List.tail_cons, Nat.ofDigitChars_ten_toDigits]
  exact decide_eq_true rfl

theorem dollar_notMem_text_temporary (index : Nat) :
    '$' ∉ (Place.temporary index).text.toList := by
  rw [Place.toList_text_temporary, List.mem_cons, not_or]
  refine ⟨by decide, fun member => ?_⟩
  exact absurd (Layout.isDigit_of_mem_toDigits member) (by decide)

/-- An expression is not a variable that is called like a temporary. -/
def Expr.callsNoTemporary : Expr → Bool
  | .identifier name => !isTemporaryName name
  | _ => true

/-- A statement does not declare or assign a variable that is called like a temporary. -/
def Statement.callsNoTemporary : Statement → Bool
  | .declaration name _ | .assignment name _ => !isTemporaryName name
  | _ => true

/-- No variable of the program is called like a temporary. -/
def Program.callsNoTemporary (program : Program) : Bool :=
  Statement.allIn Statement.callsNoTemporary Expr.callsNoTemporary program.body

theorem not_isCalledLike_of_free (free : !isTemporaryName name) (index : Nat) :
    ¬ (Operand.variable name).isCalledLike (.temporary index) := by
  intro called
  rw [of_decide_eq_true called, isTemporaryName_text] at free
  cases free

theorem not_isCalledLike_renamed (name : String) (count index : Nat) :
    ¬ (Operand.variable (Naming.renamed name count)).isCalledLike (.temporary index) :=
  fun called =>
    Naming.renamed_ne (dollar_notMem_text_temporary index) count (of_decide_eq_true called)

theorem not_isCalledLike_slotName (depth slot index : Nat) :
    ¬ (Operand.variable (slotName depth slot)).isCalledLike (.temporary index) := by
  by_cases inside : depth = 0
  · intro called
    have letters := congrArg String.toList (of_decide_eq_true called)
    rw [inside, Naming.toList_slotName, Place.toList_text_temporary] at letters
    exact absurd (List.cons.inj letters).1 (by decide)
  · rw [Naming.slotName_eq_renamed inside]
    exact not_isCalledLike_renamed _ depth index

/-- No operand is called like a temporary unless the program has such a variable. -/
theorem supplies_not_isCalledLike :
    Lower.Supplies Statement.callsNoTemporary Expr.callsNoTemporary fun operand =>
      ∀ index, ¬ operand.isCalledLike (.temporary index) where
  temporary _ _ := nofun
  number _ _ _ := nofun
  string _ _ _ := nofun
  identifier _ free := not_isCalledLike_of_free free
  assignment _ _ free := not_isCalledLike_of_free free
  declaration _ _ free := not_isCalledLike_of_free free
  renamed name _ count _ := not_isCalledLike_renamed name count
  slot := not_isCalledLike_slotName

/-- Operands that a lowered program reads or writes have the same text exactly if they are
the same or one is a variable that is called like the other, a temporary.  So texts, and
the keys and names made of them, tell all operands of the program apart exactly if no
operand is called like another one, and they do so if the source calls no variable like a
temporary. -/
theorem tellsApart_lower {program : Program} (spelled : program.IsSpelled) :
    (∀ first ∈ Code.operands program.lower, ∀ second ∈ Code.operands program.lower,
      (first.text = second.text ↔
        first = second ∨ first.isCalledLike second ∨ second.isCalledLike first)) ∧
    (Code.TellsApart program.lower ↔
      ∀ first ∈ Code.operands program.lower, ∀ second ∈ Code.operands program.lower,
        ¬ first.isCalledLike second) ∧
    (program.callsNoTemporary → Code.TellsApart program.lower) := by
  have legible := forall_operands_lower supplies_isLegible spelled.isWritten
  refine ⟨fun first firstMember second secondMember => ?_, Code.tellsApart_iff legible,
    fun callsNone => (Code.tellsApart_iff legible).mpr ?_⟩
  · exact Operand.text_eq_iff (legible first firstMember) (legible second secondMember)
  · intro first firstMember second secondMember called
    obtain ⟨index, rfl⟩ := Operand.exists_of_isCalledLike called
    exact forall_operands_lower supplies_not_isCalledLike callsNone first firstMember index called

/-- Strings with the names of variables and temporaries, a variable that hides another
one, and a parameter. -/
def lookingAlike : Program :=
  ⟨[.declaration "a" (some (.literal (.string "a"))),
    .function "f" ["x"]
      [.giveBack (some (.binary .add (.identifier "x") (.literal (.string "t1"))))],
    .block [.declaration "a" (some (.binary .add (.identifier "a") (.literal (.string "param0")))),
      .print (.call "f" [.identifier "a"])]]⟩

/-- Their texts tell all of these operands apart. -/
theorem tellsApart_lookingAlike :
    lookingAlike.IsSpelled ∧ lookingAlike.callsNoTemporary ∧
      Code.operands lookingAlike.lower = [.string "a", .variable "a", .variable "param0",
        .string "t1", .temporary 1, .temporary 1, .variable "a", .string "param0", .temporary 2,
        .temporary 2, .variable "a$1", .variable "a$1", .temporary 3, .temporary 3] ∧
      Code.TellsApart lookingAlike.lower := by
  have spelled : lookingAlike.IsSpelled :=
    ⟨"dhore a = \"a\"; function f(x) \x7b ferot x + \"t1\"; \x7d " ++
      "\x7b dhore a = a + \"param0\"; dekhao(f(a)); \x7d", by decide +kernel⟩
  have callsNone : lookingAlike.callsNoTemporary := by decide
  exact ⟨spelled, callsNone, by decide, (tellsApart_lower spelled).2.2 callsNone⟩

/-- A variable that is called like the first temporary. -/
def callingTemporary : Program :=
  ⟨[.declaration "t1" (some (.literal (.string "x"))),
    .print (.binary .add (.identifier "t1") (.identifier "t1"))]⟩

/-- The operands of a valid program are not always told apart by their texts. -/
theorem not_tellsApart_callingTemporary :
    callingTemporary.IsSpelled ∧ (callingTemporary.check .flat).isValid ∧
      (callingTemporary.check .lexical).isValid ∧
      .variable "t1" ∈ Code.operands callingTemporary.lower ∧
      .temporary 1 ∈ Code.operands callingTemporary.lower ∧
      (Operand.variable "t1").text = (Operand.temporary 1).text ∧
      ¬ Code.TellsApart callingTemporary.lower := by
  have read : .variable "t1" ∈ Code.operands callingTemporary.lower := by decide
  have written : .temporary 1 ∈ Code.operands callingTemporary.lower := by decide
  have same : (Operand.variable "t1").text = (Operand.temporary 1).text := by decide
  refine ⟨⟨"dhore t1 = \"x\"; dekhao(t1 + t1);", by decide +kernel⟩, by decide, by decide, read,
    written, same, fun apart => ?_⟩
  cases apart.text _ read _ written same

end BanglaScript
