import BanglaScript.Proofs.Machine

/-!
# Values of scripts

The operations of the instructions are carried out by the operators of the
script.  Its `+` adds numbers, but joins texts, the left one first, as soon as
one of its operands is a string.  The other arithmetic operators compute with
numbers only.  So multiplication may exchange its operands, and addition may do
so as long as neither of them is a string.
-/

namespace BanglaScript

/-! ## Rounded arithmetic -/

namespace Number

open Float.Model (Format UnpackedFloat)

theorem sign_mul_comm (lhs rhs : UnpackedFloat.Sign) : lhs * rhs = rhs * lhs := by
  cases lhs <;> cases rhs <;> rfl

theorem unpacked_add_comm (format : Format) (lhs rhs : UnpackedFloat) :
    UnpackedFloat.add format lhs rhs = UnpackedFloat.add format rhs lhs := by
  cases lhs <;> cases rhs <;> dsimp only [UnpackedFloat.add]
  case infinity.infinity leftSign rightSign => cases leftSign <;> cases rightSign <;> rfl
  case zero.zero leftSign rightSign => cases leftSign <;> cases rightSign <;> rfl
  case finite.finite => simp only [Int.add_comm, Int.min_comm]

theorem unpacked_mul_comm (format : Format) (lhs rhs : UnpackedFloat) :
    UnpackedFloat.mul format lhs rhs = UnpackedFloat.mul format rhs lhs := by
  cases lhs <;> cases rhs <;> dsimp only [UnpackedFloat.mul] <;>
    simp only [sign_mul_comm, Nat.mul_comm, Int.add_comm]

/-- The rounded sum does not depend on the order. -/
theorem add_comm (lhs rhs : Number) : lhs.add rhs = rhs.add lhs :=
  congrArg (fun sum => ofFloat (.ofModel (.pack sum))) (unpacked_add_comm _ _ _)

/-- The rounded product does not depend on the order. -/
theorem mul_comm (lhs rhs : Number) : lhs.mul rhs = rhs.mul lhs :=
  congrArg (fun product => ofFloat (.ofModel (.pack product))) (unpacked_mul_comm _ _ _)

end Number

/-! ## Values -/

/-- What a script computes with. -/
inductive ScriptValue where
  | number (value : Number)
  | string (contents : String)
  | boolean (value : Bool)
  | undefined
deriving DecidableEq

/-- What a script does beyond arithmetic: how it reads other values as texts
and as numbers, what comparisons and shifts give, and which values are true. -/
structure Conversions where
  text : ScriptValue → String
  number : ScriptValue → Number
  compare : BinaryOperator → ScriptValue → ScriptValue → ScriptValue
  shiftLeft : ScriptValue → ScriptValue → ScriptValue
  shiftRight : ScriptValue → ScriptValue → ScriptValue
  isTrue : ScriptValue → Bool

namespace ScriptValue

variable (conversions : Conversions)

/-- The value is a string. -/
def isString : ScriptValue → Bool
  | string _ => true
  | _ => false

/-- The text that is joined.  A string is its own text. -/
def joined : ScriptValue → String
  | string contents => contents
  | value => conversions.text value

/-- The number that is computed with.  A number is itself. -/
def counted : ScriptValue → Number
  | number value => value
  | value => conversions.number value

/-- The `+` of scripts. -/
def plus (lhs rhs : ScriptValue) : ScriptValue :=
  if lhs.isString ∨ rhs.isString then string (lhs.joined conversions ++ rhs.joined conversions)
  else number ((lhs.counted conversions).add (rhs.counted conversions))

/-- The operators of scripts. -/
def apply : BinaryOperator → ScriptValue → ScriptValue → ScriptValue
  | .add, lhs, rhs => plus conversions lhs rhs
  | .subtract, lhs, rhs => number ((lhs.counted conversions).sub (rhs.counted conversions))
  | .multiply, lhs, rhs => number ((lhs.counted conversions).mul (rhs.counted conversions))
  | .divide, lhs, rhs => number ((lhs.counted conversions).div (rhs.counted conversions))
  | comparison, lhs, rhs => conversions.compare comparison lhs rhs

/-- The texts of the values join to the same text in either order, if they are
joined at all. -/
def JoinAlike (lhs rhs : ScriptValue) : Prop :=
  lhs.isString ∨ rhs.isString →
    lhs.joined conversions ++ rhs.joined conversions =
      rhs.joined conversions ++ lhs.joined conversions

variable {conversions}

theorem plus_comm {lhs rhs : ScriptValue} (alike : JoinAlike conversions lhs rhs) :
    plus conversions lhs rhs = plus conversions rhs lhs := by
  unfold plus
  by_cases joins : lhs.isString ∨ rhs.isString
  · rw [if_pos joins, if_pos joins.symm, alike joins]
  · rw [if_neg joins, if_neg (fun exchanged => joins exchanged.symm), Number.add_comm]

end ScriptValue

/-- One choice of conversions, by which small programs can be run.  It is coarser than
scripts are: no string reads as a number, equality compares data, and orders and shifts
say no to all values. -/
def Conversions.coarse : Conversions where
  text
    | .number value => value.scriptText
    | .string contents => contents
    | .boolean value => toString value
    | .undefined => "undefined"
  number
    | .boolean true => .ofNat 1
    | .boolean false => .ofNat 0
    | _ => (Number.ofNat 0).div (.ofNat 0)
  compare
    | .equal, lhs, rhs => .boolean (lhs = rhs)
    | .notEqual, lhs, rhs => .boolean (lhs ≠ rhs)
    | _, _, _ => .boolean false
  shiftLeft _ _ := .boolean false
  shiftRight _ _ := .boolean false
  isTrue
    | .number value => ¬ value.isZero ∧ ¬ value.isNaN
    | .string contents => contents ≠ ""
    | .boolean value => value
    | .undefined => false

/-- Running instructions with the values of scripts. -/
def Meaning.script (conversions : Conversions) : Meaning ScriptValue where
  number := .number
  string := .string
  boolean := .boolean
  undefined := .undefined
  apply := ScriptValue.apply conversions
  shiftLeft := conversions.shiftLeft
  shiftRight := conversions.shiftRight
  isTrue := conversions.isTrue

/-- Operations that may exchange their operands do so, if addition joins the
same text in either order. -/
theorem Meaning.operate_script_comm {conversions : Conversions} {opcode : Opcode}
    (commutes : opcode.isCommutative) {lhs rhs : ScriptValue}
    (alike : opcode = .add → ScriptValue.JoinAlike conversions lhs rhs) :
    (script conversions).operate opcode lhs rhs = (script conversions).operate opcode rhs lhs := by
  cases opcode with
  | add => exact ScriptValue.plus_comm (alike rfl)
  | mul => exact congrArg ScriptValue.number (Number.mul_comm _ _)
  | _ => cases commutes

end BanglaScript
