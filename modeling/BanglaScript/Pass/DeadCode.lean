import BanglaScript.Instruction

/-!
# Dead code elimination

Assignments to temporaries that nothing reads are dropped.  Assignments to
variables stay, and so do copies of another temporary, which is why a second
sweep finds nothing more to drop.
-/

namespace BanglaScript.Pass

/-- Some instruction of the code reads the temporary. -/
def isRead (code : List Instruction) (temporary : Nat) : Bool :=
  code.any fun instruction => instruction.readsPlace (.temporary temporary)

/-- The instruction stays in the code. -/
def isLive (code : List Instruction) : Instruction → Bool
  | .assign (.temporary number) value => isRead code number ∨ value.temporary?.isSome
  | _ => true

/-- Dead code elimination over a whole program. -/
def dropUnread (code : List Instruction) : List Instruction := code.filter (isLive code)

end BanglaScript.Pass
