import BanglaScript.Proofs.Check.Called

/-!
# Where names are declared and used

Checking and lowering walk through the same program.  Each walk tells where it
declares variables and parameters, and where it looks a name up: at every
identifier of an expression and at the target of every assignment.  Checking tells
the numbers of the declared symbols and the tables in which names are looked up,
lowering tells the names that it gives and the names in use where it resolves
one.

Both walks go through the states of the real runs.
-/

namespace BanglaScript

/-- A place of a program where a name is declared or used. -/
inductive Mention (Declared Used : Type) where
  | declared (name : String) (result : Declared)
  | used (name : String) (state : Used)
deriving DecidableEq

/-- The number of the declared symbol, or the table in which a name is looked
up. -/
abbrev CheckMention := Mention Nat SymbolTable

/-- The name that a declaration gets, or the names in use where one is
resolved. -/
abbrev LowerMention := Mention String Naming

/-! ## Checking -/

namespace Check

mutual

/-- The identifiers of an expression are looked up, from left to right. -/
def uses : Expr → Findings → List CheckMention
  | .literal _, _ => []
  | .identifier name, findings => [.used name findings.table]
  | .binary _ lhs rhs, findings =>
    uses lhs findings ++ uses rhs ((expression lhs).run findings).2
  | .call _ arguments, findings => usesAll arguments findings

/-- The identifiers of several expressions are looked up. -/
def usesAll : List Expr → Findings → List CheckMention
  | [], _ => []
  | first :: rest, findings =>
    uses first findings ++ usesAll rest ((expression first).run findings).2

end

/-- The state inside of a new block. -/
def opened (findings : Findings) : Findings := ((update (·.openBlock)).run findings).2

/-- The number that a declaration gives depends neither on the type nor on the
kind of the symbol. -/
def declares (name : String) (findings : Findings) : CheckMention :=
  .declared name (findings.table.declare name .any .variable).1

/-- Parameters are declared one after the other. -/
def parameterMentions : List String → Findings → List CheckMention
  | [], _ => []
  | name :: rest, findings =>
    declares name findings ::
      parameterMentions rest ((declare name .any .parameter true).run findings).2

/-- The state in which the parameters of a function are declared. -/
def enteredFunction (name : String) (parameters : List String) (findings : Findings) : Findings :=
  ((do
    declare name .function .function true
    note (.functionDeclared name parameters.length)
    update (·.openFunction name) : Check Unit).run findings).2

mutual

/-- What checking a statement mentions. -/
def mentions : Statement → Findings → List CheckMention
  | .declaration name none, findings => [declares name findings]
  | .declaration name (some value), findings =>
    uses value findings ++ [declares name ((expression value).run findings).2]
  | .assignment name value, findings =>
    uses value findings ++ [.used name ((expression value).run findings).2.table]
  | .ifThen test body, findings =>
    uses test findings ++
      mentionsAll body (opened ((condition .conditional test).run findings).2)
  | .ifElse test body alternative, findings =>
    let tested := ((condition .conditional test).run findings).2
    uses test findings ++ mentionsAll body (opened tested) ++
      mentionsAll alternative (opened ((inBlock (statements body)).run tested).2)
  | .repeatWhile test body, findings =>
    uses test findings ++ mentionsAll body (opened ((condition .loop test).run findings).2)
  | .block body, findings => mentionsAll body (opened findings)
  | .function name parameters body, findings =>
    let entered := enteredFunction name parameters findings
    parameterMentions parameters entered ++
      mentionsAll body (opened ((declareParameters parameters).run entered).2)
  | .giveBack none, _ => []
  | .giveBack (some value), findings | .print value, findings | .expression value, findings =>
    uses value findings

/-- What checking statements one after the other mentions. -/
def mentionsAll : List Statement → Findings → List CheckMention
  | [], _ => []
  | first :: rest, findings =>
    mentions first findings ++ mentionsAll rest ((statement first).run findings).2

end

end Check

/-! ## Lowering -/

namespace Lower

mutual

/-- The identifiers of an expression are resolved, from left to right. -/
def uses : Expr → Naming → List LowerMention
  | .literal _, _ => []
  | .identifier name, naming => [.used name naming]
  | .binary _ lhs rhs, naming => uses lhs naming ++ uses rhs ((expression lhs).run naming).2
  | .call _ arguments, naming => usesAll arguments naming

/-- The identifiers of several expressions are resolved. -/
def usesAll : List Expr → Naming → List LowerMention
  | [], _ => []
  | first :: rest, naming =>
    uses first naming ++ usesAll rest ((expression first).run naming).2

end

/-- A variable gets its name. -/
def declares (name : String) (naming : Naming) : LowerMention :=
  .declared name ((declare name).run naming).1

/-- Parameters get the names of their slots. -/
def parameterMentions (depth : Nat) (parameters : List String) : List LowerMention :=
  parameters.zipIdx.map fun entry => .declared entry.1 (slotName depth entry.2)

mutual

/-- What lowering a statement mentions. -/
def mentions : Statement → Naming → List LowerMention
  | .declaration name none, naming => [declares name naming]
  | .declaration name (some value), naming =>
    uses value naming ++ [declares name ((expression value).run naming).2]
  | .assignment name value, naming =>
    uses value naming ++ [.used name ((expression value).run naming).2]
  | .ifThen condition body, naming =>
    let tested := ((do let _ ← expression condition; let _ ← label; label).run naming).2
    uses condition naming ++ mentionsAll body tested.openScope
  | .ifElse condition body alternative, naming =>
    let tested := ((do
      let _ ← expression condition
      let _ ← label
      let _ ← label
      label).run naming).2
    uses condition naming ++ mentionsAll body tested.openScope ++
      mentionsAll alternative ((inScope (statements body)).run tested).2.openScope
  | .repeatWhile condition body, naming =>
    let labelled := ((do let _ ← label; let _ ← label; label).run naming).2
    uses condition labelled ++
      mentionsAll body ((expression condition).run labelled).2.openScope
  | .block body, naming => mentionsAll body naming.openScope
  | .function _ parameters body, naming =>
    let entered := (label.run naming).2
    parameterMentions entered.functions parameters ++
      mentionsAll body (entered.openFunction parameters).openScope
  | .giveBack none, _ => []
  | .giveBack (some value), naming | .print value, naming | .expression value, naming =>
    uses value naming

/-- What lowering statements one after the other mentions. -/
def mentionsAll : List Statement → Naming → List LowerMention
  | [], _ => []
  | first :: rest, naming =>
    mentions first naming ++ mentionsAll rest ((statement first).run naming).2

end

end Lower

/-! ## Both walks -/

/-- What both walks have mentioned, step by step. -/
abbrev MentionLog := List (CheckMention × LowerMention)

namespace MentionLog

/-- A declaration gives the symbol with its number a name. -/
def record (given : Nat → Option String) : CheckMention × LowerMention → Nat → Option String
  | (.declared _ number, .declared _ generated) => Function.update given number (some generated)
  | _ => given

/-- The name that was given to the symbol with a number when it was declared, the
last time if it was declared several times. -/
def given? (log : MentionLog) : Nat → Option String := log.foldl record fun _ => none

theorem given?_append (log : MentionLog) (first : CheckMention) (second : LowerMention) :
    given? (log ++ [(first, second)]) = record log.given? (first, second) :=
  List.foldl_append

end MentionLog

/-- Both walks mention the same name in the same way.  A name that checking finds
to be a variable or a parameter is resolved by lowering to the name given to this
very symbol, and a name that it does not find is a truth value and resolved to
itself. -/
inductive Fits (log : MentionLog) : CheckMention → LowerMention → Prop where
  | declared (name : String) (number : Nat) (generated : String) :
      Fits log (.declared name number) (.declared name generated)
  | used {name : String} {table : SymbolTable} {naming : Naming}
      (found : ∀ symbol, table.lookup? name = some symbol → symbol.kind ≠ .function →
        ∃ number, table.resolve? name = some number ∧ table.get? number = some symbol ∧
          log.given? number = some (naming.resolve name))
      (missing : table.lookup? name = none →
        (name = "true" ∨ name = "false") ∧ naming.resolve name = name) :
      Fits log (.used name table) (.used name naming)

/-- The mentions of both walks fit, one after the other. -/
inductive Agree : MentionLog → List CheckMention → List LowerMention → Prop where
  | nil {log : MentionLog} : Agree log [] []
  | cons {log : MentionLog} {first : CheckMention} {second : LowerMention}
      {checked : List CheckMention} {lowered : List LowerMention} (fits : Fits log first second)
      (rest : Agree (log ++ [(first, second)]) checked lowered) :
      Agree log (first :: checked) (second :: lowered)

variable {log : MentionLog} {checked more : List CheckMention} {lowered others : List LowerMention}

theorem Agree.append (agree : Agree log checked lowered)
    (behind : Agree (log ++ checked.zip lowered) more others) :
    Agree log (checked ++ more) (lowered ++ others) := by
  induction agree with
  | nil => simpa using behind
  | cons fits _ ih => exact .cons fits (ih (by simpa using behind))

theorem Agree.zip_append (agree : Agree log checked lowered) :
    (checked ++ more).zip (lowered ++ others) = checked.zip lowered ++ more.zip others := by
  induction agree with
  | nil => rfl
  | cons _ _ ih => exact congrArg (_ :: ·) ih

end BanglaScript
