import BanglaScript.Text.Quoted
import Mathlib.Data.List.Basic

/-!
# Reading literals

A literal can be read again whatever stands behind it: each of its characters is read
from its escape or from itself, and the first quote without a backslash ends it.
-/

namespace BanglaScript.Text

/-- The character that an escape stands for. -/
def unescape? (escape : Char) : Option Char :=
  if escape = '\\' ∨ escape = '"' then some escape
  else if escape = 'n' then some '\n'
  else if escape = 'r' then some '\r'
  else if escape = 't' then some '\t'
  else none

/-- The contents of a literal behind its opening quote, and the text behind the literal. -/
def unquote? : List Char → Option (List Char × List Char)
  | [] => none
  | character :: rest =>
    if character = '"' then some ([], rest)
    else if character = '\\' then
      match rest with
      | [] => none
      | escape :: rest => do
        let character ← unescape? escape
        let (contents, behind) ← unquote? rest
        return (character :: contents, behind)
    else do
      let (contents, behind) ← unquote? rest
      return (character :: contents, behind)

/-- A character is read from its form inside a literal. -/
theorem unquote?_quoteCharacter (character : Char) {contents rest behind : List Char}
    (read : unquote? rest = some (contents, behind)) :
    unquote? (quoteCharacter character ++ rest) = some (character :: contents, behind) := by
  unfold quoteCharacter
  split_ifs with backslash quote feed carriage tab
  case neg =>
    rw [List.singleton_append]
    unfold unquote?
    simp [backslash, quote, read]
  all_goals simp [unquote?, unescape?, *]

/-- Reading undoes quoting and stops behind the closing quote. -/
theorem unquote?_flatMap (contents rest : List Char) :
    unquote? (contents.flatMap quoteCharacter ++ '"' :: rest) = some (contents, rest) := by
  induction contents with
  | nil =>
    rw [List.flatMap_nil, List.nil_append]
    unfold unquote?
    rfl
  | cons character contents ih =>
    rw [List.flatMap_cons, List.append_assoc]
    exact unquote?_quoteCharacter character ih

theorem toList_quoted (text : String) :
    (quoted text).toList = '"' :: (text.toList.flatMap quoteCharacter ++ ['"']) := by
  simp [quoted]

/-- Behind its opening quote, a literal is read up to its closing quote. -/
theorem unquote?_quoted (text : String) (rest : List Char) :
    ∃ behind, (quoted text).toList ++ rest = '"' :: behind ∧
      unquote? behind = some (text.toList, rest) := by
  refine ⟨_, by rw [toList_quoted, List.cons_append], ?_⟩
  rw [List.append_assoc]
  exact unquote?_flatMap text.toList rest

/-- Literals are told apart whatever stands behind them. -/
theorem eq_of_quoted_append_eq {first second : String} {rest otherRest : List Char}
    (same : (quoted first).toList ++ rest = (quoted second).toList ++ otherRest) :
    first = second ∧ rest = otherRest := by
  obtain ⟨_, opened, read⟩ := unquote?_quoted first rest
  obtain ⟨_, otherOpened, otherRead⟩ := unquote?_quoted second otherRest
  rw [opened, otherOpened] at same
  cases same
  obtain ⟨contents, others⟩ := Prod.mk.inj (Option.some.inj (read.symm.trans otherRead))
  exact ⟨String.toList_inj.mp contents, others⟩

theorem quoted_injective : Function.Injective quoted := by
  intro first second same
  have whole : (quoted first).toList ++ [] = (quoted second).toList ++ [] := by rw [same]
  exact (eq_of_quoted_append_eq whole).1

/-- A literal stands on one line. -/
theorem notMem_quoted (text : String) :
    '\n' ∉ (quoted text).toList ∧ '\r' ∉ (quoted text).toList := by
  have plain (character : Char) :
      '\n' ∉ quoteCharacter character ∧ '\r' ∉ quoteCharacter character := by
    unfold quoteCharacter
    split_ifs <;> simp [Ne.symm, *]
  simp [toList_quoted, plain]

end BanglaScript.Text
