import BanglaScript.Proofs.Token.Culprit

/-!
# The caret of a report

A report shows the source line of its place behind a gutter that holds the number of
the line, and below it a row with a caret.  The gutter of the caret has a fixed width,
while the other one grows with the number.  So the caret stands below the character of
its column exactly if the number has at most three digits.
-/

namespace BanglaScript

namespace Text

theorem length_alignRight (width : Nat) (text : String) :
    (alignRight width text).length = max width text.length := by
  rw [alignRight, String.length_append, String.length_ofList, List.length_replicate]
  omega

end Text

open List Text

/-- A source line is a single row. -/
theorem Source.not_mem_of_line? {source : Source} {number : Nat} {line : String}
    (found : source.line? number = some line) : '\n' ∉ line.toList := by
  cases number with
  | zero => cases found
  | succ =>
    obtain ⟨_, listed, rfl⟩ := mem_map.mp (mem_of_getElem? found)
    rw [String.toList_ofList]
    exact not_mem_of_mem_splitLines listed

namespace Diagnostic

variable {Reason : Type}

/-- The reports that can be made: a cause, then moved, put into contexts and given the
line of a source, in any order. -/
inductive IsBuilt : Diagnostic Reason → Prop
  | bare (cause : Reason) : IsBuilt { cause }
  | located {diagnostic : Diagnostic Reason} (built : IsBuilt diagnostic) (position : Position) :
    IsBuilt (diagnostic.located position)
  | within {diagnostic : Diagnostic Reason} (built : IsBuilt diagnostic) (context : String) :
    IsBuilt (diagnostic.within context)
  | attach {diagnostic : Diagnostic Reason} (built : IsBuilt diagnostic) (source : Source) :
    IsBuilt (diagnostic.attach source)

variable {diagnostic : Diagnostic Reason} {position : Position} {snippet : String}

/-- What a report shows of a source is a single row. -/
theorem IsBuilt.single (built : diagnostic.IsBuilt) (shown : diagnostic.snippet = some snippet) :
    '\n' ∉ snippet.toList := by
  induction built with
  | bare => cases shown
  | located built position ih | within built context ih => exact ih shown
  | attach built source ih =>
    unfold Diagnostic.attach at shown
    split at shown
    · exact ih shown
    · exact Source.not_mem_of_line? shown

/-! ## The rows of a report -/

/-- What stands in front of the source line. -/
def gutter (position : Position) : String := alignRight 3 (toString position.line) ++ " | "

/-- The row of the caret. -/
def markerRow (position : Position) : String := "    | " ++ alignRight position.column "^"

theorem length_gutter (position : Position) :
    (gutter position).length = max 3 (toString position.line).length + 3 := by
  rw [gutter, String.length_append, length_alignRight]
  rfl

theorem single_gutter (position : Position) : '\n' ∉ (gutter position).toList := by
  have digits : '\n' ∉ Nat.toDigits 10 position.line := fun feed =>
    absurd (Nat.isDigit_of_mem_toDigits (by decide) (by decide) feed) (by decide)
  simp [gutter, alignRight, digits]

theorem toList_markerRow (position : Position) :
    (markerRow position).toList =
      "    | ".toList ++ (List.replicate (position.column - 1) ' ' ++ ['^']) := by
  have single : "^".length = 1 := rfl
  simp [markerRow, alignRight, single]

theorem count_markerRow (position : Position) : (markerRow position).toList.count '^' = 1 := by
  rw [toList_markerRow, count_append, count_append, count_replicate]
  rfl

theorem idxOf_markerRow (position : Position) :
    (markerRow position).toList.idxOf '^' = 6 + (position.column - 1) := by
  have blank : '^' ∉ List.replicate (position.column - 1) ' ' :=
    fun caret => nomatch eq_of_mem_replicate caret
  rw [toList_markerRow, idxOf_append, if_neg (by decide), idxOf_append, if_neg blank,
    length_replicate, Nat.add_comm]
  simp

theorem rows_append_contextText (text : String) (diagnostic : Diagnostic Reason) :
    rows (text ++ diagnostic.contextText) =
      rows text ++ diagnostic.contexts.flatMap fun context => rows ("while " ++ context) := by
  unfold contextText
  induction diagnostic.contexts generalizing text with
  | nil => simp
  | cons context contexts ih =>
    rw [map_cons, String.join_cons, ← String.append_assoc, ih,
      show "\nwhile " ++ context = "\n" ++ ("while " ++ context) by
        rw [← String.append_assoc]; rfl,
      ← String.append_assoc, rows_append, append_assoc, flatMap_cons]

/-- The rows of a report: the message and the place, an empty gutter, the source line,
the caret, and the contexts. -/
def layout [Cause Reason] (diagnostic : Diagnostic Reason) (position : Position)
    (snippet : String) : List (List Char) :=
  rows (Cause.message diagnostic.cause ++ diagnostic.placeRow position) ++
    "    |".toList :: (gutter position ++ snippet).toList :: (markerRow position).toList ::
      diagnostic.contexts.flatMap fun context => rows ("while " ++ context)

theorem rows_render [Cause Reason] (built : diagnostic.IsBuilt)
    (placed : diagnostic.position = some position) (shown : diagnostic.snippet = some snippet) :
    rows diagnostic.render = diagnostic.layout position snippet := by
  have bar : rows "    |" = ["    |".toList] := rows_of_single (by decide)
  have source : '\n' ∉ (gutter position ++ snippet).toList := by
    rw [String.toList_append, mem_append, not_or]
    exact ⟨single_gutter position, built.single shown⟩
  have marker : '\n' ∉ (markerRow position).toList := by
    simp [toList_markerRow]
  have rendered : diagnostic.render =
      Cause.message diagnostic.cause ++ diagnostic.placeRow position ++ "\n" ++ "    |" ++ "\n" ++
        (gutter position ++ snippet) ++ "\n" ++ markerRow position ++ diagnostic.contextText := by
    have above : "\n    |\n" = "\n" ++ "    |" ++ "\n" := rfl
    have below : "\n    | " = "\n" ++ "    | " := rfl
    simp only [render, placed, shown, snippetRows, gutter, markerRow, above, below,
      ← String.append_assoc]
  rw [rendered, rows_append_contextText, rows_append, rows_append, rows_append,
    bar, rows_of_single source, rows_of_single marker]
  simp only [layout, append_assoc, cons_append, nil_append]

/-! ## Alignment -/

theorem length_toString_le_iff (number : Nat) : (toString number).length ≤ 3 ↔ number < 1000 := by
  rw [Nat.toString_eq_ofList_toDigits, String.length_ofList]
  exact Nat.length_toDigits_le_iff (by decide) (by decide)

/-- A report that shows a source line shows it behind a gutter and has one caret, in the
row below.  The character of the column stands as many places behind the caret as the
number of the line has digits beyond three, so the caret is below it exactly for the
lines before the thousandth. -/
theorem caret_below_column_iff [Cause Reason] (built : diagnostic.IsBuilt)
    (placed : diagnostic.position = some position) (shown : diagnostic.snippet = some snippet) :
    rows diagnostic.render = diagnostic.layout position snippet ∧
      (markerRow position).toList.count '^' = 1 ∧
      (gutter position).length + (position.column - 1) =
        (markerRow position).toList.idxOf '^' + ((toString position.line).length - 3) ∧
      ((markerRow position).toList.idxOf '^' = (gutter position).length + (position.column - 1) ↔
        position.line < 1000) := by
  have behind : (gutter position).length + (position.column - 1) =
      (markerRow position).toList.idxOf '^' + ((toString position.line).length - 3) := by
    rw [idxOf_markerRow, length_gutter]
    omega
  refine ⟨rows_render built placed shown, count_markerRow position, behind, ?_⟩
  rw [behind, ← length_toString_le_iff]
  omega

/-- The report of an unknown sign at a place of a source. -/
def unknownSign (position : Position) (source : Source) : LexicalError :=
  ({ cause := .unexpectedCharacter '@' : LexicalError }.located position).attach source

theorem isBuilt_unknownSign (position : Position) (source : Source) :
    (unknownSign position source).IsBuilt :=
  ((IsBuilt.bare _).located position).attach source

theorem caret_below_column_secondLine :
    let report := (unknownSign ⟨2, 11⟩ { text := "dhore x = 1;\ndhore y = @;" }).within "lexing"
    report.IsBuilt ∧ report.position = some ⟨2, 11⟩ ∧ report.snippet = some "dhore y = @;" ∧
      (markerRow ⟨2, 11⟩).toList.idxOf '^' = (gutter ⟨2, 11⟩).length + (11 - 1) := by
  intro report
  have built : report.IsBuilt := (isBuilt_unknownSign _ _).within "lexing"
  exact ⟨built, rfl, rfl, (caret_below_column_iff built rfl rfl).2.2.2.mpr (by decide)⟩

/-- In the thousandth line the caret stands one place before the sign. -/
theorem caret_before_column_thousandthLine :
    let report := unknownSign ⟨1000, 1⟩ { text := String.ofList (List.replicate 999 '\n' ++ ['@']) }
    report.IsBuilt ∧ report.snippet = some "@" ∧
      rows report.render = ["unexpected character '@'".toList,
        "   --> <unknown source>:1000:1".toList, "    |".toList, "1000 | @".toList,
        "    | ^".toList] ∧
      "1000 | @".toList.idxOf '@' = 7 ∧ "    | ^".toList.idxOf '^' = 6 := by
  intro report
  have starts : EndsLine (List.replicate 999 '\n') := fun last member =>
    eq_of_mem_replicate (mem_of_getLast? member)
  have isLine : IsLine (List.replicate 999 '\n') ['@'] [] :=
    ⟨starts, by decide, .inl rfl, nofun⟩
  have shown : report.snippet = some "@" := by
    have found := @Source.line?_of_isLine ⟨none, _⟩ _ _ _ isLine (cons_ne_nil _ _)
      String.toList_ofList
    rwa [count_replicate_self] at found
  refine ⟨isBuilt_unknownSign _ _, shown, ?_, by decide, by decide⟩
  rw [rows_render (isBuilt_unknownSign _ _) rfl shown]
  decide

end Diagnostic

end BanglaScript
