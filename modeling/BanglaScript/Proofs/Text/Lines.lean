import BanglaScript.Text.Lines

/-!
# Lines in their text

A line stands in its text between two line ends, or between a line end and one of
the ends of the text.  `IsLine` says so for a text that is cut into three parts, and
the line is then the one with the number of line feeds before it.

The rows of a text are cut at line feeds alone.
-/

namespace BanglaScript.Text

open List

variable {character : Char} {characters earlier line later : List Char}

/-- The characters are none, or they end with a line feed. -/
def EndsLine (characters : List Char) : Prop := ∀ last ∈ characters.getLast?, last = '\n'

/-- In the text `earlier ++ line ++ later` the middle part is a line.  A carriage
return in front of a line feed belongs to the line end. -/
structure IsLine (earlier line later : List Char) : Prop where
  starts : EndsLine earlier
  single : '\n' ∉ line
  ends : later = [] ∨ (∃ rest, later = '\n' :: rest) ∨ ∃ rest, later = '\r' :: '\n' :: rest
  returns : later.head? = some '\n' → line.getLast? ≠ some '\r'

theorem EndsLine.tail (ends : EndsLine (character :: characters)) : EndsLine characters := by
  intro last member
  apply ends
  rw [Option.mem_def] at member
  simp [getLast?_cons, member]

/-! ## Splitting -/

/-- A character that starts no line end belongs to the first line. -/
theorem splitLines_cons {rest : List Char} (plain : character ≠ '\n')
    (joined : character = '\r' → rest.head? ≠ some '\n') :
    splitLines (character :: rest) =
      match splitLines rest with
      | [] => [[character]]
      | line :: lines => (character :: line) :: lines := by
  rewrite [splitLines]
  · rfl
  · exact plain
  · rintro later rfl rfl
    exact joined rfl rfl

theorem splitLines_ne_nil (nonempty : characters ≠ []) : splitLines characters ≠ [] := by
  fun_cases splitLines characters with
  | case1 => exact absurd rfl nonempty
  | _ => exact cons_ne_nil _ _

/-- What ends with a line feed is split by itself, into as many lines as it has line
feeds. -/
theorem splitLines_append (ends : EndsLine earlier) (rest : List Char) :
    splitLines (earlier ++ rest) = splitLines earlier ++ splitLines rest ∧
      (splitLines earlier).length = earlier.count '\n' := by
  fun_induction splitLines earlier with
  | case1 => exact ⟨rfl, rfl⟩
  | case2 earlier ih =>
    obtain ⟨split, length⟩ := ih ends.tail
    constructor
    · simp [splitLines, split]
    · simp [length]
  | case3 earlier ih =>
    obtain ⟨split, length⟩ := ih ends.tail.tail
    constructor
    · simp [splitLines, split]
    · simp [length]
  | case4 character earlier plain joined nothing =>
    -- Nothing follows, so this is the last character; but that one is a line feed.
    have last : earlier = [] := Classical.byContradiction fun more =>
      splitLines_ne_nil more nothing
    subst last
    exact absurd (ends character rfl) plain
  | case5 character earlier plain joined line lines listed ih =>
    obtain ⟨split, length⟩ := ih ends.tail
    have apart : character = '\r' → (earlier ++ rest).head? ≠ some '\n' := by
      rintro rfl next
      cases earlier with
      | nil => cases listed
      | cons second earlier =>
        cases next
        exact joined earlier rfl rfl
    constructor
    · rw [cons_append, splitLines_cons plain apart, split, listed]
      rfl
    · rw [listed] at length
      rw [count_cons_of_ne plain, ← length]
      rfl

/-- What comes first up to a line end is the first line. -/
theorem splitLines_of_isLine (isLine : IsLine earlier line later) (nonempty : line ++ later ≠ []) :
    ∃ lines, splitLines (line ++ later) = line :: lines := by
  obtain ⟨_, single, ends, returns⟩ := isLine
  induction line with
  | nil =>
    rcases ends with rfl | ⟨rest, rfl⟩ | ⟨rest, rfl⟩
    · exact absurd rfl nonempty
    · exact ⟨splitLines rest, rfl⟩
    · exact ⟨splitLines rest, rfl⟩
  | cons character line ih =>
    have plain : character ≠ '\n' := fun feed => single (feed ▸ mem_cons_self)
    have singleRest : '\n' ∉ line := fun member => single (mem_cons_of_mem _ member)
    have apart : character = '\r' → (line ++ later).head? ≠ some '\n' := by
      rintro rfl next
      cases line with
      | nil => exact returns next rfl
      | cons =>
        cases next
        exact singleRest mem_cons_self
    have returnsRest : later.head? = some '\n' → line.getLast? ≠ some '\r' := by
      intro feed last
      apply returns feed
      simp [getLast?_cons, last]
    rw [cons_append, splitLines_cons plain apart]
    by_cases more : line ++ later = []
    · obtain ⟨rfl, rfl⟩ := append_eq_nil_iff.mp more
      exact ⟨[], rfl⟩
    · obtain ⟨lines, listed⟩ := ih more singleRest returnsRest
      exact ⟨lines, by rw [listed]⟩

/-- A line is the one with the number of line feeds before it. -/
theorem getElem?_splitLines (isLine : IsLine earlier line later) (nonempty : line ++ later ≠ []) :
    (splitLines (earlier ++ (line ++ later)))[earlier.count '\n']? = some line := by
  obtain ⟨split, length⟩ := splitLines_append isLine.starts (line ++ later)
  obtain ⟨_, listed⟩ := splitLines_of_isLine isLine nonempty
  rw [split, listed, ← length, getElem?_append_right (Nat.le_refl _), Nat.sub_self]
  rfl

/-! ## The line around a place -/

/-- A text goes on up to a line end. -/
theorem exists_lineEnd (after : List Char) :
    ∃ tail later, after = tail ++ later ∧ IsLine [] tail later := by
  induction after with
  | nil => exact ⟨[], [], rfl, nofun, not_mem_nil, .inl rfl, nofun⟩
  | cons character after ih =>
    by_cases feed : character = '\n'
    · subst feed
      exact ⟨[], _, rfl, nofun, not_mem_nil, .inr (.inl ⟨after, rfl⟩), fun _ => nofun⟩
    · by_cases joined : character = '\r' ∧ after.head? = some '\n'
      · obtain ⟨rfl, next⟩ := joined
        obtain ⟨rest, rfl⟩ := head?_eq_some_iff.mp next
        exact ⟨[], _, rfl, nofun, not_mem_nil, .inr (.inr ⟨rest, rfl⟩), nofun⟩
      · obtain ⟨tail, later, rfl, isLine⟩ := ih
        refine ⟨character :: tail, later, rfl, nofun, ?_, isLine.ends, fun next last => ?_⟩
        · exact not_mem_cons_of_ne_of_not_mem (Ne.symm feed) isLine.single
        · cases tail with
          | nil => exact joined ⟨Option.some.inj last, next⟩
          | cons =>
            rw [getLast?_cons_cons] at last
            exact isLine.returns next last

/-- The characters of a text behind its last line feed. -/
theorem exists_lineStart (before : List Char) :
    ∃ earlier start, before = earlier ++ start ∧ EndsLine earlier ∧ '\n' ∉ start ∧
      start.length = (before.reverse.takeWhile (· ≠ '\n')).length := by
  refine ⟨(before.reverse.dropWhile (· ≠ '\n')).reverse,
    (before.reverse.takeWhile (· ≠ '\n')).reverse, ?_, ?_, ?_, length_reverse⟩
  · rw [← reverse_append, takeWhile_append_dropWhile, reverse_reverse]
  · intro last member
    rw [getLast?_reverse, Option.mem_def] at member
    have stopped := head?_dropWhile_not (· ≠ '\n') before.reverse
    rw [member] at stopped
    simpa using stopped
  · intro member
    have passed := all_eq_true.mp all_takeWhile _ (mem_reverse.mp member)
    simp at passed

/-- A character that belongs to no line end stands in a line. -/
theorem exists_isLine (plain : character ≠ '\n') (noReturn : character ≠ '\r')
    (before after : List Char) :
    ∃ earlier start tail later, before = earlier ++ start ∧ after = tail ++ later ∧
      IsLine earlier (start ++ character :: tail) later ∧
      start.length = (before.reverse.takeWhile (· ≠ '\n')).length := by
  obtain ⟨earlier, start, front, starts, single, length⟩ := exists_lineStart before
  obtain ⟨tail, later, back, isLine⟩ := exists_lineEnd after
  refine ⟨earlier, start, tail, later, front, back, ⟨starts, ?_, isLine.ends, ?_⟩, length⟩
  · simp [single, isLine.single, Ne.symm plain]
  · intro next last
    cases tail with
    | nil => simp [noReturn] at last
    | cons =>
      apply isLine.returns next
      simpa using last

/-! ## Rows -/

/-- The rows of a text.  Only a line feed ends a row. -/
def rows (text : String) : List (List Char) := text.toList.splitOn '\n'

theorem rows_append (first second : String) :
    rows (first ++ "\n" ++ second) = rows first ++ rows second := by
  rw [rows, String.toList_append, String.toList_append, append_assoc]
  exact splitOn_append_cons_of_beq _ _ rfl

theorem rows_of_single {text : String} (single : '\n' ∉ text.toList) :
    rows text = [text.toList] :=
  splitOn_eq_singleton single

/-- No line of a text has a line feed. -/
theorem not_mem_of_mem_splitLines {characters line : List Char}
    (member : line ∈ splitLines characters) : '\n' ∉ line := by
  fun_induction splitLines characters generalizing line with
  | case1 => cases member
  | case2 rest ih | case3 rest ih =>
    rcases mem_cons.mp member with rfl | later
    · exact not_mem_nil
    · exact ih later
  | case4 character rest plain =>
    rw [mem_singleton.mp member]
    exact fun feed => plain (mem_singleton.mp feed).symm
  | case5 character rest plain joined first lines listed ih =>
    rw [listed] at ih
    rcases mem_cons.mp member with rfl | later
    · exact not_mem_cons_of_ne_of_not_mem (Ne.symm plain) (ih mem_cons_self)
    · exact ih (mem_cons_of_mem _ later)

end BanglaScript.Text
