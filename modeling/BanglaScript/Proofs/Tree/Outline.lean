import BanglaScript.Proofs.Number.Written
import BanglaScript.Proofs.Parser.Words
import BanglaScript.Proofs.Text.Lines
import BanglaScript.Tree.Outline

/-!
# Reading outlines

An outline shows the depth of a row by its blanks and nothing else of the tree, so
what belongs to a node ends with the first row that is not deeper.  The rows are the
lines of the text, as no name, number or escaped string has a line end in it.  A row
starts with the title of its node, and its name, operator or constant can be read
behind the title.

So the outline of a program whose names are words tells the program.  All its lines
but the titles of parts are nodes.
-/

namespace BanglaScript

open List

namespace Text

/-! ## Escapes -/

variable {α : Type}

/-- What stands in front of the first separator, and what stands behind it. -/
theorem eq_of_append_cons_eq {separator : α} {first second rest other : List α}
    (free : separator ∉ first) (otherFree : separator ∉ second)
    (same : first ++ separator :: rest = second ++ separator :: other) :
    first = second ∧ rest = other := by
  induction first generalizing second with
  | nil | cons => cases second <;> grind

theorem notMem_toDigits {character : Char}
    (strange : ∀ place < 16, character ≠ Nat.digitChar place) (value : Nat) :
    character ∉ Nat.toDigits 16 value := by
  induction value using Nat.strong_induction_on with
  | _ value ih =>
    rw [Nat.toDigits_eq_if (by decide)]
    split
    · simpa using strange value ‹_›
    · simpa [ih (value / 16) (by omega)] using strange (value % 16) (by omega)

theorem hexadecimal_injective : Function.Injective (Nat.toDigits 16) := by
  have digit : ∀ place < 16, ∀ other < 16, Nat.digitChar place = Nat.digitChar other →
      place = other := by decide
  intro first second same
  induction first using Nat.strong_induction_on generalizing second with
  | _ first ih =>
    rw [Nat.toDigits_eq_if (by decide), Nat.toDigits_eq_if (n := second) (by decide)] at same
    split at same <;> split at same
    · exact digit first ‹_› second ‹_› (singleton_inj.mp same)
    · simp [singleton_eq_append_iff, Nat.toDigits_ne_nil] at same
    · simp [append_eq_singleton_iff, Nat.toDigits_ne_nil] at same
    · obtain ⟨front, last⟩ := append_inj' same rfl
      have fronts := ih (first / 16) (by omega) front
      have lasts := digit (first % 16) (by omega) (second % 16) (by omega) (singleton_inj.mp last)
      omega

/-- The character that a letter behind a backslash stands for. -/
def ofLetter (letter : Char) : Char :=
  if letter = '0' then '\x00'
  else if letter = 't' then '\t'
  else if letter = 'n' then '\n'
  else if letter = 'r' then '\r'
  else letter

/-- A character is written as it is, as a letter behind a backslash or as its code point. -/
theorem escapeCharacter_cases (character : Char) :
    escapeCharacter '"' character = [character] ∧ character ≠ '\\' ∨
      (∃ letter, escapeCharacter '"' character = ['\\', letter] ∧ letter ≠ 'u' ∧
        ofLetter letter = character) ∨
      escapeCharacter '"' character = codePointEscape character := by
  unfold escapeCharacter
  split_ifs with null tab feed carriage sign visible
  · exact .inr (.inl ⟨'0', rfl, by decide, null.symm⟩)
  · exact .inr (.inl ⟨'t', rfl, by decide, tab.symm⟩)
  · exact .inr (.inl ⟨'n', rfl, by decide, feed.symm⟩)
  · exact .inr (.inl ⟨'r', rfl, by decide, carriage.symm⟩)
  · refine .inr (.inl ⟨character, rfl, ?_⟩)
    rcases sign with rfl | rfl <;> decide
  · exact .inl ⟨rfl, fun backslash => sign (.inl backslash)⟩
  · exact .inr (.inr rfl)

/-- Characters are told apart whatever stands behind them. -/
theorem eq_of_escapeCharacter_append_eq {first second : Char} {rest other : List Char}
    (same : escapeCharacter '"' first ++ rest = escapeCharacter '"' second ++ other) :
    first = second ∧ rest = other := by
  rcases escapeCharacter_cases first with
    ⟨form, plain⟩ | ⟨letter, form, short, stands⟩ | form <;>
  rcases escapeCharacter_cases second with
    ⟨otherForm, otherPlain⟩ | ⟨otherLetter, otherForm, otherShort, otherStands⟩ | otherForm <;>
  rw [form, otherForm] at same
  case inr.inr.inr.inr =>
    simp only [codePointEscape, append_assoc, append_cancel_left_eq] at same
    have free (value : Nat) : '\x7d' ∉ Nat.toDigits 16 value := notMem_toDigits (by decide) value
    obtain ⟨digits, rests⟩ := eq_of_append_cons_eq (free _) (free _) same
    exact ⟨Char.toNat_inj.mp (hexadecimal_injective digits), rests⟩
  all_goals grind [codePointEscape]

/-- Escaped texts are told apart. -/
theorem escaped_injective : Function.Injective escaped := by
  intro first second same
  have inside : first.toList.flatMap (escapeCharacter '"') =
      second.toList.flatMap (escapeCharacter '"') := by
    simpa [escaped, String.ofList_inj] using same
  have nonempty (character : Char) : escapeCharacter '"' character ≠ [] := by
    rcases escapeCharacter_cases character with ⟨form, -⟩ | ⟨letter, form, -⟩ | form <;>
      simp [form, codePointEscape]
  refine String.toList_inj.mp ?_
  generalize first.toList = characters, second.toList = others at inside
  induction characters generalizing others with
  | nil => cases others <;> simp_all
  | cons head tail ih =>
    cases others with
    | nil => simp_all
    | cons =>
      obtain ⟨rfl, rests⟩ := eq_of_escapeCharacter_append_eq inside
      rw [ih _ rests]

/-- The text stands on one line. -/
def IsSingle (text : String) : Prop := '\n' ∉ text.toList ∧ '\r' ∉ text.toList
deriving Decidable

theorem isSingle_escaped (text : String) : IsSingle (escaped text) := by
  have plain (character : Char) : '\n' ∉ escapeCharacter '"' character ∧
      '\r' ∉ escapeCharacter '"' character := by
    have feed (value : Nat) : '\n' ∉ Nat.toDigits 16 value := notMem_toDigits (by decide) value
    have carriage (value : Nat) : '\r' ∉ Nat.toDigits 16 value :=
      notMem_toDigits (by decide) value
    unfold escapeCharacter codePointEscape
    split_ifs <;> simp [Ne.symm, *]
  simp [IsSingle, escaped, plain]

theorem isSingle_of_isWord {name : String} (word : isWord name) : IsSingle name :=
  ⟨notMem_of_isWord (by decide) word, notMem_of_isWord (by decide) word⟩

/-! ## Names with commas in between -/

theorem toList_join_cons_cons (first second : String) (rest : List String) :
    (join ", " (first :: second :: rest)).toList =
      first.toList ++ ',' :: ' ' :: (join ", " (second :: rest)).toList := by
  simp [join, String.intercalate_cons_cons]

theorem isSingle_join {names : List String} (words : ∀ name ∈ names, isWord name) :
    IsSingle (join ", " names) := by
  induction names with
  | nil => decide
  | cons first rest ih =>
    rw [forall_mem_cons] at words
    have single := isSingle_of_isWord words.1
    have singles := ih words.2
    cases rest with
    | nil => simpa [join] using single
    | cons => simp_all [IsSingle, toList_join_cons_cons]

/-- Words are told apart by the commas between them. -/
theorem join_inj {names others : List String} (words : ∀ name ∈ names, isWord name)
    (otherWords : ∀ name ∈ others, isWord name) (same : join ", " names = join ", " others) :
    names = others := by
  have free {name : String} (word : isWord name) : ',' ∉ name.toList :=
    notMem_of_isWord (by decide) word
  have apart {name other third : String} {more : List String} (word : isWord name) :
      (join ", " [name]).toList ≠ (join ", " (other :: third :: more)).toList := by
    intro lists
    rw [toList_join_cons_cons] at lists
    exact free word (by simp_all [join])
  have lists := congrArg String.toList same
  match names, others with
  | [], [] => rfl
  | [name], [other] => simpa [join] using same
  | name :: second :: rest, other :: third :: more =>
    rw [forall_mem_cons] at words otherWords
    rw [toList_join_cons_cons, toList_join_cons_cons] at lists
    obtain ⟨heads, tails⟩ := eq_of_append_cons_eq (free words.1) (free otherWords.1) lists
    rw [String.toList_inj.mp heads,
      join_inj words.2 otherWords.2 (String.toList_inj.mp (cons.inj tails).2)]
  -- A word is not empty and has no comma in it.
  | [], [name] | [name], [] => simp_all [join, isWord]
  | [], name :: second :: rest | name :: second :: rest, [] =>
    simp [join] at lists
  | [name], other :: third :: more => exact absurd lists (apart (words name mem_cons_self))
  | other :: third :: more, [name] =>
    exact absurd lists.symm (apart (otherWords name mem_cons_self))

end Text

namespace OutlineRow

variable {row other : OutlineRow} {rows : List OutlineRow}

/-! ## Lines -/

/-- The row without its line end. -/
def line (row : OutlineRow) : String :=
  String.ofList (List.replicate (2 * row.depth) ' ') ++ row.text

/-- The text starts behind the blanks of its row, and it stands on one line. -/
def IsLegible (text : String) : Prop :=
  text.toList.head?.any (· ≠ ' ') ∧ Text.IsSingle text
deriving Decidable

theorem toList_line (row : OutlineRow) :
    row.line.toList = List.replicate (2 * row.depth) ' ' ++ row.text.toList := by
  simp [line]

/-- A line gives back the blanks in front of its text, and the text. -/
theorem blanks_line (legible : IsLegible row.text) :
    row.line.toList.takeWhile (· = ' ') = List.replicate (2 * row.depth) ' ' ∧
      row.line.toList.dropWhile (· = ' ') = row.text.toList := by
  have starts := legible.1
  rw [toList_line, takeWhile_append_of_pos (by simp), dropWhile_append_of_pos (by simp)]
  cases letters : row.text.toList <;> simp_all

/-- The row that a line shows. -/
def ofLine (line : String) : OutlineRow where
  depth := (line.toList.takeWhile (· = ' ')).length / 2
  text := String.ofList (line.toList.dropWhile (· = ' '))

theorem map_ofLine_map_line (legible : ∀ row ∈ rows, IsLegible row.text) :
    (rows.map line).map ofLine = rows := by
  rw [map_map]
  refine (map_congr_left fun row member => ?_).trans (map_id rows)
  obtain ⟨blanks, rest⟩ := blanks_line (legible row member)
  simp [ofLine, blanks, rest]

/-- The lines of an outline are its rows. -/
theorem lines_join_render (legible : ∀ row ∈ rows, IsLegible row.text) :
    Text.lines (String.join (rows.map render)) = rows.map line := by
  induction rows with
  | nil => rfl
  | cons row rows ih =>
    rw [forall_mem_cons] at legible
    have single : '\n' ∉ row.line.toList ∧ '\r' ∉ row.line.toList := by
      have inside := legible.1.2
      simp_all [toList_line, Text.IsSingle]
    have isLine : Text.IsLine [] row.line.toList ['\n'] :=
      ⟨nofun, single.1, .inr (.inl ⟨[], rfl⟩), fun _ last => single.2 (mem_of_getLast? last)⟩
    obtain ⟨lines, listed⟩ := Text.splitLines_of_isLine isLine (by simp)
    have ends : Text.EndsLine (row.line.toList ++ ['\n']) := by simp [Text.EndsLine]
    obtain ⟨split, length⟩ := Text.splitLines_append ends (String.join (rows.map render)).toList
    rw [listed] at split length
    have last : lines = [] := by simpa [count_eq_zero_of_not_mem single.1] using length
    have text : (String.join ((row :: rows).map render)).toList =
        row.line.toList ++ ['\n'] ++ (String.join (rows.map render)).toList := by
      simp [render, line, String.join_cons]
    rw [Text.lines, text, split, last, map_append, map_cons (l := rows), ← ih legible.2]
    simp [Text.lines]

/-- Titles of the parts of a statement. -/
def partTitles : List String := ["Condition:", "Then:", "Else:", "Body:", "Parameters:"]

/-- The line titles a part of a statement behind its blanks. -/
def titlesPart (line : String) : Bool :=
  partTitles.any fun title => title.toList.isPrefixOf (line.toList.dropWhile (· = ' '))

/-- The row is one of a node. -/
def isNode (row : OutlineRow) : Bool :=
  !partTitles.any fun title => title.toList.isPrefixOf row.text.toList

theorem titlesPart_line (legible : IsLegible row.text) : titlesPart row.line = !row.isNode := by
  rw [titlesPart, (blanks_line legible).2, isNode, Bool.not_not]

end OutlineRow

open OutlineRow Outline

/-! ## Rows of programs -/

theorem Literal.isSingle_render (constant : Literal) : Text.IsSingle constant.render := by
  cases constant with
  | number value =>
    exact ⟨Layout.notMem_write ⟨rfl, rfl⟩ (by decide) value,
      Layout.notMem_write ⟨rfl, rfl⟩ (by decide) value⟩
  | string contents => exact Text.isSingle_escaped contents

theorem BinaryOperator.isSingle_symbol (operator : BinaryOperator) :
    Text.IsSingle operator.symbol := by
  cases operator <;> decide

/-- The rows are legible, and so many of them are nodes. -/
def Lists (rows : List OutlineRow) (nodes : Nat) : Prop :=
  (∀ row ∈ rows, IsLegible row.text) ∧ rows.countP isNode = nodes

theorem Lists.append {rows others : List OutlineRow} {nodes more : Nat} (first : Lists rows nodes)
    (second : Lists others more) : Lists (rows ++ others) (nodes + more) :=
  ⟨forall_mem_append.mpr ⟨first.1, second.1⟩, by rw [countP_append, first.2, second.2]⟩

mutual

theorem Expr.lists_outline (depth : Nat) (expr : Expr) (written : expr.all Expr.isWritten) :
    Lists (expr.outline.rows depth) expr.size := by
  cases expr <;> simp only [Expr.all, Expr.isWritten, Bool.and_eq_true] at written
  case' binary operator lhs rhs =>
    have symbol := operator.isSingle_symbol
    have operands := (lhs.lists_outline (depth + 1) written.1.2).append
      (rhs.lists_outline (depth + 1) written.2)
  case' identifier => have word := Text.isSingle_of_isWord written
  case' literal constant => have single := constant.isSingle_render
  case' call name arguments =>
    have word := Text.isSingle_of_isWord written.1
    have operands := Expr.lists_outlineAll (depth + 1) arguments written.2
  all_goals
    rw [Expr.outline, Expr.size]
    simp_all +arith [Lists, rows, rowsAll, IsLegible, Text.IsSingle, isNode, partTitles,
      isPrefixOf]

theorem Expr.lists_outlineAll (depth : Nat) (exprs : List Expr)
    (written : Expr.allIn Expr.isWritten exprs) :
    Lists (rowsAll depth (Expr.outlineAll exprs)) (Expr.sizeAll exprs) := by
  cases exprs with
  | nil => exact ⟨forall_mem_nil _, rfl⟩
  | cons first rest =>
    simp only [Expr.allIn, Bool.and_eq_true] at written
    exact (first.lists_outline depth written.1).append (Expr.lists_outlineAll depth rest written.2)

end

theorem Expr.lists_toList (depth : Nat) {value : Option Expr}
    (written : value.all (Expr.all Expr.isWritten)) :
    Lists (rowsAll depth (Expr.outlineAll value.toList)) (value.elim 0 Expr.size) := by
  cases value with
  | none => exact ⟨forall_mem_nil _, rfl⟩
  | some value => exact (value.lists_outline depth written).append ⟨forall_mem_nil _, rfl⟩

mutual

theorem Statement.lists_outline (depth : Nat) (phrase : Statement)
    (written : phrase.all isWritten Expr.isWritten) :
    Lists (phrase.outline.rows depth) phrase.size := by
  cases phrase <;> simp only [Statement.all, Bool.and_eq_true, isWritten] at written
  case' declaration name value =>
    have word := Text.isSingle_of_isWord written.1
    have inside := Expr.lists_toList (depth + 1) written.2
    rcases value with _ | value
  case' assignment name value =>
    have word := Text.isSingle_of_isWord written.1
    have inside := value.lists_outline (depth + 1) written.2
  case' ifThen condition body | repeatWhile condition body =>
    have test := condition.lists_outline (depth + 2) written.1.2
    have inside := Statement.lists_outlineAll (depth + 3) body written.2
  case' ifElse condition body alternative =>
    have test := condition.lists_outline (depth + 2) written.1.1.2
    have inside := Statement.lists_outlineAll (depth + 3) body written.1.2
    have otherwise := Statement.lists_outlineAll (depth + 3) alternative written.2
  case' block body => have inside := Statement.lists_outlineAll (depth + 1) body written.2
  case' function name parameters body =>
    have word := Text.isSingle_of_isWord written.1.1
    have words := Text.isSingle_join (all_eq_true.mp written.1.2)
    have inside := Statement.lists_outlineAll (depth + 2) body written.2
  case' giveBack value =>
    have inside := Expr.lists_toList (depth + 1) written.2
    rcases value with _ | value
  case' print value => have inside := value.lists_outline (depth + 1) written.2
  case' expression value => have inside := value.lists_outline depth written.2
  all_goals
    rw [outline, size]
    simp_all +arith [Lists, rows, rowsAll, IsLegible, Text.IsSingle, isNode, partTitles,
      isPrefixOf, or_imp, forall_and]

theorem Statement.lists_outlineAll (depth : Nat) (phrases : List Statement)
    (written : allIn isWritten Expr.isWritten phrases) :
    Lists (rowsAll depth (outlineAll phrases)) (sizeAll phrases) := by
  cases phrases with
  | nil => exact ⟨forall_mem_nil _, rfl⟩
  | cons first rest =>
    simp only [allIn, Bool.and_eq_true] at written
    exact (first.lists_outline depth written.1).append
      (Statement.lists_outlineAll depth rest written.2)

end

/-! ## Trees from rows -/

/-- The rows start above the given depth, or there are none. -/
def StartsAbove (depth : Nat) (rows : List OutlineRow) : Prop :=
  ∀ row ∈ rows.head?, row.depth < depth

/-- Nodes are read from their rows: what is deeper belongs to them. -/
theorem Outline.rowsAll_inj {depth : Nat} {rest otherRest : List OutlineRow}
    (nodes others : List Outline) (above : StartsAbove depth rest)
    (otherAbove : StartsAbove depth otherRest)
    (same : rowsAll depth nodes ++ rest = rowsAll depth others ++ otherRest) :
    nodes = others ∧ rest = otherRest := by
  have starts (nodes : List Outline) {rest : List OutlineRow} (above : StartsAbove depth rest) :
      StartsAbove (depth + 1) (rowsAll depth nodes ++ rest) := by
    rcases nodes with _ | ⟨⟨text, parts⟩, nodes⟩
    · exact fun row member => Nat.lt_succ_of_lt (above row member)
    · simp [StartsAbove, rowsAll, rows]
  match nodes, others with
  | [], [] => exact ⟨rfl, same⟩
  | [], .node text parts :: others =>
    -- A row at the depth of the nodes is not one that follows them.
    simp_all [rowsAll, rows, StartsAbove]
  | .node text parts :: nodes, [] =>
    simp only [rowsAll, rows, cons_append, nil_append] at same
    simp [← same, StartsAbove] at otherAbove
  | .node text parts :: nodes, .node otherText otherParts :: others =>
    simp only [rowsAll, rows, cons_append, append_assoc, cons.injEq, mk.injEq, true_and] at same
    obtain ⟨inside, later⟩ := rowsAll_inj parts otherParts (starts _ above) (starts _ otherAbove)
      same.2
    obtain ⟨rfl, rests⟩ := rowsAll_inj nodes others above otherAbove later
    exact ⟨by rw [same.1, inside], rests⟩
termination_by sizeOf nodes

theorem BinaryOperator.symbol_injective : Function.Injective symbol := by
  intro first second same
  cases first <;> cases second <;> first | rfl | exact absurd same (by decide)

theorem Literal.render_inj {first second : Literal} (written : (Expr.literal first).isWritten)
    (otherWritten : (Expr.literal second).isWritten) (same : first.render = second.render) :
    first = second := by
  have apart {value : Number} (finite : value.isFinite) (contents : String) :
      value.plainText ≠ Text.escaped contents := by
    intro texts
    have plain : (⟨"inf", "", none⟩ : Layout).IsPlain := ⟨rfl, rfl⟩
    obtain ⟨first, _, started, starts⟩ := Layout.exists_write plain finite
    have quote : first = '"' := by
      have heads := congrArg (·.toList.head?) texts
      simpa [Number.plainText, started, Text.escaped] using heads
    subst quote
    rcases starts with ⟨-, sign⟩ | ⟨-, digit⟩
    · cases sign
    · cases digit
  cases first <;> cases second
  case number.number => rw [Layout.eq_of_write_eq ⟨rfl, rfl⟩ written otherWritten same]
  case number.string => exact absurd same (apart written _)
  case string.number => exact absurd same.symm (apart otherWritten _)
  case string.string => rw [Text.escaped_injective same]

mutual

/-- The text of a node tells the kind of the expression. -/
theorem Expr.outline_inj (expr other : Expr) (written : expr.all Expr.isWritten)
    (otherWritten : other.all Expr.isWritten) (same : expr.outline = other.outline) :
    expr = other := by
  cases expr <;> cases other <;> simp [Expr.outline, ← String.toList_inj] at same
  all_goals simp only [Expr.all, Bool.and_eq_true] at written otherWritten
  case binary.binary lhs rhs _ otherLhs otherRhs =>
    rw [BinaryOperator.symbol_injective (String.toList_inj.mp same.1),
      lhs.outline_inj otherLhs written.1.2 otherWritten.1.2 same.2.1,
      rhs.outline_inj otherRhs written.2 otherWritten.2 same.2.2]
  case identifier.identifier => rw [String.toList_inj.mp same]
  case literal.literal => rw [Literal.render_inj written otherWritten (String.toList_inj.mp same)]
  case call.call arguments _ otherArguments =>
    rw [String.toList_inj.mp same.1,
      Expr.outlineAll_inj arguments otherArguments written.2 otherWritten.2 same.2]

theorem Expr.outlineAll_inj (exprs others : List Expr) (written : Expr.allIn Expr.isWritten exprs)
    (otherWritten : Expr.allIn Expr.isWritten others)
    (same : Expr.outlineAll exprs = Expr.outlineAll others) : exprs = others := by
  match exprs, others with
  | [], [] => rfl
  | first :: exprs, other :: others =>
    simp only [Expr.allIn, Bool.and_eq_true] at written otherWritten
    obtain ⟨heads, tails⟩ := cons.inj same
    rw [first.outline_inj other written.1 otherWritten.1 heads,
      Expr.outlineAll_inj exprs others written.2 otherWritten.2 tails]

end

theorem Expr.eq_of_outlineAll_eq {value other : Option Expr}
    (written : value.all (Expr.all Expr.isWritten))
    (otherWritten : other.all (Expr.all Expr.isWritten))
    (same : Expr.outlineAll value.toList = Expr.outlineAll other.toList) : value = other := by
  match value, other with
  | none, none => rfl
  | some value, some other => rw [value.outline_inj other written otherWritten (cons.inj same).1]

theorem Expr.outline_ne {phrase : Statement} {value : Expr}
    (other : ∀ value, phrase ≠ .expression value) : value.outline ≠ phrase.outline := by
  cases value <;> cases phrase <;>
    first
    | exact absurd rfl (other _)
    | simp [Expr.outline, Statement.outline, ← String.toList_inj, -String.toList_eq_nil_iff]

mutual

theorem Statement.outline_inj (phrase other : Statement)
    (written : phrase.all isWritten Expr.isWritten)
    (otherWritten : other.all isWritten Expr.isWritten) (same : phrase.outline = other.outline) :
    phrase = other := by
  cases phrase
  case expression value =>
    cases other
    case expression other =>
      simp only [Statement.all, Bool.and_eq_true] at written otherWritten
      rw [value.outline_inj other written.2 otherWritten.2 same]
    all_goals exact absurd same (Expr.outline_ne nofun)
  all_goals
    cases other
    case expression => exact absurd same.symm (Expr.outline_ne nofun)
  all_goals simp [outline, ← String.toList_inj, -String.toList_eq_nil_iff] at same
  all_goals simp only [Statement.all, isWritten, Bool.and_eq_true] at written otherWritten
  case declaration.declaration value _ other =>
    rw [String.toList_inj.mp same.1, Expr.eq_of_outlineAll_eq written.2 otherWritten.2 same.2]
  case assignment.assignment value _ other =>
    rw [String.toList_inj.mp same.1, value.outline_inj other written.2 otherWritten.2 same.2]
  case ifThen.ifThen condition body other otherBody
  | repeatWhile.repeatWhile condition body other otherBody =>
    rw [condition.outline_inj other written.1.2 otherWritten.1.2 same.1,
      Statement.outlineAll_inj body otherBody written.2 otherWritten.2 same.2]
  case ifElse.ifElse condition body alternative other otherBody otherAlternative =>
    rw [condition.outline_inj other written.1.1.2 otherWritten.1.1.2 same.1,
      Statement.outlineAll_inj body otherBody written.1.2 otherWritten.1.2 same.2.1,
      Statement.outlineAll_inj alternative otherAlternative written.2 otherWritten.2 same.2.2]
  case block.block body other =>
    rw [Statement.outlineAll_inj body other written.2 otherWritten.2 same]
  case function.function body _ _ other =>
    rw [String.toList_inj.mp same.1, Text.join_inj (all_eq_true.mp written.1.2)
      (all_eq_true.mp otherWritten.1.2) (String.toList_inj.mp same.2.1),
      Statement.outlineAll_inj body other written.2 otherWritten.2 same.2.2]
  case giveBack.giveBack => rw [Expr.eq_of_outlineAll_eq written.2 otherWritten.2 same]
  case print.print value other => rw [value.outline_inj other written.2 otherWritten.2 same]

theorem Statement.outlineAll_inj (phrases others : List Statement)
    (written : allIn isWritten Expr.isWritten phrases)
    (otherWritten : allIn isWritten Expr.isWritten others)
    (same : outlineAll phrases = outlineAll others) : phrases = others := by
  match phrases, others with
  | [], [] => rfl
  | first :: phrases, other :: others =>
    simp only [allIn, Bool.and_eq_true] at written otherWritten
    obtain ⟨heads, tails⟩ := cons.inj same
    rw [first.outline_inj other written.1 otherWritten.1 heads,
      Statement.outlineAll_inj phrases others written.2 otherWritten.2 tails]

end

/-! ## Programs -/

namespace Program

variable {program other : Program}

theorem lists_outline (written : program.isWritten) :
    Lists (program.outline.rows 0) program.size := by
  have inside := Statement.lists_outlineAll 1 program.body written
  rw [outline, size]
  simp_all +arith [Lists, rows, IsLegible, Text.IsSingle, isNode, partTitles, isPrefixOf]

theorem outline_inj (written : program.isWritten) (otherWritten : other.isWritten)
    (same : program.outline.rows 0 = other.outline.rows 0) : program = other := by
  have outermost : StartsAbove 1 [] := by simp [StartsAbove]
  obtain ⟨bodies, -⟩ := rowsAll_inj _ _ outermost outermost (congrArg (· ++ []) (cons.inj same).2)
  cases program
  cases other
  exact congrArg mk (Statement.outlineAll_inj _ _ written otherWritten bodies)

/-- Programs that texts spell have the same outline only if they are the same, and the
outline of such a program has one line for every node besides the titles of parts. -/
theorem render_eq_iff_and_size (spelled : program.IsSpelled) (otherSpelled : other.IsSpelled) :
    (program.render = other.render ↔ program = other) ∧
      (Text.lines program.render).countP (fun line => !titlesPart line) = program.size := by
  obtain ⟨legible, nodes⟩ := lists_outline spelled.isWritten
  obtain ⟨otherLegible, -⟩ := lists_outline otherSpelled.isWritten
  have lines := lines_join_render legible
  refine ⟨⟨fun same => ?_, congrArg render⟩, ?_⟩
  · refine outline_inj spelled.isWritten otherSpelled.isWritten ?_
    rw [← map_ofLine_map_line legible, ← lines, ← map_ofLine_map_line otherLegible,
      ← lines_join_render otherLegible]
    exact congrArg (fun text => (Text.lines text).map ofLine) same
  · rw [render, lines, countP_map, ← nodes]
    refine countP_congr fun row member => ?_
    simp [titlesPart_line (legible row member)]

/-- A test with an alternative, in a function with two parameters. -/
def choosing : Program :=
  ⟨[.function "f" ["a", "b"] [.ifElse (.binary .equal (.identifier "a") (.identifier "b"))
    [.print (.literal (.string "Else:\n"))] [.giveBack none]]]⟩

/-- The same rows but for a title and the depth of two blocks. -/
def following : Program :=
  ⟨[.function "f" ["a", "b"] [.ifThen (.binary .equal (.identifier "a") (.identifier "b"))
    [.print (.literal (.string "Else:\n"))], .block [.giveBack none]]]⟩

/-- Their outlines differ, and the first one has twelve nodes. -/
theorem render_choosing_ne : choosing.IsSpelled ∧ following.IsSpelled ∧
    choosing.render ≠ following.render ∧
    (Text.lines choosing.render).countP (fun line => !titlesPart line) = 12 := by
  have spelled : choosing.IsSpelled :=
    ⟨"function f(a, b) \x7b jode (a == b) \x7b dekhao(\"Else:\n\"); \x7d " ++
      "onnathay \x7b ferot; \x7d \x7d", by decide +kernel⟩
  have otherSpelled : following.IsSpelled :=
    ⟨"function f(a, b) \x7b jode (a == b) \x7b dekhao(\"Else:\n\"); \x7d " ++
      "\x7b ferot; \x7d \x7d", by decide +kernel⟩
  obtain ⟨told, nodes⟩ := render_eq_iff_and_size spelled otherSpelled
  exact ⟨spelled, otherSpelled, fun same => (by cases told.mp same), nodes⟩

end Program

end BanglaScript
