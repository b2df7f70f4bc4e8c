import BanglaScript.Proofs.Text.Lines
import BanglaScript.Proofs.Token.Spaced
import BanglaScript.Proofs.Token.Tiling

/-!
# Where reading the tokens fails

When a text cannot be tokenized, the error names a place in it.  Up to that place the
text can be tokenized, with the tokens that were read before the fault; and what the
error reports stands there, in the line that the error's place counts.

That the tokens before the fault do not depend on what follows them is a property of
lexemes: a lexeme is read alike from a text and from a part of it that still has all
the characters of the lexeme, `Lexeme.read_of_isPrefix`.
-/

namespace BanglaScript

open List

/-! ## Places -/

/-- Going on moves the place. -/
theorem Position.eq_of_toList_eq_append {before other : String} {more : List Char}
    (longer : other.toList = before.toList ++ more) (same : behind other = behind before) :
    other = before := by
  obtain ⟨line, column⟩ := Position.mk.inj same
  rw [longer] at line column
  have single : '\n' ∉ more := by
    intro member
    have positive := count_pos_iff.mpr member
    rw [count_append] at line
    omega
  have all : ∀ character ∈ more.reverse, decide (character ≠ '\n') = true := by
    intro character member
    exact decide_eq_true fun feed => single (feed ▸ mem_reverse.mp member)
  rw [reverse_append, takeWhile_append_of_pos all, length_append, length_reverse] at column
  have nothing : more = [] := eq_nil_of_length_eq_zero (by omega)
  rw [← String.toList_inj, longer, nothing, append_nil]

/-- A place in a text has only one text before it. -/
theorem Position.eq_of_behind_eq {before after other rest : String}
    (split : before ++ after = other ++ rest) (same : behind other = behind before) :
    other = before := by
  have split : before.toList ++ after.toList = other.toList ++ rest.toList := by
    rw [← String.toList_append, split, String.toList_append]
  rcases append_eq_append_iff.mp split with ⟨more, front, _⟩ | ⟨more, front, _⟩
  · exact eq_of_toList_eq_append front same
  · exact (eq_of_toList_eq_append front same.symm).symm

namespace Lexeme

variable {shorter rest : List Char} {first : Char} {lexeme : Lexeme}

/-! ## Lexemes of a shorter text -/

theorem takeWhile_of_isPrefix {part : Char → Bool} (cut : shorter <+: rest)
    (taken : rest.takeWhile part <+: shorter) : shorter.takeWhile part = rest.takeWhile part :=
  calc shorter.takeWhile part
      = (rest.take shorter.length).takeWhile part := by
        rw [← prefix_iff_eq_take.mp cut]
    _ = (rest.takeWhile part).take shorter.length := take_takeWhile.symm
    _ = rest.takeWhile part := take_of_length_le taken.length_le

theorem readNumber_of_isPrefix (cut : shorter <+: rest)
    (taken : lexeme.characters <+: first :: shorter)
    (success : readNumber first rest = .ok lexeme) : readNumber first shorter = .ok lexeme := by
  rw [(eq_of_readNumber success).2] at taken
  have digits : shorter.takeWhile isDigit = rest.takeWhile isDigit :=
    takeWhile_of_isPrefix cut (cons_prefix_cons.mp taken).2
  rw [← success, readNumber, readNumber, digits]

theorem readString_of_isPrefix (cut : shorter <+: rest)
    (taken : (readString rest).characters <+: '"' :: shorter) :
    readString shorter = readString rest := by
  obtain ⟨_, taken⟩ := cons_prefix_cons.mp taken
  have contents : shorter.takeWhile (· ≠ '"') = rest.takeWhile (· ≠ '"') :=
    takeWhile_of_isPrefix cut ((prefix_append _ _).trans taken)
  have closing : (shorter.drop (rest.takeWhile (· ≠ '"')).length).take 1 =
      (rest.drop (rest.takeWhile (· ≠ '"')).length).take 1 := by
    cases left : shorter.drop (rest.takeWhile (· ≠ '"')).length with
    | cons =>
      obtain ⟨_, rfl⟩ := cut
      rw [drop_append, left]
      rfl
    | nil =>
      -- Nothing follows the contents in the shorter text, so nothing closes the string.
      have enough := taken.length_le
      have short := drop_eq_nil_iff.mp left
      rw [append_eq, length_append] at enough
      exact (eq_nil_of_length_eq_zero (by omega)).symm
  rw [readString, readString, contents, closing]

theorem readWord_of_isPrefix (cut : shorter <+: rest)
    (taken : (readWord first rest).characters <+: first :: shorter) :
    readWord first shorter = readWord first rest := by
  have parts : shorter.takeWhile isWordPart = rest.takeWhile isWordPart :=
    takeWhile_of_isPrefix cut (cons_prefix_cons.mp taken).2
  rw [readWord, readWord, parts]

theorem sign?_of_isPrefix {sign : Sign} (cut : shorter <+: rest)
    (taken : sign.spelling.toList <+: first :: shorter) (found : sign? first rest = some sign) :
    sign? first shorter = some sign := by
  cases shorter with
  | cons =>
    -- A sign depends on no more than the character after the first one.
    obtain ⟨_, rfl⟩ := cut
    exact found
  | nil =>
    by_cases follows : rest.head? = some '='
    · have short := taken.length_le
      unfold sign? at found ⊢
      simp only [follows, if_true] at found
      split at found <;> cases found <;> first | rfl | exact absurd short (by decide)
    · simpa [sign?, follows] using found

/-- A lexeme is read alike from a part of the text that has all its characters. -/
theorem read_of_isPrefix (cut : shorter <+: rest) (taken : lexeme.characters <+: first :: shorter)
    (success : read first rest = .ok lexeme) : read first shorter = .ok lexeme := by
  unfold read at success ⊢
  split at success
  · exact success
  · by_cases digit : isDigit first
    · rw [if_pos digit] at success ⊢
      exact readNumber_of_isPrefix cut taken success
    · rw [if_neg digit] at success ⊢
      by_cases quote : first = '"'
      · rw [if_pos quote] at success ⊢
        cases success
        rw [quote] at taken
        rw [readString_of_isPrefix cut taken]
      · rw [if_neg quote] at success ⊢
        by_cases starts : isWordStart first
        · rw [if_pos starts] at success ⊢
          cases success
          rw [readWord_of_isPrefix cut taken]
        · rw [if_neg starts] at success ⊢
          split at success
          · rename_i sign found
            cases success
            rw [sign?_of_isPrefix cut taken found]
          · cases success

/-- What makes a text start with no lexeme. -/
theorem eq_of_read_error {fault : LexicalFault} (failed : read first rest = .error fault) :
    fault = .unexpectedCharacter first ∨
      isDigit first ∧ fault = .invalidNumber (String.ofList (first :: rest.takeWhile isDigit)) := by
  unfold read at failed
  split at failed
  · cases failed
  · split at failed
    · rename_i digit
      unfold readNumber at failed
      simp only at failed
      split at failed
      · cases failed
      · cases failed
        exact .inr ⟨digit, rfl⟩
    · split at failed
      · cases failed
      · split at failed
        · cases failed
        · split at failed
          · cases failed
          · cases failed
            exact .inl rfl

end Lexeme

/-! ## What a fault reports -/

namespace LexicalFault

variable {first : Char} {fault : LexicalFault} {earlier line later : List Char}

/-- The text starts with what the fault reports: with the character, or with the
digits, of which there are no more. -/
def Heads : LexicalFault → List Char → Prop
  | unexpectedCharacter character, text => text.head? = some character
  | invalidNumber digits, text => digits ≠ "" ∧ text.takeWhile isDigit = digits.toList

theorem heads_of_read {rest : List Char} (failed : Lexeme.read first rest = .error fault) :
    fault.Heads (first :: rest) := by
  rcases Lexeme.eq_of_read_error failed with rfl | ⟨digit, rfl⟩
  · rfl
  · constructor
    · exact fun empty => by simpa using congrArg String.toList empty
    · rw [takeWhile_cons_of_pos digit, String.toList_ofList]

/-- No digits stand across a line end. -/
theorem takeWhile_isDigit_of_isLine (isLine : Text.IsLine earlier line later) (tail : List Char) :
    (tail ++ later).takeWhile isDigit = tail.takeWhile isDigit := by
  have stops : later.takeWhile isDigit = [] := by
    rcases isLine.ends with rfl | ⟨rest, rfl⟩ | ⟨rest, rfl⟩ <;> rfl
  rw [takeWhile_append, stops]
  split
  · rename_i full
    rw [append_nil, (List.takeWhile_prefix isDigit).eq_of_length full]
  · rfl

/-- What a fault reports does not go on behind the line. -/
theorem Heads.of_isLine {tail : List Char} (isLine : Text.IsLine earlier line later)
    (heads : fault.Heads (first :: (tail ++ later))) : fault.Heads (first :: tail) := by
  cases fault with
  | unexpectedCharacter => exact heads
  | invalidNumber =>
    obtain ⟨nonempty, digits⟩ := heads
    rw [← cons_append, takeWhile_isDigit_of_isLine isLine] at digits
    exact ⟨nonempty, digits⟩

end LexicalFault

/-! ## Cursors -/

namespace Cursor

variable {error : LexicalError} {rest : List Char}

/-- Stepping finds the tokens one behind the other, and then the error. -/
inductive FailsAfter (error : LexicalError) : List Token → Cursor → Prop where
  | fault {cursor after : Cursor} (found : cursor.next = (.fault error, after)) :
      FailsAfter error [] cursor
  | token {cursor after : Cursor} {token : Token} {tokens : List Token}
      (found : cursor.next = (.token token, after)) (further : FailsAfter error tokens after) :
      FailsAfter error (token :: tokens) cursor

theorem exists_failsAfter {cursor : Cursor} (failed : cursor.tokens = .error error) :
    ∃ tokens, FailsAfter error tokens cursor := by
  fun_induction Cursor.tokens cursor with
  | case1 | case3 => cases failed
  | case2 cursor error after found =>
    cases failed
    exact ⟨[], .fault found⟩
  | case4 cursor token after found _ error refused ih =>
    cases failed
    obtain ⟨tokens, further⟩ := ih refused
    exact ⟨token :: tokens, .token found further⟩

theorem next_eq_fault {cursor after : Cursor} (found : cursor.next = (.fault error, after)) :
    ∃ fault first rest, Lexeme.read first rest = .error fault ∧
      cursor.skipBlanks.rest = first :: rest ∧
      error = ({ cause := fault : LexicalError }).located cursor.skipBlanks.position := by
  unfold next at found
  simp only at found
  split at found
  · cases found
  · rename_i first rest standing
    split at found
    · cases found
    · rename_i fault failed
      cases found
      exact ⟨fault, first, rest, failed, standing, rfl⟩

theorem isBlank_eq_false_of_skipBlanks {cursor : Cursor} {first : Char}
    (standing : cursor.skipBlanks.rest = first :: rest) : isBlank first = false := by
  have whole : cursor.rest.takeWhile isBlank ++ cursor.rest.dropWhile isBlank =
      cursor.rest.takeWhile isBlank ++ first :: rest := by
    rw [takeWhile_append_dropWhile, ← standing, ← rest_eq_skipBlanks]
  have dropped := append_cancel_left whole
  simpa [dropped] using head?_dropWhile_not isBlank cursor.rest

namespace StandsBehind

variable {cursor : Cursor} {before : String}

theorem advance_of_rest_eq (stands : cursor.StandsBehind before) {taken : List Char}
    (standing : cursor.rest = taken ++ rest) :
    (cursor.advance taken.length).StandsBehind (before ++ .ofList taken) ∧
      (cursor.advance taken.length).rest = rest := by
  have moved := stands.advance taken.length
  rw [standing, take_left] at moved
  exact ⟨moved, by rw [advance_rest, standing, drop_left]⟩

theorem skipBlanks_of_rest_eq (stands : cursor.StandsBehind before) {gap : List Char}
    (standing : cursor.rest = gap ++ rest) (blank : ∀ character ∈ gap, isBlank character)
    (stops : ∀ character ∈ rest.head?, isBlank character = false) :
    cursor.skipBlanks.StandsBehind (before ++ .ofList gap) ∧ cursor.skipBlanks.rest = rest := by
  have left : cursor.skipBlanks.rest = rest := skipBlanks_rest standing blank stops
  have whole : cursor.rest.takeWhile isBlank ++ rest = gap ++ rest := by
    rw [← standing, ← left, ← rest_eq_skipBlanks]
  have skipped := stands.skipBlanks
  rw [append_cancel_right whole] at skipped
  exact ⟨skipped, left⟩

/-- A token depends on its lexeme and on the text before it. -/
theorem place_eq {other : Cursor} (stands : cursor.StandsBehind before)
    (standsOther : other.StandsBehind before) (lexeme : Lexeme) :
    other.place lexeme = cursor.place lexeme := by
  rw [Cursor.place, Cursor.place, stands.offset, stands.position, standsOther.offset,
    standsOther.position]

end StandsBehind

/-- Where the stepping fails, and what it finds in the text up to there. -/
theorem FailsAfter.exists_cut {tokens : List Token} {cursor : Cursor} {before : String}
    (fails : FailsAfter error tokens cursor) (stands : cursor.StandsBehind before) :
    ∃ front first rest fault, cursor.rest = front ++ first :: rest ∧ isBlank first = false ∧
      Lexeme.read first rest = .error fault ∧
      error = ({ cause := fault : LexicalError }).located (.behind (before ++ .ofList front)) ∧
      ∀ short : Cursor, short.StandsBehind before → short.rest = front →
        ∃ last, last.kind = .endOfInput ∧ short.tokens = .ok (tokens ++ [last]) := by
  have blank (characters : List Char) :
      ∀ character ∈ characters.takeWhile isBlank, isBlank character :=
    all_eq_true.mp all_takeWhile
  induction fails generalizing before with
  | @fault cursor after found =>
    obtain ⟨fault, first, rest, failed, standing, rfl⟩ := next_eq_fault found
    refine ⟨cursor.rest.takeWhile isBlank, first, rest, fault, ?_,
      isBlank_eq_false_of_skipBlanks standing, failed, by rw [stands.skipBlanks.position], ?_⟩
    · rw [← standing, ← rest_eq_skipBlanks]
    · intro short _ onlyBlanks
      have nothing : short.skipBlanks.rest = [] :=
        skipBlanks_rest (onlyBlanks.trans (append_nil _).symm) (blank _) nofun
      have found : short.next = (.finished, short.skipBlanks) := by
        rw [next]
        simp only [nothing]
      exact ⟨_, rfl, tokens_of_next_finished found⟩
  | @token cursor after token tokens found further ih =>
    obtain ⟨lexeme, head, rest, success, standing, rfl, rfl⟩ := next_eq_token found
    have standsHead := stands.skipBlanks
    have text := rest_eq_of_read standing success
    obtain ⟨standsAfter, _⟩ := standsHead.advance_of_rest_eq text
    obtain ⟨front, first, later, fault, split, plain, failed, located, cut⟩ := ih standsAfter
    rw [split] at text
    refine ⟨cursor.rest.takeWhile isBlank ++ (lexeme.characters ++ front), first, later, fault,
      ?_, plain, failed, ?_, ?_⟩
    · rw [append_assoc, append_assoc, ← text, ← rest_eq_skipBlanks]
    · simpa [String.ofList_append, String.append_assoc] using located
    · intro short standsShort shortRest
      -- The lexeme starts with the character at which it was read, and it is read again.
      obtain ⟨tail, characters, known⟩ : ∃ tail, lexeme.characters = head :: tail ∧
          rest = tail ++ (front ++ first :: later) := by
        rw [standing] at text
        rcases cons_eq_append_iff.mp text with ⟨empty, _⟩ | ⟨tail, characters, known⟩
        · exact absurd empty (Lexeme.characters_ne_nil_of_read success)
        · exact ⟨tail, characters, known⟩
      have again : Lexeme.read head (tail ++ front) = .ok lexeme := by
        apply Lexeme.read_of_isPrefix _ _ success
        · rw [known, ← append_assoc]
          exact prefix_append _ _
        · rw [characters, ← cons_append]
          exact prefix_append _ _
      rw [characters, cons_append] at shortRest
      have foundAgain := next_of_read shortRest (blank _) again
      obtain ⟨standsSkipped, skipped⟩ := standsShort.skipBlanks_of_rest_eq shortRest (blank _) (by
        rintro _ ⟨⟩
        exact Lexeme.isBlank_eq_false_of_read success)
      rw [← cons_append, ← characters] at skipped
      obtain ⟨standsNext, nextRest⟩ := standsSkipped.advance_of_rest_eq skipped
      obtain ⟨last, ends, listed⟩ := cut _ standsNext nextRest
      rw [standsHead.place_eq standsSkipped] at foundAgain
      exact ⟨last, ends, tokens_of_next_token foundAgain listed⟩

end Cursor

/-! ## The culprit -/

namespace Source

/-- A line is the one with the number of line feeds before it, counted from one. -/
theorem line?_of_isLine {source : Source} {earlier line later : List Char}
    (isLine : Text.IsLine earlier line later) (nonempty : line ≠ [])
    (split : source.text.toList = earlier ++ (line ++ later)) :
    source.line? (1 + earlier.count '\n') = some (String.ofList line) := by
  have listed := Text.getElem?_splitLines isLine (append_ne_nil_of_left_ne_nil nonempty later)
  rw [Nat.add_comm, line?, Text.lines, split, getElem?_map, listed]
  rfl

/-- In the line around the place behind `before`, from its column on, stands what the
fault reports. -/
def ReportsBehind (source : Source) (fault : LexicalFault) (before : String) : Prop :=
  ∃ earlier line later, source.text = earlier ++ line ++ later ∧
    Text.IsLine earlier.toList line.toList later.toList ∧
    earlier.utf8ByteSize ≤ before.utf8ByteSize ∧
    before.utf8ByteSize < (earlier ++ line).utf8ByteSize ∧
    source.line? (Position.behind before).line = some line ∧
    fault.Heads (line.toList.drop ((Position.behind before).column - 1))

/-- The tokens cannot be read on behind `before`. -/
structure FailsBehind (source : Source) (error : LexicalError) (before : String) : Prop where
  position : error.position = some (.behind before)
  begins : ∃ after, source.text = before ++ after
  /-- No other part of the text comes before the place of the error. -/
  only : ∀ other rest, source.text = other ++ rest → error.position = some (.behind other) →
    other = before
  tokens : ∃ tokens last, Cursor.FailsAfter error tokens (.ofText source.text) ∧
    tokenize before = .ok (tokens ++ [last]) ∧ last.kind = .endOfInput
  reports : source.ReportsBehind error.cause before

theorem reportsBehind_of_read {source : Source} {front rest : List Char} {first : Char}
    {fault : LexicalFault} (split : source.text.toList = front ++ first :: rest)
    (plain : isBlank first = false) (refused : Lexeme.read first rest = .error fault) :
    source.ReportsBehind fault (.ofList front) := by
  have visible {character : Char} (blank : isBlank character) : first ≠ character := by
    rintro rfl
    cases plain.symm.trans blank
  obtain ⟨earlier, start, tail, later, rfl, rfl, isLine, length⟩ :=
    Text.exists_isLine (visible rfl) (visible rfl) front rest
  have whole : source.text.toList = earlier ++ ((start ++ first :: tail) ++ later) := by
    simp [split]
  have single : start.count '\n' = 0 :=
    count_eq_zero.mpr fun member => isLine.single (mem_append_left _ member)
  refine ⟨.ofList earlier, .ofList (start ++ first :: tail), .ofList later, ?_, ?_, ?_, ?_, ?_, ?_⟩
  · rw [← String.toList_inj, whole]
    simp
  · simpa using isLine
  · simp [String.ofList_append]
  · simpa [String.ofList_append, String.ofList_cons] using Nat.add_pos_left first.utf8Size_pos _
  · have counted : (Position.behind (String.ofList (earlier ++ start))).line =
        1 + earlier.count '\n' := by
      simp [Position.behind, single]
    rw [counted]
    exact line?_of_isLine isLine (by simp) whole
  · have counted : (Position.behind (String.ofList (earlier ++ start))).column =
        1 + start.length := by
      rw [Position.behind, String.toList_ofList, length]
    rw [counted, Nat.add_sub_cancel_left, String.toList_ofList, drop_left]
    exact (LexicalFault.heads_of_read refused).of_isLine isLine

/-- **A text that cannot be tokenized can be tokenized up to the error.**  The error
has a place, and only one part of the text comes before it.  This part has the tokens
that were found before the fault, and the end of the input.  The line that the place
counts is the line around it, and there, from the column on, stands what is reported. -/
theorem exists_failsBehind {source : Source} {error : LexicalError}
    (failed : tokenize source.text = .error error) : ∃ before, source.FailsBehind error before := by
  obtain ⟨tokens, fails⟩ := Cursor.exists_failsAfter failed
  obtain ⟨front, first, rest, _, split, plain, refused, rfl, cut⟩ :=
    fails.exists_cut (.ofText source.text)
  have text : source.text = String.ofList front ++ String.ofList (first :: rest) := by
    rw [← String.toList_inj]
    exact split.trans (by simp)
  rw [String.empty_append] at fails ⊢
  refine ⟨.ofList front, rfl, ⟨_, text⟩, ?_, ?_, reportsBehind_of_read split plain refused⟩
  · intro other rest splitOther same
    exact Position.eq_of_behind_eq (text.symm.trans splitOther) (Option.some.inj same).symm
  · obtain ⟨last, ends, listed⟩ := cut (.ofText (.ofList front)) (.ofText _) String.toList_ofList
    exact ⟨tokens, last, fails, listed, ends⟩

/-- An unknown character behind a string of two lines, in a line that a carriage return
ends, behind characters of several bytes. -/
theorem failsBehind_unknownCharacter :
    tokenize "\"ক\n খ\"\tগঘ<=x @1\r\n" =
        .error { cause := .unexpectedCharacter '@', position := some ⟨2, 11⟩ } ∧
      ∃ before, FailsBehind ⟨none, "\"ক\n খ\"\tগঘ<=x @1\r\n"⟩
        { cause := .unexpectedCharacter '@', position := some ⟨2, 11⟩ } before := by
  have failed : tokenize "\"ক\n খ\"\tগঘ<=x @1\r\n" =
      .error { cause := .unexpectedCharacter '@', position := some ⟨2, 11⟩ } := by
    decide +kernel
  exact ⟨failed, exists_failsBehind failed⟩

end Source

end BanglaScript
