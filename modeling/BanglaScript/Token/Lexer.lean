import BanglaScript.Token.Lexeme

/-!
# Reading the tokens of a text

A cursor is what remains of a text together with the place of its head.  A
step of the cursor skips blanks and reads one lexeme, which becomes a token at
the cursor's place.  A text is tokenized by stepping until nothing remains;
the tokens end with a single end-of-input token.

A cursor can be stepped again after a fault: it stands behind the digits of an
invalid number, and before an unexpected character.
-/

namespace BanglaScript

/-- A lexical fault at its place. -/
abbrev LexicalError := Diagnostic LexicalFault

/-- The unread part of a text and the place of its head. -/
structure Cursor where
  rest : List Char
  offset : Nat := 0
  position : Position := Position.start
deriving DecidableEq

namespace Cursor

/-- The cursor at the head of a text. -/
def ofText (text : String) : Cursor := ⟨text.toList, 0, Position.start⟩

/-- The cursor behind the next characters. -/
def advance : Nat → Cursor → Cursor
  | 0, cursor => cursor
  | count + 1, cursor =>
    match cursor.rest with
    | [] => cursor
    | character :: rest =>
      advance count
        ⟨rest, cursor.offset + character.utf8Size, cursor.position.after character⟩

@[simp]
theorem advance_rest (count : Nat) (cursor : Cursor) :
    (cursor.advance count).rest = cursor.rest.drop count := by
  induction count generalizing cursor with
  | zero => rfl
  | succ count ih =>
    rcases cursor with ⟨rest, offset, position⟩
    cases rest with
    | nil => simp [advance]
    | cons character rest => simp [advance, ih]

/-- The cursor at the next character that is no blank. -/
def skipBlanks (cursor : Cursor) : Cursor :=
  cursor.advance (cursor.rest.takeWhile isBlank).length

/-- Skipping blanks leaves no more than there was. -/
theorem skipBlanks_rest_length_le (cursor : Cursor) :
    cursor.skipBlanks.rest.length ≤ cursor.rest.length := by
  simp [skipBlanks]

/-- A lexeme placed at the cursor. -/
def place (cursor : Cursor) (lexeme : Lexeme) : Token :=
  let text := String.ofList lexeme.characters
  { kind := lexeme.kind
    value := lexeme.value
    text := text
    span := ⟨cursor.offset, text.utf8ByteSize⟩
    position := cursor.position }

/-- The end-of-input token at the cursor. -/
def endToken (cursor : Cursor) : Token :=
  { kind := .endOfInput
    span := ⟨cursor.offset, 0⟩
    position := cursor.position }

/-- What one step of a cursor finds. -/
inductive Reading where
  | token (token : Token)
  | finished
  | fault (error : LexicalError)
deriving DecidableEq

/-- How many characters a fault takes from the text. -/
def faultLength : LexicalFault → Nat
  | .unexpectedCharacter _ => 0
  | .invalidNumber digits => digits.length

/-- Skip blanks and read one token. -/
def next (cursor : Cursor) : Reading × Cursor :=
  let head := cursor.skipBlanks
  match head.rest with
  | [] => (.finished, head)
  | first :: rest =>
    match Lexeme.read first rest with
    | .ok lexeme => (.token (head.place lexeme), head.advance lexeme.characters.length)
    | .error fault =>
      (.fault ({ cause := fault : LexicalError }.located head.position),
        head.advance (faultLength fault))

end Cursor

/-- The spelling of a sign has characters. -/
theorem Sign.spelling_toList_ne_nil (sign : Sign) : sign.spelling.toList ≠ [] := by
  cases sign <;> decide

namespace Lexeme

variable {first : Char} {rest : List Char} {lexeme : Lexeme}

/-- What a text can start with. -/
theorem eq_of_read (success : read first rest = .ok lexeme) :
    (∃ kind, delimiter? first = some kind ∧ lexeme = ⟨kind, none, [first]⟩) ∨
      readNumber first rest = .ok lexeme ∨ (first = '"' ∧ lexeme = readString rest) ∨
      (isWordStart first ∧ lexeme = readWord first rest) ∨
      ∃ sign, sign? first rest = some sign ∧ lexeme = ⟨.sign sign, none, sign.spelling.toList⟩ := by
  unfold read at success
  split at success
  · rename_i kind found
    exact .inl ⟨kind, found, (Except.ok.inj success).symm⟩
  · split at success
    · exact .inr (.inl success)
    · split at success
      · rename_i quote
        exact .inr (.inr (.inl ⟨quote, (Except.ok.inj success).symm⟩))
      · split at success
        · rename_i starts
          exact .inr (.inr (.inr (.inl ⟨starts, (Except.ok.inj success).symm⟩)))
        · split at success
          · rename_i sign found
            exact .inr (.inr (.inr (.inr ⟨sign, found, (Except.ok.inj success).symm⟩)))
          · cases success

theorem eq_of_readNumber (success : readNumber first rest = .ok lexeme) :
    (Number.ofNat (digitsValue (first :: rest.takeWhile isDigit))).isFinite ∧
      lexeme = ⟨.number, some (.number (.ofNat (digitsValue (first :: rest.takeWhile isDigit)))),
        first :: rest.takeWhile isDigit⟩ := by
  unfold readNumber at success
  simp only at success
  split at success
  · rename_i finite
    exact ⟨finite, (Except.ok.inj success).symm⟩
  · cases success

/-- A lexeme has characters. -/
theorem characters_ne_nil_of_read (success : read first rest = .ok lexeme) :
    lexeme.characters ≠ [] := by
  rcases eq_of_read success with ⟨_, _, rfl⟩ | number | ⟨_, rfl⟩ | ⟨_, rfl⟩ | ⟨sign, _, rfl⟩
  · exact List.cons_ne_nil _ _
  · rw [(eq_of_readNumber number).2]
    exact List.cons_ne_nil _ _
  · exact List.cons_ne_nil _ _
  · exact List.cons_ne_nil _ _
  · exact sign.spelling_toList_ne_nil

end Lexeme

namespace Cursor

variable {cursor after : Cursor} {token : Token}

/-- What a step finds, and where. -/
theorem next_eq_token (found : cursor.next = (.token token, after)) :
    ∃ lexeme first rest, Lexeme.read first rest = .ok lexeme ∧
      cursor.skipBlanks.rest = first :: rest ∧ token = cursor.skipBlanks.place lexeme ∧
      after = cursor.skipBlanks.advance lexeme.characters.length := by
  unfold next at found
  simp only at found
  split at found
  · cases found
  · rename_i first rest standing
    split at found
    · rename_i lexeme success
      cases found
      exact ⟨lexeme, first, rest, success, standing, rfl, rfl⟩
    · cases found

/-- A step that finds a token shortens the text. -/
theorem rest_length_lt_of_next_eq_token (found : cursor.next = (.token token, after)) :
    after.rest.length < cursor.rest.length := by
  obtain ⟨lexeme, first, rest, success, standing, _, rfl⟩ := next_eq_token found
  have blanks := cursor.skipBlanks_rest_length_le
  have nonempty := List.length_pos_iff.mpr (Lexeme.characters_ne_nil_of_read success)
  rw [standing] at blanks
  simp only [advance_rest, standing, List.length_drop, List.length_cons] at blanks ⊢
  omega

/-- The tokens from the cursor on, ending with the end of input, unless a
fault comes first. -/
def tokens (cursor : Cursor) : Except LexicalError (List Token) :=
  match found : cursor.next with
  | (.finished, after) => .ok [after.endToken]
  | (.fault error, _) => .error error
  | (.token token, after) =>
    have := rest_length_lt_of_next_eq_token found
    match after.tokens with
    | .ok rest => .ok (token :: rest)
    | .error error => .error error
termination_by cursor.rest.length

end Cursor

/-- The tokens of a text. -/
def tokenize (text : String) : Except LexicalError (List Token) :=
  (Cursor.ofText text).tokens

end BanglaScript
