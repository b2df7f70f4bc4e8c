import BanglaScript.Proofs.Parser.Printed

/-!
# Lexemes with blanks between them

Lexemes that are written one behind the other, with at least one blank between
neighbours, are read back as they are.  Each of them stands at the end of the text
or in front of a blank, and a blank continues none of them: neither a word nor a run
of digits goes on, and no sign becomes a longer one.
-/

namespace BanglaScript

open List

variable {lexeme : Lexeme}

namespace Lexeme

variable {character first : Char} {rest following : List Char}

/-- The lexeme of a run of digits. -/
def ofDigits (digits : List Char) : Lexeme :=
  ⟨.number, some (.number (.ofNat (digitsValue digits))), digits⟩

/-- The lexemes that can be written. -/
inductive IsWritable : Lexeme → Prop where
  | delimiter {lexeme : Lexeme}
      (listed : lexeme ∈ [openParen, closeParen, openBrace, closeBrace, semicolon, comma]) :
      IsWritable lexeme
  | sign (sign : Sign) : IsWritable (.ofSign sign)
  | keyword (keyword : Keyword) : IsWritable (.ofKeyword keyword)
  | name {first : Char} {rest : List Char} (starts : isWordStart first)
      (continues : ∀ character ∈ rest, isWordPart character)
      (free : ∀ keyword : Keyword, keyword.spelling ≠ String.ofList (first :: rest)) :
      IsWritable (.ofName (String.ofList (first :: rest)))
  | number {digits : List Char} (nonempty : digits ≠ [])
      (decimal : ∀ digit ∈ digits, isDigit digit)
      (finite : (Number.ofNat (digitsValue digits)).isFinite) :
      IsWritable (.ofDigits digits)
  | string {contents : String} (unquoted : '"' ∉ contents.toList) :
      IsWritable (.ofLiteral (.string contents))

/-! ## Classes of characters -/

/-- No word starts with a digit. -/
theorem isWordStart_eq_false_of_isDigit (digit : isDigit character) :
    isWordStart character = false := by
  have small : character ≤ '9' := (of_decide_eq_true digit).2
  refine decide_eq_false ?_
  rintro (⟨letter, _⟩ | ⟨letter, _⟩ | rfl | ⟨letter, _⟩)
  · exact absurd (Char.le_trans letter small) (by decide)
  · exact absurd (Char.le_trans letter small) (by decide)
  · exact absurd digit (by decide)
  · exact absurd (Char.le_trans letter small) (by decide)

theorem delimiter?_eq_none_of_isWordPart (part : isWordPart character) :
    delimiter? character = none := by
  unfold delimiter?
  split
  all_goals first | rfl | exact absurd part (by decide)

theorem read_of_isDigit (digit : isDigit first) (rest : List Char) :
    read first rest = readNumber first rest := by
  have part : isWordPart first := decide_eq_true (.inr digit)
  rw [read, delimiter?_eq_none_of_isWordPart part]
  exact if_pos digit

theorem read_of_isWordStart (starts : isWordStart first) (rest : List Char) :
    read first rest = .ok (readWord first rest) := by
  have part : isWordPart first := decide_eq_true (.inl starts)
  have noDigit : ¬ isDigit first := fun digit => by
    rw [isWordStart_eq_false_of_isDigit digit] at starts
    cases starts
  have noQuote : first ≠ '"' := by
    rintro rfl
    exact absurd starts (by decide)
  rw [read, delimiter?_eq_none_of_isWordPart part]
  simp only
  rw [if_neg noDigit, if_neg noQuote, if_pos starts]

theorem isBlank_eq_false_of_read (success : read first rest = .ok lexeme) :
    isBlank first = false := by
  rw [Bool.eq_false_iff]
  intro blank
  rcases of_decide_eq_true blank with rfl | rfl | rfl | rfl <;> cases success

/-! ## Lexemes in front of a blank -/

/-- At the end of a text, or in front of a blank. -/
def EndsAt (following : List Char) : Prop := ∀ character ∈ following.head?, isBlank character

theorem takeWhile_append_of_endsAt {part : Char → Bool} {taken : List Char}
    (all : ∀ character ∈ taken, part character) (ends : EndsAt following)
    (blank : ∀ character, isBlank character → part character = false) :
    (taken ++ following).takeWhile part = taken := by
  rw [takeWhile_append_of_pos all]
  cases following with
  | nil => simp
  | cons character =>
    have stops : part character = false := blank character (ends character rfl)
    rw [takeWhile_cons_of_neg (by rw [stops]; exact Bool.false_ne_true), append_nil]

theorem isWordPart_eq_false_of_isBlank (blank : isBlank character) :
    isWordPart character = false := by
  rcases of_decide_eq_true blank with rfl | rfl | rfl | rfl <;> decide

theorem isDigit_eq_false_of_isBlank (blank : isBlank character) : isDigit character = false := by
  rcases of_decide_eq_true blank with rfl | rfl | rfl | rfl <;> decide

theorem read_of_sign? {sign : Sign}
    (plain : delimiter? first = none ∧ isWordPart first = false ∧ first ≠ '"')
    (found : sign? first rest = some sign) : read first rest = .ok (.ofSign sign) := by
  have noDigit : ¬ isDigit first := fun digit => of_decide_eq_false plain.2.1 (.inr digit)
  have noStart : ¬ isWordStart first := fun starts => of_decide_eq_false plain.2.1 (.inl starts)
  rw [read, plain.1]
  simp only
  rw [if_neg noDigit, if_neg plain.2.2, if_neg noStart, found]
  rfl

/-- No sign is a part of a longer one if a blank follows. -/
theorem read_sign (sign : Sign) (ends : EndsAt following) :
    ∃ first rest, sign.spelling.toList = first :: rest ∧
      read first (rest ++ following) = .ok (.ofSign sign) := by
  have apart : following.head? ≠ some '=' := fun equals => absurd (ends '=' equals) (by decide)
  cases sign with
  | assign => exact ⟨'=', [], rfl, read_of_sign? (by decide) (by simp [sign?, apart])⟩
  | less => exact ⟨'<', [], rfl, read_of_sign? (by decide) (by simp [sign?, apart])⟩
  | greater => exact ⟨'>', [], rfl, read_of_sign? (by decide) (by simp [sign?, apart])⟩
  | _ => exact ⟨_, _, rfl, rfl⟩

/-- A word is read to its end. -/
theorem read_word (starts : isWordStart first)
    (continues : ∀ character ∈ rest, isWordPart character) (ends : EndsAt following) :
    read first (rest ++ following) =
      .ok ⟨match Keyword.ofSpelling? (String.ofList (first :: rest)) with
          | some keyword => .keyword keyword
          | none => .identifier,
        some (.word (String.ofList (first :: rest))), first :: rest⟩ := by
  rewrite [read_of_isWordStart starts, readWord,
    takeWhile_append_of_endsAt continues ends fun _ => isWordPart_eq_false_of_isBlank]
  rfl

theorem ofSpelling?_spelling (keyword : Keyword) :
    Keyword.ofSpelling? keyword.spelling = some keyword := by
  cases keyword <;> decide

theorem exists_spelling_eq_cons (keyword : Keyword) :
    ∃ first rest, keyword.spelling.toList = first :: rest ∧ isWordStart first ∧
      ∀ character ∈ rest, isWordPart character := by
  cases keyword <;> exact ⟨_, _, rfl, by decide, all_eq_true.mp (by decide)⟩

theorem read_keyword (keyword : Keyword) (ends : EndsAt following) :
    ∃ first rest, keyword.spelling.toList = first :: rest ∧
      read first (rest ++ following) = .ok (.ofKeyword keyword) := by
  obtain ⟨first, rest, spelled, starts, continues⟩ := exists_spelling_eq_cons keyword
  refine ⟨first, rest, spelled, ?_⟩
  rw [read_word starts continues ends, ← spelled, String.ofList_toList, ofSpelling?_spelling]
  rfl

theorem read_number (decimal : ∀ digit ∈ first :: rest, isDigit digit) (ends : EndsAt following)
    (finite : (Number.ofNat (digitsValue (first :: rest))).isFinite) :
    read first (rest ++ following) = .ok (.ofDigits (first :: rest)) := by
  obtain ⟨digit, more⟩ := forall_mem_cons.mp decimal
  rw [read_of_isDigit digit, readNumber,
    takeWhile_append_of_endsAt more ends fun _ => isDigit_eq_false_of_isBlank]
  exact if_pos finite

/-- A string ends at its quote, whatever follows. -/
theorem read_string {contents : List Char} (unquoted : '"' ∉ contents) (following : List Char) :
    read '"' (contents ++ '"' :: following) =
      .ok ⟨.string, some (.contents (String.ofList contents)), '"' :: contents ++ ['"']⟩ := by
  have inside : ∀ character ∈ contents, decide (character ≠ '"') = true := by
    intro character member
    exact decide_eq_true fun quote => unquoted (quote ▸ member)
  have taken : (contents ++ '"' :: following).takeWhile (· ≠ '"') = contents := by
    rw [takeWhile_append_of_pos inside, takeWhile_cons_of_neg (by decide), append_nil]
  change Except.ok (readString _) = _
  rw [readString, taken, drop_left]
  rfl

/-- In front of a blank a lexeme is read as it was written. -/
theorem IsWritable.read (writable : lexeme.IsWritable) {following : List Char}
    (ends : EndsAt following) :
    ∃ first rest, lexeme.characters = first :: rest ∧
      Lexeme.read first (rest ++ following) = .ok lexeme := by
  cases writable with
  | delimiter listed =>
    simp only [mem_cons, not_mem_nil, or_false] at listed
    rcases listed with rfl | rfl | rfl | rfl | rfl | rfl <;> exact ⟨_, [], rfl, rfl⟩
  | sign sign => exact read_sign sign ends
  | keyword keyword => exact read_keyword keyword ends
  | @name first rest starts continues free =>
    refine ⟨first, rest, String.toList_ofList, ?_⟩
    have none : Keyword.ofSpelling? (String.ofList (first :: rest)) = none :=
      find?_eq_none.mpr fun keyword _ same => free keyword (of_decide_eq_true same)
    rw [read_word starts continues ends, none, ofName, String.toList_ofList]
  | @number digits nonempty decimal finite =>
    obtain ⟨first, rest, rfl⟩ := exists_cons_of_ne_nil nonempty
    exact ⟨first, rest, rfl, read_number decimal ends finite⟩
  | @string contents unquoted =>
    refine ⟨'"', contents.toList ++ ['"'], rfl, ?_⟩
    rw [append_assoc, singleton_append, read_string unquoted, String.ofList_toList]
    rfl

end Lexeme

/-! ## Cursors -/

namespace Cursor

variable {cursor after : Cursor} {gap rest : List Char}

theorem tokens_of_next_token {token : Token} {tokens : List Token}
    (found : cursor.next = (.token token, after)) (listed : after.tokens = .ok tokens) :
    cursor.tokens = .ok (token :: tokens) := by
  rw [Cursor.tokens]
  split
  · rename_i ended
    cases found.symm.trans ended
  · rename_i failed
    cases found.symm.trans failed
  · rename_i again
    cases found.symm.trans again
    rw [listed]

theorem tokens_of_next_finished (found : cursor.next = (.finished, after)) :
    cursor.tokens = .ok [after.endToken] := by
  rw [Cursor.tokens]
  split
  · rename_i ended
    cases found.symm.trans ended
    rfl
  · rename_i failed
    cases found.symm.trans failed
  · rename_i again
    cases found.symm.trans again

theorem skipBlanks_rest (standing : cursor.rest = gap ++ rest)
    (blank : ∀ character ∈ gap, isBlank character)
    (stops : ∀ character ∈ rest.head?, isBlank character = false) :
    cursor.skipBlanks.rest = rest := by
  have taken : cursor.rest.takeWhile isBlank = gap := by
    rw [standing, takeWhile_append_of_pos blank]
    cases rest with
    | nil => simp
    | cons character =>
      rw [takeWhile_cons_of_neg (Bool.eq_false_iff.mp (stops character rfl)), append_nil]
  rw [skipBlanks, advance_rest, taken, standing, drop_left]

theorem next_of_read {first : Char} (standing : cursor.rest = gap ++ first :: rest)
    (blank : ∀ character ∈ gap, isBlank character) (success : Lexeme.read first rest = .ok lexeme) :
    cursor.next = (.token (cursor.skipBlanks.place lexeme),
      cursor.skipBlanks.advance lexeme.characters.length) := by
  have head : cursor.skipBlanks.rest = first :: rest := skipBlanks_rest standing blank (by
    rintro _ ⟨⟩
    exact Lexeme.isBlank_eq_false_of_read success)
  rw [next]
  simp only [head, success]

end Cursor

/-! ## Texts -/

/-- A lexeme with the blanks in front of it. -/
structure Spaced where
  gap : List Char
  lexeme : Lexeme
  blank : ∀ character ∈ gap, isBlank character
  writable : lexeme.IsWritable

namespace Spaced

/-- The characters of lexemes with their blanks, and of what comes behind them. -/
def characters (trailing : List Char) : List Spaced → List Char
  | [] => trailing
  | part :: parts => part.gap ++ (part.lexeme.characters ++ characters trailing parts)

variable {trailing : List Char} {parts : List Spaced}

theorem endsAt_characters (blank : ∀ character ∈ trailing, isBlank character)
    (apart : ∀ part ∈ parts, part.gap ≠ []) : Lexeme.EndsAt (characters trailing parts) := by
  intro character head
  cases parts with
  | nil => exact blank character (mem_of_mem_head? head)
  | cons part =>
    obtain ⟨_, _, starts⟩ :=
      exists_cons_of_ne_nil (apart part mem_cons_self)
    rw [characters, starts] at head
    cases head
    exact part.blank character (starts ▸ mem_cons_self)

/-- From any cursor on, the lexemes are read one after the other. -/
theorem exists_tokens (blank : ∀ character ∈ trailing, isBlank character)
    (apart : ∀ part ∈ parts.tail, part.gap ≠ []) {cursor : Cursor}
    (standing : cursor.rest = characters trailing parts) :
    ∃ tokens, cursor.tokens = .ok tokens ∧
      tokens.map Token.lexeme = parts.map Spaced.lexeme ++ [.endOfInput] := by
  induction parts generalizing cursor with
  | nil =>
    have nothing : cursor.skipBlanks.rest = [] :=
      Cursor.skipBlanks_rest (by rw [standing, characters, append_nil]) blank nofun
    have ended : cursor.next = (.finished, cursor.skipBlanks) := by
      rw [Cursor.next]
      simp only [nothing]
    exact ⟨_, Cursor.tokens_of_next_finished ended, rfl⟩
  | cons part parts ih =>
    have ends := endsAt_characters blank apart
    obtain ⟨_, rest, spelled, success⟩ := part.writable.read ends
    rw [characters, spelled, cons_append] at standing
    have found := Cursor.next_of_read standing part.blank success
    have behind : (cursor.skipBlanks.advance part.lexeme.characters.length).rest =
        characters trailing parts := by
      rw [Cursor.advance_rest, Cursor.skipBlanks_rest standing part.blank (by
        rintro _ ⟨⟩
        exact Lexeme.isBlank_eq_false_of_read success), spelled, ← cons_append,
        drop_left]
    obtain ⟨_, listed, lexemes⟩ :=
      ih (fun later member => apart later (mem_of_mem_tail member)) behind
    refine ⟨_, Cursor.tokens_of_next_token found listed, ?_⟩
    rw [map_cons, Cursor.lexeme_place, lexemes]
    rfl

end Spaced

/-- **Lexing undoes writing.**  Lexemes that are written with at least one blank
between neighbours, and with any blanks in front and behind, are the lexemes of the
tokens that are read, and the end of the input comes behind them. -/
theorem tokenize_spaced {parts : List Spaced} {trailing : List Char}
    (apart : ∀ part ∈ parts.tail, part.gap ≠ [])
    (blank : ∀ character ∈ trailing, isBlank character) :
    ∃ tokens, tokenize (String.ofList (Spaced.characters trailing parts)) = .ok tokens ∧
      tokens.map Token.lexeme = parts.map Spaced.lexeme ++ [.endOfInput] :=
  Spaced.exists_tokens blank apart String.toList_ofList

/-- A keyword, a name, a sign, a number and a string that holds a sign and a line
feed. -/
def Spaced.ofDeclaration : List Spaced :=
  [⟨[], .ofKeyword .dhore, all_eq_true.mp rfl, .keyword .dhore⟩,
    ⟨[' ', '\t'], .ofName (String.ofList ['ধ', 'র', '2']), all_eq_true.mp rfl,
      .name (by decide) (all_eq_true.mp (by decide))
        fun keyword => by cases keyword <;> decide⟩,
    ⟨['\n'], .ofSign .assign, all_eq_true.mp rfl, .sign .assign⟩,
    ⟨[' '], Lexeme.ofDigits ['0', '7'], all_eq_true.mp rfl,
      .number (by decide) (all_eq_true.mp rfl) (by decide +kernel)⟩,
    ⟨['\r'], .ofLiteral (.string "<=\n;"), all_eq_true.mp rfl, .string (by decide)⟩,
    ⟨[' '], .semicolon, all_eq_true.mp rfl, .delimiter (by decide)⟩]

theorem tokenize_spaced_ofDeclaration :
    (∀ part ∈ Spaced.ofDeclaration.tail, part.gap ≠ []) ∧
      ∃ tokens, tokenize "dhore \tধর2\n= 07\r\"<=\n;\" ;\n" = .ok tokens ∧
        tokens.map Token.lexeme = Spaced.ofDeclaration.map Spaced.lexeme ++ [.endOfInput] := by
  have apart : ∀ part ∈ Spaced.ofDeclaration.tail, part.gap ≠ [] := by
    unfold Spaced.ofDeclaration
    simp
  have written : String.ofList (Spaced.characters ['\n'] Spaced.ofDeclaration) =
      "dhore \tধর2\n= 07\r\"<=\n;\" ;\n" := by
    decide
  exact ⟨apart, written ▸ tokenize_spaced apart (all_eq_true.mp rfl)⟩

end BanglaScript
