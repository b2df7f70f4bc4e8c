import BanglaScript.Token.Lexer
import Mathlib.Control.Monad.Basic

/-!
# Tokens in their text

The tokens of a text stand in it one behind the other, and around them there is
nothing but blanks.  Where a token stands is told by the text before it: the span
starts behind the bytes of that text, the line is one more than the line feeds in
it, and the column is one more than the characters behind the last line feed.

A cursor keeps count of these numbers character by character.  `Cursor.StandsBehind`
says that the counts are right, and every step keeps it.  The tokens of a cursor
then tile what is left of the text, `Tiles`, and from this all that is said about
tokens and their text follows by induction on the tokens.
-/

namespace BanglaScript

open List String

/-! ## Places -/

/-- The place behind a text. -/
def Position.behind (before : String) : Position :=
  ⟨1 + before.toList.count '\n', 1 + (before.toList.reverse.takeWhile (· ≠ '\n')).length⟩

theorem Position.behind_push (before : String) (character : Char) :
    behind (before.push character) = (behind before).after character := by
  unfold behind after
  rw [toList_push, count_append, reverse_concat]
  by_cases feed : character = '\n' <;> simp [feed, Nat.add_assoc]

namespace Span

/-- The bytes of the span in a text. -/
def bytes (span : Span) (text : String) : ByteArray :=
  text.toByteArray.extract span.offset (span.offset + span.length)

/-- The byte with the offset is one of the span. -/
def Covers (span : Span) (offset : Nat) : Prop :=
  span.offset ≤ offset ∧ offset < span.offset + span.length

end Span

/-- The token stands right behind the text, and its span takes its bytes. -/
structure Token.StandsBehind (token : Token) (before : String) : Prop where
  span : token.span = ⟨before.utf8ByteSize, token.text.utf8ByteSize⟩
  position : token.position = .behind before

namespace Token.StandsBehind

variable {token : Token} {before : String}

theorem bytes_span (stands : token.StandsBehind before) (after : String) :
    token.span.bytes (before ++ token.text ++ after) = token.text.toByteArray := by
  have skipped : (before.toByteArray ++ (token.text.toByteArray ++ after.toByteArray)).extract
      (before.utf8ByteSize + 0) (before.utf8ByteSize + token.text.utf8ByteSize) =
        (token.text.toByteArray ++ after.toByteArray).extract 0 token.text.utf8ByteSize :=
    ByteArray.extract_append_size_add' size_toByteArray.symm
  rw [stands.span, Span.bytes, String.toByteArray_append, String.toByteArray_append,
    ByteArray.append_assoc]
  exact skipped.trans (ByteArray.extract_append_eq_left size_toByteArray.symm)

/-- A character of the token stands at a byte of its span. -/
theorem covers (stands : token.StandsBehind before) {inner later : List Char} {character : Char}
    (split : token.text.toList = inner ++ character :: later) :
    token.span.Covers (before ++ String.ofList inner).utf8ByteSize := by
  have whole : token.text = String.ofList inner ++ String.singleton character ++ .ofList later := by
    rw [← ofList_toList (s := token.text), split, String.ofList_append, String.ofList_cons,
      String.append_assoc]
  have positive := character.utf8Size_pos
  rw [stands.span, Span.Covers, whole]
  simp only [utf8ByteSize_append, utf8ByteSize_singleton]
  omega

end Token.StandsBehind

/-! ## Cursors -/

/-- The counts of the cursor are those behind the text. -/
structure Cursor.StandsBehind (cursor : Cursor) (before : String) : Prop where
  offset : cursor.offset = before.utf8ByteSize
  position : cursor.position = .behind before

namespace Cursor.StandsBehind

variable {cursor : Cursor} {before : String}

theorem ofText (text : String) : (Cursor.ofText text).StandsBehind "" where
  offset := rfl
  position := rfl

theorem push {rest : List Char} {offset : Nat} {position : Position} {character : Char}
    (stands : StandsBehind ⟨character :: rest, offset, position⟩ before) :
    StandsBehind ⟨rest, offset + character.utf8Size, position.after character⟩
      (before.push character) where
  offset := by rw [utf8ByteSize_push, ← stands.offset]
  position := by rw [Position.behind_push, ← stands.position]

variable (stands : cursor.StandsBehind before)

include stands

theorem advance (count : Nat) :
    (cursor.advance count).StandsBehind (before ++ String.ofList (cursor.rest.take count)) := by
  induction count generalizing cursor before with
  | zero => simpa [Cursor.advance] using stands
  | succ count ih =>
    obtain ⟨rest, _, _⟩ := cursor
    cases rest with
    | nil => simpa [Cursor.advance] using stands
    | cons =>
      have further := ih stands.push
      rw [Cursor.advance, take_succ_cons, String.ofList_cons, ← String.append_assoc,
        append_singleton]
      exact further

theorem skipBlanks :
    cursor.skipBlanks.StandsBehind (before ++ String.ofList (cursor.rest.takeWhile isBlank)) := by
  have moved := stands.advance (cursor.rest.takeWhile isBlank).length
  rwa [← prefix_iff_eq_take.mp (List.takeWhile_prefix isBlank)] at moved

theorem place (lexeme : Lexeme) :
    (cursor.place lexeme).StandsBehind before where
  span := by rw [Cursor.place, stands.offset]
  position := stands.position

theorem endToken : cursor.endToken.StandsBehind before where
  span := by rw [Cursor.endToken, stands.offset]; rfl
  position := stands.position

end Cursor.StandsBehind

/-! ## Lexemes at the head of a text -/

namespace Lexeme

variable {first : Char} {rest : List Char} {lexeme : Lexeme}

theorem spelling_prefix_of_sign? {sign : Sign} (found : sign? first rest = some sign) :
    sign.spelling.toList <+: first :: rest := by
  unfold sign? at found
  by_cases follows : rest.head? = some '='
  · obtain ⟨_, rfl⟩ := head?_eq_some_iff.mp follows
    simp only [head?_cons, if_true] at found
    split at found <;> cases found <;> exact ⟨_, rfl⟩
  · simp only [follows, if_false] at found
    split at found <;> cases found <;> exact ⟨_, rfl⟩

theorem readString_characters_prefix (rest : List Char) :
    (readString rest).characters <+: '"' :: rest := by
  refine cons_prefix_cons.mpr ⟨rfl, ?_⟩
  have split := prefix_iff_eq_append.mp (List.takeWhile_prefix (· ≠ '"') (l := rest))
  conv => rhs; rw [← split]
  exact prefix_append_right_inj _ |>.mpr (List.take_prefix 1 _)

/-- A lexeme is read off the head of the text. -/
theorem characters_prefix_of_read (success : read first rest = .ok lexeme) :
    lexeme.characters <+: first :: rest := by
  have taken (part : Char → Bool) : first :: rest.takeWhile part <+: first :: rest :=
    cons_prefix_cons.mpr ⟨rfl, takeWhile_prefix part⟩
  rcases eq_of_read success with ⟨_, _, rfl⟩ | number | ⟨rfl, rfl⟩ | ⟨_, rfl⟩ | ⟨_, found, rfl⟩
  · exact cons_prefix_cons.mpr ⟨rfl, nil_prefix⟩
  · rw [(eq_of_readNumber number).2]
    exact taken isDigit
  · exact readString_characters_prefix rest
  · exact taken isWordPart
  · exact spelling_prefix_of_sign? found

theorem kind_ne_endOfInput_of_delimiter? {character : Char} {kind : TokenKind}
    (found : delimiter? character = some kind) : kind ≠ .endOfInput := by
  unfold delimiter? at found
  split at found <;> cases found <;> exact TokenKind.noConfusion

theorem kind_ne_endOfInput_of_read (success : read first rest = .ok lexeme) :
    lexeme.kind ≠ .endOfInput := by
  rcases eq_of_read success with ⟨_, found, rfl⟩ | number | ⟨_, rfl⟩ | ⟨_, rfl⟩ | ⟨_, _, rfl⟩
  · exact kind_ne_endOfInput_of_delimiter? found
  · rw [(eq_of_readNumber number).2]
    exact TokenKind.noConfusion
  · exact TokenKind.noConfusion
  · unfold readWord
    dsimp only
    split <;> exact TokenKind.noConfusion
  · exact TokenKind.noConfusion

end Lexeme

/-! ## Tilings -/

/-- Behind the text `before` there are the tokens, with blanks around them. -/
inductive Tiles : String → List Char → List Token → Prop where
  | ended {before : String} {gap : List Char} {token : Token}
      (blank : ∀ character ∈ gap, isBlank character) (ends : token.kind = .endOfInput)
      (empty : token.text = "") (stands : token.StandsBehind (before ++ .ofList gap)) :
      Tiles before gap [token]
  | token {before : String} {gap rest : List Char} {token : Token} {tokens : List Token}
      (blank : ∀ character ∈ gap, isBlank character) (proper : token.kind ≠ .endOfInput)
      (positive : 0 < token.span.length) (stands : token.StandsBehind (before ++ .ofList gap))
      (further : Tiles (before ++ .ofList gap ++ token.text) rest tokens) :
      Tiles before (gap ++ (token.text.toList ++ rest)) (token :: tokens)

namespace Cursor

variable {first : Char} {rest : List Char} {lexeme : Lexeme}

theorem rest_eq_skipBlanks (cursor : Cursor) :
    cursor.rest = cursor.rest.takeWhile isBlank ++ cursor.skipBlanks.rest := by
  rw [skipBlanks, advance_rest]
  exact (prefix_iff_eq_append.mp (List.takeWhile_prefix isBlank)).symm

variable {cursor after : Cursor}

theorem next_eq_finished (found : cursor.next = (.finished, after)) :
    cursor.skipBlanks.rest = [] ∧ after = cursor.skipBlanks := by
  unfold next at found
  simp only at found
  split at found
  · rename_i standing
    cases found
    exact ⟨standing, rfl⟩
  · split at found <;> cases found

/-- The characters of a lexeme stand at the head of the text. -/
theorem rest_eq_of_read (standing : cursor.rest = first :: rest)
    (success : Lexeme.read first rest = .ok lexeme) :
    cursor.rest = lexeme.characters ++ (cursor.advance lexeme.characters.length).rest := by
  rw [advance_rest, standing]
  exact (prefix_iff_eq_append.mp (Lexeme.characters_prefix_of_read success)).symm

theorem length_span_place_pos (success : Lexeme.read first rest = .ok lexeme) :
    0 < (cursor.place lexeme).span.length := by
  refine Nat.pos_of_ne_zero fun nothing => Lexeme.characters_ne_nil_of_read success ?_
  have empty : String.ofList lexeme.characters = "" := utf8ByteSize_eq_zero_iff.mp nothing
  rw [← toList_ofList (l := lexeme.characters), empty, toList_empty]

/-- The tokens of a cursor tile the rest of the text. -/
theorem tiles_of_tokens {before : String} {tokens : List Token}
    (stands : cursor.StandsBehind before) (read : cursor.tokens = .ok tokens) :
    Tiles before cursor.rest tokens := by
  have blank (characters : List Char) :
      ∀ character ∈ characters.takeWhile isBlank, isBlank character :=
    all_eq_true.mp all_takeWhile
  fun_induction Cursor.tokens cursor generalizing before tokens with
  | case1 cursor after found =>
    cases read
    obtain ⟨nothing, rfl⟩ := next_eq_finished found
    rw [rest_eq_skipBlanks, nothing, append_nil]
    exact .ended (blank _) rfl rfl stands.skipBlanks.endToken
  | case2 | case4 => cases read
  | case3 cursor token after found _ tokens listed ih =>
    cases read
    obtain ⟨lexeme, _, rest, success, standing, rfl, rfl⟩ := next_eq_token found
    have head := rest_eq_of_read standing success
    have moved := stands.skipBlanks.advance lexeme.characters.length
    rw [head, take_left] at moved
    have text : (cursor.skipBlanks.place lexeme).text.toList = lexeme.characters :=
      toList_ofList
    have tile := Tiles.token (blank cursor.rest) (Lexeme.kind_ne_endOfInput_of_read success)
      (length_span_place_pos success) (stands.skipBlanks.place lexeme) (ih moved listed)
    rw [text, ← head, ← rest_eq_skipBlanks] at tile
    exact tile

end Cursor

namespace Tiles

variable {before : String} {rest : List Char} {tokens : List Token} {token : Token}
  {inner after : List Char} {character : Char}

section

variable (tiles : Tiles before rest tokens) (member : token ∈ tokens)

include tiles member

/-- Every token is a part of the text, at its place. -/
theorem exists_standsBehind : ∃ skipped after, rest = skipped ++ (token.text.toList ++ after) ∧
      token.StandsBehind (before ++ .ofList skipped) := by
  induction tiles with
  | ended _ _ empty stands =>
    cases mem_singleton.mp member
    exact ⟨_, [], by simp [empty], stands⟩
  | @token before gap rest first tokens _ _ _ stands _ ih =>
    rcases mem_cons.mp member with rfl | later
    · exact ⟨gap, rest, rfl, stands⟩
    · obtain ⟨skipped, after, split, standsLater⟩ := ih later
      refine ⟨gap ++ (first.text.toList ++ skipped), after, ?_, ?_⟩
      · simp [split]
      · simpa [String.ofList_append, String.append_assoc] using standsLater

theorem utf8ByteSize_le_offset : before.utf8ByteSize ≤ token.span.offset := by
  obtain ⟨_, _, _, stands⟩ := tiles.exists_standsBehind member
  rw [stands.span, utf8ByteSize_append]
  exact Nat.le_add_right _ _

theorem length_pos (proper : token.kind ≠ .endOfInput) : 0 < token.span.length := by
  induction tiles with
  | ended _ ends =>
    cases mem_singleton.mp member
    exact absurd ends proper
  | token _ _ positive _ _ ih =>
    rcases mem_cons.mp member with rfl | later
    · exact positive
    · exact ih later

end

/-- Each token ends before the next one starts. -/
theorem pairwise (tiles : Tiles before rest tokens) :
    tokens.Pairwise fun first second =>
      first.span.offset < second.span.offset ∧
        first.span.offset + first.span.length ≤ second.span.offset := by
  induction tiles with
  | ended => exact pairwise_singleton _ _
  | @token before gap rest first tokens blank proper positive stands further ih =>
    refine pairwise_cons.mpr ⟨fun second member => ?_, ih⟩
    have behind := further.utf8ByteSize_le_offset member
    rw [utf8ByteSize_append] at behind
    rw [stands.span] at positive ⊢
    exact ⟨Nat.lt_of_lt_of_le (Nat.lt_add_of_pos_right positive) behind, behind⟩

/-- A character of two texts in a row is one of the first or one of the second. -/
theorem exists_of_append_eq {first second : List Char}
    (split : first ++ second = inner ++ character :: after) :
    (∃ later, first = inner ++ character :: later) ∨
      ∃ more, inner = first ++ more ∧ second = more ++ character :: after := by
  rcases append_eq_append_iff.mp split with ⟨more, behind, rest⟩ | ⟨later, front, rest⟩
  · exact .inr ⟨more, behind, rest⟩
  · cases later with
    | nil => exact .inr ⟨[], by simpa using front.symm, rest.symm⟩
    | cons head later =>
      obtain ⟨rfl, _⟩ := List.cons.inj rest
      exact .inl ⟨later, front⟩

/-- A character that no span covers is blank. -/
theorem isBlank_of_not_covers (tiles : Tiles before rest tokens)
    (split : rest = inner ++ character :: after)
    (outside : ∀ token ∈ tokens, ¬ token.span.Covers (before ++ String.ofList inner).utf8ByteSize) :
    isBlank character := by
  induction tiles generalizing inner with
  | ended blank => exact blank character (split ▸ by simp)
  | @token before gap rest first tokens blank proper positive stands further ih =>
    rcases exists_of_append_eq split with ⟨later, rfl⟩ | ⟨inside, rfl, splitInside⟩
    · exact blank character (by simp)
    · rw [String.ofList_append, ← String.append_assoc] at outside
      rcases exists_of_append_eq splitInside with ⟨later, inText⟩ | ⟨more, rfl, inRest⟩
      · exact absurd (stands.covers inText) (outside first mem_cons_self)
      · rw [String.ofList_append, ← String.append_assoc, ofList_toList] at outside
        exact ih inRest fun token member => outside token (mem_cons_of_mem _ member)

/-- The end of the input is the last token, and only the last. -/
theorem exists_last (tiles : Tiles before rest tokens) :
    ∃ others last, tokens = others ++ [last] ∧ (∀ token ∈ others, token.kind ≠ .endOfInput) ∧
      last.kind = .endOfInput ∧ last.text = "" ∧
      last.StandsBehind (before ++ .ofList rest) := by
  induction tiles with
  | @ended before gap token blank ends empty stands =>
    exact ⟨[], token, rfl, forall_mem_nil _, ends, empty, stands⟩
  | @token before gap rest first tokens blank proper positive stands further ih =>
    obtain ⟨others, last, rfl, properOthers, ends, empty, standsLast⟩ := ih
    refine ⟨first :: others, last, rfl, forall_mem_cons.mpr ⟨proper, properOthers⟩, ends,
      empty, ?_⟩
    simpa [String.ofList_append, String.append_assoc] using standsLast

end Tiles

/-- The tokens tile the text. -/
structure Token.AreTiling (tokens : List Token) (text : String) : Prop where
  ordered : tokens.Pairwise fun first second =>
    first.span.offset < second.span.offset ∧
      first.span.offset + first.span.length ≤ second.span.offset
  length_pos : ∀ token ∈ tokens, token.kind ≠ .endOfInput → 0 < token.span.length
  bytes : ∀ token ∈ tokens, token.span.bytes text = token.text.toByteArray
  /-- The span starts and ends between two characters of the text. -/
  placed : ∀ token ∈ tokens, ∃ before after, text = before ++ token.text ++ after ∧
    token.span = ⟨before.utf8ByteSize, token.text.utf8ByteSize⟩ ∧
    token.position = .behind before
  blank : ∀ (before : String) (character : Char) (after : String),
    text = before.push character ++ after →
    (∀ token ∈ tokens, ¬ token.span.Covers before.utf8ByteSize) →
    character ∈ [' ', '\t', '\n', '\r']
  last : ∃ others last, tokens = others ++ [last] ∧
    (∀ token ∈ others, token.kind ≠ .endOfInput) ∧ last.kind = .endOfInput ∧
    last.text = "" ∧ last.span = ⟨text.utf8ByteSize, 0⟩

/-- **The tokens of a text tile it.**  They stand in it one behind the other, each
of them with the bytes of its span, and around them there is nothing but blanks.
The end of the input comes last and only there.  The line of a token counts the
line feeds before it, and its column the characters behind the last of them. -/
theorem areTiling_of_tokenize {text : String} {tokens : List Token}
    (read : tokenize text = .ok tokens) : Token.AreTiling tokens text := by
  have tiles : Tiles "" text.toList tokens := Cursor.tiles_of_tokens (.ofText text) read
  have placed : ∀ token ∈ tokens, ∃ before after, text = before ++ token.text ++ after ∧
      token.StandsBehind before := by
    intro token member
    obtain ⟨skipped, after, split, stands⟩ := tiles.exists_standsBehind member
    refine ⟨.ofList skipped, .ofList after, ?_, by simpa using stands⟩
    rw [← toList_inj, split]
    simp
  refine ⟨tiles.pairwise, fun token => tiles.length_pos, ?_, ?_, ?_, ?_⟩
  · intro token member
    obtain ⟨before, after, rfl, stands⟩ := placed token member
    exact stands.bytes_span after
  · intro token member
    obtain ⟨before, after, split, stands⟩ := placed token member
    exact ⟨before, after, split, stands.span, stands.position⟩
  · intro before character after split outside
    have split : text.toList = before.toList ++ character :: after.toList := by simp [split]
    simpa [isBlank] using tiles.isBlank_of_not_covers split (by simpa using outside)
  · obtain ⟨others, last, listed, proper, ends, empty, stands⟩ := tiles.exists_last
    refine ⟨others, last, listed, proper, ends, empty, ?_⟩
    rw [stands.span, empty]
    simp

/-- Tokens behind a string of two lines and behind characters of several bytes. -/
theorem areTiling_twoLines :
    ∃ tokens, tokenize "\"ক\n খ\"\tগঘ<=x " = .ok tokens ∧
      tokens.map (fun token => (token.span.offset, token.span.length)) =
        [(0, 10), (11, 6), (17, 2), (19, 1), (21, 0)] ∧
      tokens.map Token.position = [⟨1, 1⟩, ⟨2, 5⟩, ⟨2, 7⟩, ⟨2, 9⟩, ⟨2, 11⟩] ∧
      Token.AreTiling tokens "\"ক\n খ\"\tগঘ<=x " := by
  have read : (tokenize "\"ক\n খ\"\tগঘ<=x ").map (fun tokens =>
      (tokens.map (fun token => (token.span.offset, token.span.length)),
        tokens.map Token.position)) =
      .ok ([(0, 10), (11, 6), (17, 2), (19, 1), (21, 0)],
        [⟨1, 1⟩, ⟨2, 5⟩, ⟨2, 7⟩, ⟨2, 9⟩, ⟨2, 11⟩]) := by
    decide +kernel
  revert read
  cases listed : tokenize "\"ক\n খ\"\tগঘ<=x " with
  | error => rintro ⟨⟩
  | ok tokens =>
    intro read
    have same := Prod.mk.inj (Except.ok.inj read)
    exact ⟨tokens, rfl, same.1, same.2, areTiling_of_tokenize listed⟩

end BanglaScript
