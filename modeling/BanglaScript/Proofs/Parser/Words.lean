import BanglaScript.Proofs.Lowering.Scopes
import BanglaScript.Proofs.Parser.Printed

/-!
# Programs that a text spells

An identifier is a word, and no word has a dollar sign.  The numbers of a text are
finite.  All names and numbers of a program are those of tokens of its text.
-/

namespace BanglaScript

/-- The program that a text spells. -/
def Program.ofText? (text : String) : Option Program :=
  match tokenize text with
  | .ok tokens => (parse tokens).toOption
  | .error _ => none

/-- Some text spells the program. -/
def Program.IsSpelled (program : Program) : Prop := ∃ text, ofText? text = some program

/-! ## Tokens -/

/-- The name is a letter with letters and digits behind it. -/
def isWord (name : String) : Bool :=
  name.toList.head?.any isWordStart && name.toList.all isWordPart

theorem notMem_of_isWord {name : String} {character : Char} (strange : isWordPart character = false)
    (word : isWord name) : character ∉ name.toList := by
  intro member
  have part := List.all_eq_true.mp (Bool.and_eq_true_iff.mp word).2 character member
  exact Bool.false_ne_true (strange.symm.trans part)

/-- An identifier is a word, and a number is finite. -/
structure Token.IsWritten (token : Token) : Prop where
  word : token.kind = .identifier → isWord token.text
  finite : ∀ value, token.value = some (.number value) → value.isFinite

namespace Lexeme

theorem kind_ne_identifier_of_delimiter? {character : Char} {kind : TokenKind}
    (found : delimiter? character = some kind) : kind ≠ .identifier := by
  unfold delimiter? at found
  split at found <;> cases found <;> exact TokenKind.noConfusion

theorem isWord_readWord {first : Char} (starts : isWordStart first) (rest : List Char) :
    isWord (String.ofList (readWord first rest).characters) := by
  have part : isWordPart first := decide_eq_true (.inl starts)
  simp [isWord, readWord, starts, part]

/-- A lexeme that is an identifier is a word, and one that is a number is finite. -/
theorem isWord_of_read {first : Char} {rest : List Char} {lexeme : Lexeme}
    (success : read first rest = .ok lexeme) :
    (lexeme.kind = .identifier → isWord (String.ofList lexeme.characters)) ∧
      ∀ value, lexeme.value = some (.number value) → value.isFinite := by
  rcases eq_of_read success with ⟨_, found, rfl⟩ | number | ⟨_, rfl⟩ | ⟨starts, rfl⟩ | ⟨_, _, rfl⟩
  · exact ⟨fun named => absurd named (kind_ne_identifier_of_delimiter? found), nofun⟩
  · obtain ⟨finite, rfl⟩ := eq_of_readNumber number
    refine ⟨nofun, fun value found => ?_⟩
    cases found
    exact finite
  · exact ⟨nofun, nofun⟩
  · exact ⟨fun _ => isWord_readWord starts rest, nofun⟩
  · exact ⟨nofun, nofun⟩

end Lexeme

theorem Cursor.isWritten_of_next {cursor after : Cursor} {token : Token}
    (found : cursor.next = (.token token, after)) : token.IsWritten := by
  obtain ⟨_, _, _, success, _, rfl, _⟩ := next_eq_token found
  obtain ⟨word, finite⟩ := Lexeme.isWord_of_read success
  exact ⟨word, finite⟩

/-- Identifiers of a text are words, and its numbers are finite. -/
theorem Cursor.isWritten_of_tokens (cursor : Cursor) {tokens : List Token}
    (success : cursor.tokens = .ok tokens) : ∀ token ∈ tokens, token.IsWritten := by
  fun_induction Cursor.tokens cursor generalizing tokens with
  | case1 =>
    cases success
    intro token member
    rw [List.mem_singleton.mp member]
    exact ⟨nofun, nofun⟩
  | case2 | case4 => cases success
  | case3 cursor token after found shorter rest restTokens ih =>
    cases success
    exact List.forall_mem_cons.mpr ⟨isWritten_of_next found, ih restTokens⟩

/-! ## Statements -/

/-- An expression is not a name with a dollar sign. -/
def Expr.usesWord : Expr → Bool
  | .identifier name => '$' ∉ name.toList
  | _ => true

/-- A statement does not declare or assign a name with a dollar sign. -/
def Statement.usesWord : Statement → Bool
  | .declaration name _ | .assignment name _ => '$' ∉ name.toList
  | _ => true

/-- No variable of the program has a dollar sign in its name. -/
def Program.usesWords (program : Program) : Bool :=
  Statement.allIn Statement.usesWord Expr.usesWord program.body

/-- A name in front of the parts of an expression is a word, and a number is finite. -/
def Expr.isWritten : Expr → Bool
  | .identifier name | .call name _ => isWord name
  | .literal (.number value) => value.isFinite
  | _ => true

/-- A name in front of the parts of a statement is a word. -/
def Statement.isWritten : Statement → Bool
  | .declaration name _ | .assignment name _ => isWord name
  | .function name parameters _ => isWord name && parameters.all isWord
  | _ => true

/-- All names of the program are words, and all its numbers are finite. -/
def Program.isWritten (program : Program) : Bool :=
  Statement.allIn Statement.isWritten Expr.isWritten program.body

theorem Expr.allIn_iff {condition : Expr → Bool} {exprs : List Expr} :
    Expr.allIn condition exprs ↔ ∀ expr ∈ exprs, expr.all condition := by
  induction exprs with
  | nil => simp [Expr.allIn]
  | cons first rest ih => simp [Expr.allIn, ih]

theorem Statement.allIn_iff {onStatement : Statement → Bool} {onExpr : Expr → Bool}
    {phrases : List Statement} :
    allIn onStatement onExpr phrases ↔ ∀ phrase ∈ phrases, phrase.all onStatement onExpr := by
  induction phrases with
  | nil => simp [allIn]
  | cons first rest ih => simp [allIn, ih]

namespace Parser

theorem composes_isWritten : Composes Token.IsWritten fun expr => expr.all Expr.isWritten where
  string _ := rfl
  number _ _ sorted valued := sorted.finite _ valued
  identifier _ sorted named := sorted.word named
  call _ _ sorted named written :=
    Bool.and_eq_true_iff.mpr ⟨sorted.word named, Expr.allIn_iff.mpr written⟩
  binary _ _ _ lhsWritten rhsWritten := by simp [Expr.all, Expr.isWritten, lhsWritten, rhsWritten]

theorem assembles_isWritten :
    Assembles Token.IsWritten (fun name => isWord name) (fun expr => expr.all Expr.isWritten)
      fun phrase => phrase.all Statement.isWritten Expr.isWritten := by
  refine ⟨composes_isWritten, fun _ sorted => sorted.word, ?_, ?_, ?_, ?_, ?_, ?_, ?_, ?_, rfl,
    ?_, ?_, ?_⟩
  all_goals
    intros
    simp_all [Statement.all, Statement.isWritten, Statement.allIn_iff]

theorem gives_program :
    Gives Token.IsWritten 0 program fun program => program.isWritten = true :=
  (gives_phrasesUntil (gives_statement assembles_isWritten)).bind fun _ =>
    .pure Statement.allIn_iff.mpr

end Parser

variable {program : Program}

/-- The names of a program that a text spells are words, and its numbers are finite. -/
theorem Program.IsSpelled.isWritten (spelled : program.IsSpelled) : program.isWritten := by
  obtain ⟨_, read⟩ := spelled
  unfold ofText? at read
  split at read
  · rename_i tokens tokenized
    have written := Cursor.isWritten_of_tokens _ tokenized
    unfold parse at read
    split at read
    · rename_i result rest parsed
      cases read
      exact Parser.gives_program.holds written parsed
    · cases read
  · cases read

/-- A program that a text spells uses words only. -/
theorem Program.IsSpelled.usesWords (spelled : program.IsSpelled) : program.usesWords := by
  refine Statement.allIn_of_forall (fun expr written => ?_) (fun phrase written => ?_) _
    fun _ : Unit => spelled.isWritten
  · cases expr with
    | identifier => exact decide_eq_true (notMem_of_isWord (by decide) (written ()))
    | _ => rfl
  · cases phrase with
    | declaration | assignment =>
      exact decide_eq_true (notMem_of_isWord (by decide) (written ()))
    | _ => rfl

/-- A program that a text spells declares words only. -/
theorem Program.IsSpelled.declaresWords (spelled : program.IsSpelled) : program.declaresWords := by
  refine Statement.allIn_of_forall (fun _ _ => rfl) (fun phrase word => ?_) _
    fun _ : Unit => spelled.usesWords
  cases phrase with
  | declaration => exact word ()
  | _ => rfl

end BanglaScript
