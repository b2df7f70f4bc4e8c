import BanglaScript.Proofs.Parser.Leads
import BanglaScript.Token.Lexer
import Mathlib.Control.Monad.Basic

/-!
# Printing programs

A program is printed as the lexemes of its concrete syntax.  An operand of an
operator stands in parentheses only where it has to: the left operand if it is
an operation that binds less tight, and the right operand if it is one that
does not bind tighter.

Parsing undoes printing.
-/

namespace BanglaScript

open List

namespace Lexeme

/-- The lexeme of a delimiter. -/
def openParen : Lexeme := ⟨.openParen, none, ['(']⟩

@[inherit_doc openParen]
def closeParen : Lexeme := ⟨.closeParen, none, [')']⟩

@[inherit_doc openParen]
def openBrace : Lexeme := ⟨.openBrace, none, ['\x7b']⟩

@[inherit_doc openParen]
def closeBrace : Lexeme := ⟨.closeBrace, none, ['\x7d']⟩

@[inherit_doc openParen]
def semicolon : Lexeme := ⟨.semicolon, none, [';']⟩

@[inherit_doc openParen]
def comma : Lexeme := ⟨.comma, none, [',']⟩

/-- The end of a text. -/
def endOfInput : Lexeme := ⟨.endOfInput, none, []⟩

/-- The lexeme of a reserved word. -/
def ofKeyword (word : Keyword) : Lexeme :=
  ⟨.keyword word, some (.word word.spelling), word.spelling.toList⟩

/-- The lexeme of an operator sign. -/
def ofSign (sign : Sign) : Lexeme := ⟨.sign sign, none, sign.spelling.toList⟩

/-- The lexeme of a name. -/
def ofName (name : String) : Lexeme := ⟨.identifier, some (.word name), name.toList⟩

/-- The lexeme of a literal. -/
def ofLiteral : Literal → Lexeme
  | .number value => ⟨.number, some (.number value), value.plainText.toList⟩
  | .string contents => ⟨.string, some (.contents contents), '"' :: contents.toList ++ ['"']⟩

/-- Lexemes in parentheses. -/
def inParentheses (spelled : List Lexeme) : List Lexeme := openParen :: (spelled ++ [closeParen])

/-- Lexemes in braces. -/
def inBraces (spelled : List Lexeme) : List Lexeme := openBrace :: (spelled ++ [closeBrace])

/-- Phrases with commas between them. -/
def separatedByCommas : List (List Lexeme) → List Lexeme
  | [] => []
  | first :: rest => first ++ rest.flatMap (comma :: ·)

end Lexeme

namespace BinaryOperator

/-- The sign that denotes the operator. -/
def sign : BinaryOperator → Sign
  | add => .plus
  | subtract => .minus
  | multiply => .star
  | divide => .slash
  | equal => .equal
  | notEqual => .notEqual
  | less => .less
  | greater => .greater
  | lessEqual => .lessEqual
  | greaterEqual => .greaterEqual

@[simp]
theorem ofSign?_sign (operator : BinaryOperator) : ofSign? operator.sign = some operator := by
  cases operator <;> rfl

theorem precedence_lt_five (operator : BinaryOperator) : operator.precedence < 5 := by
  cases operator <;> decide

end BinaryOperator

/-- How tight an expression holds together: as tight as its operator binds, and
tighter than every operator if it has none. -/
def Expr.level : Expr → Nat
  | .binary operator _ _ => operator.precedence
  | _ => 5

mutual

/-- The lexemes of an expression. -/
def Expr.lexemes : Expr → List Lexeme
  | .binary operator lhs rhs =>
    (if lhs.level < operator.precedence then Lexeme.inParentheses lhs.lexemes
      else lhs.lexemes) ++
    Lexeme.ofSign operator.sign ::
    (if rhs.level ≤ operator.precedence then Lexeme.inParentheses rhs.lexemes
      else rhs.lexemes)
  | .identifier name => [Lexeme.ofName name]
  | .literal constant => [Lexeme.ofLiteral constant]
  | .call name arguments =>
    Lexeme.ofName name ::
      Lexeme.inParentheses (Lexeme.separatedByCommas (Expr.lexemesOfEach arguments))

/-- The lexemes of each of several expressions. -/
def Expr.lexemesOfEach : List Expr → List (List Lexeme)
  | [] => []
  | first :: rest => first.lexemes :: Expr.lexemesOfEach rest

end

mutual

/-- The lexemes of a statement. -/
def Statement.lexemes : Statement → List Lexeme
  | .declaration name none => [.ofKeyword .dhore, .ofName name, .semicolon]
  | .declaration name (some initial) =>
    .ofKeyword .dhore :: .ofName name :: .ofSign .assign :: (initial.lexemes ++ [.semicolon])
  | .assignment name value => .ofName name :: .ofSign .assign :: (value.lexemes ++ [.semicolon])
  | .ifThen condition body =>
    .ofKeyword .jode :: (Lexeme.inParentheses condition.lexemes ++
      Lexeme.inBraces (Statement.lexemesOfAll body))
  | .ifElse condition body alternative =>
    .ofKeyword .jode :: (Lexeme.inParentheses condition.lexemes ++
      (Lexeme.inBraces (Statement.lexemesOfAll body) ++
        .ofKeyword .onnathay :: Lexeme.inBraces (Statement.lexemesOfAll alternative)))
  | .repeatWhile condition body =>
    .ofKeyword .jotokkhon :: (Lexeme.inParentheses condition.lexemes ++
      Lexeme.inBraces (Statement.lexemesOfAll body))
  | .block body => Lexeme.inBraces (Statement.lexemesOfAll body)
  | .function name parameters body =>
    .ofKeyword .function :: .ofName name ::
      (Lexeme.inParentheses
          (Lexeme.separatedByCommas (parameters.map fun name => [.ofName name])) ++
        Lexeme.inBraces (Statement.lexemesOfAll body))
  | .giveBack none => [.ofKeyword .ferot, .semicolon]
  | .giveBack (some value) => .ofKeyword .ferot :: (value.lexemes ++ [.semicolon])
  | .print value =>
    .ofKeyword .dekhao :: (Lexeme.inParentheses value.lexemes ++ [.semicolon])
  | .expression value => value.lexemes ++ [.semicolon]

/-- The lexemes of statements one after the other. -/
def Statement.lexemesOfAll : List Statement → List Lexeme
  | [] => []
  | first :: rest => first.lexemes ++ Statement.lexemesOfAll rest

end

/-- The lexemes of a program. -/
def Program.lexemes (program : Program) : List Lexeme := Statement.lexemesOfAll program.body

theorem Expr.lexemesOfEach_eq (exprs : List Expr) :
    Expr.lexemesOfEach exprs = exprs.map Expr.lexemes := by
  induction exprs with
  | nil => rfl
  | cons first rest ih => rw [Expr.lexemesOfEach, ih, map_cons]

/-- An expression starts with a primary expression. -/
theorem Expr.startsPrimary_firstKind (expr : Expr) (following : TokenKind) :
    (Lexeme.firstKind expr.lexemes following).startsPrimary = true := by
  cases expr with
  | binary operator lhs =>
    rw [Expr.lexemes, Lexeme.firstKind_append]
    split
    · rfl
    · exact Expr.startsPrimary_firstKind lhs _
  | identifier | call => rfl
  | literal constant => cases constant <;> rfl

/-! ## Lists of phrases -/

namespace Parser

open Lexeme

section Lists

variable {α : Type} {phrase : Parser α} {spell : α → List Lexeme} {follows : TokenKind → Prop}

variable (consumes : Takes 1 phrase) (comma : follows .comma) (closeParen : follows .closeParen)
  {items : List α} (reads : ∀ item ∈ items, Reads phrase (spell item) item follows)

include consumes comma closeParen reads

theorem reads_phrasesAfterCommas :
    Reads (phrasesAfterCommas phrase) ((items.map spell).flatMap (Lexeme.comma :: ·)) items
      (· = .closeParen) := by
  induction items with
  | nil =>
    rw [phrasesAfterCommas_eq consumes]
    exact Leads.lookBehind fun kind closes => by rw [closes]; rfl
  | cons first rest ih =>
    obtain ⟨firstReads, restReads⟩ := forall_mem_cons.mp reads
    rw [phrasesAfterCommas_eq consumes]
    refine Leads.look (Reads.accept.step ?_)
    refine firstReads.bind (ih restReads).map ?_
    rintro _ rfl
    cases rest with
    | nil => exact closeParen
    | cons => exact comma

/-- Phrases are read between commas if none starts with a closing parenthesis and
both a comma and a closing parenthesis end them. -/
theorem reads_separatedByCommas
    (starts : ∀ item ∈ items, ∀ kind, firstKind (spell item) kind ≠ .closeParen) :
    Reads (Parser.separatedByCommas phrase) (Lexeme.separatedByCommas (items.map spell)) items
      (· = .closeParen) := by
  rw [separatedByCommas]
  cases items with
  | nil => exact Leads.lookBehind fun kind closes => by rw [closes]; rfl
  | cons first rest =>
    obtain ⟨firstReads, restReads⟩ := forall_mem_cons.mp reads
    refine Leads.lookAt (fun kind _ => if_neg ?_) (firstReads.bind
      (reads_phrasesAfterCommas consumes comma closeParen restReads).map ?_)
    · exact fun closes => starts first mem_cons_self _
        ((firstKind_append _ _ _).symm.trans closes)
    · rintro _ rfl
      cases rest with
      | nil => exact closeParen
      | cons => exact comma

end Lists

/-! ## Expressions -/

end Parser

/-- The operator that a token of the kind denotes. -/
def TokenKind.operator? : TokenKind → Option BinaryOperator
  | .sign mark => BinaryOperator.ofSign? mark
  | _ => none

namespace Parser

open Lexeme

variable {name : String} {level : Nat}

theorem nextOperator?_eq (input : Input) : nextOperator? input = input.kind.operator? :=
  rfl

/-- A token of the kind extends an expression neither by an operator that binds at
least as tight as `least` nor from a name to a call. -/
def Ends (least : Nat) (kind : TokenKind) : Prop :=
  kind ≠ .openParen ∧ ∀ operator, kind.operator? = some operator → operator.precedence < least

namespace Ends

variable {least : Nat} {kind : TokenKind}

theorem mono {more : Nat} (ends : Ends least kind) (le : least ≤ more) : Ends more kind :=
  ⟨ends.1, fun operator found => Nat.lt_of_lt_of_le (ends.2 operator found) le⟩

theorem of_no_operator (other : kind ≠ .openParen) (nothing : kind.operator? = none) :
    Ends least kind :=
  ⟨other, fun _ found => by cases nothing.symm.trans found⟩

theorem stops {input : Input} (ends : Ends least input.kind) : input.Stops least := ends.2

end Ends

/-- A primary expression. -/
abbrev primary : Parser Expr := primaryWith expression

theorem text_eq_of_lexeme {token : Token} (same : token.lexeme = ofName name) : token.text = name :=
  String.toList_inj.mp (congrArg Lexeme.characters same)

theorem reads_identifier (name : String) : Reads identifier [ofName name] name anything :=
  .single fun token rest endPosition same => by
    rw [identifier_of_kind (congrArg Lexeme.kind same), text_eq_of_lexeme same]

/-- Behind a name, the next token tells whether it is a call. -/
theorem leads_primary_name (name : String) :
    Leads primary [ofName name] (within "parsing primary expression" (do
      if (← look Input.kind) = .openParen then callWith expression name
      else pure (.identifier name))) anything := by
  intro tokens input spells _
  obtain ⟨_, rfl, same⟩ := map_eq_singleton_iff.mp spells
  rw [← text_eq_of_lexeme same]
  exact primaryWith_of_identifier (congrArg Lexeme.kind same)

theorem reads_primary_identifier (name : String) :
    Reads primary [ofName name] (.identifier name) (· ≠ .openParen) :=
  (leads_primary_name name).trans
    (Reads.within (Leads.lookBehind fun _ other => if_neg other) _) fun _ _ => trivial

theorem reads_primary_literal (constant : Literal) :
    Reads primary [ofLiteral constant] (.literal constant) anything := by
  refine .single fun token rest endPosition same => ?_
  cases constant with
  | number =>
    exact primaryWith_of_number (congrArg Lexeme.kind same) (congrArg Lexeme.value same)
  | string contents =>
    have value : token.value = some (.contents contents) := congrArg Lexeme.value same
    refine (primaryWith_of_string (congrArg Lexeme.kind same)).trans ?_
    rw [contentsOf, value]

theorem leads_primary_openParen :
    Leads primary [openParen] (within "parsing primary expression" (do
      let inner ← expression
      within "as the end of the expression" (consume .closeParen)
      pure inner)) anything := by
  intro tokens input spells _
  obtain ⟨_, rfl, same⟩ := map_eq_singleton_iff.mp spells
  exact primaryWith_of_openParen (congrArg Lexeme.kind same)

theorem ends_closeParen : Ends 0 .closeParen := .of_no_operator nofun rfl

theorem reads_openParen : Reads (consume .openParen) [openParen] () anything :=
  .consume openParen nofun

theorem reads_closeParen : Reads (consume .closeParen) [closeParen] () anything :=
  .consume closeParen nofun

variable {expr : Expr}

/-- What stands in parentheses is read as a whole. -/
theorem reads_primary_inParentheses (reads : Reads expression expr.lexemes expr (Ends 0)) :
    Reads primary (inParentheses expr.lexemes) expr anything := by
  refine leads_primary_openParen.trans
    (Reads.within (reads.bind (reads_closeParen.within _).map ?_) _) fun _ _ => trivial
  exact fun _ _ => ends_closeParen

theorem reads_primary_call {arguments : List Expr}
    (reads : ∀ argument ∈ arguments, Reads expression argument.lexemes argument (Ends 0)) :
    Reads primary (Expr.call name arguments).lexemes (.call name arguments) anything := by
  have listed := reads_separatedByCommas Takes.expression
    (.of_no_operator nofun rfl) ends_closeParen reads fun argument _ kind closed => by
      have starts := argument.startsPrimary_firstKind kind
      rw [closed] at starts
      cases starts
  have arguments : Reads (callWith expression name)
      (inParentheses (Lexeme.separatedByCommas (arguments.map Expr.lexemes)))
      (.call name arguments) anything :=
    Reads.within (reads_openParen.step (listed.bind reads_closeParen.map fun _ _ => rfl)) _
  rw [Expr.lexemes, Expr.lexemesOfEach_eq]
  exact (leads_primary_name name).trans (Reads.within (Leads.look arguments) _) fun _ _ => trivial

/-- An expression as an operand: in parentheses if it holds together less tight
than `least`. -/
def asOperand (least : Nat) (expr : Expr) : List Lexeme :=
  if expr.level < least then inParentheses expr.lexemes else expr.lexemes

theorem lexemes_binary (operator : BinaryOperator) (lhs rhs : Expr) :
    (Expr.binary operator lhs rhs).lexemes =
      asOperand operator.precedence lhs ++
        ofSign operator.sign :: asOperand (operator.precedence + 1) rhs := by
  simp only [Expr.lexemes, asOperand, Nat.lt_succ_iff]

/-- The parser leads through an expression to the chain that it starts. -/
def LeadsToChain (spelled : List Lexeme) (expr : Expr) (least level : Nat) : Prop :=
  Leads (primary >>= chain primary least) spelled (chain primary least expr) (Ends (level + 1))

theorem reads_expression_of_leadsToChain (leads : LeadsToChain expr.lexemes expr 0 level) :
    Reads expression expr.lexemes expr (Ends 0) := by
  intro tokens input spells ends
  have run := (leads spells (ends.mono (Nat.zero_le _))).trans (chain_of_stops ends.stops)
  obtain ⟨_, _, first, continued⟩ := exists_of_bind_eq_ok run
  rw [expression_eq, expressionWith]
  exact within_of_ok ((bind_of_ok first).trans (within_of_ok continued))

theorem leadsToChain_asOperand {least : Nat} (le : least ≤ level)
    (leads : ∀ least, least ≤ expr.level → LeadsToChain expr.lexemes expr least expr.level) :
    LeadsToChain (asOperand level expr) expr least level := by
  unfold asOperand
  split
  · have inner := reads_expression_of_leadsToChain (leads 0 (Nat.zero_le _))
    exact (Leads.bind (reads_primary_inParentheses inner) _).mono fun _ _ => trivial
  · rename_i tight
    have reaches := Nat.le_of_not_lt tight
    exact (leads least (Nat.le_trans le reaches)).mono fun _ ends =>
      ends.mono (Nat.succ_le_succ reaches)

theorem leadsToChain_of_reads {spelled : List Lexeme} {least : Nat}
    (reads : Reads primary spelled expr (· ≠ .openParen)) : LeadsToChain spelled expr least 5 :=
  (Leads.bind reads _).mono fun _ ends => ends.1

/-- An operator and its right operand extend a chain. -/
theorem leadsToChain_binary {operator : BinaryOperator} {lhs rhs : Expr} {least : Nat}
    (takes : least ≤ operator.precedence)
    (left : LeadsToChain (asOperand operator.precedence lhs) lhs least operator.precedence)
    (right : LeadsToChain (asOperand (operator.precedence + 1) rhs) rhs (operator.precedence + 1)
      (operator.precedence + 1)) :
    LeadsToChain (Expr.binary operator lhs rhs).lexemes (.binary operator lhs rhs) least
      operator.precedence := by
  have sign : Leads (chain primary least lhs) [ofSign operator.sign] (do
      let operand ← primary
      let rhs ← chain primary (operator.precedence + 1) operand
      chain primary least (.binary operator lhs rhs)) anything := by
    intro tokens input spells _
    obtain ⟨token, rfl, same⟩ := map_eq_singleton_iff.mp spells
    refine chain_of_operator Takes.expression.primaryWith ?_
      takes
    have kind : token.kind = .sign operator.sign := congrArg Lexeme.kind same
    simp [nextOperator?, Input.kind, kind]
  -- Behind the right operand nothing extends it, so its chain ends there.
  have operand : Leads (primary >>= fun operand => do
      let rhs ← chain primary (operator.precedence + 1) operand
      chain primary least (.binary operator lhs rhs)) (asOperand (operator.precedence + 1) rhs)
      (chain primary least (.binary operator lhs rhs)) (Ends (operator.precedence + 1)) := by
    intro tokens input spells ends
    have run := (right spells (ends.mono (Nat.le_succ _))).trans (chain_of_stops ends.stops)
    obtain ⟨_, _, firstRead, continued⟩ := exists_of_bind_eq_ok run
    exact (bind_of_ok firstRead).trans (bind_of_ok continued)
  rw [lexemes_binary]
  refine Leads.trans left (sign.trans operand fun _ _ => trivial) fun _ _ => ?_
  refine ⟨by rintro ⟨⟩, fun other found => ?_⟩
  have same : some operator = some other := (BinaryOperator.ofSign?_sign operator).symm.trans found
  cases same
  exact Nat.lt_succ_self _

mutual

/-- Every expression leads to the chain that it starts. -/
theorem leadsToChain (expr : Expr) (least : Nat) (le : least ≤ expr.level) :
    LeadsToChain expr.lexemes expr least expr.level := by
  cases expr with
  | binary operator lhs rhs =>
    exact leadsToChain_binary le (leadsToChain_asOperand le (leadsToChain lhs))
      (leadsToChain_asOperand (Nat.le_refl _) (leadsToChain rhs))
  | identifier name => exact leadsToChain_of_reads (reads_primary_identifier name)
  | literal constant =>
    exact leadsToChain_of_reads ((reads_primary_literal constant).mono fun _ _ => trivial)
  | call name arguments =>
    exact leadsToChain_of_reads
      ((reads_primary_call (reads_expressions arguments)).mono fun _ _ => trivial)

theorem reads_expressions (exprs : List Expr) :
    ∀ expr ∈ exprs, Reads expression expr.lexemes expr (Ends 0) := by
  cases exprs with
  | nil => exact nofun
  | cons first rest =>
    exact forall_mem_cons.mpr
      ⟨reads_expression_of_leadsToChain (leadsToChain first 0 (Nat.zero_le _)),
        reads_expressions rest⟩

end

/-- An expression is read back. -/
theorem reads_expression (expr : Expr) : Reads expression expr.lexemes expr (Ends 0) :=
  reads_expression_of_leadsToChain (leadsToChain expr 0 (Nat.zero_le _))

/-! ## Statements -/

end Parser

/-- A statement starts with a token of the kind. -/
def TokenKind.startsStatement : TokenKind → Bool
  | .keyword .onnathay => false
  | .keyword _ => true
  | .openBrace => true
  | kind => kind.startsPrimary

theorem TokenKind.startsStatement_of_startsPrimary {kind : TokenKind}
    (starts : kind.startsPrimary = true) : kind.startsStatement = true := by
  cases kind <;> first | rfl | cases starts

theorem Statement.startsStatement_firstKind (phrase : Statement) (following : TokenKind) :
    (Lexeme.firstKind phrase.lexemes following).startsStatement = true := by
  cases phrase with
  | declaration name initial => cases initial <;> rfl
  | giveBack value => cases value <;> rfl
  | expression value =>
    rw [Statement.lexemes, Lexeme.firstKind_append]
    exact TokenKind.startsStatement_of_startsPrimary (value.startsPrimary_firstKind _)
  | _ => rfl

namespace Parser

open Lexeme

variable {spelled : List Lexeme}

theorem reads_semicolon : Reads (consume .semicolon) [semicolon] () anything :=
  .consume semicolon nofun

theorem reads_keyword (word : Keyword) : Reads (keyword word) [ofKeyword word] () anything :=
  Reads.within (.consume (ofKeyword word) nofun) _

theorem ends_semicolon : Ends 0 .semicolon := .of_no_operator nofun rfl

/-- An expression up to a semicolon. -/
theorem reads_terminated (value : Expr) (change : Expr → Statement) :
    Reads (do
      let value ← expression
      consume .semicolon
      pure (change value)) (value.lexemes ++ [semicolon]) (change value) anything :=
  (reads_expression value).bind reads_semicolon.map fun _ _ => ends_semicolon

theorem reads_condition (test : Expr) :
    Reads condition (inParentheses test.lexemes) test anything := by
  refine Reads.within (reads_openParen.step ?_) _
  exact (reads_expression test).bind reads_closeParen.map fun _ _ => ends_closeParen

theorem reads_declaration (name : String) (initial : Option Expr) :
    Reads declaration (Statement.declaration name initial).lexemes (.declaration name initial)
      anything := by
  cases initial with
  | none =>
    refine Reads.within ((reads_keyword _).step ((reads_identifier name).step ?_)) _
    exact Leads.look reads_semicolon.map
  | some initial =>
    refine Reads.within ((reads_keyword _).step ((reads_identifier name).step ?_)) _
    exact Leads.look (Reads.accept.step (reads_terminated initial fun value =>
      .declaration name (some value)))

theorem reads_assigning (name : String) (value : Expr) :
    Reads assigning (Statement.assignment name value).lexemes (.assignment name value) anything :=
  (reads_identifier name).step (Reads.accept.step (reads_terminated value (.assignment name)))

theorem reads_returning (value : Option Expr) :
    Reads returning (Statement.giveBack value).lexemes (.giveBack value) anything := by
  cases value with
  | none => exact Reads.accept.step (Leads.look reads_semicolon.map)
  | some value =>
    refine Reads.accept.step (Leads.lookAt (fun kind _ => if_neg fun ended => ?_)
      (reads_terminated value fun value => .giveBack (some value)))
    have starts := value.startsPrimary_firstKind semicolon.kind
    rw [firstKind_append, firstKind_cons] at ended
    rw [ended] at starts
    cases starts

theorem reads_printing (value : Expr) :
    Reads printing (Statement.print value).lexemes (.print value) anything := by
  have rest : Reads (do
      let value ← expression
      consume .closeParen
      consume .semicolon
      pure (Statement.print value)) (value.lexemes ++ [closeParen, semicolon]) (.print value)
      anything :=
    (reads_expression value).bind (reads_closeParen.step reads_semicolon.map)
      fun _ _ => ends_closeParen
  rw [Statement.lexemes, inParentheses, cons_append, append_assoc]
  exact Reads.accept.step (reads_openParen.step rest)

/-- None of the lexemes is the assignment sign. -/
def HasNoAssign (spelled : List Lexeme) : Prop := ∀ lexeme ∈ spelled, lexeme.kind ≠ .sign .assign

theorem HasNoAssign.inParentheses (hasNone : HasNoAssign spelled) :
    HasNoAssign (inParentheses spelled) :=
  forall_mem_cons.mpr ⟨nofun, forall_mem_append.mpr
    ⟨hasNone, forall_mem_singleton.mpr nofun⟩⟩

theorem HasNoAssign.asOperand {expr : Expr} (hasNone : HasNoAssign expr.lexemes) (least : Nat) :
    HasNoAssign (asOperand least expr) := by
  unfold Parser.asOperand
  split
  · exact hasNone.inParentheses
  · exact hasNone

theorem hasNoAssign_separatedByCommas {phrases : List (List Lexeme)}
    (hasNone : ∀ phrase ∈ phrases, HasNoAssign phrase) :
    HasNoAssign (Lexeme.separatedByCommas phrases) := by
  cases phrases with
  | nil => exact nofun
  | cons =>
    obtain ⟨firstHasNone, restHasNone⟩ := forall_mem_cons.mp hasNone
    refine forall_mem_append.mpr ⟨firstHasNone, fun lexeme member => ?_⟩
    obtain ⟨phrase, listed, inside⟩ := mem_flatMap.mp member
    exact forall_mem_cons.mpr ⟨nofun, restHasNone phrase listed⟩ lexeme inside

mutual

theorem hasNoAssign_lexemes (expr : Expr) : HasNoAssign expr.lexemes := by
  cases expr with
  | binary operator lhs rhs =>
    rw [lexemes_binary]
    refine forall_mem_append.mpr ⟨(hasNoAssign_lexemes lhs).asOperand _,
      forall_mem_cons.mpr ⟨?_, (hasNoAssign_lexemes rhs).asOperand _⟩⟩
    cases operator <;> exact nofun
  | identifier => exact forall_mem_singleton.mpr nofun
  | literal constant => cases constant <;> exact forall_mem_singleton.mpr nofun
  | call name arguments =>
    rw [Expr.lexemes]
    exact forall_mem_cons.mpr ⟨nofun,
      (hasNoAssign_separatedByCommas (hasNoAssign_lexemesOfEach arguments)).inParentheses⟩

theorem hasNoAssign_lexemesOfEach (exprs : List Expr) :
    ∀ phrase ∈ Expr.lexemesOfEach exprs, HasNoAssign phrase := by
  cases exprs with
  | nil => exact nofun
  | cons first rest =>
    exact forall_mem_cons.mpr ⟨hasNoAssign_lexemes first, hasNoAssign_lexemesOfEach rest⟩

end

/-- The second of two tokens or more is one of them. -/
theorem secondKind_behind_ne {tokens : List Token} {input : Input}
    (spells : tokens.map Token.lexeme = spelled) (hasNone : HasNoAssign spelled)
    (several : 2 ≤ spelled.length) : (input.behind tokens).secondKind ≠ .sign .assign := by
  subst spells
  match tokens with
  | [] => simp at several
  | [_] => simp at several
  | _ :: second :: _ => exact hasNone second.lexeme (by simp)

theorem reads_assignment (name : String) (value : Expr) :
    Reads (look Input.kind >>= statementFrom statement) (Statement.assignment name value).lexemes
      (.assignment name value) anything := by
  refine Leads.look fun tokens input spells allowed => ?_
  refine Eq.trans (congrFun (if_pos ?_) _) (reads_assigning name value spells allowed)
  match tokens with
  | [_] => exact nomatch List.cons.inj spells
  | _ :: second :: _ => exact congrArg Lexeme.kind (List.cons.inj (List.cons.inj spells).2).1

theorem reads_expressionStatement (value : Expr) :
    Reads (look Input.kind >>= statementFrom statement) (Statement.expression value).lexemes
      (.expression value) anything := by
  intro tokens input spells allowed
  have reads := reads_terminated value .expression spells allowed
  have starts := value.startsPrimary_firstKind (firstKind [semicolon] input.kind)
  rw [bind_look, Input.kind_behind, spells, Statement.lexemes, firstKind_append]
  revert starts
  cases firstKind value.lexemes (firstKind [semicolon] input.kind) with
  | identifier =>
    -- An assignment would have its sign behind the name.
    intro _
    refine Eq.trans (congrFun (if_neg (secondKind_behind_ne spells ?_ ?_)) _) reads
    · exact forall_mem_append.mpr
        ⟨hasNoAssign_lexemes value, forall_mem_singleton.mpr nofun⟩
    · have nonempty : value.lexemes ≠ [] := fun empty => by
        have starts := value.startsPrimary_firstKind .semicolon
        rw [empty] at starts
        cases starts
      have := length_pos_iff.mpr nonempty
      rw [Statement.lexemes, length_append, length_singleton]
      omega
  | openParen | number | string => exact fun _ => reads
  | _ => exact nofun

variable {body : List Statement}

theorem reads_blockWith
    (reads : Reads (phrasesUntil (fun kind => kind = .closeBrace ∨ kind = .endOfInput) statement)
      (Statement.lexemesOfAll body) body (· = .closeBrace)) :
    Reads (blockWith statement) (inBraces (Statement.lexemesOfAll body)) body anything := by
  have opens : Reads (consume .openBrace) [openBrace] () anything := .consume openBrace nofun
  have closes : Reads (consume .closeBrace) [closeBrace] () anything := .consume closeBrace nofun
  rw [blockWith]
  exact Reads.within (opens.step (reads.bind closes.map fun _ _ => rfl)) _

/-- The statements are read as a block. -/
abbrev ReadsBlock (body : List Statement) : Prop :=
  Reads (blockWith statement) (inBraces (Statement.lexemesOfAll body)) body anything

theorem reads_ifThen (test : Expr) (reads : ReadsBlock body) :
    Reads (conditionalWith statement) (Statement.ifThen test body).lexemes (.ifThen test body)
      (· ≠ .keyword .onnathay) := by
  refine Reads.within ((reads_keyword _).step ((reads_condition test).bind ?_ fun _ _ => trivial)) _
  rw [← (inBraces (Statement.lexemesOfAll body)).append_nil]
  refine reads.bind (Leads.lookBehind fun _ other => ?_) fun _ _ => trivial
  exact if_neg other

theorem reads_ifElse (test : Expr) {alternative : List Statement} (reads : ReadsBlock body)
    (otherReads : ReadsBlock alternative) :
    Reads (conditionalWith statement) (Statement.ifElse test body alternative).lexemes
      (.ifElse test body alternative) anything := by
  refine Reads.within ((reads_keyword _).step ((reads_condition test).bind ?_ fun _ _ => trivial)) _
  exact reads.bind (Leads.look (Reads.accept.step otherReads.map)) fun _ _ => trivial

theorem reads_loopWith (test : Expr) (reads : ReadsBlock body) :
    Reads (loopWith statement) (Statement.repeatWhile test body).lexemes (.repeatWhile test body)
      anything :=
  Reads.accept.step ((reads_condition test).bind reads.map fun _ _ => trivial)

theorem reads_functionWith (name : String) (parameters : List String) (reads : ReadsBlock body) :
    Reads (functionWith statement) (Statement.function name parameters body).lexemes
      (.function name parameters body) anything := by
  have listed := reads_separatedByCommas Takes.identifier trivial trivial
    (fun parameter (_ : parameter ∈ parameters) => reads_identifier parameter) fun _ _ _ => nofun
  refine Reads.within ((reads_keyword _).step ((reads_identifier name).step ?_)) _
  rw [inParentheses, cons_append, append_assoc]
  refine reads_openParen.step (Reads.bind (listed.within _) (reads_closeParen.step reads.map) ?_)
  exact fun _ _ => rfl

mutual

/-- A statement is read back, unless an alternative follows that it could take. -/
theorem reads_statement (phrase : Statement) :
    Reads statement phrase.lexemes phrase (· ≠ .keyword .onnathay) := by
  rw [statement_eq, statementWith]
  refine Reads.within ?_ _
  -- Only a condition without an alternative depends on what follows.
  have regardless {spelled : List Lexeme}
      (reads : Reads (look Input.kind >>= statementFrom statement) spelled phrase anything) :
      Reads (look Input.kind >>= statementFrom statement) spelled phrase (· ≠ .keyword .onnathay) :=
    reads.mono fun _ _ => trivial
  cases phrase with
  | declaration name initial =>
    have reads := reads_declaration name initial
    cases initial <;> exact regardless (Leads.look reads)
  | assignment name value => exact regardless (reads_assignment name value)
  | ifThen test body =>
    exact Leads.look (reads_ifThen test (reads_block body))
  | ifElse test body alternative =>
    exact regardless (Leads.look (reads_ifElse test (reads_block body) (reads_block alternative)))
  | repeatWhile test body =>
    exact regardless (Leads.look (reads_loopWith test (reads_block body)))
  | block body => exact regardless (Leads.look (reads_block body).map)
  | function name parameters body =>
    exact regardless (Leads.look (reads_functionWith name parameters (reads_block body)))
  | giveBack value =>
    have reads := reads_returning value
    cases value <;> exact regardless (Leads.look reads)
  | print value => exact regardless (Leads.look (reads_printing value))
  | expression value => exact regardless (reads_expressionStatement value)

theorem reads_block (body : List Statement) : ReadsBlock body := by
  refine reads_blockWith ((reads_statements body fun kind starts => ?_).mono ?_)
  · cases kind <;> first | rfl | cases starts
  · rintro kind rfl
    exact ⟨rfl, nofun⟩

theorem reads_statements (phrases : List Statement) {stop : TokenKind → Bool}
    (goesOn : ∀ kind, kind.startsStatement = true → stop kind = false) :
    Reads (phrasesUntil stop statement) (Statement.lexemesOfAll phrases) phrases
      fun kind => stop kind = true ∧ kind ≠ .keyword .onnathay := by
  rw [phrasesUntil_eq Takes.statement]
  cases phrases with
  | nil => exact Leads.lookBehind fun kind stops => if_pos stops.1
  | cons first rest =>
    refine Leads.lookAt (fun kind _ => if_neg ?_) ((reads_statement first).bind
      (reads_statements rest goesOn).map fun kind stops => ?_)
    · rw [Statement.lexemesOfAll, firstKind_append, goesOn _ (first.startsStatement_firstKind _)]
      exact nofun
    · cases rest with
      | nil => exact stops.2
      | cons second others =>
        rw [Statement.lexemesOfAll, firstKind_append]
        intro alternative
        have starts := second.startsStatement_firstKind
          (firstKind (Statement.lexemesOfAll others) kind)
        rw [alternative] at starts
        cases starts

end

theorem reads_program (source : Program) :
    Reads program source.lexemes source (· = .endOfInput) := by
  rw [program]
  refine Reads.map ((reads_statements source.body fun kind starts => ?_).mono ?_)
  · cases kind <;> first | rfl | cases starts
  · rintro kind rfl
    exact ⟨rfl, nofun⟩

theorem parse_append {source : Program} {tokens ending : List Token}
    (spells : tokens.map Token.lexeme = source.lexemes)
    (ended : ∀ position, Input.kind ⟨ending, position⟩ = .endOfInput) :
    parse (tokens ++ ending) = .ok source := by
  let last : Position := ((tokens ++ ending).getLast?.map Token.position).getD Position.start
  have run := @reads_program source _ ⟨ending, last⟩ spells (ended last)
  rw [Input.behind] at run
  rw [parse, Input.ofTokens, run]
  rfl

end Parser

theorem Cursor.lexeme_place (cursor : Cursor) (lexeme : Lexeme) :
    (cursor.place lexeme).lexeme = lexeme := by
  simp [Token.lexeme, place]

/-- The lexemes of a program tell it apart from the others. -/
theorem Program.eq_of_lexemes {first second : Program} (same : first.lexemes = second.lexemes) :
    first = second := by
  let tokens : List Token := first.lexemes.map (Cursor.ofText "").place
  have spells : tokens.map Token.lexeme = first.lexemes := by
    rw [map_map]
    exact map_id'' (Cursor.lexeme_place _) _
  have read {source : Program} (listed : first.lexemes = source.lexemes) :
      parse (tokens ++ []) = .ok source :=
    Parser.parse_append (spells.trans listed) fun _ => rfl
  exact Except.ok.inj ((read rfl).symm.trans (read same))

instance : DecidableEq Program := fun first second =>
  decidable_of_iff (first.lexemes = second.lexemes) ⟨Program.eq_of_lexemes, congrArg _⟩

/-- **Parsing undoes printing.**  Tokens with the lexemes of a program, with or
without the end of the text behind them, are parsed as this program. -/
theorem parse_of_lexemes (program : Program) (tokens : List Token)
    (spells : tokens.map Token.lexeme = program.lexemes ∨
      tokens.map Token.lexeme = program.lexemes ++ [Lexeme.endOfInput]) :
    parse tokens = .ok program := by
  rcases spells with spells | spells
  · rw [← append_nil tokens]
    exact Parser.parse_append spells fun _ => rfl
  · obtain ⟨_, _, rfl, firstSpells, endingSpells⟩ := map_eq_append_iff.mp spells
    obtain ⟨token, rfl, ends⟩ := map_eq_singleton_iff.mp endingSpells
    exact Parser.parse_append firstSpells fun _ => congrArg Lexeme.kind ends

/-- A program whose operations need parentheses and whose conditions are nested. -/
def nestedChoices : Program :=
  ⟨[.ifElse (.binary .equal (.binary .subtract (.identifier "a")
        (.binary .subtract (.identifier "b") (.identifier "c"))) (.identifier "d"))
      [.ifThen (.identifier "a") [.giveBack none]]
      [.assignment "a" (.binary .multiply (.binary .add (.literal (.string "t")) (.identifier "a"))
        (.call "f" [.identifier "a", .literal (.string "s")]))]]⟩

theorem parse_of_lexemes_nestedChoices :
    ∃ tokens, tokenize ("jode (a - (b - c) == d) \x7b jode (a) \x7b ferot; \x7d \x7d " ++
        "onnathay \x7b a = (\"t\" + a) * f(a, \"s\"); \x7d") = .ok tokens ∧
      tokens.map Token.lexeme = nestedChoices.lexemes ++ [Lexeme.endOfInput] ∧
      parse tokens = .ok nestedChoices := by
  have read : (tokenize ("jode (a - (b - c) == d) \x7b jode (a) \x7b ferot; \x7d \x7d " ++
      "onnathay \x7b a = (\"t\" + a) * f(a, \"s\"); \x7d")).map (List.map Token.lexeme) =
      .ok (nestedChoices.lexemes ++ [Lexeme.endOfInput]) := by
    decide +kernel
  revert read
  cases tokenize _ with
  | error => rintro ⟨⟩
  | ok tokens =>
    intro read
    have spells := Except.ok.inj read
    exact ⟨tokens, rfl, spells, parse_of_lexemes _ _ (.inr spells)⟩

end BanglaScript
