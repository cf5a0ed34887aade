import StackScript.Proofs.Printing.Refusals

/-!
# Written terms

Each kind of term is taken from its lexemes, provided that the parsers for what is nested inside
take the parts.
-/

namespace StackScript.Grammar

open StackScript.Grammar.Parser
open StackScript.Surface

section Terms

variable {inner : Inner} {lexemes : List Lexeme} {holds : Expr → Prop}

/-- The value is a tree, up to places. -/
abbrev Same (expression parsed : Expr) : Prop :=
  parsed.unplaced = expression.unplaced

theorem takes_symbol (position : Position) (name : String) :
    Takes symbol [.symbol name] (fun _ => True) (Same (.symbol position name)) := by
  apply (Takes.satisfy (Takes.hasKind (.symbol name))).map
  intro token isLexeme
  have text : token.text = name := congrArg Lexeme.text isLexeme
  simp only [Same, Expr.unplaced, text]

theorem takes_integer {value : Int} (writable : IsWritableInteger value) :
    Takes integer [.numeral value] (fun _ => True) (Same (.integer value)) := by
  apply (Takes.satisfy (Takes.hasKind (.numeral value))).cons
  intro token isLexeme
  have text : token.text = toString value := congrArg Lexeme.text isLexeme
  rcases writable with ⟨notNegative, short⟩
  rcases Int.eq_ofNat_of_zero_le notNegative with ⟨number, rfl⟩
  have denotes : Text.readNumeral token.text = .ok (number : Int) := by
    rw [text]
    exact Text.readNumeral_repr number short
  simp only [denotes]
  exact Takes.pure rfl

theorem kind_quoted (content : String) :
    (Lexeme.quoted content).kind = .doubleQuoted ∨
      (Lexeme.quoted content).kind = .singleQuoted := by
  rw [Lexeme.quoted]
  split
  · exact .inr rfl
  · exact .inl rfl

theorem takes_text (content : String) :
    Takes text [.quoted content] (fun _ => True) (Same (.text content)) := by
  have isQuoted : ∀ token : Token, token.lexeme = .quoted content →
      (decide (token.kind = .doubleQuoted) || decide (token.kind = .singleQuoted)) = true := by
    intro token isLexeme
    have kind : token.kind = (Lexeme.quoted content).kind := congrArg Lexeme.kind isLexeme
    rw [kind]
    simpa using kind_quoted content
  apply (Takes.satisfy isQuoted).map
  intro token isLexeme
  have text : token.text = (Lexeme.quoted content).text := congrArg Lexeme.text isLexeme
  simp only [Same, Expr.unplaced, text, Lexeme.unquoted_quoted]

/-- What may follow a whole expression. -/
abbrev EndsExpression : List Lexeme → Prop :=
  StartsWith (EndsOperand 6)

abbrev EndsTerm : List Lexeme → Prop :=
  StartsWith (EndsOperand 0)

/-- A lexeme that ends every operand may follow an expression. -/
theorem Takes.before {parser : Parser Expr} {closing : Lexeme}
    (takes : Takes parser lexemes EndsExpression holds) (ends : closing.kind ∈ endingKinds) :
    Takes parser lexemes (StartsWith (· = closing)) holds := by
  apply takes.mono
  intro rest starts
  apply starts.mono
  rintro _ rfl
  exact endsOperand_of_kind ends 6

theorem Takes.parenthesized {α : Type} {parser : Parser α} {holds : α → Prop}
    (takes : Takes parser lexemes (StartsWith (· = .closeParen)) holds) :
    Takes (parenthesized parser) (.openParen :: (lexemes ++ [.closeParen])) (fun _ => True)
      holds :=
  takes.wrapped

theorem Takes.bracketed {α : Type} {parser : Parser α} {holds : α → Prop}
    (takes : Takes parser lexemes (StartsWith (· = .closeBracket)) holds) :
    Takes (bracketed parser) (.openBracket :: (lexemes ++ [.closeBracket])) (fun _ => True)
      holds :=
  takes.wrapped

theorem takes_group (takes : Takes inner.expression lexemes EndsExpression holds) :
    Takes (group inner) (parenthesizedLexemes lexemes) (fun _ => True) holds :=
  (takes.before (by decide)).parenthesized

theorem takes_head_group (takes : Takes inner.expression lexemes EndsExpression holds) :
    Takes (head inner) (parenthesizedLexemes lexemes) (fun _ => True) holds := by
  apply Takes.firstOf [symbol] (takes_group takes)
  simp only [List.forall_mem_cons]
  exact ⟨refuses_symbol.begins nofun, by simp⟩

/-- A head that neither an index nor arguments follow. -/
theorem refuses_item_call (takes : Takes (head inner) lexemes (fun _ => True) holds) :
    Refuses (item inner) (Begins lexemes EndsTerm) ∧
      Refuses (call inner) (Begins lexemes EndsTerm) := by
  have takesHead : Takes (head inner) lexemes EndsTerm holds := takes.mono fun _ _ => trivial
  constructor
  · apply takesHead.applied_refuses
    exact (Refuses.wrapped _ _ _).starting fun _ => EndsOperand.notBracket
  · apply takesHead.applied_refuses
    exact (Refuses.wrapped _ _ _).starting fun _ => EndsOperand.notParen

theorem takes_term_group (takes : Takes inner.expression lexemes EndsExpression holds) :
    Takes (term inner) (parenthesizedLexemes lexemes) EndsTerm holds := by
  rcases refuses_item_call (takes_head_group takes) with ⟨refusesItem, refusesCall⟩
  apply Takes.firstOf [item inner, call inner] ((takes_group takes).mono fun _ _ => trivial)
  simp only [List.forall_mem_cons]
  exact ⟨refusesItem, refusesCall, by simp⟩

/-- The rules that are tried before a symbol refuse one that ends a term. -/
theorem refuses_before_symbol (name : String) :
    ∀ rule ∈ [item inner, call inner, group inner, integer, text, list inner, lambda inner],
      Refuses rule (Begins [.symbol name] EndsTerm) := by
  have takesHead : Takes (head inner) [.symbol name] (fun _ => True)
      (Same (.symbol ⟨0, 0⟩ name)) :=
    Takes.firstOf [] (takes_symbol _ name) (by simp)
  rcases refuses_item_call takesHead with ⟨refusesItem, refusesCall⟩
  simp only [List.forall_mem_cons]
  exact ⟨refusesItem, refusesCall, (refuses_group inner).begins nofun,
    refuses_integer.begins nofun, refuses_text.begins ⟨nofun, nofun⟩,
    (refuses_list inner).begins nofun, (refuses_lambda inner).begins nofun, by simp⟩

theorem takes_term_symbol (position : Position) (name : String) :
    Takes (term inner) [.symbol name] EndsTerm (Same (.symbol position name)) :=
  Takes.firstOf _ ((takes_symbol position name).mono fun _ _ => trivial)
    (refuses_before_symbol name)

/-- The rules that are tried first refuse what starts with neither a symbol nor a
parenthesis. -/
theorem refuses_first (first : StartsWith (fun lexeme =>
      lexeme.kind ≠ .symbol ∧ lexeme.kind ≠ .openParen) lexemes) :
    ∀ rule ∈ [item inner, call inner, group inner], Refuses rule (Begins lexemes EndsTerm) := by
  simp only [List.forall_mem_cons]
  exact ⟨((refuses_head inner).applied _ _).begins first,
    ((refuses_head inner).applied _ _).begins first,
    (refuses_group inner).begins (first.mono fun _ => And.right), by simp⟩

theorem takes_term_integer {value : Int} (writable : IsWritableInteger value) :
    Takes (term inner) [.numeral value] EndsTerm (Same (.integer value)) := by
  apply Takes.firstOf [item inner, call inner, group inner]
    ((takes_integer writable).mono fun _ _ => trivial)
  exact refuses_first ⟨nofun, nofun⟩

theorem takes_term_text (content : String) :
    Takes (term inner) [.quoted content] EndsTerm (Same (.text content)) := by
  have kind := kind_quoted content
  have first : StartsWith (fun lexeme => lexeme.kind ≠ .symbol ∧ lexeme.kind ≠ .openParen)
      [.quoted content] := by
    rcases kind with kind | kind <;> simp [StartsWith, kind]
  have notInteger : StartsWith (·.kind ≠ .integer) [.quoted content] := by
    rcases kind with kind | kind <;> simp [StartsWith, kind]
  apply Takes.firstOf ([item inner, call inner, group inner] ++ [integer])
    ((takes_text content).mono fun _ _ => trivial)
  rw [List.forall_mem_append]
  exact ⟨refuses_first first, by simpa using refuses_integer.begins notInteger⟩

theorem takes_term_list {items : List Expr}
    (takes : Takes (expressions inner) lexemes (StartsWith (· = .closeBracket)) fun values =>
      exprsUnplaced values = exprsUnplaced items) :
    Takes (term inner) (.openBracket :: (lexemes ++ [.closeBracket])) EndsTerm
      (Same (.list items)) := by
  have takesList : Takes (list inner) (.openBracket :: (lexemes ++ [.closeBracket]))
      (fun _ => True) (Same (.list items)) := by
    apply takes.bracketed.map
    intro values same
    simp only [Same, Expr.unplaced, same]
  apply Takes.firstOf ([item inner, call inner, group inner] ++ [integer, text])
    (takesList.mono fun _ _ => trivial)
  rw [List.forall_mem_append]
  refine ⟨refuses_first ⟨nofun, nofun⟩, ?_⟩
  simp only [List.forall_mem_cons]
  exact ⟨refuses_integer.begins nofun, refuses_text.begins ⟨nofun, nofun⟩, by simp⟩

theorem takes_term_item {position : Position} {subject index : Expr} {indexLexemes : List Lexeme}
    (takesSubject : Takes inner.expression lexemes EndsExpression (Same subject))
    (takesIndex : Takes inner.expression indexLexemes EndsExpression (Same index)) :
    Takes (term inner)
      (parenthesizedLexemes lexemes ++ .openBracket :: (indexLexemes ++ [.closeBracket]))
      EndsTerm (Same (.item position subject index)) := by
  have takesItem : Takes (item inner)
      (parenthesizedLexemes lexemes ++ .openBracket :: (indexLexemes ++ [.closeBracket]))
      EndsTerm (Same (.item position subject index)) := by
    apply (takes_head_group takesSubject).applied (takesIndex.before (by decide)).bracketed
      (fun _ => trivial)
      ((Refuses.wrapped _ _ _).starting fun _ => EndsOperand.notBracket)
    intro place first given sameFirst sameGiven
    simp only [Same, Expr.unplaced] at sameFirst sameGiven ⊢
    rw [sameFirst, sameGiven]
  exact Takes.firstOf [] takesItem (by simp)

theorem takes_term_call {position : Position} {function : Expr} {arguments : List Expr}
    {argumentLexemes : List Lexeme}
    (takesFunction : Takes inner.expression lexemes EndsExpression (Same function))
    (takesArguments : Takes (expressions inner) argumentLexemes (StartsWith (· = .closeParen))
      fun values => exprsUnplaced values = exprsUnplaced arguments) :
    Takes (term inner)
      (parenthesizedLexemes lexemes ++ .openParen :: (argumentLexemes ++ [.closeParen]))
      EndsTerm (Same (.call position function arguments)) := by
  have takesHead := takes_head_group takesFunction
  have takesCall : Takes (call inner)
      (parenthesizedLexemes lexemes ++ .openParen :: (argumentLexemes ++ [.closeParen]))
      EndsTerm (Same (.call position function arguments)) := by
    apply takesHead.applied takesArguments.parenthesized (fun _ => trivial)
      ((Refuses.wrapped _ _ _).starting fun _ => EndsOperand.notParen)
    intro place first given sameFirst sameGiven
    simp only [Same, Expr.unplaced] at sameFirst sameGiven ⊢
    rw [sameFirst, sameGiven]
  have refusesItem : Refuses (item inner)
      (Begins (parenthesizedLexemes lexemes) (StartsWith (·.kind ≠ .openBracket))) :=
    (takesHead.mono fun _ _ => trivial).applied_refuses (Refuses.wrapped _ _ _)
  apply Takes.firstOf [item inner] takesCall
  simp only [List.forall_mem_cons]
  refine ⟨refusesItem.mono ?_, by simp⟩
  rintro _ ⟨rest, rfl, _⟩
  exact ⟨_, List.append_assoc .., nofun⟩

end Terms

/-! ## Lists, parameters and fields -/

section Lists

variable {inner : Inner} {breakEmpty : Bool}

/-- The parsers for what is nested inside refuse what no expression or statement starts
with, and skip newlines before a statement. -/
structure Selective (inner : Inner) : Prop where
  expression : Refuses inner.expression (StartsWith (startsExpression · = false))
  statement : Refuses inner.statement NoStatement
  newline : ∀ (token : Token) tokens, token.kind = .newline →
    inner.statement (token :: tokens) = inner.statement tokens

theorem selective_nested (depth : Nat) : Selective (nested (depth + 1)) :=
  ⟨refuses_expression _, refuses_statement _, statement_newline _⟩

/-- Items with commas between them, up to a closing lexeme. -/
theorem takes_separated {α ι γ : Type} {item : Parser α} {suitable : List Lexeme → Prop}
    {view : α → γ} {write : ι → List Lexeme} {meaning : ι → γ} {closing : Lexeme} (items : List ι)
    (written : ∀ x ∈ items, Written item suitable view (write x) (meaning x))
    (fitsComma : ∀ rest, suitable (.comma :: rest))
    (fitsClosing : ∀ rest, StartsWith (· = closing) rest → suitable rest)
    (refuses : Refuses item (StartsWith (· = closing))) (notComma : closing.kind ≠ .comma)
    (notNewline : closing.kind ≠ .newline) :
    Takes (commaSeparated item) (separatedLexemes (items.map write)) (StartsWith (· = closing))
      fun values => values.map view = items.map meaning := by
  cases items with
  | nil =>
      apply takes_commaSeparated_nil refuses
      intro rest starts
      apply starts.mono
      rintro _ rfl
      exact notNewline
  | cons first others =>
      have isSeparator : IsSeparator [.comma] := ⟨rfl, nofun⟩
      have layout : Layout item view suitable (StartsWith (· = closing)) [.comma] [] := by
        apply Layout.plain isSeparator fitsComma fitsClosing
        intro rest starts
        apply starts.mono
        rintro _ rfl
        exact notComma
      have takes : Takes (commaSeparated item)
          ([] ++ (write first ++ (others.flatMap (fun x => [.comma] ++ write x) ++ [])))
          (StartsWith (· = closing)) fun values =>
            values.map view = (first :: others).map meaning :=
        layout.commaSeparated (List.forall_mem_nil _) first others written
      simpa [separatedLexemes, List.flatMap_map] using takes

theorem takes_name (name : String) :
    Takes Grammar.name [.symbol name] (fun _ => True) fun value => value = name := by
  apply (Takes.satisfy (Takes.hasKind (.symbol name))).map
  intro token isLexeme
  exact congrArg Lexeme.text isLexeme

theorem refuses_name : Refuses Grammar.name (StartsWith (·.kind ≠ .symbol)) :=
  (Refuses.satisfy fun _ => decide_eq_false).bind _

theorem takes_parameters (parameters : List String) :
    Takes (commaSeparated Grammar.name)
      (separatedLexemes (parameters.map fun name => [.symbol name]))
      (StartsWith (· = .closeParen)) fun values => values = parameters := by
  have takes : Takes (commaSeparated Grammar.name)
      (separatedLexemes (parameters.map fun name => [.symbol name]))
      (StartsWith (· = .closeParen)) fun values => values.map id = parameters.map id := by
    have refuses : Refuses Grammar.name (StartsWith (· = .closeParen)) := by
      apply refuses_name.starting
      rintro _ rfl
      nofun
    apply takes_separated parameters _ (fun _ => trivial) (fun _ _ => trivial) refuses
    · nofun
    · nofun
    · intro name _
      exact ⟨takes_name name, nofun⟩
  simpa using takes

/-- An expression in a list of them may be followed by a comma or by the closing lexeme. -/
theorem takes_expressions (selective : Selective inner) {items : List Expr} {closing : Lexeme}
    (takes : ∀ expression ∈ items, Takes inner.expression
      (parenthesizedLexemes (expression.lexemes breakEmpty)) EndsExpression (Same expression))
    (isClosing : closing = .closeParen ∨ closing = .closeBracket) :
    Takes (expressions inner) (separatedLexemes (exprsLexemes breakEmpty items))
      (StartsWith (· = closing)) fun values => exprsUnplaced values = exprsUnplaced items := by
  rw [exprsLexemes_eq_map]
  simp only [exprsUnplaced_eq_map]
  apply takes_separated
  · intro expression member
    exact ⟨takes expression member, nofun⟩
  · intro rest
    exact endsOperand_of_kind (by decide) 6
  · intro rest starts
    apply starts.mono
    rintro _ rfl
    rcases isClosing with rfl | rfl <;> exact endsOperand_of_kind (by decide) 6
  · apply selective.expression.starting
    rintro _ rfl
    rcases isClosing with rfl | rfl <;> rfl
  · rcases isClosing with rfl | rfl <;> nofun
  · rcases isClosing with rfl | rfl <;> nofun

/-- Separators after all items, seen as separators between them and a last one. -/
theorem flatMap_append_separator {ι : Type} (write : ι → List Lexeme) (separator : List Lexeme)
    (first : ι) (others : List ι) :
    (first :: others).flatMap (fun x => write x ++ separator) =
      write first ++ (others.flatMap (fun x => separator ++ write x) ++ separator) := by
  induction others generalizing first with
  | nil => simp
  | cons next others ih =>
      rw [List.flatMap_cons, ih]
      simp

theorem takes_field {field' : String × Expr}
    (takes : Takes inner.expression (field'.2.lexemes breakEmpty) EndsExpression
      (Same field'.2)) :
    Takes (field inner) (fieldLexemes breakEmpty field') EndsExpression fun value =>
      fieldUnplaced value = fieldUnplaced field' := by
  apply Takes.attempt
  apply (takes_name field'.1).cons
  rintro name rfl
  apply (Takes.skip (Takes.hasKind .colon)).cons
  intro _ _
  apply (takes.orRaise _).map
  intro value same
  simp only [fieldUnplaced, same]

theorem takes_fields {fields : List (String × Expr)}
    (takes : ∀ field' ∈ fields, Takes inner.expression (field'.2.lexemes breakEmpty)
      EndsExpression (Same field'.2))
    (breaks : fields = [] → breakEmpty = false) :
    Takes (commaSeparated (field inner))
      (recordBreak breakEmpty fields ++ fieldsLexemes breakEmpty fields)
      (StartsWith (· = .closeParen)) fun values =>
        fieldsUnplaced values = fieldsUnplaced fields := by
  have refuses : Refuses (field inner) (StartsWith (· = .closeParen)) := by
    apply Refuses.attempt
    apply Refuses.fails
    apply Refuses.bind
    apply refuses_name.starting
    rintro _ rfl
    decide
  have noNewline : ∀ rest, StartsWith (· = .closeParen) rest →
      StartsWith (·.kind ≠ .newline) rest := by
    intro rest starts
    apply starts.mono
    rintro _ rfl
    decide
  simp only [fieldsUnplaced_eq_map, fieldsLexemes_eq_flatMap]
  cases fields with
  | nil =>
      rw [breaks rfl]
      exact takes_commaSeparated_nil refuses noNewline
  | cons first others =>
      have isSeparator : IsSeparator [.comma, .newline] := ⟨rfl, by simp [Lexeme.newline]⟩
      have layout : Layout (field inner) fieldUnplaced EndsExpression
          (StartsWith (· = .closeParen)) [.comma, .newline] [.comma, .newline] :=
        .closed isSeparator (fun _ => endsOperand_of_kind (by decide) 6) refuses noNewline
      rw [flatMap_append_separator]
      apply layout.commaSeparated
      · simp [recordBreak, Lexeme.newline]
      · intro field' member
        exact ⟨takes_field (takes field' member), by rintro ⟨⟩⟩

theorem takes_term_record (selective : Selective inner) {fields : List (String × Expr)}
    (takes : ∀ field' ∈ fields, Takes inner.expression (field'.2.lexemes breakEmpty)
      EndsExpression (Same field'.2))
    (breaks : fields = [] → breakEmpty = false) :
    Takes (term inner) (Expr.lexemes breakEmpty (.record fields)) EndsTerm
      (Same (.record fields)) := by
  have takesRecord : Takes (record inner) (Expr.lexemes breakEmpty (.record fields))
      (fun _ => True) (Same (.record fields)) := by
    apply (takes_fields takes breaks).parenthesized.map
    intro values same
    simp only [Same, Expr.unplaced, same]
  -- After the parenthesis stands a newline or another one, so there is no group.
  have noGroup : Refuses (group inner)
      (Begins (Expr.lexemes breakEmpty (.record fields)) EndsTerm) := by
    apply (Takes.wrapped_refuses selective.expression .openParen _).mono
    rintro _ ⟨rest, rfl, _⟩
    refine ⟨_, rfl, ?_⟩
    rw [recordBreak]
    cases fields with
    | nil => cases breakEmpty <;> exact rfl
    | cons first others => exact rfl
  have noHead : Refuses (head inner)
      (Begins (Expr.lexemes breakEmpty (.record fields)) EndsTerm) := by
    apply Refuses.firstOf
    simp only [List.forall_mem_cons]
    exact ⟨refuses_symbol.begins (by rintro ⟨⟩), noGroup, by simp⟩
  apply Takes.firstOf [item inner, call inner, group inner, integer, text, list inner,
    lambda inner, symbol] (takesRecord.mono fun _ _ => trivial)
  simp only [List.forall_mem_cons]
  refine ⟨noHead.applied _ _, noHead.applied _ _, noGroup, refuses_integer.begins ?_,
    refuses_text.begins ?_, (refuses_list inner).begins ?_, (refuses_lambda inner).begins ?_,
    refuses_symbol.begins ?_, by simp⟩
  all_goals simp [Expr.lexemes, StartsWith, Lexeme.openParen]

end Lists

section Bodies

variable {inner : Inner} {breakEmpty : Bool} {statements : List Stmt}

/-- A statement is read from its lexemes if a newline follows. -/
abbrev WrittenStmt (parser : Parser Stmt) (breakEmpty : Bool) (statement : Stmt) : Prop :=
  Written parser (StartsWith (· = .newline)) Stmt.unplaced (statement.lexemes breakEmpty)
    statement.unplaced

theorem takes_body (selective : Selective inner)
    (written : ∀ statement ∈ statements, WrittenStmt inner.statement breakEmpty statement) :
    Takes (body inner) (stmtsLexemes breakEmpty statements)
      (StartsWith (startsStatement · = false)) fun values =>
        stmtsUnplaced values = stmtsUnplaced statements := by
  have takesMany := takes_many selective.newline rfl selective.statement statements written
  rw [← stmtsLexemes_eq_flatMap] at takesMany
  have takesRest : ∀ values : List Stmt, values.map Stmt.unplaced = statements.map Stmt.unplaced →
      Takes (do newlines; return values) [] (StartsWith (startsStatement · = false)) fun values =>
        stmtsUnplaced values = stmtsUnplaced statements := by
    intro values same
    apply Takes.newlines.nothing
    · intro _ _
      apply Takes.pure
      rw [stmtsUnplaced_eq_map, stmtsUnplaced_eq_map, same]
    · intro rest starts
      apply starts.mono
      intro lexeme none
      simp only [startsStatement, Bool.or_eq_false_iff, decide_eq_false_iff_not] at none
      exact none.1.2
  have takes := takesMany.bind takesRest fun rest starts => .inr starts
  rwa [List.append_nil] at takes

theorem hasText (lexeme : Lexeme) (token : Token) (isLexeme : token.lexeme = lexeme) :
    decide (token.text = lexeme.text) = true :=
  decide_eq_true (congrArg Lexeme.text isLexeme)

theorem isKeyword_keyword (word : String) (token : Token)
    (isLexeme : token.lexeme = .keyword word) : token.isKeyword word = true := by
  have kind : token.kind = .keyword := congrArg Lexeme.kind isLexeme
  have text : token.text = word := congrArg Lexeme.text isLexeme
  simp [Token.isKeyword, kind, text]

/-- Parameters in parentheses and a body, from which a function is built. -/
theorem takes_function {α : Type} (selective : Selective inner) {parameters : List String}
    (written : ∀ statement ∈ statements, WrittenStmt inner.statement breakEmpty statement)
    {opening : Token → Error} {build : List String → List Stmt → α} {holds : α → Prop}
    (builds : ∀ parsed, stmtsUnplaced parsed = stmtsUnplaced statements →
      holds (build parameters parsed)) :
    Takes
      (do
        demand (fun token => token.kind = .openParen) opening
        let parameters ← commaSeparated name
        demand (fun token => token.kind = .closeParen) fun _ => .malformedConstruct
        skip fun token => token.text = "do"
        let body ← body inner
        skip fun token => token.isKeyword "end"
        return build parameters body)
      (functionLexemes parameters (stmtsLexemes breakEmpty statements)) (fun _ => True) holds := by
  apply (Takes.demand (Takes.hasKind .openParen)).cons
  intro _ _
  apply (takes_parameters parameters).bind
  · rintro _ rfl
    apply (Takes.demand (Takes.hasKind .closeParen)).cons
    intro _ _
    apply (Takes.skip (hasText (.keyword "do"))).cons
    intro _ _
    apply (takes_body selective written).bind
    · intro parsed same
      apply (Takes.skip (isKeyword_keyword "end")).cons
      intro _ _
      exact Takes.pure (builds parsed same)
    · intro rest _
      rfl
  · intro rest _
    rfl

theorem takes_term_lambda (selective : Selective inner) {parameters : List String}
    (written : ∀ statement ∈ statements, WrittenStmt inner.statement breakEmpty statement) :
    Takes (term inner) (Expr.lexemes breakEmpty (.lambda parameters statements)) EndsTerm
      (Same (.lambda parameters statements)) := by
  have takesLambda : Takes (lambda inner)
      (Expr.lexemes breakEmpty (.lambda parameters statements)) (fun _ => True)
      (Same (.lambda parameters statements)) := by
    apply Takes.attempt
    apply (Takes.skip (isKeyword_keyword "lambda")).cons
    intro _ _
    apply takes_function selective written
    intro parsed same
    simp only [Same, Expr.unplaced, same]
  apply Takes.firstOf ([item inner, call inner, group inner] ++ [integer, text, list inner])
    (takesLambda.mono fun _ _ => trivial)
  rw [List.forall_mem_append]
  refine ⟨refuses_first ⟨nofun, nofun⟩, ?_⟩
  simp only [List.forall_mem_cons]
  exact ⟨refuses_integer.begins nofun, refuses_text.begins ⟨nofun, nofun⟩,
    (refuses_list inner).begins nofun, by simp⟩

end Bodies

end StackScript.Grammar
