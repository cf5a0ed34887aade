import StackScript.Proofs.Grammar.Names
import StackScript.Proofs.Grammar.Places

/-!
# Reading a tree back

A tree has contents, in the order in which they stand in the script.  The grammar neither
loses nor repeats nor moves any content of the tokens: tokens that end in a newline and that
are accepted spell the contents of their tree (`parse_keeps_contents`).  The tokens of a text
are plain, so their contents are those of the tokens one by one.
-/

namespace StackScript.Surface

mutual

/-- The contents of an expression. -/
def Expr.contents : Expr → List Content
  | .integer value => [.integer value]
  | .text content => [.text content]
  | .symbol _ name => [.word name]
  | .negation _ operand => .word "-" :: operand.contents
  | .binary _ _ operator left right => left.contents ++ .word operator :: right.contents
  | .list items => exprsContents items
  | .record fields => fieldsContents fields
  | .item _ subject index => subject.contents ++ index.contents
  | .call _ function arguments => function.contents ++ exprsContents arguments
  | .lambda parameters body => .word "lambda" :: (parameters.map .word ++ stmtsContents body)
  | .conditional condition onTrue onFalse =>
      .word "if" :: (condition.contents ++ (stmtsContents onTrue ++ stmtsContents onFalse))
  | .misplaced _ _ => []

def exprsContents : List Expr → List Content
  | [] => []
  | expression :: rest => expression.contents ++ exprsContents rest

def fieldsContents : List (String × Expr) → List Content
  | [] => []
  | (name, value) :: rest => .word name :: (value.contents ++ fieldsContents rest)

def Stmt.contents : Stmt → List Content
  | .assign target value => .word target :: .word "=" :: value.contents
  | .evaluate expression => expression.contents
  | .define name parameters body =>
      .word "def" :: .word name :: (parameters.map .word ++ stmtsContents body)
  | .misplaced _ => []

def stmtsContents : List Stmt → List Content
  | [] => []
  | statement :: rest => statement.contents ++ stmtsContents rest

end

/-- The contents of a script. -/
def Program.contents (program : Program) : List Content :=
  stmtsContents program.statements

theorem flatMap_contents_exprs (expressions : List Expr) :
    expressions.flatMap Expr.contents = exprsContents expressions := by
  induction expressions with
  | nil => rfl
  | cons expression rest ih => rw [List.flatMap_cons, ih, exprsContents]

theorem flatMap_contents_stmts (statements : List Stmt) :
    statements.flatMap Stmt.contents = stmtsContents statements := by
  induction statements with
  | nil => rfl
  | cons statement rest ih => rw [List.flatMap_cons, ih, stmtsContents]

def fieldContents (field : String × Expr) : List Content :=
  .word field.1 :: field.2.contents

theorem flatMap_contents_fields (fields : List (String × Expr)) :
    fields.flatMap fieldContents = fieldsContents fields := by
  induction fields with
  | nil => rfl
  | cons field rest ih =>
      rw [List.flatMap_cons, ih, fieldsContents, fieldContents, List.cons_append]

end StackScript.Surface

namespace StackScript.Grammar

open StackScript.Grammar.Parser
open StackScript.Surface

/-- The parsers for what is nested inside a construct account for all tokens. -/
structure ConsumesInner (inner : Inner) : Prop where
  expression : Consumes inner.expression (Exactly Expr.contents)
  statement : Consumes inner.statement (Exactly Stmt.contents)

theorem reading_symbol (token : Token) (isSymbol : decide (token.kind = .symbol) = true) :
    token.Reading (some (.word token.text)) :=
  .word (by simp [of_decide_eq_true isSymbol, Token.wordKinds])

theorem consumes_name : Consumes name (Exactly fun name => [.word name]) :=
  (Consumes.satisfy reading_symbol).map fun _ _ spelled => spelled

theorem accepts_parameters : Accepts (commaSeparated name) (Exactly (List.map .word)) := by
  have same : List.flatMap (fun name => [Content.word name]) = List.map .word :=
    funext fun _ => List.map_eq_flatMap.symm
  have accepts := consumes_name.accepts.commaSeparated
  rwa [same] at accepts

theorem consumes_symbol : Consumes symbol (Exactly Expr.contents) :=
  (Consumes.satisfy reading_symbol).map fun _ _ spelled => spelled

theorem consumes_text : Consumes text (Exactly Expr.contents) := by
  have reading : ∀ token : Token,
      (decide (token.kind = .doubleQuoted) || decide (token.kind = .singleQuoted)) = true →
        token.Reading (some (.text (unquoted token.text))) :=
    fun token isText => .text (by simpa using isText)
  exact (Consumes.satisfy reading).map fun _ _ spelled => spelled

theorem consumes_integer : Consumes integer (Exactly Expr.contents) := by
  constructor
  · intro tokens ends value rest replied
    rcases bind_eq_accept replied with ⟨token, between, satisfied, repliedValue⟩
    rcases satisfy_eq_accept satisfied with ⟨rfl, isInteger⟩
    cases denotes : Text.readNumeral token.text with
    | ok number =>
        simp only [denotes] at repliedValue
        cases repliedValue
        exact ⟨_, .of_reading (.integer (of_decide_eq_true isInteger) denotes) _, rfl⟩
    | error error => cases error <;> simp only [denotes] at repliedValue <;> cases repliedValue
  · apply (Rejects.satisfy _).bind
    intro token
    split <;> nofun

section Rules

variable {inner : Inner} (consumes : ConsumesInner inner)
include consumes

theorem accepts_body : Accepts (body inner) (Exactly stmtsContents) := by
  apply consumes.statement.many.bind
  rintro statements _ rfl
  apply Accepts.newlines.bind
  rintro _ _ rfl
  apply Accepts.pure
  simp [flatMap_contents_stmts]

theorem consumes_group : Consumes (group inner) (Exactly Expr.contents) :=
  consumes.expression.accepts.wrapped (by simp [Token.separatorKinds])
    (by simp [Token.separatorKinds])

theorem accepts_expressions : Accepts (expressions inner) (Exactly exprsContents) := by
  have accepts := consumes.expression.accepts.commaSeparated
  rwa [funext flatMap_contents_exprs] at accepts

theorem consumes_record : Consumes (record inner) (Exactly Expr.contents) := by
  have acceptsField : Accepts (field inner) (Exactly fieldContents) := by
    apply Accepts.attempt
    apply consumes_name.accepts.bind
    rintro name _ rfl
    apply (Accepts.skip fun _ => .of_kind (by simp [Token.separatorKinds])).bind
    rintro _ _ rfl
    apply (consumes.expression.accepts.orRaise _).bind
    rintro value _ rfl
    apply Accepts.pure
    simp [Exactly, fieldContents]
  have consumesFields : Consumes (parenthesized (commaSeparated (field inner)))
      (Exactly (List.flatMap fieldContents)) :=
    acceptsField.commaSeparated.wrapped (by simp [Token.separatorKinds])
      (by simp [Token.separatorKinds])
  apply consumesFields.map
  rintro fields _ rfl
  exact flatMap_contents_fields fields

theorem consumes_lambda : Consumes (lambda inner) (Exactly Expr.contents) := by
  apply Consumes.attempt
  apply (Accepts.skip fun _ => .of_keyword (by simp)).bind
  rintro _ _ rfl
  apply (Accepts.demand fun _ => .of_kind (by simp [Token.separatorKinds])).bind
  rintro _ _ rfl
  apply accepts_parameters.bind
  rintro parameters _ rfl
  apply (Accepts.demand fun _ => .of_kind (by simp [Token.separatorKinds])).bind
  rintro _ _ rfl
  apply (Accepts.skip fun _ => .of_text (by simp [Token.bodyWords])).bind
  rintro _ _ rfl
  apply (accepts_body consumes).bind
  rintro statements _ rfl
  apply (Accepts.skip fun _ => .of_end).bind
  rintro _ _ rfl
  apply Accepts.pure
  simp [Exactly, Expr.contents]

theorem consumes_list : Consumes (list inner) (Exactly Expr.contents) := by
  have consumesItems : Consumes (bracketed (expressions inner)) (Exactly exprsContents) :=
    (accepts_expressions consumes).wrapped (by simp [Token.separatorKinds])
      (by simp [Token.separatorKinds])
  apply consumesItems.map
  rintro items _ rfl
  rfl

theorem consumes_head : Consumes (head inner) (Exactly Expr.contents) := by
  apply Consumes.firstOf
  simp only [List.forall_mem_cons]
  exact ⟨consumes_symbol, consumes_group consumes, by simp⟩

theorem consumes_item : Consumes (item inner) (Exactly Expr.contents) := by
  apply consumes_applied (consumes_head consumes).accepts
    (consumes.expression.accepts.wrapped (by simp [Token.separatorKinds])
      (by simp [Token.separatorKinds]))
    (stops_wrapped consumes.expression.accepts (by simp))
  intro position subject index
  rfl

theorem consumes_call : Consumes (call inner) (Exactly Expr.contents) := by
  apply consumes_applied (consumes_head consumes).accepts
    ((accepts_expressions consumes).wrapped (by simp [Token.separatorKinds])
      (by simp [Token.separatorKinds]))
    (stops_wrapped (accepts_expressions consumes) (by simp))
  intro position function arguments
  rfl

theorem consumes_term : Consumes (term inner) (Exactly Expr.contents) := by
  apply Consumes.firstOf
  simp only [List.forall_mem_cons]
  exact ⟨consumes_item consumes, consumes_call consumes, consumes_group consumes,
    consumes_integer, consumes_text, consumes_list consumes, consumes_lambda consumes,
    consumes_symbol, consumes_record consumes, by simp⟩

omit consumes in
theorem consumes_infixLevel {operand : Parser Expr} (level : Level) {isOperator : Token → Bool}
    (reads : ∀ operator, isOperator operator = true → operator.kind ∈ Token.wordKinds)
    (accepts : Accepts operand (Exactly Expr.contents)) :
    Consumes (infixLevel level isOperator operand) (Exactly Expr.contents) :=
  accepts.chainLeft fun operator _ _ isOne => ⟨.word (reads operator isOne), rfl⟩

theorem consumes_signed : Consumes (signed inner) (Exactly Expr.contents) := by
  have consumesAccess : Consumes (access inner) (Exactly Expr.contents) :=
    consumes_infixLevel _ (by simp_all [Token.wordKinds]) (consumes_term consumes).accepts
  apply Consumes.firstOf
  simp only [List.forall_mem_cons]
  refine ⟨consumesAccess, ?_, by simp⟩
  apply Consumes.attempt
  apply Accepts.nextPosition.bind
  rintro position _ rfl
  apply (Accepts.skip fun _ isMinus => .minus (of_decide_eq_true isMinus)).bind
  rintro _ _ rfl
  apply consumesAccess.accepts.bind
  rintro operand _ rfl
  apply Accepts.pure
  simp [Exactly, Expr.contents]

theorem consumes_disjunction : Consumes (disjunction inner) (Exactly Expr.contents) := by
  have readsKind : ∀ kind ∈ Token.wordKinds, ∀ operator : Token,
      decide (operator.kind = kind) = true → operator.kind ∈ Token.wordKinds := by
    intro kind isWord operator isKind
    rwa [of_decide_eq_true isKind]
  have readsSymbol : ∀ (name : String) (operator : Token), operator.isSymbol name = true →
      operator.kind ∈ Token.wordKinds :=
    fun name operator isSymbol =>
      readsKind .symbol (by decide) operator (Bool.and_eq_true_iff.mp isSymbol).1
  have consumesMultiplication : Consumes (multiplication inner) (Exactly Expr.contents) :=
    consumes_infixLevel _ (readsKind _ (by decide)) (consumes_signed consumes).accepts
  have consumesAddition : Consumes (addition inner) (Exactly Expr.contents) :=
    consumes_infixLevel _ (readsKind _ (by decide)) consumesMultiplication.accepts
  have consumesComparison : Consumes (comparison inner) (Exactly Expr.contents) :=
    consumes_infixLevel _ (readsKind _ (by decide)) consumesAddition.accepts
  have consumesConjunction : Consumes (conjunction inner) (Exactly Expr.contents) :=
    consumes_infixLevel _ (readsSymbol _) consumesComparison.accepts
  exact consumes_infixLevel _ (readsSymbol _) consumesConjunction.accepts

theorem consumes_otherwise : Consumes (otherwise inner) (Exactly stmtsContents) := by
  apply Consumes.firstOf
  simp only [List.forall_mem_cons]
  refine ⟨⟨?_, ?_⟩, ⟨Accepts.pure rfl, nofun⟩, by simp⟩
  · apply (Accepts.skip fun _ => .of_text (by simp [Token.bodyWords])).bind
    rintro _ _ rfl
    exact accepts_body consumes
  · exact (Rejects.skip _).bind fun _ => neverRejects_body

theorem consumes_conditional : Consumes (conditional inner) (Exactly Expr.contents) := by
  apply Consumes.attempt
  apply (Accepts.skip fun _ isIf => .condition (of_decide_eq_true isIf)).bind
  rintro _ _ rfl
  apply ((consumes_disjunction consumes).accepts.orRaise _).bind
  rintro condition _ rfl
  apply (Accepts.demand fun _ => .of_text (by simp [Token.bodyWords])).bind
  rintro _ _ rfl
  apply (accepts_body consumes).bind
  rintro onTrue _ rfl
  apply (consumes_otherwise consumes).accepts.bind
  rintro onFalse _ rfl
  apply (Accepts.demand fun _ => .of_text (by simp [Token.bodyWords])).bind
  rintro _ _ rfl
  apply Accepts.pure
  simp [Exactly, Expr.contents]

theorem consumes_expression : Consumes (expression inner) (Exactly Expr.contents) := by
  apply Consumes.firstOf
  simp only [List.forall_mem_cons]
  exact ⟨consumes_disjunction consumes, consumes_conditional consumes, by simp⟩

theorem consumes_assignment : Consumes (assignment inner) (Exactly Stmt.contents) := by
  have acceptsTarget : Accepts target
      (Exactly fun token => [.word token.text, .word "="]) := by
    apply (Accepts.satisfy reading_symbol).bind
    rintro token _ rfl
    apply (Accepts.skip fun _ isAssignment => .assignment (of_decide_eq_true isAssignment)).bind
    rintro _ _ rfl
    split
    · exact Accepts.raise _
    · exact Accepts.pure rfl
  apply Consumes.attempt
  apply acceptsTarget.bind
  rintro target _ rfl
  apply (consumes.expression.accepts.orRaise _).bind
  rintro value _ rfl
  apply Accepts.pure
  simp [Exactly, Stmt.contents]

theorem consumes_definition : Consumes (definition inner) (Exactly Stmt.contents) := by
  apply Consumes.attempt
  apply (Accepts.skip fun _ => .of_keyword (by simp)).bind
  rintro _ _ rfl
  apply (consumes_name.accepts.orRaise _).bind
  rintro name _ rfl
  apply (Accepts.demand fun _ => .of_kind (by simp [Token.separatorKinds])).bind
  rintro _ _ rfl
  apply accepts_parameters.bind
  rintro parameters _ rfl
  apply (Accepts.demand fun _ => .of_kind (by simp [Token.separatorKinds])).bind
  rintro _ _ rfl
  apply (Accepts.skip fun _ => .of_text (by simp [Token.bodyWords])).bind
  rintro _ _ rfl
  apply (accepts_body consumes).bind
  rintro statements _ rfl
  apply (Accepts.skip fun _ => .of_end).bind
  rintro _ _ rfl
  apply Accepts.pure
  simp [Exactly, Stmt.contents]

theorem consumes_statement : Consumes (statement inner) (Exactly Stmt.contents) := by
  have consumesEvaluation : Consumes (evaluation inner) (Exactly Stmt.contents) := by
    apply (consumes_expression consumes).map
    rintro expression _ rfl
    rfl
  have consumesChoice : Consumes
      (firstOf [assignment inner, evaluation inner, definition inner])
      (Exactly Stmt.contents) := by
    apply Consumes.firstOf
    simp only [List.forall_mem_cons]
    exact ⟨consumes_assignment consumes, consumesEvaluation, consumes_definition consumes,
      by simp⟩
  constructor
  · intro tokens ends value rest replied
    have skipped := Leaves.dropNewlines tokens
    unfold statement at replied
    split at replied
    · cases replied
    · rename_i token others found
      rw [found] at skipped
      rcases consumesChoice.accepts _ (skipped.endsLine ends) value rest replied with
        ⟨contents, leaves, spelled⟩
      exact ⟨contents, skipped.trans leaves, spelled⟩
  · intro tokens ends rest replied
    have skipped := Leaves.dropNewlines tokens
    unfold statement at replied
    split at replied
    · rename_i found
      cases replied
      rwa [found] at skipped
    · rename_i token others found
      rw [found] at skipped
      exact skipped.trans (consumesChoice.rejects _ (skipped.endsLine ends) rest replied)

end Rules

/-- The rules of the grammar account for all tokens at every depth. -/
theorem consumesInner_nested (depth : Nat) : ConsumesInner (nested depth) := by
  induction depth with
  | zero => exact ⟨⟨Accepts.raise _, nofun⟩, ⟨Accepts.raise _, nofun⟩⟩
  | succ depth ih => exact ⟨consumes_expression ih, consumes_statement ih⟩

end StackScript.Grammar

namespace StackScript

/-! ## The tokens of a script -/

namespace Lexer

theorem isWordCharacter_of_keyword {first : Char} {rest : List Char}
    (isKeyword : String.ofList (first :: rest) ∈ keywords) : isWordCharacter first = true := by
  have starts : ∀ word ∈ keywords, word.toList.head?.all isWordCharacter = true := by
    decide
  simpa using starts _ isKeyword

/-- The text of a lexeme fits its kind. -/
theorem isPlain_of_lexeme? {first : Char} {rest : List Char} {kind : Kind} {length : Nat}
    {position : Position} (found : lexeme? first rest = some (kind, length)) :
    Token.IsPlain { kind, text := String.ofList (first :: rest.take length), position } := by
  have isAssign : String.ofList (first :: rest.take length) = "=" ↔
      first = '=' ∧ rest.take length = [] := by
    rw [← String.toList_inj]
    simp
  have isMinus : String.ofList (first :: rest.take length) = "-" → first = '-' := by
    rw [← String.toList_inj]
    simp +contextual
  simp only [lexeme?] at found
  split at found
  · rename_i firstWord
    simp only [Option.some.injEq, Prod.mk.injEq] at found
    obtain ⟨rfl, rfl⟩ := found
    have taken : rest.take (rest.takeWhile isWordCharacter).length =
        rest.takeWhile isWordCharacter :=
      (List.prefix_iff_eq_take.mp (List.takeWhile_prefix isWordCharacter)).symm
    rw [taken] at isAssign isMinus ⊢
    refine ⟨by simp [wordKind], ⟨?_, ?_⟩, ?_⟩
    · intro isKind
      simp only [wordKind] at isKind
      split at isKind <;> cases isKind
    · intro isText
      rw [(isAssign.mp isText).1] at firstWord
      cases firstWord
    · intro isText
      rw [isMinus isText] at firstWord
      cases firstWord
  · rename_i notWord
    have notKeyword : String.ofList (first :: rest.take length) ∉ keywords :=
      fun isKeyword => notWord (isWordCharacter_of_keyword isKeyword)
    suffices facts : kind ≠ .keyword ∧
        (kind = .assignment ↔ first = '=' ∧ rest.take length = []) ∧
        (first = '-' → kind = .addition) from
      ⟨by simpa [facts.1] using notKeyword, facts.2.1.trans isAssign.symm,
        fun isText => facts.2.2 (isMinus isText)⟩
    clear isAssign isMinus notKeyword
    split at found
    · rename_i isDigit
      cases found
      refine ⟨by decide, ⟨by rintro ⟨⟩, ?_⟩, ?_⟩
      · rintro ⟨rfl, _⟩
        exact absurd isDigit (by decide)
      · rintro rfl
        exact absurd isDigit (by decide)
    · -- Every other lexeme has a first character of its own, and `==` also a second one.
      have second : rest.head? = some '=' → rest.take 1 ≠ [] := by
        cases rest <;> simp
      split at found <;> simp [ite_eq_iff] at found <;> grind

end Lexer

/-- The tokens of a text are plain. -/
theorem isPlain_of_tokenize {script : String} {tokens : List Token}
    (scanned : tokenize script = .ok tokens) : ∀ token ∈ tokens, token.IsPlain :=
  Lexer.forall_mem_of_scan (fun _ _ _ _ _ found => Lexer.isPlain_of_lexeme? found) scanned

/-- Accepted tokens spell the contents of their tree. -/
theorem spells_of_parse {tokens : List Token} {program : Surface.Program}
    (ends : Grammar.EndsLine tokens) (parsed : parse tokens = .ok program) :
    Spells tokens program.contents := by
  have acceptsProgram : Grammar.Accepts (Grammar.program (Grammar.nested tokens.length))
      (Grammar.Exactly Surface.Program.contents) := by
    apply (Grammar.consumes_statement (Grammar.consumesInner_nested _)).many.bind
    rintro statements _ rfl
    apply Grammar.Accepts.pure
    simp [Grammar.Exactly, Surface.Program.contents, Surface.flatMap_contents_stmts]
  rcases acceptsProgram.finish ends parsed with ⟨_, spells, rfl⟩
  exact spells

/-- No content of accepted tokens is lost, repeated or moved, if their last one is a newline:
the contents of the tree can be read off from them, and if each token can be read in one way
only, as the tokens of every text, they are the contents of the tokens. -/
theorem parse_keeps_contents {tokens : List Token} {program : Surface.Program}
    (ends : ∀ last ∈ tokens.getLast?, last.kind = .newline)
    (parsed : parse tokens = .ok program) :
    Spells tokens program.contents ∧
      ((∀ token ∈ tokens, token.IsPlain) →
        program.contents = tokens.filterMap Token.content?) ∧
      ∀ script, tokenize script = .ok tokens →
        program.contents = tokens.filterMap Token.content? := by
  have spells := spells_of_parse ends parsed
  refine ⟨spells, spells.eq_filterMap, ?_⟩
  intro script scanned
  exact spells.eq_filterMap (isPlain_of_tokenize scanned)

/-- A script with every form of expression and statement. -/
def everyForm : String :=
  "def f(x, y) do\n  if x < -y do\n    'a'\n  else\n" ++
    "    (\n      a: x,\n      b: [y, 2])\n  end\nend\n" ++
    "g = lambda(z) do f(z[0], z).a * 3 end\n\ng(1) and not_it\n"

/-- The contents of that script. -/
def everyFormContents : List Content :=
  [.word "def", .word "f", .word "x", .word "y", .word "if", .word "x", .word "<", .word "-",
    .word "y", .text "a", .word "a", .word "x", .word "b", .word "y", .integer 2, .word "g",
    .word "=", .word "lambda", .word "z", .word "f", .word "z", .integer 0, .word "z", .word ".",
    .word "a", .word "*", .integer 3, .word "g", .integer 1, .word "and", .word "not_it"]

theorem everyForm_keeps_contents :
    ∃ tokens program, tokenize everyForm = .ok tokens ∧
      (∀ last ∈ tokens.getLast?, last.kind = .newline) ∧ parse tokens = .ok program ∧
      Spells tokens program.contents ∧ program.contents = everyFormContents ∧
      tokens.filterMap Token.content? = everyFormContents := by
  have views : (tokenize everyForm).toOption.map (fun tokens =>
      (tokens.getLast?.map Token.kind, (parse tokens).toOption.map Surface.Program.contents)) =
        some (some .newline, some everyFormContents) := by
    decide +kernel
  cases scanned : tokenize everyForm with
  | error error =>
      rw [scanned] at views
      cases views
  | ok tokens =>
      rw [scanned] at views
      have facts := Prod.mk.inj (Option.some.inj views)
      have ends : ∀ last ∈ tokens.getLast?, last.kind = .newline := by
        intro last isLast
        simpa [Option.mem_def.mp isLast] using facts.1
      cases parsed : parse tokens with
      | error error =>
          rw [parsed] at facts
          cases facts.2
      | ok program =>
          rw [parsed] at facts
          have contents : program.contents = everyFormContents := Option.some.inj facts.2
          have kept := parse_keeps_contents ends parsed
          refine ⟨tokens, program, rfl, ends, parsed, kept.1, contents, ?_⟩
          rw [← kept.2.2 everyForm scanned, contents]

end StackScript
