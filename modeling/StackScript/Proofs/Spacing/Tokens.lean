import StackScript.Proofs.Grammar.Reads
import StackScript.Proofs.Printing.Trees

/-!
# Scripts that differ in their spacing

Two scripts have the same lexemes, apart from the number of newlines in a row.  The grammar
asks only whether there is a newline, so it reads the same tree from both, apart from the
places in it (`parse_of_sameSpacing`).
-/

namespace StackScript

/-- Whether lexemes start with a newline. -/
def startsLine : List Lexeme → Bool
  | [] => false
  | lexeme :: _ => lexeme.kind = .newline

/-- Lexemes in which newlines in a row are drawn together to one. -/
def drawTogether : List Lexeme → List Lexeme
  | [] => []
  | lexeme :: rest =>
      if lexeme.kind = .newline && startsLine rest then drawTogether rest
      else lexeme :: drawTogether rest

theorem drawTogether_of_ne {lexeme : Lexeme} (rest : List Lexeme)
    (other : lexeme.kind ≠ .newline) :
    drawTogether (lexeme :: rest) = lexeme :: drawTogether rest := by
  simp [drawTogether, other]

/-- A token that is a newline only if it has the text of one. -/
def Token.IsPlainNewline (token : Token) : Prop :=
  token.kind = .newline → token.lexeme = .newline

/-- A newline stands for all that follow it. -/
theorem drawTogether_newline {token : Token} {rest : List Token} (isNewline : token.kind = .newline)
    (plain : ∀ other ∈ token :: rest, other.IsPlainNewline) :
    drawTogether ((token :: rest).map Token.lexeme) =
      .newline :: drawTogether ((Grammar.dropNewlines rest).map Token.lexeme) := by
  induction rest generalizing token with
  | nil => simp [drawTogether, startsLine, Grammar.dropNewlines, plain token (by simp) isNewline]
  | cons next others ih =>
      obtain ⟨tokenPlain, restPlain⟩ := List.forall_mem_cons.mp plain
      rw [List.map_cons, tokenPlain isNewline, drawTogether]
      by_cases nextNewline : next.kind = .newline
      · have skipped : Grammar.dropNewlines (next :: others) = Grammar.dropNewlines others := by
          simp [Grammar.dropNewlines, nextNewline]
        have starts : startsLine ((next :: others).map Token.lexeme) = true :=
          decide_eq_true nextNewline
        rw [starts, if_pos (by rfl), skipped]
        exact ih nextNewline restPlain
      · have kept : Grammar.dropNewlines (next :: others) = next :: others := by
          simp [Grammar.dropNewlines, nextNewline]
        have starts : startsLine ((next :: others).map Token.lexeme) = false :=
          decide_eq_false nextNewline
        rw [starts, kept]
        rfl

theorem drawTogether_eq_nil {lexemes : List Lexeme} (nothing : drawTogether lexemes = []) :
    lexemes = [] := by
  induction lexemes with
  | nil => rfl
  | cons lexeme rest ih =>
      rw [drawTogether] at nothing
      split at nothing
      · rename_i both
        rw [ih nothing] at both
        simp [startsLine] at both
      · cases nothing

/-- Lists of tokens with the same lexemes, where newlines stand for any number of them. -/
inductive SameSpacing : List Token → List Token → Prop where
  | nil : SameSpacing [] []
  | token {token token' : Token} {rest rest' : List Token} (same : token.lexeme = token'.lexeme)
      (other : token.kind ≠ .newline) (later : SameSpacing rest rest') :
      SameSpacing (token :: rest) (token' :: rest')
  | newlines {token token' : Token} {rest rest' : List Token} (isNewline : token.lexeme = .newline)
      (isNewline' : token'.lexeme = .newline)
      (later : SameSpacing (Grammar.dropNewlines rest) (Grammar.dropNewlines rest')) :
      SameSpacing (token :: rest) (token' :: rest')

/-- Tokens whose lexemes are drawn together to the same ones have the same spacing. -/
theorem sameSpacing_of_drawTogether {tokens tokens' : List Token}
    (plain : ∀ token ∈ tokens, token.IsPlainNewline)
    (plain' : ∀ token ∈ tokens', token.IsPlainNewline)
    (same : drawTogether (tokens.map Token.lexeme) = drawTogether (tokens'.map Token.lexeme)) :
    SameSpacing tokens tokens' := by
  -- A newline takes a whole row of tokens with it, so the induction is on the length.
  induction length : tokens.length using Nat.strongRecOn generalizing tokens tokens' with
  | ind size ih =>
      subst length
      cases tokens with
      | nil =>
          cases List.map_eq_nil_iff.mp (drawTogether_eq_nil same.symm)
          exact .nil
      | cons token rest =>
          cases tokens' with
          | nil => cases drawTogether_eq_nil same
          | cons token' rest' =>
              have restPlain := (List.forall_mem_cons.mp plain).2
              have restPlain' := (List.forall_mem_cons.mp plain').2
              by_cases isNewline : token.kind = .newline
              · rw [drawTogether_newline isNewline plain] at same
                by_cases isNewline' : token'.kind = .newline
                · rw [drawTogether_newline isNewline' plain'] at same
                  have dropped := List.dropWhile_suffix (l := rest) fun token =>
                    decide (token.kind = .newline)
                  have dropped' := List.dropWhile_suffix (l := rest') fun token =>
                    decide (token.kind = .newline)
                  exact .newlines (plain token (by simp) isNewline)
                    (plain' token' (by simp) isNewline')
                    (ih _ (Nat.lt_succ_of_le dropped.length_le)
                      (fun other member => restPlain other (dropped.subset member))
                      (fun other member => restPlain' other (dropped'.subset member))
                      (List.cons.inj same).2 rfl)
                · rw [List.map_cons, drawTogether_of_ne _ isNewline'] at same
                  exact absurd (congrArg Lexeme.kind (List.cons.inj same).1).symm isNewline'
              · rw [List.map_cons, drawTogether_of_ne _ isNewline] at same
                by_cases isNewline' : token'.kind = .newline
                · rw [drawTogether_newline isNewline' plain'] at same
                  exact absurd (congrArg Lexeme.kind (List.cons.inj same).1) isNewline
                · rw [List.map_cons, drawTogether_of_ne _ isNewline'] at same
                  obtain ⟨sameLexeme, sameRest⟩ := List.cons.inj same
                  exact .token sameLexeme isNewline
                    (ih _ (Nat.lt_succ_self _) restPlain restPlain' sameRest rfl)

/-- The newlines of a script are plain. -/
theorem isPlainNewline_of_tokenize {script : String} {tokens : List Token}
    (scanned : tokenize script = .ok tokens) : ∀ token ∈ tokens, token.IsPlainNewline := by
  refine Lexer.forall_mem_of_scan ?_ scanned
  rintro first rest kind length position found rfl
  simp only [Lexer.lexeme?] at found
  split at found
  · simp only [Lexer.wordKind, Option.some.injEq, Prod.mk.injEq] at found
    split at found <;> cases found.1
  · split at found
    · cases found
    · split at found <;> simp [ite_eq_iff] at found
      subst found
      rfl

namespace Grammar

open StackScript.Surface (Expr Stmt Program exprsUnplaced_eq_map fieldsUnplaced_eq_map
  stmtsUnplaced_eq_map)

/-! ## Trees from tokens with the same spacing -/

/-- Lists with the same spacing belong together, whatever errors they lead to. -/
def Matching.spacing : Matching where
  paired _ := SameSpacing
  alike token token' := token.lexeme = token'.lexeme
  raised _ _ := True

theorem not_isInline_newline {token : Token} (isNewline : token.lexeme = .newline) :
    ¬token.IsInline := by
  have kind : token.kind = .newline := congrArg Lexeme.kind isNewline
  have text : token.text = "\n" := congrArg Lexeme.text isNewline
  rw [Token.IsInline, kind, text]
  decide

theorem Matching.lawful_spacing : Matching.spacing.Lawful := by
  have tail : ∀ {token token' : Token} {rest rest' : List Token},
      SameSpacing (token :: rest) (token' :: rest') → token.lexeme ≠ .newline →
        SameSpacing rest rest' := by
    intro token token' rest rest' together other
    cases together with
    | token same _ later => exact later
    | newlines isNewline _ _ => exact absurd isNewline other
  exact
    { nil_iff together := by
        cases together with
        | nil => simp
        | token _ _ _ | newlines _ _ _ => simp
      head together := by
        cases together with
        | token same _ _ => exact same
        | newlines isNewline isNewline' _ => exact isNewline.trans isNewline'.symm
      kind_eq same := congrArg Lexeme.kind same
      text_eq same := congrArg Lexeme.text same
      inline together isInline := tail together fun isNewline =>
        not_isInline_newline isNewline isInline
      opening together isOpening := tail together fun isNewline => by
        cases isOpening.symm.trans (congrArg Lexeme.kind isNewline)
      closing together isClosing := tail together fun isNewline => by
        cases isClosing.symm.trans (congrArg Lexeme.kind isNewline)
      newlines together := by
        cases together with
        | nil => exact .nil
        | @token token token' rest rest' same other later =>
            have other' : token'.kind ≠ .newline := by
              rwa [← show token.kind = token'.kind from congrArg Lexeme.kind same]
            rw [dropNewlines, dropNewlines, List.dropWhile_cons_of_neg (by simpa using other),
              List.dropWhile_cons_of_neg (by simpa using other')]
            exact .token same other later
        | @newlines token token' rest rest' isNewline isNewline' later =>
            have kind : token.kind = .newline := congrArg Lexeme.kind isNewline
            have kind' : token'.kind = .newline := congrArg Lexeme.kind isNewline'
            rw [dropNewlines, dropNewlines, List.dropWhile_cons_of_pos (by simpa using kind),
              List.dropWhile_cons_of_pos (by simpa using kind')]
            exact later
      raised_end := trivial
      raised_fault _ _ := trivial }

/-- Trees are built in the same way, apart from the places in them. -/
theorem buildsAlike_unplaced : BuildsAlike Matching.spacing.alike
    (fun expression expression' => expression.unplaced = expression'.unplaced)
    (fun statement statement' => statement.unplaced = statement'.unplaced) where
  integer _ := rfl
  text _ := rfl
  symbol same _ := by simp only [Expr.unplaced, Matching.lawful_spacing.text_eq same]
  negation _ sameOperand := by rw [Expr.unplaced, Expr.unplaced, sameOperand]
  binary same _ sameLeft sameRight := by
    rw [Expr.unplaced, Expr.unplaced, sameLeft, sameRight, Matching.lawful_spacing.text_eq same]
  list sameItems := by
    simp only [Expr.unplaced, exprsUnplaced_eq_map, map_eq_map_iff_forall₂.mpr sameItems]
  record sameFields := by
    have same := map_eq_map_iff_forall₂.mpr (sameFields.imp (S := fun field field' =>
      Surface.fieldUnplaced field = Surface.fieldUnplaced field') fun _ _ both =>
        Prod.ext both.1 both.2)
    simp only [Expr.unplaced, fieldsUnplaced_eq_map, same]
  item _ sameSubject sameIndex := by
    rw [Expr.unplaced, Expr.unplaced, sameSubject, sameIndex]
  call _ sameFunction sameArguments := by
    simp only [Expr.unplaced, exprsUnplaced_eq_map, sameFunction,
      map_eq_map_iff_forall₂.mpr sameArguments]
  lambda sameBody := by
    simp only [Expr.unplaced, stmtsUnplaced_eq_map, map_eq_map_iff_forall₂.mpr sameBody]
  conditional sameCondition sameTrue sameFalse := by
    simp only [Expr.unplaced, stmtsUnplaced_eq_map, sameCondition,
      map_eq_map_iff_forall₂.mpr sameTrue, map_eq_map_iff_forall₂.mpr sameFalse]
  assign same _ _ sameValue := by
    rw [Stmt.unplaced, Stmt.unplaced, sameValue, Matching.lawful_spacing.text_eq same]
  evaluate sameExpression := by rw [Stmt.unplaced, Stmt.unplaced, sameExpression]
  define same _ sameBody := by
    simp only [Stmt.unplaced, stmtsUnplaced_eq_map, map_eq_map_iff_forall₂.mpr sameBody,
      Matching.lawful_spacing.text_eq same]

end Grammar

/-- From tokens with the same spacing the same script is read, or none from both. -/
theorem parse_of_sameSpacing {tokens tokens' : List Token} (same : SameSpacing tokens tokens') :
    (parse tokens).toOption.map Surface.Program.unplaced =
      (parse tokens').toOption.map Surface.Program.unplaced := by
  -- One depth that is great enough for both.
  let depth := max tokens.length tokens'.length
  rw [parse_eq_of_le (Nat.le_max_left tokens.length tokens'.length),
    parse_eq_of_le (Nat.le_max_right tokens.length tokens'.length)]
  have inner := Grammar.agreesInner_nested Grammar.Matching.lawful_spacing
    Grammar.buildsAlike_unplaced trivial depth depth
  have agrees : Grammar.Agrees Grammar.Matching.spacing (depth + 1) 0 0
      (Grammar.program (Grammar.nested depth)) (Grammar.program (Grammar.nested depth)) _ :=
    Grammar.agrees_program Grammar.Matching.lawful_spacing
      (Grammar.agrees_statement Grammar.Matching.lawful_spacing Grammar.buildsAlike_unplaced inner)
  rcases agrees.finish Grammar.Matching.lawful_spacing same
      (Nat.lt_succ_of_le (Nat.le_max_left _ _)) (Nat.lt_succ_of_le (Nat.le_max_right _ _))
      (Grammar.neverRejects_program _) with
    ⟨_, _, failed, failed', _⟩ | ⟨found, found', finished, finished', sameStatements⟩
  · rw [failed, failed']
    rfl
  · rw [finished, finished']
    have sameProgram : found.unplaced = found'.unplaced := by
      simp only [Surface.Program.unplaced, Surface.stmtsUnplaced_eq_map,
        map_eq_map_iff_forall₂.mpr sameStatements]
    exact congrArg some sameProgram

end StackScript
