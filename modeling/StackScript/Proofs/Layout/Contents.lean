import StackScript.Proofs.Ending.FinalNewline
import StackScript.Proofs.Layout.Written

/-!
# Where the contents of a tree come from

The lexer finds legal lexemes only, and each content of the tree of a script is that of one of
its tokens, also where the last arguments of the script are lost.  So no word of a script has a
`$` or a newline in it, and no quoted text has a newline (`Script.isClean_of_mem_contents`).
-/

namespace StackScript

namespace Lexer

theorem isLegal_word {first : Char} {rest : List Char} {kind : Kind} {length : Nat}
    (isWord : isWordCharacter first = true) (found : lexeme? first rest = some (kind, length)) :
    Lexeme.IsLegal ⟨kind, String.ofList (first :: rest.take length)⟩ := by
  have plain : Token.IsPlain ⟨kind, String.ofList (first :: rest.take length), ⟨0, 1⟩⟩ :=
    isPlain_of_lexeme? found
  by_cases isSymbol : kind = .symbol
  · subst isSymbol
    exact .symbol (isName_of_lexeme? found)
  · have isKeyword : kind = .keyword := by
      simp only [lexeme?, if_pos isWord, Option.some.injEq, Prod.mk.injEq, wordKind] at found
      grind
    subst isKeyword
    exact .fixed (plain.keyword_iff.mp rfl)

theorem isLegal_digits {first : Char} (rest : List Char) (isDigit : Text.isDigit first = true) :
    Lexeme.IsLegal
      ⟨.integer, String.ofList (first :: rest.take (rest.takeWhile Text.isDigit).length)⟩ := by
  have taken : rest.take (rest.takeWhile Text.isDigit).length = rest.takeWhile Text.isDigit :=
    (List.prefix_iff_eq_take.mp (List.takeWhile_prefix Text.isDigit)).symm
  rw [taken]
  refine .integer (by simp) ?_
  rw [String.toList_ofList, List.forall_mem_cons]
  exact ⟨isDigit, List.all_eq_true.mp List.all_takeWhile⟩

/-- A quoted text is taken up to its closing quote. -/
theorem take_of_closingLength? {quote : Char} {rest : List Char} {length : Nat}
    (closes : closingLength? quote rest = some length) :
    ∃ content, rest.take length = content ++ [quote] ∧ quote ∉ content ∧ '\n' ∉ content := by
  obtain ⟨content, later, rfl, rfl, notQuote, oneLine⟩ := exists_content_of_closingLength? closes
  refine ⟨content, ?_, notQuote, oneLine⟩
  rw [List.append_cons, List.take_left' (by simp)]

/-- Every lexeme that the lexer finds is legal. -/
theorem isLegal_of_lexeme? {first : Char} {rest : List Char} {kind : Kind} {length : Nat}
    (found : lexeme? first rest = some (kind, length)) :
    Lexeme.IsLegal ⟨kind, String.ofList (first :: rest.take length)⟩ := by
  by_cases isWord : isWordCharacter first = true
  · exact isLegal_word isWord found
  simp only [lexeme?, if_neg isWord] at found
  split at found
  case isTrue isDigit =>
      cases found
      exact isLegal_digits rest isDigit
  split at found
  case h_8 =>
      obtain ⟨length, closes, same⟩ := Option.map_eq_some_iff.mp found
      cases same
      obtain ⟨content, taken, notQuote, oneLine⟩ := take_of_closingLength? closes
      rw [taken]
      exact .singleQuoted notQuote oneLine
  case h_9 =>
      obtain ⟨length, closes, same⟩ := Option.map_eq_some_iff.mp found
      cases same
      obtain ⟨content, taken, notQuote, oneLine⟩ := take_of_closingLength? closes
      rw [taken]
      exact .doubleQuoted notQuote oneLine
  -- The operators that may have a second character.
  case h_10 | h_11 | h_12 | h_13 | h_14 | h_17 =>
      split at found
      case isTrue second =>
          cases found
          obtain ⟨others, rfl⟩ := List.head?_eq_some_iff.mp second
          exact .fixed (by simp [Kind.texts, ← String.toList_inj])
      case isFalse =>
          cases found
          all_goals exact .fixed (by simp [Kind.texts, ← String.toList_inj])
  all_goals
      cases found
      all_goals exact .fixed (by simp [Kind.texts, ← String.toList_inj])

end Lexer

/-- The tokens of a script are legal. -/
theorem isLegal_of_tokenize {script : String} {tokens : List Token}
    (scanned : tokenize script = .ok tokens) : ∀ token ∈ tokens, token.lexeme.IsLegal :=
  Lexer.forall_mem_of_scan (fun _ _ _ _ _ found => Lexer.isLegal_of_lexeme? found) scanned

/-- A content that a script can have: a word has neither a `$` nor a newline in it, and a quoted
text is on one line. -/
def Content.IsClean : Content → Prop
  | .word letters => '$' ∉ letters.toList ∧ '\n' ∉ letters.toList
  | .integer _ => True
  | .text inside => '\n' ∉ inside.toList

theorem Kind.isClean_of_mem_texts {kind : Kind} (notNewline : kind ≠ .newline) {text : String}
    (isText : text ∈ kind.texts) : Content.IsClean (.word text) := by
  cases kind with
  | newline => exact absurd rfl notNewline
  | integer | symbol | singleQuoted | doubleQuoted | other => cases isText
  | _ =>
      simp only [Kind.texts, Lexer.keywords, List.mem_cons, List.not_mem_nil, or_false] at isText
      rcases isText with rfl | rfl | rfl | rfl | rfl | rfl
      all_goals exact ⟨by simp, by simp⟩

namespace Token

theorem isClean_unquoted {quote : Char} {inside : List Char} (oneLine : '\n' ∉ inside) :
    Content.IsClean
      (.text (Grammar.unquoted (String.ofList (quote :: (inside ++ [quote]))))) := by
  simpa [Content.IsClean, Grammar.unquoted] using oneLine

/-- The content of a legal token is clean. -/
theorem isClean_of_content? {token : Token} (legal : token.lexeme.IsLegal) {content : Content}
    (isContent : token.content? = some content) : content.IsClean := by
  obtain ⟨kind, text, position⟩ := token
  cases legal with
  | fixed isText =>
      have clean : kind ≠ .newline → Content.IsClean (.word text) :=
        fun notNewline => kind.isClean_of_mem_texts notNewline isText
      cases kind with
      | keyword =>
          obtain ⟨-, same⟩ := Option.ite_none_left_eq_some.mp isContent
          cases same
          exact clean (by simp)
      | integer | symbol | singleQuoted | doubleQuoted | other => cases isText
      | period | comparison | assignment | addition | multiplication =>
          cases isContent
          exact clean (by simp)
      | _ => cases isContent
  | symbol isName =>
      cases isContent
      exact ⟨isName.dollar_notMem, fun member => absurd (isName.characters _ member) (by decide)⟩
  | integer =>
      obtain ⟨value, -, rfl⟩ := Option.map_eq_some_iff.mp isContent
      exact True.intro
  | singleQuoted _ oneLine | doubleQuoted _ oneLine =>
      cases isContent
      exact isClean_unquoted oneLine

end Token

namespace Surface

theorem Expr.contents_shorn_isPrefix (expression : Expr) :
    expression.shorn.contents <+: expression.contents := by
  fun_induction Expr.shorn expression with
  | case1 position operand ih => exact List.prefix_cons_inj _ |>.mpr ih
  | case2 position level operator left right ih =>
      exact (List.prefix_append_right_inj _).mpr ((List.prefix_cons_inj _).mpr ih)
  | case3 position subject index => exact List.prefix_append _ _
  | case4 position function arguments => exact List.prefix_append _ _
  | case5 expression => exact List.prefix_refl _

theorem Stmt.contents_shorn_isPrefix (statement : Stmt) :
    statement.shorn.contents <+: statement.contents := by
  cases statement with
  | assign target value =>
      exact (List.prefix_append_right_inj [_, _]).mpr value.contents_shorn_isPrefix
  | evaluate expression => exact expression.contents_shorn_isPrefix
  | define | misplaced => exact List.prefix_refl _

/-- What is cut off at the end of a script adds nothing to its contents. -/
theorem stmtsContents_cutLast_isPrefix (statements : List Stmt) :
    stmtsContents (Grammar.cutLast Stmt.shorn statements) <+: stmtsContents statements := by
  fun_induction Grammar.cutLast Stmt.shorn statements with
  | case1 => exact List.prefix_refl _
  | case2 statement => simpa [stmtsContents] using statement.contents_shorn_isPrefix
  | case3 statement next rest ih => exact (List.prefix_append_right_inj _).mpr ih

end Surface

/-- The tree of a script has no contents that it lacks with a newline at the end. -/
theorem exists_parse_append_newline {tokens : List Token} {program : Surface.Program}
    (plain : ∀ token ∈ tokens, token.IsPlain) (parsed : parse tokens = .ok program)
    (position : Position) :
    ∃ whole, parse (tokens ++ [{ kind := .newline, text := "\n", position }]) = .ok whole ∧
      program.contents <+: whole.contents := by
  cases isLast : tokens.getLast? with
  | none =>
      cases List.getLast?_eq_none_iff.mp isLast
      exact ⟨program, parsed, List.prefix_refl _⟩
  | some last =>
      have reaches : Grammar.Ending.Reaches
          { last, newline := { kind := .newline, text := "\n", position },
            plain := plain last (List.mem_of_getLast? isLast), isNewline := rfl,
            notBare := by simp [bareWords] } tokens := isLast
      rcases reaches.parse_append_newline with
        ⟨found, whole, isFound, parsedMore, fit⟩ | ⟨⟨error, failed⟩, -⟩
      · cases parsed.symm.trans isFound
        refine ⟨whole, parsedMore, ?_⟩
        by_cases endsLine : last.kind = .newline
        · rw [Surface.Program.contents, fit.same endsLine]
          exact List.prefix_refl _
        · rw [Surface.Program.contents, (fit.cutOff endsLine).2]
          exact Surface.stmtsContents_cutLast_isPrefix _
      · cases parsed.symm.trans failed

namespace Script

/-- The contents of a script are those of its tokens, so they are clean. -/
theorem isClean_of_mem_contents {script : String} {program : Surface.Program}
    (parsed : surface script = .ok program) {content : Content}
    (member : content ∈ program.contents) : content.IsClean := by
  cases scanned : tokenize script with
  | error error =>
      rw [surface, scanned] at parsed
      cases parsed
  | ok tokens =>
      rw [surface_of_tokenize scanned] at parsed
      obtain ⟨position, scannedMore⟩ := tokenize_append_newline scanned
      obtain ⟨whole, parsedMore, isPrefix⟩ :=
        exists_parse_append_newline (isPlain_of_tokenize scanned) parsed position
      have spells := spells_of_parse (Grammar.endsLine_of_kind (by simp)) parsedMore
      have inWhole := isPrefix.subset member
      rw [spells.eq_filterMap (isPlain_of_tokenize scannedMore), List.mem_filterMap] at inWhole
      obtain ⟨token, inTokens, same⟩ := inWhole
      exact Token.isClean_of_content? (isLegal_of_tokenize scannedMore token inTokens) same

end Script

end StackScript
