import StackScript.Proofs.Printing.Lexemes

/-!
# Lexemes laid out with spaces and comments

A script can be written from its lexemes with any number of spaces between them, but at least
one, and with a comment before each newline and at the end.  The lexer finds these lexemes
again, each at the place where it has been written (`tokenize_layout`).
-/

namespace StackScript

/-- The texts of a kind that has only some texts. -/
def Kind.texts : Kind → List String
  | .keyword => Lexer.keywords
  | .openBracket => ["["]
  | .closeBracket => ["]"]
  | .openParen => ["("]
  | .closeParen => [")"]
  | .comma => [","]
  | .colon => [":"]
  | .period => ["."]
  | .comparison => ["<=", ">=", "==", "!=", "<", ">"]
  | .assignment => ["="]
  | .addition => ["++", "+", "-"]
  | .multiplication => ["*", "//", "%"]
  | .newline => ["\n"]
  | _ => []

/-- The lexemes of scripts. -/
inductive Lexeme.IsLegal : Lexeme → Prop where
  | fixed {kind : Kind} {text : String} (isText : text ∈ kind.texts) : IsLegal ⟨kind, text⟩
  | symbol {name : String} (isName : IsName name) : IsLegal ⟨.symbol, name⟩
  | integer {digits : String} (notEmpty : digits.toList ≠ [])
      (areDigits : ∀ character ∈ digits.toList, Text.isDigit character = true) :
      IsLegal ⟨.integer, digits⟩
  | singleQuoted {content : List Char} (notQuote : '\'' ∉ content) (oneLine : '\n' ∉ content) :
      IsLegal ⟨.singleQuoted, String.ofList ('\'' :: (content ++ ['\'']))⟩
  | doubleQuoted {content : List Char} (notQuote : '"' ∉ content) (oneLine : '\n' ∉ content) :
      IsLegal ⟨.doubleQuoted, String.ofList ('"' :: (content ++ ['"']))⟩

namespace Lexeme

theorem isFound_fixed {kind : Kind} {text : String} (isText : text ∈ kind.texts) :
    IsFound ⟨kind, text⟩ := by
  cases kind with
  | keyword => exact isFound_keyword isText
  | integer | symbol | singleQuoted | doubleQuoted | other => cases isText
  | _ =>
      simp only [Kind.texts, List.mem_cons, List.not_mem_nil, or_false] at isText
      rcases isText with rfl | rfl | rfl | rfl | rfl | rfl
      all_goals exact ⟨_, _, rfl, by decide, by decide, fun _ => rfl⟩

/-- The lexer finds every legal lexeme. -/
theorem IsLegal.isFound {lexeme : Lexeme} (legal : lexeme.IsLegal) : lexeme.IsFound := by
  cases legal with
  | fixed isText => exact isFound_fixed isText
  | symbol isName => exact isFound_symbol isName
  | integer notEmpty areDigits => exact isFound_digits notEmpty areDigits
  | singleQuoted notQuote oneLine =>
      exact isFound_enclosed (by decide) (by decide) (fun _ => rfl) notQuote oneLine
  | doubleQuoted notQuote oneLine =>
      exact isFound_enclosed (by decide) (by decide) (fun _ => rfl) notQuote oneLine

/-- A newline has one text only. -/
theorem IsLegal.text_of_newline {lexeme : Lexeme} (legal : lexeme.IsLegal)
    (isNewline : lexeme.kind = .newline) : lexeme.text = "\n" := by
  cases legal with
  | fixed isText =>
      subst isNewline
      exact List.mem_singleton.mp isText
  | symbol | integer | singleQuoted | doubleQuoted => cases isNewline

end Lexeme

namespace Lexer

/-- No lexeme goes on here: there is a space, a comment or nothing at all. -/
def Stops (rest : List Char) : Prop :=
  ∀ next ∈ rest.head?, next = ' ' ∨ next = '#'

variable {rest : List Char}

theorem takeWhile_append_of_stops (stops : Stops rest) {test : Char → Bool}
    (noSpace : test ' ' = false) (noComment : test '#' = false) (others : List Char) :
    (others ++ rest).takeWhile test = others.takeWhile test := by
  induction others with
  | nil =>
      cases rest with
      | nil => rfl
      | cons next later =>
          rcases stops next rfl with rfl | rfl
          · simp [noSpace]
          · simp [noComment]
  | cons first others ih => rw [List.cons_append, List.takeWhile_cons, List.takeWhile_cons, ih]

theorem head?_append_of_stops (stops : Stops rest) {character : Char} (notSpace : character ≠ ' ')
    (notComment : character ≠ '#') (others : List Char) :
    (others ++ rest).head? = some character ↔ others.head? = some character := by
  cases others with
  | nil =>
      cases rest with
      | nil => rfl
      | cons next later =>
          rcases stops next rfl with rfl | rfl
          · simpa using notSpace.symm
          · simpa using notComment.symm
  | cons first others => rfl

/-- A quoted text is closed by the first quote, before the end of its line. -/
theorem exists_content_of_closingLength? {quote : Char} {text : List Char} {length : Nat}
    (closes : closingLength? quote text = some length) :
    ∃ content later, text = content ++ quote :: later ∧ length = content.length + 1 ∧
      quote ∉ content ∧ '\n' ∉ content := by
  let inside := fun character => character ≠ quote && character ≠ '\n'
  have split : text.takeWhile inside ++ text.dropWhile inside = text :=
    List.takeWhile_append_dropWhile
  have areInside : ∀ character ∈ text.takeWhile inside, inside character = true :=
    List.all_eq_true.mp List.all_takeWhile
  simp only [closingLength?] at closes
  split at closes
  case isFalse => cases closes
  case isTrue isQuote =>
      have next : text[(text.takeWhile inside).length]? = (text.dropWhile inside).head? := by
        nth_rewrite 1 [← split]
        rw [List.getElem?_append_right (Nat.le_refl _), Nat.sub_self, List.head?_eq_getElem?]
      obtain ⟨later, dropped⟩ := List.head?_eq_some_iff.mp (next.symm.trans isQuote)
      refine ⟨text.takeWhile inside, later, ?_, (Option.some.inj closes).symm, ?_, ?_⟩
      · rw [← dropped, split]
      · exact fun member => absurd (areInside quote member) (by simp [inside])
      · exact fun member => absurd (areInside '\n' member) (by simp [inside])

/-- A quoted text that is closed does not depend on what follows. -/
theorem closingLength?_append_congr {quote : Char} {others rest : List Char}
    (closes : closingLength? quote (others ++ rest) = some others.length) (rest' : List Char) :
    closingLength? quote (others ++ rest') = some others.length := by
  obtain ⟨content, later, same, length, notQuote, oneLine⟩ :=
    exists_content_of_closingLength? closes
  have whole : others = content ++ [quote] := by
    have cut : others ++ rest = (content ++ [quote]) ++ later := by simpa using same
    exact (List.append_inj cut (by simp [length])).1
  rw [length, whole, List.append_assoc]
  exact Lexeme.closingLength?_append notQuote oneLine rest'

/-- What follows matters only to the length of words and numbers, to the second character of an
operator and to where a quoted text is closed. -/
theorem lexeme?_congr {first : Char} {text text' : List Char}
    (words : text.takeWhile isWordCharacter = text'.takeWhile isWordCharacter)
    (digits : text.takeWhile Text.isDigit = text'.takeWhile Text.isDigit)
    (second : ∀ character ∈ ['=', '+', '/'],
      text.head? = some character ↔ text'.head? = some character)
    (closes : first ∈ ['\'', '"'] → closingLength? first text = closingLength? first text') :
    lexeme? first text = lexeme? first text' := by
  simp only [lexeme?, words, digits, second '=' (by simp), second '+' (by simp),
    second '/' (by simp)]
  split
  · rfl
  split
  · rfl
  split
  case h_8 => rw [closes (by simp)]
  case h_9 => rw [closes (by simp)]
  all_goals rfl

/-- A lexeme that is found before a space is found before every gap. -/
theorem lexeme?_append_of_stops (stops : Stops rest) {first : Char} {others : List Char}
    {kind : Kind} (found : lexeme? first (others ++ [' ']) = some (kind, others.length)) :
    lexeme? first (others ++ rest) = some (kind, others.length) := by
  have space : Stops [' '] := fun next isNext => .inl (Option.some.inj isNext).symm
  rw [← found]
  apply lexeme?_congr
  · rw [takeWhile_append_of_stops stops (by decide) (by decide),
      takeWhile_append_of_stops space (by decide) (by decide)]
  · rw [takeWhile_append_of_stops stops (by decide) (by decide),
      takeWhile_append_of_stops space (by decide) (by decide)]
  · intro character isSecond
    have other : character ≠ ' ' ∧ character ≠ '#' := by
      simp only [List.mem_cons, List.not_mem_nil, or_false] at isSecond
      rcases isSecond with rfl | rfl | rfl <;> decide
    rw [head?_append_of_stops stops other.1 other.2, head?_append_of_stops space other.1 other.2]
  · intro isQuote
    have closed : closingLength? first (others ++ [' ']) = some others.length := by
      simp only [List.mem_cons, List.not_mem_nil, or_false] at isQuote
      rcases isQuote with rfl | rfl
      all_goals
        obtain ⟨length, closed, same⟩ := Option.map_eq_some_iff.mp found
        cases same
        exact closed
    rw [closed, closingLength?_append_congr closed]

end Lexer

/-- A comment without its `#`. -/
structure Comment where
  content : List Char
  oneLine : '\n' ∉ content

/-- What stands before a lexeme or at the end of a script: spaces, and perhaps a comment after
them. -/
structure Gap where
  spaces : Nat
  comment? : Option Comment

def Gap.characters (gap : Gap) : List Char :=
  List.replicate gap.spaces ' ' ++
    gap.comment?.elim [] fun comment => '#' :: comment.content

/-- A lexeme and the gap before it.  Only a newline ends a comment. -/
structure Piece where
  gap : Gap
  lexeme : Lexeme
  legal : lexeme.IsLegal
  ends : gap.comment?.isSome → lexeme.kind = .newline

namespace Piece

def characters (piece : Piece) : List Char :=
  piece.gap.characters ++ piece.lexeme.text.toList

def allCharacters (pieces : List Piece) : List Char :=
  pieces.flatMap characters

def newlines (pieces : List Piece) : Nat :=
  pieces.countP fun piece => piece.lexeme.kind = .newline

/-- The token of a piece that is written after others. -/
def token (before : List Piece) (piece : Piece) : Token :=
  { kind := piece.lexeme.kind
    text := piece.lexeme.text
    position :=
      { index := ((allCharacters before).length + piece.gap.characters.length : Nat)
        line := (1 + newlines before : Nat) } }

/-- The tokens of pieces that are written after others. -/
def tokensAfter (before : List Piece) : List Piece → List Token
  | [] => []
  | piece :: pieces => piece.token before :: tokensAfter (before ++ [piece]) pieces

end Piece

/-- Lexemes with gaps before them and after the last one.  Between two lexemes there is at
least one space. -/
structure Layout where
  pieces : List Piece
  ending : Gap
  separated : ∀ piece ∈ pieces.tail, 0 < piece.gap.spaces

namespace Layout

def script (layout : Layout) : String :=
  String.ofList (Piece.allCharacters layout.pieces ++ layout.ending.characters)

/-- The tokens of a layout: its lexemes, each at the place where it is written. -/
def tokens (layout : Layout) : List Token :=
  Piece.tokensAfter [] layout.pieces

end Layout

/-! ## Scanning a layout -/

namespace Lexer

theorem scan_spaces (index line spaces : Nat) (rest : List Char) :
    scan index line 0 (List.replicate spaces ' ' ++ rest) = scan (index + spaces) line 0 rest := by
  induction spaces generalizing index with
  | zero => rfl
  | succ spaces ih =>
      rw [List.replicate_succ, List.cons_append, scan, if_pos rfl, ih]
      congr 1
      omega

theorem scan_comment (index line : Nat) (comment : Comment) {rest : List Char}
    (ends : ∀ next ∈ rest.head?, next = '\n') :
    scan index line 0 ('#' :: comment.content ++ rest) =
      scan (index + (1 + comment.content.length)) line 0 rest := by
  have inside : ∀ character ∈ comment.content, decide (character ≠ '\n') = true := by
    intro character member
    have notBreak : character ≠ '\n' := fun same => comment.oneLine (same ▸ member)
    exact decide_eq_true notBreak
  have stops : rest.takeWhile (fun character => decide (character ≠ '\n')) = [] := by
    cases rest with
    | nil => rfl
    | cons next later =>
        rw [ends next rfl]
        rfl
  have length : commentLength (comment.content ++ rest) = comment.content.length := by
    rw [commentLength, List.takeWhile_append_of_pos inside, stops, List.append_nil]
  rw [List.cons_append, scan, if_neg (by decide), if_pos rfl, length, scan_pending, Nat.add_assoc]

/-- A gap is skipped.  If it ends in a comment, a newline follows or nothing at all. -/
theorem scan_gap (index line : Nat) (gap : Gap) {rest : List Char}
    (ends : gap.comment?.isSome → ∀ next ∈ rest.head?, next = '\n') :
    scan index line 0 (gap.characters ++ rest) =
      scan (index + gap.characters.length) line 0 rest := by
  rcases gap with ⟨spaces, _ | comment⟩
  · simp only [Gap.characters, Option.elim_none, List.append_nil, List.length_replicate]
    exact scan_spaces index line spaces rest
  · simp only [Gap.characters, Option.elim_some, List.append_assoc, List.length_append,
      List.length_replicate, List.length_cons]
    rw [scan_spaces, scan_comment _ _ comment (ends rfl)]
    congr 1
    omega

/-- A lexeme is found before a gap, and the scan goes on after it. -/
theorem scan_lexeme (index line : Nat) {lexeme : Lexeme} (legal : lexeme.IsLegal)
    {rest : List Char} (stops : Stops rest) :
    scan index line 0 (lexeme.text.toList ++ rest) =
      (scan (index + lexeme.text.toList.length)
          (if lexeme.kind = .newline then line + 1 else line) 0 rest).map
        (⟨lexeme.kind, lexeme.text, { index, line }⟩ :: ·) := by
  obtain ⟨first, others, text, notSpace, notComment, found⟩ := legal.isFound
  have foundHere := lexeme?_append_of_stops stops (found [])
  have sameText : String.ofList (first :: others) = lexeme.text := by
    rw [← text, String.ofList_toList]
  rw [text, List.cons_append, scan, if_neg notSpace, if_neg notComment]
  simp only [foundHere, List.take_left, sameText]
  rw [scan_pending, List.length_cons, Nat.add_assoc, Nat.add_comm 1]

theorem stops_characters_append {gap : Gap} {rest : List Char} (space : 0 < gap.spaces) :
    Stops (gap.characters ++ rest) := by
  obtain ⟨spaces, isSucc⟩ := Nat.exists_eq_succ_of_ne_zero (Nat.ne_of_gt space)
  intro next isNext
  rw [Gap.characters, isSucc, List.replicate_succ] at isNext
  exact .inl (Option.some.inj isNext).symm

theorem stops_characters (gap : Gap) : Stops gap.characters := by
  rcases gap with ⟨_ | spaces, _ | comment⟩
  · nofun
  · exact fun next isNext => .inr (Option.some.inj isNext).symm
  · exact fun next isNext => .inl (Option.some.inj isNext).symm
  · exact fun next isNext => .inl (Option.some.inj isNext).symm

/-- The scan of pieces that are written after others finds their tokens. -/
theorem scan_pieces (before : List Piece) {pieces : List Piece} (ending : Gap)
    (separated : ∀ piece ∈ pieces.tail, 0 < piece.gap.spaces) :
    scan (Piece.allCharacters before).length (1 + Piece.newlines before) 0
        (Piece.allCharacters pieces ++ ending.characters) =
      .ok (Piece.tokensAfter before pieces) := by
  induction pieces generalizing before with
  | nil =>
      have skipped : scan (Piece.allCharacters before).length (1 + Piece.newlines before) 0
          (ending.characters ++ []) = .ok [] := scan_gap _ _ ending fun _ => nofun
      rw [List.append_nil] at skipped
      exact skipped
  | cons piece pieces ih =>
      have characters : Piece.allCharacters (piece :: pieces) ++ ending.characters =
          piece.gap.characters ++ (piece.lexeme.text.toList ++
            (Piece.allCharacters pieces ++ ending.characters)) := by
        simp [Piece.allCharacters, Piece.characters]
      have ends : piece.gap.comment?.isSome → ∀ next ∈ (piece.lexeme.text.toList ++
          (Piece.allCharacters pieces ++ ending.characters)).head?, next = '\n' := by
        intro hasComment next isNext
        rw [piece.legal.text_of_newline (piece.ends hasComment)] at isNext
        exact (Option.some.inj isNext).symm
      have stops : Stops (Piece.allCharacters pieces ++ ending.characters) := by
        cases pieces with
        | nil => exact stops_characters ending
        | cons next later =>
            have space := separated next List.mem_cons_self
            simp only [Piece.allCharacters, List.flatMap_cons, Piece.characters, List.append_assoc]
            exact stops_characters_append space
      have index : (Piece.allCharacters (before ++ [piece])).length =
          (Piece.allCharacters before).length + piece.gap.characters.length +
            piece.lexeme.text.toList.length := by
        simp [Piece.allCharacters, Piece.characters, Nat.add_assoc]
      have line : 1 + Piece.newlines (before ++ [piece]) =
          if piece.lexeme.kind = .newline then 1 + Piece.newlines before + 1
          else 1 + Piece.newlines before := by
        by_cases isNewline : piece.lexeme.kind = .newline <;>
          simp [Piece.newlines, isNewline, Nat.add_assoc]
      have later := ih (before ++ [piece]) fun next member =>
        separated next (List.mem_of_mem_tail member)
      rw [index, line] at later
      rw [characters, scan_gap _ _ _ ends, scan_lexeme _ _ piece.legal stops, later]
      rfl

end Lexer

/-- The lexer finds the lexemes of a layout, in order, each at the place where it has been
written and on the line after as many newlines as stand before it. -/
theorem tokenize_layout (layout : Layout) : tokenize layout.script = .ok layout.tokens := by
  rw [tokenize, Layout.script, String.toList_ofList]
  exact Lexer.scan_pieces [] layout.ending layout.separated

/-- A comment before a newline, a symbol that starts like a keyword, and a quoted `#`. -/
example : ∃ layout : Layout, layout.script = " dot  # x = '\n \"#\" #" ∧
    layout.tokens = [⟨.symbol, "dot", ⟨1, 1⟩⟩, ⟨.newline, "\n", ⟨13, 1⟩⟩,
      ⟨.doubleQuoted, "\"#\"", ⟨15, 2⟩⟩] := by
  have isName : IsName "dot" := ⟨by decide, List.all_eq_true.mp (by decide), by decide⟩
  have isQuoted : Lexeme.IsLegal ⟨.doubleQuoted, String.ofList ('"' :: (['#'] ++ ['"']))⟩ :=
    .doubleQuoted (by decide) (by decide)
  exact
    ⟨{ pieces :=
        [⟨⟨1, none⟩, ⟨.symbol, "dot"⟩, .symbol isName, nofun⟩,
          ⟨⟨2, some ⟨[' ', 'x', ' ', '=', ' ', '\''], by decide⟩⟩, ⟨.newline, "\n"⟩,
            .fixed (.head _), fun _ => rfl⟩,
          ⟨⟨1, none⟩, _, isQuoted, nofun⟩]
       ending := ⟨1, some ⟨[], by decide⟩⟩
       separated := by simp }, by cbv, by cbv⟩

end StackScript
