import StackScript.Token.Lexer
import Mathlib.Data.List.TakeWhile

/-!
# Scripts are cut line by line

No lexeme and no comment goes on after a newline, and none is looked at differently because
there is more text behind one.  So the tokens of two texts with a newline between them are
those of the first text, the newline, and those of the second text, which only stand at another
place (`tokenize_lines`).
-/

namespace StackScript

/-- A token that stands a number of characters further back, and a number of lines lower. -/
def Token.moved (characters lines : Nat) (token : Token) : Token :=
  { token with
    position :=
      { index := token.position.index + characters, line := token.position.line + lines } }

namespace Lexer

theorem takeWhile_append_line {test : Char → Bool} (stops : test '\n' = false)
    (rest more : List Char) :
    (rest ++ '\n' :: more).takeWhile test = rest.takeWhile test := by
  induction rest with
  | nil => simp [stops]
  | cons first others ih =>
      rw [List.cons_append, List.takeWhile_cons, List.takeWhile_cons, ih]

theorem head?_append_line {character : Char} (other : character ≠ '\n')
    (rest more : List Char) :
    (rest ++ '\n' :: more).head? = some character ↔ rest.head? = some character := by
  cases rest with
  | nil => simpa using other.symm
  | cons first others => rfl

theorem closingLength?_append_line {quote : Char} (other : quote ≠ '\n')
    (rest more : List Char) :
    closingLength? quote (rest ++ '\n' :: more) = closingLength? quote rest := by
  have body : (rest ++ '\n' :: more).takeWhile
      (fun character => character ≠ quote && character ≠ '\n') =
        rest.takeWhile fun character => character ≠ quote && character ≠ '\n' :=
    takeWhile_append_line (by simp) rest more
  have within := (List.takeWhile_prefix (l := rest)
    fun character => character ≠ quote && character ≠ '\n').length_le
  simp only [closingLength?, body]
  generalize (rest.takeWhile _).length = length at within
  have same : (rest ++ '\n' :: more)[length]? = some quote ↔ rest[length]? = some quote := by
    rcases Nat.lt_or_eq_of_le within with inside | rfl
    · rw [List.getElem?_append_left inside]
    · simp [other.symm]
  simp only [same]

/-- What stands behind a newline has no effect on the lexeme before it. -/
theorem lexeme?_append_line (first : Char) (rest more : List Char) :
    lexeme? first (rest ++ '\n' :: more) = lexeme? first rest := by
  simp only [lexeme?, takeWhile_append_line (show isWordCharacter '\n' = false by decide),
    takeWhile_append_line (show Text.isDigit '\n' = false by decide),
    closingLength?_append_line (show '\'' ≠ '\n' by decide),
    closingLength?_append_line (show '"' ≠ '\n' by decide),
    head?_append_line (show '=' ≠ '\n' by decide),
    head?_append_line (show '+' ≠ '\n' by decide),
    head?_append_line (show '/' ≠ '\n' by decide)]

/-- The next characters are there and all of them are on the same line. -/
def WithinLine (length : Nat) (rest : List Char) : Prop :=
  length ≤ rest.length ∧ '\n' ∉ rest.take length

theorem withinLine_zero (rest : List Char) : WithinLine 0 rest :=
  ⟨Nat.zero_le _, by simp⟩

theorem withinLine_one {rest : List Char} {character : Char} (isFirst : rest.head? = some character)
    (other : character ≠ '\n') : WithinLine 1 rest := by
  cases rest with
  | nil => cases isFirst
  | cons first others =>
      cases isFirst
      exact ⟨by simp, by simpa using other.symm⟩

theorem withinLine_takeWhile {test : Char → Bool} (stops : test '\n' = false)
    (rest : List Char) : WithinLine (rest.takeWhile test).length rest := by
  have isPrefix := List.takeWhile_prefix (l := rest) test
  refine ⟨isPrefix.length_le, fun member => ?_⟩
  rw [← List.prefix_iff_eq_take.mp isPrefix] at member
  have passes := List.all_eq_true.mp List.all_takeWhile '\n' member
  rw [stops] at passes
  cases passes

theorem withinLine_closing {quote : Char} (other : quote ≠ '\n') {rest : List Char}
    {length : Nat} (closes : closingLength? quote rest = some length) :
    WithinLine length rest := by
  simp only [closingLength?] at closes
  split at closes
  · rename_i isQuote
    cases closes
    obtain ⟨inside, same⟩ := List.getElem?_eq_some_iff.mp isQuote
    have body : WithinLine
        (rest.takeWhile fun character => character ≠ quote && character ≠ '\n').length rest :=
      withinLine_takeWhile (by simp) rest
    refine ⟨inside, fun member => ?_⟩
    rw [List.take_add_one, isQuote, List.mem_append] at member
    rcases member with inBody | isLast
    · exact body.2 inBody
    · exact other.symm (by simpa using isLast)
  · cases closes

/-- A lexeme is a newline or does not contain one. -/
theorem withinLine_of_lexeme? {first : Char} {rest : List Char} {kind : Kind} {length : Nat}
    (found : lexeme? first rest = some (kind, length)) :
    WithinLine length rest ∧ (kind = .newline ↔ first = '\n') := by
  simp only [lexeme?] at found
  split at found
  · rename_i isWord
    cases found
    refine ⟨withinLine_takeWhile (by decide) rest, ?_⟩
    have notNewline : first ≠ '\n' := by
      rintro rfl
      exact absurd isWord (by decide)
    simp [wordKind, ite_eq_iff, notNewline]
  · split at found
    · rename_i isDigit
      cases found
      refine ⟨withinLine_takeWhile (by decide) rest, ?_⟩
      have notNewline : first ≠ '\n' := by
        rintro rfl
        exact absurd isDigit (by decide)
      simp [notNewline]
    · -- Every other lexeme has one character, or two, or it ends with a quote.
      split at found <;>
        simp only [Option.map_eq_some_iff, Option.some.injEq, Prod.mk.injEq, ite_eq_iff,
          reduceCtorEq] at found <;>
        grind [withinLine_zero, → withinLine_one, → withinLine_closing]

/-! ## Texts in lines -/

def lineBreak (index line : Nat) : Token :=
  { kind := .newline, text := "\n", position := { index, line } }

/-- A newline between two texts ends the tokens of the first and starts those of the second,
on a line of their own. -/
theorem scan_append_line (index line : Nat) {pending : Nat} {characters : List Char}
    (within : WithinLine pending characters) (more : List Char) :
    scan index line pending (characters ++ '\n' :: more) =
      (scan index line pending characters).bind fun tokens =>
        (scan (index + characters.length + 1) (line + characters.count '\n' + 1) 0 more).map
          fun others => tokens ++
            lineBreak (index + characters.length) (line + characters.count '\n') :: others := by
  induction characters generalizing index line pending with
  | nil =>
      cases Nat.le_zero.mp within.1
      rfl
  | cons first rest ih =>
      have length : index + (first :: rest).length = index + 1 + rest.length := by
        rw [List.length_cons]
        omega
      rw [List.cons_append, length]
      cases pending with
      | succ pending =>
          -- The first character belongs to a lexeme or a comment.
          obtain ⟨fits, inLine⟩ := within
          rw [List.take_succ_cons, List.mem_cons, not_or] at inLine
          rw [List.count_cons_of_ne (Ne.symm inLine.1)]
          exact ih _ _ ⟨Nat.le_of_succ_le_succ fits, inLine.2⟩
      | zero =>
          rw [scan, scan]
          split
          · rename_i isSpace
            rw [isSpace, List.count_cons_of_ne (by decide)]
            exact ih _ _ (withinLine_zero rest)
          split
          · rename_i isComment
            rw [isComment, List.count_cons_of_ne (by decide), commentLength, commentLength,
              takeWhile_append_line (by decide)]
            exact ih _ _ (withinLine_takeWhile (by decide) rest)
          rw [lexeme?_append_line]
          rcases found : lexeme? first rest with _ | ⟨kind, length⟩
          · rfl
          obtain ⟨withinRest, isNewline⟩ := withinLine_of_lexeme? found
          have nextLine : line + (first :: rest).count '\n' =
              (if kind = .newline then line + 1 else line) + rest.count '\n' := by
            simp only [List.count_cons, beq_iff_eq, ← isNewline]
            split <;> omega
          rw [nextLine]
          simp only [List.take_append_of_le_length withinRest.1, ih _ _ withinRest]
          generalize scan (index + 1) _ length rest = scannedRest,
            scan (index + 1 + rest.length + 1) _ 0 more = scannedMore
          cases scannedRest with
          | error error => rfl
          | ok tokens => cases scannedMore <;> rfl

/-- Where a text stands matters only to the places of its tokens, and to the line of the
character at which it is refused. -/
theorem scan_moved (characters lines index line pending : Nat) (text : List Char) :
    match scan index line pending text with
    | .ok tokens =>
        scan (index + characters) (line + lines) pending text =
          .ok (tokens.map (Token.moved characters lines))
    | .error error =>
        ∃ character refused, error = .unexpectedCharacter character refused ∧
          scan (index + characters) (line + lines) pending text =
            .error (.unexpectedCharacter character (refused + lines)) := by
  induction text generalizing index line pending with
  | nil => rfl
  | cons first rest ih =>
      have next : index + characters + 1 = index + 1 + characters := by omega
      cases pending with
      | succ pending =>
          rw [scan, scan, next]
          exact ih (index + 1) line pending
      | zero =>
          rw [scan, scan, next]
          by_cases isSpace : first = ' '
          · rw [if_pos isSpace, if_pos isSpace]
            exact ih (index + 1) line 0
          rw [if_neg isSpace, if_neg isSpace]
          by_cases isComment : first = '#'
          · rw [if_pos isComment, if_pos isComment]
            exact ih (index + 1) line (commentLength rest)
          rw [if_neg isComment, if_neg isComment]
          rcases found : lexeme? first rest with _ | ⟨kind, length⟩
          · exact ⟨first, line, rfl, rfl⟩
          have nextLine : (if kind = .newline then line + lines + 1 else line + lines) =
              (if kind = .newline then line + 1 else line) + lines := by
            split <;> omega
          have later := ih (index + 1) (if kind = .newline then line + 1 else line) length
          simp only [nextLine]
          cases scanned : scan (index + 1) (if kind = .newline then line + 1 else line) length
            rest with
          | error error =>
              simp only [scanned] at later
              obtain ⟨character, refused, isError, movedBack⟩ := later
              exact ⟨character, refused, isError, by rw [movedBack]; rfl⟩
          | ok tokens =>
              simp only [scanned] at later
              rw [later]
              simp [Except.map, Token.moved]

end Lexer

/-- The tokens of two texts with a newline between them are the tokens of the first text, the
newline, and the tokens of the second text, moved behind them.  If one of the texts is refused,
the whole is refused at the same character, the first text being looked at first. -/
theorem tokenize_lines (first second : String) :
    match tokenize first, tokenize second with
    | .ok tokens, .ok others =>
        tokenize (first ++ "\n" ++ second) =
          .ok (tokens ++
            { kind := .newline
              text := "\n"
              position := { index := first.length, line := 1 + first.toList.count '\n' } } ::
            others.map (Token.moved (first.length + 1) (first.toList.count '\n' + 1)))
    | .error error, _ => tokenize (first ++ "\n" ++ second) = .error error
    | .ok _, .error error =>
        ∃ character line, error = .unexpectedCharacter character line ∧
          tokenize (first ++ "\n" ++ second) =
            .error (.unexpectedCharacter character (line + (first.toList.count '\n' + 1))) := by
  have joined : tokenize (first ++ "\n" ++ second) =
      (tokenize first).bind fun tokens =>
        (Lexer.scan (0 + (first.length + 1)) (1 + (first.toList.count '\n' + 1)) 0
            second.toList).map
          fun others => tokens ++
            Lexer.lineBreak first.length (1 + first.toList.count '\n') :: others := by
    have characters : (first ++ "\n" ++ second).toList = first.toList ++ '\n' :: second.toList := by
      simp
    have scanned :=
      Lexer.scan_append_line 0 1 (Lexer.withinLine_zero first.toList) second.toList
    rw [String.length_toList, Nat.zero_add] at scanned
    rw [tokenize, characters, scanned, Nat.zero_add, Nat.add_assoc]
    rfl
  have moved := Lexer.scan_moved (first.length + 1) (first.toList.count '\n' + 1) 0 1 0
    second.toList
  rw [← tokenize] at moved
  rw [joined]
  cases tokenize first with
  | error error => rfl
  | ok tokens =>
      cases scanned : tokenize second with
      | error error =>
          simp only [scanned] at moved
          obtain ⟨character, line, isError, movedBack⟩ := moved
          exact ⟨character, line, isError, by rw [movedBack]; rfl⟩
      | ok others =>
          simp only [scanned] at moved
          rw [moved]
          simp [Except.bind, Except.map, Lexer.lineBreak]

end StackScript
