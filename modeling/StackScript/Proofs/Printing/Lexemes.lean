import StackScript.Proofs.Grammar.Names
import StackScript.Proofs.Text.Numerals
import StackScript.Surface.Basic
import Mathlib.Data.List.Basic
import Mathlib.Data.List.TakeWhile

/-!
# Writing lexemes

A lexeme is a token without its place.  Lexemes are written with a space after each of them,
and then the lexer finds them again (`tokenize_render`).  Names, numbers, quoted texts and the
operators of each level are shown to be lexemes that the lexer can find.
-/

namespace StackScript

/-- The kind of a token and its text. -/
structure Lexeme where
  kind : Kind
  text : String
  deriving DecidableEq, Repr

/-- What remains of a token when its place is forgotten. -/
def Token.lexeme (token : Token) : Lexeme :=
  ⟨token.kind, token.text⟩

/-- The characters of lexemes with a space after each. -/
def renderedCharacters (lexemes : List Lexeme) : List Char :=
  lexemes.flatMap fun lexeme => lexeme.text.toList ++ [' ']

def render (lexemes : List Lexeme) : String :=
  String.ofList (renderedCharacters lexemes)

/-- A lexeme that the lexer finds where it is written before a space. -/
def Lexeme.IsFound (lexeme : Lexeme) : Prop :=
  ∃ first others, lexeme.text.toList = first :: others ∧ first ≠ ' ' ∧ first ≠ '#' ∧
    ∀ rest, Lexer.lexeme? first (others ++ ' ' :: rest) = some (lexeme.kind, others.length)

namespace Lexer

/-- The characters that belong to a lexeme are skipped. -/
theorem scan_pending (index line : Nat) (pending rest : List Char) :
    scan index line pending.length (pending ++ rest) =
      scan (index + pending.length) line 0 rest := by
  induction pending generalizing index with
  | nil => rfl
  | cons character others ih =>
      rw [List.cons_append, List.length_cons, scan, ih]
      congr 1
      omega

theorem scan_renderedCharacters {lexemes : List Lexeme}
    (found : ∀ lexeme ∈ lexemes, lexeme.IsFound) (index line : Nat) :
    ∃ tokens, scan index line 0 (renderedCharacters lexemes) = .ok tokens ∧
      tokens.map Token.lexeme = lexemes := by
  induction lexemes generalizing index line with
  | nil => exact ⟨[], rfl, rfl⟩
  | cons lexeme rest ih =>
      have foundBoth := List.forall_mem_cons.mp found
      rcases foundBoth.1 with ⟨first, others, text, notSpace, notComment, isLexeme⟩
      have characters : renderedCharacters (lexeme :: rest) =
          first :: (others ++ ' ' :: renderedCharacters rest) := by
        simp [renderedCharacters, text]
      have sameText : String.ofList (first :: others) = lexeme.text := by
        rw [← text, String.ofList_toList]
      rcases ih foundBoth.2 (index + 1 + others.length + 1)
        (if lexeme.kind = .newline then line + 1 else line) with ⟨tokens, scanned, same⟩
      refine ⟨⟨lexeme.kind, lexeme.text, index, line⟩ :: tokens, ?_, ?_⟩
      · rw [characters, scan, if_neg notSpace, if_neg notComment]
        simp only [isLexeme, List.take_left, sameText]
        rw [scan_pending, scan, if_pos rfl, scanned]
        rfl
      · rw [List.map_cons, same]
        rfl

end Lexer

/-- The lexer finds the lexemes that have been written. -/
theorem tokenize_render {lexemes : List Lexeme} (found : ∀ lexeme ∈ lexemes, lexeme.IsFound) :
    ∃ tokens, tokenize (render lexemes) = .ok tokens ∧ tokens.map Token.lexeme = lexemes := by
  rw [tokenize, render, String.toList_ofList]
  exact Lexer.scan_renderedCharacters found 0 1

namespace Lexeme

/-- A word is found, as a keyword or as a symbol. -/
theorem isFound_word {text : String} (notEmpty : text.toList ≠ [])
    (characters : ∀ character ∈ text.toList, Lexer.isWordCharacter character = true) :
    IsFound ⟨Lexer.wordKind text.toList, text⟩ := by
  cases letters : text.toList with
  | nil => exact absurd letters notEmpty
  | cons first others =>
      rw [letters] at characters
      have both := List.forall_mem_cons.mp characters
      refine ⟨first, others, letters, ?_, ?_, fun rest => ?_⟩
      · rintro rfl
        exact absurd both.1 (by decide)
      · rintro rfl
        exact absurd both.1 (by decide)
      · have stops : (' ' :: rest).takeWhile Lexer.isWordCharacter = [] := rfl
        have tail : (others ++ ' ' :: rest).takeWhile Lexer.isWordCharacter = others := by
          rw [List.takeWhile_append_of_pos both.2, stops, List.append_nil]
        simp only [Lexer.lexeme?, if_pos both.1, tail]

theorem isFound_symbol {name : String} (isName : IsName name) : IsFound ⟨.symbol, name⟩ := by
  have kind : Lexer.wordKind name.toList = .symbol := by
    rw [Lexer.wordKind, String.ofList_toList, if_neg]
    simpa using isName.not_keyword
  rw [← kind]
  exact isFound_word isName.ne_nil isName.characters

theorem isFound_keyword {word : String} (isKeyword : word ∈ Lexer.keywords) :
    IsFound ⟨.keyword, word⟩ := by
  have facts : ∀ word ∈ Lexer.keywords, Lexer.wordKind word.toList = .keyword ∧
      word.toList ≠ [] ∧ word.toList.all Lexer.isWordCharacter = true := by
    decide
  rcases facts word isKeyword with ⟨kind, notEmpty, characters⟩
  rw [← kind]
  exact isFound_word notEmpty (List.all_eq_true.mp characters)

end Lexeme

namespace Text

theorem digitValue?_of_isDigit {character : Char} (isDigit : character.isDigit = true) :
    digitValue? character = some (character.toNat - '0'.toNat) := by
  have range := Char.isDigit_iff_toNat.mp isDigit
  have found : digitZeros.find? (fun start =>
      start ≤ character.toNat && character.toNat < start + 10) = some 0x30 := by
    apply List.find?_cons_of_pos
    simp only [Bool.and_eq_true, decide_eq_true_eq]
    exact ⟨range.1, Nat.lt_succ_of_le range.2⟩
  rw [digitValue?, found]
  rfl

/-- The decimal text of a number denotes it. -/
theorem readNumeral_repr (number : Nat) (short : number.repr.length ≤ digitLimit) :
    readNumeral number.repr = .ok number := by
  have values : ∀ character ∈ Nat.toDigits 10 number,
      digitValue? character = some (character.toNat - '0'.toNat) := fun character member =>
    digitValue?_of_isDigit (Nat.isDigit_of_mem_toDigits (by decide) (by decide) member)
  have areDigits : ∀ character ∈ Nat.toDigits 10 number, isDigit character = true := by
    intro character member
    rw [isDigit, values character member]
    rfl
  have value : valueOfDigits 0 ((Nat.toDigits 10 number).filterMap digitValue?) = number := by
    rw [List.filterMap_congr values, valueOfDigits]
    have joined := Nat.ofDigitChars_toDigits (b := 10) (n := number) (by decide) (by decide)
    rw [Nat.ofDigitChars] at joined
    simpa [List.filterMap_eq_map', List.foldl_map] using joined
  rw [← String.length_toList, Nat.toList_repr] at short
  rw [readNumeral_of_isDigit areDigits Nat.toList_repr Nat.toDigits_ne_nil,
    readUnsigned_of_isDigit areDigits Nat.toDigits_ne_nil, if_neg (Nat.not_lt.mpr short), value]
  rfl

end Text

/-- The digits of every writing system lie outside of the letters and the underscore. -/
theorem Lexer.not_isWordCharacter_of_isDigit {character : Char}
    (isDigit : Text.isDigit character = true) : isWordCharacter character = false := by
  have apart : ∀ start ∈ Text.digitZeros, start + 10 ≤ '_'.toNat ∨ 'z'.toNat < start := by decide
  obtain ⟨value, isValue⟩ := Option.isSome_iff_exists.mp isDigit
  obtain ⟨start, found, _⟩ := Option.map_eq_some_iff.mp isValue
  have inRun := List.find?_some found
  simp only [Bool.and_eq_true, decide_eq_true_eq] at inRun
  have outside := apart start (List.mem_of_find?_eq_some found)
  simp only [isWordCharacter, Bool.or_eq_false_iff, Bool.and_eq_false_iff,
    decide_eq_false_iff_not]
  refine ⟨?_, ?_⟩
  · by_contra inLetters
    simp only [not_or, not_not] at inLetters
    have lower : 'a'.toNat ≤ character.toNat := inLetters.1
    have upper : character.toNat ≤ 'z'.toNat := inLetters.2
    have order : '_'.toNat < 'a'.toNat := by decide
    omega
  · rintro rfl
    have order : '_'.toNat < 'z'.toNat := by decide
    omega

namespace Lexeme

/-- Digits are found as a number. -/
theorem isFound_digits {text : String} (notEmpty : text.toList ≠ [])
    (areDigits : ∀ character ∈ text.toList, Text.isDigit character = true) :
    IsFound ⟨.integer, text⟩ := by
  cases digits : text.toList with
  | nil => exact absurd digits notEmpty
  | cons first others =>
      rw [digits] at areDigits
      have both := List.forall_mem_cons.mp areDigits
      have notWord := Lexer.not_isWordCharacter_of_isDigit both.1
      refine ⟨first, others, digits, ?_, ?_, fun rest => ?_⟩
      · rintro rfl
        exact absurd both.1 (by decide)
      · rintro rfl
        exact absurd both.1 (by decide)
      · have tail : (others ++ ' ' :: rest).takeWhile Text.isDigit = others := by
          rw [List.takeWhile_append_of_pos both.2, List.takeWhile_cons_of_neg (by decide),
            List.append_nil]
        simp only [Lexer.lexeme?, notWord, both.1, tail]
        rfl

/-- A number that is not negative. -/
def numeral (value : Int) : Lexeme :=
  ⟨.integer, toString value⟩

theorem isFound_numeral {value : Int} (notNegative : 0 ≤ value) : IsFound (numeral value) := by
  rcases Int.eq_ofNat_of_zero_le notNegative with ⟨number, rfl⟩
  have characters : (toString (number : Int)).toList = Nat.toDigits 10 number :=
    Nat.toList_repr
  apply isFound_digits
  · rw [characters]
    exact Nat.toDigits_ne_nil
  · intro character member
    rw [characters] at member
    have isDigit := Nat.isDigit_of_mem_toDigits (by decide) (by decide) member
    rw [Text.isDigit, Text.digitValue?_of_isDigit isDigit]
    rfl

/-- A text in double quotes, or in single ones if it contains a double quote. -/
def quoted (content : String) : Lexeme :=
  if '"' ∈ content.toList then ⟨.singleQuoted, String.ofList ('\'' :: (content.toList ++ ['\'']))⟩
  else ⟨.doubleQuoted, String.ofList ('"' :: (content.toList ++ ['"']))⟩

theorem closingLength?_append {quote : Char} {content : List Char} (notQuote : quote ∉ content)
    (oneLine : '\n' ∉ content) (rest : List Char) :
    Lexer.closingLength? quote (content ++ quote :: rest) = some (content.length + 1) := by
  have inside : ∀ character ∈ content, (character ≠ quote && character ≠ '\n') = true := by
    intro character member
    have notHere : character ≠ quote := fun same => notQuote (same ▸ member)
    have notBreak : character ≠ '\n' := fun same => oneLine (same ▸ member)
    simp [notHere, notBreak]
  have body : (content ++ quote :: rest).takeWhile
      (fun character => character ≠ quote && character ≠ '\n') = content := by
    rw [List.takeWhile_append_of_pos inside, List.takeWhile_cons_of_neg (by simp),
      List.append_nil]
  simp only [Lexer.closingLength?, body]
  simp

/-- Characters between two quotes are found if the lexer looks for the second one. -/
theorem isFound_enclosed {kind : Kind} {quote : Char} {content : List Char}
    (notSpace : quote ≠ ' ') (notComment : quote ≠ '#')
    (starts : ∀ rest, Lexer.lexeme? quote rest = (Lexer.closingLength? quote rest).map (kind, ·))
    (notQuote : quote ∉ content) (oneLine : '\n' ∉ content) :
    IsFound ⟨kind, String.ofList (quote :: (content ++ [quote]))⟩ := by
  refine ⟨quote, content ++ [quote], String.toList_ofList, notSpace, notComment, ?_⟩
  intro rest
  rw [starts, List.append_assoc, List.singleton_append, List.length_append,
    closingLength?_append notQuote oneLine]
  rfl

theorem isFound_quoted {content : String} (oneLine : '\n' ∉ content.toList)
    (oneQuote : ¬('"' ∈ content.toList ∧ '\'' ∈ content.toList)) : IsFound (quoted content) := by
  rw [quoted]
  split
  · rename_i hasDouble
    have noSingle : '\'' ∉ content.toList := fun hasSingle => oneQuote ⟨hasDouble, hasSingle⟩
    exact isFound_enclosed (by decide) (by decide) (fun _ => rfl) noSingle oneLine
  · rename_i noDouble
    exact isFound_enclosed (by decide) (by decide) (fun _ => rfl) noDouble oneLine

theorem unquoted_quoted (content : String) : Grammar.unquoted (quoted content).text = content := by
  rw [quoted]
  split <;> simp [Grammar.unquoted]

end Lexeme

namespace Surface.Level

def kind : Level → Kind
  | access => .period
  | multiplication => .multiplication
  | addition => .addition
  | comparison => .comparison
  | conjunction | disjunction => .symbol

def operators : Level → List String
  | access => ["."]
  | multiplication => ["*", "//", "%"]
  | addition => ["+", "-", "++"]
  | comparison => ["<", ">", "<=", ">=", "==", "!="]
  | conjunction => ["and"]
  | disjunction => ["or"]

end Surface.Level

theorem Lexeme.isFound_operator {level : Surface.Level} {operator : String}
    (isOperator : operator ∈ level.operators) : IsFound ⟨level.kind, operator⟩ := by
  cases level with
  | conjunction | disjunction =>
      rw [List.mem_singleton.mp isOperator]
      exact isFound_symbol ⟨by decide, List.all_eq_true.mp (by decide), by decide⟩
  | access | multiplication | addition | comparison =>
      simp only [Surface.Level.operators, List.mem_cons, List.not_mem_nil, or_false] at isOperator
      rcases isOperator with rfl | rfl | rfl | rfl | rfl | rfl
      all_goals exact ⟨_, _, rfl, by decide, by decide, fun _ => rfl⟩

end StackScript
