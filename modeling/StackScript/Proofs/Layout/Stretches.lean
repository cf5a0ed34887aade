import StackScript.Proofs.Lines.Scanning

/-!
# Nothing of a script is lost

The tokens of a script are pieces of it, one after another, and what stands before, between and
after them is blank: spaces, and comments up to the end of their line (`tokenize_lossless`).
-/

namespace StackScript

/-- Characters before others that consist of spaces and whole comments.  A comment goes on up to
a newline or to the end of the script. -/
inductive IsBlank (later : List Char) : List Char → Prop where
  | nil : IsBlank later []
  | space {rest : List Char} (blank : IsBlank later rest) : IsBlank later (' ' :: rest)
  | comment {content rest : List Char} (oneLine : '\n' ∉ content)
      (ends : ∀ next ∈ (rest ++ later).head?, next = '\n') (blank : IsBlank later rest) :
      IsBlank later ('#' :: content ++ rest)

/-- Characters after others are cut into tokens, with blanks before, between and after them. -/
inductive Cut : List Char → List Char → List Token → Prop where
  | nil {before rest : List Char} (blank : IsBlank [] rest) : Cut before rest []
  | cons {before blank rest : List Char} {token : Token} {tokens : List Token}
      (isBlank : IsBlank (token.text.toList ++ rest) blank)
      (notEmpty : token.text.toList ≠ [])
      (index : token.position.index = (before ++ blank).length)
      (line : token.position.line = 1 + ((before ++ blank).count '\n' : Nat))
      (later : Cut (before ++ blank ++ token.text.toList) rest tokens) :
      Cut before (blank ++ (token.text.toList ++ rest)) (token :: tokens)

/-- Characters with which each blank after them is blank belong to the first blank of a cut. -/
theorem Cut.skip {before skipped rest : List Char} {tokens : List Token}
    (lengthens : ∀ {blank later}, blank ++ later = rest → IsBlank later blank →
      IsBlank later (skipped ++ blank))
    (cut : Cut (before ++ skipped) rest tokens) : Cut before (skipped ++ rest) tokens := by
  cases cut with
  | nil blank => exact .nil (lengthens (List.append_nil rest) blank)
  | cons isBlank notEmpty index line later =>
      rw [← List.append_assoc]
      rw [List.append_assoc before] at index line later
      exact .cons (lengthens rfl isBlank) notEmpty index line later

/-- A token without a blank before it. -/
theorem Cut.lexeme {before text rest : List Char} {token : Token} {tokens : List Token}
    (isText : token.text.toList = text) (notEmpty : text ≠ [])
    (index : token.position.index = before.length)
    (line : token.position.line = 1 + (before.count '\n' : Nat))
    (later : Cut (before ++ text) rest tokens) : Cut before (text ++ rest) (token :: tokens) := by
  subst isText
  rw [← List.append_nil before] at index line later
  exact .cons .nil notEmpty index line later

namespace Lexer

/-- A comment ends before a newline or at the end. -/
theorem head?_drop_commentLength (rest : List Char) :
    ∀ next ∈ (rest.drop (commentLength rest)).head?, next = '\n' := by
  let inComment := fun character : Char => decide (character ≠ '\n')
  have split : rest.takeWhile inComment ++ rest.dropWhile inComment = rest :=
    List.takeWhile_append_dropWhile
  have dropped := congrArg (List.drop (commentLength rest)) split
  rw [commentLength, List.drop_left] at dropped
  intro next isNext
  rw [commentLength, ← dropped] at isNext
  have stops := List.head?_dropWhile_not inComment rest
  rw [Option.mem_def.mp isNext] at stops
  simpa [inComment] using stops

/-- What the scan finds in characters after others is a cut of them. -/
theorem cut_of_scan (before : List Char) {pending : Nat} {characters : List Char}
    {tokens : List Token} (within : WithinLine pending characters)
    (scanned : scan before.length (1 + before.count '\n') pending characters = .ok tokens) :
    Cut (before ++ characters.take pending) (characters.drop pending) tokens := by
  induction characters generalizing before pending tokens with
  | nil =>
      cases scanned
      rw [List.drop_nil]
      exact .nil .nil
  | cons first rest ih =>
      have step : ∀ {pending line found}, WithinLine pending rest →
          line = 1 + (before ++ [first]).count '\n' →
          scan (before.length + 1) line pending rest = .ok found →
            Cut (before ++ first :: rest.take pending) (rest.drop pending) found := by
        intro pending line found withinRest isLine scannedRest
        have cut := ih (before ++ [first]) withinRest
          (by rwa [List.length_append, List.length_singleton, ← isLine])
        rwa [List.append_assoc] at cut
      have sameLine : first ≠ '\n' →
          1 + before.count '\n' = 1 + (before ++ [first]).count '\n' := by
        intro other
        simp [other]
      cases pending with
      | succ pending =>
          -- The first character belongs to a lexeme or a comment.
          obtain ⟨fits, inLine⟩ := within
          rw [List.take_succ_cons, List.mem_cons, not_or] at inLine
          exact step ⟨Nat.le_of_succ_le_succ fits, inLine.2⟩ (sameLine (Ne.symm inLine.1)) scanned
      | zero =>
          rw [List.take_zero, List.append_nil, List.drop_zero]
          rw [scan] at scanned
          split at scanned
          · rename_i isSpace
            subst isSpace
            have cut := step (withinLine_zero rest) (sameLine (by decide)) scanned
            exact cut.skip fun _ => .space
          split at scanned
          · rename_i isComment
            subst isComment
            have inLine : WithinLine (commentLength rest) rest :=
              withinLine_takeWhile (by decide) rest
            have cut := step inLine (sameLine (by decide)) scanned
            have whole : '#' :: rest =
                ('#' :: rest.take (commentLength rest)) ++ rest.drop (commentLength rest) := by
              rw [List.cons_append, List.take_append_drop]
            rw [whole]
            refine cut.skip fun same blank => .comment inLine.2 ?_ blank
            rw [same]
            exact head?_drop_commentLength rest
          rcases found : lexeme? first rest with _ | ⟨kind, length⟩
          · rw [found] at scanned
            cases scanned
          obtain ⟨inLine, isNewline⟩ := withinLine_of_lexeme? found
          have nextLine : (if kind = .newline then 1 + before.count '\n' + 1
              else 1 + before.count '\n') = 1 + (before ++ [first]).count '\n' := by
            by_cases atEnd : first = '\n' <;> simp [isNewline, atEnd, Nat.add_assoc]
          simp only [found] at scanned
          rcases later : scan (before.length + 1) (if kind = .newline then
              1 + before.count '\n' + 1 else 1 + before.count '\n') length rest with error | others
          · rw [later] at scanned
            cases scanned
          · rw [later] at scanned
            cases scanned
            have cut := step inLine nextLine later
            have whole : first :: rest = (first :: rest.take length) ++ rest.drop length := by
              rw [List.cons_append, List.take_append_drop]
            rw [whole]
            exact .lexeme String.toList_ofList (List.cons_ne_nil _ _) rfl (Int.natCast_add 1 _) cut

end Lexer

/-! ## Places -/

namespace Token

def start (token : Token) : Nat :=
  token.position.index.toNat

def stop (token : Token) : Nat :=
  token.start + token.text.toList.length

/-- A token is a piece of a text, and it is on the line after as many newlines as stand before
it. -/
structure StandsIn (characters : List Char) (token : Token) : Prop where
  index : token.position.index = token.start
  line : token.position.line = 1 + ((characters.take token.start).count '\n' : Nat)
  notEmpty : token.text.toList ≠ []
  slice : (characters.drop token.start).take token.text.toList.length = token.text.toList

end Token

/-- The ends of the stretches before, between and after tokens, from a place on. -/
def stretches (start : Nat) (characters : List Char) (tokens : List Token) : List (Nat × Nat) :=
  (start :: tokens.map Token.stop).zip (tokens.map Token.start ++ [characters.length])

theorem stretches_cons (start : Nat) (characters : List Char) (token : Token)
    (tokens : List Token) :
    stretches start characters (token :: tokens) =
      (start, token.start) :: stretches token.stop characters tokens := rfl

namespace Cut

variable {before rest : List Char} {tokens : List Token}

theorem standsIn (cut : Cut before rest tokens) :
    ∀ token ∈ tokens, token.StandsIn (before ++ rest) := by
  induction cut with
  | nil _ => nofun
  | @cons before blank rest token tokens _ notEmpty index line later ih =>
      have start : token.start = (before ++ blank).length := by
        rw [Token.start, index, Int.toNat_natCast]
      have whole : before ++ (blank ++ (token.text.toList ++ rest)) =
          (before ++ blank) ++ (token.text.toList ++ rest) := (List.append_assoc ..).symm
      rw [whole]
      refine List.forall_mem_cons.mpr ⟨⟨?_, ?_, notEmpty, ?_⟩, ?_⟩
      · rw [start, index]
      · rw [start, List.take_left, line]
      · rw [start, List.drop_left, List.take_left]
      · rw [← List.append_assoc]
        exact ih

theorem ordered (cut : Cut before rest tokens) :
    (∀ token ∈ tokens, before.length ≤ token.start) ∧
      tokens.Pairwise fun token later => token.stop ≤ later.start := by
  induction cut with
  | nil _ => exact ⟨nofun, .nil⟩
  | @cons before blank rest token tokens _ notEmpty index line later ih =>
      have start : token.start = before.length + blank.length := by
        rw [Token.start, index, Int.toNat_natCast, List.length_append]
      have stop : (before ++ blank ++ token.text.toList).length = token.stop := by
        rw [Token.stop, start, List.length_append, List.length_append]
      rw [stop] at ih
      have first : before.length ≤ token.start := by omega
      have later : ∀ other ∈ tokens, before.length ≤ other.start := by
        intro other member
        have after := ih.1 other member
        rw [Token.stop] at after
        omega
      exact ⟨List.forall_mem_cons.mpr ⟨first, later⟩, .cons ih.1 ih.2⟩

theorem isBlank_of_mem_stretches (cut : Cut before rest tokens) :
    ∀ bounds ∈ stretches before.length (before ++ rest) tokens, bounds.1 ≤ bounds.2 ∧
      IsBlank ((before ++ rest).drop bounds.2)
        (((before ++ rest).take bounds.2).drop bounds.1) := by
  induction cut with
  | @nil before rest blank =>
      intro bounds member
      cases List.mem_singleton.mp member
      refine ⟨by simp, ?_⟩
      rw [List.drop_length, List.take_length, List.drop_left]
      exact blank
  | @cons before blank rest token tokens isBlank notEmpty index line later ih =>
      have start : token.start = (before ++ blank).length := by
        rw [Token.start, index, Int.toNat_natCast]
      have stop : token.stop = (before ++ blank ++ token.text.toList).length := by
        rw [Token.stop, start, ← List.length_append]
      have whole : before ++ (blank ++ (token.text.toList ++ rest)) =
          before ++ blank ++ token.text.toList ++ rest := by
        simp only [List.append_assoc]
      rw [whole, stretches_cons, stop]
      refine List.forall_mem_cons.mpr ⟨⟨by simp [start], ?_⟩, ih⟩
      simp only [start, List.append_assoc (before ++ blank), List.drop_left, List.take_left]
      exact isBlank

end Cut

/-- The tokens of a script are pieces of it, one after another, each on its line, and the
stretches before, between and after them are blank. -/
theorem tokenize_lossless {script : String} {tokens : List Token}
    (scanned : tokenize script = .ok tokens) :
    (∀ token ∈ tokens, token.StandsIn script.toList) ∧
      (tokens.Pairwise fun token later => token.stop ≤ later.start) ∧
      ∀ bounds ∈ stretches 0 script.toList tokens, bounds.1 ≤ bounds.2 ∧
        IsBlank (script.toList.drop bounds.2) ((script.toList.take bounds.2).drop bounds.1) := by
  have cut : Cut [] script.toList tokens :=
    Lexer.cut_of_scan [] (Lexer.withinLine_zero _) scanned
  exact ⟨cut.standsIn, cut.ordered.2, cut.isBlank_of_mem_stretches⟩

/-- A comment with a quote in it, a quoted text with a `#` in it, and a comment at the end. -/
theorem quotedHash_lossless :
    ∃ tokens, tokenize "a # 'b\n\"#\" #c" = .ok tokens ∧
      tokens.map Token.start = [0, 6, 7] ∧ tokens.map Token.stop = [1, 7, 10] ∧
      (∀ token ∈ tokens, token.StandsIn "a # 'b\n\"#\" #c".toList) ∧
      IsBlank "\n\"#\" #c".toList " # 'b".toList ∧ IsBlank [] " #c".toList := by
  obtain ⟨tokens, scanned, starts, stops⟩ : ∃ tokens,
      tokenize "a # 'b\n\"#\" #c" = .ok tokens ∧ tokens.map Token.start = [0, 6, 7] ∧
        tokens.map Token.stop = [1, 7, 10] := ⟨_, rfl, rfl, rfl⟩
  have lossless := tokenize_lossless scanned
  have bounds : stretches 0 "a # 'b\n\"#\" #c".toList tokens =
      [(0, 0), (1, 6), (7, 7), (10, 13)] := by
    rw [stretches, starts, stops]
    rfl
  rw [bounds] at lossless
  exact ⟨tokens, scanned, starts, stops, lossless.1, (lossless.2.2 (1, 6) (by decide)).2,
    (lossless.2.2 (10, 13) (by decide)).2⟩

end StackScript
