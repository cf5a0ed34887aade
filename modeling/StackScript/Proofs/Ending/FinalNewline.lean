import StackScript.Proofs.Ending.Rules
import StackScript.Proofs.Lines.Scanning
import StackScript.Script

/-!
# The newline at the end of a script

A newline at the end of a script adds one token and changes no other.  So the script is read
with the newline in the same way as without it, up to the last token, and
`surface_append_newline` says what the last token can change.
-/

namespace StackScript

/-- A newline at the end of a script is one more token. -/
theorem tokenize_append_newline {script : String} {tokens : List Token}
    (scanned : tokenize script = .ok tokens) :
    ∃ position, tokenize (script ++ "\n") =
      .ok (tokens ++ [{ kind := .newline, text := "\n", position }]) := by
  have joined := Lexer.scan_append_line 0 1 (Lexer.withinLine_zero script.toList) []
  rw [← tokenize, scanned] at joined
  rw [tokenize, String.toList_append]
  exact ⟨_, joined⟩

namespace Grammar.Ending

open StackScript.Grammar.Parser
open StackScript.Surface (Stmt Program)

variable {ending : Ending} {tokens : List Token}

/-- A parser that has to read all tokens succeeds in both runs or fails in both, unless the
last token is one after which it may look at the next. -/
theorem Continues.finish {α : Type} {bound least : Nat} {parser : Parser α}
    {ends : α → α → List Token → Prop} (continues : ending.Continues bound least parser ends)
    (spent : ∀ {value value' left}, ends value value' left → left = [])
    (reaches : ending.Reaches tokens) (short : tokens.length < bound) :
    (∃ value value', parser.finish tokens = .ok value ∧
        parser.finish (tokens ++ [ending.newline]) = .ok value' ∧ ends value value' []) ∨
      (∃ error, parser.finish tokens = .error error) ∧
        ((∃ error, parser.finish (tokens ++ [ending.newline]) = .error error) ∨
          ending.LooksAhead) := by
  have outcome := continues tokens reaches short
  unfold Parser.finish
  generalize parser tokens = reply, parser (tokens ++ [ending.newline]) = reply' at outcome ⊢
  cases outcome with
  | accept reachesRest _ =>
      obtain ⟨token, rest, rfl, -⟩ := reachesRest.cons
      exact .inr ⟨⟨_, rfl⟩, .inl ⟨_, rfl⟩⟩
  | ended _ fit =>
      cases spent fit
      exact .inl ⟨_, _, rfl, rfl, fit⟩
  | @reject rest rest' =>
      right
      cases rest <;> cases rest' <;> exact ⟨⟨_, rfl⟩, .inl ⟨_, rfl⟩⟩
  | failed => exact .inr ⟨⟨_, rfl⟩, .inl ⟨_, rfl⟩⟩
  | missed looksAhead => exact .inr ⟨⟨_, rfl⟩, .inr looksAhead⟩
  | opened _ stops =>
      refine .inr ⟨⟨_, rfl⟩, .inl ?_⟩
      rcases reply' with error | ⟨value, left⟩ | rest
      · exact ⟨_, rfl⟩
      · obtain ⟨rest, rfl, -⟩ := stops value left rfl
        cases rest <;> exact ⟨_, rfl⟩
      · cases rest <;> exact ⟨_, rfl⟩

/-- A script with a last token is read with a newline after it and without, or not read
without. -/
theorem Reaches.parse_append_newline (reaches : ending.Reaches tokens) :
    (∃ program whole, parse tokens = .ok program ∧
        parse (tokens ++ [ending.newline]) = .ok whole ∧
        ending.LastCut Stmt.shorn Stmt.EndsInParen program.statements whole.statements []) ∨
      (∃ error, parse tokens = .error error) ∧
        ((∃ error, parse (tokens ++ [ending.newline]) = .error error) ∨ ending.LooksAhead) := by
  have enough : tokens.length ≤ (tokens ++ [ending.newline]).length := by simp
  rw [parse_eq_of_le enough, parse]
  exact (continues_program enough).finish (fun fit => fit.nothing) reaches
    (Nat.lt_succ_self _)

end Grammar.Ending

namespace Script

theorem surface_of_tokenize {script : String} {tokens : List Token}
    (scanned : tokenize script = .ok tokens) : surface script = parse tokens := by
  rw [surface, scanned]
  rfl

/-- A script that is read is also read with a newline at its end.  The tree is the same if the
script ends in a newline anyway; else the tree without the newline lacks the last index or
arguments if the script ends with them.  A newline at the end is needed only after a symbol,
where it always is, and after a closing parenthesis, where it is unless the script ends in a
call or a record. -/
theorem surface_append_newline {script : String} {tokens : List Token}
    (scanned : tokenize script = .ok tokens) :
    (∀ program, surface script = .ok program →
        ∃ whole, surface (script ++ "\n") = .ok whole ∧
          (program = if tokens.getLast?.any (fun last => last.kind = .newline) then whole
            else whole.shorn) ∧
          ∀ last, tokens.getLast? = some last → last.kind ≠ .symbol ∧
            (last.kind = .closeParen → whole.EndsInParen)) ∧
      ∀ whole, surface (script ++ "\n") = .ok whole →
        (∃ program, surface script = .ok program) ∨
          ∃ last, tokens.getLast? = some last ∧ last.kind ∈ [.symbol, .closeParen] := by
  obtain ⟨position, scannedMore⟩ := tokenize_append_newline scanned
  rw [surface_of_tokenize scanned, surface_of_tokenize scannedMore]
  cases isLast : tokens.getLast? with
  | none =>
      cases List.getLast?_eq_none_iff.mp isLast
      refine ⟨fun program parsed => ⟨program, parsed, ?_, nofun⟩,
        fun whole parsed => .inl ⟨whole, parsed⟩⟩
      cases parsed
      rfl
  | some last =>
      have plain := isPlain_of_tokenize scanned last (List.mem_of_getLast? isLast)
      have reaches : Grammar.Ending.Reaches
          { last, newline := { kind := .newline, text := "\n", position }, plain,
            isNewline := rfl, notBare := by simp [bareWords] } tokens := isLast
      rcases reaches.parse_append_newline with
        ⟨program, whole, parsed, parsedMore, fit⟩ | ⟨⟨error, failed⟩, failedMore⟩
      · refine ⟨fun found isFound => ?_, fun _ _ => .inl ⟨program, parsed⟩⟩
        cases parsed.symm.trans isFound
        refine ⟨whole, parsedMore, ?_, ?_⟩
        · by_cases isNewline : last.kind = .newline
          · rw [if_pos (by simp [isNewline])]
            exact congrArg Surface.Program.mk (fit.same isNewline)
          · rw [if_neg (by simp [isNewline])]
            exact congrArg Surface.Program.mk (fit.cutOff isNewline).2
        · rintro _ ⟨⟩
          exact ⟨fit.notSymbol, fit.closes⟩
      · refine ⟨fun program parsed => ?_, fun whole parsedMore => ?_⟩
        · cases failed.symm.trans parsed
        · rcases failedMore with ⟨error, failedMore⟩ | looksAhead
          · cases failedMore.symm.trans parsedMore
          · exact .inr ⟨last, rfl, looksAhead⟩

theorem negatedCall_append_newline :
    ∃ tokens program whole, tokenize "x = -f(1)(2)" = .ok tokens ∧
      surface "x = -f(1)(2)" = .ok program ∧ surface "x = -f(1)(2)\n" = .ok whole ∧
      program = whole.shorn ∧ whole.EndsInParen := by
  obtain ⟨tokens, scanned, lastKind⟩ : ∃ tokens, tokenize "x = -f(1)(2)" = .ok tokens ∧
      tokens.getLast?.map Token.kind = some .closeParen := ⟨_, rfl, rfl⟩
  obtain ⟨program, parsed⟩ : ∃ program, surface "x = -f(1)(2)" = .ok program := ⟨_, rfl⟩
  obtain ⟨last, isLast, isKind⟩ := Option.map_eq_some_iff.mp lastKind
  obtain ⟨whole, parsedMore, same, atEnd⟩ := (surface_append_newline scanned).1 program parsed
  rw [if_neg (by simp [isLast, isKind])] at same
  exact ⟨tokens, program, whole, scanned, parsed, parsedMore, same, (atEnd last isLast).2 isKind⟩

/-- A call at the end of a script is read without its arguments. -/
theorem lastArguments_lost :
    surface "f(1)" = .ok { statements := [.evaluate (.symbol ⟨0, 1⟩ "f")] } ∧
      surface "f(1)\n" =
        .ok { statements := [.evaluate (.call ⟨1, 1⟩ (.symbol ⟨0, 1⟩ "f") [.integer 1])] } :=
  ⟨rfl, rfl⟩

-- After a closing parenthesis, a group is missed and a record is not.
example : surface "(1)" = .error .endOfTokens ∧
    surface "()" = .ok { statements := [.evaluate (.record [])] } :=
  ⟨rfl, rfl⟩

end Script

end StackScript
