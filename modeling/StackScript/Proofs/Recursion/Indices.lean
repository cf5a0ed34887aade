import StackScript.Grammar.Indexed
import StackScript.Proofs.Grammar.Places
import StackScript.Proofs.Recursion.Calls

/-!
# Where rules stop

A rule that is started at an index stops at an index.  It rejects at the index where it started
and accepts at a later one, so a choice may go on from where a rule has rejected, and a repetition
moves on whenever its rule accepts.  Only statements are different: they are rejected after the
newlines in front of them (`index_discipline`).

This holds at every index before the end of the tokens, also at those that count from the end.
-/

namespace StackScript.Grammar

open StackScript.Grammar.Parser
open StackScript.Surface (Expr Stmt Level Program)

/-- Starts a rule at an index.  The result is the accepted value, if there is one, and the index
at which the rule stopped. -/
def Rule.runAt (rule : Rule) (depth : Nat) (tokens : List Token) (start : Int) :
    Except Error (Option rule.Value × Int) :=
  (Indexed.reading (rule.parser (nested depth))).runAt tokens start

section Index

variable {rule : Rule} {depth : Nat} {tokens : List Token} {start stop : Int}

/-- A rule that stops has been started where a token or the end can be found. -/
theorem Rule.runAt_eq_ok {value? : Option rule.Value} (upper : start ≤ tokens.length)
    (stopped : rule.runAt depth tokens start = .ok (value?, stop)) :
    -(tokens.length : Int) ≤ start ∧ ∃ rest, stop = tokens.length - rest.length ∧
      rule.parser (nested depth) (readFrom tokens start) =
        .ok (value?.elim (.reject rest) fun value => .accept value rest) := by
  have notBefore : ¬start < -(tokens.length : Int) := by
    intro before
    rw [Rule.runAt, Indexed.runAt, if_pos before] at stopped
    cases stopped
  rw [Rule.runAt, Indexed.runAt, if_neg notBefore, if_neg (Int.not_lt.mpr upper)] at stopped
  simp only [Indexed.reading] at stopped
  refine ⟨Int.not_lt.mp notBefore, ?_⟩
  generalize rule.parser (nested depth) (readFrom tokens start) = reply at stopped ⊢
  rcases reply with error | ⟨value, rest⟩ | rest
  · cases stopped
  · cases stopped
    exact ⟨rest, rfl, rfl⟩
  · cases stopped
    exact ⟨rest, rfl, rfl⟩

/-- All rules but those for statements and scripts reject where they started. -/
theorem rejectsInPlace_rule {inner : Inner} (rule : Rule)
    (inPlace : rule ∉ [.statement, .program]) :
    RejectsInPlace (rule.parser inner) := by
  cases rule with
  | integer => exact inPlace_integer
  | text => exact inPlace_text
  | symbol => exact inPlace_symbol
  | group => exact rejectsInPlace_attempt _
  | field => exact rejectsInPlace_attempt _
  | record => exact inPlace_record
  | lambda => exact rejectsInPlace_attempt _
  | list => exact inPlace_list
  | item => exact rejectsInPlace_attempt _
  | call => exact rejectsInPlace_attempt _
  | term => exact rejectsInPlace_firstOf _
  | chain level =>
      change RejectsInPlace (levelAt inner level)
      rw [levelAt_eq_infixLevel]
      exact rejectsInPlace_attempt _
  | negation => exact rejectsInPlace_attempt _
  | signed => exact rejectsInPlace_firstOf _
  | conditional => exact rejectsInPlace_attempt _
  | expression => exact rejectsInPlace_firstOf _
  | assignment => exact rejectsInPlace_attempt _
  | definition => exact rejectsInPlace_attempt _
  | evaluation => exact inPlace_evaluation
  | statement => simp at inPlace
  | program => simp at inPlace

def tokenAt? (tokens : List Token) (index : Int) : Option Token :=
  (readFrom tokens index).head?

/-- The first index from a start on at which there is no newline: that of another token, or the
end of the tokens. -/
structure IsPastNewlines (tokens : List Token) (start stop : Int) : Prop where
  lower : start ≤ stop
  upper : stop ≤ tokens.length
  newlines : ∀ index, start ≤ index → index < stop →
    ∃ token, tokenAt? tokens index = some token ∧ token.kind = .newline
  other : stop = tokens.length ∨
    ∃ token, tokenAt? tokens stop = some token ∧ token.kind ≠ .newline

/-- Some tokens further on, what is read is what is left of the tokens. -/
theorem readFrom_add {taken : Nat} (lower : -(tokens.length : Int) ≤ start)
    (upper : start + taken ≤ tokens.length) :
    readFrom tokens (start + taken) = (readFrom tokens start).drop taken := by
  unfold readFrom
  by_cases negative : start < 0
  · rw [if_pos negative, List.drop_append, List.drop_drop, List.length_drop]
    by_cases stillNegative : start + taken < 0
    · have moved : (start + tokens.length).toNat + taken =
          (start + taken + tokens.length).toNat := by omega
      have fewer : taken - (tokens.length - (start + tokens.length).toNat) = 0 := by omega
      rw [if_pos stillNegative, moved, fewer, List.drop_zero]
    · have spent : tokens.length ≤ (start + tokens.length).toNat + taken := by omega
      have moved : taken - (tokens.length - (start + tokens.length).toNat) =
          (start + taken).toNat := by omega
      rw [if_neg stillNegative, List.drop_eq_nil_of_le spent, moved, List.nil_append]
  · have moved : start.toNat + taken = (start + taken).toNat := by omega
    rw [if_neg negative, if_neg (by omega), List.drop_drop, moved]

/-- The newlines in front of some tokens, and the token that follows them. -/
theorem exists_skipped (tokens : List Token) :
    ∃ skipped, tokens = skipped ++ dropNewlines tokens ∧
      (∀ token ∈ skipped, token.kind = .newline) ∧
      ∀ token, (dropNewlines tokens).head? = some token → token.kind ≠ .newline := by
  refine ⟨_, List.takeWhile_append_dropWhile.symm, ?_, ?_⟩
  · intro token member
    exact of_decide_eq_true (List.all_eq_true.mp List.all_takeWhile token member)
  · intro token isFirst
    have notNewline := List.head?_dropWhile_not (fun token : Token => token.kind = .newline) tokens
    rw [← dropNewlines, isFirst] at notNewline
    simpa using notNewline

theorem isPastNewlines_dropNewlines (lower : -(tokens.length : Int) ≤ start)
    (upper : start ≤ tokens.length) :
    IsPastNewlines tokens start
      (tokens.length - (dropNewlines (readFrom tokens start)).length) := by
  have total := length_readFrom tokens start lower upper
  have tokenAt (taken : Nat) (inside : start + taken ≤ tokens.length) :
      tokenAt? tokens (start + taken) = (readFrom tokens start)[taken]? := by
    rw [tokenAt?, readFrom_add lower inside, List.head?_drop]
  obtain ⟨skipped, split, areNewlines, ends⟩ := exists_skipped (readFrom tokens start)
  generalize readFrom tokens start = found, dropNewlines (readFrom tokens start) = rest at *
  subst split
  rw [List.length_append] at total
  have reached : (tokens.length : Int) - rest.length = start + skipped.length := by omega
  rw [reached]
  refine ⟨by omega, by omega, ?_, ?_⟩
  · intro index notBefore before
    obtain ⟨taken, rfl⟩ := Int.le.dest notBefore
    have inside : taken < skipped.length := by omega
    refine ⟨skipped[taken], ?_, areNewlines _ (List.getElem_mem inside)⟩
    rw [tokenAt taken (by omega), List.getElem?_append_left inside,
      List.getElem?_eq_getElem inside]
  · cases rest with
    | nil => exact .inl (by simpa using reached.symm)
    | cons token others =>
        right
        refine ⟨token, ?_, ends token rfl⟩
        rw [tokenAt skipped.length (by omega), List.getElem?_append_right (Nat.le_refl _),
          Nat.sub_self]
        rfl

theorem Rule.stop_of_reject (inside : start < tokens.length)
    (inPlace : rule ∉ [.statement, .program])
    (rejected : rule.runAt depth tokens start = .ok (none, stop)) : stop = start := by
  have upper := Int.le_of_lt inside
  obtain ⟨lower, rest, rfl, replied⟩ := Rule.runAt_eq_ok upper rejected
  have total := length_readFrom tokens start lower upper
  rw [rejectsInPlace_rule rule inPlace _ rest replied]
  omega

theorem Rule.stop_of_accept {value : rule.Value} (inside : start < tokens.length)
    (takesOne : rule ≠ .program)
    (accepted : rule.runAt depth tokens start = .ok (some value, stop)) :
    start < stop ∧ stop ≤ tokens.length := by
  have upper := Int.le_of_lt inside
  obtain ⟨lower, rest, rfl, replied⟩ := Rule.runAt_eq_ok upper accepted
  have total := length_readFrom tokens start lower upper
  have one : rule.least = 1 := by
    cases rule with
    | program => exact absurd rfl takesOne
    | _ => rfl
  have taken := takesAtLeast_rule rule depth _ value rest replied
  omega

theorem Rule.stop_of_reject_statement (inside : start < tokens.length)
    (rejected : Rule.statement.runAt depth tokens start = .ok (none, stop)) :
    IsPastNewlines tokens start stop := by
  have upper := Int.le_of_lt inside
  obtain ⟨lower, rest, rfl, replied⟩ := Rule.runAt_eq_ok upper rejected
  rw [rejected_statement _ _ rest replied]
  exact isPastNewlines_dropNewlines lower upper

/-- A rule that is started before the end of the tokens rejects where it started, and accepts at a
later index that is not beyond the end.  A statement is rejected past the newlines. -/
theorem index_discipline (depth : Nat) {tokens : List Token} {start : Int}
    (inside : start < tokens.length) :
    (∀ rule : Rule, rule ∉ [.statement, .program] → ∀ stop,
      (rule.runAt depth tokens start = .ok (none, stop) → stop = start) ∧
        ∀ value, rule.runAt depth tokens start = .ok (some value, stop) →
          start < stop ∧ stop ≤ tokens.length) ∧
      ∀ stop, Rule.statement.runAt depth tokens start = .ok (none, stop) →
        IsPastNewlines tokens start stop := by
  refine ⟨?_, fun stop rejected => Rule.stop_of_reject_statement inside rejected⟩
  intro rule inPlace stop
  have takesOne : rule ≠ .program := by
    rintro rfl
    simp at inPlace
  exact ⟨Rule.stop_of_reject inside inPlace, fun _ => Rule.stop_of_accept inside takesOne⟩

/-- The tokens of `f(1)`, of two newlines and of `)`. -/
def callThenParen : List Token :=
  [⟨.symbol, "f", ⟨0, 1⟩⟩, ⟨.openParen, "(", ⟨1, 1⟩⟩, ⟨.integer, "1", ⟨2, 1⟩⟩,
    ⟨.closeParen, ")", ⟨3, 1⟩⟩, ⟨.newline, "\n", ⟨4, 1⟩⟩, ⟨.newline, "\n", ⟨5, 2⟩⟩,
    ⟨.closeParen, ")", ⟨6, 3⟩⟩]

theorem callThenParen_index :
    (∃ value, Rule.call.runAt 7 callThenParen 0 = .ok (some value, 4) ∧ (0 : Int) < 4 ∧
      (4 : Int) ≤ callThenParen.length) ∧
      Rule.list.runAt 7 callThenParen (-7) = .ok (none, -7) ∧
      Rule.statement.runAt 7 callThenParen 4 = .ok (none, 6) ∧
        IsPastNewlines callThenParen 4 6 := by
  obtain ⟨value, accepted⟩ :
      ∃ value, Rule.call.runAt 7 callThenParen 0 = .ok (some value, 4) := ⟨_, rfl⟩
  have rejected : Rule.statement.runAt 7 callThenParen 4 = .ok (none, 6) := rfl
  obtain ⟨listStop, listRejected⟩ :
      ∃ stop, Rule.list.runAt 7 callThenParen (-7) = .ok (none, stop) := ⟨_, rfl⟩
  have fromStart := @index_discipline 7 callThenParen 0 (by decide)
  have fromEnd := @index_discipline 7 callThenParen (-7) (by decide)
  have fromNewline := @index_discipline 7 callThenParen 4 (by decide)
  refine ⟨⟨value, accepted, (fromStart.1 .call (by decide) 4).2 value accepted⟩, ?_, rejected,
    fromNewline.2 6 rejected⟩
  rw [listRejected, (fromEnd.1 .list (by decide) listStop).1 listRejected]

end Index

end StackScript.Grammar
