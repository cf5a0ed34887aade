import StackScript.Proofs.Boundary.Rules
import StackScript.Proofs.Grammar.Reads

/-!
# Scripts one after another

A script that ends in a newline is a whole.  The tokens after it do not change how it is read,
and they are read as if they stood alone (`parse_append`).
-/

namespace StackScript

namespace Grammar

open StackScript.Grammar.Parser
open StackScript.Surface (Stmt Program)

section Statements

variable {depth : Nat} {tokens more rest : List Token} {inner : Inner}

/-- A statement takes a token, and it is the same whatever bounds the repetition. -/
theorem agrees_statement_self (depth : Nat) :
    Agrees (Matching.good fun _ => True) (depth + 1) 1 0 (statement (nested depth))
      (statement (nested depth)) fun statement statement' => True ∧ statement = statement' :=
  have lawful := Matching.lawful_good fun _ => True
  agrees_statement lawful builds_trivial.alike
    (agreesInner_of_le lawful builds_trivial.alike (Nat.le_refl _) (Nat.le_refl _))

theorem length_lt_of_statement {value : Stmt} (short : tokens.length ≤ depth)
    (accepted : statement (nested depth) tokens = .ok (.accept value rest)) :
    rest.length < tokens.length := by
  have replies := agrees_statement_self depth tokens tokens ⟨rfl, fun _ _ => trivial⟩
    (Nat.lt_succ_of_le short) (Nat.lt_succ_of_le short)
  rw [accepted] at replies
  cases replies with
  | accept both => exact both.2.left

/-- Statements are not cut off by a bound that allows for every token. -/
theorem manyUpTo_statement {times : Nat} (short : tokens.length ≤ depth)
    (enough : tokens.length ≤ times) :
    manyUpTo (statement (nested depth)) times tokens = many (statement (nested depth)) tokens := by
  have lawful := Matching.lawful_good fun _ => True
  have together : (Matching.good fun _ => True).paired 0 tokens tokens :=
    ⟨rfl, fun _ _ => trivial⟩
  have replies := (agrees_statement_self depth).manyUpTo lawful together
    (Nat.lt_succ_of_le short) (Nat.lt_succ_of_le short) enough (Nat.le_refl _)
  rw [many]
  generalize manyUpTo _ times tokens = reply, manyUpTo _ tokens.length tokens = reply'
    at replies ⊢
  cases replies with
  | error both => rw [both]
  | reject both => rw [both.paired.1]
  | accept both => rw [both.2.paired.1, (forall₂_self_iff.mp both.1).2]

/-- The statements of some tokens are the first one and those of what is left after it. -/
theorem many_statement (short : tokens.length ≤ depth) :
    many (statement (nested depth)) tokens =
      match statement (nested depth) tokens with
      | .error error => .error error
      | .ok (.reject rest) => .ok (.accept [] rest)
      | .ok (.accept value rest) => withItems [value] (many (statement (nested depth)) rest) := by
  cases tokens with
  | nil => rfl
  | cons token others =>
      rw [many_eq, List.length_cons, (repeats_manyUpTo _).turn, nextValue]
      cases replied : statement (nested depth) (token :: others) with
      | error error =>
          rw [bind_error replied]
          rfl
      | ok reply =>
          cases reply with
          | reject rest =>
              rw [bind_reject replied]
              rfl
          | accept value rest =>
              have shorter := length_lt_of_statement short replied
              rw [bind_apply replied]
              exact congrArg (withItems [value])
                (manyUpTo_statement (by omega) (Nat.le_of_lt_succ shorter))

/-- Newlines in front of some tokens do not change their statements. -/
theorem many_statement_append (short : (tokens ++ more).length ≤ depth)
    (blank : dropNewlines tokens = []) :
    many (statement (nested depth)) (tokens ++ more) = many (statement (nested depth)) more := by
  have skips : statement (nested depth) (tokens ++ more) = statement (nested depth) more := by
    unfold statement
    rw [← dropNewlines, ← dropNewlines, Boundary.dropNewlines_append, if_pos blank]
  have shortMore : more.length ≤ depth :=
    Nat.le_trans (List.sublist_append_right tokens more).length_le short
  rw [many_statement short, skips, ← many_statement shortMore]

/-- The statements of tokens that are all taken come before those of the tokens that follow. -/
theorem many_append (short : (tokens ++ more).length ≤ depth) {size : Nat}
    (bounded : tokens.length ≤ size) (reaches : Boundary.Reaches tokens) {values : List Stmt}
    (accepted : many (statement (nested depth)) tokens = .ok (.accept values [])) :
    many (statement (nested depth)) (tokens ++ more) =
      withItems values (many (statement (nested depth)) more) := by
  induction size generalizing tokens values with
  | zero =>
      exact absurd (List.eq_nil_of_length_eq_zero (Nat.le_zero.mp bounded)) reaches.ne_nil
  | succ size ih =>
      have carries : Boundary.CarriesLine more (statement (nested depth)) :=
        Boundary.carries_statement (Boundary.carriesInner_nested depth)
      have shortTokens : tokens.length ≤ depth :=
        Nat.le_trans (List.sublist_append_left tokens more).length_le short
      rw [many_statement shortTokens] at accepted
      by_cases blank : statement (nested depth) tokens = .ok (.reject [])
      · rw [blank] at accepted
        cases accepted
        rw [withItems_nil]
        exact many_statement_append short (carries.rejected tokens [] blank).symm
      have outcome := carries.outcome tokens reaches blank
      rw [many_statement short]
      generalize replied : statement (nested depth) tokens = reply,
        statement (nested depth) (tokens ++ more) = reply' at accepted outcome blank ⊢
      cases outcome with
      | @accept value _ _ split reachesRest _ _ =>
          have shorter := length_lt_of_statement shortTokens replied
          obtain ⟨later, acceptedLater, rfl⟩ := withItems_eq_accept accepted
          rw [← withItems_append]
          rw [List.length_append] at short
          exact congrArg (withItems [value])
            (ih (by rw [List.length_append]; omega) (by omega) reachesRest acceptedLater)
      | reject =>
          cases accepted
          exact absurd rfl blank
      | failed => cases accepted
      | unclosed => cases accepted
      | spent atEnd => exact atEnd.elim

end Statements

/-- A script is read if its statements take all tokens. -/
theorem many_of_finish {inner : Inner} {tokens : List Token} {script : Program}
    (finished : (program inner).finish tokens = .ok script) :
    many (statement inner) tokens = .ok (.accept script.statements []) := by
  change Parser.finish (Parser.bind (many (statement inner)) _) tokens = _ at finished
  unfold Parser.finish Parser.bind at finished
  generalize many (statement inner) tokens = reply at finished ⊢
  rcases reply with error | ⟨statements, _ | ⟨token, left⟩⟩ | _ | ⟨token, left⟩ <;> cases finished
  rfl

/-- Statements in front of a script are statements of it, and they do not change what is wrong
with it. -/
theorem finish_of_many {inner : Inner} {tokens more : List Token} {values : List Stmt}
    (same : many (statement inner) tokens =
      withItems values (many (statement inner) more)) :
    (program inner).finish tokens =
      ((program inner).finish more).map fun script =>
        { statements := values ++ script.statements } := by
  change Parser.finish (Parser.bind (many (statement inner)) _) tokens =
    (Parser.finish (Parser.bind (many (statement inner)) _) more).map _
  unfold Parser.finish Parser.bind
  rw [same]
  rcases many (statement inner) more with
    error | ⟨statements, _ | ⟨token, left⟩⟩ | _ | ⟨token, left⟩ <;> rfl

end Grammar

open StackScript.Grammar in
/-- After a script that ends in a newline, other tokens are read as if they stood alone. -/
theorem parse_append {first : List Token} {script : Surface.Program} (ends : EndsLine first)
    (parsed : parse first = .ok script) (second : List Token) :
    parse (first ++ second) =
      (parse second).map fun later =>
        { statements := script.statements ++ later.statements } := by
  have enough : first.length ≤ (first ++ second).length := by simp
  have enough' : second.length ≤ (first ++ second).length := by simp
  rw [parse_eq_of_le enough] at parsed
  rw [parse_eq_of_le enough', parse]
  apply finish_of_many
  have accepted := many_of_finish parsed
  cases isLast : first.getLast? with
  | none =>
      cases List.getLast?_eq_none_iff.mp isLast
      cases script
      cases accepted
      exact (withItems_nil _).symm
  | some last =>
      have reaches : Boundary.Reaches first := ⟨last, isLast, ends last isLast⟩
      exact many_append (Nat.le_refl _) (Nat.le_refl _) reaches accepted

theorem conditionalThenCall_parse :
    ∃ first script, tokenize "if x do\n  y\nelse\n  [1,\n   2]\nend\n" = .ok first ∧
      Grammar.EndsLine first ∧ parse first = .ok script ∧
      ∃ second whole, tokenize "f(x)\n" = .ok second ∧ parse (first ++ second) = .ok whole ∧
        script.statements.length = 1 ∧ script.statements <+: whole.statements := by
  obtain ⟨first, script, scanned, lastKind, parsed, single⟩ : ∃ first script,
      tokenize "if x do\n  y\nelse\n  [1,\n   2]\nend\n" = .ok first ∧
        first.getLast?.map Token.kind = some .newline ∧ parse first = .ok script ∧
        script.statements.length = 1 := ⟨_, _, rfl, rfl, rfl, rfl⟩
  obtain ⟨second, later, scannedLater, parsedLater⟩ : ∃ second later,
      tokenize "f(x)\n" = .ok second ∧ parse second = .ok later := ⟨_, _, rfl, rfl⟩
  have ends := Grammar.endsLine_of_kind lastKind
  have whole := parse_append ends parsed second
  rw [parsedLater] at whole
  exact ⟨first, script, scanned, ends, parsed, second, _, scannedLater, whole, single,
    List.prefix_append _ _⟩

end StackScript
