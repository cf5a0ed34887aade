import StackScript.Grammar.Statement
import StackScript.Proofs.Grammar.Agreement
import StackScript.Proofs.Grammar.Spelling

/-!
# Where parsers start and reject

Small facts about single runs that do not depend on what is to be shown of them: where a parser
rejects, and how one goes on that stands between two tokens.  Nearly all parsers reject at the
token where they started, so that another one can be tried there; a statement is rejected after
the newlines in front of it (`rejected_statement`).
-/

namespace StackScript.Grammar

open StackScript.Grammar.Parser

variable {α β : Type}

section Rejection

variable {parser : Parser α}

/-- A parser that rejects at a place which depends on the tokens alone. -/
def RejectsAt (place : List Token → List Token) (parser : Parser α) : Prop :=
  ∀ tokens rest, parser tokens = .ok (.reject rest) → rest = place tokens

/-- A parser that rejects at the token where it started. -/
def RejectsInPlace (parser : Parser α) : Prop :=
  ∀ tokens rest, parser tokens = .ok (.reject rest) → rest = tokens

theorem rejectsInPlace_attempt (parser : Parser α) : RejectsInPlace parser.attempt := by
  intro tokens rest replied
  unfold Parser.attempt at replied
  split at replied
  · cases replied
    rfl
  · rename_i notRejected
    exact absurd replied (notRejected rest)

theorem rejectsInPlace_satisfy (test : Token → Bool) :
    RejectsInPlace (Parser.satisfy test) := by
  rw [← attempt_satisfy]
  exact rejectsInPlace_attempt _

theorem RejectsAt.bind {place : List Token → List Token} {next : α → Parser β}
    (rejects : RejectsAt place parser) (neverNext : ∀ value, NeverRejects (next value)) :
    RejectsAt place (parser >>= next) := by
  intro tokens rest replied
  change Parser.bind parser next tokens = _ at replied
  unfold Parser.bind at replied
  split at replied
  case h_1 => cases replied
  case h_2 rejected =>
      cases replied
      exact rejects tokens _ rejected
  case h_3 value between _ => exact absurd replied (neverNext value between rest)

theorem RejectsInPlace.bind {next : α → Parser β} (inPlace : RejectsInPlace parser)
    (neverNext : ∀ value, NeverRejects (next value)) : RejectsInPlace (parser >>= next) :=
  RejectsAt.bind inPlace neverNext

theorem rejectsInPlace_firstOf (choices : List (Parser α)) :
    RejectsInPlace (Parser.firstOf choices) := by
  intro start
  have all : ∀ tokens rest, Parser.firstOf.go start choices tokens = .ok (.reject rest) →
      rest = start := by
    induction choices with
    | nil =>
        rintro tokens _ ⟨⟩
        rfl
    | cons choice choices ih =>
        intro tokens rest replied
        unfold Parser.firstOf.go at replied
        split at replied
        · exact ih _ _ replied
        · rename_i notRejected
          exact absurd replied (notRejected rest)
  exact all start

/-- Accepts at a place, as a repetition does where its step rejects. -/
def leave (place : List Token → List Token) (value : α) : Parser α := fun tokens =>
  .ok (.accept value (place tokens))

/-- The place after a comma and the newlines that follow it, if there is one. -/
def afterComma : List Token → List Token
  | [] => []
  | token :: rest => if token.kind = .comma then dropNewlines rest else token :: rest

theorem rejectsInPlace_offered (parser : Parser α) : RejectsInPlace (offered parser) := by
  intro tokens rest replied
  cases tokens with
  | nil =>
      cases replied
      rfl
  | cons token others => exact rejectsInPlace_attempt parser _ _ replied

theorem rejectsAt_nextItem (item : Parser α) (read : List α) :
    RejectsAt afterComma (nextItem item read) := by
  intro tokens rest replied
  cases tokens with
  | nil => cases replied
  | cons token others =>
      by_cases isComma : token.kind = .comma
      · rw [nextItem_comma isComma] at replied
        rw [afterComma, if_pos isComma]
        exact (rejectsInPlace_offered item).bind (fun _ => neverRejects_pure _) _ _ replied
      · rw [nextItem_other isComma] at replied
        cases replied
        rw [afterComma, if_neg isComma]

theorem rejectsInPlace_nextOperand (isOperator : Token → Bool) (operand : Parser α)
    (join : Token → α → α → α) (left : α) :
    RejectsInPlace (nextOperand isOperator operand join left) :=
  rejectsInPlace_attempt _

theorem RejectsInPlace.nextArgument {argument : Parser β} (inPlace : RejectsInPlace argument)
    (apply : Position → α → β → α) (state : α × Position × β) :
    RejectsInPlace (nextArgument argument apply state) := by
  intro tokens rest replied
  cases tokens with
  | nil => cases replied
  | cons token others =>
      rw [Grammar.nextArgument, bind_apply (show nextPosition (token :: others) = _ from rfl)]
        at replied
      exact inPlace.bind (fun _ => neverRejects_pure _) _ _ replied

/-- A choice accepts what one of its parsers does. -/
theorem firstOf_eq_accept {choices : List (Parser α)} {tokens rest : List Token} {value : α}
    (inPlace : ∀ choice ∈ choices, RejectsInPlace choice)
    (accepted : Parser.firstOf choices tokens = .ok (.accept value rest)) :
    ∃ choice ∈ choices, choice tokens = .ok (.accept value rest) := by
  unfold Parser.firstOf at accepted
  induction choices with
  | nil => cases accepted
  | cons choice choices ih =>
      obtain ⟨inPlaceFirst, inPlaceLater⟩ := List.forall_mem_cons.mp inPlace
      unfold Parser.firstOf.go at accepted
      split at accepted
      · rename_i rejected
        cases inPlaceFirst _ _ rejected
        obtain ⟨later, member, acceptedLater⟩ := ih inPlaceLater accepted
        exact ⟨later, List.mem_cons_of_mem _ member, acceptedLater⟩
      · exact ⟨choice, List.mem_cons_self, accepted⟩

end Rejection

section Wrapped

variable {parser : Parser α} {opening closing : Kind} {token : Token} {rest : List Token}

/-- A value between two tokens, of which the first has been found. -/
theorem wrapped_cons (isOpening : token.kind = opening) :
    Parser.wrapped opening closing parser (token :: rest) =
      match (parser >>= fun value =>
        Parser.demand (fun token => token.kind = closing) (fun _ => .malformedConstruct) >>=
          fun _ => Pure.pure value) rest with
      | .ok (.reject _) => .ok (.reject (token :: rest))
      | reply => reply := by
  have opened (next : Parser α) :
      (Parser.skip (fun token => token.kind = opening) >>= fun _ => next) (token :: rest) =
        next rest := by
    rw [skip_bind, satisfy_bind_cons, if_pos (decide_eq_true isOpening)]
  rewrite [Parser.wrapped, Parser.attempt, opened]
  rfl

theorem wrapped_error {error : Error} (isOpening : token.kind = opening)
    (raised : (parser >>= fun value =>
      Parser.demand (fun token => token.kind = closing) (fun _ => .malformedConstruct) >>=
        fun _ => Pure.pure value) rest = .error error) :
    Parser.wrapped opening closing parser (token :: rest) = .error error := by
  rw [wrapped_cons isOpening, raised]

theorem wrapped_reject {left : List Token} (isOpening : token.kind = opening)
    (rejected : parser rest = .ok (.reject left)) :
    Parser.wrapped opening closing parser (token :: rest) = .ok (.reject (token :: rest)) := by
  rw [wrapped_cons isOpening, bind_reject rejected]

end Wrapped

theorem inPlace_symbol : RejectsInPlace symbol :=
  (rejectsInPlace_satisfy _).bind fun _ => nofun

theorem inPlace_integer : RejectsInPlace integer := by
  apply (rejectsInPlace_satisfy _).bind
  intro token tokens rest
  rcases Text.readNumeral token.text with (_ | _) | _ <;> nofun

theorem inPlace_text : RejectsInPlace text :=
  (rejectsInPlace_satisfy _).bind fun _ => nofun

variable {inner : Inner}

theorem inPlace_record : RejectsInPlace (record inner) :=
  (rejectsInPlace_attempt _).bind fun _ => nofun

theorem inPlace_list : RejectsInPlace (list inner) :=
  (rejectsInPlace_attempt _).bind fun _ => nofun

theorem inPlace_evaluation : RejectsInPlace (evaluation inner) :=
  (rejectsInPlace_firstOf _).bind fun _ => nofun

theorem neverRejects_body : NeverRejects (body inner) := by
  apply NeverRejects.bind
  · exact neverRejects_many _
  · intro statements
    apply NeverRejects.bind
    · nofun
    · intro _
      nofun

/-- A statement is rejected after the newlines in front of it. -/
theorem rejected_statement (inner : Inner) : RejectsAt dropNewlines (statement inner) := by
  intro tokens rest rejected
  unfold statement at rejected
  rw [← dropNewlines] at rejected
  split at rejected
  · rename_i dropped
    cases rejected
    exact dropped.symm
  · rename_i dropped
    rw [dropped]
    exact rejectsInPlace_firstOf _ _ _ rejected

end StackScript.Grammar
