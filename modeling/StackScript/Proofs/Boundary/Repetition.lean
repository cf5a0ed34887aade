import StackScript.Proofs.Boundary.Outcome

/-!
# Repetition before more tokens

Lists of items, operands, arguments and lines, read up to a newline and once more with other
tokens after it.  A list of items and the lines of a body may run up to the newline; the
operands of an operator and the arguments of a head may not, because a newline is none of
them.
-/

namespace StackScript.Grammar.Boundary

open StackScript.Grammar.Parser

variable {α β : Type} {more tokens : List Token} {least : Nat}

section Items

variable {item : Parser α}

/-- A value before a token that closes what is pending, and what follows that token. -/
theorem Carries.closed {closing : Kind} {delimiter : Delimiter} {next : α → Parser β}
    {ends : Except Error (Reply α) → Prop}
    (closes : ∀ token : Token, token.kind = closing →
      token.Closes delimiter ∧ token.kind ≠ .newline)
    (carries : Carries more none least ends item)
    (atEnd : ∀ reply, ends reply → Finished reply ∨ Halted reply)
    (carriesNext : ∀ value, Carries more none 0 Never (next value)) :
    Carries more (some delimiter) 0 Halted
      (item >>= fun value =>
        Parser.demand (fun token => token.kind = closing) (fun _ => .malformedConstruct) >>=
          fun _ => next value) := by
  refine (carries.imp (Nat.zero_le _) atEnd).bind (fun value => ?_) ?_
  · refine Carries.demand (fun _ => nofun) fun token rest isClosing reaches => ?_
    obtain ⟨closesToken, notNewline⟩ := closes token (of_decide_eq_true isClosing)
    exact ((carriesNext value rest (reaches.tail_of_ne notNewline)).closes
      fun _ => closesToken).imp (Nat.zero_le _) id
  · rintro tokens (finished | halted)
    · exact finished.bind fun _ => rfl
    · exact halted.bind

/-- A value between two tokens. -/
theorem Carries.wrapped {opening closing : Kind} {delimiter : Delimiter}
    {ends : Except Error (Reply α) → Prop}
    (opens : ∀ token : Token, token.kind = opening →
      token.Opens delimiter ∧ token.kind ≠ .newline)
    (closes : ∀ token : Token, token.kind = closing →
      token.Closes delimiter ∧ token.kind ≠ .newline)
    (carries : Carries more none least ends item)
    (atEnd : ∀ reply, ends reply → Finished reply ∨ Halted reply) :
    Carries more none 1 Never (Parser.wrapped opening closing item) := by
  apply Carries.attempt
  refine Carries.skip fun token rest isOpening reaches => ?_
  obtain ⟨opensToken, notNewline⟩ := opens token (of_decide_eq_true isOpening)
  have carriesRest := carries.closed closes atEnd Carries.pure
  exact (carriesRest rest (reaches.tail_of_ne notNewline)).opens fun _ => opensToken

end Items

/-! ## Repetition -/

section Repetition

variable {σ : Type} {step : σ → Parser σ} {ended stopped : σ → α} {replies : Nat → σ → Parser α}
variable {place : List Token → List Token}
variable {stepEnds : Except Error (Reply σ) → Prop} {ends : Except Error (Reply α) → Prop}

/-- A repetition goes the same way in both runs, if its step does, and if it stops at the same
place in both. -/
theorem Carries.repeats (repeats : Repeats step ended stopped replies)
    (carries : ∀ state, Carries more none 1 stepEnds (step state))
    (rejects : ∀ state, RejectsAt place (step state))
    (stops : ∀ state, Carries more none 0 ends (leave place (stopped state)))
    (atEnd : ∀ state later reply, stepEnds reply → ends (afterStep (stopped state) later reply))
    {times times' : Nat} (state : σ) (reaches : Reaches tokens) (enough : tokens.length ≤ times)
    (enough' : (tokens ++ more).length ≤ times') :
    Outcome more none 0 ends tokens (replies times state tokens)
      (replies times' state (tokens ++ more)) := by
  induction times generalizing times' state tokens with
  | zero => exact absurd (List.eq_nil_of_length_eq_zero (Nat.le_zero.mp enough)) reaches.ne_nil
  | succ times ih =>
      have outcome := carries state tokens reaches
      have rejected := rejects state tokens
      have rejected' := rejects state (tokens ++ more)
      have left := stops state tokens reaches
      rw [List.length_append] at enough'
      obtain ⟨token, others, rfl⟩ := reaches.exists_cons
      rw [List.length_cons] at enough enough'
      obtain ⟨times', rfl⟩ := Nat.exists_eq_succ_of_ne_zero (n := times') (by omega)
      rw [List.cons_append] at outcome rejected' left ⊢
      rw [repeats.turn, repeats.turn]
      generalize step state (token :: others) = reply,
        step state (token :: (others ++ more)) = reply' at outcome rejected rejected' ⊢
      apply outcome.andThen
      case fails | fails' => exact fun _ => rfl
      case isSuffix => exact List.suffix_refl _
      case onAccept =>
          intro next taken after _ split reachesAfter settles enoughTaken
          have shorter := congrArg List.length split
          rw [List.length_append, List.length_cons] at shorter
          have later := @ih after times' next reachesAfter (by omega)
            (by rw [List.length_append]; omega)
          exact later.later split settles (Nat.zero_le _)
      case onReject =>
          rintro _ _ rfl rfl
          cases rejected _ rfl
          cases rejected' _ rfl
          exact left
      case onSpent => exact fun isEnd settles => .spent (atEnd state _ _ isEnd) settles

theorem Carries.offered {parser : Parser α} (carries : Carries more none least Never parser) :
    Carries more none least Never (Grammar.offered parser) := by
  intro tokens reaches
  obtain ⟨token, rest, rfl⟩ := reaches.exists_cons
  exact carries.attempt _ reaches

/-- A step that finds no token any more, after those that it may skip. -/
def Exhausted (reply : Except Error (Reply α)) : Prop :=
  reply = .ok (.reject [])

/-- A repetition that has taken all tokens ends where its step finds none. -/
theorem finished_afterStep (value : α) (later : σ → Parser α) (reply : Except Error (Reply σ))
    (exhausted : Exhausted reply) : Finished (afterStep value later reply) := by
  cases exhausted
  exact ⟨value, rfl⟩

theorem carries_leave_inPlace (value : α) :
    Carries more none 0 ends (leave (fun tokens => tokens) value) :=
  Carries.pure value

theorem carries_leave_dropNewlines (value : α) :
    Carries more none 0 Finished (leave dropNewlines value) := by
  intro tokens reaches
  unfold leave
  rw [dropNewlines_append]
  by_cases atEnd : dropNewlines tokens = []
  · rw [if_pos atEnd, atEnd]
    exact .spent ⟨_, rfl⟩ fun _ => settles_of_blank atEnd
  · rw [if_neg atEnd]
    obtain ⟨skipped, split, settled⟩ := exists_newlines tokens
    exact .accept split (reaches.of_suffix (dropNewlines_suffix tokens) atEnd)
      (fun _ => settled) (Nat.zero_le _)

theorem Carries.newlines : Carries more none 0 Finished Parser.newlines :=
  carries_leave_dropNewlines ()

/-- What is left after a comma of its list. -/
theorem carries_leave_afterComma (value : α) :
    Carries more none 0 Finished (leave afterComma value) := by
  intro tokens reaches
  obtain ⟨token, rest, rfl⟩ := reaches.exists_cons
  unfold leave
  rw [List.cons_append, afterComma, afterComma]
  by_cases isComma : token.kind = .comma
  · rw [if_pos isComma, if_pos isComma]
    exact (Outcome.inert_of_kind reaches isComma (by simp)
      (carries_leave_dropNewlines value)).imp (Nat.zero_le _) id
  · rw [if_neg isComma, if_neg isComma]
    exact Carries.pure value _ reaches

end Repetition

section Items

variable {item : Parser α}

theorem Carries.nextItem (carries : Carries more none least Never item) (read : List α) :
    Carries more none 1 Exhausted (Grammar.nextItem item read) := by
  apply Carries.skip
  intro token rest isComma reaches
  apply Outcome.inert_of_kind reaches (of_decide_eq_true isComma) (by simp)
  refine Carries.newlines.bind (fun _ => ?_) ?_
  · exact carries.offered.weaken.followed fun value => Carries.pure _
  · exact fun tokens finished => finished.bind fun _ => rfl

/-- A parser that asks for a token where there is none, unless it always fails. -/
def Needs (parser : Parser α) : Prop :=
  parser [] = .error .endOfTokens ∨
    ∃ error, error ≠ .endOfTokens ∧ ∀ tokens, parser tokens = .error error

theorem Carries.commaSeparated (carries : Carries more none least Never item)
    (needs : Needs item) :
    Carries more none 0 (fun reply => Finished reply ∨ Halted reply)
      (Parser.commaSeparated item) := by
  intro tokens reaches
  rw [commaSeparated_eq, commaSeparated_eq, dropNewlines_append]
  by_cases atEnd : dropNewlines tokens = []
  · rw [if_pos atEnd, atEnd]
    rcases needs with asks | ⟨error, definite, fails⟩
    · rw [asks]
      exact .spent (.inr rfl) fun _ => settles_of_blank atEnd
    · rw [fails, fails]
      exact .failed definite
  rw [if_neg atEnd]
  obtain ⟨skipped, split, settled⟩ := exists_newlines tokens
  have outcome := carries _ (reaches.of_suffix (dropNewlines_suffix tokens) atEnd)
  generalize item (dropNewlines tokens) = reply,
    item (dropNewlines tokens ++ more) = reply' at outcome ⊢
  apply outcome.andThen
  case fails | fails' => exact fun _ => rfl
  case isSuffix => exact dropNewlines_suffix _
  case onAccept =>
      intro value taken rest _ splitNext reachesRest settles _
      have later := Carries.repeats (repeats_moreItems item) carries.nextItem
        (rejectsAt_nextItem item) carries_leave_afterComma
        finished_afterStep [value] reachesRest (Nat.le_refl _) (Nat.le_refl _)
      have whole := (later.later splitNext settles (Nat.zero_le _)).later split
        (fun _ => settled) (Nat.zero_le _)
      exact whole.imp (Nat.le_refl _) .inl
  case onReject =>
      exact fun _ _ =>
        .accept (List.nil_append _).symm reaches (fun _ => settles_nil) (Nat.le_refl _)
  case onSpent => exact False.elim

end Items

section Operands

variable {operand : Parser α} {isOperator : Token → Bool} {join : Token → α → α → α}

theorem Carries.nextOperand (carries : Carries more none least Never operand)
    (inert : ∀ token, isOperator token = true → token.IsInert ∧ token.kind ≠ .newline) (left : α) :
    Carries more none 1 Never (Grammar.nextOperand isOperator operand join left) := by
  apply Carries.attempt
  apply Carries.satisfy
  intro operator rest isOne reaches
  obtain ⟨inertOperator, notNewline⟩ := inert operator isOne
  have carriesRest : Carries more none 0 Never (Grammar.offered operand >>= fun right =>
      Pure.pure (join operator left right)) :=
    carries.offered.weaken.followed fun right => Carries.pure _
  exact (carriesRest rest (reaches.tail_of_ne notNewline)).inert fun _ => inertOperator

theorem Carries.chainLeft (carries : Carries more none least Never operand)
    (inert : ∀ token, isOperator token = true → token.IsInert ∧ token.kind ≠ .newline) :
    Carries more none least Never (Parser.chainLeft isOperator operand join) := by
  apply Carries.attempt
  apply carries.followed
  intro first tokens reaches
  exact Carries.repeats (repeats_moreOperands isOperator operand join)
    (carries.nextOperand inert) (rejectsInPlace_nextOperand isOperator operand join)
    carries_leave_inPlace (fun _ _ _ => False.elim) first reaches (Nat.le_refl _) (Nat.le_refl _)

end Operands

section Arguments

variable {head : Parser α} {argument : Parser β} {apply : Position → α → β → α}

theorem Carries.nextArgument (carries : Carries more none 1 Never argument)
    (state : α × Position × β) :
    Carries more none 1 Never (Grammar.nextArgument argument apply state) := by
  apply Carries.nextPosition
  intro position
  exact carries.followed fun next => Carries.pure _

theorem Carries.applied (carriesHead : Carries more none least Never head)
    (carries : Carries more none 1 Never argument) (inPlace : RejectsInPlace argument) :
    Carries more none least Never (Parser.applied head argument apply) := by
  apply Carries.attempt
  apply carriesHead.followed
  intro value
  apply Carries.nextPosition
  intro position
  apply (carries.imp (Nat.zero_le _) fun _ => id).followed
  intro given tokens reaches
  exact Carries.repeats (repeats_moreArguments argument apply) carries.nextArgument
    (inPlace.nextArgument apply) (fun _ => carries_leave_inPlace _) (fun _ _ _ => False.elim)
    (value, position, given) reaches (Nat.le_refl _) (Nat.le_refl _)

end Arguments

section Lines

variable {line : Parser α}

/-- A parser for a line skips the newlines in front of it, and rejects after them.  Nothing is
asked of it where it finds newlines only. -/
structure CarriesLine (more : List Token) (line : Parser α) : Prop where
  outcome : ∀ tokens, Reaches tokens → line tokens ≠ .ok (.reject []) →
    Outcome more none 1 Never tokens (line tokens) (line (tokens ++ more))
  rejected : RejectsAt dropNewlines line

theorem CarriesLine.carries (carries : CarriesLine more line) :
    Carries more none 1 Exhausted line := by
  intro tokens reaches
  by_cases blank : line tokens = .ok (.reject [])
  · exact .spent blank fun _ => settles_of_blank (carries.rejected tokens [] blank).symm
  · exact (carries.outcome tokens reaches blank).imp (Nat.le_refl _) False.elim

theorem CarriesLine.many (carries : CarriesLine more line) :
    Carries more none 0 Finished (Parser.many line) := by
  intro tokens reaches
  rw [many_eq, many_eq]
  refine Carries.repeats (repeats_manyUpTo line) (fun read => ?_) (fun read => ?_)
    carries_leave_dropNewlines finished_afterStep [] reaches (Nat.le_refl _) (Nat.le_refl _)
  · exact carries.carries.bind (fun _ => Carries.pure _) fun _ exhausted => bind_reject exhausted
  · exact carries.rejected.bind fun _ => neverRejects_pure _

end Lines

end StackScript.Grammar.Boundary
