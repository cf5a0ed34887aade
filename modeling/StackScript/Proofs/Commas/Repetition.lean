import StackScript.Proofs.Commas.Outcome

/-!
# Repetition with a newline less

Items, operands, arguments and lines in three runs that belong together.  A comma list skips the
newlines before its first item and after each comma, so it finds the same item with the newline
and without it (`Carries.closed_opened`, `Carries.nextItem`).  If it finds none, then it leaves
the newline unread where its closing token should be, and the first run fails.
-/

namespace StackScript.Grammar.Commas

open StackScript.Grammar.Parser

variable {α β : Type} {deletion : Deletion} {least : Nat} {tokens tokens' tokens'' : List Token}

theorem Place.exists_cons (place : Place deletion tokens tokens' tokens'') (notEnd : tokens ≠ []) :
    ∃ token rest rest' rest'', tokens = token :: rest ∧ tokens' = token :: rest' ∧
      tokens'' = token :: rest'' := by
  rcases place.cases with ⟨rfl, _, _⟩ | ⟨token, rest, rest', rest'', rfl, rfl, rfl, _⟩ |
    ⟨rfl, rfl, rfl⟩
  · exact absurd rfl notEnd
  · exact ⟨token, rest, rest', rest'', rfl, rfl, rfl⟩
  · exact ⟨deletion.opener, _, _, _, rfl, rfl, rfl⟩

/-- The bounds on repetition allow for every token of three runs. -/
structure Enough (tokens tokens' tokens'' : List Token) (times times' times'' : Nat) : Prop where
  whole : tokens.length ≤ times
  short : tokens'.length ≤ times'
  probe : tokens''.length ≤ times''

section Bounds

variable {times times' times'' : Nat} {rest rest' rest'' : List Token}

theorem enough_length :
    Enough tokens tokens' tokens'' tokens.length tokens'.length tokens''.length :=
  ⟨Nat.le_refl _, Nat.le_refl _, Nat.le_refl _⟩

theorem Enough.exists_succ {token : Token}
    (enough : Enough (token :: rest) (token :: rest') (token :: rest'') times times' times'') :
    ∃ fewer' fewer'', times' = fewer' + 1 ∧ times'' = fewer'' + 1 :=
  ⟨times' - 1, times'' - 1, (Nat.succ_pred (Nat.ne_zero_of_lt enough.short)).symm,
    (Nat.succ_pred (Nat.ne_zero_of_lt enough.probe)).symm⟩

/-- The bounds that are left allow for the tokens that are left. -/
theorem Remains.enough
    (remains : Remains deletion (least + 1) tokens tokens' tokens'' rest rest' rest'')
    (enough : Enough tokens tokens' tokens'' (times + 1) (times' + 1) (times'' + 1)) :
    Enough rest rest' rest'' times times' times'' := by
  rcases remains with ⟨_, whole, short, probe⟩
  rcases enough with ⟨enough, enough', enough''⟩
  exact ⟨by omega, by omega, by omega⟩

theorem Place.ended (place : Place deletion tokens tokens' tokens'') (atEnd : tokens = []) :
    tokens' = [] ∧ tokens'' = [] :=
  ⟨place.eq_nil_iff.1.mp atEnd, place.eq_nil_iff.2.mp atEnd⟩

end Bounds

section Repetition

variable {σ : Type} {step : σ → Parser σ} {ended stopped : σ → α} {replies : Nat → σ → Parser α}
variable {suitable : List Token → Prop} {place : List Token → List Token}

/-- The step of a repetition in three runs that belong together, at suitable tokens.  The third run
may be in another state, and where all of them stop, they belong together again. -/
structure CarriesStep (deletion : Deletion) (suitable : List Token → Prop)
    (place : List Token → List Token) (step : σ → Parser σ) : Prop where
  outcome : ∀ ⦃tokens tokens' tokens''⦄ (state other : σ), Place deletion tokens tokens' tokens'' →
    suitable tokens → Outcome deletion 1 tokens tokens' tokens'' (step state tokens)
      (step state tokens') (step other tokens'')
  suits : ∀ {tokens tokens' tokens'' rest} {state next : σ},
    Place deletion tokens tokens' tokens'' → step state tokens = .ok (.accept next rest) →
      suitable rest
  rejects : ∀ state, RejectsAt place (step state)
  stops : ∀ {tokens tokens' tokens''}, Place deletion tokens tokens' tokens'' →
    Remains deletion 0 tokens tokens' tokens'' (place tokens) (place tokens') (place tokens'')

theorem CarriesStep.of_carries
    (carries : ∀ state other, Carries deletion 1 (step state) (step other))
    (rejects : ∀ state, RejectsAt place (step state))
    (stops : ∀ {tokens tokens' tokens''}, Place deletion tokens tokens' tokens'' →
      Remains deletion 0 tokens tokens' tokens'' (place tokens) (place tokens') (place tokens'')) :
    CarriesStep deletion (fun _ => True) place step where
  outcome _ _ _ state other together _ := carries state other together
  suits _ _ := trivial
  rejects := rejects
  stops := stops

theorem CarriesStep.repeats (carries : CarriesStep deletion suitable place step)
    (repeats : Repeats step ended stopped replies) {times times' times'' : Nat} (state other : σ)
    (together : Place deletion tokens tokens' tokens'') (isSuitable : suitable tokens)
    (enough : Enough tokens tokens' tokens'' times times' times'') :
    Outcome deletion 0 tokens tokens' tokens'' (replies times state tokens)
      (replies times' state tokens') (replies times'' other tokens'') := by
  induction times generalizing times' times'' state other tokens tokens' tokens'' with
  | zero =>
      have atEnd := List.eq_nil_of_length_eq_zero (Nat.le_zero.mp enough.whole)
      obtain ⟨rfl, rfl⟩ := together.ended atEnd
      subst atEnd
      rw [repeats.atEnd, repeats.atEnd, repeats.atEnd]
      exact .accept (.refl together)
  | succ times ih =>
      by_cases atEnd : tokens = []
      · obtain ⟨rfl, rfl⟩ := together.ended atEnd
        subst atEnd
        rw [repeats.atEnd, repeats.atEnd, repeats.atEnd]
        exact .accept (.refl together)
      have outcome := carries.outcome state other together isSuitable
      have left := carries.stops together
      have suits := fun next rest => @carries.suits tokens tokens' tokens'' rest state next together
      obtain ⟨token, others, others', others'', rfl, rfl, rfl⟩ := together.exists_cons atEnd
      have rejected := carries.rejects state (token :: others)
      have rejected' := carries.rejects state (token :: others')
      have rejected'' := carries.rejects other (token :: others'')
      obtain ⟨times', times'', rfl, rfl⟩ := enough.exists_succ
      rw [repeats.turn, repeats.turn, repeats.turn]
      generalize step state (token :: others) = reply, step state (token :: others') = reply',
        step other (token :: others'') = reply'' at outcome suits rejected rejected' rejected'' ⊢
      apply outcome.andThen
      case fails | fails'' => exact fun _ => rfl
      case onAccept =>
          intro next otherNext rest rest' rest'' accepted taken
          have later := ih next otherNext taken.place (suits next rest accepted)
            (taken.enough enough)
          exact (later.after taken).mono (Nat.zero_le _)
      case onReject =>
          rintro _ _ _ rfl rfl rfl
          cases rejected _ rfl
          cases rejected' _ rfl
          cases rejected'' _ rfl
          exact .accept left

theorem Carries.offered {parser probing : Parser α}
    (carries : Carries deletion least parser probing) :
    Carries deletion least (Grammar.offered parser) (Grammar.offered probing) := by
  intro tokens tokens' tokens'' place
  by_cases atEnd : tokens = []
  · obtain ⟨rfl, rfl⟩ := place.ended atEnd
    subst atEnd
    exact .reject
  · obtain ⟨token, others, others', others'', rfl, rfl, rfl⟩ := place.exists_cons atEnd
    exact (carries place).attempt

end Repetition

section Items

variable {item : Parser α}

theorem Deletion.dropNewlines_newline (deletion : Deletion) :
    dropNewlines (deletion.newline :: deletion.after) = dropNewlines deletion.after := by
  simp [dropNewlines, deletion.isNewline]

/-- After a comma and the newlines that follow it the runs belong together, even if it is the
comma before the newline that is left out. -/
theorem Place.afterComma {token : Token} {rest rest' rest'' : List Token}
    (place : Place deletion (token :: rest) (token :: rest') (token :: rest''))
    (isComma : token.kind = .comma) :
    Remains deletion 1 (token :: rest) (token :: rest') (token :: rest'') (dropNewlines rest)
      (dropNewlines rest') (dropNewlines rest'') := by
  refine ⟨?_, Nat.succ_le_succ (length_dropNewlines_le _),
    Nat.succ_le_succ (length_dropNewlines_le _), Nat.succ_le_succ (length_dropNewlines_le _)⟩
  rcases place.cases with ⟨atEnd, _⟩ | ⟨_, _, _, _, ⟨⟩, ⟨⟩, ⟨⟩, later⟩ | ⟨same, same', same''⟩
  · cases atEnd
  · exact later.skipNewlines
  · cases same
    cases same'
    cases same''
    have noBracket : deletion.opener.kind ≠ .openBracket := by simp [isComma]
    rw [deletion.probed_eq (deletion.item?_eq_none noBracket), deletion.dropNewlines_newline]
    exact .past (length_dropNewlines_le _) fun isParen => absurd isParen (by simp [isComma])

theorem Remains.afterComma (place : Place deletion tokens tokens' tokens'') :
    Remains deletion 0 tokens tokens' tokens'' (Grammar.afterComma tokens)
      (Grammar.afterComma tokens') (Grammar.afterComma tokens'') := by
  by_cases atEnd : tokens = []
  · obtain ⟨rfl, rfl⟩ := place.ended atEnd
    subst atEnd
    exact .refl place
  obtain ⟨token, others, others', others'', rfl, rfl, rfl⟩ := place.exists_cons atEnd
  rw [Grammar.afterComma, Grammar.afterComma, Grammar.afterComma]
  by_cases isComma : token.kind = .comma
  · rw [if_pos isComma, if_pos isComma, if_pos isComma]
    exact (place.afterComma isComma).mono (Nat.zero_le _)
  · rw [if_neg isComma, if_neg isComma, if_neg isComma]
    exact .refl place

theorem Carries.nextItem (carries : Carries deletion 1 item item) (read other : List α) :
    Carries deletion 1 (Grammar.nextItem item read) (Grammar.nextItem item other) := by
  have carriesValue : Carries deletion 0
      (Grammar.offered item >>= fun value => Pure.pure (read ++ [value]))
      (Grammar.offered item >>= fun value => Pure.pure (other ++ [value])) :=
    carries.offered.weaken.bind fun _ _ => Carries.pure _ _
  intro tokens tokens' tokens'' place
  by_cases atEnd : tokens = []
  · subst atEnd
    exact .failed
  obtain ⟨token, others, others', others'', rfl, rfl, rfl⟩ := place.exists_cons atEnd
  by_cases isComma : token.kind = .comma
  · have remains := place.afterComma isComma
    rw [nextItem_comma isComma, nextItem_comma isComma, nextItem_comma isComma]
    exact (carriesValue remains.place).after remains
  · rw [nextItem_other isComma, nextItem_other isComma, nextItem_other isComma]
    exact .reject

theorem Carries.moreItems (carries : Carries deletion 1 item item) {times times' times'' : Nat}
    (read other : List α) (place : Place deletion tokens tokens' tokens'')
    (enough : Enough tokens tokens' tokens'' times times' times'') :
    Outcome deletion 0 tokens tokens' tokens'' (withItems read (Parser.moreItems item times tokens))
      (withItems read (Parser.moreItems item times' tokens'))
      (withItems other (Parser.moreItems item times'' tokens'')) := by
  have carriesStep :=
    CarriesStep.of_carries carries.nextItem (rejectsAt_nextItem item) Remains.afterComma
  exact carriesStep.repeats (repeats_moreItems item) read other place trivial enough

theorem Carries.commaSeparated (carries : Carries deletion 1 item item) :
    Carries deletion 0 (Parser.commaSeparated item) (Parser.commaSeparated item) := by
  intro tokens tokens' tokens'' place
  have remains := Remains.skipNewlines place
  have outcome := carries remains.place
  rw [commaSeparated_eq, commaSeparated_eq, commaSeparated_eq]
  generalize item (dropNewlines tokens) = reply, item (dropNewlines tokens') = reply',
    item (dropNewlines tokens'') = reply'' at outcome ⊢
  apply outcome.andThen
  case fails | fails'' => exact fun _ => rfl
  case onAccept =>
      intro value other rest rest' rest'' _ taken
      have later := carries.moreItems [value] [other] taken.place enough_length
      exact (later.after (remains.trans taken)).mono (Nat.zero_le _)
  case onReject => exact fun _ _ _ => .accept (.refl place)

theorem commaSeparated_error {error : Error}
    (raised : item (dropNewlines tokens) = .error error) :
    Parser.commaSeparated item tokens = .error error := by
  rw [commaSeparated_eq, raised]

/-- Where no item is found, the newlines are left too. -/
theorem commaSeparated_reject {left : List Token}
    (rejected : item (dropNewlines tokens) = .ok (.reject left)) :
    Parser.commaSeparated item tokens = .ok (.accept [] tokens) := by
  rw [commaSeparated_eq, rejected]

theorem commaSeparated_accept {value : α} {rest : List Token}
    (accepted : item (dropNewlines tokens) = .ok (.accept value rest)) :
    Parser.commaSeparated item tokens =
      withItems [value] (Parser.moreItems item rest.length rest) := by
  rw [commaSeparated_eq, accepted]

/-- A name, a comma and an item on one of the next lines. -/
theorem commaSeparated_second {name comma : Token} {rest more : List Token} {first value : α}
    (isSymbol : name.kind = .symbol) (isComma : comma.kind = .comma)
    (acceptedName : item (name :: comma :: rest) = .ok (.accept first (comma :: rest)))
    (notEnd : dropNewlines rest ≠ [])
    (accepted : item (dropNewlines rest) = .ok (.accept value more)) :
    Parser.commaSeparated item (name :: comma :: rest) =
      withItems [first, value] (Parser.moreItems item rest.length more) := by
  have found : dropNewlines (name :: comma :: rest) = name :: comma :: rest := by
    simp [dropNewlines, isSymbol]
  obtain ⟨next, others, isNext⟩ := List.exists_cons_of_ne_nil notEnd
  have acceptedNext : Grammar.nextItem item [first] (comma :: rest) =
      .ok (.accept [first, value] more) := by
    rw [nextItem_comma isComma, isNext, bind_apply (offered_accept (isNext ▸ accepted))]
    rfl
  rw [commaSeparated_accept (found.symm ▸ acceptedName)]
  exact (repeats_moreItems item).accepted acceptedNext rest.length

/-- A parser that takes a name for a whole item where a comma or a colon follows it, unless it
always fails. -/
def ReadsName (item : Parser α) : Prop :=
  (∃ error, ∀ tokens, item tokens = .error error) ∨
    ∀ name next rest, name.kind = .symbol → next.kind ∈ [.comma, .colon] →
      ∃ value, item (name :: next :: rest) = .ok (.accept value (next :: rest))

/-- After the opening token the first run leaves the newline unread, or the runs find the same
first item, which is the second one of the third run if that has been given another one. -/
theorem Carries.commaSeparated_opened (carries : Carries deletion 1 item item)
    (unmistaken : deletion.Unmistaken) (readsName : deletion.item? = none ∨ ReadsName item) :
    (∃ values, Parser.commaSeparated item (deletion.newline :: deletion.after) =
      .ok (.accept values (deletion.newline :: deletion.after))) ∨
    CarriesOpened deletion (Parser.commaSeparated item) (Parser.commaSeparated item) := by
  have placeFound : Place deletion (dropNewlines deletion.after) (dropNewlines deletion.after)
      (dropNewlines deletion.after) := .past (length_dropNewlines_le _) unmistaken
  have outcome := carries placeFound
  have found := deletion.dropNewlines_newline
  cases replied : item (dropNewlines deletion.after) with
  | error error =>
      right
      rw [CarriesOpened, commaSeparated_error (found ▸ replied)]
      exact .failed
  | ok reply =>
  cases reply with
  | reject left => exact .inl ⟨[], commaSeparated_reject (found ▸ replied)⟩
  | accept value rest =>
      right
      rw [CarriesOpened, commaSeparated_accept (found ▸ replied), commaSeparated_accept replied]
      rw [replied] at outcome
      have taken : Remains deletion 1 (dropNewlines deletion.after) (dropNewlines deletion.after)
          (dropNewlines deletion.after) rest rest rest := by
        cases outcome with
        | accept remains => exact remains
      have remains : Remains deletion 0 (deletion.newline :: deletion.after) deletion.after
          deletion.probed rest rest rest := by
        have fewer := length_dropNewlines_le deletion.after
        have fewerProbed := deletion.length_after_le
        have shorter := taken.whole
        exact ⟨taken.place, by rw [List.length_cons]; omega, by omega, by omega⟩
      cases isItem : deletion.item? with
      | none =>
          rw [deletion.probed_eq isItem] at remains ⊢
          rw [commaSeparated_accept replied]
          exact (carries.moreItems _ _ taken.place enough_length).after remains
      | some pair =>
          obtain ⟨_, isSymbol, isComma⟩ := deletion.isItem pair isItem
          obtain ⟨error, fails⟩ | reads := readsName.resolve_left (by simp [isItem])
          · rw [fails] at replied
            cases replied
          obtain ⟨first, accepted⟩ := reads pair.1 pair.2 (deletion.newline :: deletion.after)
            isSymbol (by simp [isComma])
          have notEnd : dropNewlines (deletion.newline :: deletion.after) ≠ [] := by
            rw [found]
            intro atEnd
            have shorter := taken.whole
            rw [atEnd] at shorter
            cases shorter
          have isProbed : deletion.probed =
              pair.1 :: pair.2 :: deletion.newline :: deletion.after := by
            rw [Deletion.probed, isItem]
          rw [isProbed] at remains ⊢
          rw [commaSeparated_second isSymbol isComma accepted notEnd (found ▸ replied)]
          have later := carries.moreItems [value] [first, value] taken.place
            ⟨Nat.le_refl _, Nat.le_refl _, remains.whole⟩
          exact later.after remains

/-! ## What is closed -/

/-- The tokens that close something open nothing. -/
theorem Deletion.opener_ne_closing (deletion : Deletion) {closing : Kind}
    (isClosing : closing ∈ [.closeParen, .closeBracket]) : deletion.opener.kind ≠ closing := by
  have isOpener := deletion.isOpener
  rintro rfl
  generalize deletion.opener.kind = kind at isOpener isClosing
  revert kind
  decide

theorem Carries.closed {parser parser' : Parser α} {closing : Kind} {error : Token → Error}
    {next next' : α → Parser β} (isClosing : closing ∈ [.closeParen, .closeBracket])
    (carries : Carries deletion least parser parser')
    (carriesNext : ∀ value other, Carries deletion 0 (next value) (next' other)) :
    Carries deletion least
      (parser >>= fun value =>
        Parser.demand (fun token => token.kind = closing) error >>= fun _ => next value)
      (parser' >>= fun value =>
        Parser.demand (fun token => token.kind = closing) error >>= fun _ => next' value) :=
  carries.bind fun value other =>
    (Carries.demand (decide_eq_false (deletion.opener_ne_closing isClosing))
      (carriesNext value other)).weaken

/-- Where the token that closes something has to follow, a newline, a colon or a comma is an
error. -/
theorem closed_fails {parser : Parser α} {closing : Kind} {error : Token → Error}
    {next : α → Parser β} {value : α} {token : Token} {rest : List Token}
    (isClosing : closing ∈ [.closeParen, .closeBracket])
    (other : token.kind ∈ [.newline, .colon, .comma])
    (accepted : parser tokens = .ok (.accept value (token :: rest))) :
    (parser >>= fun value =>
      Parser.demand (fun token => token.kind = closing) error >>= fun _ => next value) tokens =
        .error (error token) := by
  have notClosing : token.kind ≠ closing := by
    rintro rfl
    generalize token.kind = kind at other isClosing
    revert kind
    decide
  change Parser.bind _ _ _ = _
  rw [Parser.bind, accepted]
  simp only
  rw [demand_bind_cons, decide_eq_false notClosing]
  rfl

/-- A comma list after the opening token, and what follows the token that closes it. -/
theorem Carries.closed_opened {closing : Kind} {error : Token → Error}
    {next next' : List α → Parser β} (isClosing : closing ∈ [.closeParen, .closeBracket])
    (carries : Carries deletion 1 item item)
    (fits : ReadsName item ∨ deletion.item? = none ∧ deletion.Unmistaken)
    (carriesNext : ∀ values others, Carries deletion 0 (next values) (next' others)) :
    CarriesOpened deletion
      (Parser.commaSeparated item >>= fun values =>
        Parser.demand (fun token => token.kind = closing) error >>= fun _ => next values)
      (Parser.commaSeparated item >>= fun values =>
        Parser.demand (fun token => token.kind = closing) error >>= fun _ => next' values) := by
  by_cases unmistaken : deletion.Unmistaken
  · rcases carries.commaSeparated_opened unmistaken (fits.symm.imp_left And.left) with
      ⟨values, accepted⟩ | outcome
    · rw [CarriesOpened, closed_fails isClosing (by simp [deletion.isNewline]) accepted]
      exact .failed
    · apply Outcome.bind outcome
      intro values others rest rest' rest'' _ remains
      exact (Carries.demand (decide_eq_false (deletion.opener_ne_closing isClosing))
        (carriesNext values others) remains.place).mono (Nat.zero_le _)
  · -- The name of the field is taken for the whole item, and the colon after it is left.
    obtain ⟨_, name, colon, rest, isAfter, isSymbol, isColon⟩ :=
      deletion.startsField_of_not unmistaken
    have found : dropNewlines (deletion.newline :: deletion.after) = name :: colon :: rest := by
      rw [deletion.dropNewlines_newline, isAfter, dropNewlines,
        List.dropWhile_cons_of_neg (by simp [isSymbol])]
    rw [CarriesOpened]
    rcases fits.resolve_right fun both => unmistaken both.2 with ⟨raised, fails⟩ | reads
    · rw [bind_error (commaSeparated_error (fails _))]
      exact .failed
    · obtain ⟨value, accepted⟩ := reads name colon rest isSymbol (by simp [isColon])
      have acceptedList : Parser.commaSeparated item (deletion.newline :: deletion.after) =
          .ok (.accept [value] (colon :: rest)) := by
        rw [commaSeparated_accept (found.symm ▸ accepted)]
        exact (repeats_moreItems item).rejected (nextItem_other (by simp [isColon])) (by simp)
      rw [closed_fails isClosing (by simp [isColon]) acceptedList]
      exact .failed

/-- A value between two tokens, of which the first may be the opening one. -/
theorem Outcome.wrapped {parser : Parser α} {opening closing : Kind}
    (isClosing : closing ∈ [.closeParen, .closeBracket])
    (carries : Carries deletion 0 parser parser)
    (place : Place deletion tokens tokens' tokens'')
    (opened : tokens = deletion.whole → deletion.opener.kind = opening →
      CarriesOpened deletion
        (parser >>= fun value =>
          Parser.demand (fun token => token.kind = closing) (fun _ => .malformedConstruct) >>=
            fun _ => Pure.pure value)
        (parser >>= fun value =>
          Parser.demand (fun token => token.kind = closing) (fun _ => .malformedConstruct) >>=
            fun _ => Pure.pure value)) :
    Outcome deletion 1 tokens tokens' tokens'' (Parser.wrapped opening closing parser tokens)
      (Parser.wrapped opening closing parser tokens')
      (Parser.wrapped opening closing parser tokens'') := by
  apply Outcome.attempt
  exact Outcome.skipOpening (carries.closed isClosing Carries.pure) place opened

end Items

section Operands

variable {operand : Parser α} {isOperator : Token → Bool} {join : Token → α → α → α}

theorem Carries.nextOperand (carries : Carries deletion 1 operand operand)
    (notOpener : isOperator deletion.opener = false) (left other : α) :
    Carries deletion 1 (Grammar.nextOperand isOperator operand join left)
      (Grammar.nextOperand isOperator operand join other) := by
  apply Carries.attempt
  apply Carries.satisfy notOpener
  intro operator _
  exact carries.offered.weaken.bind fun _ _ => Carries.pure _ _

theorem Carries.chainLeft (carries : Carries deletion 1 operand operand)
    (notOpener : isOperator deletion.opener = false) :
    Carries deletion 1 (Parser.chainLeft isOperator operand join)
      (Parser.chainLeft isOperator operand join) := by
  have carriesStep := CarriesStep.of_carries (carries.nextOperand notOpener)
    (rejectsInPlace_nextOperand isOperator operand join) .refl
  apply Carries.attempt
  apply carries.bind
  intro first other tokens tokens' tokens'' place
  exact carriesStep.repeats (repeats_moreOperands isOperator operand join) first other place
    trivial enough_length

end Operands

section Arguments

variable {head : Parser α} {argument : Parser β} {apply : Position → α → β → α} {ending : Prop}

/-- An argument has an outcome wherever the runs belong together.  At the opening token this may
depend on what stands before it. -/
structure CarriesArgument (deletion : Deletion) (ending : Prop) (argument : Parser β) : Prop where
  outcome : ∀ ⦃tokens tokens' tokens''⦄, Place deletion tokens tokens' tokens'' →
    (tokens = deletion.whole → ending) →
      Outcome deletion 1 tokens tokens' tokens'' (argument tokens) (argument tokens')
        (argument tokens'')
  inPlace : RejectsInPlace argument
  ends : ∀ {tokens tokens' tokens'' value}, Place deletion tokens tokens' tokens'' →
    argument tokens = .ok (.accept value deletion.whole) → ending

theorem CarriesArgument.carriesStep (carries : CarriesArgument deletion ending argument) :
    CarriesStep deletion (fun tokens => tokens = deletion.whole → ending) (fun tokens => tokens)
      (Grammar.nextArgument argument apply) where
  outcome := by
    intro tokens tokens' tokens'' state other place atOpener
    by_cases atEnd : tokens = []
    · subst atEnd
      exact .failed
    have outcome := carries.outcome place atOpener
    obtain ⟨token, others, others', others'', rfl, rfl, rfl⟩ := place.exists_cons atEnd
    exact outcome.bind fun _ remains => .accept (.refl remains.place)
  suits := by
    rintro tokens tokens' tokens'' _ state next place accepted rfl
    obtain ⟨position, given, acceptedArgument, rfl⟩ := nextArgument_eq_accept accepted
    exact carries.ends place acceptedArgument
  rejects := carries.inPlace.nextArgument apply
  stops := .refl

theorem CarriesArgument.applied (carries : CarriesArgument deletion ending argument)
    (outcome : Outcome deletion 1 tokens tokens' tokens'' (head tokens) (head tokens')
      (head tokens''))
    (ends : ∀ value, head tokens = .ok (.accept value deletion.whole) → ending) :
    Outcome deletion 1 tokens tokens' tokens'' (Parser.applied head argument apply tokens)
      (Parser.applied head argument apply tokens')
      (Parser.applied head argument apply tokens'') := by
  apply Outcome.attempt
  apply outcome.bind
  intro value other rest rest' rest'' accepted remains
  have atOpener : rest = deletion.whole → ending := by
    rintro rfl
    exact ends value accepted
  have outcomeNext (position position' : Position) : Outcome deletion 0 rest rest' rest''
      ((argument >>= fun given tokens =>
        Parser.moreArguments argument apply tokens.length value position given tokens) rest)
      ((argument >>= fun given tokens =>
        Parser.moreArguments argument apply tokens.length value position given tokens) rest')
      ((argument >>= fun given tokens =>
        Parser.moreArguments argument apply tokens.length other position' given tokens)
          rest'') := by
    refine Outcome.mono ?_ (Nat.zero_le 1)
    apply (carries.outcome remains.place atOpener).bind
    intro given given' left left' left'' acceptedArgument taken
    refine carries.carriesStep.repeats (repeats_moreArguments argument apply)
      (value, position, given) (other, position', given') taken.place ?_ enough_length
    rintro rfl
    exact carries.ends remains.place acceptedArgument
  by_cases atEnd : rest = []
  · rw [atEnd]
    exact .failed
  obtain ⟨token, others, others', others'', rfl, rfl, rfl⟩ := remains.place.exists_cons atEnd
  exact outcomeNext token.position token.position

end Arguments

section Lines

variable {line : Parser α}

/-- A parser for a line skips the newlines in front of it, and rejects after them. -/
structure CarriesLine (deletion : Deletion) (line : Parser α) : Prop where
  carries : Carries deletion 1 line line
  rejected : RejectsAt dropNewlines line

theorem CarriesLine.many (carries : CarriesLine deletion line) :
    Carries deletion 0 (Parser.many line) (Parser.many line) := by
  have carriesNext (read other : List α) :
      Carries deletion 1 (nextValue line read) (nextValue line other) :=
    carries.carries.bind fun _ _ => Carries.pure _ _
  have rejects (read : List α) : RejectsAt dropNewlines (nextValue line read) :=
    carries.rejected.bind fun _ => neverRejects_pure _
  have carriesStep := CarriesStep.of_carries carriesNext rejects Remains.skipNewlines
  intro tokens tokens' tokens'' place
  rw [many_eq, many_eq, many_eq]
  exact carriesStep.repeats (repeats_manyUpTo line) [] [] place trivial enough_length

end Lines

end StackScript.Grammar.Commas
