import StackScript.Proofs.Ending.Outcome

/-!
# Repetition before a newline

Lists of items, operands, arguments and lines, read up to the end of a script and once more
with a newline after it.  A list that has not been closed fails in both runs, and an operator
without an operand is left by both.  The last argument is lost without the newline
(`Outcome.lastArgument`), because an argument is applied only when a token is seen after it.
-/

namespace StackScript.Grammar

/-- The last of some values is cut. -/
def cutLast {α : Type} (cut : α → α) : List α → List α
  | [] => []
  | [value] => [cut value]
  | value :: next :: rest => value :: cutLast cut (next :: rest)

namespace Ending

open StackScript.Grammar.Parser

variable {ending : Ending} {α β : Type} {bound least : Nat} {tokens : List Token}
variable {ends : α → α → List Token → Prop}

section Items

variable {item : Parser α}

/-- A value between two tokens.  If the closing token is the last one, the value is whole. -/
theorem Continues.wrapped {opening closing : Kind}
    (opens : opening ∈ [.openParen, .openBracket])
    (closes : closing ∈ [.closeParen, .closeBracket])
    (continues : ending.Continues bound least item ends) (waits : ending.Waits item)
    (isLeft : ∀ {value value' left}, ends value value' left →
      left = [] ∨ left = [ending.newline]) :
    ending.Continues (bound + 1) 1 (Parser.wrapped opening closing item)
      (ending.Whole (ending.last.kind = closing)) := by
  have notNewline : decide (ending.newline.kind = closing) = false := by
    apply newline_kind_ne
    rintro rfl
    simp at closes
  apply Continues.attempt
  apply Continues.skip
  · refine continues.followed ?_ fun _ fit => Outcome.demand notNewline (isLeft fit)
    intro value
    refine Continues.demand (Continues.pure value) fun _ isClosing => ?_
    have isKind := of_decide_eq_true isClosing
    refine Outcome.pure (not_opens_of_kind isKind ?_) ⟨rfl, rfl, isKind⟩
    simp only [List.mem_cons, List.not_mem_nil, or_false] at closes
    rcases closes with rfl | rfl <;> decide
  · intro _ isOpening
    apply waits.opened
    rw [Opens, of_decide_eq_true isOpening]
    simp only [List.mem_cons, List.not_mem_nil, or_false] at opens ⊢
    rcases opens with rfl | rfl <;> decide

end Items

/-! ## Repetition -/

section Repetition

variable {σ : Type} {step : σ → Parser σ} {ended stopped : σ → α} {replies : Nat → σ → Parser α}
variable {place : List Token → List Token} {states : σ → σ → List Token → Prop}

/-- A repetition has an outcome if its step has one, if it stops at the same place in both runs,
and if both values fit together where the step has read all tokens. -/
theorem Continues.repeats (repeats : Repeats step ended stopped replies)
    (continues : ∀ state, ending.Continues bound 1 (step state) states)
    (rejects : ∀ state, RejectsAt place (step state))
    (stops : ∀ state, ending.Continues bound 0 (leave place (stopped state)) ends)
    (atEnd : ∀ {tokens times times' next next' left}, 0 < times' → ¬ ending.Opens →
      states next next' left →
        ending.Outcome 0 tokens ends (replies times next []) (replies times' next' left))
    {times times' : Nat} (state : σ) (reaches : ending.Reaches tokens)
    (short : tokens.length < bound) (enough : tokens.length ≤ times)
    (enough' : tokens.length < times') :
    ending.Outcome 0 tokens ends (replies times state tokens)
      (replies times' state (tokens ++ [ending.newline])) := by
  induction times generalizing times' state tokens with
  | zero => exact absurd (List.eq_nil_of_length_eq_zero (Nat.le_zero.mp enough)) reaches.ne_nil
  | succ times ih =>
      have outcome := continues state tokens reaches short
      have rejected := rejects state tokens
      have rejected' := rejects state (tokens ++ [ending.newline])
      have left := stops state tokens reaches short
      obtain ⟨token, others, rfl, -⟩ := reaches.cons
      obtain ⟨times', rfl⟩ := Nat.exists_eq_succ_of_ne_zero (n := times') (by omega)
      rw [List.length_cons] at short enough enough'
      rw [List.cons_append] at outcome rejected' left ⊢
      rw [repeats.turn, repeats.turn]
      generalize step state (token :: others) = reply,
        step state (token :: (others ++ [ending.newline])) = reply'
        at outcome rejected rejected' ⊢
      apply outcome.andThen
      case fails | fails' => exact fun _ => rfl
      case onAccept =>
          intro next rest reachesRest shorter
          rw [List.length_cons] at shorter
          exact (ih next reachesRest (by omega) (by omega) (by omega)).later
            (by rw [List.length_cons]; omega)
      case onEnd => exact fun closed fit => atEnd (by omega) closed fit
      case onReject =>
          rintro _ _ rfl rfl
          cases rejected _ rfl
          cases rejected' _ rfl
          exact left
      case alone =>
          rintro _ rfl opens
          cases rejected' _ rfl
          exact left.stopsBefore opens

/-- A repetition that has read all tokens in both runs. -/
theorem Outcome.repeats_nil (repeats : Repeats step ended stopped replies)
    (closed : ¬ ending.Opens) {times times' : Nat} {state state' : σ}
    (fit : ends (ended state) (ended state') []) :
    ending.Outcome least tokens ends (replies times state []) (replies times' state' []) := by
  rw [repeats.atEnd, repeats.atEnd]
  exact .ended closed fit

/-- A repetition that has read all tokens, and whose step rejects the newline. -/
theorem Outcome.repeats_newline (repeats : Repeats step ended stopped replies)
    (closed : ¬ ending.Opens) {times times' : Nat} (enough : 0 < times') {state state' : σ}
    {left : List Token} (rejected : step state' [ending.newline] = .ok (.reject left))
    (fit : ends (ended state) (stopped state') left) :
    ending.Outcome least tokens ends (replies times state [])
      (replies times' state' [ending.newline]) := by
  rw [repeats.atEnd, repeats.rejected rejected enough]
  exact .ended closed fit

theorem Continues.offered {parser : Parser α}
    (continues : ending.Continues bound least parser ends) :
    ending.Continues bound least (Grammar.offered parser) ends := by
  intro tokens reaches short
  obtain ⟨token, rest, rfl, -⟩ := reaches.cons
  exact continues.attempt _ reaches short

theorem continues_leave_dropNewlines (value : α)
    (atEnd : ending.last.kind = .newline → ends value value []) :
    ending.Continues bound 0 (leave dropNewlines value) ends := by
  intro tokens reaches _
  unfold leave
  rcases reaches.dropNewlines with ⟨dropped, dropped', isNewline⟩ | ⟨reachesRest, dropped'⟩
  · rw [dropped, dropped']
    exact .ended (not_opens_of_kind isNewline (by decide)) (atEnd isNewline)
  · rw [dropped']
    exact .accept reachesRest (length_dropNewlines_le tokens)

theorem Continues.newlines :
    ending.Continues bound 0 Parser.newlines fun _ _ left => left = [] :=
  continues_leave_dropNewlines () fun _ => rfl

/-- What is left after a comma of its list. -/
theorem continues_leave_afterComma (value : α) :
    ending.Continues bound 0 (leave afterComma value) ending.Left := by
  intro tokens reaches short
  obtain ⟨token, others, rfl, -⟩ := reaches.cons
  unfold leave
  rw [List.cons_append, afterComma, afterComma]
  by_cases isComma : token.kind = .comma
  case neg =>
      rw [if_neg isComma, if_neg isComma]
      exact .accept reaches (Nat.le_refl _)
  rw [if_pos isComma, if_pos isComma]
  rcases reaches.dropNewlines_tail (by simp [isComma]) with
    ⟨dropped, dropped', closed⟩ | ⟨reachesNext, dropped'⟩
  · rw [dropped, dropped']
    exact .ended closed (.inl rfl)
  · rw [dropped']
    exact .accept reachesNext (Nat.le_succ_of_le (length_dropNewlines_le others))

end Repetition

section Items

variable {item : Parser α}

theorem dropNewlines_newline : dropNewlines [ending.newline] = [] := by
  simp [dropNewlines, ending.isNewline]

theorem Continues.nextItem (continues : ending.Continues bound least item ends)
    (isLeft : ∀ {value value' left}, ends value value' left →
      left = [] ∨ left = [ending.newline]) (read : List α) :
    ending.Continues bound 1 (Grammar.nextItem item read) ending.Left := by
  have continuesSkip : ending.Continues (bound + 1) 1 (Grammar.nextItem item read) ending.Left := by
    apply Continues.skip
    · refine Continues.newlines.followed (fun _ => ?_) ?_
      · exact (continues.offered.mono (Nat.le_refl _) (Nat.zero_le _) id).map isLeft
      · rintro _ _ _ _ _ rfl
        exact .reject
    · intro _ _
      rw [newlines_bind, newlines_bind, dropNewlines_newline]
      exact .reject
  exact continuesSkip.mono (Nat.le_succ _) (Nat.le_refl _) id

/-- No item follows where the tokens have ended. -/
theorem Outcome.lastItem {times times' : Nat} {read read' : List α} {left : List Token}
    (enough : 0 < times') (closed : ¬ ending.Opens) (isLeft : ending.Left read read' left) :
    ending.Outcome least tokens ending.Left (withItems read (Parser.moreItems item times []))
      (withItems read' (Parser.moreItems item times' left)) := by
  rcases isLeft with rfl | rfl
  · exact Outcome.repeats_nil (repeats_moreItems item) closed (.inl rfl)
  · exact Outcome.repeats_newline (repeats_moreItems item) closed enough
      (nextItem_other (by simp [ending.isNewline])) (.inr rfl)

theorem Continues.commaSeparated (continues : ending.Continues bound least item ends)
    (waits : ending.Waits item)
    (isLeft : ∀ {value value' left}, ends value value' left →
      left = [] ∨ left = [ending.newline]) :
    ending.Continues bound 0 (Parser.commaSeparated item) ending.Left := by
  intro tokens reaches short
  rw [commaSeparated_eq, commaSeparated_eq]
  rcases reaches.dropNewlines with ⟨dropped, dropped', _⟩ | ⟨reachesNext, dropped'⟩
  · obtain ⟨error, fails⟩ := waits.1
    rw [dropped, dropped', fails]
    exact .failed
  have shorter := length_dropNewlines_le tokens
  have outcome := continues _ reachesNext (by omega)
  rw [dropped']
  generalize item (dropNewlines tokens) = reply,
    item (dropNewlines tokens ++ [ending.newline]) = reply' at outcome ⊢
  apply outcome.andThen
  case fails | fails' => exact fun _ => rfl
  case onAccept =>
      intro value rest reachesRest shorterRest
      have more := Continues.repeats (repeats_moreItems item) (continues.nextItem isLeft)
        (rejectsAt_nextItem item) continues_leave_afterComma Outcome.lastItem [value] reachesRest
        (by omega) (Nat.le_refl _) (show rest.length < (rest ++ [ending.newline]).length by simp)
      exact more.later (by omega)
  case onEnd =>
      intro value value' left closed fit
      rcases isLeft fit with rfl | rfl
      · exact .repeats_nil (repeats_moreItems item) closed (.inl rfl)
      · exact Outcome.lastItem (by simp) closed (.inr rfl)
  case onReject => exact fun _ _ => .accept reaches (Nat.le_refl _)
  case alone =>
      rintro _ _ _ _ _ ⟨⟩
      exact ⟨tokens, rfl, reaches, Nat.le_refl _⟩

theorem Waits.commaSeparated (waits : ending.Waits item) :
    ending.Waits (Parser.commaSeparated item) := by
  obtain ⟨error, fails⟩ := waits.1
  refine ⟨⟨error, ?_⟩, fun value rest replied => ?_⟩
  · rw [Parser.commaSeparated, List.dropWhile_nil, fails]
  · rw [commaSeparated_eq, dropNewlines_newline, fails] at replied
    cases replied

end Items

section Operands

variable {operand : Parser α} {isOperator : Token → Bool} {join : Token → α → α → α}

theorem Continues.nextOperand (continues : ending.Continues bound least operand ends)
    (declines : ending.Declines operand)
    (joins : ∀ operator left right right' rest, ends right right' rest →
      ends (join operator left right) (join operator left right') rest) (left : α) :
    ending.Continues bound 1 (Grammar.nextOperand isOperator operand join left) ends := by
  have continuesOperator : ending.Continues (bound + 1) 1
      (Grammar.nextOperand isOperator operand join left) ends := by
    apply Continues.attempt
    apply Continues.satisfy
    · intro operator _
      exact (continues.offered.mono (Nat.le_refl _) (Nat.zero_le _) id).map (joins _ _ _ _ _)
    · -- An operator at the end has no operand in either run.
      intro _ _
      rw [bind_reject (show Grammar.offered operand [] = _ from rfl),
        bind_reject (show Grammar.offered operand [ending.newline] = _ from declines.attempt.2)]
      exact .reject
  exact continuesOperator.mono (Nat.le_succ _) (Nat.le_refl _) id

theorem Continues.chainLeft (continues : ending.Continues bound least operand ends)
    (declines : ending.Declines operand)
    (isLeft : ∀ {value value' rest}, ends value value' rest → rest = [ending.newline])
    (joins : ∀ operator left right right' rest, ends right right' rest →
      ends (join operator left right) (join operator left right') rest) :
    ending.Continues bound least (Parser.chainLeft isOperator operand join) ends := by
  apply Continues.attempt
  refine continues.bind ?_ ?_
  · intro first tokens reaches short
    refine Continues.repeats (repeats_moreOperands isOperator operand join)
      (continues.nextOperand declines joins) (rejectsInPlace_nextOperand isOperator operand join)
      (fun left => Continues.pure left) ?_ first reaches (by omega) (Nat.le_refl _) (by simp)
    intro _ _ _ _ _ _ enough closed fit
    cases isLeft fit
    exact .repeats_newline (repeats_moreOperands isOperator operand join) closed enough
      nextOperand_single fit
  · intro _ _ _ _ closed fit
    cases isLeft fit
    exact .repeats_newline (repeats_moreOperands isOperator operand join) closed (by simp)
      nextOperand_single fit

theorem Declines.chainLeft (declines : ending.Declines operand) :
    ending.Declines (Parser.chainLeft isOperator operand join) :=
  (declines.bind _).attempt

end Operands

section Arguments

variable {head : Parser α} {argument : Parser β} {apply : Position → α → β → α} {fact : Prop}

/-- The longer run has applied the value of the shorter one to the argument that it has read
last. -/
def Unapplied (ending : Ending) (apply : Position → α → β → α) (fact : Prop)
    (value value' : α) (left : List Token) : Prop :=
  (∃ position given, value' = apply position value given) ∧ left = [ending.newline] ∧ fact

/-- An argument at the end is lost without the newline, and applied with it. -/
theorem Outcome.lastArgument (declines : ending.Declines argument) (isFact : fact)
    (closed : ¬ ending.Opens) {times times' : Nat} (enough : 0 < times')
    (state : α × Position × β) :
    ending.Outcome least tokens (ending.Unapplied apply fact)
      (Parser.moreArguments argument apply times state.1 state.2.1 state.2.2 [])
      (Parser.moreArguments argument apply times' state.1 state.2.1 state.2.2
        [ending.newline]) := by
  have rejected : Grammar.nextArgument argument apply state [ending.newline] =
      .ok (.reject [ending.newline]) :=
    (Declines.nextPosition fun _ => declines.bind _).2
  exact .repeats_newline (repeats_moreArguments argument apply) closed enough rejected
    ⟨⟨state.2.1, state.2.2, rfl⟩, rfl, isFact⟩

theorem Continues.nextArgument
    (continues : ending.Continues bound 1 argument (ending.Whole fact))
    (state : α × Position × β) :
    ending.Continues bound 1 (Grammar.nextArgument argument apply state) (ending.Whole fact) := by
  apply Continues.nextPosition
  intro position
  apply continues.map
  rintro _ _ _ ⟨rfl, isLeft, isFact⟩
  exact ⟨rfl, isLeft, isFact⟩

/-- A head with arguments.  If the head is all there is, the shorter run asks in vain for the
position of what follows. -/
theorem Continues.applied
    (continuesHead : ending.Continues bound least head (ending.Whole ending.LooksAhead))
    (continues : ending.Continues bound 1 argument (ending.Whole fact))
    (declines : ending.Declines argument) (inPlace : RejectsInPlace argument) :
    ending.Continues bound least (Parser.applied head argument apply)
      (ending.Unapplied apply fact) := by
  have continuesLater := continues.mono (Nat.sub_le bound least) (Nat.le_refl _) id
  apply Continues.attempt
  refine continuesHead.bind ?_ fun _ fit => .missed fit.2.2
  intro value
  apply Continues.nextPosition
  intro position
  refine continuesLater.followed ?_ ?_
  · intro given tokens reaches short
    refine Continues.repeats (repeats_moreArguments argument apply) continuesLater.nextArgument
      (inPlace.nextArgument apply) (fun state => Continues.pure _) ?_ (value, position, given)
      reaches short (Nat.le_refl _) (by simp)
    rintro _ _ _ _ state _ enough closed ⟨rfl, rfl, isFact⟩
    exact Outcome.lastArgument declines isFact closed enough state
  · rintro _ _ given _ closed ⟨rfl, rfl, isFact⟩
    exact Outcome.lastArgument declines isFact closed (by simp) (value, position, given)

end Arguments

section Lines

variable {line : Parser α} {cut : α → α} {closes : α → Prop}

/-- The longer run has read the value that is cut in the shorter one.  It ends neither in a
symbol, which is missed, nor in a newline, and in a closing parenthesis only if it is a value
that does. -/
structure Cut (ending : Ending) (cut : α → α) (closes : α → Prop) (value value' : α)
    (left : List Token) : Prop where
  cutOff : value = cut value'
  isLeft : left = [ending.newline]
  notSymbol : ending.last.kind ≠ .symbol
  notNewline : ending.last.kind ≠ .newline
  closes : ending.last.kind = .closeParen → closes value'

/-- Of the values that the longer run has read, the shorter one has cut the last, unless the
tokens end in a newline anyway.  The longer run has skipped the newline. -/
structure LastCut (ending : Ending) (cut : α → α) (closes : α → Prop) (values values' : List α)
    (left : List Token) : Prop where
  nothing : left = []
  notSymbol : ending.last.kind ≠ .symbol
  same : ending.last.kind = .newline → values = values'
  cutOff : ending.last.kind ≠ .newline → values' ≠ [] ∧ values = cutLast cut values'
  closes : ending.last.kind = .closeParen → ∃ value, values'.getLast? = some value ∧ closes value

theorem cutLast_append (cut : α → α) (read : List α) (value : α) :
    cutLast cut (read ++ [value]) = read ++ [cut value] := by
  induction read with
  | nil => rfl
  | cons first rest ih =>
      rw [List.cons_append, List.cons_append, ← ih]
      cases rest <;> rfl

/-- The last of the values that have been read is cut. -/
def ReadCut (ending : Ending) (cut : α → α) (closes : α → Prop) (values values' : List α)
    (left : List Token) : Prop :=
  ∃ read value value', values = read ++ [value] ∧ values' = read ++ [value'] ∧
    ending.Cut cut closes value value' left

/-- A parser for a line skips the newlines in front of it, and rejects after them. -/
structure ContinuesLine (ending : Ending) (bound : Nat) (line : Parser α) (cut : α → α)
    (closes : α → Prop) : Prop where
  blank : 0 < bound → ∀ tokens, dropNewlines tokens = [] → line tokens = .ok (.reject [])
  outcome : ∀ tokens, ending.Reaches tokens → ending.Reaches (dropNewlines tokens) →
    tokens.length < bound →
      ending.Outcome 1 tokens (ending.Cut cut closes) (line tokens)
        (line (tokens ++ [ending.newline]))
  rejected : RejectsAt dropNewlines line

/-- The newline is skipped where no line follows. -/
theorem manyUpTo_newline
    (blank : ∀ tokens, dropNewlines tokens = [] → line tokens = .ok (.reject []))
    {times : Nat} (enough : 0 < times) :
    Parser.manyUpTo line times [ending.newline] = .ok (.accept [] []) := by
  rw [← withItems_nil (Parser.manyUpTo line times [ending.newline])]
  exact (repeats_manyUpTo line).rejected (bind_reject (blank _ dropNewlines_newline)) enough

theorem ContinuesLine.continues (continues : ending.ContinuesLine bound line cut closes) :
    ending.Continues bound 1 line (ending.Cut cut closes) := by
  intro tokens reaches short
  rcases reaches.dropNewlines with ⟨dropped, dropped', _⟩ | ⟨reachesLine, _⟩
  · have blank := continues.blank (Nat.zero_lt_of_lt short)
    rw [blank _ dropped, blank _ dropped']
    exact .reject
  · exact continues.outcome tokens reaches reachesLine short

theorem Continues.many (continues : ending.ContinuesLine bound line cut closes) :
    ending.Continues bound 0 (Parser.many line) (ending.LastCut cut closes) := by
  intro tokens reaches short
  have blank := continues.blank (Nat.zero_lt_of_lt short)
  rw [many_eq, many_eq]
  have continuesNext (read : List α) : ending.Continues bound 1 (nextValue line read)
      (ending.ReadCut cut closes) :=
    continues.continues.map fun fit => ⟨read, _, _, rfl, rfl, fit⟩
  have rejects (read : List α) : RejectsAt dropNewlines (nextValue line read) :=
    continues.rejected.bind fun _ => neverRejects_pure _
  refine Continues.repeats (repeats_manyUpTo line) continuesNext rejects
    (fun read => continues_leave_dropNewlines read fun isNewline =>
      ⟨rfl, by simp [isNewline], fun _ => rfl, absurd isNewline, by simp [isNewline]⟩)
    ?_ [] reaches short (Nat.le_refl _) (by simp)
  rintro _ _ _ _ _ _ enough closed ⟨read, _, value, rfl, rfl, ⟨rfl, rfl, notSymbol, notNewline,
    closesValue⟩⟩
  refine .repeats_newline (repeats_manyUpTo line) closed enough
    (bind_reject (blank _ dropNewlines_newline)) ?_
  exact
    { nothing := rfl
      notSymbol := notSymbol
      same := fun isNewline => absurd isNewline notNewline
      cutOff := fun _ => ⟨by simp, (cutLast_append cut read value).symm⟩
      closes := fun isClosing => ⟨value, by simp, closesValue isClosing⟩ }

end Lines

end Ending

end StackScript.Grammar
