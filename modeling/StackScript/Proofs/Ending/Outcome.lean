import StackScript.Proofs.Grammar.Places

/-!
# A newline after the last token

A parser is run on the tokens of a script from some place up to the end, and once more on the
same tokens with a newline after them.  As long as tokens are left, both runs go the same way.
Where they end, the shorter run may raise an error that the longer one does not, since the
grammar asks for a token and finds none; this happens only after certain last tokens.  It may
also accept another value, since what was read last is lost.

`Outcome` is what both runs report, and `Continues` says that a parser has such an outcome on
all tokens up to the end.  There is one lemma for each combinator; those for repetition stand in
a module of their own.
-/

namespace StackScript.Grammar

open StackScript.Grammar.Parser

/-- The last token of a script, and a newline that is put after it. -/
structure Ending where
  last : Token
  newline : Token
  plain : last.IsPlain
  isNewline : newline.kind = .newline
  notBare : newline.text ∉ bareWords

namespace Ending

variable (ending : Ending) {α β γ : Type}

/-- Tokens up to the end of the script, and at least one of them. -/
def Reaches (tokens : List Token) : Prop :=
  tokens.getLast? = some ending.last

/-- The last token is one after which the grammar may look at the next token, whatever it
is. -/
def LooksAhead : Prop :=
  ending.last.kind ∈ [.symbol, .closeParen]

/-- The last token is one that nothing can end with. -/
def Opens : Prop :=
  ending.last.kind ∈ [.openParen, .openBracket, .addition]

/-- A run on the tokens and the newline leaves the newline and a token before it, if it
accepts. -/
def StopsBefore (least : Nat) (tokens : List Token) (reply : Except Error (Reply α)) : Prop :=
  ∀ value left, reply = .ok (.accept value left) →
    ∃ rest, left = rest ++ [ending.newline] ∧ ending.Reaches rest ∧
      rest.length + least ≤ tokens.length

/-- What a parser reports on tokens up to the end, and on these tokens and the newline.  If it
reads all tokens, both values and what is left of the newline fit together. -/
inductive Outcome (least : Nat) (tokens : List Token) (ends : α → α → List Token → Prop) :
    Except Error (Reply α) → Except Error (Reply α) → Prop where
  | accept {value : α} {rest : List Token} (reaches : ending.Reaches rest)
      (shorter : rest.length + least ≤ tokens.length) :
      Outcome least tokens ends (.ok (.accept value rest))
        (.ok (.accept value (rest ++ [ending.newline])))
  | ended {value value' : α} {left : List Token} (closed : ¬ ending.Opens)
      (atEnd : ends value value' left) :
      Outcome least tokens ends (.ok (.accept value [])) (.ok (.accept value' left))
  | reject {rest rest' : List Token} :
      Outcome least tokens ends (.ok (.reject rest)) (.ok (.reject rest'))
  | failed {error error' : Error} :
      Outcome least tokens ends (.error error) (.error error')
  | missed {error : Error} {reply : Except Error (Reply α)} (looksAhead : ending.LooksAhead) :
      Outcome least tokens ends (.error error) reply
  | opened {error : Error} {reply : Except Error (Reply α)} (opens : ending.Opens)
      (stops : ending.StopsBefore least tokens reply) :
      Outcome least tokens ends (.error error) reply

/-- A parser that has an outcome on all tokens up to the end that are fewer than a bound. -/
def Continues (bound least : Nat) (parser : Parser α) (ends : α → α → List Token → Prop) :
    Prop :=
  ∀ tokens, ending.Reaches tokens → tokens.length < bound →
    ending.Outcome least tokens ends (parser tokens) (parser (tokens ++ [ending.newline]))

/-- A parser that accepts neither where the tokens have ended nor at the newline. -/
def Waits (parser : Parser α) : Prop :=
  (∃ error, parser [] = .error error) ∧
    ∀ value rest, parser [ending.newline] ≠ .ok (.accept value rest)

/-- A parser that fails where the tokens have ended, and rejects the newline. -/
def Declines (parser : Parser α) : Prop :=
  (∃ error, parser [] = .error error) ∧
    parser [ending.newline] = .ok (.reject [ending.newline])

/-- Both values are the same and the newline is left, and a fact about the last token is
known. -/
def Whole (fact : Prop) (value value' : α) (left : List Token) : Prop :=
  value' = value ∧ left = [ending.newline] ∧ fact

/-- The newline may be left or not. -/
def Left (_ _ : α) (left : List Token) : Prop :=
  left = [] ∨ left = [ending.newline]

variable {ending} {bound least : Nat} {tokens rest : List Token}
variable {ends : α → α → List Token → Prop}

theorem kind_of_text {word : String} (isKeyword : word ∈ Lexer.keywords)
    (isWord : ending.last.text = word) : ending.last.kind = .keyword :=
  ending.plain.keyword_iff.mpr (isWord ▸ isKeyword)

theorem not_opens_of_kind {kind : Kind} (isKind : ending.last.kind = kind)
    (other : kind ∉ [.openParen, .openBracket, .addition]) : ¬ ending.Opens := by
  rwa [Opens, isKind]

theorem LooksAhead.not_opens (looksAhead : ending.LooksAhead) : ¬ ending.Opens := by
  simp only [LooksAhead, List.mem_cons, List.not_mem_nil, or_false] at looksAhead
  rcases looksAhead with isKind | isKind <;> exact not_opens_of_kind isKind (by decide)

theorem newline_kind_ne {kind : Kind} (other : kind ≠ .newline) :
    decide (ending.newline.kind = kind) = false := by
  rw [ending.isNewline]
  exact decide_eq_false other.symm

theorem newline_text_ne {word : String} (isBare : word ∈ bareWords) :
    decide (ending.newline.text = word) = false :=
  decide_eq_false fun isWord => ending.notBare (isWord ▸ isBare)

theorem newline_not_keyword (word : String) : ending.newline.isKeyword word = false := by
  simp [Token.isKeyword, ending.isNewline]

theorem Reaches.cons (reaches : ending.Reaches tokens) :
    ∃ token rest, tokens = token :: rest ∧
      (rest = [] ∧ token = ending.last ∨ ending.Reaches rest) := by
  cases tokens with
  | nil => cases reaches
  | cons token rest =>
      refine ⟨token, rest, rfl, ?_⟩
      cases rest with
      | nil => exact .inl ⟨rfl, Option.some.inj reaches⟩
      | cons next others =>
          right
          rw [Reaches, List.getLast?_cons_cons] at reaches
          exact reaches

theorem Reaches.ne_nil (reaches : ending.Reaches tokens) : tokens ≠ [] := by
  rintro rfl
  cases reaches

/-- Newlines are skipped up to the same token, or all tokens are newlines. -/
theorem Reaches.dropNewlines (reaches : ending.Reaches tokens) :
    (dropNewlines tokens = [] ∧ dropNewlines (tokens ++ [ending.newline]) = [] ∧
        ending.last.kind = .newline) ∨
      ending.Reaches (dropNewlines tokens) ∧
        dropNewlines (tokens ++ [ending.newline]) = dropNewlines tokens ++ [ending.newline] := by
  induction tokens with
  | nil => cases reaches
  | cons token rest ih =>
      by_cases isNewline : token.kind = .newline
      · obtain ⟨_, _, same, atEnd⟩ := reaches.cons
        cases same
        rw [List.cons_append]
        simp only [Grammar.dropNewlines, isNewline, decide_true, List.dropWhile_cons_of_pos]
        rcases atEnd with ⟨rfl, rfl⟩ | reaches
        · exact .inl ⟨rfl, by simp [ending.isNewline], isNewline⟩
        · exact ih reaches
      · rw [List.cons_append]
        simp only [Grammar.dropNewlines, isNewline, decide_false, Bool.false_eq_true,
          not_false_eq_true, List.dropWhile_cons_of_neg]
        exact .inr ⟨reaches, rfl⟩

/-- Newlines are skipped after a token, and perhaps nothing else follows. -/
theorem Reaches.dropNewlines_tail {token : Token} (reaches : ending.Reaches (token :: rest))
    (closed : token.kind ∉ [.openParen, .openBracket, .addition]) :
    (Grammar.dropNewlines rest = [] ∧ Grammar.dropNewlines (rest ++ [ending.newline]) = [] ∧
        ¬ ending.Opens) ∨
      ending.Reaches (Grammar.dropNewlines rest) ∧
        Grammar.dropNewlines (rest ++ [ending.newline]) =
          Grammar.dropNewlines rest ++ [ending.newline] := by
  obtain ⟨_, _, same, atEnd⟩ := reaches.cons
  cases same
  rcases atEnd with ⟨rfl, rfl⟩ | reachesRest
  · exact .inl ⟨rfl, by simp [Grammar.dropNewlines, ending.isNewline], closed⟩
  · rcases reachesRest.dropNewlines with ⟨dropped, dropped', isNewline⟩ | later
    · exact .inl ⟨dropped, dropped', not_opens_of_kind isNewline (by decide)⟩
    · exact .inr later

/-! ## Outcomes -/

namespace Outcome

variable {reply reply' : Except Error (Reply α)}

/-- What is known at the end may be weakened, and so may the number of tokens that have been
taken. -/
theorem imp {ends' : α → α → List Token → Prop} {fewer : Nat} {tokens' : List Token}
    (outcome : ending.Outcome least tokens ends reply reply')
    (atEnd : ∀ {value value' left}, ends value value' left → ends' value value' left)
    (fits : ∀ length, length + least ≤ tokens.length → length + fewer ≤ tokens'.length) :
    ending.Outcome fewer tokens' ends' reply reply' := by
  cases outcome with
  | accept reaches shorter => exact .accept reaches (fits _ shorter)
  | ended closed fit => exact .ended closed (atEnd fit)
  | reject => exact .reject
  | failed => exact .failed
  | missed looksAhead => exact .missed looksAhead
  | opened opens stops =>
      refine .opened opens fun value left replied => ?_
      obtain ⟨rest, isLeft, reaches, shorter⟩ := stops value left replied
      exact ⟨rest, isLeft, reaches, fits _ shorter⟩

/-- What is left of tokens of which some have been taken already. -/
theorem later (outcome : ending.Outcome 0 rest ends reply reply')
    (shorter : rest.length + least ≤ tokens.length) :
    ending.Outcome least tokens ends reply reply' :=
  outcome.imp id fun _ _ => by omega

/-- A token that nothing can end with is not read. -/
theorem stopsBefore (outcome : ending.Outcome least tokens ends reply reply')
    (opens : ending.Opens) : ending.StopsBefore least tokens reply' := by
  cases outcome with
  | accept reaches shorter =>
      rintro _ _ ⟨⟩
      exact ⟨_, rfl, reaches, shorter⟩
  | ended closed _ => exact absurd opens closed
  | reject => nofun
  | failed => nofun
  | missed looksAhead => exact absurd opens looksAhead.not_opens
  | opened _ stops => exact stops

/-- Nothing is asked of values at the end if the end is not reached. -/
theorem of_not_ended {ends' : α → α → List Token → Prop}
    (outcome : ending.Outcome least tokens ends reply reply')
    (notEnded : ∀ value, reply ≠ .ok (.accept value [])) :
    ending.Outcome least tokens ends' reply reply' := by
  cases outcome with
  | accept reaches shorter => exact .accept reaches shorter
  | ended _ _ => exact absurd rfl (notEnded _)
  | reject => exact .reject
  | failed => exact .failed
  | missed looksAhead => exact .missed looksAhead
  | opened opens stops => exact .opened opens stops

/-- Both runs go on after their replies, and errors end them.  Where only the shorter run has
failed, the longer one goes on alone: from a place before the last token, or after a
rejection. -/
theorem andThen {results : β → β → List Token → Prop} {fewer : Nat} {start : List Token}
    {next next' : Except Error (Reply α) → Except Error (Reply β)}
    (outcome : ending.Outcome least tokens ends reply reply')
    (fails : ∀ error, next (.error error) = .error error)
    (fails' : ∀ error, next' (.error error) = .error error)
    (onAccept : ∀ {value rest}, ending.Reaches rest → rest.length + least ≤ tokens.length →
      ending.Outcome fewer start results (next (.ok (.accept value rest)))
        (next' (.ok (.accept value (rest ++ [ending.newline])))))
    (onEnd : ∀ {value value' left}, ¬ ending.Opens → ends value value' left →
      ending.Outcome fewer start results (next (.ok (.accept value [])))
        (next' (.ok (.accept value' left))))
    (onReject : ∀ {rest rest'}, reply = .ok (.reject rest) → reply' = .ok (.reject rest') →
      ending.Outcome fewer start results (next (.ok (.reject rest)))
        (next' (.ok (.reject rest'))))
    (alone : ∀ {rest}, reply' = .ok (.reject rest) → ending.Opens →
      ending.StopsBefore fewer start (next' (.ok (.reject rest)))) :
    ending.Outcome fewer start results (next reply) (next' reply') := by
  cases outcome with
  | accept reaches shorter => exact onAccept reaches shorter
  | ended closed fit => exact onEnd closed fit
  | reject => exact onReject rfl rfl
  | failed =>
      rw [fails, fails']
      exact .failed
  | missed looksAhead =>
      rw [fails]
      exact .missed looksAhead
  | opened opens stops =>
      rw [fails]
      refine .opened opens ?_
      rcases reply' with error | ⟨value, left⟩ | rest
      · rw [fails']
        nofun
      · obtain ⟨rest, rfl, reaches, shorter⟩ := stops value left rfl
        exact (onAccept reaches shorter).stopsBefore opens
      · exact alone rfl opens

end Outcome

theorem Continues.mono {parser : Parser α} {smaller fewer : Nat}
    {ends' : α → α → List Token → Prop} (continues : ending.Continues bound least parser ends)
    (smallerLe : smaller ≤ bound) (fewerLe : fewer ≤ least)
    (atEnd : ∀ {value value' left}, ends value value' left → ends' value value' left) :
    ending.Continues smaller fewer parser ends' :=
  fun tokens reaches short =>
    (continues tokens reaches (Nat.lt_of_lt_of_le short smallerLe)).imp atEnd
      fun _ _ => by omega

section Sequence

variable {first : Parser α} {next : α → Parser β} {results : β → β → List Token → Prop}

theorem Continues.raise (error : Error) :
    ending.Continues bound least (Parser.raise error : Parser α) ends :=
  fun _ _ _ => .failed

theorem Continues.pure (value : α) :
    ending.Continues bound 0 (Pure.pure value : Parser α) ends :=
  fun _ reaches _ => .accept reaches (Nat.le_refl _)

/-- Values that fit together at the end. -/
theorem Outcome.pure {value value' : α} {left : List Token} (closed : ¬ ending.Opens)
    (atEnd : ends value value' left) :
    ending.Outcome least tokens ends ((Pure.pure value : Parser α) [])
      ((Pure.pure value' : Parser α) left) :=
  .ended closed atEnd

theorem Continues.bind (continues : ending.Continues bound least first ends)
    (continuesNext : ∀ value, ending.Continues (bound - least) 0 (next value) results)
    (atEnd : ∀ {tokens value value' left}, ¬ ending.Opens → ends value value' left →
      ending.Outcome least tokens results (next value []) (next value' left)) :
    ending.Continues bound least (first >>= next) results := by
  intro tokens reaches short
  change Outcome _ _ _ _ (Parser.bind first next tokens) (Parser.bind first next _)
  unfold Parser.bind
  have outcome := continues tokens reaches short
  generalize first tokens = reply, first (tokens ++ [ending.newline]) = reply' at outcome ⊢
  apply outcome.andThen
  case fails | fails' => exact fun _ => rfl
  case onAccept =>
      exact fun reaches shorter => (continuesNext _ _ reaches (by omega)).later shorter
  case onEnd => exact atEnd
  case onReject => exact fun _ _ => .reject
  case alone => exact fun _ _ => nofun

/-- A step after which it no longer counts how many tokens have been taken. -/
theorem Continues.followed (continues : ending.Continues bound least first ends)
    (continuesNext : ∀ value, ending.Continues bound 0 (next value) results)
    (atEnd : ∀ {tokens value value' left}, ¬ ending.Opens → ends value value' left →
      ending.Outcome 0 tokens results (next value []) (next value' left)) :
    ending.Continues bound 0 (first >>= next) results :=
  (continues.mono (Nat.le_refl _) (Nat.zero_le _) id).bind continuesNext atEnd

/-- A parser that only builds a value of what another one accepts. -/
theorem Continues.map {convert : α → β} (continues : ending.Continues bound least first ends)
    (converts : ∀ {value value' left}, ends value value' left →
      results (convert value) (convert value') left) :
    ending.Continues bound least (first >>= fun value => Pure.pure (convert value)) results :=
  continues.bind (fun _ => Continues.pure _)
    fun closed fit => Outcome.pure closed (converts fit)

theorem Continues.attempt (continues : ending.Continues bound least first ends) :
    ending.Continues bound least first.attempt ends := by
  intro tokens reaches short
  unfold Parser.attempt
  have outcome := continues tokens reaches short
  generalize first tokens = reply, first (tokens ++ [ending.newline]) = reply' at outcome ⊢
  apply outcome.andThen
  case fails | fails' => exact fun _ => rfl
  case onAccept => exact .accept
  case onEnd => exact .ended
  case onReject => exact fun _ _ => .reject
  case alone => exact fun _ _ => nofun

theorem Continues.orRaise (continues : ending.Continues bound least first ends) (error : Error) :
    ending.Continues bound least (first.orRaise error) ends := by
  intro tokens reaches short
  unfold Parser.orRaise
  have outcome := continues tokens reaches short
  generalize first tokens = reply, first (tokens ++ [ending.newline]) = reply' at outcome ⊢
  apply outcome.andThen
  case fails | fails' => exact fun _ => rfl
  case onAccept => exact .accept
  case onEnd => exact .ended
  case onReject => exact fun _ _ => .failed
  case alone => exact fun _ _ => nofun

end Sequence

section Tokens

variable {test : Token → Bool} {results : β → β → List Token → Prop}

/-- A token that passes a test, and what follows it.  If it is the last one, nothing but the
newline follows. -/
theorem Continues.satisfy {next : Token → Parser β}
    (continues : ∀ token, test token = true → ending.Continues bound 0 (next token) results)
    (atEnd : 0 < bound → test ending.last = true →
      ending.Outcome 1 [ending.last] results (next ending.last [])
        (next ending.last [ending.newline])) :
    ending.Continues (bound + 1) 1 (Parser.satisfy test >>= next) results := by
  intro tokens reaches short
  obtain ⟨token, rest, rfl, reachesRest⟩ := reaches.cons
  rw [List.cons_append, satisfy_bind_cons, satisfy_bind_cons]
  by_cases passes : test token = true
  · simp only [passes, if_true]
    rcases reachesRest with ⟨rfl, rfl⟩ | reachesRest
    · exact atEnd (by simpa using short) passes
    · exact (continues token passes rest reachesRest (by simpa using short)).later
        (Nat.le_refl _)
  · simp only [passes]
    exact .reject

/-- A token that is skipped, and what follows it. -/
theorem Continues.skip {next : Parser β} (continues : ending.Continues bound 0 next results)
    (atEnd : 0 < bound → test ending.last = true →
      ending.Outcome 1 [ending.last] results (next []) (next [ending.newline])) :
    ending.Continues (bound + 1) 1 (Parser.skip test >>= fun _ => next) results := by
  rw [skip_bind]
  exact Continues.satisfy (fun _ _ => continues) atEnd

theorem Continues.skipLater {next : Parser β} (continues : ending.Continues bound 0 next results)
    (atEnd : 0 < bound → test ending.last = true →
      ending.Outcome 1 [ending.last] results (next []) (next [ending.newline])) :
    ending.Continues bound 0 (Parser.skip test >>= fun _ => next) results :=
  (Continues.skip continues atEnd).mono (Nat.le_succ _) (Nat.zero_le _) id

/-- A token that must pass a test, and what follows it. -/
theorem Continues.demand {next : Parser β} {error : Token → Error}
    (continues : ending.Continues bound 0 next results)
    (atEnd : 0 < bound → test ending.last = true →
      ending.Outcome 1 [ending.last] results (next []) (next [ending.newline])) :
    ending.Continues bound 0 (Parser.demand test error >>= fun _ => next) results := by
  intro tokens reaches short
  obtain ⟨token, rest, rfl, reachesRest⟩ := reaches.cons
  rw [List.cons_append, demand_bind_cons, demand_bind_cons]
  by_cases passes : test token = true
  · simp only [passes, if_true]
    rcases reachesRest with ⟨rfl, rfl⟩ | reachesRest
    · exact (atEnd (Nat.zero_lt_of_lt short) passes).imp id fun _ _ => by omega
    · exact (continues rest reachesRest (Nat.lt_of_succ_lt short)).later (Nat.le_succ _)
  · simp only [passes]
    exact .failed

/-- Where the tokens have ended, a token is demanded in vain. -/
theorem Outcome.demand {next next' : Parser β} {error : Token → Error}
    (notNewline : test ending.newline = false) {left : List Token}
    (isLeft : left = [] ∨ left = [ending.newline]) :
    ending.Outcome least tokens results ((Parser.demand test error >>= fun _ => next) [])
      ((Parser.demand test error >>= fun _ => next') left) := by
  rcases isLeft with rfl | rfl
  · exact .failed
  · rw [demand_bind_cons, notNewline]
    exact .failed

/-- The position of the next token is the same in both runs. -/
theorem Continues.nextPosition {next : Position → Parser β}
    (continues : ∀ position, ending.Continues bound least (next position) results) :
    ending.Continues bound least (Parser.nextPosition >>= next) results := by
  intro tokens reaches short
  obtain ⟨token, rest, rfl, -⟩ := reaches.cons
  exact continues token.position (token :: rest) reaches short

end Tokens

/-! ## At the newline -/

section Waiting

variable {parser : Parser α} {next : α → Parser β} {results : β → β → List Token → Prop}

/-- Nothing follows a token that something must follow, so the newline is not read. -/
theorem Waits.opened (waits : ending.Waits parser) (opens : ending.Opens) :
    ending.Outcome least tokens results ((parser >>= next) [])
      ((parser >>= next) [ending.newline]) := by
  obtain ⟨⟨error, fails⟩, notAccepted⟩ := waits
  change Outcome _ _ _ _ (Parser.bind parser _ []) (Parser.bind parser _ [ending.newline])
  unfold Parser.bind
  rw [fails]
  refine .opened opens ?_
  rcases replied : parser [ending.newline] with error | ⟨value, other⟩ | other
  · nofun
  · exact absurd replied (notAccepted value other)
  · nofun

/-- Both runs fail where a value must follow. -/
theorem Waits.orRaise (waits : ending.Waits parser) (error : Error) :
    ending.Outcome least tokens results ((parser.orRaise error >>= next) [])
      ((parser.orRaise error >>= next) [ending.newline]) := by
  obtain ⟨⟨error', fails⟩, notAccepted⟩ := waits
  change Outcome _ _ _ _ (Parser.bind (parser.orRaise error) _ [])
    (Parser.bind (parser.orRaise error) _ [ending.newline])
  unfold Parser.bind Parser.orRaise
  rw [fails]
  rcases replied : parser [ending.newline] with error | ⟨value, other⟩ | other
  · exact .failed
  · exact absurd replied (notAccepted value other)
  · exact .failed

end Waiting

namespace Declines

variable {parser : Parser α} {test : Token → Bool}

theorem waits (declines : ending.Declines parser) : ending.Waits parser := by
  refine ⟨declines.1, fun value rest replied => ?_⟩
  rw [declines.2] at replied
  cases replied

theorem satisfy (notNewline : test ending.newline = false) :
    ending.Declines (Parser.satisfy test) := by
  refine ⟨⟨_, rfl⟩, ?_⟩
  rw [Parser.satisfy, notNewline]
  rfl

theorem bind (declines : ending.Declines parser) (next : α → Parser β) :
    ending.Declines (parser >>= next) := by
  obtain ⟨⟨error, fails⟩, rejects⟩ := declines
  constructor
  · refine ⟨error, ?_⟩
    change Parser.bind parser next [] = _
    rw [Parser.bind, fails]
  · change Parser.bind parser next _ = _
    rw [Parser.bind, rejects]

theorem skip (notNewline : test ending.newline = false) :
    ending.Declines (Parser.skip test) :=
  (satisfy notNewline).bind _

theorem nextPosition {next : Position → Parser β}
    (declines : ∀ position, ending.Declines (next position)) :
    ending.Declines (Parser.nextPosition >>= next) :=
  ⟨⟨_, rfl⟩, (declines ending.newline.position).2⟩

theorem attempt (declines : ending.Declines parser) : ending.Declines parser.attempt := by
  obtain ⟨⟨error, fails⟩, rejects⟩ := declines
  constructor
  · refine ⟨error, ?_⟩
    rw [Parser.attempt, fails]
  · rw [Parser.attempt, rejects]

theorem firstOf {choices : List (Parser α)}
    (declines : ∀ choice ∈ parser :: choices, ending.Declines choice) :
    ending.Declines (Parser.firstOf (parser :: choices)) := by
  constructor
  · obtain ⟨error, fails⟩ := (declines parser (by simp)).1
    refine ⟨error, ?_⟩
    rw [Parser.firstOf, Parser.firstOf.go, fails]
  · rw [Parser.firstOf]
    generalize parser :: choices = all at declines
    induction all with
    | nil => rfl
    | cons choice choices ih =>
        obtain ⟨declinesFirst, declinesRest⟩ := List.forall_mem_cons.mp declines
        rw [Parser.firstOf.go, declinesFirst.2]
        exact ih declinesRest

end Declines

section Choice

variable {parser : Parser α}

/-- A choice has an outcome where each parser of it has one. -/
theorem Outcome.firstOf {choices : List (Parser α)}
    (each : ∀ choice ∈ choices, RejectsInPlace choice ∧
      ending.Outcome least tokens ends (choice tokens) (choice (tokens ++ [ending.newline]))) :
    ending.Outcome least tokens ends (Parser.firstOf choices tokens)
      (Parser.firstOf choices (tokens ++ [ending.newline])) := by
  unfold Parser.firstOf
  induction choices with
  | nil => exact .reject
  | cons choice choices ih =>
      obtain ⟨⟨inPlace, outcome⟩, eachLater⟩ := List.forall_mem_cons.mp each
      have outcomeLater := ih eachLater
      unfold Parser.firstOf.go
      generalize replied : choice tokens = reply,
        replied' : choice (tokens ++ [ending.newline]) = reply' at outcome ⊢
      apply outcome.andThen
      case fails | fails' => exact fun _ => rfl
      case onAccept => exact .accept
      case onEnd => exact .ended
      case onReject =>
          rintro rest rest' rfl rfl
          cases inPlace _ _ replied
          cases inPlace _ _ replied'
          exact outcomeLater
      case alone =>
          rintro rest rfl opens
          cases inPlace _ _ replied'
          exact outcomeLater.stopsBefore opens

theorem Continues.firstOf {choices : List (Parser α)}
    (each : ∀ choice ∈ choices, RejectsInPlace choice ∧
      ending.Continues bound least choice ends) :
    ending.Continues bound least (Parser.firstOf choices) ends :=
  fun tokens reaches short => Outcome.firstOf fun choice member =>
    ⟨(each choice member).1, (each choice member).2 tokens reaches short⟩

end Choice

end Ending

end StackScript.Grammar
