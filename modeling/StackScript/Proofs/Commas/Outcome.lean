import StackScript.Proofs.Grammar.Places

/-!
# A newline less in a comma list

A parser is run on some tokens, and once more without a newline that follows a comma or the token
that opens a list.  Both runs go the same way up to that token.  From there on they read the same
tokens, unless the token turns out not to open a comma list.

Two things can open with such a token and are no comma lists: a group, which reads a field name
after the parenthesis as a whole expression, and an index, which does not skip newlines.  A third
run tells that this happens.  It fails as soon as a group or an index is tried in place of a
list; for brackets it has to be given a further item, because an index holds only one.

`Outcome` is what the three runs report, and `Carries` says that a parser has such an outcome
wherever the runs belong together.  There is one lemma for each combinator.
-/

namespace StackScript.Grammar.Commas

open StackScript.Grammar.Parser

/-- The tokens end in something that an index may follow. -/
def EndsHead (tokens : List Token) : Prop :=
  ∃ last ∈ tokens.getLast?, last.kind ∈ [.symbol, .closeParen, .closeBracket]

/-- The tokens start with the name of a field. -/
def StartsField (tokens : List Token) : Prop :=
  ∃ name colon rest, tokens = name :: colon :: rest ∧ name.kind = .symbol ∧ colon.kind = .colon

/-- A newline after a comma or after a token that opens a list, the tokens around it, and an item
with a comma that the third run finds in front of the newline. -/
structure Deletion where
  front : List Token
  opener : Token
  newline : Token
  after : List Token
  item? : Option (Token × Token)
  isOpener : opener.kind ∈ [.comma, .openParen, .openBracket]
  notWord : opener.text ∉ bareWords
  isNewline : newline.kind = .newline
  plainNewlines : ∀ token ∈ newline :: after, token.kind = .newline → token.text ∉ bareWords
  isItem : ∀ item ∈ item?, opener.kind = .openBracket ∧ item.1.kind = .symbol ∧
    item.2.kind = .comma
  noItem : item? = none → opener.kind = .openBracket →
    ∃ token ∈ after.head?, token.kind = .newline

namespace Deletion

variable (deletion : Deletion)

/-- What the third run finds after the opening token. -/
def probed : List Token :=
  match deletion.item? with
  | none => deletion.after
  | some item => item.1 :: item.2 :: deletion.newline :: deletion.after

def whole : List Token :=
  deletion.opener :: deletion.newline :: deletion.after

def short : List Token :=
  deletion.opener :: deletion.after

def probe : List Token :=
  deletion.opener :: deletion.probed

/-- The opening token can be that of a group that is no list, or of an index. -/
def Mistakable : Prop :=
  (deletion.opener.kind = .openParen → StartsField deletion.after) ∧
    (deletion.opener.kind = .openBracket → EndsHead deletion.front ∧ deletion.item?.isSome) ∧
    deletion.opener.kind ≠ .comma

/-- A parenthesis that is the opening token is not that of a record whose first field follows the
newline. -/
def Unmistaken : Prop :=
  deletion.opener.kind = .openParen → ¬StartsField deletion.after

theorem startsField_of_not (mistaken : ¬deletion.Unmistaken) :
    deletion.opener.kind = .openParen ∧ StartsField deletion.after := by
  rwa [Unmistaken, Classical.not_imp, not_not] at mistaken

theorem length_after_le : deletion.after.length ≤ deletion.probed.length := by
  rw [probed]
  split
  · exact Nat.le_refl _
  · simp only [List.length_cons]
    omega

theorem item?_eq_none (noBracket : deletion.opener.kind ≠ .openBracket) :
    deletion.item? = none := by
  rw [Option.eq_none_iff_forall_not_mem]
  intro item member
  exact noBracket (deletion.isItem item member).1

theorem probed_eq (noItem : deletion.item? = none) : deletion.probed = deletion.after := by
  rw [probed, noItem]

end Deletion

variable {deletion : Deletion}

/-- Where the three runs are when they belong together: all before the opening token, or at the
same place after it.  They never get past the parenthesis of a record whose first field follows the
newline. -/
inductive Place (deletion : Deletion) : List Token → List Token → List Token → Prop where
  | before {middle : List Token} (isSuffix : middle <:+ deletion.front) :
      Place deletion (middle ++ deletion.whole) (middle ++ deletion.short)
        (middle ++ deletion.probe)
  | past {rest : List Token} (short : rest.length ≤ deletion.after.length)
      (unmistaken : deletion.Unmistaken) : Place deletion rest rest rest

namespace Place

variable {tokens tokens' tokens'' : List Token}

theorem opener : Place deletion deletion.whole deletion.short deletion.probe :=
  .before (List.nil_suffix)

/-- The tokens have ended in all three runs, or all start with the same token, and then they
belong together after it or it is the opening one. -/
theorem cases (place : Place deletion tokens tokens' tokens'') :
    (tokens = [] ∧ tokens' = [] ∧ tokens'' = []) ∨
      (∃ token rest rest' rest'', tokens = token :: rest ∧ tokens' = token :: rest' ∧
        tokens'' = token :: rest'' ∧ Place deletion rest rest' rest'') ∨
      (tokens = deletion.whole ∧ tokens' = deletion.short ∧ tokens'' = deletion.probe) := by
  cases place with
  | @before middle isSuffix =>
      cases middle with
      | nil => exact .inr (.inr ⟨rfl, rfl, rfl⟩)
      | cons token rest =>
          exact .inr (.inl ⟨token, _, _, _, rfl, rfl, rfl,
            .before ((List.suffix_cons token rest).trans isSuffix)⟩)
  | past short unmistaken =>
      cases tokens with
      | nil => exact .inl ⟨rfl, rfl, rfl⟩
      | cons token rest =>
          exact .inr (.inl ⟨token, rest, rest, rest, rfl, rfl, rfl,
            .past (Nat.le_of_succ_le short) unmistaken⟩)

theorem eq_nil_iff (place : Place deletion tokens tokens' tokens'') :
    (tokens = [] ↔ tokens' = []) ∧ (tokens = [] ↔ tokens'' = []) := by
  rcases place.cases with ⟨rfl, rfl, rfl⟩ | ⟨_, _, _, _, rfl, rfl, rfl, _⟩ | ⟨rfl, rfl, rfl⟩
  · simp
  · simp
  · simp [Deletion.whole, Deletion.short, Deletion.probe]

theorem unmistaken_of_nil (place : Place deletion [] tokens' tokens'') : deletion.Unmistaken := by
  generalize isEnd : ([] : List Token) = tokens at place
  cases place with
  | before isSuffix => simp [Deletion.whole] at isEnd
  | past short unmistaken => exact unmistaken

/-- Newlines are skipped in all three runs together, up to the opening token at most. -/
theorem skipNewlines (place : Place deletion tokens tokens' tokens'') :
    Place deletion (dropNewlines tokens) (dropNewlines tokens') (dropNewlines tokens'') := by
  have notNewline : deletion.opener.kind ≠ .newline := by
    have isOpener := deletion.isOpener
    intro isNewline
    simp [isNewline] at isOpener
  cases place with
  | @before middle isSuffix =>
      induction middle with
      | nil =>
          simp only [List.nil_append, dropNewlines, Deletion.whole, Deletion.short,
            Deletion.probe, List.dropWhile_cons, notNewline, decide_false]
          exact .opener
      | cons token rest ih =>
          by_cases isNewline : token.kind = .newline
          · simp only [List.cons_append, dropNewlines, List.dropWhile_cons, isNewline,
              decide_true, if_true] at ih ⊢
            exact ih ((List.suffix_cons token rest).trans isSuffix)
          · simp only [List.cons_append, dropNewlines, List.dropWhile_cons, isNewline,
              decide_false]
            exact .before isSuffix
  | past short unmistaken =>
      exact .past (Nat.le_trans (length_dropNewlines_le _) short) unmistaken

end Place

/-- What is left in three runs belongs together, and each has taken some tokens. -/
structure Remains (deletion : Deletion) (least : Nat) (tokens tokens' tokens'' rest rest' rest'' :
    List Token) : Prop where
  place : Place deletion rest rest' rest''
  whole : rest.length + least ≤ tokens.length
  short : rest'.length + least ≤ tokens'.length
  probe : rest''.length + least ≤ tokens''.length

namespace Remains

variable {tokens tokens' tokens'' between between' between'' rest rest' rest'' : List Token}
  {least more : Nat}

theorem refl (place : Place deletion tokens tokens' tokens'') :
    Remains deletion 0 tokens tokens' tokens'' tokens tokens' tokens'' :=
  ⟨place, Nat.le_refl _, Nat.le_refl _, Nat.le_refl _⟩

theorem trans
    (first : Remains deletion least tokens tokens' tokens'' between between' between'')
    (second : Remains deletion more between between' between'' rest rest' rest'') :
    Remains deletion (least + more) tokens tokens' tokens'' rest rest' rest'' := by
  rcases first with ⟨_, whole, short, probe⟩
  rcases second with ⟨place, whole', short', probe'⟩
  exact ⟨place, by omega, by omega, by omega⟩

theorem mono {fewer : Nat}
    (remains : Remains deletion least tokens tokens' tokens'' rest rest' rest'')
    (fewerLe : fewer ≤ least) :
    Remains deletion fewer tokens tokens' tokens'' rest rest' rest'' := by
  rcases remains with ⟨place, whole, short, probe⟩
  exact ⟨place, by omega, by omega, by omega⟩

theorem skipNewlines (place : Place deletion tokens tokens' tokens'') :
    Remains deletion 0 tokens tokens' tokens'' (dropNewlines tokens) (dropNewlines tokens')
      (dropNewlines tokens'') :=
  ⟨place.skipNewlines, length_dropNewlines_le _, length_dropNewlines_le _,
    length_dropNewlines_le _⟩

end Remains

/-! ## Outcomes -/

variable {α β : Type}

/-- What three runs report.  If the first one fails, nothing is asked of the others.  Otherwise
they go the same way, and the first two accept the same value, unless the third one tells that the
opening token has been mistaken. -/
inductive Outcome (deletion : Deletion) (least : Nat) (tokens tokens' tokens'' : List Token) :
    Except Error (Reply α) → Except Error (Reply α) → Except Error (Reply α) → Prop where
  | failed {error : Error} {reply' reply'' : Except Error (Reply α)} :
      Outcome deletion least tokens tokens' tokens'' (.error error) reply' reply''
  | mistaken {reply reply' : Except Error (Reply α)} (isMistakable : deletion.Mistakable) :
      Outcome deletion least tokens tokens' tokens'' reply reply' (.error .malformedConstruct)
  | accept {value other : α} {rest rest' rest'' : List Token}
      (remains : Remains deletion least tokens tokens' tokens'' rest rest' rest'') :
      Outcome deletion least tokens tokens' tokens'' (.ok (.accept value rest))
        (.ok (.accept value rest')) (.ok (.accept other rest''))
  | reject {rest rest' rest'' : List Token} :
      Outcome deletion least tokens tokens' tokens'' (.ok (.reject rest)) (.ok (.reject rest'))
        (.ok (.reject rest''))

/-- A parser has an outcome wherever three runs belong together.  The third run may go on with
other values than the first two, which makes no difference to where it goes. -/
def Carries (deletion : Deletion) (least : Nat) (parser probing : Parser α) : Prop :=
  ∀ ⦃tokens tokens' tokens''⦄, Place deletion tokens tokens' tokens'' →
    Outcome deletion least tokens tokens' tokens'' (parser tokens) (parser tokens')
      (probing tokens'')

/-- A parser has an outcome after the opening token. -/
def CarriesOpened (deletion : Deletion) (parser probing : Parser α) : Prop :=
  Outcome deletion 0 (deletion.newline :: deletion.after) deletion.after deletion.probed
    (parser (deletion.newline :: deletion.after)) (parser deletion.after)
    (probing deletion.probed)

variable {least : Nat} {tokens tokens' tokens'' : List Token}

namespace Outcome

variable {reply reply' reply'' : Except Error (Reply α)}

/-- A run that fails stays so; the others go on together. -/
theorem andThen {next next' next'' : Except Error (Reply α) → Except Error (Reply β)}
    {fewer : Nat} {start start' start'' : List Token}
    (outcome : Outcome deletion least tokens tokens' tokens'' reply reply' reply'')
    (fails : ∀ error, next (.error error) = .error error)
    (fails'' : ∀ error, next'' (.error error) = .error error)
    (onAccept : ∀ {value other rest rest' rest''}, reply = .ok (.accept value rest) →
      Remains deletion least tokens tokens' tokens'' rest rest' rest'' →
        Outcome deletion fewer start start' start'' (next (.ok (.accept value rest)))
          (next' (.ok (.accept value rest'))) (next'' (.ok (.accept other rest''))))
    (onReject : ∀ {rest rest' rest''}, reply = .ok (.reject rest) →
      reply' = .ok (.reject rest') → reply'' = .ok (.reject rest'') →
        Outcome deletion fewer start start' start'' (next (.ok (.reject rest)))
          (next' (.ok (.reject rest'))) (next'' (.ok (.reject rest'')))) :
    Outcome deletion fewer start start' start'' (next reply) (next' reply') (next'' reply'') := by
  cases outcome with
  | failed =>
      rw [fails]
      exact .failed
  | mistaken isMistakable =>
      rw [fails'']
      exact .mistaken isMistakable
  | accept remains => exact onAccept rfl remains
  | reject => exact onReject rfl rfl rfl

/-- What is reported of what is left. -/
theorem after {fewer : Nat} {rest rest' rest'' : List Token}
    (outcome : Outcome deletion least rest rest' rest'' reply reply' reply'')
    (remains : Remains deletion fewer tokens tokens' tokens'' rest rest' rest'') :
    Outcome deletion (fewer + least) tokens tokens' tokens'' reply reply' reply'' := by
  cases outcome with
  | failed => exact .failed
  | mistaken isMistakable => exact .mistaken isMistakable
  | accept remainsLater => exact .accept (remains.trans remainsLater)
  | reject => exact .reject

theorem mono {fewer : Nat}
    (outcome : Outcome deletion least tokens tokens' tokens'' reply reply' reply'')
    (fewerLe : fewer ≤ least) :
    Outcome deletion fewer tokens tokens' tokens'' reply reply' reply'' := by
  cases outcome with
  | failed => exact .failed
  | mistaken isMistakable => exact .mistaken isMistakable
  | accept remains => exact .accept (remains.mono fewerLe)
  | reject => exact .reject

end Outcome

theorem Carries.weaken {parser probing : Parser α}
    (carries : Carries deletion least parser probing) : Carries deletion 0 parser probing :=
  fun _ _ _ place => (carries place).mono (Nat.zero_le _)

section Sequence

variable {first first' : Parser α} {next next' : α → Parser β}

theorem Carries.raise {parser : Parser α} (error : Error) :
    Carries deletion least (Parser.raise error) parser :=
  fun _ _ _ _ => .failed

theorem Carries.pure (value other : α) :
    Carries deletion 0 (Pure.pure value : Parser α) (Pure.pure other) :=
  fun _ _ _ place => .accept (.refl place)

theorem Outcome.bind
    (outcome : Outcome deletion least tokens tokens' tokens'' (first tokens) (first tokens')
      (first' tokens''))
    (onAccept : ∀ {value other rest rest' rest''}, first tokens = .ok (.accept value rest) →
      Remains deletion least tokens tokens' tokens'' rest rest' rest'' →
        Outcome deletion 0 rest rest' rest'' (next value rest) (next value rest')
          (next' other rest'')) :
    Outcome deletion least tokens tokens' tokens'' ((first >>= next) tokens)
      ((first >>= next) tokens') ((first' >>= next') tokens'') := by
  change Outcome _ _ _ _ _ (Parser.bind first next tokens) (Parser.bind first next tokens')
    (Parser.bind first' next' tokens'')
  unfold Parser.bind
  generalize replied : first tokens = reply, first tokens' = reply', first' tokens'' = reply''
    at outcome onAccept ⊢
  apply outcome.andThen
  case fails | fails'' => exact fun _ => rfl
  case onAccept =>
      intro value other rest rest' rest'' accepted remains
      exact (onAccept accepted remains).after remains
  case onReject => exact fun _ _ _ => .reject

theorem Carries.bind (carries : Carries deletion least first first')
    (carriesNext : ∀ value other, Carries deletion 0 (next value) (next' other)) :
    Carries deletion least (first >>= next) (first' >>= next') :=
  fun _ _ _ place => (carries place).bind fun _ remains => carriesNext _ _ remains.place

theorem Outcome.attempt
    (outcome : Outcome deletion least tokens tokens' tokens'' (first tokens) (first tokens')
      (first' tokens'')) :
    Outcome deletion least tokens tokens' tokens'' (first.attempt tokens) (first.attempt tokens')
      (first'.attempt tokens'') := by
  unfold Parser.attempt
  generalize first tokens = reply, first tokens' = reply', first' tokens'' = reply'' at outcome ⊢
  apply outcome.andThen
  case fails | fails'' => exact fun _ => rfl
  case onAccept => exact fun _ remains => .accept remains
  case onReject => exact fun _ _ _ => .reject

theorem Carries.attempt (carries : Carries deletion least first first') :
    Carries deletion least first.attempt first'.attempt :=
  fun _ _ _ place => (carries place).attempt

theorem Carries.orRaise (carries : Carries deletion least first first') (error : Error) :
    Carries deletion least (first.orRaise error) (first'.orRaise error) := by
  intro tokens tokens' tokens'' place
  have outcome := carries place
  unfold Parser.orRaise
  generalize first tokens = reply, first tokens' = reply', first' tokens'' = reply'' at outcome ⊢
  apply outcome.andThen
  case fails | fails'' => exact fun _ => rfl
  case onAccept => exact fun _ remains => .accept remains
  case onReject => exact fun _ _ _ => .failed

end Sequence

section Tokens

variable {test : Token → Bool}

theorem Remains.cons (token : Token) {rest rest' rest'' : List Token}
    (place : Place deletion rest rest' rest'') :
    Remains deletion 1 (token :: rest) (token :: rest') (token :: rest'') rest rest' rest'' :=
  ⟨place, Nat.le_refl _, Nat.le_refl _, Nat.le_refl _⟩

/-- A token that the opening one is not. -/
theorem Carries.satisfy {next next' : Token → Parser α} (notOpener : test deletion.opener = false)
    (carriesNext : ∀ token, test token = true → Carries deletion 0 (next token) (next' token)) :
    Carries deletion 1 (Parser.satisfy test >>= next) (Parser.satisfy test >>= next') := by
  intro tokens tokens' tokens'' place
  rcases place.cases with ⟨rfl, rfl, rfl⟩ | ⟨token, _, _, _, rfl, rfl, rfl, later⟩ |
    ⟨rfl, rfl, rfl⟩
  · exact .failed
  · rw [satisfy_bind_cons, satisfy_bind_cons, satisfy_bind_cons]
    split
    · rename_i passes
      exact (carriesNext token passes later).after (.cons _ later)
    · exact .reject
  · rw [Deletion.whole, Deletion.short, Deletion.probe, satisfy_bind_cons, satisfy_bind_cons,
      satisfy_bind_cons, notOpener]
    exact .reject

theorem Carries.skip {next next' : Parser α} (notOpener : test deletion.opener = false)
    (carriesNext : Carries deletion 0 next next') :
    Carries deletion 1 (Parser.skip test >>= fun _ => next)
      (Parser.skip test >>= fun _ => next') := by
  rw [skip_bind, skip_bind]
  exact Carries.satisfy notOpener fun _ _ => carriesNext

/-- Where the opening token is not wanted, the first run fails. -/
theorem Carries.demand {next next' : Parser α} {error : Token → Error}
    (notOpener : test deletion.opener = false) (carriesNext : Carries deletion 0 next next') :
    Carries deletion 1 (Parser.demand test error >>= fun _ => next)
      (Parser.demand test error >>= fun _ => next') := by
  intro tokens tokens' tokens'' place
  rcases place.cases with ⟨rfl, rfl, rfl⟩ | ⟨token, _, _, _, rfl, rfl, rfl, later⟩ |
    ⟨rfl, rfl, rfl⟩
  · exact .failed
  · rw [demand_bind_cons, demand_bind_cons, demand_bind_cons]
    split
    · exact (carriesNext later).after (.cons _ later)
    · exact .failed
  · rw [Deletion.whole, demand_bind_cons, notOpener]
    exact .failed

theorem Carries.nextPosition {next next' : Position → Parser α}
    (carriesNext : ∀ position, Carries deletion least (next position) (next' position)) :
    Carries deletion least (Parser.nextPosition >>= next) (Parser.nextPosition >>= next') := by
  intro tokens tokens' tokens'' place
  rcases place.cases with ⟨rfl, rfl, rfl⟩ | ⟨token, _, _, _, rfl, rfl, rfl, _⟩ | ⟨rfl, rfl, rfl⟩
  · exact .failed
  · exact carriesNext token.position place
  · exact carriesNext deletion.opener.position place

theorem Carries.newlines : Carries deletion 0 Parser.newlines Parser.newlines :=
  fun _ _ _ place => .accept (Remains.skipNewlines place)

/-- What three runs find after the opening token. -/
theorem remains_opened {reply reply' reply'' : Except Error (Reply α)}
    (outcome : Outcome deletion 0 (deletion.newline :: deletion.after) deletion.after
      deletion.probed reply reply' reply'') :
    Outcome deletion 1 deletion.whole deletion.short deletion.probe reply reply' reply'' := by
  cases outcome with
  | failed => exact .failed
  | mistaken isMistakable => exact .mistaken isMistakable
  | accept remains =>
      rcases remains with ⟨place, whole, short, probe⟩
      exact .accept ⟨place, Nat.succ_le_succ whole, Nat.succ_le_succ short,
        Nat.succ_le_succ probe⟩
  | reject => exact .reject

/-- A token that may be the opening one. -/
theorem Outcome.skipOpening {opening : Kind} {next next' : Parser α}
    (carriesNext : Carries deletion 0 next next')
    (place : Place deletion tokens tokens' tokens'')
    (opened : tokens = deletion.whole → deletion.opener.kind = opening →
      CarriesOpened deletion next next') :
    Outcome deletion 1 tokens tokens' tokens''
      ((Parser.skip (fun token => token.kind = opening) >>= fun _ => next) tokens)
      ((Parser.skip (fun token => token.kind = opening) >>= fun _ => next) tokens')
      ((Parser.skip (fun token => token.kind = opening) >>= fun _ => next') tokens'') := by
  by_cases isOpening : deletion.opener.kind = opening
  case neg => exact Carries.skip (decide_eq_false isOpening) carriesNext place
  rw [skip_bind, skip_bind]
  rcases place.cases with ⟨rfl, rfl, rfl⟩ | ⟨token, _, _, _, rfl, rfl, rfl, later⟩ |
    ⟨rfl, rfl, rfl⟩
  · exact .failed
  · rw [satisfy_bind_cons, satisfy_bind_cons, satisfy_bind_cons]
    split
    · exact (carriesNext later).after (.cons _ later)
    · exact .reject
  · have outcome := opened rfl isOpening
    rw [Deletion.whole, Deletion.short, Deletion.probe, satisfy_bind_cons, satisfy_bind_cons,
      satisfy_bind_cons, decide_eq_true isOpening]
    exact remains_opened outcome

theorem Carries.demandOpening {opening : Kind} {next next' : Parser α} {error : Token → Error}
    (carriesNext : Carries deletion 0 next next')
    (opened : deletion.opener.kind = opening → CarriesOpened deletion next next') :
    Carries deletion 1 (Parser.demand (fun token => token.kind = opening) error >>= fun _ => next)
      (Parser.demand (fun token => token.kind = opening) error >>= fun _ => next') := by
  intro tokens tokens' tokens'' place
  by_cases isOpening : deletion.opener.kind = opening
  case neg => exact Carries.demand (decide_eq_false isOpening) carriesNext place
  rcases place.cases with ⟨rfl, rfl, rfl⟩ | ⟨token, _, _, _, rfl, rfl, rfl, later⟩ |
    ⟨rfl, rfl, rfl⟩
  · exact .failed
  · rw [demand_bind_cons, demand_bind_cons, demand_bind_cons]
    split
    · exact (carriesNext later).after (.cons _ later)
    · exact .failed
  · rw [Deletion.whole, Deletion.short, Deletion.probe, demand_bind_cons, demand_bind_cons,
      demand_bind_cons, decide_eq_true isOpening]
    exact remains_opened (opened isOpening)

end Tokens

/-- A choice has an outcome where each parser of it has one. -/
theorem Outcome.firstOf {choices : List (Parser α)}
    (each : ∀ choice ∈ choices, RejectsInPlace choice ∧
      Outcome deletion least tokens tokens' tokens'' (choice tokens) (choice tokens')
        (choice tokens'')) :
    Outcome deletion least tokens tokens' tokens'' (Parser.firstOf choices tokens)
      (Parser.firstOf choices tokens') (Parser.firstOf choices tokens'') := by
  unfold Parser.firstOf
  induction choices with
  | nil => exact .reject
  | cons choice choices ih =>
      obtain ⟨⟨inPlace, outcome⟩, eachLater⟩ := List.forall_mem_cons.mp each
      have outcomeLater := ih eachLater
      unfold Parser.firstOf.go
      generalize replied : choice tokens = reply, replied' : choice tokens' = reply',
        replied'' : choice tokens'' = reply'' at outcome ⊢
      apply outcome.andThen
      case fails | fails'' => exact fun _ => rfl
      case onAccept => exact fun _ remains => .accept remains
      case onReject =>
          rintro rest rest' rest'' rfl rfl rfl
          cases inPlace _ _ replied
          cases inPlace _ _ replied'
          cases inPlace _ _ replied''
          exact outcomeLater

theorem Carries.firstOf {choices : List (Parser α)}
    (each : ∀ choice ∈ choices, RejectsInPlace choice ∧ Carries deletion least choice choice) :
    Carries deletion least (Parser.firstOf choices) (Parser.firstOf choices) :=
  fun _ _ _ place => Outcome.firstOf fun choice member =>
    ⟨(each choice member).1, (each choice member).2 place⟩

end StackScript.Grammar.Commas
