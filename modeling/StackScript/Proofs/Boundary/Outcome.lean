import StackScript.Proofs.Boundary.Delimiters
import StackScript.Proofs.Grammar.Places

/-!
# More tokens after a newline

A parser is run on tokens that end in a newline, and once more on the same tokens with others
after them.  Both runs go the same way for as long as the shorter one finds a token where it
looks for one.  It does not if all its tokens have been taken, and then something that has been
opened is still to be closed, or a list or the lines of a body have run up to the end.

`Outcome` is what both runs report, and `Carries` says that a parser has such an outcome on all
tokens that end in a newline.  There is one lemma for each combinator.
-/

namespace StackScript

namespace Grammar

open StackScript.Grammar.Parser

namespace Boundary

/-- Tokens up to a newline, and at least that one. -/
def Reaches (tokens : List Token) : Prop :=
  ∃ last, tokens.getLast? = some last ∧ last.kind = .newline

abbrev ArePlain (tokens : List Token) : Prop :=
  ∀ token ∈ tokens, token.IsPlain

section Reaching

variable {token : Token} {tokens rest : List Token}

theorem Reaches.ne_nil (reaches : Reaches tokens) : tokens ≠ [] := by
  rintro rfl
  obtain ⟨last, isLast, _⟩ := reaches
  cases isLast

theorem Reaches.exists_cons (reaches : Reaches tokens) : ∃ token rest, tokens = token :: rest :=
  List.exists_cons_of_ne_nil reaches.ne_nil

/-- What is left of tokens up to a newline ends in it as well, unless nothing is left. -/
theorem Reaches.of_suffix (reaches : Reaches tokens) (isSuffix : rest <:+ tokens)
    (more : rest ≠ []) : Reaches rest := by
  obtain ⟨taken, rfl⟩ := isSuffix
  obtain ⟨last, isLast, isNewline⟩ := reaches
  refine ⟨last, ?_, isNewline⟩
  rwa [List.getLast?_append_of_ne_nil _ more] at isLast

theorem Reaches.tail (reaches : Reaches (token :: rest)) :
    rest = [] ∧ token.kind = .newline ∨ Reaches rest := by
  by_cases atEnd : rest = []
  · subst atEnd
    obtain ⟨last, isLast, isNewline⟩ := reaches
    cases isLast
    exact .inl ⟨rfl, isNewline⟩
  · exact .inr (reaches.of_suffix (List.suffix_cons token rest) atEnd)

/-- The newline at the end comes after any token of another kind. -/
theorem Reaches.tail_of_ne (reaches : Reaches (token :: rest)) (other : token.kind ≠ .newline) :
    Reaches rest :=
  reaches.tail.resolve_left fun atEnd => other atEnd.2

theorem dropNewlines_append (more : List Token) :
    dropNewlines (tokens ++ more) =
      if dropNewlines tokens = [] then dropNewlines more else dropNewlines tokens ++ more := by
  rw [dropNewlines, List.dropWhile_append]
  simp only [List.isEmpty_iff]
  rfl

/-- The newlines in front of some tokens open and close nothing. -/
theorem exists_newlines (tokens : List Token) :
    ∃ skipped, tokens = skipped ++ dropNewlines tokens ∧ Settles none skipped := by
  refine ⟨tokens.takeWhile fun token => token.kind = .newline,
    List.takeWhile_append_dropWhile.symm, ?_⟩
  have areNewlines : ∀ token ∈ tokens.takeWhile fun token => token.kind = .newline,
      token.kind = .newline := by
    intro token member
    exact of_decide_eq_true (List.all_eq_true.mp List.all_takeWhile token member)
  generalize (tokens.takeWhile fun token => token.kind = .newline) = skipped at areNewlines
  induction skipped with
  | nil => exact settles_nil
  | cons token rest ih =>
      obtain ⟨isNewline, later⟩ := List.forall_mem_cons.mp areNewlines
      have inert : token.IsInert := Token.isInert_of_kind (by simp [isNewline])
      exact inert.settles.append (ih later)

theorem settles_of_blank (blank : dropNewlines tokens = []) : Settles none tokens := by
  obtain ⟨skipped, split, settled⟩ := exists_newlines tokens
  rw [split, blank, List.append_nil]
  exact settled

end Reaching

variable {α β : Type}

/-- A run on the shorter tokens never takes them all. -/
def Never (_ : Except Error (Reply α)) : Prop :=
  False

/-- A run on the shorter tokens has taken them all and accepts. -/
def Finished (reply : Except Error (Reply α)) : Prop :=
  ∃ value, reply = .ok (.accept value [])

/-- A run on the shorter tokens has taken them all and asks for a further one. -/
def Halted (reply : Except Error (Reply α)) : Prop :=
  reply = .error .endOfTokens

/-- What a parser reports on tokens up to a newline, and on these tokens with more after them.
Either both runs go the same way, or the shorter one has taken all its tokens: then they leave
something unclosed, or they close all that they open and the reply tells that they have
ended. -/
inductive Outcome (more : List Token) (pending : Option Delimiter) (least : Nat)
    (ends : Except Error (Reply α) → Prop) (tokens : List Token) :
    Except Error (Reply α) → Except Error (Reply α) → Prop where
  | accept {value : α} {taken rest : List Token} (split : tokens = taken ++ rest)
      (reaches : Reaches rest) (settles : ArePlain tokens → Settles pending taken)
      (enough : least ≤ taken.length) :
      Outcome more pending least ends tokens (.ok (.accept value rest))
        (.ok (.accept value (rest ++ more)))
  | reject {rest rest' : List Token} :
      Outcome more pending least ends tokens (.ok (.reject rest)) (.ok (.reject rest'))
  | failed {error : Error} (definite : error ≠ .endOfTokens) :
      Outcome more pending least ends tokens (.error error) (.error error)
  | unclosed {reply : Except Error (Reply α)} (isOpen : ArePlain tokens → Unclosed tokens) :
      Outcome more pending least ends tokens (.error .endOfTokens) reply
  | spent {reply reply' : Except Error (Reply α)} (atEnd : ends reply)
      (settles : ArePlain tokens → Settles none tokens) :
      Outcome more pending least ends tokens reply reply'

/-- A parser that has an outcome on all tokens up to a newline. -/
def Carries (more : List Token) (pending : Option Delimiter) (least : Nat)
    (ends : Except Error (Reply α) → Prop) (parser : Parser α) : Prop :=
  ∀ tokens, Reaches tokens →
    Outcome more pending least ends tokens (parser tokens) (parser (tokens ++ more))

variable {more : List Token} {pending : Option Delimiter} {least : Nat}
variable {ends : Except Error (Reply α) → Prop} {tokens taken rest : List Token}

namespace Outcome

variable {reply reply' : Except Error (Reply α)}

theorem imp {fewer : Nat} {ends' : Except Error (Reply α) → Prop}
    (outcome : Outcome more pending least ends tokens reply reply') (fewerLe : fewer ≤ least)
    (atEnd : ends reply → ends' reply) :
    Outcome more pending fewer ends' tokens reply reply' := by
  cases outcome with
  | accept split reaches settles enough =>
      exact .accept split reaches settles (Nat.le_trans fewerLe enough)
  | reject => exact .reject
  | failed definite => exact .failed definite
  | unclosed isOpen => exact .unclosed isOpen
  | spent isEnd settles => exact .spent (atEnd isEnd) settles

/-- What is left of tokens of which some have been taken. -/
theorem after {pending' : Option Delimiter} {fewer : Nat}
    {ends' : Except Error (Reply α) → Prop}
    (outcome : Outcome more pending' fewer ends' rest reply reply')
    (split : tokens = taken ++ rest) (enough : least ≤ taken.length + fewer)
    (joins : ArePlain tokens → ∀ {further}, Settles pending' further →
      Settles pending (taken ++ further))
    (onSpent : ends' reply → (ArePlain tokens → Settles none rest) →
      Outcome more pending least ends tokens reply reply') :
    Outcome more pending least ends tokens reply reply' := by
  subst split
  have plainRest : ArePlain (taken ++ rest) → ArePlain rest :=
    fun plain => (List.forall_mem_append.mp plain).2
  cases outcome with
  | @accept value further left split reaches settles enoughFurther =>
      subst split
      refine .accept (List.append_assoc taken further left).symm reaches ?_ ?_
      · exact fun plain => joins plain (settles (plainRest plain))
      · rw [List.length_append]
        exact Nat.le_trans enough (Nat.add_le_add_left enoughFurther _)
  | reject => exact .reject
  | failed definite => exact .failed definite
  | unclosed isOpen => exact .unclosed fun plain => (isOpen (plainRest plain)).append taken
  | spent isEnd settles => exact onSpent isEnd fun plain => settles (plainRest plain)

/-- What is left after tokens that close all that they open. -/
theorem later {fewer : Nat} (outcome : Outcome more pending fewer ends rest reply reply')
    (split : tokens = taken ++ rest) (settled : ArePlain tokens → Settles none taken)
    (enough : least ≤ taken.length + fewer) :
    Outcome more pending least ends tokens reply reply' := by
  apply outcome.after split enough
  case joins => exact fun plain => (settled plain).append
  case onSpent =>
      intro isEnd settles
      refine .spent isEnd fun plain => ?_
      rw [split]
      exact (settled plain).append (settles plain)

/-- Errors that are definite and tokens that are unclosed end both runs; they go on after
everything else. -/
theorem andThen {next next' : Except Error (Reply α) → Except Error (Reply β)}
    {pending' : Option Delimiter} {fewer : Nat} {ends' : Except Error (Reply β) → Prop}
    {start : List Token} (outcome : Outcome more pending least ends tokens reply reply')
    (fails : ∀ error, next (.error error) = .error error)
    (fails' : ∀ error, next' (.error error) = .error error)
    (isSuffix : tokens <:+ start)
    (onAccept : ∀ {value taken rest}, reply = .ok (.accept value rest) →
      tokens = taken ++ rest → Reaches rest → (ArePlain tokens → Settles pending taken) →
        least ≤ taken.length →
          Outcome more pending' fewer ends' start (next (.ok (.accept value rest)))
            (next' (.ok (.accept value (rest ++ more)))))
    (onReject : ∀ {rest rest'}, reply = .ok (.reject rest) → reply' = .ok (.reject rest') →
      Outcome more pending' fewer ends' start (next (.ok (.reject rest)))
        (next' (.ok (.reject rest'))))
    (onSpent : ends reply → (ArePlain tokens → Settles none tokens) →
      Outcome more pending' fewer ends' start (next reply) (next' reply')) :
    Outcome more pending' fewer ends' start (next reply) (next' reply') := by
  obtain ⟨before, rfl⟩ := isSuffix
  cases outcome with
  | accept split reaches settles enough => exact onAccept rfl split reaches settles enough
  | reject => exact onReject rfl rfl
  | failed definite =>
      rw [fails, fails']
      exact .failed definite
  | unclosed isOpen =>
      rw [fails]
      exact .unclosed fun plain => (isOpen (List.forall_mem_append.mp plain).2).append before
  | spent isEnd settles => exact onSpent isEnd settles

end Outcome

theorem Carries.imp {parser : Parser α} {fewer : Nat} {ends' : Except Error (Reply α) → Prop}
    (carries : Carries more pending least ends parser) (fewerLe : fewer ≤ least)
    (atEnd : ∀ reply, ends reply → ends' reply) : Carries more pending fewer ends' parser :=
  fun tokens reaches => (carries tokens reaches).imp fewerLe (atEnd _)

theorem Carries.weaken {parser : Parser α} (carries : Carries more pending least ends parser) :
    Carries more pending 0 ends parser :=
  carries.imp (Nat.zero_le _) fun _ => id

/-! ## Sequences -/

section Sequence

variable {first : Parser α} {next : α → Parser β} {ends' : Except Error (Reply β) → Prop}

theorem Carries.raise {error : Error} (definite : error ≠ .endOfTokens) :
    Carries more pending least ends (Parser.raise error) :=
  fun _ _ => .failed definite

theorem Carries.pure (value : α) : Carries more none 0 ends (Pure.pure value : Parser α) :=
  fun _ reaches => .accept rfl reaches (fun _ => settles_nil) (Nat.le_refl _)

/-- A parser after another one that settles what it takes. -/
theorem Outcome.bind
    (outcome : Outcome more none least ends tokens (first tokens) (first (tokens ++ more)))
    (onAccept : ∀ value rest, first tokens = .ok (.accept value rest) → Reaches rest →
      Outcome more pending 0 ends' rest (next value rest) (next value (rest ++ more)))
    (atEnd : ends (first tokens) → ends' ((first >>= next) tokens)) :
    Outcome more pending least ends' tokens ((first >>= next) tokens)
      ((first >>= next) (tokens ++ more)) := by
  change ends (first tokens) → ends' (Parser.bind first next tokens) at atEnd
  change Outcome _ _ _ _ _ (Parser.bind first next tokens) (Parser.bind first next _)
  unfold Parser.bind at atEnd ⊢
  generalize replied : first tokens = reply, first (tokens ++ more) = reply' at *
  apply outcome.andThen
  case fails | fails' => exact fun _ => rfl
  case isSuffix => exact List.suffix_refl _
  case onAccept =>
      intro value taken rest accepted split reaches settles enough
      exact (onAccept value rest accepted reaches).later split settles enough
  case onReject => exact fun _ _ => .reject
  case onSpent => exact fun isEnd settles => .spent (atEnd isEnd) settles

theorem Carries.bind (carries : Carries more none least ends first)
    (carriesNext : ∀ value, Carries more pending 0 ends' (next value))
    (atEnd : ∀ tokens, ends (first tokens) → ends' ((first >>= next) tokens)) :
    Carries more pending least ends' (first >>= next) :=
  fun tokens reaches => (carries tokens reaches).bind
    (fun value rest _ reachesRest => carriesNext value rest reachesRest) (atEnd tokens)

/-- A parser after another one that never takes all tokens. -/
theorem Carries.followed (carries : Carries more none least Never first)
    (carriesNext : ∀ value, Carries more pending 0 ends' (next value)) :
    Carries more pending least ends' (first >>= next) :=
  carries.bind carriesNext fun _ => False.elim

/-- What follows where all tokens have been taken. -/
theorem Finished.bind (finished : Finished (first tokens))
    (atEnd : ∀ value, ends' (next value [])) : ends' ((first >>= next) tokens) := by
  obtain ⟨value, accepted⟩ := finished
  change ends' (Parser.bind first next tokens)
  rw [Parser.bind, accepted]
  exact atEnd value

theorem Halted.bind (halted : Halted (first tokens)) : Halted ((first >>= next) tokens) := by
  change Parser.bind first next tokens = _
  rw [Parser.bind, halted]

theorem Carries.attempt (carries : Carries more none least Never first) :
    Carries more none least Never first.attempt := by
  intro tokens reaches
  have outcome := carries tokens reaches
  unfold Parser.attempt
  generalize first tokens = reply, first (tokens ++ more) = reply' at outcome ⊢
  apply outcome.andThen
  case fails | fails' => exact fun _ => rfl
  case isSuffix => exact List.suffix_refl _
  case onAccept => exact fun _ => .accept
  case onReject => exact fun _ _ => .reject
  case onSpent => exact False.elim

theorem Carries.orRaise (carries : Carries more none least Never first) {error : Error}
    (definite : error ≠ .endOfTokens) : Carries more none least Never (first.orRaise error) := by
  intro tokens reaches
  have outcome := carries tokens reaches
  unfold Parser.orRaise
  generalize first tokens = reply, first (tokens ++ more) = reply' at outcome ⊢
  apply outcome.andThen
  case fails | fails' => exact fun _ => rfl
  case isSuffix => exact List.suffix_refl _
  case onAccept => exact fun _ => .accept
  case onReject => exact fun _ _ => .failed definite
  case onSpent => exact False.elim

end Sequence

section Tokens

variable {test : Token → Bool} {token : Token} {delimiter : Delimiter} {next : Parser α}

/-- A token that neither opens nor closes anything, and what follows it. -/
theorem Outcome.inert {reply reply' : Except Error (Reply α)}
    (outcome : Outcome more pending 0 ends rest reply reply')
    (inert : token.IsPlain → token.IsInert) :
    Outcome more pending 1 ends (token :: rest) reply reply' :=
  outcome.later (show token :: rest = [token] ++ rest from rfl)
    (fun plain => (inert (plain token List.mem_cons_self)).settles) (Nat.le_refl _)

/-- A token that opens something, and what follows it.  If the tokens end before it is closed,
they leave it unclosed. -/
theorem Outcome.opens {reply reply' : Except Error (Reply α)}
    (outcome : Outcome more (some delimiter) 0 Halted rest reply reply')
    (opens : token.IsPlain → token.Opens delimiter) :
    Outcome more none 1 Never (token :: rest) reply reply' := by
  have opening : ArePlain (token :: rest) → token.Opens delimiter :=
    fun plain => opens (plain token List.mem_cons_self)
  apply outcome.after (show token :: rest = [token] ++ rest from rfl) (Nat.le_refl _)
  case joins => exact fun plain => (opening plain).settles
  case onSpent =>
      intro halted settles
      cases halted
      exact .unclosed fun plain => (opening plain).unclosed (settles plain)

/-- A token that closes what is pending, and what follows it. -/
theorem Outcome.closes {reply reply' : Except Error (Reply α)}
    (outcome : Outcome more none 0 Never rest reply reply')
    (closes : token.IsPlain → token.Closes delimiter) :
    Outcome more (some delimiter) 1 ends (token :: rest) reply reply' := by
  apply outcome.after (show token :: rest = [token] ++ rest from rfl) (Nat.le_refl _)
  case joins => exact fun plain => (closes (plain token List.mem_cons_self)).settles
  case onSpent => exact False.elim

/-- A word of the grammar is not the last token, unless that is not plain. -/
theorem Outcome.word {reply : List Token → Except Error (Reply α)}
    (reaches : Reaches (token :: rest)) (isBare : token.text ∈ bareWords)
    (halts : reply [] = .error .endOfTokens)
    (onRest : Reaches rest → Outcome more pending least ends (token :: rest) (reply rest)
      (reply (rest ++ more))) :
    Outcome more pending least ends (token :: rest) (reply rest) (reply (rest ++ more)) := by
  rcases reaches.tail with ⟨rfl, isNewline⟩ | reachesRest
  · rw [halts]
    refine .unclosed fun plain => ?_
    rcases (plain token List.mem_cons_self).kind_of_bareWord isBare with isKind | ⟨isKind, _⟩
    all_goals
      rw [isKind] at isNewline
      cases isNewline
  · exact onRest reachesRest

theorem Carries.satisfy {next : Token → Parser α}
    (onPass : ∀ token rest, test token = true → Reaches (token :: rest) →
      Outcome more pending least ends (token :: rest) (next token rest)
        (next token (rest ++ more))) :
    Carries more pending least ends (Parser.satisfy test >>= next) := by
  intro tokens reaches
  obtain ⟨token, rest, rfl⟩ := reaches.exists_cons
  rw [List.cons_append, satisfy_bind_cons, satisfy_bind_cons]
  split
  · rename_i passes
    exact onPass token rest passes reaches
  · exact .reject

theorem Carries.skip
    (onPass : ∀ token rest, test token = true → Reaches (token :: rest) →
      Outcome more pending least ends (token :: rest) (next rest) (next (rest ++ more))) :
    Carries more pending least ends (Parser.skip test >>= fun _ => next) := by
  rw [skip_bind]
  exact Carries.satisfy onPass

theorem Carries.demand {error : Token → Error} (definite : ∀ token, error token ≠ .endOfTokens)
    (onPass : ∀ token rest, test token = true → Reaches (token :: rest) →
      Outcome more pending least ends (token :: rest) (next rest) (next (rest ++ more))) :
    Carries more pending least ends (Parser.demand test error >>= fun _ => next) := by
  intro tokens reaches
  obtain ⟨token, rest, rfl⟩ := reaches.exists_cons
  rw [List.cons_append, demand_bind_cons, demand_bind_cons]
  split
  · rename_i passes
    exact onPass token rest passes reaches
  · exact .failed (definite token)

/-- The position of the next token is the same in both runs. -/
theorem Carries.nextPosition {next : Position → Parser α}
    (carries : ∀ position, Carries more pending least ends (next position)) :
    Carries more pending least ends (Parser.nextPosition >>= next) := by
  intro tokens reaches
  obtain ⟨token, rest, rfl⟩ := reaches.exists_cons
  exact carries token.position (token :: rest) reaches

/-- What follows a token of a kind that neither opens nor closes anything. -/
theorem Outcome.inert_of_kind {kind : Kind} (reaches : Reaches (token :: rest))
    (isKind : token.kind = kind) (other : kind ∉
      [.openParen, .closeParen, .openBracket, .closeBracket, .keyword, .newline])
    (carries : Carries more pending 0 ends next) :
    Outcome more pending 1 ends (token :: rest) (next rest) (next (rest ++ more)) := by
  subst isKind
  simp only [List.mem_cons, List.not_mem_nil, or_false, not_or] at other
  refine (carries rest (reaches.tail_of_ne other.2.2.2.2.2)).inert fun _ => ?_
  exact Token.isInert_of_kind (by simp [other])

end Tokens

/-- A choice has an outcome where each parser of it has one. -/
theorem Outcome.firstOf {choices : List (Parser α)}
    (notRejected : ∀ rest, ¬ ends (.ok (.reject rest)))
    (each : ∀ choice ∈ choices, RejectsInPlace choice ∧
      Outcome more none least ends tokens (choice tokens) (choice (tokens ++ more))) :
    Outcome more none least ends tokens (Parser.firstOf choices tokens)
      (Parser.firstOf choices (tokens ++ more)) := by
  unfold Parser.firstOf
  induction choices with
  | nil => exact .reject
  | cons choice choices ih =>
      obtain ⟨⟨inPlace, outcome⟩, eachLater⟩ := List.forall_mem_cons.mp each
      have outcomeLater := ih eachLater
      unfold Parser.firstOf.go
      generalize replied : choice tokens = reply,
        replied' : choice (tokens ++ more) = reply' at outcome ⊢
      apply outcome.andThen
      case fails | fails' => exact fun _ => rfl
      case isSuffix => exact List.suffix_refl _
      case onAccept => exact fun _ => .accept
      case onReject =>
          rintro rest rest' rfl rfl
          cases inPlace _ _ replied
          cases inPlace _ _ replied'
          exact outcomeLater
      case onSpent =>
          intro atEnd settles
          rcases reply with error | ⟨value, left⟩ | left
          · exact .spent atEnd settles
          · exact .spent atEnd settles
          · exact absurd atEnd (notRejected left)

theorem Carries.firstOf {choices : List (Parser α)}
    (each : ∀ choice ∈ choices, RejectsInPlace choice ∧ Carries more none least Never choice) :
    Carries more none least Never (Parser.firstOf choices) :=
  fun tokens reaches => Outcome.firstOf (fun _ => id) fun choice member =>
    ⟨(each choice member).1, (each choice member).2 tokens reaches⟩

end Boundary

end Grammar

end StackScript
