import StackScript.Grammar.Statement
import StackScript.Proofs.Grammar.Repetition
import StackScript.Proofs.Sequences

/-!
# Two runs side by side

Two parsers are run on two lists of tokens that belong together.  They agree if both raise an
error, or both reject, or both accept values that belong together, and if the tokens that they
leave belong together again.  There is one lemma for each combinator, so a fact about two runs
of the grammar is proved rule by rule and never opens a combinator.

What belongs together is left open.  With equal lists it says that the depth of nesting does
not matter; with lists that differ in their blank lines, that the layout does not; and with
one list that has a property, that all trees that are read from it have one.

Two things are tracked for all of these uses.  The level counts the parentheses that have been
opened, and the lists get shorter, which is why the bounds on repetition are never reached.
-/

namespace StackScript

/-- The words that the grammar looks for whatever the kind of their token. -/
def bareWords : List String := ["-", "do", "else", "end", "if"]

/-- A token that is read by its kind or as a bare word, and that is no parenthesis. -/
def Token.IsInline (token : Token) : Prop :=
  token.kind ∉ [.newline, .openParen, .closeParen] ∨ token.text ∈ bareWords

/-- What a token can show to be wrong with a script. -/
inductive Fault where
  | leftover
  | expectedOpening
  | builtinTarget
  | missingFieldValue
  | malformedConstruct
  | invalidNumeral
  | numeralTooLong (digits : Nat)
  deriving DecidableEq, Repr

namespace Fault

/-- The error that is raised about a token. -/
def error : Fault → Token → Error
  | .leftover, token => .leftover token
  | .expectedOpening, token => .expectedOpening token
  | .builtinTarget, token => .builtinTarget token
  | .missingFieldValue, _ => .missingFieldValue
  | .malformedConstruct, _ => .malformedConstruct
  | .invalidNumeral, token => .invalidNumeral token.text
  | .numeralTooLong digits, _ => .numeralTooLong digits

end Fault

namespace Grammar

open StackScript.Grammar.Parser

/-- What belongs together in two runs: lists of tokens at a level, single tokens, and
errors. -/
structure Matching where
  paired : Int → List Token → List Token → Prop
  alike : Token → Token → Prop
  raised : Error → Error → Prop

/-- The grammar finds the same tokens in lists that belong together: their first tokens are
alike, and what follows belongs together at the level that the token leads to.  A newline may
stand for several, so newlines are skipped only together. -/
structure Matching.Lawful (matching : Matching) : Prop where
  nil_iff : ∀ {level tokens tokens'}, matching.paired level tokens tokens' →
    (tokens = [] ↔ tokens' = [])
  head : ∀ {level token token' rest rest'},
    matching.paired level (token :: rest) (token' :: rest') → matching.alike token token'
  kind_eq : ∀ {token token'}, matching.alike token token' → token.kind = token'.kind
  text_eq : ∀ {token token'}, matching.alike token token' → token.text = token'.text
  inline : ∀ {level token token' rest rest'},
    matching.paired level (token :: rest) (token' :: rest') → token.IsInline →
      matching.paired level rest rest'
  opening : ∀ {level token token' rest rest'},
    matching.paired level (token :: rest) (token' :: rest') → token.kind = .openParen →
      matching.paired (level + 1) rest rest'
  closing : ∀ {level token token' rest rest'},
    matching.paired level (token :: rest) (token' :: rest') → token.kind = .closeParen →
      matching.paired (level - 1) rest rest'
  newlines : ∀ {level tokens tokens'}, matching.paired level tokens tokens' →
    matching.paired level (dropNewlines tokens) (dropNewlines tokens')
  raised_end : matching.raised .endOfTokens .endOfTokens
  raised_fault : ∀ {token token'} (fault : Fault), matching.alike token token' →
    matching.raised (fault.error token) (fault.error token')

/-- Of two lists that belong together, both have ended or neither has. -/
theorem Matching.Lawful.cases {matching : Matching} (lawful : matching.Lawful) {level : Int}
    {tokens tokens' : List Token} (together : matching.paired level tokens tokens') :
    (tokens = [] ∧ tokens' = []) ∨ ∃ token rest token' rest', tokens = token :: rest ∧
      tokens' = token' :: rest' ∧ matching.alike token token' := by
  cases tokens with
  | nil => exact .inl ⟨rfl, (lawful.nil_iff together).mp rfl⟩
  | cons token rest =>
      cases tokens' with
      | nil => exact absurd ((lawful.nil_iff together).mpr rfl) (by simp)
      | cons token' rest' =>
          exact .inr ⟨token, rest, token', rest', rfl, rfl, lawful.head together⟩

theorem Matching.Lawful.raised_malformed {matching : Matching} (lawful : matching.Lawful)
    {token token' : Token} (alikeTokens : matching.alike token token') :
    matching.raised .malformedConstruct .malformedConstruct :=
  lawful.raised_fault .malformedConstruct alikeTokens

/-- Two replies of the same kind. -/
inductive Alike {α β : Type} (raised : Error → Error → Prop)
    (accepted : α → List Token → β → List Token → Prop)
    (rejected : List Token → List Token → Prop) :
    Except Error (Reply α) → Except Error (Reply β) → Prop where
  | error {error error' : Error} (both : raised error error') :
      Alike raised accepted rejected (.error error) (.error error')
  | accept {value : α} {value' : β} {rest rest' : List Token}
      (both : accepted value rest value' rest') :
      Alike raised accepted rejected (.ok (.accept value rest)) (.ok (.accept value' rest'))
  | reject {rest rest' : List Token} (both : rejected rest rest') :
      Alike raised accepted rejected (.ok (.reject rest)) (.ok (.reject rest'))

theorem Alike.imp {α β : Type} {raised : Error → Error → Prop}
    {accepted accepted' : α → List Token → β → List Token → Prop}
    {rejected rejected' : List Token → List Token → Prop} {reply : Except Error (Reply α)}
    {reply' : Except Error (Reply β)} (replies : Alike raised accepted rejected reply reply')
    (onAccept : ∀ {value rest value' rest'}, accepted value rest value' rest' →
      accepted' value rest value' rest')
    (onReject : ∀ {rest rest'}, rejected rest rest' → rejected' rest rest') :
    Alike raised accepted' rejected' reply reply' := by
  cases replies with
  | error both => exact .error both
  | accept both => exact .accept (onAccept both)
  | reject both => exact .reject (onReject both)

section Agreement

variable {α β γ δ : Type} (matching : Matching)

/-- What is left of two lists: it belongs together, and at least some number of tokens has
been taken from both. -/
structure Remains (level : Int) (least : Nat) (tokens tokens' rest rest' : List Token) :
    Prop where
  paired : matching.paired level rest rest'
  left : rest.length + least ≤ tokens.length
  right : rest'.length + least ≤ tokens'.length

/-- On lists that belong together and are shorter than a bound, two parsers give replies of
the same kind, and what they accept belongs together, at a level that may be another one. -/
def AcceptsAlike (bound least : Nat) (before after : Int) (parser : Parser α)
    (parser' : Parser β) (values : α → β → Prop) : Prop :=
  ∀ tokens tokens', matching.paired before tokens tokens' → tokens.length < bound →
    tokens'.length < bound →
      Alike matching.raised (fun value rest value' rest' =>
          values value value' ∧ Remains matching after least tokens tokens' rest rest')
        (fun _ _ => True) (parser tokens) (parser' tokens')

/-- Two parsers that stay at their level, and after which another choice can be tried. -/
def Agrees (bound least : Nat) (level : Int) (parser : Parser α) (parser' : Parser β)
    (values : α → β → Prop) : Prop :=
  ∀ tokens tokens', matching.paired level tokens tokens' → tokens.length < bound →
    tokens'.length < bound →
      Alike matching.raised (fun value rest value' rest' =>
          values value value' ∧ Remains matching level least tokens tokens' rest rest')
        (Remains matching level 0 tokens tokens') (parser tokens) (parser' tokens')

/-- A test that looks only at the kind and the text of a token, and after which the lists
still belong together. -/
structure Leads (before after : Int) (test : Token → Bool) : Prop where
  same : ∀ {token token'}, matching.alike token token' → test token = test token'
  paired : ∀ {token token' rest rest'}, test token = true →
    matching.paired before (token :: rest) (token' :: rest') → matching.paired after rest rest'

variable {matching} {bound least : Nat} {level before between after : Int}

namespace Remains

variable {tokens tokens' middle middle' rest rest' : List Token} {more : Nat}

theorem refl (together : matching.paired level tokens tokens') :
    Remains matching level 0 tokens tokens' tokens tokens' :=
  ⟨together, Nat.le_refl _, Nat.le_refl _⟩

theorem trans (first : Remains matching between least tokens tokens' middle middle')
    (second : Remains matching after more middle middle' rest rest') :
    Remains matching after (least + more) tokens tokens' rest rest' := by
  have left := first.left
  have right := first.right
  have leftMore := second.left
  have rightMore := second.right
  exact ⟨second.paired, by omega, by omega⟩

theorem weaken {fewer : Nat} (remains : Remains matching level least tokens tokens' rest rest')
    (fewerLe : fewer ≤ least) : Remains matching level fewer tokens tokens' rest rest' :=
  ⟨remains.paired, by have := remains.left; omega, by have := remains.right; omega⟩

/-- What replies leave of lists of which some tokens have been taken already. -/
theorem after_taken {values : α → β → Prop} {reply : Except Error (Reply α)}
    {reply' : Except Error (Reply β)}
    (taken : Remains matching level least tokens tokens' middle middle')
    (replies : Alike matching.raised (fun value rest value' rest' =>
        values value value' ∧ Remains matching level 0 middle middle' rest rest')
      (Remains matching level 0 middle middle') reply reply') :
    Alike matching.raised (fun value rest value' rest' =>
        values value value' ∧ Remains matching level 0 tokens tokens' rest rest')
      (Remains matching level 0 tokens tokens') reply reply' :=
  replies.imp (fun both => ⟨both.1, (taken.trans both.2).weaken (Nat.zero_le _)⟩)
    fun both => (taken.trans both).weaken (Nat.zero_le _)

end Remains

theorem Agrees.weaken {parser : Parser α} {parser' : Parser β} {values : α → β → Prop}
    {fewer : Nat} (agrees : Agrees matching bound least level parser parser' values)
    (fewerLe : fewer ≤ least) : Agrees matching bound fewer level parser parser' values :=
  fun tokens tokens' together short short' =>
    (agrees tokens tokens' together short short').imp
      (fun both => ⟨both.1, both.2.weaken fewerLe⟩) id

/-- What belongs together may be taken in a wider sense. -/
theorem Agrees.imp {parser : Parser α} {parser' : Parser β} {values values' : α → β → Prop}
    (agrees : Agrees matching bound least level parser parser' values)
    (wider : ∀ value value', values value value' → values' value value') :
    Agrees matching bound least level parser parser' values' :=
  fun tokens tokens' together short short' =>
    (agrees tokens tokens' together short short').imp (fun both => ⟨wider _ _ both.1, both.2⟩) id

theorem AcceptsAlike.weaken {parser : Parser α} {parser' : Parser β} {values : α → β → Prop}
    {fewer : Nat} (agrees : AcceptsAlike matching bound least before after parser parser' values)
    (fewerLe : fewer ≤ least) :
    AcceptsAlike matching bound fewer before after parser parser' values :=
  fun tokens tokens' together short short' =>
    (agrees tokens tokens' together short short').imp
      (fun both => ⟨both.1, both.2.weaken fewerLe⟩) id

theorem Agrees.acceptsAlike {parser : Parser α} {parser' : Parser β} {values : α → β → Prop}
    (agrees : Agrees matching bound least level parser parser' values) :
    AcceptsAlike matching bound least level level parser parser' values :=
  fun tokens tokens' together short short' =>
    (agrees tokens tokens' together short short').imp id fun _ => trivial

theorem Agrees.mono {parser : Parser α} {parser' : Parser β} {values : α → β → Prop}
    {smaller : Nat} (agrees : Agrees matching bound least level parser parser' values)
    (smallerLe : smaller ≤ bound) :
    Agrees matching smaller least level parser parser' values :=
  fun tokens tokens' together short short' => agrees tokens tokens' together
    (Nat.lt_of_lt_of_le short smallerLe) (Nat.lt_of_lt_of_le short' smallerLe)

/-! ## Sequences -/

namespace AcceptsAlike

variable {values : α → β → Prop}

theorem bind {first : Parser α} {first' : Parser β} {next : α → Parser γ}
    {next' : β → Parser δ} {results : γ → δ → Prop}
    (agreesFirst : AcceptsAlike matching bound least before between first first' values)
    (agreesNext : ∀ value value', values value value' →
      AcceptsAlike matching (bound - least) 0 between after (next value) (next' value') results) :
    AcceptsAlike matching bound least before after (first >>= next) (first' >>= next') results := by
  intro tokens tokens' together short short'
  change Alike _ _ _ (Parser.bind first next tokens) (Parser.bind first' next' tokens')
  unfold Parser.bind
  have replies := agreesFirst tokens tokens' together short short'
  generalize first tokens = reply, first' tokens' = reply' at replies ⊢
  cases replies with
  | error both => exact .error both
  | reject _ => exact .reject trivial
  | @accept value value' rest rest' both =>
      obtain ⟨valuesAlike, remains⟩ := both
      have left := remains.left
      have right := remains.right
      have repliesNext := agreesNext value value' valuesAlike rest rest' remains.paired
        (by omega) (by omega)
      exact repliesNext.imp (fun both => ⟨both.1, remains.trans both.2⟩) id

/-- A step after which at least as much is left as the bound allows anyway. -/
theorem followed {first : Parser α} {first' : Parser β} {next : α → Parser γ}
    {next' : β → Parser δ} {results : γ → δ → Prop}
    (agreesFirst : AcceptsAlike matching bound least before between first first' values)
    (agreesNext : ∀ value value', values value value' →
      AcceptsAlike matching bound 0 between after (next value) (next' value') results) :
    AcceptsAlike matching bound 0 before after (first >>= next) (first' >>= next') results :=
  (agreesFirst.weaken (Nat.zero_le _)).bind agreesNext

theorem attempt {parser : Parser α} {parser' : Parser β}
    (agrees : AcceptsAlike matching bound least level level parser parser' values) :
    Agrees matching bound least level parser.attempt parser'.attempt values := by
  intro tokens tokens' together short short'
  unfold Parser.attempt
  have replies := agrees tokens tokens' together short short'
  generalize parser tokens = reply, parser' tokens' = reply' at replies ⊢
  cases replies with
  | error both => exact .error both
  | accept both => exact .accept both
  | reject _ => exact .reject (.refl together)

end AcceptsAlike

namespace Agrees

variable {values : α → β → Prop}

theorem pure {value : α} {value' : β} (valuesAlike : values value value') :
    Agrees matching bound 0 level (Pure.pure value) (Pure.pure value') values :=
  fun _ _ together _ _ => .accept ⟨valuesAlike, .refl together⟩

theorem raise {error error' : Error} (both : matching.raised error error') :
    Agrees matching bound least level (Parser.raise error) (Parser.raise error') values :=
  fun _ _ _ _ _ => .error both

/-- In a sequence, the tokens that both parts take add up. -/
theorem sequence {more : Nat} {first : Parser α} {first' : Parser β} {next : α → Parser γ}
    {next' : β → Parser δ} {results : γ → δ → Prop}
    (agreesFirst : Agrees matching bound least level first first' values)
    (agreesNext : ∀ value value', values value value' →
      Agrees matching (bound - least) more level (next value) (next' value') results) :
    Agrees matching bound (least + more) level (first >>= next) (first' >>= next') results := by
  intro tokens tokens' together short short'
  change Alike _ _ _ (Parser.bind first next tokens) (Parser.bind first' next' tokens')
  unfold Parser.bind
  have replies := agreesFirst tokens tokens' together short short'
  generalize first tokens = reply, first' tokens' = reply' at replies ⊢
  cases replies with
  | error both => exact .error both
  | reject both => exact .reject both
  | @accept value value' rest rest' both =>
      obtain ⟨valuesAlike, remains⟩ := both
      have left := remains.left
      have right := remains.right
      have repliesNext := agreesNext value value' valuesAlike rest rest' remains.paired
        (by omega) (by omega)
      exact repliesNext.imp (fun both => ⟨both.1, remains.trans both.2⟩)
        fun both => (remains.trans both).weaken (Nat.zero_le _)

theorem bind {first : Parser α} {first' : Parser β} {next : α → Parser γ}
    {next' : β → Parser δ} {results : γ → δ → Prop}
    (agreesFirst : Agrees matching bound least level first first' values)
    (agreesNext : ∀ value value', values value value' →
      Agrees matching (bound - least) 0 level (next value) (next' value') results) :
    Agrees matching bound least level (first >>= next) (first' >>= next') results :=
  agreesFirst.sequence agreesNext

theorem orRaise {parser : Parser α} {parser' : Parser β}
    (agrees : Agrees matching bound least level parser parser' values) {error error' : Error}
    (errors : matching.raised error error') :
    Agrees matching bound least level (parser.orRaise error) (parser'.orRaise error') values := by
  intro tokens tokens' together short short'
  unfold Parser.orRaise
  have replies := agrees tokens tokens' together short short'
  generalize parser tokens = reply, parser' tokens' = reply' at replies ⊢
  cases replies with
  | error both => exact .error both
  | accept both => exact .accept both
  | reject _ => exact .error errors

theorem newlines (lawful : matching.Lawful) :
    Agrees matching bound 0 level Parser.newlines Parser.newlines fun _ _ => True :=
  fun tokens tokens' together _ _ => .accept
    ⟨trivial, lawful.newlines together, length_dropNewlines_le tokens,
      length_dropNewlines_le tokens'⟩

theorem nextPosition (lawful : matching.Lawful) :
    Agrees matching bound 0 level Parser.nextPosition Parser.nextPosition
      fun position position' => ∃ token token', matching.alike token token' ∧
        position = token.position ∧ position' = token'.position := by
  intro tokens tokens' together short short'
  rcases lawful.cases together with
    ⟨rfl, rfl⟩ | ⟨token, rest, token', rest', rfl, rfl, alikeTokens⟩
  · exact .error lawful.raised_end
  · exact .accept ⟨⟨token, token', alikeTokens, rfl, rfl⟩, .refl together⟩

end Agrees

theorem attempt_satisfy (test : Token → Bool) :
    (Parser.satisfy test).attempt = Parser.satisfy test := by
  funext tokens
  cases tokens with
  | nil => rfl
  | cons token rest =>
      rw [Parser.attempt, Parser.satisfy]
      by_cases passes : test token = true
      · rw [if_pos passes]
      · rw [if_neg passes]

section Tokens

variable (lawful : matching.Lawful)
include lawful

theorem leads_kind (kind : Kind) (isInline : kind ∉ [.newline, .openParen, .closeParen]) :
    Leads matching level level fun token => token.kind = kind where
  same alikeTokens := by simp only [lawful.kind_eq alikeTokens]
  paired passes together :=
    lawful.inline together (.inl (by rwa [of_decide_eq_true passes]))

theorem leads_text (word : String) (isBare : word ∈ bareWords) :
    Leads matching level level fun token => token.text = word where
  same alikeTokens := by simp only [lawful.text_eq alikeTokens]
  paired passes together :=
    lawful.inline together (.inr (by rwa [of_decide_eq_true passes]))

theorem leads_keyword (word : String) :
    Leads matching level level (Token.isKeyword word) where
  same alikeTokens := by
    simp only [Token.isKeyword, lawful.kind_eq alikeTokens, lawful.text_eq alikeTokens]
  paired passes together := by
    have isKeyword := of_decide_eq_true (Bool.and_eq_true_iff.mp passes).1
    exact lawful.inline together (.inl (by simp [isKeyword]))

theorem leads_symbol (name : String) :
    Leads matching level level (Token.isSymbol name) where
  same alikeTokens := by
    simp only [Token.isSymbol, lawful.kind_eq alikeTokens, lawful.text_eq alikeTokens]
  paired passes together := by
    have isSymbol := of_decide_eq_true (Bool.and_eq_true_iff.mp passes).1
    exact lawful.inline together (.inl (by simp [isSymbol]))

theorem leads_opening :
    Leads matching level (level + 1) fun token => token.kind = .openParen where
  same alikeTokens := by simp only [lawful.kind_eq alikeTokens]
  paired passes together := lawful.opening together (of_decide_eq_true passes)

theorem leads_closing :
    Leads matching level (level - 1) fun token => token.kind = .closeParen where
  same alikeTokens := by simp only [lawful.kind_eq alikeTokens]
  paired passes together := lawful.closing together (of_decide_eq_true passes)

variable {test : Token → Bool}

theorem AcceptsAlike.satisfy (leads : Leads matching before after test) :
    AcceptsAlike matching bound 1 before after (Parser.satisfy test) (Parser.satisfy test)
      fun token token' => matching.alike token token' ∧ test token = true := by
  intro tokens tokens' together short short'
  rcases lawful.cases together with
    ⟨rfl, rfl⟩ | ⟨token, rest, token', rest', rfl, rfl, alikeTokens⟩
  · exact .error lawful.raised_end
  · rw [Parser.satisfy, Parser.satisfy, ← leads.same alikeTokens]
    split
    · rename_i passes
      exact .accept ⟨⟨alikeTokens, passes⟩, leads.paired passes together, Nat.le_refl _,
        Nat.le_refl _⟩
    · exact .reject trivial

theorem AcceptsAlike.skip (leads : Leads matching before after test) :
    AcceptsAlike matching bound 1 before after (Parser.skip test) (Parser.skip test)
      fun _ _ => ∃ token token', matching.alike token token' :=
  (satisfy lawful leads).bind fun _ _ both => (Agrees.pure ⟨_, _, both.1⟩).acceptsAlike

theorem AcceptsAlike.demand (leads : Leads matching before after test)
    {error error' : Token → Error} (errors : ∀ {token token'}, matching.alike token token' →
      matching.raised (error token) (error' token')) :
    AcceptsAlike matching bound 1 before after (Parser.demand test error)
      (Parser.demand test error') fun _ _ => True := by
  intro tokens tokens' together short short'
  rcases lawful.cases together with
    ⟨rfl, rfl⟩ | ⟨token, rest, token', rest', rfl, rfl, alikeTokens⟩
  · exact .error lawful.raised_end
  · rw [Parser.demand, Parser.demand, ← leads.same alikeTokens]
    split
    · rename_i passes
      exact .accept ⟨trivial, leads.paired passes together, Nat.le_refl _, Nat.le_refl _⟩
    · exact .error (errors alikeTokens)

theorem Agrees.satisfy (leads : Leads matching level level test) :
    Agrees matching bound 1 level (Parser.satisfy test) (Parser.satisfy test)
      fun token token' => matching.alike token token' ∧ test token = true := by
  rw [← attempt_satisfy]
  exact (AcceptsAlike.satisfy lawful leads).attempt

theorem Agrees.skip (leads : Leads matching level level test) :
    Agrees matching bound 1 level (Parser.skip test) (Parser.skip test)
      fun _ _ => ∃ token token', matching.alike token token' :=
  (satisfy lawful leads).bind fun _ _ both => Agrees.pure ⟨_, _, both.1⟩

end Tokens

/-! ## Choice and repetition -/

section Repetition

variable (lawful : matching.Lawful)
variable {values : α → β → Prop}

theorem Agrees.firstOf {choices : List (Parser α)} {choices' : List (Parser β)}
    (agrees : List.Forall₂ (fun choice choice' =>
      Agrees matching bound least level choice choice' values) choices choices') :
    Agrees matching bound least level (Parser.firstOf choices) (Parser.firstOf choices')
      values := by
  intro start start' startTogether short short'
  -- The tokens move on from choice to choice, while the start stays the same.
  have all : ∀ tokens tokens', Remains matching level 0 start start' tokens tokens' →
      Alike matching.raised (fun value rest value' rest' =>
          values value value' ∧ Remains matching level least start start' rest rest')
        (Remains matching level 0 start start')
        (Parser.firstOf.go start choices tokens) (Parser.firstOf.go start' choices' tokens') := by
    induction agrees with
    | nil => exact fun _ _ _ => .reject (.refl startTogether)
    | @cons choice choice' choices choices' agreesFirst _ ih =>
        intro tokens tokens' remains
        have left := remains.left
        have right := remains.right
        have replies := agreesFirst tokens tokens' remains.paired (by omega) (by omega)
        unfold Parser.firstOf.go
        generalize choice tokens = reply, choice' tokens' = reply' at replies ⊢
        cases replies with
        | error both => exact .error both
        | accept both =>
            exact .accept ⟨both.1, (remains.trans both.2).weaken (Nat.le_add_left _ _)⟩
        | reject both => exact ih _ _ (remains.trans both)
  exact all start start' (.refl startTogether)

include lawful

theorem AcceptsAlike.wrapped {opening closing : Kind} {parser : Parser α} {parser' : Parser β}
    (opens : Leads matching level between fun token => token.kind = opening)
    (agrees : Agrees matching bound least between parser parser' values)
    (closes : Leads matching between level fun token => token.kind = closing) :
    Agrees matching (bound + 1) 1 level (Parser.wrapped opening closing parser)
      (Parser.wrapped opening closing parser') values := by
  apply AcceptsAlike.attempt
  apply (AcceptsAlike.skip lawful opens).bind
  rintro _ _ ⟨token, token', alikeTokens⟩
  have malformed := lawful.raised_malformed alikeTokens
  apply agrees.acceptsAlike.followed
  intro value value' valuesAlike
  apply (AcceptsAlike.demand lawful closes fun _ => malformed).followed
  intro _ _ _
  exact (Agrees.pure valuesAlike).acceptsAlike

/-- Two repetitions go on side by side until both stop, if their steps agree and take a token
each time. -/
theorem Agrees.repeats {σ τ : Type} {states : σ → τ → Prop} {results : γ → δ → Prop}
    {step : σ → Parser σ} {step' : τ → Parser τ} {ended stopped : σ → γ} {ended' stopped' : τ → δ}
    {replies : Nat → σ → Parser γ} {replies' : Nat → τ → Parser δ}
    (repeats : Repeats step ended stopped replies)
    (repeats' : Repeats step' ended' stopped' replies')
    (agrees : ∀ state state', states state state' →
      Agrees matching bound 1 level (step state) (step' state') states)
    (finished : ∀ state state', states state state' →
      results (ended state) (ended' state') ∧ results (stopped state) (stopped' state'))
    {times times' : Nat} {state : σ} {state' : τ} (statesAlike : states state state')
    {tokens tokens' : List Token} (together : matching.paired level tokens tokens')
    (short : tokens.length < bound) (short' : tokens'.length < bound)
    (enough : tokens.length ≤ times) (enough' : tokens'.length ≤ times') :
    Alike matching.raised (fun value rest value' rest' =>
        results value value' ∧ Remains matching level 0 tokens tokens' rest rest')
      (Remains matching level 0 tokens tokens') (replies times state tokens)
      (replies' times' state' tokens') := by
  induction times generalizing times' state state' tokens tokens' with
  | zero =>
      cases List.eq_nil_of_length_eq_zero (Nat.le_zero.mp enough)
      cases (lawful.nil_iff together).mp rfl
      rw [repeats.atEnd, repeats'.atEnd]
      exact .accept ⟨(finished state state' statesAlike).1, .refl together⟩
  | succ times ih =>
      rcases lawful.cases together with
        ⟨rfl, rfl⟩ | ⟨token, others, token', others', rfl, rfl, _⟩
      · rw [repeats.atEnd, repeats'.atEnd]
        exact .accept ⟨(finished state state' statesAlike).1, .refl together⟩
      obtain ⟨times', rfl⟩ := Nat.exists_eq_succ_of_ne_zero (n := times') (by grind)
      rw [repeats.turn, repeats'.turn]
      have both := agrees state state' statesAlike _ _ together short short'
      generalize step state (token :: others) = reply,
        step' state' (token' :: others') = reply' at both ⊢
      cases both with
      | error both => exact .error both
      | reject both => exact .accept ⟨(finished state state' statesAlike).2, both⟩
      | accept both =>
          obtain ⟨nextAlike, remains⟩ := both
          have left := remains.left
          have right := remains.right
          exact remains.after_taken
            (ih nextAlike remains.paired (by omega) (by omega) (by omega) (by omega))

theorem Agrees.offered {parser : Parser α} {parser' : Parser β}
    (agrees : Agrees matching bound least level parser parser' values) :
    Agrees matching bound least level (Grammar.offered parser) (Grammar.offered parser')
      values := by
  intro tokens tokens' together short short'
  rcases lawful.cases together with ⟨rfl, rfl⟩ | ⟨token, rest, token', rest', rfl, rfl, _⟩
  · exact .reject (.refl together)
  · exact agrees.acceptsAlike.attempt _ _ together short short'

/-- A parser that takes a token each time reads on until it rejects or the tokens end. -/
theorem Agrees.manyUpTo {parser : Parser α} {parser' : Parser β}
    (agrees : Agrees matching bound 1 level parser parser' values) {times times' : Nat}
    {tokens tokens' : List Token} (together : matching.paired level tokens tokens')
    (short : tokens.length < bound) (short' : tokens'.length < bound)
    (enough : tokens.length ≤ times) (enough' : tokens'.length ≤ times') :
    Alike matching.raised (fun found rest found' rest' =>
        List.Forall₂ values found found' ∧ Remains matching level 0 tokens tokens' rest rest')
      (Remains matching level 0 tokens tokens') (Parser.manyUpTo parser times tokens)
      (Parser.manyUpTo parser' times' tokens') := by
  rw [← withItems_nil (Parser.manyUpTo parser times tokens),
    ← withItems_nil (Parser.manyUpTo parser' times' tokens')]
  refine Agrees.repeats lawful (repeats_manyUpTo parser) (repeats_manyUpTo parser') ?_
    (fun _ _ both => ⟨both, both⟩) .nil together short short' enough enough'
  intro read read' readAlike
  apply agrees.bind
  intro value value' valuesAlike
  exact Agrees.pure (List.rel_append readAlike (.cons valuesAlike .nil))

theorem Agrees.many {parser : Parser α} {parser' : Parser β}
    (agrees : Agrees matching bound 1 level parser parser' values) :
    Agrees matching bound 0 level (Parser.many parser) (Parser.many parser')
      (List.Forall₂ values) :=
  fun _ _ together short short' =>
    agrees.manyUpTo lawful together short short' (Nat.le_refl _) (Nat.le_refl _)

theorem Agrees.nextItem {item : Parser α} {item' : Parser β}
    (agrees : Agrees matching bound least level item item' values) {read : List α}
    {read' : List β} (readAlike : List.Forall₂ values read read') :
    Agrees matching bound 1 level (Grammar.nextItem item read) (Grammar.nextItem item' read')
      (List.Forall₂ values) := by
  apply (Agrees.skip lawful (leads_kind lawful .comma (by simp))).bind
  intro _ _ _
  apply (Agrees.newlines lawful).bind
  intro _ _ _
  have agreesLater := (agrees.weaken (Nat.zero_le _)).mono (Nat.sub_le bound 1)
  apply (agreesLater.offered lawful).bind
  intro value value' valuesAlike
  exact Agrees.pure (List.rel_append readAlike (.cons valuesAlike .nil))

theorem Agrees.commaSeparated {item : Parser α} {item' : Parser β}
    (agrees : Agrees matching bound least level item item' values) :
    Agrees matching bound 0 level (Parser.commaSeparated item) (Parser.commaSeparated item')
      (List.Forall₂ values) := by
  intro tokens tokens' together short short'
  have later : Remains matching level 0 tokens tokens' (dropNewlines tokens)
      (dropNewlines tokens') :=
    ⟨lawful.newlines together, length_dropNewlines_le _, length_dropNewlines_le _⟩
  have left := later.left
  have right := later.right
  have replies := agrees _ _ later.paired (by omega) (by omega)
  rw [commaSeparated_eq, commaSeparated_eq]
  generalize item (dropNewlines tokens) = reply, item' (dropNewlines tokens') = reply'
    at replies ⊢
  cases replies with
  | error both => exact .error both
  | reject _ => exact .accept ⟨.nil, .refl together⟩
  | @accept value value' rest rest' both =>
      obtain ⟨valuesAlike, remains⟩ := both
      have remainsBoth := later.trans remains
      have leftBoth := remainsBoth.left
      have rightBoth := remainsBoth.right
      refine remainsBoth.after_taken (Agrees.repeats lawful (repeats_moreItems item)
        (repeats_moreItems item') (fun _ _ => agrees.nextItem lawful)
        (fun _ _ both => ⟨both, both⟩) (.cons valuesAlike .nil) remains.paired (by omega)
        (by omega) (Nat.le_refl _) (Nat.le_refl _))

theorem Agrees.chainLeft {operand : Parser α} {operand' : Parser β}
    {isOperator : Token → Bool} {join : Token → α → α → α} {join' : Token → β → β → β}
    (leads : Leads matching level level isOperator)
    (agrees : Agrees matching bound least level operand operand' values)
    (joins : ∀ operator operator' left left' right right', matching.alike operator operator' →
      isOperator operator = true → values left left' → values right right' →
        values (join operator left right) (join' operator' left' right')) :
    Agrees matching bound least level (Parser.chainLeft isOperator operand join)
      (Parser.chainLeft isOperator operand' join') values := by
  apply AcceptsAlike.attempt
  apply Agrees.acceptsAlike
  apply agrees.bind
  intro first first' firstAlike tokens tokens' together short short'
  refine Agrees.repeats lawful (repeats_moreOperands isOperator operand join)
    (repeats_moreOperands isOperator operand' join') ?_ (fun _ _ both => ⟨both, both⟩) firstAlike
    together short short' (Nat.le_refl _) (Nat.le_refl _)
  intro left left' leftAlike
  apply AcceptsAlike.attempt
  apply Agrees.acceptsAlike
  apply (Agrees.satisfy lawful leads).bind
  rintro operator operator' ⟨operatorsAlike, isOne⟩
  have agreesLater := (agrees.weaken (Nat.zero_le _)).mono
    (Nat.le_trans (Nat.sub_le _ 1) (Nat.sub_le bound least))
  apply (agreesLater.offered lawful).bind
  intro right right' rightAlike
  exact Agrees.pure (joins _ _ _ _ _ _ operatorsAlike isOne leftAlike rightAlike)

omit lawful in
/-- What belongs together while a head is applied: the head, the argument that has been read
last, and the tokens where this argument starts. -/
structure AppliedAlike (matching : Matching) (results : γ → δ → Prop) (values : α → β → Prop)
    (state : γ × Position × α) (state' : δ × Position × β) : Prop where
  head : results state.1 state'.1
  position : ∃ token token', matching.alike token token' ∧ state.2.1 = token.position ∧
    state'.2.1 = token'.position
  given : values state.2.2 state'.2.2

theorem Agrees.nextArgument {results : γ → δ → Prop} {argument : Parser α} {argument' : Parser β}
    {apply : Position → γ → α → γ} {apply' : Position → δ → β → δ}
    (agrees : Agrees matching bound 1 level argument argument' values)
    {state : γ × Position × α} {state' : δ × Position × β}
    (applied : results (apply state.2.1 state.1 state.2.2)
      (apply' state'.2.1 state'.1 state'.2.2)) :
    Agrees matching bound 1 level (nextArgument argument apply state)
      (nextArgument argument' apply' state') (AppliedAlike matching results values) := by
  change Agrees matching bound (0 + 1) level _ _ _
  apply (Agrees.nextPosition lawful).sequence
  intro position position' positionsAlike
  apply agrees.bind
  intro next next' nextAlike
  exact Agrees.pure ⟨applied, positionsAlike, nextAlike⟩

theorem Agrees.applied {results : γ → δ → Prop} {head : Parser γ} {head' : Parser δ}
    {argument : Parser α} {argument' : Parser β} {apply : Position → γ → α → γ}
    {apply' : Position → δ → β → δ}
    (agreesHead : Agrees matching bound least level head head' results)
    (agrees : Agrees matching bound 1 level argument argument' values)
    (applies : ∀ token token' head head' given given', matching.alike token token' →
      results head head' → values given given' →
        results (apply token.position head given) (apply' token'.position head' given')) :
    Agrees matching bound least level (Parser.applied head argument apply)
      (Parser.applied head' argument' apply') results := by
  have agreesLater := agrees.mono (Nat.sub_le bound least)
  have appliesState (state : γ × Position × α) (state' : δ × Position × β)
      (alike : AppliedAlike matching results values state state') :
      results (apply state.2.1 state.1 state.2.2) (apply' state'.2.1 state'.1 state'.2.2) := by
    obtain ⟨token, token', alikeTokens, same, same'⟩ := alike.position
    rw [same, same']
    exact applies _ _ _ _ _ _ alikeTokens alike.head alike.given
  apply AcceptsAlike.attempt
  apply Agrees.acceptsAlike
  apply agreesHead.bind
  intro headValue headValue' headAlike
  apply (Agrees.nextPosition lawful).bind
  intro position position' positionsAlike
  apply (agreesLater.weaken (Nat.zero_le _)).bind
  intro first first' firstAlike tokens tokens' together short short'
  have firstState : AppliedAlike matching results values (headValue, position, first)
      (headValue', position', first') := ⟨headAlike, positionsAlike, firstAlike⟩
  refine Agrees.repeats lawful (repeats_moreArguments argument apply)
    (repeats_moreArguments argument' apply') ?_
    (fun state state' alike => ⟨alike.head, appliesState state state' alike⟩) firstState
    together short short' (Nat.le_refl _) (Nat.le_refl _)
  intro state state' alike
  exact agreesLater.nextArgument lawful (appliesState state state' alike)

end Repetition

/-- Of two parsers that agree, never reject and have to read all tokens, both fail, or both find
values that belong together. -/
theorem Agrees.finish (lawful : matching.Lawful) {values : α → β → Prop} {parser : Parser α}
    {parser' : Parser β} (agrees : Agrees matching bound least level parser parser' values)
    {tokens tokens' : List Token} (together : matching.paired level tokens tokens')
    (short : tokens.length < bound) (short' : tokens'.length < bound)
    (never : ∀ rest, parser tokens ≠ .ok (.reject rest)) :
    (∃ error error', parser.finish tokens = .error error ∧
        parser'.finish tokens' = .error error' ∧ matching.raised error error') ∨
      ∃ value value', parser.finish tokens = .ok value ∧ parser'.finish tokens' = .ok value' ∧
        values value value' := by
  have replies := agrees tokens tokens' together short short'
  unfold Parser.finish
  generalize parser tokens = reply, parser' tokens' = reply' at replies never ⊢
  cases replies with
  | error both => exact .inl ⟨_, _, rfl, rfl, both⟩
  | reject _ => exact absurd rfl (never _)
  | accept both =>
      rcases lawful.cases both.2.paired with
        ⟨rfl, rfl⟩ | ⟨token, rest, token', rest', rfl, rfl, alikeTokens⟩
      · exact .inr ⟨_, _, rfl, rfl, both.1⟩
      · exact .inl ⟨_, _, rfl, rfl, lawful.raised_fault .leftover alikeTokens⟩

end Agreement

end Grammar

end StackScript
