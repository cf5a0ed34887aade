import StackScript.Grammar.Expression
import StackScript.Proofs.Grammar.Repetition
import StackScript.Token.Lexer

/-!
# What tokens spell

Some tokens bear content, as names, numbers and operators do, and others only separate or
enclose.  A parser is judged by the content of the tokens that it takes: it has to be the
content of the value that it accepts, in the same order.  A parser that rejects may have
skipped only tokens without content.  There is one lemma for each combinator.

The tokens are arbitrary, and so the text of a token need not fit its kind.  How such a token
is read depends on the place where it stands; `Token.IsPlain` describes the tokens that can
be read in one way only.
-/

namespace StackScript

/-- What a token says, or a node of a tree. -/
inductive Content where
  /-- A name, a keyword or an operator. -/
  | word (text : String)
  | integer (value : Int)
  | text (content : String)
  deriving DecidableEq, Repr

namespace Token

/-- The kinds of tokens that stand for their own text. -/
def wordKinds : List Kind := [.symbol, .period, .comparison, .addition, .multiplication]

/-- The kinds of tokens that separate or enclose others. -/
def separatorKinds : List Kind :=
  [.newline, .comma, .colon, .openParen, .closeParen, .openBracket, .closeBracket]

/-- The words that only mark where a body starts and ends. -/
def bodyWords : List String := ["do", "else", "end"]

/-- The ways to read a token, with its content or without. -/
inductive Reading (token : Token) : Option Content → Prop where
  | word (isWord : token.kind ∈ wordKinds) : Reading token (some (.word token.text))
  | keyword (isKeyword : token.kind = .keyword) (opens : token.text ∈ ["def", "lambda"]) :
      Reading token (some (.word token.text))
  | condition (isIf : token.text = "if") : Reading token (some (.word "if"))
  | minus (isMinus : token.text = "-") : Reading token (some (.word "-"))
  | assignment (isAssignment : token.kind = .assignment) : Reading token (some (.word "="))
  | integer {value : Int} (isInteger : token.kind = .integer)
      (denotes : Text.readNumeral token.text = .ok value) : Reading token (some (.integer value))
  | text (isText : token.kind = .doubleQuoted ∨ token.kind = .singleQuoted) :
      Reading token (some (.text (Grammar.unquoted token.text)))
  | separator (isSeparator : token.kind ∈ separatorKinds) : Reading token none
  | bodyWord (isBodyWord : token.text ∈ bodyWords) : Reading token none

namespace Reading

variable {token : Token}

theorem of_kind {kind : Kind} (isSeparator : kind ∈ separatorKinds)
    (isKind : decide (token.kind = kind) = true) : token.Reading none := by
  rw [← of_decide_eq_true isKind] at isSeparator
  exact .separator isSeparator

theorem of_text {word : String} (isBodyWord : word ∈ bodyWords)
    (isWord : decide (token.text = word) = true) : token.Reading none := by
  rw [← of_decide_eq_true isWord] at isBodyWord
  exact .bodyWord isBodyWord

theorem of_end (isEnd : token.isKeyword "end" = true) : token.Reading none :=
  Reading.of_text (by simp [bodyWords]) (Bool.and_eq_true_iff.mp isEnd).2

theorem of_keyword {word : String} (opens : word ∈ ["def", "lambda"])
    (isKeyword : token.isKeyword word = true) : token.Reading (some (.word word)) := by
  rcases Bool.and_eq_true_iff.mp isKeyword with ⟨isKind, isWord⟩
  rw [← of_decide_eq_true isWord] at opens ⊢
  exact .keyword (of_decide_eq_true isKind) opens

end Reading

/-- A token whose text fits its kind, as far as the grammar looks at both. -/
structure IsPlain (token : Token) : Prop where
  keyword_iff : token.kind = .keyword ↔ token.text ∈ Lexer.keywords
  assignment_iff : token.kind = .assignment ↔ token.text = "="
  addition_of_minus : token.text = "-" → token.kind = .addition

def content? (token : Token) : Option Content :=
  match token.kind with
  | .symbol | .period | .comparison | .assignment | .addition | .multiplication =>
      some (.word token.text)
  | .keyword => if token.text ∈ bodyWords then none else some (.word token.text)
  | .integer => (Text.readNumeral token.text).toOption.map .integer
  | .doubleQuoted | .singleQuoted => some (.text (Grammar.unquoted token.text))
  | _ => none

/-- A plain token can be read in one way only. -/
theorem Reading.eq_content? {token : Token} {content : Option Content}
    (reading : token.Reading content) (plain : token.IsPlain) : content = token.content? := by
  have isKeyword : token.text ∈ Lexer.keywords → token.kind = .keyword := plain.keyword_iff.mpr
  cases reading with
  | word isWord =>
      simp only [wordKinds, List.mem_cons, List.not_mem_nil, or_false] at isWord
      rcases isWord with isWord | isWord | isWord | isWord | isWord <;> rw [content?, isWord]
  | keyword isKeyword opens =>
      have notBody : token.text ∉ bodyWords := by
        simp only [List.mem_cons, List.not_mem_nil, or_false] at opens
        rcases opens with opens | opens <;> simp [opens, bodyWords]
      rw [content?, isKeyword]
      simp [notBody]
  | condition isIf =>
      rw [content?, isKeyword (by simp [isIf, Lexer.keywords])]
      simp [isIf, bodyWords]
  | minus isMinus =>
      rw [content?, plain.addition_of_minus isMinus]
      simp [isMinus]
  | assignment isAssignment =>
      rw [content?, isAssignment]
      simp [plain.assignment_iff.mp isAssignment]
  | integer isInteger denotes =>
      rw [content?, isInteger]
      simp [denotes, Except.toOption]
  | text isText => rcases isText with isText | isText <;> rw [content?, isText]
  | separator isSeparator =>
      simp only [separatorKinds, List.mem_cons, List.not_mem_nil, or_false] at isSeparator
      rcases isSeparator with kind | kind | kind | kind | kind | kind | kind <;> rw [content?, kind]
  | bodyWord isBodyWord =>
      have inKeywords : token.text ∈ Lexer.keywords := by
        simp only [bodyWords, List.mem_cons, List.not_mem_nil, or_false] at isBodyWord
        rcases isBodyWord with same | same | same <;> simp [same, Lexer.keywords]
      rw [content?, isKeyword inKeywords]
      simp [isBodyWord]

end Token

/-- Contents that are read off from tokens one by one. -/
inductive Spells : List Token → List Content → Prop where
  | nil : Spells [] []
  | cons {token : Token} {content : Option Content} {tokens : List Token}
      {contents : List Content} (reading : token.Reading content)
      (rest : Spells tokens contents) : Spells (token :: tokens) (content.toList ++ contents)

namespace Spells

theorem single {token : Token} {content : Option Content} (reading : token.Reading content) :
    Spells [token] content.toList := by
  simpa using Spells.cons reading .nil

theorem append {first second : List Token} {firstContents secondContents : List Content}
    (firstSpells : Spells first firstContents) (secondSpells : Spells second secondContents) :
    Spells (first ++ second) (firstContents ++ secondContents) := by
  induction firstSpells with
  | nil => exact secondSpells
  | cons reading _ ih =>
      rw [List.cons_append, List.append_assoc]
      exact .cons reading ih

/-- Separators spell nothing. -/
theorem of_separators {tokens : List Token}
    (separators : ∀ token ∈ tokens, token.kind ∈ Token.separatorKinds) : Spells tokens [] := by
  induction tokens with
  | nil => exact .nil
  | cons token rest ih =>
      have both := List.forall_mem_cons.mp separators
      exact .cons (.separator both.1) (ih both.2)

/-- Plain tokens spell their contents and nothing else. -/
theorem eq_filterMap {tokens : List Token} {contents : List Content}
    (spells : Spells tokens contents) (plain : ∀ token ∈ tokens, token.IsPlain) :
    contents = tokens.filterMap Token.content? := by
  induction spells with
  | nil => rfl
  | @cons token content tokens contents reading _ ih =>
      have both := List.forall_mem_cons.mp plain
      rw [ih both.2, reading.eq_content? both.1, List.filterMap_cons]
      cases token.content? <;> rfl

end Spells

namespace Grammar

open StackScript.Grammar.Parser

/-- The last of the tokens, if there is one, is a newline. -/
def EndsLine (tokens : List Token) : Prop :=
  ∀ last ∈ tokens.getLast?, last.kind = .newline

theorem endsLine_of_kind {tokens : List Token}
    (lastKind : tokens.getLast?.map Token.kind = some .newline) : EndsLine tokens := by
  intro last isLast
  rw [Option.mem_def.mp isLast] at lastKind
  exact Option.some.inj lastKind

/-- What is left of some tokens, after others that spell contents have been taken. -/
def Leaves (tokens : List Token) (contents : List Content) (rest : List Token) : Prop :=
  ∃ taken, tokens = taken ++ rest ∧ Spells taken contents

namespace Leaves

variable {tokens between rest : List Token} {contents more : List Content}

theorem refl (tokens : List Token) : Leaves tokens [] tokens :=
  ⟨[], rfl, .nil⟩

theorem trans (first : Leaves tokens contents between) (second : Leaves between more rest) :
    Leaves tokens (contents ++ more) rest := by
  rcases first with ⟨taken, rfl, spells⟩
  rcases second with ⟨further, rfl, furtherSpells⟩
  exact ⟨taken ++ further, (List.append_assoc ..).symm, spells.append furtherSpells⟩

theorem of_reading {token : Token} {content : Option Content} (reading : token.Reading content)
    (rest : List Token) : Leaves (token :: rest) content.toList rest :=
  ⟨[token], rfl, .single reading⟩

theorem endsLine (leaves : Leaves tokens contents rest) (ends : EndsLine tokens) :
    EndsLine rest := by
  rcases leaves with ⟨taken, rfl, _⟩
  intro last isLast
  apply ends last
  rw [List.getLast?_append, isLast]
  rfl

theorem length_le (leaves : Leaves tokens contents rest) : rest.length ≤ tokens.length := by
  rcases leaves with ⟨taken, rfl, _⟩
  simp

/-- Newlines may be skipped. -/
theorem dropNewlines (tokens : List Token) :
    Leaves tokens [] (tokens.dropWhile fun token => token.kind = .newline) := by
  refine ⟨tokens.takeWhile fun token => token.kind = .newline, ?_, Spells.of_separators ?_⟩
  · exact List.takeWhile_append_dropWhile.symm
  · intro token member
    have isNewline := List.all_eq_true.mp List.all_takeWhile token member
    rw [of_decide_eq_true isNewline]
    simp [Token.separatorKinds]

end Leaves

variable {α β : Type} {spelled : α → List Content → Prop}

/-- What a parser accepts is spelled by the tokens that it takes, if a newline ends them. -/
def Accepts (parser : Parser α) (spelled : α → List Content → Prop) : Prop :=
  ∀ tokens, EndsLine tokens → ∀ value rest, parser tokens = .ok (.accept value rest) →
    ∃ contents, Leaves tokens contents rest ∧ spelled value contents

/-- A parser skips nothing that has content before it rejects. -/
def Rejects (parser : Parser α) : Prop :=
  ∀ tokens, EndsLine tokens → ∀ rest, parser tokens = .ok (.reject rest) → Leaves tokens [] rest

/-- A parser that accounts for all tokens that it takes. -/
structure Consumes (parser : Parser α) (spelled : α → List Content → Prop) : Prop where
  accepts : Accepts parser spelled
  rejects : Rejects parser

section Inversion

variable {tokens rest : List Token} {test : Token → Bool}

theorem bind_eq_accept {first : Parser α} {next : α → Parser β} {result : β}
    (replied : (first >>= next) tokens = .ok (.accept result rest)) :
    ∃ value between, first tokens = .ok (.accept value between) ∧
      next value between = .ok (.accept result rest) := by
  change Parser.bind first next tokens = _ at replied
  unfold Parser.bind at replied
  split at replied
  case h_1 => cases replied
  case h_2 => cases replied
  case h_3 value between accepted => exact ⟨value, between, accepted, replied⟩

theorem attempt_eq_accept {parser : Parser α} {value : α}
    (replied : parser.attempt tokens = .ok (.accept value rest)) :
    parser tokens = .ok (.accept value rest) := by
  unfold Parser.attempt at replied
  split at replied
  · cases replied
  · exact replied

theorem satisfy_eq_accept {token : Token}
    (replied : satisfy test tokens = .ok (.accept token rest)) :
    tokens = token :: rest ∧ test token = true := by
  cases tokens with
  | nil => cases replied
  | cons first others =>
      rw [satisfy] at replied
      split at replied
      · rename_i passes
        cases replied
        exact ⟨rfl, passes⟩
      · cases replied

theorem demand_eq_accept {error : Token → Error}
    (replied : demand test error tokens = .ok (.accept () rest)) :
    ∃ token, tokens = token :: rest ∧ test token = true := by
  cases tokens with
  | nil => cases replied
  | cons first others =>
      rw [demand] at replied
      split at replied
      · rename_i passes
        cases replied
        exact ⟨first, rfl, passes⟩
      · cases replied

theorem nextArgument_eq_accept {argument : Parser β} {apply : Position → α → β → α}
    {state next : α × Position × β}
    (replied : nextArgument argument apply state tokens = .ok (.accept next rest)) :
    ∃ position given, argument tokens = .ok (.accept given rest) ∧
      next = (apply state.2.1 state.1 state.2.2, position, given) := by
  obtain ⟨position, between, isPosition, repliedNext⟩ := bind_eq_accept replied
  obtain ⟨given, after, accepted, finished⟩ := bind_eq_accept repliedNext
  cases tokens with
  | nil => cases isPosition
  | cons token others =>
      cases isPosition
      cases finished
      exact ⟨token.position, given, accepted, rfl⟩

end Inversion

/-! ## Sequences -/

namespace Accepts

theorem pure {value : α} (isSpelled : spelled value []) :
    Accepts (Pure.pure value : Parser α) spelled := by
  intro tokens ends value rest replied
  cases replied
  exact ⟨[], .refl tokens, isSpelled⟩

theorem raise (error : Error) : Accepts (Parser.raise error) spelled := by
  intro tokens ends value rest replied
  cases replied

theorem bind {first : Parser α} {next : α → Parser β} {spelledNext : β → List Content → Prop}
    (acceptsFirst : Accepts first spelled)
    (acceptsNext : ∀ value contents, spelled value contents →
      Accepts (next value) fun result more => spelledNext result (contents ++ more)) :
    Accepts (first >>= next) spelledNext := by
  intro tokens ends result rest replied
  rcases bind_eq_accept replied with ⟨value, between, accepted, repliedNext⟩
  rcases acceptsFirst tokens ends value between accepted with ⟨contents, leaves, isSpelled⟩
  rcases acceptsNext value contents isSpelled between (leaves.endsLine ends) result rest
    repliedNext with ⟨more, leavesMore, resultSpelled⟩
  exact ⟨contents ++ more, leaves.trans leavesMore, resultSpelled⟩

theorem orRaise {parser : Parser α} (accepts : Accepts parser spelled) (error : Error) :
    Accepts (parser.orRaise error) spelled := by
  intro tokens ends value rest replied
  apply accepts tokens ends value rest
  unfold Parser.orRaise at replied
  split at replied
  · cases replied
  · exact replied

theorem satisfy {test : Token → Bool} {content : Token → Option Content}
    (reads : ∀ token, test token = true → token.Reading (content token)) :
    Accepts (Parser.satisfy test) fun token contents => contents = (content token).toList := by
  intro tokens ends token rest replied
  rcases satisfy_eq_accept replied with ⟨rfl, passes⟩
  exact ⟨_, .of_reading (reads token passes) rest, rfl⟩

theorem skip {test : Token → Bool} {content : Option Content}
    (reads : ∀ token, test token = true → token.Reading content) :
    Accepts (Parser.skip test) fun _ contents => contents = content.toList := by
  apply (Accepts.satisfy reads).bind
  rintro token _ rfl
  exact Accepts.pure (List.append_nil _)

theorem demand {test : Token → Bool} {error : Token → Error}
    (reads : ∀ token, test token = true → token.Reading none) :
    Accepts (Parser.demand test error) fun _ contents => contents = [] := by
  intro tokens ends _ rest replied
  rcases demand_eq_accept replied with ⟨token, rfl, passes⟩
  exact ⟨_, .of_reading (reads token passes) rest, rfl⟩

theorem nextPosition : Accepts Parser.nextPosition fun _ contents => contents = [] := by
  intro tokens ends value rest replied
  cases tokens with
  | nil => cases replied
  | cons token others =>
      cases replied
      exact ⟨[], .refl _, rfl⟩

theorem newlines : Accepts Parser.newlines fun _ contents => contents = [] := by
  intro tokens ends value rest replied
  cases replied
  exact ⟨[], .dropNewlines tokens, rfl⟩

theorem attempt {parser : Parser α} (accepts : Accepts parser spelled) :
    Accepts parser.attempt spelled :=
  fun tokens ends value rest replied => accepts tokens ends value rest (attempt_eq_accept replied)

end Accepts

/-- A parser that accepts or raises an error. -/
def NeverRejects (parser : Parser α) : Prop :=
  ∀ tokens rest, parser tokens ≠ .ok (.reject rest)

theorem neverRejects_pure (value : α) : NeverRejects (Pure.pure value : Parser α) := by
  intro tokens rest replied
  cases replied

/-- A repetition accepts where its step rejects. -/
theorem Repeats.neverRejects {σ : Type} {step : σ → Parser σ} {ended stopped : σ → α}
    {replies : Nat → σ → Parser α} (repeats : Repeats step ended stopped replies) (bound : Nat)
    (state : σ) : NeverRejects (replies bound state) := by
  induction bound generalizing state with
  | zero =>
      intro tokens rest
      rw [repeats.spent]
      nofun
  | succ bound ih =>
      intro tokens rest
      cases tokens with
      | nil =>
          rw [repeats.atEnd]
          nofun
      | cons token others =>
          rw [repeats.turn]
          rcases step state (token :: others) with error | ⟨next, left⟩ | left
          · nofun
          · exact ih next left rest
          · nofun

theorem neverRejects_many (parser : Parser α) : NeverRejects (Parser.many parser) := by
  intro tokens rest
  rw [many_eq]
  exact (repeats_manyUpTo parser).neverRejects _ _ tokens rest

theorem NeverRejects.bind {first : Parser α} {next : α → Parser β}
    (neverFirst : NeverRejects first) (neverNext : ∀ value, NeverRejects (next value)) :
    NeverRejects (first >>= next) := by
  intro tokens rest replied
  change Parser.bind first next tokens = _ at replied
  unfold Parser.bind at replied
  split at replied
  case h_1 => cases replied
  case h_2 other rejected => exact neverFirst tokens other rejected
  case h_3 value between _ => exact neverNext value between rest replied

namespace Rejects

theorem satisfy (test : Token → Bool) : Rejects (Parser.satisfy test) := by
  intro tokens ends rest replied
  cases tokens with
  | nil => cases replied
  | cons token others =>
      rw [Parser.satisfy] at replied
      split at replied
      · cases replied
      · cases replied
        exact .refl _

theorem attempt (parser : Parser α) : Rejects parser.attempt := by
  intro tokens ends rest replied
  unfold Parser.attempt at replied
  split at replied
  · cases replied
    exact .refl _
  · rename_i notRejected
    exact absurd replied (notRejected rest)

theorem bind {first : Parser α} {next : α → Parser β} (rejectsFirst : Rejects first)
    (neverNext : ∀ value, NeverRejects (next value)) : Rejects (first >>= next) := by
  intro tokens ends rest replied
  change Parser.bind first next tokens = _ at replied
  unfold Parser.bind at replied
  split at replied
  case h_1 => cases replied
  case h_2 other rejected =>
      cases replied
      exact rejectsFirst tokens ends rest rejected
  case h_3 value between _ => exact absurd replied (neverNext value between rest)

theorem skip (test : Token → Bool) : Rejects (Parser.skip test) :=
  (satisfy test).bind fun _ => nofun

end Rejects

namespace Consumes

theorem satisfy {test : Token → Bool} {content : Token → Option Content}
    (reads : ∀ token, test token = true → token.Reading (content token)) :
    Consumes (Parser.satisfy test) fun token contents => contents = (content token).toList :=
  ⟨Accepts.satisfy reads, Rejects.satisfy test⟩

theorem attempt {parser : Parser α} (accepts : Accepts parser spelled) :
    Consumes parser.attempt spelled :=
  ⟨accepts.attempt, Rejects.attempt parser⟩

/-- A parser that builds a value of what another one accepts. -/
theorem map {parser : Parser α} {convert : α → β} {spelledNext : β → List Content → Prop}
    (consumes : Consumes parser spelled)
    (converts : ∀ value contents, spelled value contents → spelledNext (convert value) contents) :
    Consumes (parser >>= fun value => Pure.pure (convert value)) spelledNext := by
  refine ⟨consumes.accepts.bind ?_, consumes.rejects.bind fun _ => nofun⟩
  intro value contents isSpelled
  apply Accepts.pure
  rw [List.append_nil]
  exact converts value contents isSpelled

theorem firstOf {choices : List (Parser α)}
    (consumes : ∀ choice ∈ choices, Consumes choice spelled) :
    Consumes (Parser.firstOf choices) spelled := by
  -- Each choice starts after blank tokens only, and so does the one after it.
  have all : ∀ start tokens, EndsLine start → Leaves start [] tokens →
      (∀ value rest, Parser.firstOf.go start choices tokens = .ok (.accept value rest) →
        ∃ contents, Leaves start contents rest ∧ spelled value contents) ∧
      ∀ rest, Parser.firstOf.go start choices tokens = .ok (.reject rest) →
        Leaves start [] rest := by
    intro start tokens ends leaves
    induction choices generalizing tokens with
    | nil =>
        refine ⟨nofun, ?_⟩
        intro rest replied
        cases replied
        exact .refl start
    | cons choice choices ih =>
        have consumesBoth := List.forall_mem_cons.mp consumes
        have endsHere := leaves.endsLine ends
        unfold Parser.firstOf.go
        split
        · rename_i between rejected
          have rejects := consumesBoth.1.rejects tokens endsHere between rejected
          exact ih consumesBoth.2 between (leaves.trans rejects)
        · rename_i notRejected
          refine ⟨?_, fun rest replied => absurd replied (notRejected rest)⟩
          intro value rest accepted
          rcases consumesBoth.1.accepts tokens endsHere value rest accepted with
            ⟨contents, leavesMore, isSpelled⟩
          exact ⟨contents, leaves.trans leavesMore, isSpelled⟩
  exact ⟨fun tokens ends => (all tokens tokens ends (.refl tokens)).1,
    fun tokens ends => (all tokens tokens ends (.refl tokens)).2⟩

end Consumes

/-- Contents that a value determines. -/
abbrev Exactly (contentsOf : α → List Content) : α → List Content → Prop :=
  fun value contents => contents = contentsOf value

section Repetition

variable {contentsOf : α → List Content} {σ : Type} {contentsOfState : σ → List Content}
variable {step : σ → Parser σ} {ended stopped : σ → α} {replies : Nat → σ → Parser α}
variable {fits : Nat → List Token → Prop}

/-- The contents of a state are those of all tokens that have been taken: a step adds what it
takes, and stopping keeps them.  So does reaching the end or the bound, where that can happen. -/
structure Keeps (step : σ → Parser σ) (ended stopped : σ → α) (contentsOfState : σ → List Content)
    (contentsOf : α → List Content) (fits : Nat → List Token → Prop) : Prop where
  consumes : ∀ state, Consumes (step state) fun next contents =>
    contentsOfState state ++ contents = contentsOfState next
  stopped : ∀ state, contentsOf (stopped state) = contentsOfState state
  ended : ∀ {bound tokens} (state), fits bound tokens → bound = 0 ∨ tokens = [] →
    contentsOf (ended state) = contentsOfState state
  later : ∀ {bound tokens state next rest}, fits (bound + 1) tokens → EndsLine tokens →
    step state tokens = .ok (.accept next rest) → fits bound rest

theorem Keeps.leaves (keeps : Keeps step ended stopped contentsOfState contentsOf fits)
    (repeats : Repeats step ended stopped replies) {bound : Nat} (state : σ)
    {tokens rest : List Token} {value : α} (ends : EndsLine tokens) (isFit : fits bound tokens)
    (replied : replies bound state tokens = .ok (.accept value rest)) :
    ∃ contents, Leaves tokens contents rest ∧
      contentsOfState state ++ contents = contentsOf value := by
  induction bound generalizing state tokens with
  | zero =>
      rw [repeats.spent] at replied
      cases replied
      exact ⟨[], .refl _, by rw [List.append_nil, keeps.ended state isFit (.inl rfl)]⟩
  | succ bound ih =>
      cases tokens with
      | nil =>
          rw [repeats.atEnd] at replied
          cases replied
          exact ⟨[], .refl _, by rw [List.append_nil, keeps.ended state isFit (.inr rfl)]⟩
      | cons token others =>
          rw [repeats.turn] at replied
          cases stepped : step state (token :: others) with
          | error error =>
              rw [stepped] at replied
              cases replied
          | ok reply =>
              rw [stepped] at replied
              cases reply with
              | reject left =>
                  cases replied
                  have leaves := (keeps.consumes state).rejects _ ends _ stepped
                  exact ⟨[], leaves, by rw [List.append_nil, keeps.stopped]⟩
              | accept next left =>
                  obtain ⟨contents, leaves, added⟩ :=
                    (keeps.consumes state).accepts _ ends next left stepped
                  obtain ⟨more, leavesMore, isSpelled⟩ :=
                    ih next (leaves.endsLine ends) (keeps.later isFit ends stepped) replied
                  refine ⟨contents ++ more, leaves.trans leavesMore, ?_⟩
                  rw [← List.append_assoc, added, isSpelled]

/-- A repetition that loses nothing, wherever it ends. -/
theorem Keeps.of_consumes
    (consumes : ∀ state, Consumes (step state) fun next contents =>
      contentsOfState state ++ contents = contentsOfState next) :
    Keeps step (fun state => state) (fun state => state) contentsOfState contentsOfState
      fun _ _ => True where
  consumes := consumes
  stopped _ := rfl
  ended _ _ _ := rfl
  later _ _ _ := trivial

theorem Consumes.offered {parser : Parser α} (accepts : Accepts parser spelled) :
    Consumes (Grammar.offered parser) spelled := by
  constructor
  · intro tokens ends value rest replied
    cases tokens with
    | nil => cases replied
    | cons token others => exact accepts.attempt _ ends value rest replied
  · intro tokens ends rest replied
    cases tokens with
    | nil =>
        cases replied
        exact .refl []
    | cons token others => exact Rejects.attempt parser _ ends rest replied

theorem Consumes.nextValue {parser : Parser α} (consumes : Consumes parser (Exactly contentsOf))
    (read : List α) :
    Consumes (Grammar.nextValue parser read) fun values contents =>
      read.flatMap contentsOf ++ contents = values.flatMap contentsOf := by
  apply consumes.map
  rintro value _ rfl
  simp

theorem Consumes.many {parser : Parser α} (consumes : Consumes parser (Exactly contentsOf)) :
    Accepts (Parser.many parser) (Exactly (List.flatMap contentsOf)) := by
  intro tokens ends values rest replied
  rw [many_eq] at replied
  obtain ⟨contents, leaves, isSpelled⟩ :=
    (Keeps.of_consumes consumes.nextValue).leaves (repeats_manyUpTo parser) [] ends trivial replied
  exact ⟨contents, leaves, isSpelled⟩

namespace Accepts

theorem nextItem {item : Parser α} (accepts : Accepts item (Exactly contentsOf)) (read : List α) :
    Consumes (Grammar.nextItem item read) fun values contents =>
      read.flatMap contentsOf ++ contents = values.flatMap contentsOf := by
  have consumesValue := (Consumes.offered accepts).nextValue read
  have skipped {token : Token} (isComma : token.kind = .comma) (others : List Token) :
      Leaves (token :: others) [] (dropNewlines others) :=
    (Leaves.of_reading (.separator (by simp [isComma, Token.separatorKinds])) others).trans
      (.dropNewlines others)
  constructor
  · intro tokens ends values rest replied
    cases tokens with
    | nil => cases replied
    | cons token others =>
        by_cases isComma : token.kind = .comma
        · rw [nextItem_comma isComma] at replied
          have leaves := skipped isComma others
          obtain ⟨contents, leavesMore, isSpelled⟩ :=
            consumesValue.accepts _ (leaves.endsLine ends) values rest replied
          exact ⟨contents, leaves.trans leavesMore, isSpelled⟩
        · rw [nextItem_other isComma] at replied
          cases replied
  · intro tokens ends rest replied
    cases tokens with
    | nil => cases replied
    | cons token others =>
        by_cases isComma : token.kind = .comma
        · rw [nextItem_comma isComma] at replied
          have leaves := skipped isComma others
          exact leaves.trans (consumesValue.rejects _ (leaves.endsLine ends) rest replied)
        · rw [nextItem_other isComma] at replied
          cases replied
          exact .refl _

theorem commaSeparated {item : Parser α} (accepts : Accepts item (Exactly contentsOf)) :
    Accepts (Parser.commaSeparated item) (Exactly (List.flatMap contentsOf)) := by
  intro tokens ends values rest replied
  have skipped : Leaves tokens [] (dropNewlines tokens) := Leaves.dropNewlines tokens
  rw [commaSeparated_eq] at replied
  split at replied
  · cases replied
  · cases replied
    exact ⟨[], .refl _, rfl⟩
  · rename_i value between accepted
    obtain ⟨_, leaves, rfl⟩ := accepts _ (skipped.endsLine ends) value between accepted
    have leavesBoth := skipped.trans leaves
    obtain ⟨more, leavesMore, isSpelled⟩ := (Keeps.of_consumes accepts.nextItem).leaves
      (repeats_moreItems item) [value] (leavesBoth.endsLine ends) trivial replied
    refine ⟨_, leavesBoth.trans leavesMore, ?_⟩
    rw [Exactly, ← isSpelled]
    simp

theorem nextOperand {operand : Parser α} {isOperator : Token → Bool} {join : Token → α → α → α}
    (accepts : Accepts operand (Exactly contentsOf))
    (joins : ∀ operator left right, isOperator operator = true →
      operator.Reading (some (.word operator.text)) ∧
        contentsOf (join operator left right) =
          contentsOf left ++ .word operator.text :: contentsOf right) (left : α) :
    Consumes (Grammar.nextOperand isOperator operand join left) fun next contents =>
      contentsOf left ++ contents = contentsOf next := by
  apply Consumes.attempt
  intro tokens ends next rest replied
  obtain ⟨operator, between, satisfied, repliedRight⟩ := bind_eq_accept replied
  obtain ⟨rfl, isOne⟩ := satisfy_eq_accept satisfied
  obtain ⟨right, after, acceptedRight, finished⟩ := bind_eq_accept repliedRight
  cases finished
  obtain ⟨reading, joined⟩ := joins operator left right isOne
  have taken := Leaves.of_reading reading between
  obtain ⟨_, leaves, rfl⟩ :=
    (Consumes.offered accepts).accepts _ (taken.endsLine ends) right rest acceptedRight
  exact ⟨_, taken.trans leaves, joined.symm⟩

theorem chainLeft {operand : Parser α} {isOperator : Token → Bool}
    {join : Token → α → α → α} (accepts : Accepts operand (Exactly contentsOf))
    (joins : ∀ operator left right, isOperator operator = true →
      operator.Reading (some (.word operator.text)) ∧
        contentsOf (join operator left right) =
          contentsOf left ++ .word operator.text :: contentsOf right) :
    Consumes (Parser.chainLeft isOperator operand join) (Exactly contentsOf) := by
  apply Consumes.attempt
  apply accepts.bind
  rintro first _ rfl tokens ends value rest replied
  obtain ⟨contents, leaves, isSpelled⟩ := (Keeps.of_consumes (accepts.nextOperand joins)).leaves
    (repeats_moreOperands isOperator operand join) first ends trivial replied
  exact ⟨contents, leaves, isSpelled⟩

end Accepts

end Repetition

/-! ## Arguments

The last argument of a head is lost if the tokens end after it.  They do not, since the
argument ends in a closing token and the tokens in a newline. -/

/-- A parser that takes a token and does not take the last one. -/
def Stops (parser : Parser α) : Prop :=
  ∀ tokens, EndsLine tokens → ∀ value rest, parser tokens = .ok (.accept value rest) →
    rest ≠ [] ∧ rest.length < tokens.length

section Arguments

variable {contentsOf : α → List Content} {contentsOfArgument : β → List Content}

theorem Accepts.wrapped {parser : Parser α} (accepts : Accepts parser spelled)
    {opening closing : Kind} (opens : opening ∈ Token.separatorKinds)
    (closes : closing ∈ Token.separatorKinds) :
    Consumes (Parser.wrapped opening closing parser) spelled := by
  apply Consumes.attempt
  apply (Accepts.skip fun _ => .of_kind opens).bind
  rintro _ _ rfl
  apply accepts.bind
  intro value contents isSpelled
  apply (Accepts.demand fun _ => .of_kind closes).bind
  rintro _ _ rfl
  apply Accepts.pure
  simpa using isSpelled

theorem stops_wrapped {parser : Parser α} (accepts : Accepts parser spelled)
    {opening closing : Kind} (notNewline : closing ≠ .newline) :
    Stops (Parser.wrapped opening closing parser) := by
  intro tokens ends value rest replied
  rcases bind_eq_accept (attempt_eq_accept replied) with ⟨_, inside, opened, repliedInside⟩
  rcases bind_eq_accept opened with ⟨first, _, isFirst, same⟩
  cases same
  rcases satisfy_eq_accept isFirst with ⟨rfl, _⟩
  rcases bind_eq_accept repliedInside with ⟨inner, between, accepted, repliedClosing⟩
  rcases bind_eq_accept repliedClosing with ⟨_, _, demanded, same⟩
  cases same
  rcases demand_eq_accept demanded with ⟨last, rfl, isClosing⟩
  have endsInside : EndsLine inside := fun last isLast =>
    ends last (by rw [List.getLast?_cons, isLast]; rfl)
  rcases accepts inside endsInside _ (last :: rest) accepted with ⟨_, leaves, _⟩
  constructor
  · rintro rfl
    have isNewline : last.kind = .newline := leaves.endsLine endsInside last rfl
    exact notNewline ((of_decide_eq_true isClosing).symm.trans isNewline)
  · have shorter := leaves.length_le
    rw [List.length_cons] at shorter ⊢
    omega

/-- An argument is applied once the next one has been looked for, so nothing is lost before the
tokens end. -/
theorem keeps_nextArgument {argument : Parser β} {apply : Position → α → β → α}
    (consumes : Consumes argument (Exactly contentsOfArgument)) (stops : Stops argument)
    (applies : ∀ position head given,
      contentsOf (apply position head given) = contentsOf head ++ contentsOfArgument given) :
    Keeps (nextArgument argument apply) Prod.fst (fun state => apply state.2.1 state.1 state.2.2)
      (fun state => contentsOf state.1 ++ contentsOfArgument state.2.2) contentsOf
      fun bound tokens => tokens ≠ [] ∧ tokens.length ≤ bound where
  consumes state := by
    constructor
    · intro tokens ends next rest replied
      obtain ⟨position, given, accepted, rfl⟩ := nextArgument_eq_accept replied
      obtain ⟨_, leaves, rfl⟩ := consumes.accepts tokens ends given rest accepted
      refine ⟨_, leaves, ?_⟩
      simp only [applies]
    · intro tokens ends rest replied
      cases tokens with
      | nil => cases replied
      | cons token others =>
          exact consumes.rejects.bind (fun _ => neverRejects_pure _) _ ends rest replied
  stopped state := applies _ _ _
  ended := by
    rintro bound tokens state ⟨notEnd, bounded⟩ (rfl | atEnd)
    · exact absurd (List.eq_nil_of_length_eq_zero (Nat.le_zero.mp bounded)) notEnd
    · exact absurd atEnd notEnd
  later := by
    rintro bound tokens state next rest ⟨_, bounded⟩ ends stepped
    obtain ⟨position, given, accepted, rfl⟩ := nextArgument_eq_accept stepped
    obtain ⟨notLast, shorter⟩ := stops tokens ends given rest accepted
    exact ⟨notLast, by omega⟩

theorem consumes_applied {head : Parser α} {argument : Parser β} {apply : Position → α → β → α}
    (acceptsHead : Accepts head (Exactly contentsOf))
    (consumes : Consumes argument (Exactly contentsOfArgument)) (stops : Stops argument)
    (applies : ∀ position head given,
      contentsOf (apply position head given) = contentsOf head ++ contentsOfArgument given) :
    Consumes (Parser.applied head argument apply) (Exactly contentsOf) := by
  apply Consumes.attempt
  apply acceptsHead.bind
  rintro headValue _ rfl
  apply Accepts.nextPosition.bind
  rintro position _ rfl
  intro tokens ends value rest replied
  rcases bind_eq_accept replied with ⟨given, between, accepted, repliedMore⟩
  rcases consumes.accepts tokens ends given between accepted with ⟨_, leaves, rfl⟩
  obtain ⟨more, leavesMore, isSpelled⟩ := (keeps_nextArgument consumes stops applies).leaves
    (repeats_moreArguments argument apply) (headValue, position, given) (leaves.endsLine ends)
    ⟨(stops tokens ends given between accepted).1, Nat.le_refl _⟩ repliedMore
  refine ⟨_, leaves.trans leavesMore, ?_⟩
  simpa using isSpelled

end Arguments

/-- If a parser takes all tokens, they spell what it accepts. -/
theorem Accepts.finish {parser : Parser α} (accepts : Accepts parser spelled)
    {tokens : List Token} (ends : EndsLine tokens) {value : α}
    (finished : parser.finish tokens = .ok value) :
    ∃ contents, Spells tokens contents ∧ spelled value contents := by
  unfold Parser.finish at finished
  split at finished
  · cases finished
  · rename_i accepted
    cases finished
    rcases accepts tokens ends _ _ accepted with ⟨contents, ⟨taken, rfl, spells⟩, isSpelled⟩
    rw [List.append_nil]
    exact ⟨contents, spells, isSpelled⟩
  · cases finished
  · cases finished
  · cases finished

end Grammar

end StackScript
