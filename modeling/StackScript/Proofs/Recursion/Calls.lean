import StackScript.Proofs.Recursion.Rules

/-!
# The calls of a rule

The rules of the grammar are run at a depth of nesting that is as large as the number of tokens
(`rules`).  This depth is never exhausted, and what a rule replies is settled by the calls below
it alone: whatever the parsers that it calls would do in other calls, it replies the same
(`unfold_eq_of_below`).  So it makes no other calls, since an error that one of them raised would
be the reply.
-/

namespace StackScript.Grammar

open StackScript.Grammar.Parser
open StackScript.Surface (Expr Stmt Level Program)

/-- What is left of some tokens belongs together with itself only, and only expected errors are
raised. -/
def Matching.within (whole : List Token) (expected : Error → Prop) : Matching where
  paired _ tokens tokens' := tokens = tokens' ∧ tokens <:+ whole
  alike token token' := token = token'
  raised error error' := error = error' ∧ expected error

theorem Matching.lawful_within (whole : List Token) {expected : Error → Prop}
    (atEnd : expected .endOfTokens)
    (atFault : ∀ (fault : Fault) (token : Token), expected (fault.error token)) :
    (Matching.within whole expected).Lawful := by
  have tail : ∀ {token token' : Token} {rest rest' : List Token},
      (token :: rest = token' :: rest' ∧ token :: rest <:+ whole) →
        rest = rest' ∧ rest <:+ whole :=
    fun together =>
      ⟨(List.cons.inj together.1).2, (List.suffix_cons _ _).trans together.2⟩
  exact
    { nil_iff together := by rw [together.1]
      head together := (List.cons.inj together.1).1
      kind_eq same := congrArg Token.kind same
      text_eq same := congrArg Token.text same
      inline together _ := tail together
      opening together _ := tail together
      closing together _ := tail together
      newlines together :=
        ⟨congrArg dropNewlines together.1, (dropNewlines_suffix _).trans together.2⟩
      raised_end := ⟨rfl, atEnd⟩
      raised_fault fault same := ⟨congrArg fault.error same, atFault fault _⟩ }

/-- Trees that are built alike of equal parts are equal. -/
theorem buildsAlike_eq : BuildsAlike Eq Eq Eq where
  integer _ := rfl
  text _ := rfl
  symbol same _ := by rw [same]
  negation same operands := by rw [same, operands]
  binary same _ lefts rights := by rw [same, lefts, rights]
  list items := by
    rw [List.forall₂_eq_eq_eq] at items
    rw [items]
  record fields := by
    have same : FieldsAlike Eq = Eq := by
      funext field field'
      exact propext Prod.ext_iff.symm
    rw [same, List.forall₂_eq_eq_eq] at fields
    rw [fields]
  item same subjects indices := by rw [same, subjects, indices]
  call same functions arguments := by
    rw [List.forall₂_eq_eq_eq] at arguments
    rw [same, functions, arguments]
  lambda bodies := by
    rw [List.forall₂_eq_eq_eq] at bodies
    rw [bodies]
  conditional conditions onTrue onFalse := by
    rw [List.forall₂_eq_eq_eq] at onTrue onFalse
    rw [conditions, onTrue, onFalse]
  assign same _ _ values := by rw [same, values]
  evaluate expressions := by rw [expressions]
  define same _ bodies := by
    rw [List.forall₂_eq_eq_eq] at bodies
    rw [same, bodies]

section Within

variable {α : Type} {whole tokens : List Token} {expected : Error → Prop}
variable {bound least : Nat} {level : Int} {parser parser' : Parser α}

/-- What is replied to some tokens: an expected error, or an end of the tokens is left. -/
inductive Settled (expected : Error → Prop) (least : Nat) (tokens : List Token) :
    Except Error (Reply α) → Prop where
  | error {error : Error} (isExpected : expected error) :
      Settled expected least tokens (.error error)
  | accept {value : α} {rest : List Token} (isSuffix : rest <:+ tokens)
      (taken : rest.length + least ≤ tokens.length) :
      Settled expected least tokens (.ok (.accept value rest))
  | reject {rest : List Token} (isSuffix : rest <:+ tokens) :
      Settled expected least tokens (.ok (.reject rest))

theorem Agrees.settled
    (agrees : Agrees (.within tokens expected) bound least level parser parser' Eq)
    (short : tokens.length < bound) :
    parser tokens = parser' tokens ∧ Settled expected least tokens (parser tokens) := by
  have replies := agrees tokens tokens ⟨rfl, List.suffix_refl _⟩ short short
  generalize parser tokens = reply, parser' tokens = reply' at replies ⊢
  cases replies with
  | error both => exact ⟨congrArg _ both.1, .error both.2⟩
  | accept both =>
      obtain ⟨rfl, remains⟩ := both
      obtain ⟨rfl, isSuffix⟩ := remains.paired
      exact ⟨rfl, .accept isSuffix remains.left⟩
  | reject remains =>
      obtain ⟨rfl, isSuffix⟩ := remains.paired
      exact ⟨rfl, .reject isSuffix⟩

/-- Where a parser accepts, it has taken a number of tokens at least. -/
def TakesAtLeast (least : Nat) (parser : Parser α) : Prop :=
  ∀ tokens value rest, parser tokens = .ok (.accept value rest) →
    rest.length + least ≤ tokens.length

theorem TakesAtLeast.weaken {fewer : Nat} (takes : TakesAtLeast least parser)
    (fewerLe : fewer ≤ least) : TakesAtLeast fewer parser := by
  intro tokens value rest accepted
  exact Nat.le_trans (Nat.add_le_add_left fewerLe _) (takes tokens value rest accepted)

theorem takesAtLeast_of_agrees
    (agrees : ∀ whole : List Token,
      Agrees (.within whole expected) (whole.length + 1) least level parser parser Eq) :
    TakesAtLeast least parser := by
  intro tokens value rest accepted
  have settled := ((agrees tokens).settled (Nat.lt_succ_self _)).2
  rw [accepted] at settled
  cases settled with
  | accept _ taken => exact taken

/-- Only the replies to what is left of the tokens matter. -/
theorem Agrees.congr_within {other : Parser α}
    (agrees : Agrees (.within whole expected) bound least level parser parser' Eq)
    (same : ∀ rest, rest <:+ whole → rest.length < bound → other rest = parser rest) :
    Agrees (.within whole expected) bound least level other parser' Eq := by
  intro rest rest' together short short'
  rw [same rest together.2 short]
  exact agrees rest rest' together short short'

end Within

/-- Where a rule accepts it has taken its tokens, at any depth. -/
theorem takesAtLeast_rule (rule : Rule) (depth : Nat) :
    TakesAtLeast rule.least (rule.parser (nested depth)) := by
  apply takesAtLeast_of_agrees
  intro whole
  have lawful : (Matching.within whole fun _ => True).Lawful :=
    Matching.lawful_within whole trivial fun _ _ => trivial
  have agrees : Agrees _ _ _ 0 _ _ Eq :=
    agrees_rule lawful buildsAlike_eq
      (agreesInner_nested lawful buildsAlike_eq ⟨rfl, trivial⟩ depth whole.length) rule
  exact agrees

/-- The parsers of the grammar, each at a depth that is as large as the number of tokens. -/
def rules : Family := fun rule tokens =>
  rule.parser (nested tokens.length) tokens

theorem parse_eq_finish_rules (tokens : List Token) :
    parse tokens = (rules .program).finish tokens := by
  unfold parse Parser.finish rules
  rfl

/-- An error that tells something about the tokens. -/
def Definite (error : Error) : Prop :=
  error ≠ .tooDeep

theorem lawful_definite (whole : List Token) : (Matching.within whole Definite).Lawful := by
  apply Matching.lawful_within whole
  · exact fun same => by cases same
  · intro fault token same
    cases fault <;> cases same

/-- A rule replies the same at every depth that is not smaller than the number of tokens. -/
theorem rules_eq_of_le {rule : Rule} {tokens : List Token} {depth : Nat}
    (enough : tokens.length ≤ depth) :
    rules rule tokens = rule.parser (nested depth) tokens := by
  have lawful := lawful_definite tokens
  have agrees : Agrees (.within tokens Definite) (tokens.length + 1) rule.least 0
      (rule.parser (nested tokens.length)) (rule.parser (nested depth)) Eq :=
    agrees_rule lawful buildsAlike_eq
      (agreesInner_of_le lawful buildsAlike_eq (Nat.le_refl _) enough) rule
  exact (agrees.settled (Nat.lt_succ_self _)).1

theorem agrees_rules (whole : List Token) (rule : Rule) (level : Int) :
    Agrees (.within whole Definite) (whole.length + 1) rule.least level (rules rule) (rules rule)
      Eq := by
  have lawful := lawful_definite whole
  have agrees : Agrees (.within whole Definite) (whole.length + 1) rule.least level
      (rule.parser (nested whole.length)) (rule.parser (nested whole.length)) Eq :=
    agrees_rule lawful buildsAlike_eq
      (agreesInner_of_le lawful buildsAlike_eq (Nat.le_refl _) (Nat.le_refl _)) rule
  intro tokens tokens' together short short'
  rw [rules_eq_of_le (Nat.le_of_lt_succ short), rules_eq_of_le (Nat.le_of_lt_succ short')]
  exact agrees tokens tokens' together short short'

theorem settled_rules (rule : Rule) (tokens : List Token) :
    Settled Definite rule.least tokens (rules rule tokens) :=
  ((agrees_rules tokens rule 0).settled (Nat.lt_succ_self _)).2

theorem takesAtLeast_rules (rule : Rule) : TakesAtLeast rule.least (rules rule) :=
  fun tokens => takesAtLeast_rule rule tokens.length tokens

/-- What is nested inside is read by the rules for expressions and statements. -/
theorem nested_eq_rules {tokens : List Token} {depth : Nat} (enough : tokens.length < depth) :
    (nested depth).expression tokens = rules .expression tokens ∧
      (nested depth).statement tokens = rules .statement tokens := by
  cases depth with
  | zero => exact absurd enough (Nat.not_lt_zero _)
  | succ depth =>
      have enough : tokens.length ≤ depth := Nat.le_of_lt_succ enough
      exact ⟨(@rules_eq_of_le .expression _ _ enough).symm,
        (@rules_eq_of_le .statement _ _ enough).symm⟩

/-- What is nested inside agrees with the grammar if it is read by the rules. -/
theorem agreesInner_of_rules {inner : Inner} {tokens : List Token}
    (onExpression : ∀ rest, rest <:+ tokens → rest.length < tokens.length →
      inner.expression rest = rules .expression rest)
    (onStatement : ∀ rest, rest <:+ tokens → rest.length < tokens.length →
      inner.statement rest = rules .statement rest) :
    AgreesInner (.within tokens Definite) Eq Eq tokens.length inner (nested tokens.length) := by
  have agrees : AgreesInner (.within tokens Definite) Eq Eq tokens.length
      (nested tokens.length) (nested tokens.length) :=
    agreesInner_of_le (lawful_definite tokens) buildsAlike_eq (Nat.le_refl _) (Nat.le_refl _)
  constructor <;> intro level
  · apply (agrees.expression level).congr_within
    intro rest isSuffix shorter
    rw [(nested_eq_rules shorter).1]
    exact onExpression rest isSuffix shorter
  · apply (agrees.statement level).congr_within
    intro rest isSuffix shorter
    rw [(nested_eq_rules shorter).2]
    exact onStatement rest isSuffix shorter

/-- The rules are what the grammar reads if they are taken for what is nested inside. -/
theorem parser_rules_inner (rule : Rule) : rule.parser rules.inner = rules rule := by
  funext tokens
  have innerAgrees : AgreesInner (.within tokens Definite) Eq Eq tokens.length rules.inner
      (nested tokens.length) :=
    agreesInner_of_rules (fun _ _ _ => rfl) fun _ _ _ => rfl
  have agrees : Agrees _ _ _ 0 _ _ Eq :=
    agrees_rule (lawful_definite tokens) buildsAlike_eq innerAgrees rule
  exact (agrees.settled (Nat.lt_succ_self _)).1

/-! ## Calls below -/

/-- A rule replies the same whatever happens in the calls that are not below it. -/
theorem unfold_eq_of_below {calls : Family} {rule : Rule} {tokens : List Token}
    (same : ∀ other rest, Below (other, rest) (rule, tokens) →
      calls other rest = rules other rest) :
    calls.unfold rule tokens = rules rule tokens := by
  have lawful := lawful_definite tokens
  have ruleAgrees (other : Rule) (level : Int) :
      Agrees (.within tokens Definite) (tokens.length + 1) other.least level
        (other.parser (nested tokens.length)) (other.parser (nested tokens.length)) Eq :=
    agrees_rule lawful buildsAlike_eq
      (agreesInner_of_le lawful buildsAlike_eq (Nat.le_refl _) (Nat.le_refl _)) other
  have callsBelow {other : Rule} {rest : List Token} (below : Below (other, rest) (rule, tokens)) :
      calls other rest = other.parser (nested tokens.length) rest := by
    have enough : rest.length ≤ tokens.length := by
      rcases below with ⟨_, shorter⟩ | ⟨atSame, _⟩
      · exact Nat.le_of_lt shorter
      · exact Nat.le_of_eq (congrArg List.length atSame)
    rw [same other rest below, rules_eq_of_le enough]
  have agrees : Agrees (.within tokens Definite) (tokens.length + 1) rule.least 0
      (calls.unfold rule) (rule.parser (nested tokens.length)) Eq := by
    apply agrees_unfold lawful buildsAlike_eq
    case agrees =>
      exact agreesInner_of_rules
        (fun rest isSuffix shorter => same .expression rest (.inl ⟨isSuffix, shorter⟩))
        fun rest isSuffix shorter => same .statement rest (.inl ⟨isSuffix, shorter⟩)
    case later =>
      intro other level
      apply ((ruleAgrees other level).mono (Nat.le_succ _)).congr_within
      intro rest isSuffix shorter
      exact callsBelow (.inl ⟨isSuffix, shorter⟩)
    case lower =>
      intro other isLower
      apply (ruleAgrees other 0).congr_within
      intro rest isSuffix notLonger
      apply callsBelow
      rcases Nat.lt_or_eq_of_le (Nat.le_of_lt_succ notLonger) with shorter | sameLength
      · exact .inl ⟨isSuffix, shorter⟩
      · exact .inr ⟨isSuffix.eq_of_length sameLength, isLower⟩
  exact (agrees.settled (Nat.lt_succ_self _)).1

end StackScript.Grammar
