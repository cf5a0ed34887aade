import StackScript.Proofs.Faults.Settling
import StackScript.Proofs.Grammar.Reads

/-!
# Where the tokens go wrong

An error that the grammar raises is about a place in the tokens.  What makes it one is said in
terms of the tokens around it and of what can be read there (`Fault.ShownAt`).  For an error about
a construct it is said which part of the construct has been read and what does not follow it
(`Malformed`).

Every rule raises only errors of which this is true, if what is nested inside does so
(`settles_expression`, `settles_statement`).  A script is therefore refused at such a place, unless
its tokens end too early (`exists_fault`).
-/

namespace StackScript

open StackScript.Surface (Expr Stmt Program)

namespace Grammar

open StackScript.Grammar.Parser

/-- A part is read, and the token after it is not one that may follow. -/
def LacksAfter {α : Type} (part : Parser α) (mayFollow : Token → Bool) (tokens : List Token) :
    Prop :=
  ∃ value other rest, part tokens = .ok (.accept value (other :: rest)) ∧ mayFollow other = false

def Lacks {α : Type} (part : Parser α) (tokens : List Token) : Prop :=
  ∃ rest, part tokens = .ok (.reject rest)

/-- A token and the tokens after it are a construct that goes wrong before its end. -/
inductive Malformed (inner : Inner) : Token → List Token → Prop where
  | group {token : Token} {after : List Token} (opens : token.kind = .openParen)
      (lacks : LacksAfter inner.expression (fun other => other.kind = .closeParen) after) :
      Malformed inner token after
  | arguments {token : Token} {after : List Token} (opens : token.kind = .openParen)
      (lacks : LacksAfter (expressions inner) (fun other => other.kind = .closeParen) after) :
      Malformed inner token after
  | fields {token : Token} {after : List Token} (opens : token.kind = .openParen)
      (lacks : LacksAfter (commaSeparated (field inner)) (fun other => other.kind = .closeParen)
        after) :
      Malformed inner token after
  | index {token : Token} {after : List Token} (opens : token.kind = .openBracket)
      (lacks : LacksAfter inner.expression (fun other => other.kind = .closeBracket) after) :
      Malformed inner token after
  | items {token : Token} {after : List Token} (opens : token.kind = .openBracket)
      (lacks : LacksAfter (expressions inner) (fun other => other.kind = .closeBracket) after) :
      Malformed inner token after
  | parameters {token opening : Token} {after : List Token}
      (isLambda : token.isKeyword "lambda" = true) (opens : opening.kind = .openParen)
      (lacks : LacksAfter (commaSeparated name) (fun other => other.kind = .closeParen) after) :
      Malformed inner token (opening :: after)
  | condition {token : Token} {after : List Token} (isIf : token.text = "if")
      (lacks : Lacks (disjunction inner) after) : Malformed inner token after
  | consequence {token : Token} {after : List Token} (isIf : token.text = "if")
      (lacks : LacksAfter (disjunction inner) (fun other => other.text = "do") after) :
      Malformed inner token after
  | ending {token next : Token} {after afterDo afterBody : List Token} {condition : Expr}
      {onTrue : List Stmt} (isIf : token.text = "if")
      (isCondition : disjunction inner after = .ok (.accept condition (next :: afterDo)))
      (isDo : next.text = "do") (isBody : body inner afterDo = .ok (.accept onTrue afterBody))
      (lacks : LacksAfter (otherwise inner) (fun other => other.text = "end") afterBody) :
      Malformed inner token after
  | value {token : Token} {after : List Token} (assigns : token.kind = .assignment)
      (lacks : Lacks inner.expression after) : Malformed inner token after
  | functionName {token : Token} {after : List Token} (isDef : token.isKeyword "def" = true)
      (lacks : Lacks name after) : Malformed inner token after
  | functionOpening {token : Token} {after : List Token} (isDef : token.isKeyword "def" = true)
      (lacks : LacksAfter name (fun other => other.kind = .openParen) after) :
      Malformed inner token after
  | functionParameters {token next opening : Token} {after : List Token}
      (isDef : token.isKeyword "def" = true) (isName : next.kind = .symbol)
      (opens : opening.kind = .openParen)
      (lacks : LacksAfter (commaSeparated name) (fun other => other.kind = .closeParen) after) :
      Malformed inner token (next :: opening :: after)

end Grammar

open StackScript.Grammar
open StackScript.Grammar.Parser

/-- A token with which something starts that has to go on in a certain way. -/
def Token.StartsConstruct (token : Token) : Prop :=
  token.kind ∈ [.openParen, .openBracket, .assignment] ∨ token.text ∈ ["def", "if", "lambda"]

theorem Grammar.Malformed.startsConstruct {inner : Inner} {token : Token} {after : List Token}
    (malformed : Malformed inner token after) : token.StartsConstruct := by
  have ofKeyword {word : String} (starts : word ∈ ["def", "if", "lambda"])
      (isWord : token.isKeyword word = true) : token.StartsConstruct := by
    rw [← of_decide_eq_true (Bool.and_eq_true_iff.mp isWord).2] at starts
    exact .inr starts
  cases malformed with
  | group opens | arguments opens | fields opens => exact .inl (by simp [opens])
  | index opens | items opens => exact .inl (by simp [opens])
  | value assigns => exact .inl (by simp [assigns])
  | parameters isLambda => exact ofKeyword (by decide) isLambda
  | condition isIf | consequence isIf | ending isIf => exact .inr (by simp [isIf])
  | functionName isDef | functionOpening isDef | functionParameters isDef =>
      exact ofKeyword (by decide) isDef

/-- Whether a token shows a fault at its place, with some tokens before it and some after it. -/
def Fault.ShownAt (inner : Inner) : Fault → List Token → Token → List Token → Prop
  | .leftover, before, token, after =>
      ∃ read, program inner (before ++ token :: after) = .ok (.accept read (token :: after))
  | .expectedOpening, before, token, _ =>
      token.kind ≠ .openParen ∧ ∃ previous ∈ before.getLast?, previous.isKeyword "lambda" = true
  | .builtinTarget, _, token, after =>
      token.kind = .symbol ∧ token.text ∈ builtinNames ∧
        ∃ next ∈ after.head?, next.kind = .assignment
  | .missingFieldValue, before, token, after =>
      token.kind = .colon ∧ (∃ previous ∈ before.getLast?, previous.kind = .symbol) ∧
        Lacks inner.expression after
  | .malformedConstruct, _, token, after => token.StartsConstruct ∧ Malformed inner token after
  | .invalidNumeral, _, token, _ =>
      token.kind = .integer ∧ Text.readNumeral token.text = .error .malformed
  | .numeralTooLong digits, _, token, _ =>
      token.kind = .integer ∧ Text.readNumeral token.text = .error (.tooLong digits)

/-- Only for a token that is left over it matters how the tokens start. -/
theorem Fault.ShownAt.append {inner : Inner} {fault : Fault} {before after : List Token}
    {token : Token} (shown : fault.ShownAt inner before token after)
    (notLeftover : fault ≠ .leftover) (earlier : List Token) :
    fault.ShownAt inner (earlier ++ before) token after := by
  have staysLast {previous : Token} (isLast : previous ∈ before.getLast?) :
      previous ∈ (earlier ++ before).getLast? :=
    List.mem_getLast?_append_of_mem_getLast? isLast
  cases fault with
  | leftover => exact absurd rfl notLeftover
  | expectedOpening =>
      obtain ⟨notOpening, previous, isLast, isLambda⟩ := shown
      exact ⟨notOpening, previous, staysLast isLast, isLambda⟩
  | missingFieldValue =>
      obtain ⟨isColon, ⟨previous, isLast, isName⟩, lacks⟩ := shown
      exact ⟨isColon, ⟨previous, staysLast isLast, isName⟩, lacks⟩
  | builtinTarget | malformedConstruct | invalidNumeral | numeralTooLong => exact shown

namespace Grammar

/-- The errors that a rule raises: the tokens have ended, or one of them shows a fault. -/
def Shown (inner : Inner) (whole : List Token) (error : Error) : Prop :=
  error = .endOfTokens ∨
    ∃ before token after, whole = before ++ token :: after ∧
      ∃ fault : Fault, fault ≠ .leftover ∧ error = fault.error token ∧
        fault.ShownAt inner before token after

section Shown

variable {inner : Inner} {whole rest after : List Token} {token : Token} {error : Error}

theorem shown_endOfTokens : Shown inner whole .endOfTokens :=
  .inl rfl

theorem Shown.mono (shown : Shown inner rest error) (isSuffix : rest <:+ whole) :
    Shown inner whole error := by
  obtain ⟨earlier, rfl⟩ := isSuffix
  rcases shown with rfl | ⟨before, token, after, rfl, fault, notLeftover, rfl, shownAt⟩
  · exact shown_endOfTokens
  · exact .inr ⟨earlier ++ before, token, after, (List.append_assoc _ _ _).symm, fault, notLeftover,
      rfl, shownAt.append notLeftover earlier⟩

theorem shown_of_suffix (fault : Fault) (notLeftover : fault ≠ .leftover) (before : List Token)
    (isSuffix : before ++ token :: after <:+ whole)
    (shownAt : fault.ShownAt inner before token after) : Shown inner whole (fault.error token) :=
  Shown.mono (.inr ⟨before, token, after, rfl, fault, notLeftover, rfl, shownAt⟩) isSuffix

theorem Malformed.shown (malformed : Malformed inner token after)
    (isSuffix : token :: after <:+ whole) : Shown inner whole .malformedConstruct :=
  shown_of_suffix .malformedConstruct nofun [] isSuffix ⟨malformed.startsConstruct, malformed⟩

end Shown

/-- What is nested inside raises only errors that are shown, at any token but the first. -/
structure SettlesInner (inner : Inner) (whole : List Token) : Prop where
  expression : SettlesOn (Shown inner whole) whole.tail 1 inner.expression
  statement : SettlesOn (Shown inner whole) whole.tail 1 inner.statement

section Rules

variable {inner : Inner} {whole tokens rest : List Token}

theorem name_eq_accept {value : String} (read : name tokens = .ok (.accept value rest)) :
    ∃ token, tokens = token :: rest ∧ token.kind = .symbol := by
  obtain ⟨token, between, accepted, returned⟩ := bind_eq_accept read
  obtain ⟨rfl, isSymbol⟩ := satisfy_eq_accept accepted
  cases returned
  exact ⟨token, rfl, of_decide_eq_true isSymbol⟩

theorem target_eq_accept {token : Token} (read : target tokens = .ok (.accept token rest)) :
    ∃ sign, tokens = token :: sign :: rest ∧ sign.kind = .assignment := by
  obtain ⟨first, between, accepted, readSign⟩ := bind_eq_accept read
  obtain ⟨rfl, _⟩ := satisfy_eq_accept accepted
  rw [skip_bind] at readSign
  obtain ⟨sign, later, acceptedSign, returned⟩ := bind_eq_accept readSign
  obtain ⟨rfl, isAssignment⟩ := satisfy_eq_accept acceptedSign
  split at returned <;> cases returned
  exact ⟨sign, rfl, of_decide_eq_true isAssignment⟩

theorem settles_name {expected : Error → Prop} (atEnd : expected .endOfTokens) :
    SettlesOn expected whole 1 name :=
  (SettlesOn.satisfy atEnd _).followed fun _ => .pure _

theorem settles_symbol : SettlesOn (Shown inner whole) whole 1 symbol :=
  (SettlesOn.satisfy shown_endOfTokens _).followed fun _ => .pure _

theorem settles_text : SettlesOn (Shown inner whole) whole 1 text :=
  (SettlesOn.satisfy shown_endOfTokens _).followed fun _ => .pure _

theorem settles_integer : SettlesOn (Shown inner whole) whole 1 integer := by
  intro tokens isSuffix
  apply settled_satisfy_bind shown_endOfTokens
  rintro token rest rfl isKind
  have isInteger : token.kind = .integer := of_decide_eq_true isKind
  cases read : Text.readNumeral token.text with
  | ok value => exact .pure _
  | error failure =>
      cases failure with
      | malformed =>
          exact .error (shown_of_suffix .invalidNumeral nofun [] isSuffix ⟨isInteger, read⟩)
      | tooLong digits =>
          exact .error (shown_of_suffix (.numeralTooLong digits) nofun [] isSuffix
            ⟨isInteger, read⟩)

theorem settles_wrapped {α : Type} {opening closing : Kind} {content : Parser α} {least : Nat}
    (settles : SettlesOn (Shown inner whole) whole.tail least content)
    (malformed : ∀ token after, token.kind = opening →
      LacksAfter content (fun other => other.kind = closing) after → Malformed inner token after) :
    SettlesOn (Shown inner whole) whole 1 (wrapped opening closing content) := by
  intro tokens isSuffix
  apply Settled.attempt
  apply settled_skip_bind shown_endOfTokens
  rintro token after rfl isOpening
  refine ((settles after (suffix_tail_of_cons_suffix isSuffix)).followed ?_).weaken (Nat.zero_le _)
  intro value rest read _
  refine (settled_demand_bind shown_endOfTokens ?_ ?_).weaken (Nat.zero_le _)
  · rintro other others rfl isOther
    have goesWrong := malformed token after (of_decide_eq_true isOpening)
      ⟨value, other, others, read, isOther⟩
    exact goesWrong.shown isSuffix
  · exact fun _ _ _ _ => .pure _

variable (nested : SettlesInner inner whole)
include nested

theorem settles_expressions : SettlesOn (Shown inner whole) whole.tail 0 (expressions inner) :=
  nested.expression.commaSeparated shown_endOfTokens

theorem settles_body : SettlesOn (Shown inner whole) whole.tail 0 (body inner) :=
  nested.statement.many.followed fun _ => SettlesOn.newlines.followed fun _ => .pure _

/-- What follows the opening parenthesis of a function's parameters. -/
theorem settled_parameters {α : Type} (build : List String → List Stmt → α) {after : List Token}
    (isLater : after <:+ whole.tail)
    (malformed : LacksAfter (commaSeparated name) (fun other => other.kind = .closeParen) after →
      Shown inner whole .malformedConstruct) :
    Settled (Shown inner whole) 0 after
      ((do
        let parameters ← commaSeparated name
        demand (fun token => token.kind = .closeParen) fun _ => .malformedConstruct
        skip fun token => token.text = "do"
        let body ← body inner
        skip fun token => token.isKeyword "end"
        return build parameters body : Parser α) after) := by
  have onNames : SettlesOn (Shown inner whole) whole.tail 0 (commaSeparated name) :=
    (settles_name shown_endOfTokens).commaSeparated shown_endOfTokens
  apply (onNames after isLater).followed
  intro parameters left read isLeft
  refine (settled_demand_bind shown_endOfTokens ?_ ?_).weaken (Nat.zero_le _)
  · rintro other others rfl isOther
    exact malformed ⟨parameters, other, others, read, isOther⟩
  rintro closing others rfl _
  have onBody : SettlesOn (Shown inner whole) whole.tail 1 (do
      skip fun token => token.text = "do"
      let body ← body inner
      skip fun token => token.isKeyword "end"
      return build parameters body) :=
    (SettlesOn.skip shown_endOfTokens _).followed fun _ => (settles_body nested).followed fun _ =>
      (SettlesOn.skip shown_endOfTokens _).followed fun _ => .pure _
  have isOthers : others <:+ whole.tail := ((List.suffix_cons _ _).trans isLeft).trans isLater
  exact (onBody others isOthers).weaken (Nat.zero_le _)

theorem settles_group : SettlesOn (Shown inner whole) whole 1 (group inner) :=
  settles_wrapped nested.expression fun _ _ => .group

theorem settles_list : SettlesOn (Shown inner whole) whole 1 (list inner) :=
  (settles_wrapped (settles_expressions nested) fun _ _ => .items).followed fun _ => .pure _

theorem settles_field : SettlesOn (Shown inner whole) whole 1 (field inner) := by
  intro tokens isSuffix
  apply Settled.attempt
  apply (settles_name shown_endOfTokens tokens isSuffix).followed
  intro name rest read _
  obtain ⟨token, rfl, isName⟩ := name_eq_accept read
  refine (settled_skip_bind shown_endOfTokens ?_).weaken (Nat.zero_le _)
  rintro colon after rfl isColon
  have isLater : after <:+ whole.tail :=
    (List.suffix_cons _ _).trans (suffix_tail_of_cons_suffix isSuffix)
  refine ((nested.expression after isLater).orRaise_bind ?_ ?_).weaken (Nat.zero_le _)
  · intro left rejected
    exact @shown_of_suffix _ _ _ colon .missingFieldValue nofun [token] isSuffix
      ⟨of_decide_eq_true isColon, ⟨token, rfl, isName⟩, left, rejected⟩
  · exact fun _ _ _ _ => .pure _

theorem settles_record : SettlesOn (Shown inner whole) whole 1 (record inner) :=
  (settles_wrapped ((settles_field nested).tail.commaSeparated shown_endOfTokens)
    fun _ _ => .fields).followed fun _ => .pure _

theorem settles_lambda : SettlesOn (Shown inner whole) whole 1 (lambda inner) := by
  intro tokens isSuffix
  apply Settled.attempt
  apply settled_skip_bind shown_endOfTokens
  rintro token after rfl isLambda
  have isLater := suffix_tail_of_cons_suffix isSuffix
  refine (settled_demand_bind shown_endOfTokens ?_ ?_).weaken (Nat.zero_le _)
  · rintro other others rfl notOpening
    exact shown_of_suffix .expectedOpening nofun [token] isSuffix
      ⟨of_decide_eq_false notOpening, token, rfl, isLambda⟩
  rintro opening rest rfl opens
  have isRest : rest <:+ whole.tail := (List.suffix_cons _ _).trans isLater
  exact settled_parameters nested Expr.lambda isRest
    fun lacks => Malformed.shown (.parameters isLambda (of_decide_eq_true opens) lacks) isSuffix

theorem settles_head : SettlesOn (Shown inner whole) whole 1 (head inner) := by
  apply SettlesOn.firstOf
  simp only [List.forall_mem_cons]
  exact ⟨settles_symbol, settles_group nested, by simp⟩

theorem settles_item : SettlesOn (Shown inner whole) whole 1 (item inner) :=
  SettlesOn.applied shown_endOfTokens (settles_head nested)
    (settles_wrapped nested.expression fun _ _ => .index)

theorem settles_call : SettlesOn (Shown inner whole) whole 1 (call inner) :=
  SettlesOn.applied shown_endOfTokens (settles_head nested)
    (settles_wrapped (settles_expressions nested) fun _ _ => .arguments)

theorem settles_term : SettlesOn (Shown inner whole) whole 1 (term inner) := by
  apply SettlesOn.firstOf
  simp only [List.forall_mem_cons]
  exact ⟨settles_item nested, settles_call nested, settles_group nested, settles_integer,
    settles_text, settles_list nested, settles_lambda nested, settles_symbol,
    settles_record nested, by simp⟩

theorem settles_access : SettlesOn (Shown inner whole) whole 1 (access inner) :=
  (settles_term nested).chainLeft shown_endOfTokens

theorem settles_signed : SettlesOn (Shown inner whole) whole 1 (signed inner) := by
  have onNegation : SettlesOn (Shown inner whole) whole 1 (negation inner) :=
    ((SettlesOn.nextPosition shown_endOfTokens).bind fun _ =>
      (SettlesOn.skip shown_endOfTokens _).followed fun _ =>
        (settles_access nested).followed fun _ => .pure _).attempt
  apply SettlesOn.firstOf
  simp only [List.forall_mem_cons]
  exact ⟨settles_access nested, onNegation, by simp⟩

theorem settles_disjunction : SettlesOn (Shown inner whole) whole 1 (disjunction inner) := by
  have onAddition : SettlesOn (Shown inner whole) whole 1 (addition inner) :=
    ((settles_signed nested).chainLeft shown_endOfTokens).chainLeft shown_endOfTokens
  have onConjunction : SettlesOn (Shown inner whole) whole 1 (conjunction inner) :=
    (onAddition.chainLeft shown_endOfTokens).chainLeft shown_endOfTokens
  exact onConjunction.chainLeft shown_endOfTokens

theorem settles_otherwise : SettlesOn (Shown inner whole) whole.tail 0 (otherwise inner) := by
  apply SettlesOn.firstOf
  simp only [List.forall_mem_cons]
  refine ⟨?_, .pure _, by simp⟩
  exact ((SettlesOn.skip shown_endOfTokens _).followed fun _ => settles_body nested).weaken
    (Nat.zero_le _)

theorem settles_conditional : SettlesOn (Shown inner whole) whole 1 (conditional inner) := by
  intro tokens isSuffix
  apply Settled.attempt
  apply settled_skip_bind shown_endOfTokens
  rintro token after rfl hasText
  have isIf : token.text = "if" := of_decide_eq_true hasText
  have isLater := suffix_tail_of_cons_suffix isSuffix
  refine ((settles_disjunction nested).tail after isLater |>.orRaise_bind ?_ ?_).weaken
    (Nat.zero_le _)
  · intro left rejected
    exact Malformed.shown (.condition isIf ⟨left, rejected⟩) isSuffix
  intro condition left isCondition isLeft
  refine (settled_demand_bind shown_endOfTokens ?_ ?_).weaken (Nat.zero_le _)
  · rintro other others rfl isOther
    exact Malformed.shown (.consequence isIf ⟨condition, other, others, isCondition, isOther⟩)
      isSuffix
  rintro next afterDo rfl isDo
  have isAfterDo : afterDo <:+ whole.tail := ((List.suffix_cons _ _).trans isLeft).trans isLater
  apply (settles_body nested afterDo isAfterDo).followed
  intro onTrue afterBody isBody isAfterBody
  apply (settles_otherwise nested afterBody (isAfterBody.trans isAfterDo)).followed
  intro onFalse afterBranches isOtherwise _
  refine (settled_demand_bind shown_endOfTokens ?_ ?_).weaken (Nat.zero_le _)
  · rintro other others rfl isOther
    exact Malformed.shown (.ending isIf isCondition (of_decide_eq_true isDo) isBody
      ⟨onFalse, other, others, isOtherwise, isOther⟩) isSuffix
  · exact fun _ _ _ _ => .pure _

theorem settles_expression : SettlesOn (Shown inner whole) whole 1 (expression inner) := by
  apply SettlesOn.firstOf
  simp only [List.forall_mem_cons]
  exact ⟨settles_disjunction nested, settles_conditional nested, by simp⟩

omit nested in
theorem settles_target : SettlesOn (Shown inner whole) whole 1 target := by
  intro tokens isSuffix
  apply settled_satisfy_bind shown_endOfTokens
  rintro token rest rfl isSymbol
  refine (settled_skip_bind shown_endOfTokens ?_).weaken (Nat.zero_le _)
  rintro sign after rfl isAssignment
  split
  · rename_i isBuiltin
    exact .error (shown_of_suffix .builtinTarget nofun [] isSuffix
      ⟨of_decide_eq_true isSymbol, List.contains_iff_mem.mp isBuiltin, sign, rfl,
        of_decide_eq_true isAssignment⟩)
  · exact .pure _

theorem settles_assignment : SettlesOn (Shown inner whole) whole 1 (assignment inner) := by
  intro tokens isSuffix
  apply Settled.attempt
  apply (settles_target tokens isSuffix).followed
  intro token after read _
  obtain ⟨sign, rfl, isAssignment⟩ := target_eq_accept read
  have atSign : sign :: after <:+ whole := (List.suffix_cons _ _).trans isSuffix
  refine ((nested.expression after (suffix_tail_of_cons_suffix atSign)).orRaise_bind ?_ ?_).weaken
    (Nat.zero_le _)
  · intro left rejected
    exact Malformed.shown (.value isAssignment ⟨left, rejected⟩) atSign
  · exact fun _ _ _ _ => .pure _

theorem settles_definition : SettlesOn (Shown inner whole) whole 1 (definition inner) := by
  intro tokens isSuffix
  apply Settled.attempt
  apply settled_skip_bind shown_endOfTokens
  rintro token after rfl isDef
  have isLater := suffix_tail_of_cons_suffix isSuffix
  refine ((settles_name shown_endOfTokens after isLater).orRaise_bind ?_ ?_).weaken (Nat.zero_le _)
  · intro left rejected
    exact Malformed.shown (.functionName isDef ⟨left, rejected⟩) isSuffix
  intro name afterName readName isAfterName
  refine (settled_demand_bind shown_endOfTokens ?_ ?_).weaken (Nat.zero_le _)
  · rintro other others rfl isOther
    exact Malformed.shown (.functionOpening isDef ⟨name, other, others, readName, isOther⟩)
      isSuffix
  rintro opening rest rfl opens
  obtain ⟨next, rfl, isName⟩ := name_eq_accept readName
  have isRest : rest <:+ whole.tail := ((List.suffix_cons _ _).trans isAfterName).trans isLater
  exact settled_parameters nested (Stmt.define name) isRest
    fun lacks => Malformed.shown
      (.functionParameters isDef isName (of_decide_eq_true opens) lacks) isSuffix

theorem settles_statement : SettlesOn (Shown inner whole) whole 1 (statement inner) := by
  have onChoices : SettlesOn (Shown inner whole) whole 1
      (firstOf [assignment inner, evaluation inner, definition inner]) := by
    apply SettlesOn.firstOf
    simp only [List.forall_mem_cons]
    exact ⟨settles_assignment nested, (settles_expression nested).followed fun _ => .pure _,
      settles_definition nested, by simp⟩
  exact onChoices.afterNewlines

theorem settles_program : SettlesOn (Shown inner whole) whole 0 (program inner) :=
  (settles_statement nested).many.followed fun _ => .pure _

end Rules

/-! ## Scripts -/

theorem settlesInner_of_tail {inner : Inner} {whole : List Token}
    (onTail : ∀ rest, rest <:+ whole.tail →
      Settled (Shown inner rest) 1 rest (inner.expression rest) ∧
        Settled (Shown inner rest) 1 rest (inner.statement rest)) :
    SettlesInner inner whole := by
  have toWhole {rest : List Token} (isSuffix : rest <:+ whole.tail) (error : Error)
      (shown : Shown inner rest error) : Shown inner whole error :=
    shown.mono (isSuffix.trans (List.tail_suffix _))
  exact ⟨fun rest isSuffix => (onTail rest isSuffix).1.imp (toWhole isSuffix),
    fun rest isSuffix => (onTail rest isSuffix).2.imp (toWhole isSuffix)⟩

/-- The rules for what is nested inside raise only errors that are shown. -/
theorem settled_rules_inner (tokens : List Token) :
    Settled (Shown rules.inner tokens) 1 tokens (rules .expression tokens) ∧
      Settled (Shown rules.inner tokens) 1 tokens (rules .statement tokens) := by
  -- The induction is on the number of tokens: what is nested inside starts at a later one.
  induction length : tokens.length using Nat.strong_induction_on generalizing tokens with
  | _ count ih =>
      cases tokens with
      | nil => exact ⟨.error shown_endOfTokens, .reject (List.suffix_refl _)⟩
      | cons token rest =>
          have nested : SettlesInner rules.inner (token :: rest) := by
            apply settlesInner_of_tail
            intro later isLater
            exact ih later.length (length ▸ Nat.lt_succ_of_le isLater.length_le) later rfl
          have onExpression := settles_expression nested _ (List.suffix_refl _)
          have onStatement := settles_statement nested _ (List.suffix_refl _)
          rw [← parser_rules_inner .expression, ← parser_rules_inner .statement]
          exact ⟨onExpression, onStatement⟩

end Grammar

/-- A script is refused because its tokens have ended, or a token shows at its place what is
wrong. -/
theorem exists_fault {tokens : List Token} {error : Error} (failed : parse tokens = .error error) :
    error = .endOfTokens ∨
      ∃ before token after, tokens = before ++ token :: after ∧
        ∃ fault : Fault, error = fault.error token ∧
          fault.ShownAt rules.inner before token after := by
  have nested : SettlesInner rules.inner tokens :=
    settlesInner_of_tail fun rest _ => settled_rules_inner rest
  have settled := settles_program nested tokens (List.suffix_refl _)
  have neverRejects := @neverRejects_program rules.inner tokens
  have isProgram : program rules.inner = rules .program := parser_rules_inner .program
  rw [parse_eq_finish_rules, Parser.finish, ← isProgram] at failed
  generalize replied : program rules.inner tokens = reply at settled failed neverRejects
  cases settled with
  | error shown =>
      cases failed
      rcases shown with rfl | ⟨before, token, after, isPlace, fault, _, isError, shownAt⟩
      · exact .inl rfl
      · exact .inr ⟨before, token, after, isPlace, fault, isError, shownAt⟩
  | reject => exact absurd rfl (neverRejects _)
  | @accept read left isSuffix _ =>
      cases left with
      | nil => cases failed
      | cons token after =>
          cases failed
          obtain ⟨before, rfl⟩ := isSuffix
          exact .inr ⟨before, token, after, rfl, .leftover, rfl, read, replied⟩

end StackScript
