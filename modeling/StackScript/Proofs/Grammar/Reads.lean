import StackScript.Proofs.Grammar.Rules
import StackScript.Proofs.Grammar.Spelling

/-!
# What the grammar reads

One run of the grammar is two runs on the same list.  So a property of trees that passes from
the parts of a tree to the whole holds of every tree that is read from good tokens
(`forall_statements_of_parse`), and a script can be read at any depth that is not smaller than
the number of its tokens (`parse_eq_of_le`).
-/

namespace StackScript.Grammar

open StackScript.Surface (Expr Stmt Level Program)

/-- A list of good tokens belongs together with itself only. -/
def Matching.good (good : Token → Prop) : Matching where
  paired _ tokens tokens' := tokens = tokens' ∧ ∀ token ∈ tokens, good token
  alike token token' := token = token' ∧ good token
  raised error error' := error = error'

theorem Matching.lawful_good (good : Token → Prop) : (Matching.good good).Lawful := by
  have tail : ∀ {token token' : Token} {rest rest' : List Token},
      (token :: rest = token' :: rest' ∧ ∀ other ∈ token :: rest, good other) →
        rest = rest' ∧ ∀ other ∈ rest, good other :=
    fun together => ⟨(List.cons.inj together.1).2, (List.forall_mem_cons.mp together.2).2⟩
  exact
    { nil_iff together := by rw [together.1]
      head together := ⟨(List.cons.inj together.1).1, (List.forall_mem_cons.mp together.2).1⟩
      kind_eq alikeTokens := by rw [alikeTokens.1]
      text_eq alikeTokens := by rw [alikeTokens.1]
      inline together _ := tail together
      opening together _ := tail together
      closing together _ := tail together
      newlines together := ⟨congrArg dropNewlines together.1, fun token member =>
        together.2 token ((List.dropWhile_suffix _).subset member)⟩
      raised_end := rfl
      raised_fault fault alikeTokens := congrArg fault.error alikeTokens.1 }

/-- A property of expressions and one of statements that hold of a tree if they hold of its
parts and its tokens are good. -/
structure Builds (good : Token → Prop) (onExpr : Expr → Prop) (onStmt : Stmt → Prop) :
    Prop where
  integer : ∀ value, onExpr (.integer value)
  text : ∀ content, onExpr (.text content)
  symbol : ∀ {token}, good token → token.kind = .symbol →
    onExpr (.symbol token.position token.text)
  negation : ∀ {token operand}, good token → onExpr operand →
    onExpr (.negation token.position operand)
  binary : ∀ {token level left right}, good token → isOperatorOf level token = true →
    onExpr left → onExpr right → onExpr (.binary token.position level token.text left right)
  list : ∀ {items}, (∀ item ∈ items, onExpr item) → onExpr (.list items)
  record : ∀ {fields}, (∀ field ∈ fields, onExpr field.2) → onExpr (.record fields)
  item : ∀ {token subject index}, good token → onExpr subject → onExpr index →
    onExpr (.item token.position subject index)
  call : ∀ {token function arguments}, good token → onExpr function →
    (∀ argument ∈ arguments, onExpr argument) →
      onExpr (.call token.position function arguments)
  lambda : ∀ {parameters body}, (∀ statement ∈ body, onStmt statement) →
    onExpr (.lambda parameters body)
  conditional : ∀ {condition onTrue onFalse}, onExpr condition →
    (∀ statement ∈ onTrue, onStmt statement) → (∀ statement ∈ onFalse, onStmt statement) →
      onExpr (.conditional condition onTrue onFalse)
  assign : ∀ {token value}, good token → token.kind = .symbol → token.text ∉ builtinNames →
    onExpr value → onStmt (.assign token.text value)
  evaluate : ∀ {expression}, onExpr expression → onStmt (.evaluate expression)
  define : ∀ {token parameters body}, good token → token.kind = .symbol →
    (∀ statement ∈ body, onStmt statement) → onStmt (.define token.text parameters body)

section Reading

variable {good : Token → Prop} {onExpr : Expr → Prop} {onStmt : Stmt → Prop}

theorem fieldsAlike_self :
    FieldsAlike (fun value value' => onExpr value ∧ value = value') =
      fun field field' => onExpr field.2 ∧ field = field' := by
  funext field field'
  rw [FieldsAlike, Prod.ext_iff]
  exact propext and_left_comm

/-- A tree with a property belongs together with itself only. -/
theorem Builds.alike (builds : Builds good onExpr onStmt) :
    BuildsAlike (Matching.good good).alike
      (fun expression expression' => onExpr expression ∧ expression = expression')
      (fun statement statement' => onStmt statement ∧ statement = statement') where
  integer value := ⟨builds.integer value, rfl⟩
  text content := ⟨builds.text content, rfl⟩
  symbol := by
    rintro token _ ⟨rfl, isGood⟩ isSymbol
    exact ⟨builds.symbol isGood isSymbol, rfl⟩
  negation := by
    rintro token _ operand _ ⟨rfl, isGood⟩ ⟨holds, rfl⟩
    exact ⟨builds.negation isGood holds, rfl⟩
  binary := by
    rintro token _ level left _ right _ ⟨rfl, isGood⟩ isOne ⟨leftHolds, rfl⟩ ⟨rightHolds, rfl⟩
    exact ⟨builds.binary isGood isOne leftHolds rightHolds, rfl⟩
  list := by
    intro items items' both
    obtain ⟨hold, rfl⟩ := forall₂_self_iff.mp both
    exact ⟨builds.list hold, rfl⟩
  record := by
    intro fields fields' both
    rw [fieldsAlike_self] at both
    obtain ⟨hold, rfl⟩ := forall₂_self_iff.mp both
    exact ⟨builds.record hold, rfl⟩
  item := by
    rintro token _ subject _ index _ ⟨rfl, isGood⟩ ⟨subjectHolds, rfl⟩ ⟨indexHolds, rfl⟩
    exact ⟨builds.item isGood subjectHolds indexHolds, rfl⟩
  call := by
    rintro token _ function _ arguments arguments' ⟨rfl, isGood⟩ ⟨functionHolds, rfl⟩ both
    obtain ⟨hold, rfl⟩ := forall₂_self_iff.mp both
    exact ⟨builds.call isGood functionHolds hold, rfl⟩
  lambda := by
    intro parameters body body' both
    obtain ⟨hold, rfl⟩ := forall₂_self_iff.mp both
    exact ⟨builds.lambda hold, rfl⟩
  conditional := by
    rintro condition _ onTrue onTrue' onFalse onFalse' ⟨conditionHolds, rfl⟩ bothTrue bothFalse
    obtain ⟨trueHold, rfl⟩ := forall₂_self_iff.mp bothTrue
    obtain ⟨falseHold, rfl⟩ := forall₂_self_iff.mp bothFalse
    exact ⟨builds.conditional conditionHolds trueHold falseHold, rfl⟩
  assign := by
    rintro token _ value _ ⟨rfl, isGood⟩ isSymbol notBuiltin ⟨valueHolds, rfl⟩
    exact ⟨builds.assign isGood isSymbol notBuiltin valueHolds, rfl⟩
  evaluate := by
    rintro expression _ ⟨holds, rfl⟩
    exact ⟨builds.evaluate holds, rfl⟩
  define := by
    rintro token _ parameters body body' ⟨rfl, isGood⟩ isSymbol both
    obtain ⟨hold, rfl⟩ := forall₂_self_iff.mp both
    exact ⟨builds.define isGood isSymbol hold, rfl⟩

/-- The grammar agrees with itself on lists that are as long as the depth or shorter, and it
does so at any depth that is not smaller. -/
theorem Builds.agrees_program (builds : Builds good onExpr onStmt) {bound depth depth' : Nat}
    (enough : bound ≤ depth) (enough' : bound ≤ depth') :
    Agrees (Matching.good good) (bound + 1) 0 0 (program (nested depth))
      (program (nested depth')) fun program program' =>
        (∀ statement ∈ program.statements, onStmt statement) ∧
          program.statements = program'.statements := by
  have lawful := Matching.lawful_good good
  have agrees := agreesInner_of_le lawful builds.alike enough enough'
  simp only [← forall₂_self_iff]
  exact Grammar.agrees_program lawful (agrees_statement lawful builds.alike agrees)

/-- There are always statements, if only none. -/
theorem neverRejects_program {inner : Inner} : NeverRejects (program inner) :=
  NeverRejects.bind (neverRejects_many _) fun _ => nofun

/-- The statements of a script that is read from good tokens have the property. -/
theorem Builds.forall_statements_of_parse (builds : Builds good onExpr onStmt)
    {tokens : List Token} (allGood : ∀ token ∈ tokens, good token) {program : Program}
    (parsed : parse tokens = .ok program) :
    ∀ statement ∈ program.statements, onStmt statement := by
  have agrees := builds.agrees_program (Nat.le_refl tokens.length) (Nat.le_refl _)
  rcases agrees.finish (Matching.lawful_good good) ⟨rfl, allGood⟩ (Nat.lt_succ_self _)
      (Nat.lt_succ_self _) (neverRejects_program _) with
    ⟨_, _, failed, _⟩ | ⟨found, _, finished, _, hold, _⟩
  · rw [parse, failed] at parsed
    cases parsed
  · rw [parse, finished] at parsed
    cases parsed
    exact hold

end Reading

/-- Nothing is asked of trees. -/
theorem builds_trivial {good : Token → Prop} : Builds good (fun _ => True) fun _ => True := by
  constructor <;> intros <;> trivial

end StackScript.Grammar

namespace StackScript

open StackScript.Grammar

/-- A script can be read at any depth that is not smaller than the number of its tokens. -/
theorem parse_eq_of_le {tokens : List Token} {depth : Nat} (enough : tokens.length ≤ depth) :
    parse tokens = (program (nested depth)).finish tokens := by
  have agrees : Agrees (Matching.good fun _ => True) _ _ _ _ _ _ :=
    builds_trivial.agrees_program (Nat.le_refl tokens.length) enough
  rcases agrees.finish (Matching.lawful_good fun _ => True) ⟨rfl, fun _ _ => trivial⟩
      (Nat.lt_succ_self _) (Nat.lt_succ_self _) (neverRejects_program _) with
    ⟨_, _, failed, failed', rfl⟩ | ⟨found, found', finished, finished', _, same⟩
  · exact failed.trans failed'.symm
  · rw [parse, finished, finished']
    cases found
    cases found'
    cases same
    rfl

end StackScript
