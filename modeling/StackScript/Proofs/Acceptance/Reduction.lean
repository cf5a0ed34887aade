import StackScript.Proofs.Acceptance.Nodes
import StackScript.Proofs.Structured.OfSurface

/-!
# What reduces to the core tree

The surface tree of a script reduces to a core tree exactly if every period is followed by a
symbol (`ofSurface_succeeds_iff`).  Nothing else can fail, since no node of a script is
misplaced and every operator is known.
-/

namespace StackScript

def Succeeds {ε α : Type} (outcome : Except ε α) : Prop :=
  ∃ value, outcome = .ok value

section Succeeds

variable {ε α β : Type}

@[simp] theorem succeeds_ok (value : α) : Succeeds (.ok value : Except ε α) :=
  ⟨value, rfl⟩

@[simp] theorem succeeds_pure (value : α) : Succeeds (pure value : Except ε α) :=
  ⟨value, rfl⟩

@[simp] theorem not_succeeds_error (error : ε) : ¬Succeeds (.error error : Except ε α) :=
  nofun

/-- A computation fails exactly if it does not succeed. -/
theorem exists_error_iff {outcome : Except ε α} :
    (∃ error, outcome = .error error) ↔ ¬Succeeds outcome := by
  cases outcome with
  | error error => simp
  | ok value => simp

/-- Two computations of which the second one does not depend on the first for its success. -/
theorem succeeds_bind_iff {first : Except ε α} {next : α → Except ε β} {later : Prop}
    (nextSucceeds : ∀ value, Succeeds (next value) ↔ later) :
    Succeeds (first >>= next) ↔ Succeeds first ∧ later := by
  cases first with
  | error error => exact ⟨nofun, fun both => absurd both.1 (not_succeeds_error error)⟩
  | ok value => exact (nextSucceeds value).trans (by simp)

/-- A value that is only converted. -/
theorem succeeds_map_iff {first : Except ε α} {convert : α → β} :
    Succeeds (first >>= fun value => pure (convert value)) ↔ Succeeds first := by
  rw [succeeds_bind_iff fun value => iff_true_intro (succeeds_pure (convert value)), and_true]

/-- Two computations whose values are combined. -/
theorem succeeds_map₂_iff {γ : Type} {first : Except ε α} {second : Except ε β}
    {combine : α → β → γ} :
    Succeeds (do
      let value ← first
      let other ← second
      return combine value other) ↔ Succeeds first ∧ Succeeds second :=
  succeeds_bind_iff fun _ => succeeds_map_iff

end Succeeds

namespace Surface

def Expr.isSymbol : Expr → Bool
  | .symbol .. => true
  | _ => false

/-- Access to something that is no symbol. -/
def Expr.isUnnamedAccess : Expr → Bool
  | .binary _ _ operator _ right => operator = "." && !right.isSymbol
  | _ => false

/-- All periods in an expression are followed by symbols. -/
abbrev NamesFieldsExpr (expression : Expr) : Prop :=
  expression.Throughout (fun node => node.isUnnamedAccess = false) fun _ => True

abbrev NamesFieldsStmt (statement : Stmt) : Prop :=
  statement.Throughout (fun node => node.isUnnamedAccess = false) fun _ => True

/-- A known expression reduces exactly if all its periods are followed by symbols. -/
def ReducesExpr (expression : Expr) : Prop :=
  KnownExpr expression →
    (Succeeds (Core.Expr.ofSurface expression) ↔ NamesFieldsExpr expression)

def ReducesStmt (statement : Stmt) : Prop :=
  KnownStmt statement →
    (Succeeds (Core.Stmt.ofSurface statement) ↔ NamesFieldsStmt statement)

theorem succeeds_exprs_iff {expressions : List Expr}
    (reduces : ∀ expression ∈ expressions, ReducesExpr expression)
    (known : ∀ expression ∈ expressions, KnownExpr expression) :
    Succeeds (Core.exprsOfSurface expressions) ↔
      ∀ expression ∈ expressions, NamesFieldsExpr expression := by
  induction expressions with
  | nil => simp [Core.exprsOfSurface]
  | cons expression rest ih =>
      have reducesBoth := List.forall_mem_cons.mp reduces
      have knownBoth := List.forall_mem_cons.mp known
      rw [Core.exprsOfSurface, succeeds_map₂_iff, reducesBoth.1 knownBoth.1,
        ih reducesBoth.2 knownBoth.2, List.forall_mem_cons]

theorem succeeds_fields_iff {fields : List (String × Expr)}
    (reduces : ∀ field ∈ fields, ReducesExpr field.2)
    (known : ∀ field ∈ fields, KnownExpr field.2) :
    Succeeds (Core.fieldsOfSurface fields) ↔ ∀ field ∈ fields, NamesFieldsExpr field.2 := by
  induction fields with
  | nil => simp [Core.fieldsOfSurface]
  | cons field rest ih =>
      have reducesBoth := List.forall_mem_cons.mp reduces
      have knownBoth := List.forall_mem_cons.mp known
      rw [Core.fieldsOfSurface, succeeds_map₂_iff, reducesBoth.1 knownBoth.1,
        ih reducesBoth.2 knownBoth.2, List.forall_mem_cons]

theorem succeeds_stmts_iff {statements : List Stmt}
    (reduces : ∀ statement ∈ statements, ReducesStmt statement)
    (known : ∀ statement ∈ statements, KnownStmt statement) :
    Succeeds (Core.stmtsOfSurface statements) ↔
      ∀ statement ∈ statements, NamesFieldsStmt statement := by
  induction statements with
  | nil => simp [Core.stmtsOfSurface]
  | cons statement rest ih =>
      have reducesBoth := List.forall_mem_cons.mp reduces
      have knownBoth := List.forall_mem_cons.mp known
      rw [Core.stmtsOfSurface, succeeds_map₂_iff, reducesBoth.1 knownBoth.1,
        ih reducesBoth.2 knownBoth.2, List.forall_mem_cons]

/-- The statements of a known body are known. -/
theorem forall_known_of_body {body : List Stmt} (isKnown : IsKnownBody body)
    (known : ∀ statement ∈ body, statement.Throughout Expr.IsKnown IsKnownBody) :
    ∀ statement ∈ body, KnownStmt statement :=
  fun statement member => ⟨isKnown statement member, known statement member⟩

theorem succeeds_body_iff {body : List Stmt} (reduces : OnBody ReducesExpr ReducesStmt body)
    (known : IsKnownBody body ∧
      ∀ statement ∈ body, statement.Throughout Expr.IsKnown IsKnownBody) :
    Succeeds (Core.stmtsOfSurface body) ↔
      True ∧ ∀ statement ∈ body, NamesFieldsStmt statement := by
  rw [succeeds_stmts_iff reduces.statements (forall_known_of_body known.1 known.2), true_and]

/-- Every operator of a level has a builtin, except those that reduce to something else. -/
theorem exists_builtin_of_operator {level : Level} {operator : String}
    (isOperator : operator ∈ level.operators) (notAnd : operator ≠ "and")
    (notOr : operator ≠ "or") (notPeriod : operator ≠ ".") :
    ∃ builtin, Core.Builtin.ofOperator? operator = some builtin := by
  have all : ∀ operator ∈ level.operators, operator = "and" ∨ operator = "or" ∨
      operator = "." ∨ (Core.Builtin.ofOperator? operator).isSome := by
    cases level <;> decide
  rcases all operator isOperator with same | same | same | isSome
  · exact absurd same notAnd
  · exact absurd same notOr
  · exact absurd same notPeriod
  · exact Option.isSome_iff_exists.mp isSome

/-- Only a symbol carries a name. -/
theorem isSome_name?_of_known {expression : Expr} (known : KnownExpr expression) :
    expression.name?.isSome = expression.isSymbol := by
  cases expression with
  | misplaced form name? => exact absurd (known.1 _ (List.mem_singleton.mpr rfl)) id
  | _ => rfl

/-- A bare symbol has no periods in it. -/
theorem namesFields_of_isSymbol {expression : Expr} (isSymbol : expression.isSymbol = true) :
    NamesFieldsExpr expression := by
  cases expression with
  | symbol position name => simp [Expr.Throughout, Expr.nodes, Expr.bodies, Expr.isUnnamedAccess]
  | _ => cases isSymbol

theorem reducesExpr_binary (position : Position) (level : Level) (operator : String)
    (left right : Expr) (reducesLeft : ReducesExpr left) (reducesRight : ReducesExpr right) :
    ReducesExpr (.binary position level operator left right) := by
  intro known
  obtain ⟨isOperator, knownLeft, knownRight⟩ := throughout_binary.mp known
  have reducesBoth : ∀ combine : Core.Expr → Core.Expr → Core.Expr,
      Succeeds (do
        let first ← Core.Expr.ofSurface left
        let second ← Core.Expr.ofSurface right
        return combine first second : Except Error Core.Expr) ↔
      NamesFieldsExpr left ∧ NamesFieldsExpr right := fun combine => by
    rw [succeeds_map₂_iff, reducesLeft knownLeft, reducesRight knownRight]
  refine Iff.trans ?_ throughout_binary.symm
  rw [Core.Expr.ofSurface]
  split
  · rename_i isAnd
    rw [reducesBoth, isAnd]
    exact (and_iff_right rfl).symm
  split
  · rename_i isOr
    rw [reducesBoth, isOr]
    exact (and_iff_right rfl).symm
  split
  · rename_i isPeriod
    have refused : (Expr.binary position level operator left right).isUnnamedAccess =
        !right.name?.isSome := by
      simp [Expr.isUnnamedAccess, isPeriod, isSome_name?_of_known knownRight]
    cases named : right.name? with
    | none =>
        rw [refused, named]
        constructor
        · rintro ⟨_, succeeds⟩
          obtain ⟨_, _, fails⟩ := except_bind_eq_ok.mp succeeds
          cases fails
        · rintro ⟨isRefused, _⟩
          cases isRefused
    | some field =>
        have isSymbol : right.isSymbol = true := by
          rw [← isSome_name?_of_known knownRight, named]
          rfl
        rw [succeeds_map_iff, reducesLeft knownLeft, refused, named]
        exact ⟨fun names => ⟨rfl, names, namesFields_of_isSymbol isSymbol⟩, fun all => all.2.1⟩
  · rename_i notAnd notOr notPeriod
    obtain ⟨builtin, found⟩ := exists_builtin_of_operator isOperator notAnd notOr notPeriod
    rw [found, reducesBoth]
    exact (and_iff_right (by simp [Expr.isUnnamedAccess, notPeriod])).symm

theorem treeStep_reduces : TreeStep ReducesExpr ReducesStmt where
  integer value _ := by simp [NamesFieldsExpr, Expr.Throughout, Expr.nodes, Expr.bodies,
    Expr.isUnnamedAccess]
  text content _ := by simp [NamesFieldsExpr, Expr.Throughout, Expr.nodes, Expr.bodies,
    Expr.isUnnamedAccess]
  symbol position name _ := by simp [NamesFieldsExpr, Expr.Throughout, Expr.nodes, Expr.bodies,
    Expr.isUnnamedAccess]
  negation position operand reduces := by
    intro known
    refine Iff.trans ?_ throughout_negation.symm
    rw [Core.Expr.ofSurface, succeeds_map_iff, reduces (throughout_negation.mp known).2]
    exact (and_iff_right rfl).symm
  binary := reducesExpr_binary
  list items reduces := by
    intro known
    refine Iff.trans ?_ throughout_list.symm
    rw [Core.Expr.ofSurface, succeeds_map_iff,
      succeeds_exprs_iff reduces (throughout_list.mp known).2]
    exact (and_iff_right rfl).symm
  record fields reduces := by
    intro known
    refine Iff.trans ?_ throughout_record.symm
    rw [Core.Expr.ofSurface, succeeds_map_iff,
      succeeds_fields_iff reduces (throughout_record.mp known).2]
    exact (and_iff_right rfl).symm
  item position subject index reducesSubject reducesIndex := by
    intro known
    obtain ⟨_, knownSubject, knownIndex⟩ := throughout_item.mp known
    refine Iff.trans ?_ throughout_item.symm
    rw [Core.Expr.ofSurface, succeeds_map₂_iff, reducesSubject knownSubject,
      reducesIndex knownIndex]
    exact (and_iff_right rfl).symm
  call position function arguments reducesFunction reducesArguments := by
    intro known
    obtain ⟨_, knownFunction, knownArguments⟩ := throughout_call.mp known
    refine Iff.trans ?_ throughout_call.symm
    rw [Core.Expr.ofSurface, succeeds_map₂_iff, reducesFunction knownFunction,
      succeeds_exprs_iff reducesArguments knownArguments]
    exact (and_iff_right rfl).symm
  lambda parameters body reduces := by
    intro known
    refine Iff.trans ?_ throughout_lambda.symm
    rw [Core.Expr.ofSurface, succeeds_map_iff,
      succeeds_body_iff reduces (throughout_lambda.mp known).2]
    exact (and_iff_right rfl).symm
  conditional condition onTrue onFalse reducesCondition reducesTrue reducesFalse := by
    intro known
    obtain ⟨_, knownCondition, knownTrue, knownFalse⟩ := throughout_conditional.mp known
    refine Iff.trans ?_ throughout_conditional.symm
    rw [Core.Expr.ofSurface, succeeds_bind_iff fun _ => succeeds_map₂_iff,
      reducesCondition knownCondition, succeeds_body_iff reducesTrue knownTrue,
      succeeds_body_iff reducesFalse knownFalse]
    exact (and_iff_right rfl).symm
  misplacedExpr form name? known := absurd (known.1 _ (List.mem_singleton.mpr rfl)) id
  assign target value reduces := by
    intro known
    rw [Core.Stmt.ofSurface, succeeds_map_iff, reduces known.2]
    rfl
  evaluate expression reduces := by
    intro known
    rw [Core.Stmt.ofSurface, succeeds_map_iff, reduces known.2]
    rfl
  define name parameters body reduces := by
    intro known
    refine Iff.trans ?_ throughout_define.symm
    rw [Core.Stmt.ofSurface, succeeds_map_iff,
      succeeds_body_iff reduces (throughout_define.mp known.2)]
  misplacedStmt form := by
    intro known
    exact absurd known.1 id

/-- A script reduces to a core tree exactly if all its periods are followed by symbols. -/
theorem ofSurface_succeeds_iff {program : Program}
    (known : ∀ statement ∈ program.statements, KnownStmt statement) :
    Succeeds (Core.Program.ofSurface program) ↔
      ∀ node ∈ program.nodes, node.isUnnamedAccess = false := by
  have statementsReduce := succeeds_stmts_iff
    (treeStep_reduces.body program.statements).statements known
  rw [Core.Program.ofSurface, succeeds_map_iff, statementsReduce]
  exact forall_program_iff.symm.trans (and_iff_left fun _ _ => trivial)

end Surface

end StackScript
