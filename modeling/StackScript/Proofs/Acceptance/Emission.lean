import StackScript.Proofs.Acceptance.Ordering
import StackScript.Proofs.Acceptance.Reduction
import StackScript.Proofs.Structured.OfScript

/-!
# Which scripts have code

Steps that have an outline are emitted (`Code.proceeds_steps`), and only a script whose
operators all have an instruction and whose bodies all end in an expression has an outline.
Together with what reduces and what is put in order this says for each stage exactly which
scripts it refuses.
-/

namespace StackScript.Code

open StackScript.Linear (Value Step)

namespace Structured

variable {φ β : Type}

/-- Marks have no part in whether code has a value to keep. -/
theorem keepValue_mapMarks {φ' β' : Type} (onFunction : φ → φ') (onBranch : β → β')
    (code : Structured φ β) :
    (code.mapMarks onFunction onBranch).keepValue =
      code.keepValue.map (mapMarks onFunction onBranch) := by
  induction code with
  | done => rfl
  | instruction content rest ih =>
      cases rest with
      | done =>
          by_cases drops : content.opcode = .drop <;> simp [mapMarks, keepValue, drops]
      | instruction _ _ | function _ _ _ _ | branch _ _ _ _ =>
          rw [keepValue_instruction content (by simp), Option.map_map, mapMarks,
            keepValue_instruction content (by simp [mapMarks]), ih, Option.map_map]
          rfl
  | function mark parameters body rest _ ih =>
      rw [mapMarks, keepValue, keepValue, ih, Option.map_map, Option.map_map]
      rfl
  | branch mark onTrue onFalse rest _ _ ih =>
      rw [mapMarks, keepValue, keepValue, ih, Option.map_map, Option.map_map]
      rfl

end Structured

/-- A body whose outline has a value to keep yields it. -/
theorem yields_of_keepValue {before after : Tally} {fragment : Fragment}
    {outline kept : Outline} (lays : Lays before fragment (some outline) after)
    (keeps : outline.keepValue = some kept) : ∃ code, yielding fragment.code = .ok code := by
  obtain ⟨labelled, rfl, outlineEq, _⟩ := lays
  rw [Option.some.injEq] at outlineEq
  subst outlineEq
  rw [Structured.outline, Structured.keepValue_mapMarks, Option.map_eq_some_iff] at keeps
  obtain ⟨inner, innerKeeps, _⟩ := keeps
  obtain ⟨argument, rfl⟩ := (Structured.keepValue_eq_some_iff _ _).mp innerKeeps
  exact ⟨inner.code, by simp [Structured.fragment, yielding, Entry.of]⟩

/-- A tally that has a number for the next conditional. -/
def Tally.CountsBranches (tally : Tally) : Prop :=
  ∃ number, tally.get? branchKey = some number

theorem countsBranches_set {tally : Tally} (counts : tally.CountsBranches)
    (key : Option String) (value : Int) : Tally.CountsBranches (tally.set key value) := by
  obtain ⟨number, found⟩ := counts
  by_cases same : key = branchKey
  · exact ⟨value, by rw [Ledger.get?_set, if_pos same]⟩
  · exact ⟨number, by rw [Ledger.get?_set, if_neg same, found]⟩

/-- Emission succeeds and leaves a tally that counts conditionals. -/
def Proceeds (action : Emit Fragment) (before : Tally) : Prop :=
  ∃ fragment after, Emits action before fragment after ∧ after.CountsBranches

theorem proceeds_pure {fragment : Fragment} {before : Tally} (counts : before.CountsBranches) :
    Proceeds (pure fragment) before :=
  ⟨fragment, before, emits_pure.mpr ⟨rfl, rfl⟩, counts⟩

theorem proceeds_bind {α : Type} {action : Emit α} {next : α → Emit Fragment} {value : α}
    {before between : Tally} (emitted : Emits action before value between)
    (proceeds : Proceeds (next value) between) : Proceeds (action >>= next) before := by
  obtain ⟨fragment, after, nextEmitted, counts⟩ := proceeds
  exact ⟨fragment, after, emits_bind.mpr ⟨value, between, emitted, nextEmitted⟩, counts⟩

theorem Proceeds.andThen {action : Emit Fragment} {before : Tally}
    (proceeds : Proceeds action before) (opcode : Opcode) (argument : Argument) :
    Proceeds (do return (← action).andThen opcode argument) before := by
  obtain ⟨fragment, between, emitted, counts⟩ := proceeds
  exact proceeds_bind emitted (proceeds_pure counts)

/-- A body whose outline has a value to keep is emitted, and its value is kept. -/
theorem proceeds_body {steps : List Step} {outline kept : Outline} {before : Tally}
    (found : outlineSteps steps = some outline) (keeps : outline.keepValue = some kept)
    (proceeds : Proceeds (emitSteps steps) before) :
    ∃ body code after, Emits (emitSteps steps) before body after ∧ after.CountsBranches ∧
      Emits (liftM (yielding body.code)) after code after := by
  obtain ⟨body, after, emitted, counts⟩ := proceeds
  have lays := emitSteps_structured steps emitted
  rw [found] at lays
  obtain ⟨code, yields⟩ := yields_of_keepValue lays keeps
  exact ⟨body, code, after, emitted, counts, emits_lift.mpr ⟨yields, rfl⟩⟩

mutual

/-- A value that has an outline is emitted. -/
theorem proceeds_value (value : Value) {outline : Outline} {before : Tally}
    (found : outlineValue value = some outline) (counts : before.CountsBranches) :
    Proceeds (emitValue value) before := by
  cases value with
  | integer _ | text _ | symbol _ | symbolLiteral _ | temporary _ | list _ | record _ =>
      exact proceeds_pure counts
  | call position function argumentCount =>
      by_cases performed : ∃ builtin, function = .builtin builtin
      · obtain ⟨builtin, rfl⟩ := performed
        simp only [outlineValue, Option.bind_eq_bind, Option.bind_eq_some_iff] at found
        obtain ⟨opcode, known, _⟩ := found
        have performs : opcodeOfBuiltin builtin = .ok opcode := by
          rw [opcodeOfBuiltin, known]
        exact proceeds_bind (emits_lift.mpr ⟨performs, rfl⟩) (proceeds_pure counts)
      · have noBuiltin : ∀ builtin, function = .builtin builtin → False :=
          fun builtin same => performed ⟨builtin, same⟩
        rw [outlineValue.eq_9 _ _ _ noBuiltin] at found
        obtain ⟨inner, innerFound, _⟩ := Option.bind_eq_some_iff.mp found
        rw [emitValue.eq_9 _ _ _ noBuiltin]
        exact (proceeds_value function innerFound counts).andThen _ _
  | lambda name? parameters body =>
      simp only [outlineValue, Option.bind_eq_bind, Option.bind_eq_some_iff] at found
      obtain ⟨inner, bodyFound, kept, keeps, _⟩ := found
      have counted := countsBranches_set counts name?
        ((before.get? (some (labelStem name?))).getD 0 + 1)
      obtain ⟨_, _, after, bodyEmitted, bodyCounts, bodyYields⟩ :=
        proceeds_body bodyFound keeps (proceeds_steps body bodyFound counted)
      exact proceeds_bind (emits_newFunctionLabel.mpr ⟨rfl, rfl⟩)
        (proceeds_bind bodyEmitted (proceeds_bind bodyYields (proceeds_pure bodyCounts)))
  | conditional condition onTrue onFalse =>
      simp only [outlineValue, Option.bind_eq_bind, Option.bind_eq_some_iff] at found
      obtain ⟨_, conditionFound, _, trueFound, _, trueKeeps, _, falseFound, _, falseKeeps, _⟩ :=
        found
      obtain ⟨number, numberFound⟩ := counts
      have given := emits_newBranchNumber.mpr ⟨numberFound, rfl⟩
      have counted := countsBranches_set ⟨number, numberFound⟩ branchKey (number + 1)
      obtain ⟨_, _, conditionEmitted, conditionCounts⟩ :=
        proceeds_value condition conditionFound counted
      obtain ⟨_, _, _, trueEmitted, trueCounts, trueYields⟩ :=
        proceeds_body trueFound trueKeeps (proceeds_steps onTrue trueFound conditionCounts)
      obtain ⟨_, _, _, falseEmitted, falseCounts, falseYields⟩ :=
        proceeds_body falseFound falseKeeps (proceeds_steps onFalse falseFound trueCounts)
      exact proceeds_bind given (proceeds_bind conditionEmitted (proceeds_bind trueEmitted
        (proceeds_bind trueYields (proceeds_bind falseEmitted
          (proceeds_bind falseYields (proceeds_pure falseCounts))))))
  | builtin _ | misplaced _ => cases found

/-- A step that has an outline is emitted. -/
theorem proceeds_step (step : Step) {outline : Outline} {before : Tally}
    (found : outlineStep step = some outline) (counts : before.CountsBranches) :
    Proceeds (emitStep step) before := by
  cases step with
  | push value => exact proceeds_value value found counts
  | bindTemporary _ value | assign _ value | evaluate value =>
      obtain ⟨inner, innerFound, _⟩ := Option.bind_eq_some_iff.mp found
      exact (proceeds_value value innerFound counts).andThen _ _
  | misplaced _ => cases found

/-- Steps that have an outline are emitted. -/
theorem proceeds_steps (steps : List Step) {outline : Outline} {before : Tally}
    (found : outlineSteps steps = some outline) (counts : before.CountsBranches) :
    Proceeds (emitSteps steps) before := by
  cases steps with
  | nil => exact proceeds_pure counts
  | cons step rest =>
      obtain ⟨_, stepFound, found⟩ := Option.bind_eq_some_iff.mp found
      obtain ⟨_, restFound, _⟩ := Option.bind_eq_some_iff.mp found
      obtain ⟨_, _, stepEmitted, stepCounts⟩ := proceeds_step step stepFound counts
      obtain ⟨_, _, restEmitted, restCounts⟩ := proceeds_steps rest restFound stepCounts
      exact proceeds_bind stepEmitted (proceeds_bind restEmitted (proceeds_pure restCounts))

end

/-- A script in linear form has code exactly if its steps have an outline. -/
theorem ofLinear_succeeds_iff {program : Linear.Program} :
    Succeeds (Code.ofLinear program) ↔ ∃ outline, outlineSteps program.steps = some outline := by
  constructor
  · rintro ⟨entries, generated⟩
    obtain ⟨_, _, emitted, _⟩ := Script.emits_of_ofLinear generated
    obtain ⟨outline, found, _⟩ := (emitSteps_structured program.steps emitted).exists_outline
    exact ⟨outline, found⟩
  · rintro ⟨outline, found⟩
    have counts : Tally.initial.CountsBranches := ⟨0, rfl⟩
    obtain ⟨fragment, after, emitted, _⟩ := proceeds_steps program.steps found counts
    have run : (emitSteps program.steps).run Tally.initial = (Except.ok fragment, after) := emitted
    exact ⟨assemble fragment, by rw [Code.ofLinear, run]; rfl⟩

end StackScript.Code

namespace StackScript.Surface

open StackScript.Code (Outline)

/-! ## What has an outline -/

/-- An expression that has an outline has instructions for all its operators, and its bodies
end in expressions. -/
def OutlinedExpr (expression : Expr) : Prop :=
  ∀ {counter after : Int} {outline : Outline},
    outlineExpr counter expression = some (outline, after) → HasCodeExpr expression

def OutlinedStmt (statement : Stmt) : Prop :=
  ∀ {counter after : Int} {outline : Outline},
    outlineStmt counter statement = some (outline, after) → HasCodeStmt statement

section Outlined

variable {counter after : Int} {outline : Outline}

theorem hasCode_of_outlineExprs {expressions : List Expr}
    (outlined : ∀ expression ∈ expressions, OutlinedExpr expression)
    (found : outlineExprs counter expressions = some (outline, after)) :
    ∀ expression ∈ expressions, HasCodeExpr expression := by
  induction expressions generalizing counter outline with
  | nil => simp
  | cons expression rest ih =>
      obtain ⟨firstOutlined, restOutlined⟩ := List.forall_mem_cons.mp outlined
      obtain ⟨_, _, _, firstFound, restFound, _⟩ := outlineExprs_cons found
      exact List.forall_mem_cons.mpr ⟨firstOutlined firstFound, ih restOutlined restFound⟩

theorem hasCode_of_outlineFields {fields : List (String × Expr)}
    (outlined : ∀ field ∈ fields, OutlinedExpr field.2)
    (found : outlineFields counter fields = some (outline, after)) :
    ∀ field ∈ fields, HasCodeExpr field.2 := by
  induction fields generalizing counter outline with
  | nil => simp
  | cons field rest ih =>
      obtain ⟨firstOutlined, restOutlined⟩ := List.forall_mem_cons.mp outlined
      obtain ⟨_, _, _, firstFound, restFound, _⟩ := outlineFields_cons found
      exact List.forall_mem_cons.mpr ⟨firstOutlined firstFound, ih restOutlined restFound⟩

theorem hasCode_of_outlineStmts {statements : List Stmt}
    (outlined : ∀ statement ∈ statements, OutlinedStmt statement)
    (found : outlineStmts counter statements = some (outline, after)) :
    ∀ statement ∈ statements, HasCodeStmt statement := by
  induction statements generalizing counter outline with
  | nil => simp
  | cons statement rest ih =>
      obtain ⟨firstOutlined, restOutlined⟩ := List.forall_mem_cons.mp outlined
      obtain ⟨_, _, _, firstFound, restFound, _⟩ := outlineStmts_cons found
      exact List.forall_mem_cons.mpr ⟨firstOutlined firstFound, ih restOutlined restFound⟩

/-- A body that has an outline ends in an expression. -/
theorem hasCode_of_outlineBody {statements : List Stmt}
    (body : OnBody OutlinedExpr OutlinedStmt statements)
    (found : outlineBody counter statements = some (outline, after)) :
    yieldsNothing statements = false ∧ ∀ statement ∈ statements, HasCodeStmt statement := by
  induction statements generalizing counter outline with
  | nil => cases found
  | cons statement rest ih =>
      rcases outlineBody_cons found with ⟨rfl, expression, rfl, valueFound⟩ |
        ⟨more, _, _, _, firstFound, restFound, _⟩
      · refine ⟨rfl, List.forall_mem_singleton.mpr ?_⟩
        exact body.values expression List.mem_cons_self valueFound
      · obtain ⟨yields, restHave⟩ := ih body.tail restFound
        obtain ⟨next, others, rfl⟩ := List.exists_cons_of_ne_nil more
        exact ⟨yields, List.forall_mem_cons.mpr ⟨body.head firstFound, restHave⟩⟩

/-- The name of a field has no code of its own. -/
theorem hasCode_of_name? {expression : Expr} {name : String}
    (named : expression.name? = some name) : HasCodeExpr expression := by
  cases expression with
  | symbol _ _ | misplaced _ _ =>
      simp [Expr.Throughout, Expr.nodes, Expr.bodies, Expr.lacksInstruction]
  | _ => cases named

theorem outlinedExpr_binary (position : Position) (level : Level) (operator : String)
    (left right : Expr) (leftOutlined : OutlinedExpr left) (rightOutlined : OutlinedExpr right) :
    OutlinedExpr (.binary position level operator left right) := by
  intro counter after outline found
  obtain ⟨_, _, leftFound, ⟨rfl, _, rightFound, _⟩ | ⟨rfl, _, rightFound, _⟩ |
    ⟨rfl, _, named, _⟩ | ⟨_, _, _, _, _, performed, rightFound, _⟩⟩ := outlineExpr_binary found
  · exact throughout_binary.mpr ⟨rfl, leftOutlined leftFound, rightOutlined rightFound⟩
  · exact throughout_binary.mpr ⟨rfl, leftOutlined leftFound, rightOutlined rightFound⟩
  · exact throughout_binary.mpr ⟨rfl, leftOutlined leftFound, hasCode_of_name? named⟩
  · refine throughout_binary.mpr ⟨?_, leftOutlined leftFound, rightOutlined rightFound⟩
    refine decide_eq_false ?_
    rintro rfl
    cases performed

/-- Only indexing and operators can be without an instruction. -/
theorem treeStep_outlined : TreeStep OutlinedExpr OutlinedStmt where
  integer _ _ _ _ _ := by simp [Expr.Throughout, Expr.nodes, Expr.bodies, Expr.lacksInstruction]
  text _ _ _ _ _ := by simp [Expr.Throughout, Expr.nodes, Expr.bodies, Expr.lacksInstruction]
  symbol _ _ _ _ _ _ := by
    simp [Expr.Throughout, Expr.nodes, Expr.bodies, Expr.lacksInstruction]
  negation position operand outlined counter after outline found := by
    obtain ⟨_, operandFound, _⟩ := outlineExpr_negation found
    exact throughout_negation.mpr ⟨rfl, outlined operandFound⟩
  binary := outlinedExpr_binary
  list items outlined counter after outline found := by
    obtain ⟨_, itemsFound, _⟩ := outlineExpr_list found
    exact throughout_list.mpr ⟨rfl, hasCode_of_outlineExprs outlined itemsFound⟩
  record fields outlined counter after outline found := by
    obtain ⟨_, fieldsFound, _⟩ := outlineExpr_record found
    exact throughout_record.mpr ⟨rfl, hasCode_of_outlineFields outlined fieldsFound⟩
  item position subject index _ _ counter after outline found := by cases found
  call position function arguments functionOutlined argumentsOutlined counter after outline
      found := by
    obtain ⟨_, _, _, argumentsFound, functionFound, _⟩ := outlineExpr_call found
    exact throughout_call.mpr ⟨rfl, functionOutlined functionFound,
      hasCode_of_outlineExprs argumentsOutlined argumentsFound⟩
  lambda parameters body outlined counter after outline found := by
    obtain ⟨_, _, bodyFound, _, _⟩ := outlineExpr_lambda found
    exact throughout_lambda.mpr ⟨rfl, hasCode_of_outlineBody outlined bodyFound⟩
  conditional condition onTrue onFalse conditionOutlined trueOutlined falseOutlined counter after
      outline found := by
    obtain ⟨_, _, _, _, _, conditionFound, trueFound, falseFound, _⟩ :=
      outlineExpr_conditional found
    exact throughout_conditional.mpr ⟨rfl, conditionOutlined conditionFound,
      hasCode_of_outlineBody trueOutlined trueFound,
      hasCode_of_outlineBody falseOutlined falseFound⟩
  misplacedExpr form name? counter after outline found := by cases found
  assign target value outlined counter after outline found := by
    obtain ⟨_, valueFound, _⟩ := outlineStmt_assign found
    exact outlined valueFound
  evaluate expression outlined counter after outline found := by
    obtain ⟨_, valueFound, _⟩ := outlineStmt_evaluate found
    exact outlined valueFound
  define name parameters body outlined counter after outline found := by
    obtain ⟨_, _, bodyFound, _, _⟩ := outlineStmt_define found
    exact throughout_define.mpr (hasCode_of_outlineBody outlined bodyFound)
  misplacedStmt form counter after outline found := by cases found

end Outlined

/-- The steps of a script have an outline exactly if all its operators have an instruction and
all its bodies end in an expression. -/
theorem ofLinear_succeeds_iff_hasCode {program : Program} {core : Core.Program}
    (reduced : Core.Program.ofSurface program = .ok core) :
    ∃ linear, Linear.Program.ofCore core = .ok linear ∧ linear.checked = .ok linear ∧
      (Succeeds (Code.ofLinear linear) ↔
        ∀ statement ∈ program.statements, HasCodeStmt statement) := by
  obtain ⟨linear, ordered, checked, outlined⟩ := orders_program reduced
  refine ⟨linear, ordered, checked, ?_, ?_⟩
  · rintro ⟨entries, generated⟩
    have composed : Script.codeOf program = .ok entries := by
      simp only [Script.codeOf, except_bind_eq_ok]
      exact ⟨core, reduced, linear, ordered, linear, checked, generated⟩
    obtain ⟨labelled, _, found, _⟩ := Script.codeOf_structured composed
    obtain ⟨⟨outline, after⟩, stmtsFound, _⟩ := Option.map_eq_some_iff.mp found
    exact hasCode_of_outlineStmts (treeStep_outlined.body program.statements).statements stmtsFound
  · exact fun haveCode => Code.ofLinear_succeeds_iff.mpr (outlined haveCode)

end StackScript.Surface

namespace StackScript

open StackScript.Surface

/-- Which scripts each stage refuses: reduction those with access to something that is no
symbol, ordering and the check none, and emission those with an operator that has no
instruction or with a body that does not end in an expression. -/
theorem Script.exists_error_iff_of_surface {script : String} {program : Surface.Program}
    (parsed : Script.surface script = .ok program) :
    ((∃ error, Core.Program.ofSurface program = .error error) ↔
      ∃ node ∈ program.nodes, node.isUnnamedAccess = true) ∧
    ∀ core, Core.Program.ofSurface program = .ok core →
      ∃ linear, Linear.Program.ofCore core = .ok linear ∧ linear.checked = .ok linear ∧
        ((∃ error, Code.ofLinear linear = .error error) ↔
          (∃ node ∈ program.nodes, node.lacksInstruction = true) ∨
            ∃ body ∈ program.bodies, yieldsNothing body = true) := by
  refine ⟨?_, fun core reduced => ?_⟩
  · rw [exists_error_iff, ofSurface_succeeds_iff (Script.isKnown_of_surface parsed)]
    simp
  · obtain ⟨linear, ordered, checked, succeeds⟩ := ofLinear_succeeds_iff_hasCode reduced
    refine ⟨linear, ordered, checked, ?_⟩
    rw [exists_error_iff, succeeds, ← forall_program_iff, not_and_or]
    simp

/-- A function whose conditional has no other branch. -/
def missingBranch : String :=
  "def f(x) do\n  if x.size > 1 do\n    x\n  end\nend\n"

theorem missingBranch_only_emission_fails :
    ∃ program core linear, Script.surface missingBranch = .ok program ∧
      Core.Program.ofSurface program = .ok core ∧ Linear.Program.ofCore core = .ok linear ∧
      linear.checked = .ok linear ∧ ∃ error, Code.ofLinear linear = .error error := by
  have seen : (Script.surface missingBranch).map (fun program =>
      (program.nodes.any Expr.isUnnamedAccess, program.bodies.any yieldsNothing)) =
        .ok (false, true) := by
    decide +kernel
  cases parsed : Script.surface missingBranch with
  | error error =>
      rw [parsed] at seen
      cases seen
  | ok program =>
      rw [parsed] at seen
      obtain ⟨named, without⟩ := Prod.mk.inj (Except.ok.inj seen)
      obtain ⟨reductionFails, emissionFails⟩ := Script.exists_error_iff_of_surface parsed
      cases reduced : Core.Program.ofSurface program with
      | error error =>
          have unnamed := List.any_eq_true.mpr (reductionFails.mp ⟨error, reduced⟩)
          rw [named] at unnamed
          cases unnamed
      | ok core =>
          obtain ⟨linear, ordered, checked, fails⟩ := emissionFails core reduced
          exact ⟨program, core, linear, rfl, reduced, ordered, checked,
            fails.mpr (.inr (List.any_eq_true.mp without))⟩

end StackScript
