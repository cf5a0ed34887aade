import StackScript.Proofs.Acceptance.Nodes
import StackScript.Proofs.Flow.Shortened

/-!
# Which names the code binds

A name is bound by a `pop`.  The code of a script binds the names that are assigned to, the
names of functions and their parameters, besides the temporaries (`HasLabelled.pop_mem_iff`).
No assignment has a builtin as its target, but a function can have its name, and so can a
parameter.  Shortening keeps the `pop` of a name exactly if another instruction mentions it.
-/

namespace StackScript.Code

theorem symbolArgument_inj {name name' : String} :
    symbolArgument name = symbolArgument name' ↔ name = name' := by
  simp [symbolArgument, ← String.toList_inj]

end StackScript.Code

namespace StackScript.Surface

open StackScript.Code (Outline Opcode Argument Instruction symbolArgument symbolArgument_inj)

/-- The name that an assignment binds. -/
def Stmt.target? : Stmt → Option String
  | .assign target _ => some target
  | _ => none

/-- The names that are assigned to in bodies. -/
def assignedIn (bodies : List (List Stmt)) : List String :=
  bodies.flatten.filterMap Stmt.target?

@[simp] theorem assignedIn_nil : assignedIn [] = [] := rfl

@[simp] theorem assignedIn_cons (body : List Stmt) (bodies : List (List Stmt)) :
    assignedIn (body :: bodies) = body.filterMap Stmt.target? ++ assignedIn bodies := by
  simp [assignedIn]

@[simp] theorem assignedIn_append (first second : List (List Stmt)) :
    assignedIn (first ++ second) = assignedIn first ++ assignedIn second := by
  simp [assignedIn]

/-- The names that are assigned to in a script. -/
def Program.assigned (program : Program) : List String :=
  assignedIn (program.statements :: program.bodies)

/-- An outline binds a name exactly if the name is assigned to or belongs to a function. -/
def Binds (name : String) (outline : Outline) (assigned : List String) : Prop :=
  ⟨.pop, symbolArgument name⟩ ∈ outline.instructions ↔
    name ∈ assigned ∨ some name ∈ (outline.functions true).map Prod.fst

namespace Binds

variable {name : String} {first second : Outline} {assigned assigned' : List String}

theorem done : Binds name .done [] := by
  simp [Binds, Code.Structured.instructions, Code.Structured.functions]

theorem append (firstBinds : Binds name first assigned)
    (secondBinds : Binds name second assigned') :
    Binds name (first ++ second) (assigned ++ assigned') := by
  simp only [Binds, Code.Structured.instructions_append, Code.Structured.functions_append,
    List.map_append, List.mem_append] at firstBinds secondBinds ⊢
  rw [firstBinds, secondBinds, or_or_or_comm]

theorem congr (binds : Binds name first assigned) (same : name ∈ assigned ↔ name ∈ assigned') :
    Binds name first assigned' := by
  rwa [Binds, ← same]

/-- An instruction that does not bind the name. -/
theorem single {opcode : Opcode} {argument : Argument}
    (other : (⟨opcode, argument⟩ : Instruction) ≠ ⟨.pop, symbolArgument name⟩) :
    Binds name (.single opcode argument) [] := by
  simp [Binds, Code.Structured.functions, Code.Structured.single, Code.Structured.instructions,
    other.symm]

theorem andThen {opcode : Opcode} {argument : Argument} (binds : Binds name first assigned)
    (other : (⟨opcode, argument⟩ : Instruction) ≠ ⟨.pop, symbolArgument name⟩) :
    Binds name (first ++ .single opcode argument) assigned := by
  simpa using binds.append (single other)

theorem pushSymbol (pushed : String) : Binds name (pushSymbol pushed) [] :=
  single nofun

theorem branch {third : Outline} {assigned'' : List String}
    (conditionBinds : Binds name first assigned) (trueBinds : Binds name second assigned')
    (falseBinds : Binds name third assigned'') :
    Binds name (first ++ .branch () second third .done)
      (assigned ++ (assigned' ++ assigned'')) := by
  refine conditionBinds.append ?_
  simpa [Binds, Code.Structured.instructions, Code.Structured.functions] using
    trueBinds.append falseBinds

/-- A temporary is no name of a script. -/
theorem temporaryName_ne (noDollar : '$' ∉ name.toList) (counter : Int) :
    name ≠ Linear.temporaryName counter := by
  rintro rfl
  simp [Linear.temporaryName] at noDollar

/-- The instructions around a function bind a temporary only. -/
theorem pop_mem_pushFunction (noDollar : '$' ∉ name.toList) {name? : Option String}
    {parameters : List String} {counter : Int} :
    ⟨.pop, symbolArgument name⟩ ∈ (pushFunction name? parameters first counter).instructions ↔
      ⟨.pop, symbolArgument name⟩ ∈ first.instructions := by
  have notTemporary := temporaryName_ne noDollar counter
  simp [Surface.pushFunction, Code.Structured.instructions, symbolArgument_inj, notTemporary]

theorem lambda (noDollar : '$' ∉ name.toList) {parameters : List String} {counter : Int}
    (binds : Binds name first assigned) :
    Binds name (pushFunction none parameters first counter) assigned := by
  rw [Binds] at binds ⊢
  rw [pop_mem_pushFunction noDollar, functions_pushFunction, binds]
  simp [Code.withInner]

/-- The definition of a function binds its name. -/
theorem define (noDollar : '$' ∉ name.toList) {given : String} {parameters : List String}
    {counter : Int} (binds : Binds name first assigned) :
    Binds name (pushFunction (some given) parameters first counter ++
      .single .pop (symbolArgument given)) assigned := by
  have noFunctions :
      (Code.Structured.single .pop (symbolArgument given) : Outline).functions true = [] := rfl
  rw [Binds] at binds ⊢
  rw [Code.Structured.instructions_append, List.mem_append, pop_mem_pushFunction noDollar,
    binds, Code.Structured.functions_append, functions_pushFunction, noFunctions]
  simp only [Code.Structured.instructions_single, List.mem_cons, List.not_mem_nil, or_false,
    Instruction.mk.injEq, true_and, symbolArgument_inj, Code.withInner, if_true, List.append_nil,
    List.map_cons, Option.some.injEq]
  rw [or_assoc, or_comm (a := some name ∈ _)]

end Binds

/-- The outline of an expression binds what is assigned to in it. -/
def BindsExpr (name : String) (expression : Expr) : Prop :=
  ∀ {counter after : Int} {outline : Outline},
    outlineExpr counter expression = some (outline, after) →
      Binds name outline (assignedIn expression.bodies)

def BindsStmt (name : String) (statement : Stmt) : Prop :=
  ∀ {counter after : Int} {outline : Outline},
    outlineStmt counter statement = some (outline, after) →
      Binds name outline (assignedIn ([statement] :: statement.bodies))

section Forms

variable {name : String} {counter after : Int} {outline : Outline}

theorem binds_outlineExprs {expressions : List Expr}
    (binds : ∀ expression ∈ expressions, BindsExpr name expression)
    (found : outlineExprs counter expressions = some (outline, after)) :
    Binds name outline (assignedIn (exprsBodies expressions)) := by
  induction expressions generalizing counter outline with
  | nil =>
      cases found
      exact Binds.done
  | cons expression rest ih =>
      obtain ⟨bindsFirst, bindsRest⟩ := List.forall_mem_cons.mp binds
      obtain ⟨_, _, _, firstFound, restFound, rfl⟩ := outlineExprs_cons found
      rw [exprsBodies, assignedIn_append]
      exact (bindsFirst firstFound).append (ih bindsRest restFound)

theorem binds_outlineFields {fields : List (String × Expr)}
    (binds : ∀ field ∈ fields, BindsExpr name field.2)
    (found : outlineFields counter fields = some (outline, after)) :
    Binds name outline (assignedIn (fieldsBodies fields)) := by
  induction fields generalizing counter outline with
  | nil =>
      cases found
      exact Binds.done
  | cons field rest ih =>
      obtain ⟨bindsFirst, bindsRest⟩ := List.forall_mem_cons.mp binds
      obtain ⟨_, _, _, firstFound, restFound, rfl⟩ := outlineFields_cons found
      rw [fieldsBodies, assignedIn_append, ← Code.Structured.append_assoc]
      have pushed : Binds name (.single .pushSymbol (symbolArgument field.1)) [] :=
        Binds.single nofun
      have bindsField := (bindsFirst firstFound).append pushed
      rw [List.append_nil] at bindsField
      exact bindsField.append (ih bindsRest restFound)

/-- What is assigned to by statements and in them. -/
theorem mem_assignedIn_stmts_cons {statement : Stmt} {rest : List Stmt} :
    name ∈ assignedIn ([statement] :: statement.bodies) ++
        assignedIn (rest :: stmtsBodies rest) ↔
      name ∈ assignedIn ((statement :: rest) :: stmtsBodies (statement :: rest)) := by
  have together : (statement :: rest).filterMap Stmt.target? =
      [statement].filterMap Stmt.target? ++ rest.filterMap Stmt.target? :=
    List.filterMap_append (l := [statement])
  simp only [assignedIn_cons, assignedIn_append, stmtsBodies, together, List.mem_append]
  rw [or_or_or_comm]

theorem binds_outlineStmts {statements : List Stmt}
    (binds : ∀ statement ∈ statements, BindsStmt name statement)
    (found : outlineStmts counter statements = some (outline, after)) :
    Binds name outline (assignedIn (statements :: stmtsBodies statements)) := by
  induction statements generalizing counter outline with
  | nil =>
      cases found
      exact Binds.done
  | cons statement rest ih =>
      obtain ⟨bindsFirst, bindsRest⟩ := List.forall_mem_cons.mp binds
      obtain ⟨_, _, _, firstFound, restFound, rfl⟩ := outlineStmts_cons found
      exact ((bindsFirst firstFound).append (ih bindsRest restFound)).congr
        mem_assignedIn_stmts_cons

theorem binds_outlineBody {statements : List Stmt}
    (body : OnBody (BindsExpr name) (BindsStmt name) statements)
    (found : outlineBody counter statements = some (outline, after)) :
    Binds name outline (assignedIn (statements :: stmtsBodies statements)) := by
  induction statements generalizing counter outline with
  | nil => cases found
  | cons statement rest ih =>
      rcases outlineBody_cons found with ⟨rfl, expression, rfl, valueFound⟩ |
        ⟨_, _, _, _, firstFound, restFound, rfl⟩
      · have binds := body.values expression List.mem_cons_self valueFound
        rwa [stmtsBodies, stmtsBodies, List.append_nil, assignedIn_cons]
      · exact ((body.head firstFound).append (ih body.tail restFound)).congr
          mem_assignedIn_stmts_cons

theorem bindsExpr_binary (position : Position) (level : Level) (operator : String)
    (left right : Expr) (bindsLeft : BindsExpr name left) (bindsRight : BindsExpr name right) :
    BindsExpr name (.binary position level operator left right) := by
  intro counter after outline found
  rw [Expr.bodies, assignedIn_append]
  obtain ⟨_, _, leftFound, ⟨_, _, rightFound, rfl⟩ | ⟨_, _, rightFound, rfl⟩ |
    ⟨_, field, named, _, rfl⟩ | ⟨_, _, _, _, _, _, rightFound, rfl⟩⟩ := outlineExpr_binary found
  · simpa using (bindsLeft leftFound).branch (bindsRight rightFound) (Binds.pushSymbol "false")
  · exact (bindsLeft leftFound).branch (Binds.pushSymbol "true") (bindsRight rightFound)
  · have noBodies : right.bodies = [] := by
      cases right with
      | symbol _ _ | misplaced _ _ => rfl
      | _ => cases named
    rw [noBodies, assignedIn_nil, List.append_nil]
    have pushed : Binds name (.single .pushText (Code.textArgument field)) [] := Binds.single nofun
    have accessed := ((bindsLeft leftFound).append pushed).append (Binds.pushSymbol "__field__")
    rw [List.append_nil, List.append_nil] at accessed
    exact accessed.andThen nofun
  · exact ((bindsLeft leftFound).append (bindsRight rightFound)).andThen nofun

end Forms

/-- What is bound in a tree is bound by its own node or in its parts. -/
theorem treeStep_binds {name : String} (noDollar : '$' ∉ name.toList) :
    TreeStep (BindsExpr name) (BindsStmt name) where
  integer value counter after outline found := by
    cases found
    exact Binds.single nofun
  text content counter after outline found := by
    cases found
    exact Binds.single nofun
  symbol position pushed counter after outline found := by
    cases found
    exact Binds.pushSymbol pushed
  negation position operand binds counter after outline found := by
    obtain ⟨_, operandFound, rfl⟩ := outlineExpr_negation found
    exact (binds operandFound).andThen nofun
  binary := bindsExpr_binary
  list items binds counter after outline found := by
    obtain ⟨_, itemsFound, rfl⟩ := outlineExpr_list found
    exact (binds_outlineExprs binds itemsFound).andThen nofun
  record fields binds counter after outline found := by
    obtain ⟨_, fieldsFound, rfl⟩ := outlineExpr_record found
    exact (binds_outlineFields binds fieldsFound).andThen nofun
  item position subject index _ _ counter after outline found := by cases found
  call position function arguments bindsFunction bindsArguments counter after outline found := by
    obtain ⟨_, _, _, argumentsFound, functionFound, rfl⟩ := outlineExpr_call found
    have parts := (binds_outlineExprs bindsArguments argumentsFound).append
      (bindsFunction functionFound)
    rw [Expr.bodies, assignedIn_append]
    exact (parts.congr List.perm_append_comm.mem_iff).andThen nofun
  lambda parameters body binds counter after outline found := by
    obtain ⟨_, _, bodyFound, rfl, _⟩ := outlineExpr_lambda found
    exact (binds_outlineBody binds bodyFound).lambda noDollar
  conditional condition onTrue onFalse bindsCondition bindsTrue bindsFalse counter after outline
      found := by
    obtain ⟨_, _, _, _, _, conditionFound, trueFound, falseFound, rfl⟩ :=
      outlineExpr_conditional found
    rw [Expr.bodies, assignedIn_append, List.cons_append, ← List.cons_append, assignedIn_append]
    exact (bindsCondition conditionFound).branch (binds_outlineBody bindsTrue trueFound)
      (binds_outlineBody bindsFalse falseFound)
  misplacedExpr form name? counter after outline found := by cases found
  assign target value binds counter after outline found := by
    obtain ⟨inner, valueFound, rfl⟩ := outlineStmt_assign found
    have noFunctions :
        (Code.Structured.single .pop (symbolArgument target) : Outline).functions true = [] := rfl
    have bound : Binds name (.single .pop (symbolArgument target)) [target] := by
      simp [Binds, symbolArgument_inj, noFunctions]
    refine ((binds valueFound).append bound).congr ?_
    rw [List.perm_append_comm.mem_iff]
    rfl
  evaluate expression binds counter after outline found := by
    obtain ⟨_, valueFound, rfl⟩ := outlineStmt_evaluate found
    exact (binds valueFound).andThen nofun
  define given parameters body binds counter after outline found := by
    obtain ⟨_, _, bodyFound, rfl, _⟩ := outlineStmt_define found
    exact (binds_outlineBody binds bodyFound).define noDollar
  misplacedStmt form counter after outline found := by cases found

/-- The outline of a script binds the names that are assigned to and the names of functions. -/
theorem binds_outline {name : String} (noDollar : '$' ∉ name.toList) {program : Program}
    {outline : Outline} (found : program.outline = some outline) :
    Binds name outline program.assigned := by
  obtain ⟨⟨_, after⟩, stmtsFound, rfl⟩ := Option.map_eq_some_iff.mp found
  exact binds_outlineStmts ((treeStep_binds noDollar).body program.statements).statements
    stmtsFound

end StackScript.Surface

namespace StackScript.Code

/-! ## Layout and shortening -/

theorem mem_instructionsOf_iff {entries : List Entry} {content : Instruction} :
    content ∈ instructionsOf entries ↔ .instruction content ∈ entries := by
  rw [instructionsOf, List.mem_filterMap]
  constructor
  · rintro ⟨entry, member, isContent⟩
    cases entry with
    | label name => cases isContent
    | instruction other =>
        cases isContent
        exact member
  · intro member
    exact ⟨_, member, rfl⟩

theorem pop_mem_bindings {parameters : List String} {name : String} :
    ⟨.pop, symbolArgument name⟩ ∈ instructionsOf (bindings parameters) ↔ name ∈ parameters := by
  have contents : instructionsOf (bindings parameters) =
      parameters.reverse.map fun parameter => ⟨.pop, symbolArgument parameter⟩ := by
    simp [instructionsOf, bindings, List.filterMap_map, Function.comp_def, Entry.of,
      Entry.instruction?]
  simp [contents, symbolArgument_inj]

/-- Layout adds the bindings of parameters. -/
theorem Structured.pop_mem_layout {labelled : Labelled} {name : String} :
    ⟨.pop, symbolArgument name⟩ ∈ instructionsOf labelled.blockEntries ∨
        ⟨.pop, symbolArgument name⟩ ∈ instructionsOf labelled.code ↔
      ⟨.pop, symbolArgument name⟩ ∈ labelled.instructions ∨
        ∃ function ∈ labelled.functions true, name ∈ function.2 := by
  induction labelled with
  | done => simp [blockEntries, blocks, code, instructions, functions]
  | instruction content rest ih =>
      simp only [blockEntries_instruction, code, instructions, functions,
        instructionsOf_instruction, List.mem_cons]
      rw [or_left_comm, ih, or_assoc]
  | function site parameters body rest bodyIH restIH =>
      simp only [blockEntries_function, code, instructions, functions, withInner, if_true,
        Block.entries_eq, instructionsOf_append, instructionsOf_label, instructionsOf_of,
        instructionsOf_nil, List.mem_append, List.mem_cons, pop_mem_bindings, or_and_right,
        exists_or, exists_eq_left]
      have notClose : (⟨.pop, symbolArgument name⟩ : Instruction) ≠ ⟨.close, .text site.label⟩ := by
        simp
      have notReturn : (⟨.pop, symbolArgument name⟩ : Instruction) ≠ ⟨.returnValue, .nothing⟩ := by
        simp
      simp only [notClose, notReturn, List.not_mem_nil, or_false, false_or]
      grind only
  | branch number onTrue onFalse rest trueIH falseIH restIH =>
      simp only [blockEntries_branch, code, instructions, functions, branching,
        instructionsOf_append, instructionsOf_label, instructionsOf_of, instructionsOf_nil,
        List.mem_append, List.mem_cons, or_and_right, exists_or]
      simp only [Instruction.mk.injEq, reduceCtorEq, false_and, List.not_mem_nil, or_false,
        false_or]
      grind only

theorem pop_mem_assemble {labelled : Labelled} {name : String} :
    ⟨.pop, symbolArgument name⟩ ∈ instructionsOf (assemble labelled.fragment) ↔
      ⟨.pop, symbolArgument name⟩ ∈ labelled.instructions ∨
        ∃ function ∈ labelled.functions true, name ∈ function.2 := by
  rw [← Structured.pop_mem_layout, assemble_fragment]
  simp

/-- What shortening makes of an instruction mentions a name only if it is the instruction
itself, and not the `pop` of a name that is not used. -/
theorem dropInstruction_eq_iff {used : List Argument} {content : Instruction} {opcode : Opcode}
    {name : String} :
    dropInstruction used content = ⟨opcode, symbolArgument name⟩ ↔
      content = ⟨opcode, symbolArgument name⟩ ∧ (opcode = .pop → symbolArgument name ∈ used) := by
  rw [dropInstruction]
  split
  · rename_i unused
    apply iff_of_false
    · simp [symbolArgument]
    · rintro ⟨rfl, isUsed⟩
      exact unused.2 (isUsed unused.1)
  · rename_i kept
    refine (and_iff_left_of_imp ?_).symm
    rintro rfl isPop
    exact not_not.mp fun unused => kept ⟨isPop, unused⟩

theorem mem_optimize_iff {entries : List Entry} {opcode : Opcode} {name : String} :
    ⟨opcode, symbolArgument name⟩ ∈ instructionsOf (optimize entries) ↔
      ⟨opcode, symbolArgument name⟩ ∈ instructionsOf (removePushDrop entries) ∧
        (opcode = .pop → IsUsed entries name) := by
  rw [instructionsOf_optimize, List.mem_map]
  simp only [dropInstruction_eq_iff, ← and_assoc, exists_and_right, exists_eq_right]
  rfl

/-- A name is used if an instruction that does not bind it mentions it. -/
theorem isUsed_iff {entries : List Entry} {name : String} :
    IsUsed entries name ↔ ∃ opcode, opcode ≠ .pop ∧
      ⟨opcode, symbolArgument name⟩ ∈ instructionsOf (removePushDrop entries) := by
  simp only [IsUsed, usedSymbols, instructionsOf, List.mem_filterMap]
  constructor
  · rintro ⟨entry, member, uses⟩
    unfold usedSymbol? at uses
    split at uses
    · rename_i opcode content
      split at uses
      · rename_i both
        cases uses
        simp only [ne_eq, Bool.and_eq_true, decide_eq_true_eq] at both
        exact ⟨opcode, both.1, _, member, rfl⟩
      · cases uses
    · cases uses
  · rintro ⟨opcode, notPop, entry, member, isContent⟩
    cases entry with
    | label other => cases isContent
    | instruction content =>
        cases isContent
        refine ⟨_, member, ?_⟩
        simp [usedSymbol?, symbolArgument, notPop]

/-- Shortening keeps a binding exactly if another instruction mentions the name. -/
theorem pop_mem_optimize {entries : List Entry} {name : String} :
    ⟨.pop, symbolArgument name⟩ ∈ instructionsOf (optimize entries) ↔
      ⟨.pop, symbolArgument name⟩ ∈ instructionsOf entries ∧
        ∃ opcode, opcode ≠ .pop ∧
          ⟨opcode, symbolArgument name⟩ ∈ instructionsOf (optimize entries) := by
  rw [mem_optimize_iff, mem_removePushDrop_iff (by simp) (by simp), isUsed_iff]
  refine and_congr_right fun _ => ?_
  rw [imp_iff_right rfl]
  refine exists_congr fun opcode => and_congr_right fun notPop => ?_
  rw [mem_optimize_iff]
  exact (and_iff_left fun isPop => absurd isPop notPop).symm

end StackScript.Code

namespace StackScript.Script

open StackScript.Code (Entry instructionsOf optimize symbolArgument)
open StackScript.Grammar (builtinNames)

/-- The code of a script binds the names that are assigned to, the names of functions and
their parameters. -/
theorem HasLabelled.pop_mem_iff {script : String} {program : Surface.Program}
    {labelled : Code.Labelled} (has : HasLabelled script program labelled) {name : String}
    (noDollar : '$' ∉ name.toList) :
    ⟨.pop, symbolArgument name⟩ ∈ instructionsOf (Code.assemble labelled.fragment) ↔
      name ∈ program.assigned ∨
        ∃ function ∈ program.functions true, function.1 = some name ∨ name ∈ function.2 := by
  have binds := Surface.binds_outline noDollar has.outlined
  have parameters : (∃ function ∈ labelled.functions true, name ∈ function.2) ↔
      ∃ function ∈ program.functions true, name ∈ function.2 := by
    simp only [← has.functions_eq true, List.mem_map, exists_exists_and_eq_and]
  rw [Surface.Binds, Surface.functions_outline has.outlined, Code.Structured.outline,
    Code.Structured.instructions_mapMarks] at binds
  rw [Code.pop_mem_assemble, binds, parameters, or_assoc]
  simp only [List.mem_map, and_or_left, exists_or]

/-- No builtin is assigned to, in any body of a script. -/
theorem builtin_notMem_assigned {script : String} {program : Surface.Program}
    (parsed : Script.surface script = .ok program) {name : String}
    (isBuiltin : name ∈ builtinNames) : name ∉ program.assigned := by
  have known := isKnown_of_surface parsed
  have inBodies := (Surface.forall_program_iff.mpr fun statement member =>
    (known statement member).2).2
  intro member
  obtain ⟨statement, inSome, isTarget⟩ := List.mem_filterMap.mp member
  have isKnown : statement.IsKnown := by
    obtain ⟨body, isBody, inBody⟩ := List.mem_flatten.mp inSome
    rcases List.mem_cons.mp isBody with rfl | isInner
    · exact (known statement inBody).1
    · exact inBodies body isInner statement inBody
  cases statement with
  | assign target value =>
      cases isTarget
      exact isKnown isBuiltin
  | _ => cases isTarget

/-- The code of a script binds a builtin exactly if a function or a parameter has its name:
an assignment does not bind it.  The shortened code binds it exactly if another of its
instructions mentions it as well. -/
theorem binds_builtin_iff {script : String} {entries : List Entry}
    (generated : Script.code script = .ok entries) :
    ∃ program, Script.surface script = .ok program ∧
      Script.shortCode script = .ok (optimize entries) ∧
      ∀ name ∈ builtinNames,
        (Entry.of .pop (symbolArgument name) ∈ entries ↔
          ∃ function ∈ program.functions true, function.1 = some name ∨ name ∈ function.2) ∧
        (Entry.of .pop (symbolArgument name) ∈ optimize entries ↔
          (∃ function ∈ program.functions true, function.1 = some name ∨ name ∈ function.2) ∧
            ∃ opcode, opcode ≠ .pop ∧
              Entry.of opcode (symbolArgument name) ∈ optimize entries) := by
  rcases exists_hasLabelled generated with ⟨program, labelled, has, rfl⟩
  refine ⟨program, has.parsed, by rw [Script.shortCode, generated]; rfl, fun name isBuiltin => ?_⟩
  have noDollar : '$' ∉ name.toList := by
    revert name
    decide
  have inCode := has.pop_mem_iff noDollar
  rw [or_iff_right (builtin_notMem_assigned has.parsed isBuiltin)] at inCode
  simp only [Entry.of, ← Code.mem_instructionsOf_iff]
  exact ⟨inCode, by rw [Code.pop_mem_optimize, inCode]⟩

/-- A script with a parameter that has the name of a builtin, which the function uses. -/
def boundParameter : String :=
  "f = lambda(x, pow) do\n  if x < 2 do\n    x\n  else\n    pow(x, 2)\n  end\nend\nf(3, f)\n"

theorem boundParameter_binds_pow :
    ∃ entries, Script.code boundParameter = .ok entries ∧
      Entry.of .pop (symbolArgument "pow") ∈ entries ∧
      Entry.of .pop (symbolArgument "pow") ∈ optimize entries ∧
      Entry.of .pop (symbolArgument "print") ∉ entries := by
  have accepted : (Script.code boundParameter).isOk = true := by
    decide +kernel
  have seen : (Script.surface boundParameter).map (·.functions true) =
      .ok [(none, ["x", "pow"])] := by
    decide +kernel
  have mentioned : (Script.shortCode boundParameter).map
      (·.contains (Entry.of .push (symbolArgument "pow"))) = .ok true := by
    decide +kernel
  cases generated : Script.code boundParameter with
  | error error =>
      rw [generated] at accepted
      cases accepted
  | ok entries =>
      obtain ⟨program, parsed, shortened, binds⟩ := binds_builtin_iff generated
      rw [parsed] at seen
      rw [shortened] at mentioned
      have functions : program.functions true = [(none, ["x", "pow"])] := Except.ok.inj seen
      have pushed : Entry.of .push (symbolArgument "pow") ∈ optimize entries :=
        List.contains_iff_mem.mp (Except.ok.inj mentioned)
      simp only [functions] at binds
      obtain ⟨inCode, inShort⟩ := binds "pow" (by decide)
      exact ⟨entries, rfl, inCode.mpr (by simp), inShort.mpr ⟨by simp, .push, by simp, pushed⟩,
        mt (binds "print" (by decide)).1.mp (by simp)⟩

/-- The definition of a function can bind a builtin. -/
theorem definedPrint_bound :
    ∃ entries, Script.code "def print() do\n  1\nend\nprint()\n" = .ok entries ∧
      Entry.of .pop (symbolArgument "print") ∈ entries ∧
      Entry.of .pop (symbolArgument "print") ∈ optimize entries := by
  have bound : (Script.code "def print() do\n  1\nend\nprint()\n").map
      (fun entries => entries.contains (Entry.of .pop (symbolArgument "print")) &&
        (optimize entries).contains (Entry.of .pop (symbolArgument "print"))) = .ok true := by
    decide +kernel
  cases generated : Script.code "def print() do\n  1\nend\nprint()\n" with
  | error error =>
      rw [generated] at bound
      cases bound
  | ok entries =>
      rw [generated] at bound
      have both := Bool.and_eq_true_iff.mp (Except.ok.inj bound)
      exact ⟨entries, rfl, List.contains_iff_mem.mp both.1, List.contains_iff_mem.mp both.2⟩

end StackScript.Script
