import StackScript.Proofs.Labels.Layout

/-!
# The instructions of laid out code

Layout adds instructions for every function and every conditional and one at the end of the
script.  All others it takes over as they are (`instructionsOf_assemble`).
-/

namespace StackScript.Code

/-- The instructions that lay out a function: they make a closure of it, bind its parameters
and return. -/
def functionInstructions (function : Site × List String) : List Instruction :=
  ⟨.close, .text function.1.label⟩ :: ⟨.returnValue, .nothing⟩ ::
    function.2.reverse.map fun parameter => ⟨.pop, symbolArgument parameter⟩

/-- The instructions that lay out a conditional: its jumps. -/
def branchInstructions (number : Int) : List Instruction :=
  [⟨.jumpIfFalse, .text (elseLabel number)⟩, ⟨.jump, .text (thenLabel number)⟩,
    ⟨.jump, .text (endLabel number)⟩]

/-- All instructions that layout adds. -/
def Structured.layoutInstructions (labelled : Labelled) : List Instruction :=
  (labelled.functions true).flatMap functionInstructions ++
    labelled.branches.flatMap branchInstructions

theorem instructionsOf_bindings (parameters : List String) :
    instructionsOf (bindings parameters) =
      parameters.reverse.map fun parameter => ⟨.pop, symbolArgument parameter⟩ := by
  simp [instructionsOf, bindings, List.filterMap_map, Function.comp_def, Entry.of,
    Entry.instruction?]

theorem count_instructionsOf_branching (number : Int) (onTrue onFalse : List Entry)
    (content : Instruction) :
    (instructionsOf (branching number [] onTrue onFalse)).count content =
      (branchInstructions number).count content + (instructionsOf onTrue).count content +
        (instructionsOf onFalse).count content := by
  simp [branching, branchInstructions, List.count_append, List.count_cons]
  omega

theorem count_instructionsOf_block (site : Site) (parameters : List String) (body : List Entry)
    (content : Instruction) :
    (instructionsOf (Block.entries ⟨site, parameters, body⟩)).count content +
        [⟨.close, .text site.label⟩].count content =
      (functionInstructions (site, parameters)).count content +
        (instructionsOf body).count content := by
  simp only [Block.entries_eq, functionInstructions, instructionsOf_label, instructionsOf_append,
    instructionsOf_bindings, instructionsOf_of, instructionsOf_nil, List.count_append,
    List.count_cons, List.count_nil]
  omega

/-- Laid out code has the instructions of its structured code and those of the layout. -/
theorem instructionsOf_layout (labelled : Labelled) :
    (instructionsOf labelled.blockEntries ++ instructionsOf labelled.code).Perm
      (labelled.instructions ++ labelled.layoutInstructions) := by
  rw [List.perm_iff_count]
  intro content
  induction labelled with
  | done => rfl
  | instruction other rest ih =>
      simp only [Structured.blockEntries_instruction, Structured.code, Structured.instructions,
        Structured.layoutInstructions, Structured.functions, Structured.branches,
        instructionsOf_instruction, List.count_append, List.count_cons] at ih ⊢
      omega
  | function site parameters body rest bodyIH restIH =>
      have blockCount := count_instructionsOf_block site parameters body.code content
      simp only [Structured.blockEntries_function, Structured.code, Structured.instructions,
        Structured.layoutInstructions, Structured.functions, Structured.branches, withInner,
        if_true, instructionsOf_append, instructionsOf_of, List.flatMap_append, List.flatMap_cons,
        List.cons_append, List.count_append, List.count_cons, List.count_nil]
        at blockCount bodyIH restIH ⊢
      omega
  | branch number onTrue onFalse rest trueIH falseIH restIH =>
      have branchCount := count_instructionsOf_branching number onTrue.code onFalse.code content
      simp only [Structured.blockEntries_branch, Structured.code, Structured.instructions,
        Structured.layoutInstructions, Structured.functions, Structured.branches,
        instructionsOf_append, List.flatMap_append, List.flatMap_cons, List.count_append]
        at trueIH falseIH restIH branchCount ⊢
      omega

/-- The instructions of a script's code. -/
theorem instructionsOf_assemble (labelled : Labelled) :
    (instructionsOf (assemble labelled.fragment)).Perm
      (labelled.instructions ++ (labelled.layoutInstructions ++ [⟨.halt, .nothing⟩])) := by
  rw [assemble_fragment, instructionsOf_append, instructionsOf_label, instructionsOf_append,
    ← List.append_assoc, ← List.append_assoc]
  exact (instructionsOf_layout labelled).append_right _

end StackScript.Code
