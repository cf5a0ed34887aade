import StackScript.Proofs.Structured.OfSurface
import StackScript.Script

/-!
# The code of a script is structured

All passes together: the stack code of a script is the layout of structured code that
has the outline of the script's surface tree.
-/

namespace StackScript.Script

open StackScript.Code (Entry Labelled Tally Tallied Emits assemble emitSteps branchKey)

/-- The last pass: the code of steps is emitted from the tally that every script
starts with. -/
theorem emits_of_ofLinear {program : Linear.Program} {entries : List Entry}
    (generated : Code.ofLinear program = .ok entries) :
    ∃ fragment after, Emits (emitSteps program.steps) Tally.initial fragment after ∧
      entries = assemble fragment := by
  rcases outcome : Code.Emit.outcome (emitSteps program.steps) Tally.initial with
    ⟨error | fragment, after⟩
  · have run : (emitSteps program.steps).run Tally.initial = (Except.error error, after) :=
      outcome
    rw [Code.ofLinear, run] at generated
    cases generated
  · have run : (emitSteps program.steps).run Tally.initial = (Except.ok fragment, after) :=
      outcome
    rw [Code.ofLinear, run] at generated
    cases generated
    exact ⟨fragment, after, outcome, rfl⟩

theorem steps_of_checked {program placed : Linear.Program}
    (checked : program.checked = .ok placed) : placed = program := by
  unfold Linear.Program.checked at checked
  cases found : Linear.checkSteps program.steps with
  | error error =>
      rw [found] at checked
      cases checked
  | ok _ =>
      rw [found] at checked
      cases checked
      rfl

/-- The stack code of a script that has been read. -/
def codeOf (program : Surface.Program) : Except Error (List Entry) := do
  let core ← Core.Program.ofSurface program
  let linear ← Linear.Program.ofCore core
  let placed ← linear.checked
  Code.ofLinear placed

/-- A script has code if it can be read and what was read has code. -/
theorem code_eq_ok_iff {script : String} {entries : List Entry} :
    Script.code script = .ok entries ↔
      ∃ program, Script.surface script = .ok program ∧ codeOf program = .ok entries := by
  simp only [Script.code, Script.placed, Script.linear, Script.core, codeOf, except_bind_eq_ok]
  constructor
  · rintro ⟨placed, ⟨linear, ⟨core, ⟨program, parsed, reduced⟩, ordered⟩, checked⟩, emitted⟩
    exact ⟨program, parsed, core, reduced, linear, ordered, placed, checked, emitted⟩
  · rintro ⟨program, parsed, core, reduced, linear, ordered, placed, checked, emitted⟩
    exact ⟨placed, ⟨linear, ⟨core, ⟨program, parsed, reduced⟩, ordered⟩, checked⟩, emitted⟩

/-- The code of a tree is the layout of structured code that has the outline of the
tree. -/
theorem codeOf_structured {program : Surface.Program} {entries : List Entry}
    (generated : codeOf program = .ok entries) :
    ∃ (labelled : Labelled) (after : Tally), program.outline = some labelled.outline ∧
      entries = assemble labelled.fragment ∧
      (branchKey ∉ labelled.names → Tallied Tally.initial labelled after) := by
  rcases except_bind_eq_ok.mp generated with ⟨core, reduced, generated⟩
  rcases except_bind_eq_ok.mp generated with ⟨linear, ordered, generated⟩
  rcases except_bind_eq_ok.mp generated with ⟨placed, checked, emitted⟩
  cases steps_of_checked checked
  rcases except_bind_eq_ok.mp reduced with ⟨statements, reduces, sameCore⟩
  cases sameCore
  rcases except_bind_eq_ok.mp ordered with ⟨⟨counter, steps⟩, orders, sameLinear⟩
  cases sameLinear
  rcases emits_of_ofLinear emitted with ⟨fragment, after, emits, rfl⟩
  rcases Code.emitSteps_structured steps emits with ⟨labelled, rfl, outlined, tallied⟩
  refine ⟨labelled, after, ?_, rfl, tallied⟩
  have keeps := (Surface.treeStep_keeps.body program.statements).statements
  rw [Surface.Program.outline, Surface.outlineStmts_of_ordered keeps reduces orders outlined]
  rfl

/-- The code of a script is the layout of structured code that has the outline of
the script. -/
theorem code_structured {script : String} {entries : List Entry}
    (generated : Script.code script = .ok entries) :
    ∃ program, Script.surface script = .ok program ∧
      ∃ (labelled : Labelled) (after : Tally), program.outline = some labelled.outline ∧
        entries = assemble labelled.fragment ∧
        (branchKey ∉ labelled.names → Tallied Tally.initial labelled after) := by
  rcases code_eq_ok_iff.mp generated with ⟨program, parsed, generated⟩
  exact ⟨program, parsed, codeOf_structured generated⟩

end StackScript.Script
