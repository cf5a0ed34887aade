import StackScript.Proofs.Depth.Discipline

/-!
# Discipline of shortened code

Removing a `push` and its `drop` keeps the depth at the points around them, and a `drop`
takes from the stack what the `pop` in its place took.  So the depths for the points of
disciplined code are depths for the points of the shortened code (`Disciplined.optimize`).
-/

namespace StackScript.Code

/-- A `push` and the `drop` after it keep the depth. -/
def KeepsPairs (entries : List Entry) (depth : Nat → Nat) : Prop :=
  ∀ (point : Nat) (first second : Argument),
    (instructionsOf entries)[point]? = some ⟨.push, first⟩ →
      (instructionsOf entries)[point + 1]? = some ⟨.drop, second⟩ → depth (point + 2) = depth point

/-- Depths that pairs keep can be given to the new points. -/
theorem exists_newDepth {entries : List Entry} {depth : Nat → Nat}
    (keeps : KeepsPairs entries depth) :
    ∃ newDepth : Nat → Nat, ∀ point newPoint, newPoint? entries point = some newPoint →
      newDepth newPoint = depth point := by
  induction entries using removal_induction generalizing depth with
  | nil =>
      refine ⟨fun _ => depth 0, ?_⟩
      intro point newPoint corresponds
      cases point with
      | zero => rfl
      | succ point => cases corresponds
  | pair first second rest ih =>
      have restKeeps : KeepsPairs rest (fun point => depth (point + 2)) :=
        fun point => keeps (point + 2)
      rcases ih restKeeps with ⟨newDepth, restCorresponds⟩
      refine ⟨newDepth, ?_⟩
      intro point newPoint corresponds
      rw [newPoint?_pair] at corresponds
      rcases point with _ | _ | point
      · exact (restCorresponds 0 newPoint corresponds).trans (keeps 0 first second rfl rfl)
      · cases corresponds
      · exact restCorresponds point newPoint corresponds
  | kept entry rest kept ih =>
      rw [newPoint?_cons kept]
      cases entry with
      | label name => exact ih keeps
      | instruction content =>
          have restKeeps : KeepsPairs rest (fun point => depth (point + 1)) :=
            fun point => keeps (point + 1)
          rcases ih restKeeps with ⟨newDepth, restCorresponds⟩
          refine ⟨fun point => if point = 0 then depth 0 else newDepth (point - 1), ?_⟩
          intro point newPoint corresponds
          cases point with
          | zero =>
              cases corresponds
              rfl
          | succ point =>
              rcases Option.map_eq_some_iff.mp corresponds with ⟨later, found, rfl⟩
              exact restCorresponds point later found

section Remaining

variable {entries : List Entry}

/-- Behind all removed pairs there is a point with the same new number. -/
theorem exists_past_pairs {point newPoint : Nat}
    (corresponds : newPoint? entries point = some newPoint) :
    ∃ last, newPoint? entries last = some newPoint ∧ ¬ RemovedAt entries last newPoint := by
  induction room : (instructionsOf entries).length - point using Nat.strongRecOn
    generalizing point with
  | ind room ih =>
      by_cases removed : RemovedAt entries point newPoint
      · rcases removed with ⟨_, _, pushAt, _, further⟩
        have inside := (List.getElem?_eq_some_iff.mp pushAt).1
        exact ih _ (by omega) further rfl
      · exact ⟨point, corresponds, removed⟩

/-- A point of the shortened code has an instruction that remains, if it has one. -/
theorem exists_remainsAt_of_corresponds {point newPoint : Nat}
    (corresponds : newPoint? entries point = some newPoint)
    (inside : newPoint < size (optimize entries)) :
    ∃ last content, newPoint? entries last = some newPoint ∧
      RemainsAt entries last newPoint content := by
  rcases exists_past_pairs corresponds with ⟨last, lastCorresponds, passed⟩
  rcases optimize_fetch lastCorresponds with removed | ⟨content, remains⟩ | ⟨_, ends⟩
  · exact absurd removed passed
  · exact ⟨last, content, lastCorresponds, remains⟩
  · rw [List.getElem?_eq_none_iff] at ends
    exact absurd inside (Nat.not_lt_of_le ends)

/-- Every instruction of the shortened code remains from one of the code. -/
theorem exists_remainsAt {newPoint : Nat} (inside : newPoint < size (optimize entries)) :
    ∃ point content, newPoint? entries point = some newPoint ∧
      RemainsAt entries point newPoint content := by
  induction newPoint with
  | zero => exact exists_remainsAt_of_corresponds (newPoint?_zero entries) inside
  | succ newPoint ih =>
      rcases ih (Nat.lt_of_succ_lt inside) with ⟨point, content, _, remains⟩
      exact exists_remainsAt_of_corresponds remains.next inside

end Remaining

/-- A label at a point of the code, and the same label at the point that corresponds.
Points of the code are counted from one number, and points of the shortened code from
another. -/
def SamePlace (entries : List Entry) (number newNumber : Nat) (place newPlace : String × Nat) :
    Prop :=
  place.1 = newPlace.1 ∧ ∃ point newPoint, place.2 = number + point ∧
    newPlace.2 = newNumber + newPoint ∧ newPoint? entries point = some newPoint

theorem labelPoints_removePushDrop (entries : List Entry) (number newNumber : Nat) :
    List.Forall₂ (SamePlace entries number newNumber) (labelPoints number entries)
      (labelPoints newNumber (removePushDrop entries)) := by
  induction entries using removal_induction generalizing number newNumber with
  | nil => exact .nil
  | pair first second rest ih =>
      rw [removePushDrop_pair rfl]
      apply (ih (number + 2) newNumber).imp
      intro place newPlace same
      rcases same with ⟨label, point, newPoint, isAt, isNewAt, corresponds⟩
      refine ⟨label, point + 2, newPoint, by omega, isNewAt, ?_⟩
      rw [newPoint?_pair]
      exact corresponds
  | kept entry rest kept ih =>
      rw [removePushDrop_cons kept]
      cases entry with
      | label name =>
          have restSame : ∀ place newPlace, SamePlace rest number newNumber place newPlace →
              SamePlace (.label name :: rest) number newNumber place newPlace := by
            intro place newPlace same
            rw [SamePlace, newPoint?_cons kept]
            exact same
          refine .cons ?_ ((ih number newNumber).imp restSame)
          exact ⟨rfl, 0, 0, rfl, rfl, newPoint?_zero _⟩
      | instruction content =>
          apply (ih (number + 1) (newNumber + 1)).imp
          intro place newPlace same
          rcases same with ⟨label, point, newPoint, isAt, isNewAt, corresponds⟩
          refine ⟨label, point + 1, newPoint + 1, by omega, by omega, ?_⟩
          rw [newPoint?_cons kept, keptPoint, corresponds]
          rfl

theorem labelPoints_dropIfUnused (used : List Argument) (entries : List Entry) (number : Nat) :
    labelPoints number (entries.map (dropIfUnused used)) = labelPoints number entries := by
  induction entries generalizing number with
  | nil => rfl
  | cons entry rest ih =>
      cases entry with
      | label name =>
          rw [List.map_cons, dropIfUnused, labelPoints, labelPoints, ih]
          simp
      | instruction content =>
          rw [List.map_cons, dropIfUnused_instruction, labelPoints, labelPoints, ih]

theorem closedLabels_removePushDrop (entries : List Entry) :
    closedLabels (removePushDrop entries) = closedLabels entries := by
  induction entries using removal_induction with
  | nil => rfl
  | pair first second rest ih =>
      rw [removePushDrop_pair rfl, ih]
      rfl
  | kept entry rest kept ih =>
      have parts : ∀ later, closedLabels (entry :: later) =
          closedLabels [entry] ++ closedLabels later := closedLabels_append [entry]
      rw [removePushDrop_cons kept, parts (removePushDrop rest), parts rest, ih]

/-- What holds of a `drop` as of every `pop` holds of an instruction as of the one in its
place. -/
theorem view_dropInstruction {α : Type} (view : Instruction → α)
    (same : ∀ argument, view ⟨.drop, .nothing⟩ = view ⟨.pop, argument⟩) (used : List Argument)
    (content : Instruction) : view (dropInstruction used content) = view content := by
  rw [dropInstruction]
  split
  · rename_i unused
    rcases content with ⟨opcode, argument⟩
    cases unused.1
    exact same argument
  · rfl

/-- Shortened code closes over the same labels. -/
theorem closedLabels_optimize (entries : List Entry) :
    closedLabels (optimize entries) = closedLabels entries := by
  have mapped : closedLabels (optimize entries) = closedLabels (removePushDrop entries) := by
    rw [closedLabels, instructionsOf_optimize, List.filterMap_map]
    exact congrArg (fun closed => List.filterMap closed _)
      (funext (view_dropInstruction Instruction.closed? (fun _ => rfl) _))
  rw [mapped, closedLabels_removePushDrop]

/-- Functions start at corresponding points. -/
theorem functionPoints_optimize (entries : List Entry) :
    List.Forall₂ (SamePlace entries 0 0) (functionPoints entries)
      (functionPoints (optimize entries)) := by
  have places := labelPoints_removePushDrop entries 0 0
  rw [functionPoints, functionPoints, closedLabels_optimize, optimize, dropUnusedPops,
    labelPoints_dropIfUnused]
  apply List.rel_filter _ places
  intro place newPlace same
  simp [same.1]

/-! ## Discipline -/

section Steps

variable {entries : List Entry}

theorem target?_optimize (entries : List Entry) (argument : Argument) :
    Option.Rel (fun point newPoint => newPoint? entries point = some newPoint)
      (target? entries argument) (target? (optimize entries) argument) := by
  rw [target?, target?]
  cases Machine.text? argument with
  | none => exact .none
  | some label => exact optimize_place label entries

/-- An instruction that remains leads to corresponding points. -/
theorem successors?_optimize {point newPoint : Nat} {content : Instruction}
    (next : newPoint? entries (point + 1) = some (newPoint + 1)) :
    Option.Rel (List.Forall₂ fun point newPoint => newPoint? entries point = some newPoint)
      (successors? entries point content) (successors? (optimize entries) newPoint content) := by
  have targets := target?_optimize entries content.argument
  rcases content with ⟨opcode, argument⟩
  cases opcode with
  | jump => exact optionRel_map targets fun _ _ same => .cons same .nil
  | jumpIfFalse => exact optionRel_map targets fun _ _ same => .cons next (.cons same .nil)
  | returnValue | halt => exact .some .nil
  | _ => exact .some (.cons next .nil)

/-- In disciplined code a `push` and its `drop` keep the depth. -/
theorem keepsPairs_of_sound {depth : Nat → Nat} (sound : ∀ point, SoundAt entries depth point) :
    KeepsPairs entries depth := by
  intro point first second pushAt dropAt
  rcases (sound point _ pushAt).1 with ⟨taken, given, later, effect, _, leads, flows⟩
  cases effect
  cases leads
  rcases (sound (point + 1) _ dropAt).1 with ⟨taken, given, later, effect, _, leads, flowsOn⟩
  cases effect
  cases leads
  have pushed := (flows (point + 1) List.mem_cons_self).2
  have dropped := (flowsOn (point + 2) List.mem_cons_self).2
  omega

/-- Inside the code a point has a new point inside the shortened code. -/
theorem newPoint_lt_size {depth : Nat → Nat} (sound : ∀ point, SoundAt entries depth point)
    {point newPoint : Nat} (corresponds : newPoint? entries point = some newPoint)
    (inside : point < size entries) : newPoint < size (optimize entries) := by
  induction room : size entries - point using Nat.strongRecOn generalizing point with
  | ind room ih =>
      rcases optimize_fetch corresponds with ⟨_, _, _, dropAt, further⟩ | ⟨content, remains⟩ |
        ⟨ends, _⟩
      · rcases (sound (point + 1) _ dropAt).1 with ⟨_, _, _, _, _, leads, flows⟩
        cases leads
        have next := (flows (point + 2) List.mem_cons_self).1
        exact ih _ (by omega) further next rfl
      · exact (List.getElem?_eq_some_iff.mp remains.newFound).1
      · rw [List.getElem?_eq_none_iff] at ends
        exact absurd inside (Nat.not_lt_of_le ends)

/-- At an instruction that remains the depths are right. -/
theorem soundAt_optimize {depth newDepth : Nat → Nat}
    (sound : ∀ point, SoundAt entries depth point)
    (same : ∀ point newPoint, newPoint? entries point = some newPoint →
      newDepth newPoint = depth point) (newPoint : Nat) :
    SoundAt (optimize entries) newDepth newPoint := by
  intro newContent isAt
  have inside := (List.getElem?_eq_some_iff.mp isAt).1
  rcases exists_remainsAt inside with ⟨point, content, corresponds, remains⟩
  have isDropped := Option.some.inj (remains.newFound.symm.trans isAt)
  subst isDropped
  rcases sound point content remains.found with ⟨flows, ends⟩
  have depths := same point newPoint corresponds
  constructor
  · rcases flows with ⟨taken, given, later, effect, enough, leads, arrives⟩
    rcases optionRel_cases (successors?_optimize remains.next) with
      ⟨missing, _⟩ | ⟨_, newLater, found, newFound, laterSame⟩
    · rw [leads] at missing
      cases missing
    · rw [leads] at found
      cases found
      refine ⟨taken, given, newLater, ?_, depths ▸ enough, ?_, ?_⟩
      · rw [view_dropInstruction Instruction.effect? (fun _ => rfl), effect]
      · rw [view_dropInstruction (successors? _ newPoint) (fun _ => rfl), newFound]
      · refine forall_mem_of_forall₂ laterSame arrives ?_
        intro next newNext nextCorresponds reached
        rw [same next newNext nextCorresponds, depths]
        exact ⟨newPoint_lt_size sound nextCorresponds reached.1, reached.2⟩
  · intro last isLast
    have view := view_dropInstruction (fun content => content.opcode.lastDepth?)
      (fun _ => rfl) (usedSymbols entries) content
    exact depths.trans (ends last (view.symm.trans isLast))

end Steps

/-- Shortened code is disciplined if the code is. -/
theorem Disciplined.optimize {entries : List Entry} {functions : Surface.Functions}
    {depth : Nat → Nat} (disciplined : Disciplined entries functions depth) :
    ∃ newDepth, Disciplined (optimize entries) functions newDepth := by
  rcases exists_newDepth (keepsPairs_of_sound disciplined.sound) with ⟨newDepth, same⟩
  refine ⟨newDepth, ?_, ?_, soundAt_optimize disciplined.sound same⟩
  · rcases disciplined.starts with ⟨point, starts, atStart⟩
    rcases optionRel_cases (optimize_place mainLabel entries) with
      ⟨missing, _⟩ | ⟨_, newPoint, found, newFound, corresponds⟩
    · rw [starts] at missing
      cases missing
    · rw [starts] at found
      cases found
      exact ⟨newPoint, newFound, (same point newPoint corresponds).trans atStart⟩
  · apply forall₂_through (functionPoints_optimize entries) disciplined.enters
    intro place newPlace function samePlace startsAt
    rcases samePlace with ⟨label, point, newPoint, isAt, isNewAt, corresponds⟩
    rw [Nat.zero_add] at isAt isNewAt
    refine ⟨label ▸ startsAt.1, ?_⟩
    rw [isNewAt, same point newPoint corresponds, ← isAt]
    exact startsAt.2

end StackScript.Code

namespace StackScript.Script

open StackScript.Code (Disciplined Entry optimize)

/-- The code of a script without lists and its shortened code are disciplined. -/
theorem code_and_shortCode_disciplined {script : String} {program : Surface.Program}
    {entries : List Entry} (parsed : Script.surface script = .ok program)
    (listFree : program.isListFree = true) (generated : Script.code script = .ok entries) :
    (∃ depth, Disciplined entries (program.functions false) depth) ∧
      Script.shortCode script = .ok (optimize entries) ∧
      ∃ depth, Disciplined (optimize entries) (program.functions false) depth := by
  rcases exists_hasLabelled generated with ⟨_, labelled, has, rfl⟩
  have samePrograms := Except.ok.inj (has.parsed.symm.trans parsed)
  subst samePrograms
  have shortened : Script.shortCode script = .ok (optimize (Code.assemble labelled.fragment)) := by
    rw [Script.shortCode, generated]
    rfl
  rcases has.exists_disciplined listFree with ⟨depth, disciplined⟩
  exact ⟨⟨depth, disciplined⟩, shortened, disciplined.optimize⟩

/-- A script with a function inside another one and a conditional among arguments. -/
def nestedFunctions : String :=
  "def f(x, y) do\n  def g(z) do z + 1 end\n  g(if x < y do x else -y end) * 2\nend\nf(1, 2)\nx = 3\nx\n"

theorem nestedFunctions_disciplined :
    ∃ program entries, Script.surface nestedFunctions = .ok program ∧
      program.isListFree = true ∧
      program.functions false = [(some "g", ["z"]), (some "f", ["x", "y"])] ∧
      Script.code nestedFunctions = .ok entries ∧
      (∃ depth, Disciplined entries (program.functions false) depth) ∧
      Script.shortCode nestedFunctions = .ok (optimize entries) ∧
      ∃ depth, Disciplined (optimize entries) (program.functions false) depth := by
  have views : (Script.surface nestedFunctions).map
      (fun program => (program.isListFree, program.functions false)) =
        .ok (true, [(some "g", ["z"]), (some "f", ["x", "y"])]) := by
    decide +kernel
  have accepted : (Script.code nestedFunctions).isOk = true := by
    decide +kernel
  cases parsed : Script.surface nestedFunctions with
  | error error =>
      rw [parsed] at views
      cases views
  | ok program =>
      cases generated : Script.code nestedFunctions with
      | error error =>
          rw [generated] at accepted
          cases accepted
      | ok entries =>
          rw [parsed] at views
          have facts := Prod.mk.inj (Except.ok.inj views)
          exact ⟨program, entries, rfl, facts.1, facts.2, rfl,
            code_and_shortCode_disciplined parsed facts.1 generated⟩

end StackScript.Script
