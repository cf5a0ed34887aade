import StackScript.Proofs.Structured.Numbering

/-!
# Emitted code is structured

Emission lays code out while it reads the linear form.  Here it is taken apart into
two steps: the linear form has an outline, and what is emitted is the layout of this
outline with labels and numbers in it (`emitSteps_structured`).
-/

namespace StackScript.Code

open StackScript.Linear (Value Step)

mutual

/-- The outline of a value. -/
@[simp] def outlineValue : Value → Option Outline
  | .integer value => some (.single .pushInteger (.integer value))
  | .text content => some (.single .pushText (textArgument content))
  | .symbol name => some (.single .push (symbolArgument name))
  | .symbolLiteral name => some (.single .pushSymbol (symbolArgument name))
  | .temporary name => some (.single .push (symbolArgument name))
  | .list _ => some (.single .list listArgument)
  | .record fieldCount => some (.single .record (.integer fieldCount))
  | .call _ (.builtin builtin) argumentCount => do
      let opcode ← opcodeOfBuiltin? builtin
      return .single opcode (.integer argumentCount)
  | .call _ function argumentCount => do
      let function ← outlineValue function
      return function ++ .single .call (.integer argumentCount)
  | .lambda name? parameters body => do
      let body ← outlineSteps body
      let kept ← body.keepValue
      return .function name? parameters kept .done
  | .conditional condition onTrue onFalse => do
      let condition ← outlineValue condition
      let onTrue ← outlineSteps onTrue
      let keptTrue ← onTrue.keepValue
      let onFalse ← outlineSteps onFalse
      let keptFalse ← onFalse.keepValue
      return condition ++ .branch () keptTrue keptFalse .done
  | .builtin _ => none
  | .misplaced _ => none

@[simp] def outlineStep : Step → Option Outline
  | .push value => outlineValue value
  | .bindTemporary temporary value => do
      let value ← outlineValue value
      return value ++ .single .pop (symbolArgument temporary)
  | .assign target value => do
      let value ← outlineValue value
      return value ++ .single .pop (symbolArgument target)
  | .evaluate value => do
      let value ← outlineValue value
      return value ++ .single .drop .nothing
  | .misplaced _ => none

@[simp] def outlineSteps : List Step → Option Outline
  | [] => some .done
  | step :: rest => do
      let step ← outlineStep step
      let rest ← outlineSteps rest
      return step ++ rest

end

/-- The outline of steps in sequence is the sequence of the outlines. -/
theorem outlineSteps_append_eq_some {first second : List Step} {outline : Outline} :
    outlineSteps (first ++ second) = some outline ↔
      ∃ left right, outlineSteps first = some left ∧ outlineSteps second = some right ∧
        outline = left ++ right := by
  induction first generalizing outline with
  | nil => simp [outlineSteps, eq_comm]
  | cons step rest ih =>
      simp only [List.cons_append, outlineSteps, Option.bind_eq_bind, Option.bind_eq_some_iff,
        ih, Option.pure_def, Option.some.injEq]
      constructor
      · rintro ⟨head, stepFound, _, ⟨left, right, leftFound, rightFound, rfl⟩, rfl⟩
        exact ⟨head ++ left, right, ⟨head, stepFound, left, leftFound, rfl⟩, rightFound,
          (Structured.append_assoc _ _ _).symm⟩
      · rintro ⟨_, right, ⟨head, stepFound, left, leftFound, rfl⟩, rightFound, rfl⟩
        exact ⟨head, stepFound, _, ⟨left, right, leftFound, rightFound, rfl⟩,
          (Structured.append_assoc _ _ _).symm⟩

/-- A fragment is the layout of an outline, and its labels and numbers have been
given out between two tallies. -/
def Lays (before : Tally) (fragment : Fragment) (outline? : Option Outline)
    (after : Tally) : Prop :=
  ∃ labelled : Labelled, fragment = labelled.fragment ∧ outline? = some labelled.outline ∧
    (branchKey ∉ labelled.names → Tallied before labelled after)

namespace Lays

variable {before between after : Tally}

theorem exists_outline {fragment : Fragment} {outline? : Option Outline}
    (lays : Lays before fragment outline? after) :
    ∃ outline, outline? = some outline ∧ Lays before fragment (some outline) after := by
  obtain ⟨labelled, laidOut, outlineEq, tallied⟩ := lays
  exact ⟨labelled.outline, outlineEq, labelled, laidOut, rfl, tallied⟩

/-- Code without functions and conditionals is its own layout. -/
theorem single (opcode : Opcode) (argument : Argument) :
    Lays before (.plain [Entry.of opcode argument]) (some (.single opcode argument)) before :=
  ⟨.single opcode argument, rfl, rfl, fun _ => Tallied.of_plain rfl rfl⟩

theorem append {first second : Fragment} {firstOutline secondOutline : Outline}
    (firstLays : Lays before first (some firstOutline) between)
    (secondLays : Lays between second (some secondOutline) after) :
    Lays before (first.append second) (some (firstOutline ++ secondOutline)) after := by
  obtain ⟨left, rfl, leftOutline, leftTallied⟩ := firstLays
  obtain ⟨right, rfl, rightOutline, rightTallied⟩ := secondLays
  rw [Option.some.injEq] at leftOutline rightOutline
  refine ⟨left ++ right, (Structured.fragment_append left right).symm, ?_, ?_⟩
  · rw [Structured.outline_append, leftOutline, rightOutline]
  · intro plain
    simp only [Structured.names, Structured.functions_append, List.map_append,
      List.mem_append, not_or] at plain
    exact (leftTallied plain.1).append (rightTallied plain.2)

theorem andThen {fragment : Fragment} {outline : Outline}
    (lays : Lays before fragment (some outline) after) (opcode : Opcode)
    (argument : Argument) :
    Lays before (fragment.andThen opcode argument)
      (some (outline ++ .single opcode argument)) after := by
  have appended := lays.append (single opcode argument)
  simpa [Fragment.append, Fragment.andThen, Fragment.plain] using appended

/-- A body whose value is kept is laid out without its last `drop`. -/
theorem kept {fragment : Fragment} {outline : Outline} {code : List Entry}
    (lays : Lays before fragment (some outline) after)
    (yields : yielding fragment.code = .ok code) :
    ∃ kept, outline.keepValue = some kept ∧
      Lays before { fragment with code } (some kept) after := by
  obtain ⟨labelled, rfl, outlineEq, tallied⟩ := lays
  obtain ⟨inner, argument, rfl, rfl⟩ := Structured.exists_of_yielding yields
  rw [Option.some.injEq] at outlineEq
  subst outlineEq
  refine ⟨inner.outline, ?_, inner, ?_, rfl, ?_⟩
  · rw [Structured.keepValue_eq_some_iff]
    exact ⟨argument, by simp⟩
  · simp [Structured.fragment]
  · intro plain
    have namesEq : (inner ++ .single .drop argument).names = inner.names := by
      simp [Structured.names, Structured.single, Structured.functions]
    have whole := tallied (by rwa [namesEq])
    refine ⟨?_, ?_, ?_⟩
    · rw [← namesEq, ← whole.labels]
      simp [Structured.labels, Structured.single, Structured.functions]
    · rw [← namesEq, ← whole.counts]
    · have branchesEq : (inner ++ .single .drop argument).branches = inner.branches := by
        simp [Structured.single, Structured.branches]
      exact branchesEq ▸ whole.numbers

/-- The block of a function comes after the blocks of the functions inside it. -/
theorem function {name? : Option String} {label : String} {parameters : List String}
    {body : Fragment} {outline : Outline}
    (given : Emits (newFunctionLabel name?) before label between)
    (lays : Lays between body (some outline) after) :
    Lays before
      { blocks := body.blocks ++ functionBlock label parameters body.code
        code := [Entry.of .close (.text label)] }
      (some (.function name? parameters outline .done)) after := by
  obtain ⟨labelled, rfl, outlineEq, tallied⟩ := lays
  rw [Option.some.injEq] at outlineEq
  subst outlineEq
  refine ⟨.function ⟨name?, label⟩ parameters labelled .done, ?_, rfl, ?_⟩
  · simp [Structured.fragment, Structured.blocks, Structured.code, Block.entries]
  · intro plain
    simp only [Structured.names, Structured.functions, withInner, if_true, List.append_nil,
      List.map_cons, List.mem_cons, not_or] at plain
    exact Tallied.function given (fun same => plain.1 same.symm) (tallied plain.2)

/-- The blocks of a conditional are those of its parts in order. -/
theorem branch {number : Int} {condition onTrue onFalse : Fragment}
    {conditionOutline trueOutline falseOutline : Outline}
    {afterNumber afterCondition afterTrue : Tally}
    (given : Emits newBranchNumber before number afterNumber)
    (conditionLays : Lays afterNumber condition (some conditionOutline) afterCondition)
    (trueLays : Lays afterCondition onTrue (some trueOutline) afterTrue)
    (falseLays : Lays afterTrue onFalse (some falseOutline) after) :
    Lays before
      { blocks := condition.blocks ++ onTrue.blocks ++ onFalse.blocks
        code := branching number condition.code onTrue.code onFalse.code }
      (some (conditionOutline ++ .branch () trueOutline falseOutline .done)) after := by
  obtain ⟨first, rfl, firstOutline, firstTallied⟩ := conditionLays
  obtain ⟨second, rfl, secondOutline, secondTallied⟩ := trueLays
  obtain ⟨third, rfl, thirdOutline, thirdTallied⟩ := falseLays
  rw [Option.some.injEq] at firstOutline secondOutline thirdOutline
  subst firstOutline secondOutline thirdOutline
  refine ⟨first ++ .branch number second third .done, ?_, ?_, ?_⟩
  · rw [branching_eq]
    simp [Structured.fragment, Structured.blocks, Structured.code]
  · rw [Structured.outline_append]
    rfl
  · intro plain
    simp only [Structured.names, Structured.functions_append, Structured.functions,
      List.append_nil, List.map_append, List.mem_append, not_or] at plain
    exact Tallied.branch given (firstTallied plain.1) (secondTallied plain.2.1)
      (thirdTallied plain.2.2)

end Lays

theorem opcodeOfBuiltin_eq_ok {builtin : Core.Builtin} {opcode : Opcode}
    (found : opcodeOfBuiltin builtin = .ok opcode) :
    opcodeOfBuiltin? builtin = some opcode := by
  unfold opcodeOfBuiltin at found
  cases known : opcodeOfBuiltin? builtin with
  | none => simp [known] at found
  | some performed => simpa [known] using found

mutual

/-- What is emitted for a value is the layout of its outline. -/
theorem emitValue_structured (value : Value) {before after : Tally} {fragment : Fragment}
    (emitted : Emits (emitValue value) before fragment after) :
    Lays before fragment (outlineValue value) after := by
  cases value with
  | integer value =>
      obtain ⟨rfl, rfl⟩ := emits_pure.mp emitted
      exact Lays.single _ _
  | text content =>
      obtain ⟨rfl, rfl⟩ := emits_pure.mp emitted
      exact Lays.single _ _
  | symbol name =>
      obtain ⟨rfl, rfl⟩ := emits_pure.mp emitted
      exact Lays.single _ _
  | symbolLiteral name =>
      obtain ⟨rfl, rfl⟩ := emits_pure.mp emitted
      exact Lays.single _ _
  | temporary name =>
      obtain ⟨rfl, rfl⟩ := emits_pure.mp emitted
      exact Lays.single _ _
  | list itemCount =>
      obtain ⟨rfl, rfl⟩ := emits_pure.mp emitted
      exact Lays.single _ _
  | record fieldCount =>
      obtain ⟨rfl, rfl⟩ := emits_pure.mp emitted
      exact Lays.single _ _
  | call position function argumentCount =>
      by_cases performed : ∃ builtin, function = .builtin builtin
      · obtain ⟨builtin, rfl⟩ := performed
        obtain ⟨opcode, _, found, rest⟩ := emits_bind.mp emitted
        obtain ⟨known, rfl⟩ := emits_lift.mp found
        obtain ⟨rfl, rfl⟩ := emits_pure.mp rest
        rw [outlineValue, opcodeOfBuiltin_eq_ok known]
        exact Lays.single _ _
      · have noBuiltin : ∀ builtin, function = .builtin builtin → False :=
          fun builtin same => performed ⟨builtin, same⟩
        rw [emitValue.eq_9 _ _ _ noBuiltin] at emitted
        obtain ⟨inner, _, innerEmitted, rest⟩ := emits_bind.mp emitted
        obtain ⟨rfl, rfl⟩ := emits_pure.mp rest
        obtain ⟨outline, found, lays⟩ :=
          (emitValue_structured function innerEmitted).exists_outline
        rw [outlineValue.eq_9 _ _ _ noBuiltin, found]
        exact lays.andThen _ _
  | lambda name? parameters body =>
      obtain ⟨label, _, given, rest⟩ := emits_bind.mp emitted
      obtain ⟨inner, _, bodyEmitted, rest⟩ := emits_bind.mp rest
      obtain ⟨code, _, lifted, rest⟩ := emits_bind.mp rest
      obtain ⟨yields, rfl⟩ := emits_lift.mp lifted
      obtain ⟨rfl, rfl⟩ := emits_pure.mp rest
      obtain ⟨outline, found, lays⟩ := (emitSteps_structured body bodyEmitted).exists_outline
      obtain ⟨kept, keeps, keptLays⟩ := lays.kept yields
      rw [outlineValue, found, Option.bind_eq_bind, Option.bind_some, keeps]
      exact keptLays.function given
  | conditional condition onTrue onFalse =>
      obtain ⟨number, _, given, rest⟩ := emits_bind.mp emitted
      obtain ⟨first, _, conditionEmitted, rest⟩ := emits_bind.mp rest
      obtain ⟨second, _, trueEmitted, rest⟩ := emits_bind.mp rest
      obtain ⟨trueCode, _, lifted, rest⟩ := emits_bind.mp rest
      obtain ⟨trueYields, rfl⟩ := emits_lift.mp lifted
      obtain ⟨third, _, falseEmitted, rest⟩ := emits_bind.mp rest
      obtain ⟨falseCode, _, lifted, rest⟩ := emits_bind.mp rest
      obtain ⟨falseYields, rfl⟩ := emits_lift.mp lifted
      obtain ⟨rfl, rfl⟩ := emits_pure.mp rest
      obtain ⟨_, conditionFound, conditionLays⟩ :=
        (emitValue_structured condition conditionEmitted).exists_outline
      obtain ⟨_, trueFound, trueLays⟩ := (emitSteps_structured onTrue trueEmitted).exists_outline
      obtain ⟨_, falseFound, falseLays⟩ :=
        (emitSteps_structured onFalse falseEmitted).exists_outline
      obtain ⟨_, trueKeeps, trueKept⟩ := trueLays.kept trueYields
      obtain ⟨_, falseKeeps, falseKept⟩ := falseLays.kept falseYields
      rw [outlineValue]
      simp only [conditionFound, trueFound, trueKeeps, falseFound, falseKeeps,
        Option.bind_eq_bind, Option.bind_some]
      exact Lays.branch given conditionLays trueKept falseKept
  | builtin builtin => exact absurd emitted not_emits_throw
  | misplaced form => exact absurd emitted not_emits_throw

/-- What is emitted for a step is the layout of its outline. -/
theorem emitStep_structured (step : Step) {before after : Tally} {fragment : Fragment}
    (emitted : Emits (emitStep step) before fragment after) :
    Lays before fragment (outlineStep step) after := by
  cases step with
  | push value => exact emitValue_structured value emitted
  | bindTemporary temporary value =>
      obtain ⟨inner, _, innerEmitted, rest⟩ := emits_bind.mp emitted
      obtain ⟨rfl, rfl⟩ := emits_pure.mp rest
      obtain ⟨outline, found, lays⟩ := (emitValue_structured value innerEmitted).exists_outline
      rw [outlineStep, found]
      exact lays.andThen _ _
  | assign target value =>
      obtain ⟨inner, _, innerEmitted, rest⟩ := emits_bind.mp emitted
      obtain ⟨rfl, rfl⟩ := emits_pure.mp rest
      obtain ⟨outline, found, lays⟩ := (emitValue_structured value innerEmitted).exists_outline
      rw [outlineStep, found]
      exact lays.andThen _ _
  | evaluate value =>
      obtain ⟨inner, _, innerEmitted, rest⟩ := emits_bind.mp emitted
      obtain ⟨rfl, rfl⟩ := emits_pure.mp rest
      obtain ⟨outline, found, lays⟩ := (emitValue_structured value innerEmitted).exists_outline
      rw [outlineStep, found]
      exact lays.andThen _ _
  | misplaced form => exact absurd emitted not_emits_throw

/-- What is emitted for steps is the layout of their outline. -/
theorem emitSteps_structured (steps : List Step) {before after : Tally}
    {fragment : Fragment} (emitted : Emits (emitSteps steps) before fragment after) :
    Lays before fragment (outlineSteps steps) after := by
  cases steps with
  | nil =>
      obtain ⟨rfl, rfl⟩ := emits_pure.mp emitted
      exact ⟨.done, rfl, rfl, fun _ => Tallied.of_plain rfl rfl⟩
  | cons step rest =>
      obtain ⟨first, _, stepEmitted, rest'⟩ := emits_bind.mp emitted
      obtain ⟨second, _, restEmitted, last⟩ := emits_bind.mp rest'
      obtain ⟨rfl, rfl⟩ := emits_pure.mp last
      obtain ⟨_, stepFound, stepLays⟩ := (emitStep_structured step stepEmitted).exists_outline
      obtain ⟨_, restFound, restLays⟩ := (emitSteps_structured rest restEmitted).exists_outline
      rw [outlineSteps, stepFound, restFound]
      exact stepLays.append restLays

end

end StackScript.Code
