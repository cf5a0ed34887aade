import StackScript.Proofs.Labels.Text
import StackScript.Proofs.Structured.Basic
import Mathlib.Logic.Function.Basic

/-!
# Labels and numbers of emitted code

Emission gives out labels for functions and numbers for conditionals from one tally.
`Tallied` says what it has given out when a piece of code has been emitted: the
labels of functions depend only on the names of the functions before them, and the
numbers of conditionals are new.  This presupposes that no function has the name
under which conditionals are counted.
-/

namespace StackScript.Code

/-- The outcome of emission from a tally, with the tally that is left. -/
def Emit.outcome {α : Type} (action : Emit α) (before : Tally) : Except Error α × Tally :=
  action.run before

/-- Emission succeeds from a tally with a value and leaves a tally. -/
def Emits {α : Type} (action : Emit α) (before : Tally) (value : α)
    (after : Tally) : Prop :=
  action.outcome before = (.ok value, after)

section Emits

variable {α β : Type} {before after : Tally}

theorem outcome_bind (action : Emit α) (next : α → Emit β) (before : Tally) :
    Emit.outcome (action >>= next) before =
      match action.outcome before with
      | (.ok value, between) => (next value).outcome between
      | (.error error, between) => (.error error, between) := by
  rcases found : action.outcome before with ⟨error | value, between⟩
  · have run : action.run before = (Except.error error, between) := found
    simp only [Emit.outcome, ExceptT.run_bind]
    simp only [bind, StateT.bind, run]
    rfl
  · have run : action.run before = (Except.ok value, between) := found
    simp only [Emit.outcome, ExceptT.run_bind]
    simp only [bind, StateT.bind, run]

theorem emits_bind {action : Emit α} {next : α → Emit β} {result : β} :
    Emits (action >>= next) before result after ↔
      ∃ value between,
        Emits action before value between ∧ Emits (next value) between result after := by
  unfold Emits
  rw [outcome_bind]
  rcases action.outcome before with ⟨error | value, between⟩
  · simp
  · constructor
    · intro emitted
      exact ⟨value, between, rfl, emitted⟩
    · rintro ⟨_, _, same, emitted⟩
      cases same
      exact emitted

theorem emits_pure {value result : α} :
    Emits (pure value) before result after ↔ value = result ∧ before = after := by
  change (Except.ok value, before) = (Except.ok result, after) ↔ _
  simp

theorem emits_lift {outcome : Except Error α} {result : α} :
    Emits (liftM outcome) before result after ↔ outcome = .ok result ∧ before = after := by
  change (outcome, before) = (Except.ok result, after) ↔ _
  simp

theorem not_emits_throw {error : Error} {result : α} :
    ¬ Emits (throw error) before result after := by
  intro emitted
  change (Except.error error, before) = (Except.ok result, after) at emitted
  simp at emitted

theorem emits_newFunctionLabel {name? : Option String} {label : String} :
    Emits (newFunctionLabel name?) before label after ↔
      let number := (before.get? (some (labelStem name?))).getD 0
      label = functionLabel (labelStem name?) number ∧
        after = before.set name? (number + 1) := by
  change (Except.ok _, _) = (Except.ok label, after) ↔ _
  simp [eq_comm]

theorem emits_get {tally : Tally} :
    Emits get before tally after ↔ before = tally ∧ before = after := by
  change (Except.ok before, before) = (Except.ok tally, after) ↔ _
  simp

theorem emits_newBranchNumber {number : Int} :
    Emits newBranchNumber before number after ↔
      before.get? branchKey = some number ∧ after = before.set branchKey (number + 1) := by
  rw [newBranchNumber, emits_bind]
  constructor
  · rintro ⟨tally, between, read, numbered⟩
    obtain ⟨rfl, rfl⟩ := emits_get.mp read
    cases found : Ledger.get? branchKey before with
    | none =>
        rw [found] at numbered
        exact absurd numbered not_emits_throw
    | some first =>
        rw [found] at numbered
        cases numbered
        exact ⟨rfl, rfl⟩
  · rintro ⟨found, rfl⟩
    refine ⟨before, before, emits_get.mpr ⟨rfl, rfl⟩, ?_⟩
    rw [found]
    rfl

end Emits

/-! ## What is given out -/

/-- How many functions are counted under a key.  What is counted for conditionals
is left aside. -/
def functionCounts (tally : Tally) (key : Option String) : Int :=
  if key = branchKey then 0 else (tally.get? key).getD 0

/-- The label of the next function with a name. -/
def nextLabel (counts : Option String → Int) (name? : Option String) : String :=
  functionLabel (labelStem name?) (counts (some (labelStem name?)))

/-- The counts after a label has been given out. -/
def countLabel (counts : Option String → Int) (name? : Option String) :
    Option String → Int :=
  Function.update counts name? (counts (some (labelStem name?)) + 1)

/-- The labels that are given out for names in order. -/
def labelsFor (counts : Option String → Int) : List (Option String) → List String
  | [] => []
  | name? :: rest => nextLabel counts name? :: labelsFor (countLabel counts name?) rest

theorem labelsFor_append (counts : Option String → Int) (first second : List (Option String)) :
    labelsFor counts (first ++ second) =
      labelsFor counts first ++ labelsFor (first.foldl countLabel counts) second := by
  induction first generalizing counts with
  | nil => rfl
  | cons name? rest ih => simp [labelsFor, ih]

/-- The names of the functions of labelled code, outer functions first. -/
def Structured.names (labelled : Labelled) : List (Option String) :=
  (labelled.functions true).map fun entry => entry.1.name?

/-- The labels of the functions of labelled code, outer functions first. -/
def Structured.labels (labelled : Labelled) : List String :=
  (labelled.functions true).map fun entry => entry.1.label

/-- The numbers are different, and they are those that a tally gives out before it
is at another one. -/
def Numbered (before after : Tally) (numbers : List Int) : Prop :=
  ∀ first, before.get? branchKey = some first →
    ∃ next, after.get? branchKey = some next ∧ first ≤ next ∧ numbers.Nodup ∧
      ∀ number ∈ numbers, first ≤ number ∧ number < next

/-- Labelled code has the labels and numbers that are given out between two
tallies. -/
structure Tallied (before : Tally) (labelled : Labelled) (after : Tally) : Prop where
  labels : labelled.labels = labelsFor (functionCounts before) labelled.names
  counts : functionCounts after = labelled.names.foldl countLabel (functionCounts before)
  numbers : Numbered before after labelled.branches

namespace Tallied

variable {before between after : Tally}

/-- Numbers that are given out one after another are different. -/
theorem numbered_append {first second : List Int} (firstNumbered : Numbered before between first)
    (secondNumbered : Numbered between after second) :
    Numbered before after (first ++ second) := by
  intro start startsAt
  obtain ⟨middle, middleAt, startLe, firstNodup, firstRange⟩ := firstNumbered start startsAt
  obtain ⟨next, nextAt, middleLe, secondNodup, secondRange⟩ := secondNumbered middle middleAt
  refine ⟨next, nextAt, by omega, ?_, ?_⟩
  · refine firstNodup.append secondNodup ?_
    intro number inFirst inSecond
    have upper := (firstRange number inFirst).2
    have lower := (secondRange number inSecond).1
    omega
  · intro number member
    rcases List.mem_append.mp member with inFirst | inSecond
    · have range := firstRange number inFirst
      omega
    · have range := secondRange number inSecond
      omega

/-- Code without functions and conditionals takes nothing from a tally. -/
theorem of_plain {labelled : Labelled} (noFunctions : labelled.functions true = [])
    (noBranches : labelled.branches = []) : Tallied before labelled before := by
  refine ⟨?_, ?_, ?_⟩
  · simp [Structured.labels, Structured.names, noFunctions, labelsFor]
  · simp [Structured.names, noFunctions]
  · intro first startsAt
    exact ⟨first, startsAt, Int.le_refl _, by simp [noBranches], by simp [noBranches]⟩

theorem append {first second : Labelled} (firstTallied : Tallied before first between)
    (secondTallied : Tallied between second after) :
    Tallied before (first ++ second) after := by
  have namesAppend : (first ++ second).names = first.names ++ second.names := by
    simp [Structured.names]
  refine ⟨?_, ?_, ?_⟩
  · rw [namesAppend, labelsFor_append, ← firstTallied.counts, ← firstTallied.labels,
      ← secondTallied.labels]
    simp [Structured.labels]
  · rw [namesAppend, List.foldl_append, ← firstTallied.counts, secondTallied.counts]
  · rw [Structured.branches_append]
    exact numbered_append firstTallied.numbers secondTallied.numbers

/-- A function takes its label before its body takes anything. -/
theorem function {name? : Option String} {label : String} {parameters : List String}
    {body : Labelled} (given : Emits (newFunctionLabel name?) before label between)
    (plain : name? ≠ branchKey) (bodyTallied : Tallied between body after) :
    Tallied before (.function ⟨name?, label⟩ parameters body .done) after := by
  have stemPlain := labelStem_ne_if plain
  obtain ⟨labelEq, betweenEq⟩ := emits_newFunctionLabel.mp given
  have counted : functionCounts between = countLabel (functionCounts before) name? := by
    funext key
    rw [betweenEq]
    by_cases same : name? = key
    · subst same
      simp [functionCounts, countLabel, Ledger.get?_set, branchKey, stemPlain] at plain ⊢
      simp [plain]
    · have differs : key ≠ name? := fun equal => same equal.symm
      simp [functionCounts, countLabel, Ledger.get?_set, same, differs]
  have labelNext : label = nextLabel (functionCounts before) name? := by
    rw [labelEq]
    simp [nextLabel, functionCounts, branchKey, stemPlain]
  have namesEq : Structured.names (.function ⟨name?, label⟩ parameters body .done) =
      name? :: body.names := by
    simp [Structured.names, Structured.functions, withInner]
  refine ⟨?_, ?_, ?_⟩
  · rw [namesEq, labelsFor, ← labelNext, ← counted, ← bodyTallied.labels]
    simp [Structured.labels, Structured.functions, withInner]
  · rw [namesEq, List.foldl_cons, ← counted, bodyTallied.counts]
  · have branchesEq : Structured.branches (.function ⟨name?, label⟩ parameters body .done) =
        [] ++ body.branches := by
      simp [Structured.branches]
    rw [branchesEq]
    refine numbered_append ?_ bodyTallied.numbers
    intro first startsAt
    refine ⟨first, ?_, Int.le_refl _, List.nodup_nil, by simp⟩
    rw [betweenEq, Ledger.get?_set, if_neg plain, startsAt]

/-- A conditional takes its number before its condition and its branches take
theirs. -/
theorem branch {number : Int} {condition onTrue onFalse : Labelled}
    {afterNumber afterCondition afterTrue : Tally}
    (given : Emits newBranchNumber before number afterNumber)
    (conditionTallied : Tallied afterNumber condition afterCondition)
    (trueTallied : Tallied afterCondition onTrue afterTrue)
    (falseTallied : Tallied afterTrue onFalse after) :
    Tallied before (condition ++ .branch number onTrue onFalse .done) after := by
  obtain ⟨numberAt, afterNumberEq⟩ := emits_newBranchNumber.mp given
  have sequence : Tallied afterNumber (condition ++ (onTrue ++ onFalse)) after :=
    conditionTallied.append (trueTallied.append falseTallied)
  have counted : functionCounts afterNumber = functionCounts before := by
    funext key
    rw [afterNumberEq]
    by_cases same : branchKey = key
    · simp [functionCounts, same]
    · simp [functionCounts, Ledger.get?_set, same]
  have namesEq : Structured.names (condition ++ .branch number onTrue onFalse .done) =
      Structured.names (condition ++ (onTrue ++ onFalse)) := by
    simp [Structured.names, Structured.functions]
  refine ⟨?_, ?_, ?_⟩
  · rw [namesEq, ← counted, ← sequence.labels]
    simp [Structured.labels, Structured.functions]
  · rw [namesEq, ← counted, sequence.counts]
  · have numberAlone : Numbered before afterNumber [number] := by
      intro first startsAt
      rw [numberAt, Option.some.injEq] at startsAt
      subst startsAt
      refine ⟨number + 1, ?_, by omega, List.nodup_singleton _, ?_⟩
      · rw [afterNumberEq, Ledger.get?_set, if_pos rfl]
      · intro other member
        cases List.mem_singleton.mp member
        omega
    intro first startsAt
    obtain ⟨next, nextAt, le, nodup, range⟩ :=
      numbered_append numberAlone sequence.numbers first startsAt
    have reordered : ([number] ++ (condition ++ (onTrue ++ onFalse)).branches).Perm
        (condition ++ .branch number onTrue onFalse .done : Labelled).branches := by
      simp only [Structured.branches_append, Structured.branches, List.append_nil,
        List.singleton_append]
      exact List.perm_middle.symm
    refine ⟨next, nextAt, le, reordered.nodup nodup, ?_⟩
    intro given member
    exact range given (reordered.mem_iff.mpr member)

end Tallied

end StackScript.Code
