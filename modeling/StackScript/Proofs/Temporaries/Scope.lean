import StackScript.Linear.OfCore
import StackScript.Proofs.Labels.Text
import Mathlib.Data.List.Nodup

/-!
# The temporaries of a scope

A scope is a list of steps with the branches of its conditionals, but without the bodies of the
functions in it, which are scopes of their own.  `Fresh` says what is expected of the temporaries
that are bound and read in a scope, and `Orderly` is a stronger property that is kept when steps
are put together: temporaries are bound in the order of their numbers, and they are read in the
order in which they are bound.
-/

namespace StackScript.Linear

theorem temporaryName_injective : Function.Injective temporaryName :=
  fun _ _ same => Int.repr_injective ((String.append_right_inj "$").mp same)

/-- What can happen in a scope that concerns its temporaries. -/
inductive Occurrence where
  | binds (temporary : String)
  | reads (temporary : String)
  | encloses (body : List Step)

namespace Occurrence

def bound? : Occurrence → Option String
  | binds temporary => some temporary
  | _ => none

def read? : Occurrence → Option String
  | reads temporary => some temporary
  | _ => none

def body? : Occurrence → Option (List Step)
  | encloses body => some body
  | _ => none

end Occurrence

mutual

/-- What occurs in a value, in the order of evaluation. -/
def Value.occurrences : Value → List Occurrence
  | .temporary name => [.reads name]
  | .call _ function _ => function.occurrences
  | .lambda _ _ body => [.encloses body]
  | .conditional condition onTrue onFalse =>
      condition.occurrences ++ (stepsOccurrences onTrue ++ stepsOccurrences onFalse)
  | _ => []

def Step.occurrences : Step → List Occurrence
  | .push value => value.occurrences
  | .bindTemporary temporary value => value.occurrences ++ [.binds temporary]
  | .assign _ value => value.occurrences
  | .evaluate value => value.occurrences
  | .misplaced _ => []

def stepsOccurrences : List Step → List Occurrence
  | [] => []
  | step :: rest => step.occurrences ++ stepsOccurrences rest

end

/-- The temporaries that are bound in a scope. -/
def temporariesBound (steps : List Step) : List String :=
  (stepsOccurrences steps).filterMap Occurrence.bound?

/-- The temporaries that are read in a scope, each as often as it is read. -/
def temporariesRead (steps : List Step) : List String :=
  (stepsOccurrences steps).filterMap Occurrence.read?

/-- The bodies of the functions that are made in a scope. -/
def bodies (steps : List Step) : List (List Step) :=
  (stepsOccurrences steps).filterMap Occurrence.body?

/-- The temporary that a step itself binds. -/
def Step.bound? : Step → Option String
  | .bindTemporary temporary _ => some temporary
  | _ => none

mutual

/-- A value reads only temporaries that are available, and a branch only those that it has bound
itself. -/
def Value.Supplied (available : List String) : Value → Prop
  | .temporary name => name ∈ available
  | .call _ function _ => function.Supplied available
  | .conditional condition onTrue onFalse =>
      condition.Supplied available ∧ StepsSupplied [] onTrue ∧ StepsSupplied [] onFalse
  | _ => True

def Step.Supplied (available : List String) : Step → Prop
  | .push value => value.Supplied available
  | .bindTemporary _ value => value.Supplied available
  | .assign _ value => value.Supplied available
  | .evaluate value => value.Supplied available
  | .misplaced _ => True

/-- Steps read only temporaries that are available or that an earlier step has bound. -/
def StepsSupplied (available : List String) : List Step → Prop
  | [] => True
  | step :: rest =>
      step.Supplied available ∧ StepsSupplied (available ++ step.bound?.toList) rest

end

/-- The temporaries of a scope are numbered from `first` up to `last`, each of them is bound once
and read once, and none is read before it is bound. -/
structure Fresh (first last : Int) (steps : List Step) : Prop where
  le : first ≤ last
  distinct : (temporariesBound steps).Nodup
  numbered : ∀ name ∈ temporariesBound steps,
    ∃ number, first ≤ number ∧ number < last ∧ name = temporaryName number
  supplied : StepsSupplied [] steps
  readOnce : ∀ name ∈ temporariesBound steps, (temporariesRead steps).count name = 1

theorem stepsOccurrences_append (steps more : List Step) :
    stepsOccurrences (steps ++ more) = stepsOccurrences steps ++ stepsOccurrences more := by
  induction steps with
  | nil => rfl
  | cons step rest ih => rw [List.cons_append, stepsOccurrences, stepsOccurrences, ih,
      List.append_assoc]

theorem stepsSupplied_append {available : List String} {steps more : List Step} :
    StepsSupplied available (steps ++ more) ↔
      StepsSupplied available steps ∧
        StepsSupplied (available ++ steps.filterMap Step.bound?) more := by
  induction steps generalizing available with
  | nil => simp [StepsSupplied]
  | cons step rest ih =>
      rw [List.cons_append, StepsSupplied, StepsSupplied, ih, and_assoc, List.append_assoc,
        List.filterMap_cons]
      cases step.bound? <;> rfl

/-- The temporaries with some increasing numbers from `first` up to `last`. -/
def Increasing (first last : Int) (names : List String) : Prop :=
  ∃ numbers : List Int, names = numbers.map temporaryName ∧ numbers.Pairwise (· < ·) ∧
    ∀ number ∈ numbers, first ≤ number ∧ number < last

namespace Increasing

variable {first between last : Int}

theorem nil : Increasing first last [] :=
  ⟨[], rfl, .nil, by simp⟩

theorem single (number : Int) : Increasing number (number + 1) [temporaryName number] :=
  ⟨[number], rfl, List.pairwise_singleton _ _, List.forall_mem_singleton.mpr (by omega)⟩

theorem append {names more : List String} (increasing : Increasing first between names)
    (increasingMore : Increasing between last more) (le : first ≤ between)
    (leLast : between ≤ last) : Increasing first last (names ++ more) := by
  obtain ⟨numbers, rfl, ordered, within⟩ := increasing
  obtain ⟨others, rfl, othersOrdered, othersWithin⟩ := increasingMore
  refine ⟨numbers ++ others, List.map_append.symm, ?_, ?_⟩
  · rw [List.pairwise_append]
    refine ⟨ordered, othersOrdered, ?_⟩
    intro number member other otherMember
    exact Int.lt_of_lt_of_le (within number member).2 (othersWithin other otherMember).1
  · intro number member
    rcases List.mem_append.mp member with isFirst | isSecond
    · have := within number isFirst
      omega
    · have := othersWithin number isSecond
      omega

theorem of_le {names : List String} (increasing : Increasing between last names)
    (le : first ≤ between) : Increasing first last names := by
  obtain ⟨numbers, rfl, ordered, within⟩ := increasing
  refine ⟨numbers, rfl, ordered, fun number member => ?_⟩
  exact ⟨Int.le_trans le (within number member).1, (within number member).2⟩

theorem nodup {names : List String} (increasing : Increasing first last names) : names.Nodup := by
  obtain ⟨numbers, rfl, ordered, -⟩ := increasing
  exact List.Nodup.map temporaryName_injective (ordered.imp Int.ne_of_lt)

end Increasing

/-! ## Orderly steps -/

/-- Steps in which temporaries are bound in the order of their numbers and read in the order in
which they are bound.  The bodies of functions are ordered with temporaries of their own. -/
structure Orderly (first last : Int) (steps : List Step) : Prop where
  le : first ≤ last
  increasing : Increasing first last (temporariesBound steps)
  read_eq : temporariesRead steps = temporariesBound steps
  enclosed : ∀ body ∈ bodies steps, ∃ statements after, orderStmts 0 statements = .ok (after, body)
  supplied : ∀ available, StepsSupplied available steps

namespace Orderly

variable {first between last : Int} {steps more : List Step}

theorem fresh (orderly : Orderly first last steps) : Fresh first last steps where
  le := orderly.le
  distinct := orderly.increasing.nodup
  numbered := by
    intro name member
    obtain ⟨numbers, same, -, within⟩ := orderly.increasing
    rw [same, List.mem_map] at member
    obtain ⟨number, inNumbers, rfl⟩ := member
    exact ⟨number, (within number inNumbers).1, (within number inNumbers).2, rfl⟩
  supplied := orderly.supplied []
  readOnce := by
    intro name member
    rw [orderly.read_eq]
    exact List.count_eq_one_of_mem orderly.increasing.nodup member

theorem nil (number : Int) : Orderly number number [] where
  le := Int.le_refl _
  increasing := .nil
  read_eq := rfl
  enclosed := by simp [bodies, stepsOccurrences]
  supplied _ := True.intro

theorem append (orderly : Orderly first between steps) (orderlyMore : Orderly between last more) :
    Orderly first last (steps ++ more) where
  le := Int.le_trans orderly.le orderlyMore.le
  increasing := by
    rw [temporariesBound, stepsOccurrences_append, List.filterMap_append]
    exact orderly.increasing.append orderlyMore.increasing orderly.le orderlyMore.le
  read_eq := by
    rw [temporariesRead, temporariesBound, stepsOccurrences_append, List.filterMap_append,
      List.filterMap_append]
    exact congrArg₂ (· ++ ·) orderly.read_eq orderlyMore.read_eq
  enclosed := by
    intro body member
    rw [bodies, stepsOccurrences_append, List.filterMap_append, List.mem_append] at member
    exact member.elim (orderly.enclosed body) (orderlyMore.enclosed body)
  supplied available :=
    stepsSupplied_append.mpr ⟨orderly.supplied available, orderlyMore.supplied _⟩

theorem of_le (orderly : Orderly between last steps) (le : first ≤ between) :
    Orderly first last steps where
  le := Int.le_trans le orderly.le
  increasing := orderly.increasing.of_le le
  read_eq := orderly.read_eq
  enclosed := orderly.enclosed
  supplied := orderly.supplied

/-- Only what occurs in steps matters, and that nothing is missing. -/
theorem of_occurrences (orderly : Orderly first last steps)
    (same : stepsOccurrences more = stepsOccurrences steps)
    (supplied : ∀ available, StepsSupplied available more) : Orderly first last more where
  le := orderly.le
  increasing := by
    rw [temporariesBound, same]
    exact orderly.increasing
  read_eq := by
    rw [temporariesRead, temporariesBound, same]
    exact orderly.read_eq
  enclosed := by
    rw [bodies, same]
    exact orderly.enclosed
  supplied := supplied

/-- A value in which nothing occurs can be computed anywhere. -/
theorem push (number : Int) {value : Value} (nothing : value.occurrences = [])
    (supplied : ∀ available, value.Supplied available) : Orderly number number [.push value] :=
  (nil number).of_occurrences (by simp [stepsOccurrences, Step.occurrences, nothing])
    fun available => ⟨supplied available, True.intro⟩

/-- The last value may be used in another way. -/
theorem withLast {value : Value} {step : Step}
    (orderly : Orderly first last (steps ++ [.push value]))
    (same : step.occurrences = value.occurrences)
    (supplied : ∀ available, value.Supplied available → step.Supplied available) :
    Orderly first last (steps ++ [step]) := by
  refine orderly.of_occurrences ?_ fun available => ?_
  · simp only [stepsOccurrences_append, stepsOccurrences, Step.occurrences, same]
  · obtain ⟨before, lastSupplied, -⟩ := stepsSupplied_append.mp (orderly.supplied available)
    exact stepsSupplied_append.mpr ⟨before, supplied _ lastSupplied, True.intro⟩

theorem conditional {afterTrue : Int} {condition : Value} {onTrue onFalse : List Step}
    (orderly : Orderly first between (steps ++ [.push condition]))
    (trueOrderly : Orderly between afterTrue onTrue)
    (falseOrderly : Orderly afterTrue last onFalse) :
    Orderly first last (steps ++ [.push (.conditional condition onTrue onFalse)]) := by
  refine ((orderly.append trueOrderly).append falseOrderly).of_occurrences ?_ fun available => ?_
  · simp only [stepsOccurrences_append, stepsOccurrences, Step.occurrences, Value.occurrences,
      List.append_nil, List.append_assoc]
  · obtain ⟨before, conditionSupplied, -⟩ := stepsSupplied_append.mp (orderly.supplied available)
    exact stepsSupplied_append.mpr ⟨before,
      ⟨conditionSupplied, trueOrderly.supplied [], falseOrderly.supplied []⟩, True.intro⟩

/-- A function is bound to a temporary, which is read at once. -/
theorem lambda (number : Int) (name? : Option String) (parameters : List String)
    {statements : List Core.Stmt} {after : Int} {body : List Step}
    (ordered : orderStmts 0 statements = .ok (after, body)) :
    Orderly number (number + 1)
      [.bindTemporary (temporaryName number) (.lambda name? parameters body),
        .push (.temporary (temporaryName number))] where
  le := by omega
  increasing := .single number
  read_eq := rfl
  enclosed := by
    intro other member
    rw [List.mem_singleton.mp member]
    exact ⟨statements, after, ordered⟩
  supplied available :=
    ⟨True.intro, List.mem_append_right _ (List.mem_singleton_self _), True.intro⟩

end Orderly

end StackScript.Linear
