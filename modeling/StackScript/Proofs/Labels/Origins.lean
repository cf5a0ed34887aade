import StackScript.Proofs.Labels.Text
import StackScript.Token.Lexer

/-!
# What a label was made for

A label is made for the script itself, for a function with or without a name, or for an arm of a
conditional.  What it was made for can be read off its text, whatever the numbers and whichever
words the functions are called (`label_eq_iff`).  Labels of functions end in a digit and all others
in an underscore.  The number of a function comes after the last dollar sign, and of what comes
before it a name leaves no underscore, so it is not taken for a function without a name.
-/

namespace StackScript.Code

/-- What a label of a conditional leads to: one of its branches, or what comes after both. -/
inductive Arm where
  | onTrue
  | onFalse
  | after
  deriving DecidableEq, Repr

def Arm.label : Arm → Int → String
  | .onTrue => thenLabel
  | .onFalse => elseLabel
  | .after => endLabel

/-- What a label is made for. -/
inductive Origin where
  | script
  | function (name? : Option String) (number : Int)
  | arm (which : Arm) (number : Int)
  deriving DecidableEq, Repr

namespace Origin

def label : Origin → String
  | script => mainLabel
  | function name? number => functionLabel (labelStem name?) number
  | arm which number => which.label number

/-- The name of a function, if there is one, has small letters and underscores only. -/
def IsWorded : Origin → Prop
  | function (some name) _ =>
      ∀ character ∈ name.toList, Lexer.isWordCharacter character = true
  | _ => True

end Origin

theorem dollar_notMem_of_isWorded {name? : Option String} {number : Int}
    (worded : (Origin.function name? number).IsWorded) :
    ∀ name, name? = some name → '$' ∉ name.toList := by
  rintro name rfl member
  have impossible := worded '$' member
  revert impossible
  decide

theorem Arm.label_mem (which : Arm) (number : Int) : which.label number ∈ branchLabels number := by
  cases which <;> simp [Arm.label, branchLabels]

/-- The arm and the number can be read off a label of a conditional. -/
theorem Arm.label_inj {which other : Arm} {number number' : Int}
    (same : which.label number = other.label number') : which = other ∧ number = number' := by
  have numbers : number = number' :=
    eq_of_mem_branchLabels (which.label_mem number) (same ▸ other.label_mem number')
  subst numbers
  have different := branchLabels_nodup number
  simp only [branchLabels, List.nodup_cons, List.mem_cons, List.not_mem_nil, or_false, not_or]
    at different
  obtain ⟨⟨thenElse, thenEnd⟩, elseEnd, _⟩ := different
  refine ⟨?_, rfl⟩
  cases which with
  | onTrue =>
      cases other with
      | onTrue => rfl
      | onFalse => exact absurd same thenElse
      | after => exact absurd same thenEnd
  | onFalse =>
      cases other with
      | onTrue => exact absurd same.symm thenElse
      | onFalse => rfl
      | after => exact absurd same elseEnd
  | after =>
      cases other with
      | onTrue => exact absurd same.symm thenEnd
      | onFalse => exact absurd same.symm elseEnd
      | after => rfl

/-- A label of a function is none of an arm, and neither is the label of the script. -/
theorem functionLabel_ne_arm (stem : String) (number number' : Int) (which : Arm) :
    functionLabel stem number ≠ which.label number' := fun same =>
  functionLabel_notMem_branchLabels stem number number' (same ▸ which.label_mem number')

theorem mainLabel_ne_arm (number : Int) (which : Arm) : mainLabel ≠ which.label number :=
  fun same => mainLabel_notMem_branchLabels number (same ▸ which.label_mem number)

/-- Two labels are the same only if they are made for the same: functions with the same name, or
both without one, or the same arms, and with the same number. -/
theorem label_eq_iff {origin other : Origin} (worded : origin.IsWorded)
    (worded' : other.IsWorded) : origin.label = other.label ↔ origin = other := by
  constructor
  · -- Labels of different kinds end differently, so names and numbers are compared within a kind.
    intro same
    cases origin with
    | script =>
        cases other with
        | script => rfl
        | function name? number => exact absurd same.symm (functionLabel_ne_mainLabel _ number)
        | arm which number => exact absurd same (mainLabel_ne_arm number which)
    | function name? number =>
        cases other with
        | script => exact absurd same (functionLabel_ne_mainLabel _ number)
        | function other? number' =>
            obtain ⟨stems, numbers⟩ := functionLabel_inj same
            have names := labelStem_inj (dollar_notMem_of_isWorded worded)
              (dollar_notMem_of_isWorded worded') stems
            rw [names, numbers]
        | arm which number' => exact absurd same (functionLabel_ne_arm _ number number' which)
    | arm which number =>
        cases other with
        | script => exact absurd same.symm (mainLabel_ne_arm number which)
        | function other? number' =>
            exact absurd same.symm (functionLabel_ne_arm _ number' number which)
        | arm which' number' =>
            obtain ⟨arms, numbers⟩ := Arm.label_inj same
            rw [arms, numbers]
  · intro same
    rw [same]

/-- A name that ends in an underscore is not taken for a shorter one with another number. -/
theorem trailingUnderscore_label :
    (Origin.function (some "a_") 1).label = "a$$1" ∧
      (Origin.function (some "a") 11).label = "a$11" ∧
      (Origin.function (some "a_") 1).IsWorded ∧ (Origin.function (some "a") 11).IsWorded ∧
      ((Origin.function (some "a_") 1).label = (Origin.function (some "a") 11).label ↔
        Origin.function (some "a_") 1 = Origin.function (some "a") 11) := by
  have worded : (Origin.function (some "a_") 1).IsWorded :=
    List.all_eq_true.mp (by decide)
  have worded' : (Origin.function (some "a") 11).IsWorded :=
    List.all_eq_true.mp (by decide)
  exact ⟨by decide, by decide, worded, worded', label_eq_iff worded worded'⟩

end StackScript.Code
