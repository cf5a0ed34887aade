import StackScript.Code.Label
import StackScript.Proofs.Sequences
import Mathlib

/-!
# The text of labels

A label tells what it was made from.  The label of a function ends in its number,
which no dollar sign interrupts, so the stem and the number can be read off it.  The
labels of a conditional end in an underscore, as does the label of the script
itself, so they are no labels of functions.
-/

namespace StackScript.Code

/-- Numerals are written with digits and a minus sign. -/
theorem mem_toString_int {number : Int} {character : Char}
    (member : character ∈ (toString number).toList) :
    character.isDigit = true ∨ character = '-' := by
  rw [Int.toString_eq_repr, Int.repr_eq_if] at member
  split at member
  · left
    rw [Nat.toList_repr] at member
    exact Nat.isDigit_of_mem_toDigits (by decide) (by decide) member
  · rw [String.toList_append, List.mem_append, Nat.toList_repr] at member
    rcases member with sign | digit
    · right
      simpa using sign
    · left
      exact Nat.isDigit_of_mem_toDigits (by decide) (by decide) digit

theorem dollar_notMem_toString_int (number : Int) : '$' ∉ (toString number).toList := by
  intro member
  rcases mem_toString_int member with digit | sign
  · exact absurd digit (by decide)
  · exact absurd sign (by decide)

theorem underscore_notMem_toString_int (number : Int) : '_' ∉ (toString number).toList := by
  intro member
  rcases mem_toString_int member with digit | sign
  · exact absurd digit (by decide)
  · exact absurd sign (by decide)

theorem toString_int_ne_empty (number : Int) : (toString number).toList ≠ [] := by
  rw [Int.toString_eq_repr, Int.repr_eq_if]
  split
  · rw [Nat.toList_repr]
    exact Nat.toDigits_ne_nil
  · rw [String.toList_append]
    simp

/-- How a character of a name is written in a label. -/
def escapeCharacter (character : Char) : List Char :=
  if character = '$' then ['$', '$'] else if character = '_' then ['$'] else [character]

theorem toList_escapeName (name : String) :
    (escapeName name).toList = name.toList.flatMap escapeCharacter := by
  simp only [escapeName, String.toList_ofList]
  rfl

theorem escapeCharacter_ne_nil (character : Char) : escapeCharacter character ≠ [] := by
  unfold escapeCharacter
  split
  · simp
  · split <;> simp

/-- Whether a name stands unchanged in labels. -/
def IsPlainName (name : String) : Prop :=
  '$' ∉ name.toList ∧ '_' ∉ name.toList

instance (name : String) : Decidable (IsPlainName name) :=
  inferInstanceAs (Decidable (_ ∧ _))

theorem flatMap_escapeCharacter_of_plain {characters : List Char}
    (noDollar : '$' ∉ characters) (noUnderscore : '_' ∉ characters) :
    characters.flatMap escapeCharacter = characters := by
  induction characters with
  | nil => rfl
  | cons character rest ih =>
      simp only [List.mem_cons, not_or] at noDollar noUnderscore
      simp [escapeCharacter, Ne.symm noDollar.1, Ne.symm noUnderscore.1,
        ih noDollar.2 noUnderscore.2]

theorem escapeName_of_plain {name : String} (plain : IsPlainName name) :
    escapeName name = name := by
  rw [← String.toList_inj, toList_escapeName]
  exact flatMap_escapeCharacter_of_plain plain.1 plain.2

/-- A name that is changed in labels leaves a dollar sign there. -/
theorem dollar_mem_escapeName {name : String} (changed : ¬ IsPlainName name) :
    '$' ∈ (escapeName name).toList := by
  rw [toList_escapeName, List.mem_flatMap]
  by_cases dollar : '$' ∈ name.toList
  · exact ⟨'$', dollar, by decide⟩
  · have underscore : '_' ∈ name.toList := by
      by_contra missing
      exact changed ⟨dollar, missing⟩
    exact ⟨'_', underscore, by decide⟩

theorem escapeName_eq_of_dollar_notMem {name stem : String} (escaped : escapeName name = stem)
    (noDollar : '$' ∉ stem.toList) : name = stem := by
  by_cases plain : IsPlainName name
  · rw [← escaped, escapeName_of_plain plain]
  · exact absurd (escaped ▸ dollar_mem_escapeName plain) noDollar

/-- Only a function with the name `if` could share its counts with conditionals. -/
theorem labelStem_ne_if {name? : Option String} (other : name? ≠ branchKey) :
    labelStem name? ≠ "if" := by
  intro same
  cases name? with
  | none => exact absurd same (by decide)
  | some name =>
      have equal := escapeName_eq_of_dollar_notMem same (by decide)
      exact other (congrArg some equal)

/-- Names without dollar signs have different stems. -/
theorem escapeName_inj {left right : String} (leftPlain : '$' ∉ left.toList)
    (rightPlain : '$' ∉ right.toList) (same : escapeName left = escapeName right) :
    left = right := by
  rw [← String.toList_inj, toList_escapeName, toList_escapeName] at same
  rw [← String.toList_inj]
  generalize left.toList = first at *
  generalize right.toList = second at *
  induction first generalizing second with
  | nil =>
      cases second with
      | nil => rfl
      | cons character rest => simp [escapeCharacter_ne_nil] at same
  | cons character rest ih =>
      cases second with
      | nil => simp [escapeCharacter_ne_nil] at same
      | cons other others =>
          simp only [List.mem_cons, not_or] at leftPlain rightPlain
          have characterNe : character ≠ '$' := fun equal => leftPlain.1 equal.symm
          have otherNe : other ≠ '$' := fun equal => rightPlain.1 equal.symm
          simp only [List.flatMap_cons, escapeCharacter, characterNe, otherNe, if_false] at same
          by_cases isUnderscore : character = '_' <;>
            by_cases otherUnderscore : other = '_' <;>
            simp [isUnderscore, otherUnderscore] at same
          · rw [isUnderscore, otherUnderscore, ih leftPlain.2 others rightPlain.2 same]
          · exact absurd same.1.symm otherNe
          · exact absurd same.1 characterNe
          · rw [same.1, ih leftPlain.2 others rightPlain.2 same.2]

theorem underscore_notMem_escapeName (name : String) : '_' ∉ (escapeName name).toList := by
  rw [toList_escapeName, List.mem_flatMap]
  rintro ⟨character, _, member⟩
  unfold escapeCharacter at member
  split at member
  · simp at member
  · split at member
    · simp at member
    · rename_i other
      exact other (List.mem_singleton.mp member).symm

/-- The stem of a label tells which name the function has. -/
theorem labelStem_inj {left right : Option String}
    (leftFree : ∀ name, left = some name → '$' ∉ name.toList)
    (rightFree : ∀ name, right = some name → '$' ∉ name.toList)
    (same : labelStem left = labelStem right) : left = right := by
  cases left with
  | none =>
      cases right with
      | none => rfl
      | some name =>
          have underscore : '_' ∈ (labelStem none).toList := by decide
          rw [same] at underscore
          exact absurd underscore (underscore_notMem_escapeName name)
  | some first =>
      cases right with
      | none =>
          have underscore : '_' ∈ (labelStem none).toList := by decide
          rw [← same] at underscore
          exact absurd underscore (underscore_notMem_escapeName first)
      | some second =>
          rw [escapeName_inj (leftFree first rfl) (rightFree second rfl) same]

/-! ## Labels of functions -/

theorem toList_functionLabel (stem : String) (number : Int) :
    (functionLabel stem number).toList = stem.toList ++ '$' :: (toString number).toList := by
  simp [functionLabel]

/-- The stem and the number of a function can be read off its label. -/
theorem functionLabel_inj {left right : String} {first second : Int}
    (same : functionLabel left first = functionLabel right second) :
    left = right ∧ first = second := by
  rw [← String.toList_inj, toList_functionLabel, toList_functionLabel] at same
  obtain ⟨stems, numbers⟩ := append_cons_inj_of_notMem_right
    (dollar_notMem_toString_int first) (dollar_notMem_toString_int second) same
  exact ⟨String.toList_inj.mp stems, Int.repr_injective (String.toList_inj.mp numbers)⟩

/-- The last character of the label of a function is no underscore. -/
theorem getLast?_functionLabel_ne (stem : String) (number : Int) :
    (functionLabel stem number).toList.getLast? ≠ some '_' := by
  intro ends
  rw [toList_functionLabel, List.getLast?_append, List.getLast?_cons,
    List.getLast?_eq_some_getLast (toString_int_ne_empty number)] at ends
  simp only [Option.getD_some, Option.some_or, Option.some.injEq] at ends
  exact underscore_notMem_toString_int number (ends ▸ List.getLast_mem _)

def branchLabels (number : Int) : List String :=
  [thenLabel number, elseLabel number, endLabel number]

theorem toList_thenLabel (number : Int) :
    (thenLabel number).toList =
      '_' :: '_' :: 'i' :: 'f' :: '$' :: ((toString number).toList ++ ['_', '_']) := by
  simp [thenLabel]

theorem toList_elseLabel (number : Int) :
    (elseLabel number).toList =
      '_' :: '_' :: 'e' :: 'l' :: 's' :: 'e' :: '$' ::
        ((toString number).toList ++ ['_', '_']) := by
  simp [elseLabel]

theorem toList_endLabel (number : Int) :
    (endLabel number).toList =
      '_' :: '_' :: 'e' :: 'n' :: 'd' :: 'i' :: 'f' :: '$' ::
        ((toString number).toList ++ ['_', '_']) := by
  simp [endLabel]

theorem getLast?_branchLabel {number : Int} {label : String}
    (member : label ∈ branchLabels number) : label.toList.getLast? = some '_' := by
  simp only [branchLabels, List.mem_cons, List.not_mem_nil, or_false] at member
  rcases member with rfl | rfl | rfl
  · rw [toList_thenLabel]
    simp [List.getLast?_cons, List.getLast?_append]
  · rw [toList_elseLabel]
    simp [List.getLast?_cons, List.getLast?_append]
  · rw [toList_endLabel]
    simp [List.getLast?_cons, List.getLast?_append]

/-- The label of a function is no label of a conditional. -/
theorem functionLabel_notMem_branchLabels (stem : String) (first second : Int) :
    functionLabel stem first ∉ branchLabels second := fun member =>
  getLast?_functionLabel_ne stem first (getLast?_branchLabel member)

theorem functionLabel_ne_mainLabel (stem : String) (number : Int) :
    functionLabel stem number ≠ mainLabel := by
  intro same
  apply getLast?_functionLabel_ne stem number
  rw [same]
  decide

theorem mainLabel_notMem_branchLabels (number : Int) : mainLabel ∉ branchLabels number := by
  intro member
  have dollar : '$' ∈ mainLabel.toList := by
    simp only [branchLabels, List.mem_cons, List.not_mem_nil, or_false] at member
    rcases member with same | same | same
    · rw [same, toList_thenLabel]
      simp
    · rw [same, toList_elseLabel]
      simp
    · rw [same, toList_endLabel]
      simp
  exact absurd dollar (by decide)

/-- The three labels of a conditional are different. -/
theorem branchLabels_nodup (number : Int) : (branchLabels number).Nodup := by
  have thenElse : thenLabel number ≠ elseLabel number := by
    rw [Ne, ← String.toList_inj, toList_thenLabel, toList_elseLabel]
    simp
  have thenEnd : thenLabel number ≠ endLabel number := by
    rw [Ne, ← String.toList_inj, toList_thenLabel, toList_endLabel]
    simp
  have elseEnd : elseLabel number ≠ endLabel number := by
    rw [Ne, ← String.toList_inj, toList_elseLabel, toList_endLabel]
    simp
  simp [branchLabels, thenElse, thenEnd, elseEnd]

/-- The number of a conditional can be read off each of its labels. -/
theorem eq_of_mem_branchLabels {left right : Int} {label : String}
    (inLeft : label ∈ branchLabels left) (inRight : label ∈ branchLabels right) :
    left = right := by
  simp only [branchLabels, List.mem_cons, List.not_mem_nil, or_false] at inLeft inRight
  have cancel {first second : Int}
      (same : (toString first).toList ++ ['_', '_'] = (toString second).toList ++ ['_', '_']) :
      first = second :=
    Int.repr_injective (String.toList_inj.mp (List.append_cancel_right same))
  rcases inLeft with rfl | rfl | rfl <;> rcases inRight with same | same | same <;>
    rw [← String.toList_inj] at same <;>
    simp only [toList_thenLabel, toList_elseLabel, toList_endLabel, List.cons.injEq,
      Char.reduceEq, true_and, false_and, and_false] at same
  all_goals exact cancel same

/-- Conditionals with different numbers have different labels. -/
theorem flatMap_branchLabels_nodup {numbers : List Int} (nodup : numbers.Nodup) :
    (numbers.flatMap branchLabels).Nodup := by
  rw [List.nodup_flatMap]
  refine ⟨fun number _ => branchLabels_nodup number, ?_⟩
  refine nodup.imp ?_
  intro left right different label inLeft inRight
  exact different (eq_of_mem_branchLabels inLeft inRight)

end StackScript.Code
