import StackScript.Text.Numeral
import Mathlib.Data.List.TakeWhile

/-!
# Numerals of digits

Digits of any writing system make up a numeral, and it is refused only if there are too many of
them (`readNumeral_of_isDigit`, `readUnsigned_of_isDigit`).
-/

namespace StackScript.Text

/-- The table of digits and that of blanks have no character in common. -/
theorem isMargin_of_isDigit {character : Char} (isOne : isDigit character = true) :
    isMargin character = false := by
  have apart : ∀ start ∈ digitZeros, ∀ range ∈ blankRanges,
      start + 10 ≤ range.1 ∨ range.2 < start := by decide
  obtain ⟨value, isValue⟩ := Option.isSome_iff_exists.mp isOne
  obtain ⟨start, found, _⟩ := Option.map_eq_some_iff.mp isValue
  have inRun := List.find?_some found
  simp only [Bool.and_eq_true, decide_eq_true_eq] at inRun
  have notBlank : isBlank character = false := by
    rw [isBlank, List.any_eq_false]
    intro range inRanges
    have outside := apart start (List.mem_of_find?_eq_some found) range inRanges
    simp only [Bool.and_eq_true, decide_eq_true_eq]
    omega
  rw [isMargin, notBlank, Bool.false_and]

theorem wellSeparated_of_notMem {run : List Char} (noUnderscore : '_' ∉ run) :
    wellSeparated run = true := by
  fun_induction wellSeparated run with
  | case1 => rfl
  | case2 => simp at noUnderscore
  | case3 => simp at noUnderscore
  | case4 first rest _ _ ih => exact ih fun member => noUnderscore (List.mem_cons_of_mem _ member)

section Digits

variable {digits : List Char} (areDigits : ∀ character ∈ digits, isDigit character = true)
include areDigits

theorem readUnsigned_of_isDigit (notEmpty : digits ≠ []) :
    readUnsigned digits =
      if digitLimit < digits.length then .error (.tooLong digits.length)
      else .ok (valueOfDigits 0 (digits.filterMap digitValue?)) := by
  have inRun : ∀ character ∈ digits, (isDigit character || character = '_') = true := by
    intro character member
    rw [areDigits character member, Bool.true_or]
  have run : digits.takeWhile (fun character => isDigit character || character = '_') = digits :=
    List.takeWhile_eq_self_iff.mpr inRun
  have rest : digits.dropWhile (fun character => isDigit character || character = '_') = [] :=
    List.dropWhile_eq_nil_iff.mpr inRun
  have noUnderscore : '_' ∉ digits := fun member => absurd (areDigits _ member) (by decide)
  have first : digits.head? ≠ some '_' := fun isFirst => noUnderscore (List.mem_of_head? isFirst)
  have count : (digits.filterMap digitValue?).length = digits.length := by
    rw [List.length_filterMap_eq_countP, List.countP_eq_length]
    exact areDigits
  simp only [readUnsigned, run, rest, count, wellSeparated_of_notMem noUnderscore]
  simp [first, notEmpty]

/-- Digits have neither margins nor a sign. -/
theorem readNumeral_of_isDigit {text : String} (isText : text.toList = digits)
    (notEmpty : digits ≠ []) :
    readNumeral text = (readUnsigned digits).map fun value => (value : Int) := by
  obtain ⟨first, others, rfl⟩ := List.exists_cons_of_ne_nil notEmpty
  have isOne := areDigits first List.mem_cons_self
  rw [readNumeral, isText, List.dropWhile_cons_of_neg (by simp [isMargin_of_isDigit isOne])]
  split
  · rename_i same
    cases same
    exact absurd isOne (by decide)
  · rename_i same
    cases same
    exact absurd isOne (by decide)
  · rfl

end Digits

end StackScript.Text
