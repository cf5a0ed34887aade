import Mathlib.Data.List.Forall2

/-!
# Lists and options side by side

What the proofs need of lists and options whatever is in them: members that are related one by
one, and lists that are put together around a separator.
-/

namespace StackScript

variable {α β γ δ : Type}

section Lists

variable {relation : α → β → Prop} {items : List α} {others : List β}

/-- A list of values with a property. -/
theorem forall₂_self_iff {holds : α → Prop} {values values' : List α} :
    List.Forall₂ (fun value value' => holds value ∧ value = value') values values' ↔
      (∀ value ∈ values, holds value) ∧ values = values' := by
  rw [List.forall₂_and_left, List.forall₂_eq_eq_eq]

theorem map_eq_map_iff_forall₂ {left : α → γ} {right : β → γ} :
    items.map left = others.map right ↔
      List.Forall₂ (fun item other => left item = right other) items others := by
  rw [← List.forall₂_eq_eq_eq, List.forall₂_map_left_iff, List.forall₂_map_right_iff]

theorem forall₂_of_map_eq {left : α → γ} {right : β → γ}
    (same : items.map left = others.map right)
    (related : ∀ item, ∀ other ∈ others, left item = right other → relation item other) :
    List.Forall₂ relation items others := by
  have equal := map_eq_map_iff_forall₂.mp same
  clear same
  induction equal with
  | nil => exact .nil
  | @cons item other _ _ first _ ih =>
      have relatedBoth := fun item => List.forall_mem_cons.mp (related item)
      exact .cons ((relatedBoth item).1 first) (ih fun item => (relatedBoth item).2)

theorem forall_mem_of_forall₂ {holds : α → Prop} {holdsToo : β → Prop}
    (related : List.Forall₂ relation items others) (each : ∀ item ∈ items, holds item)
    (carries : ∀ item other, relation item other → holds item → holdsToo other) :
    ∀ other ∈ others, holdsToo other := by
  induction related with
  | nil =>
      intro other member
      cases member
  | cons first _ ih =>
      have eachBoth := List.forall_mem_cons.mp each
      exact List.forall_mem_cons.mpr ⟨carries _ _ first eachBoth.1, ih eachBoth.2⟩

/-- Two lists that are both related to a third one. -/
theorem forall₂_through {other : α → γ → Prop} {result : β → γ → Prop} {right : List γ}
    (first : List.Forall₂ relation items others) (second : List.Forall₂ other items right)
    (both : ∀ item value image, relation item value → other item image → result value image) :
    List.Forall₂ result others right := by
  induction first generalizing right with
  | nil =>
      cases second
      exact .nil
  | cons here _ ih =>
      cases second with
      | cons there later => exact .cons (both _ _ _ here there) (ih later)

theorem getElem?_related (related : List.Forall₂ relation items others) (index : Nat) :
    Option.Rel relation items[index]? others[index]? := by
  induction related generalizing index with
  | nil => exact .none
  | cons first rest ih =>
      cases index with
      | zero => exact .some first
      | succ index => exact ih index

theorem set_related (related : List.Forall₂ relation items others) (index : Nat) {value : α}
    {other : β} (values : relation value other) :
    List.Forall₂ relation (items.set index value) (others.set index other) := by
  induction related generalizing index with
  | nil => exact .nil
  | cons first rest ih =>
      cases index with
      | zero => exact .cons values rest
      | succ index => exact .cons first (ih index)

end Lists

section Options

variable {relation : α → β → Prop} {later : γ → δ → Prop} {first : Option α} {second : Option β}

theorem optionRel_cases (related : Option.Rel relation first second) :
    (first = none ∧ second = none) ∨
      ∃ value other, first = some value ∧ second = some other ∧ relation value other := by
  cases related with
  | none => exact .inl ⟨rfl, rfl⟩
  | some values => exact .inr ⟨_, _, rfl, rfl, values⟩

theorem optionRel_bind {left : α → Option γ} {right : β → Option δ}
    (related : Option.Rel relation first second)
    (keeps : ∀ value other, relation value other → Option.Rel later (left value) (right other)) :
    Option.Rel later (first.bind left) (second.bind right) := by
  cases related with
  | none => exact .none
  | some values => exact keeps _ _ values

theorem optionRel_map {left : α → γ} {right : β → δ} (related : Option.Rel relation first second)
    (keeps : ∀ value other, relation value other → later (left value) (right other)) :
    Option.Rel later (first.map left) (second.map right) := by
  cases related with
  | none => exact .none
  | some values => exact .some (keeps _ _ values)

/-- Two images of the same value, if there is one. -/
theorem optionRel_map_self {left : α → γ} {right : α → δ}
    (keeps : ∀ value, first = some value → later (left value) (right value)) :
    Option.Rel later (first.map left) (first.map right) := by
  cases first with
  | none => exact .none
  | some value => exact .some (keeps value rfl)

theorem optionRel_or {third : Option α} {fourth : Option β}
    (related : Option.Rel relation first second) (otherwise : Option.Rel relation third fourth) :
    Option.Rel relation (first.or third) (second.or fourth) := by
  cases related with
  | none => exact otherwise
  | some values => exact .some values

end Options

section Separators

variable {separator : α} {left right after after' : List α}

/-- Two lists that end where a separator follows, or nothing, are the same if all is. -/
theorem append_inj_of_notMem (leftPlain : separator ∉ left) (rightPlain : separator ∉ right)
    (stops : ∀ next ∈ after.head?, next = separator)
    (stops' : ∀ next ∈ after'.head?, next = separator)
    (same : left ++ after = right ++ after') : left = right ∧ after = after' := by
  -- If one list were longer, it would go on with the separator that follows the other.
  rcases List.append_eq_append_iff.mp same with
    ⟨excess, isRight, isAfter⟩ | ⟨excess, isLeft, isAfter⟩
  · cases excess with
    | nil => exact ⟨by rw [isRight, List.append_nil], isAfter⟩
    | cons next rest =>
        have isSeparator := stops next (by rw [isAfter]; rfl)
        exact absurd (by simp [isRight, isSeparator]) rightPlain
  · cases excess with
    | nil => exact ⟨by rw [isLeft, List.append_nil], isAfter.symm⟩
    | cons next rest =>
        have isSeparator := stops' next (by rw [isAfter]; rfl)
        exact absurd (by simp [isLeft, isSeparator]) leftPlain

/-- What follows the last occurrence of a separator determines what comes before. -/
theorem append_cons_inj_of_notMem_right (leftFree : separator ∉ after)
    (rightFree : separator ∉ after')
    (same : left ++ separator :: after = right ++ separator :: after') :
    left = right ∧ after = after' := by
  have reversed : after.reverse ++ separator :: left.reverse =
      after'.reverse ++ separator :: right.reverse := by
    simpa using congrArg List.reverse same
  obtain ⟨sameAfter, sameLeft⟩ := append_inj_of_notMem (by simpa using leftFree)
    (by simpa using rightFree) (by simp) (by simp) reversed
  exact ⟨List.reverse_injective (List.cons.inj sameLeft).2, List.reverse_injective sameAfter⟩

end Separators

theorem suffix_tail_of_cons_suffix {α : Type} {value : α} {rest values : List α}
    (isSuffix : value :: rest <:+ values) : rest <:+ values.tail := by
  apply List.suffix_of_suffix_length_le ((List.suffix_cons value rest).trans isSuffix)
    (List.tail_suffix values)
  have shorter := isSuffix.length_le
  rw [List.length_cons] at shorter
  rw [List.length_tail]
  omega

end StackScript
