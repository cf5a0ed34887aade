import StackScript.Proofs.Depth.Discipline

/-!
# Labels put back among the instructions

The table of stack code keeps its labels apart from its instructions.  If no label occurs twice,
nothing is lost: the labels can be put back one after another, in the order of the table, and the
code is there again (`rejoined_ofCode`).  A label that occurs again is in the table once, with the
number of instructions before its last occurrence (`mem_labels_ofCode`).
-/

namespace StackScript

namespace Ledger

variable {κ ν : Type} [DecidableEq κ] {ledger : Ledger κ ν} {key : κ} {value : ν}

/-- A new key goes last. -/
theorem set_of_notMem (fresh : key ∉ ledger.map Prod.fst) :
    set key value ledger = ledger ++ [(key, value)] := by
  induction ledger with
  | nil => rfl
  | cons entry rest ih =>
      obtain ⟨other, old⟩ := entry
      rw [List.map_cons, List.mem_cons, not_or] at fresh
      rw [set, if_neg (Ne.symm fresh.1), ih fresh.2, List.cons_append]

theorem nodup_set (nodup : (ledger.map Prod.fst).Nodup) :
    ((set key value ledger).map Prod.fst).Nodup := by
  rw [map_fst_set]
  split
  · exact nodup
  · rename_i fresh
    rw [List.nodup_append]
    refine ⟨nodup, List.nodup_singleton key, ?_⟩
    intro entered member last isLast same
    rw [List.mem_singleton] at isLast
    exact fresh (isLast ▸ same ▸ member)

/-- If the keys are different, each entry is the one that is found under its key. -/
theorem mem_iff_get? (nodup : (ledger.map Prod.fst).Nodup) :
    (key, value) ∈ ledger ↔ ledger.get? key = some value := by
  induction ledger with
  | nil => simp [get?]
  | cons entry rest ih =>
      obtain ⟨other, old⟩ := entry
      rw [List.map_cons, List.nodup_cons] at nodup
      rw [List.mem_cons, ih nodup.2, get?]
      by_cases same : other = key
      · subst same
        have notLater : get? other rest ≠ some value := fun found =>
          nodup.1 (List.mem_map.mpr ⟨(other, value), (ih nodup.2).mpr found, rfl⟩)
        simp [notLater, eq_comm]
      · simp [same, Ne.symm same]

end Ledger

namespace Document

open StackScript.Code

/-! ## Putting labels back -/

/-- Puts a label before the instruction with a given number, or at the end if there is no such
instruction. -/
def insertLabel (name : String) : (number : Nat) → List Entry → List Entry
  | _, [] => [.label name]
  | number, .label other :: rest => .label other :: insertLabel name number rest
  | 0, .instruction content :: rest => .label name :: .instruction content :: rest
  | number + 1, .instruction content :: rest =>
      .instruction content :: insertLabel name number rest

/-- Puts labels with their numbers into code, one after another. -/
def insertLabels (places : List (String × Nat)) (entries : List Entry) : List Entry :=
  places.foldl (fun entries place => insertLabel place.1 place.2 entries) entries

/-- The instructions of a table with its labels put back among them. -/
def Table.rejoined (table : Table) : List Entry :=
  insertLabels table.labels (table.instructions.map .instruction)

theorem insertLabels_append (first second : List (String × Nat)) (entries : List Entry) :
    insertLabels (first ++ second) entries = insertLabels second (insertLabels first entries) :=
  List.foldl_append

section Insertion

variable {name : String} {number : Nat} {entries : List Entry}

/-- After all instructions a label goes last. -/
theorem insertLabel_size (name : String) (entries : List Entry) :
    insertLabel name (size entries) entries = entries ++ [.label name] := by
  induction entries with
  | nil => rfl
  | cons entry rest ih =>
      cases entry with
      | label other => rw [size_label, insertLabel, ih, List.cons_append]
      | instruction content => rw [size_instruction, insertLabel, ih, List.cons_append]

theorem size_insertLabel (name : String) (number : Nat) (entries : List Entry) :
    size (insertLabel name number entries) = size entries := by
  fun_induction insertLabel name number entries with
  | case1 => rfl
  | case2 number other rest ih => rw [size_label, size_label, ih]
  | case3 => rfl
  | case4 number content rest ih => rw [size_instruction, size_instruction, ih]

/-- An instruction at the end stays there if the label belongs before or right after the
instructions in front of it. -/
theorem insertLabel_append_instruction (content : Instruction) (inside : number ≤ size entries) :
    insertLabel name number (entries ++ [.instruction content]) =
      insertLabel name number entries ++ [.instruction content] := by
  fun_induction insertLabel name number entries with
  | case1 number =>
      cases Nat.le_zero.mp inside
      rfl
  | case2 number other rest ih =>
      rw [List.cons_append, insertLabel, ih inside, List.cons_append]
  | case3 other rest => rfl
  | case4 number other rest ih =>
      rw [size_instruction] at inside
      rw [List.cons_append, insertLabel, ih (Nat.le_of_succ_le_succ inside), List.cons_append]

theorem insertLabels_append_instruction (content : Instruction) {places : List (String × Nat)}
    (inside : ∀ place ∈ places, place.2 ≤ size entries) :
    insertLabels places (entries ++ [.instruction content]) =
      insertLabels places entries ++ [.instruction content] := by
  induction places generalizing entries with
  | nil => rfl
  | cons place rest ih =>
      obtain ⟨first, later⟩ := List.forall_mem_cons.mp inside
      rw [insertLabels, List.foldl_cons, insertLabel_append_instruction content first]
      apply ih
      intro other member
      rw [size_insertLabel]
      exact later other member

end Insertion

theorem size_map_instruction (instructions : List Instruction) :
    size (instructions.map .instruction) = instructions.length := by
  induction instructions with
  | nil => rfl
  | cons content rest ih => rw [List.map_cons, size_instruction, ih, List.length_cons]

/-- The points of labels are not beyond the last instruction. -/
theorem labelPoints_le {entries : List Entry} {number : Nat} {place : String × Nat}
    (member : place ∈ labelPoints number entries) : place.2 ≤ number + size entries := by
  induction entries generalizing number with
  | nil => cases member
  | cons entry rest ih =>
      cases entry with
      | label name =>
          rcases List.mem_cons.mp member with rfl | later
          · exact Nat.le_add_right _ _
          · exact ih later
      | instruction content =>
          have bound := ih member
          rw [size_instruction]
          omega

/-- Labels at their points and the instructions make up the code. -/
theorem insertLabels_labelPoints (entries : List Entry) :
    insertLabels (labelPoints 0 entries) ((instructionsOf entries).map .instruction) =
      entries := by
  -- The code grows at its end, as it does when the table is filled.
  induction entries using List.reverseRecOn with
  | nil => rfl
  | append_singleton entries entry ih =>
      rw [labelPoints_append, instructionsOf_append, List.map_append, Nat.zero_add]
      cases entry with
      | label name =>
          change insertLabels (labelPoints 0 entries ++ [(name, size entries)]) _ = _
          rw [instructionsOf_label, instructionsOf_nil, List.map_nil, List.append_nil,
            insertLabels_append, ih]
          exact insertLabel_size name entries
      | instruction content =>
          change insertLabels (labelPoints 0 entries ++ []) _ = _
          rw [List.append_nil, instructionsOf_instruction, instructionsOf_nil, List.map_singleton,
            insertLabels_append_instruction, ih]
          intro place member
          rw [size_map_instruction, ← Nat.zero_add (List.length _)]
          exact labelPoints_le member

section Tables

variable {entries : List Entry} {name : String} {number : Nat}

/-- Labels that have not been entered before are entered in the order of the code. -/
theorem enterLabels_of_nodup {labels : Ledger String Nat} (number : Nat)
    (nodup : (labels.map Prod.fst ++ labelsOf entries).Nodup) :
    enterLabels number labels entries = labels ++ labelPoints number entries := by
  induction entries generalizing number labels with
  | nil => rw [enterLabels, labelPoints, List.append_nil]
  | cons entry rest ih =>
      cases entry with
      | label name =>
          rw [labelsOf_label] at nodup
          have fresh : name ∉ labels.map Prod.fst := fun entered =>
            List.disjoint_of_nodup_append nodup entered List.mem_cons_self
          have entered : (labels ++ [(name, number)]).map Prod.fst ++ labelsOf rest =
              labels.map Prod.fst ++ name :: labelsOf rest := by
            rw [List.map_append, List.append_assoc]
            rfl
          rw [enterLabels, Ledger.set_of_notMem fresh, ih number (entered ▸ nodup),
            List.append_assoc]
          rfl
      | instruction content => exact ih (number + 1) nodup

/-- If no label occurs twice, the labels of the table put back among its instructions give the
code again. -/
theorem rejoined_ofCode (nodup : (labelsOf entries).Nodup) :
    (Table.ofCode entries).rejoined = entries := by
  have labels : (Table.ofCode entries).labels = labelPoints 0 entries :=
    enterLabels_of_nodup 0 nodup
  rw [Table.rejoined, labels]
  exact insertLabels_labelPoints entries

theorem nodup_enterLabels {labels : Ledger String Nat} (number : Nat) (entries : List Entry)
    (nodup : (labels.map Prod.fst).Nodup) :
    ((enterLabels number labels entries).map Prod.fst).Nodup := by
  induction entries generalizing number labels with
  | nil => exact nodup
  | cons entry rest ih =>
      cases entry with
      | label name => exact ih number (Ledger.nodup_set nodup)
      | instruction content => exact ih (number + 1) nodup

theorem exists_last_label (occurs : name ∈ labelsOf entries) :
    ∃ before after, entries = before ++ .label name :: after ∧ name ∉ labelsOf after := by
  induction entries with
  | nil => cases occurs
  | cons entry rest ih =>
      by_cases later : name ∈ labelsOf rest
      · obtain ⟨before, after, rfl, last⟩ := ih later
        exact ⟨entry :: before, after, rfl, last⟩
      · cases entry with
        | label other =>
            rcases List.mem_cons.mp occurs with rfl | inRest
            · exact ⟨[], rest, rfl, later⟩
            · exact absurd inRest later
        | instruction content => exact absurd occurs later

/-- A label leads to a number if so many instructions come before its last occurrence. -/
theorem place?_eq_some_iff :
    place? name entries = some number ↔
      ∃ before after, entries = before ++ .label name :: after ∧ name ∉ labelsOf after ∧
        number = (instructionsOf before).length := by
  constructor
  · intro leads
    have occurs : name ∈ labelsOf entries := by
      by_contra missing
      rw [place?_eq_none_iff.mpr missing] at leads
      cases leads
    obtain ⟨before, after, rfl, last⟩ := exists_last_label occurs
    rw [place?_of_last before last, Option.some.injEq] at leads
    exact ⟨before, after, rfl, last, leads.symm⟩
  · rintro ⟨before, after, rfl, last, rfl⟩
    exact place?_of_last before last

theorem nodup_labels_ofCode (entries : List Entry) :
    ((Table.ofCode entries).labels.map Prod.fst).Nodup :=
  nodup_enterLabels 0 entries List.nodup_nil

/-- The table holds a label with the number of instructions before its last occurrence. -/
theorem mem_labels_ofCode :
    (name, number) ∈ (Table.ofCode entries).labels ↔
      ∃ before after, entries = before ++ .label name :: after ∧ name ∉ labelsOf after ∧
        number = (instructionsOf before).length := by
  rw [Ledger.mem_iff_get? (nodup_labels_ofCode entries), get?_ofCode, place?_eq_some_iff]

end Tables

/-- The table of stack code loses nothing but earlier occurrences of labels: code in which no
label occurs twice is there again when the labels are put back, and of any code the table holds
each label once, with the number of instructions before its last occurrence. -/
theorem ofCode_lossless (entries : List Entry) :
    ((labelsOf entries).Nodup → (Table.ofCode entries).rejoined = entries) ∧
      ((Table.ofCode entries).labels.map Prod.fst).Nodup ∧
      ∀ name number, (name, number) ∈ (Table.ofCode entries).labels ↔
        ∃ before after, entries = before ++ .label name :: after ∧ name ∉ labelsOf after ∧
          number = (instructionsOf before).length :=
  ⟨rejoined_ofCode, nodup_labels_ofCode entries, fun _ _ => mem_labels_ofCode⟩

/-- Code with labels in front, at its end and two at the same instruction. -/
def stackedLabels : List Entry :=
  [.label "a", .label "b", .of .negate .nothing, .label "c", .of .halt .nothing, .label "d"]

/-- The labels of `stackedLabels` are kept at 0, 0, 1 and 2, and put back they give the code.  If
the first label occurs again at the end, it leads there. -/
theorem stackedLabels_lossless :
    (Table.ofCode stackedLabels).labels = [("a", 0), ("b", 0), ("c", 1), ("d", 2)] ∧
      (Table.ofCode stackedLabels).rejoined = stackedLabels ∧
      ("a", 2) ∈ (Table.ofCode (stackedLabels ++ [.label "a"])).labels :=
  ⟨by decide, (ofCode_lossless stackedLabels).1 (by decide),
    ((ofCode_lossless (stackedLabels ++ [.label "a"])).2.2 "a" 2).mpr
      ⟨stackedLabels, [], rfl, by decide, by decide⟩⟩

end Document

end StackScript
