import StackScript.Proofs.Labels.Layout
import Mathlib.Data.List.Induction

/-!
# When labels are distinct

The number of a function's label is looked up under the escaped name and entered under
the name itself.  So the functions with a name that has an underscore all get the
number 0, and the functions without a name are told apart only by a function
`__lambda__` that stands between them.  `Distinguished` says for which scripts this
does no harm: exactly for these the labels of the code are distinct, and exactly for
these every function is closed over under a label that leads to its own block.
-/

namespace StackScript.Code

/-- No count is kept before the first function. -/
def noCounts : Option String → Int := fun _ => 0

/-- The counts after functions with the given names. -/
def countsAfter (names : List (Option String)) : Option String → Int :=
  names.foldl countLabel noCounts

/-- No name has a dollar sign in it. -/
def DollarFree (names : List (Option String)) : Prop :=
  ∀ name, some name ∈ names → '$' ∉ name.toList

theorem functionCounts_initial : functionCounts Tally.initial = noCounts := by
  funext key
  by_cases same : branchKey = key
  · simp [functionCounts, noCounts, same]
  · simp [functionCounts, noCounts, Tally.initial, Ledger.get?, same]

/-- Plain names are counted, and of all others it is only known whether they have
occurred. -/
theorem countsAfter_some (names : List (Option String)) (dollarFree : DollarFree names)
    (key : String) :
    countsAfter names (some key) =
      if IsPlainName key then (names.count (some key) : Int)
      else if some key ∈ names then 1 else 0 := by
  induction names using List.reverseRecOn generalizing key with
  | nil => simp [countsAfter, noCounts]
  | append_singleton names name? ih =>
      have before : DollarFree names := fun name member =>
        dollarFree name (List.mem_append_left _ member)
      have step : countsAfter (names ++ [name?]) = countLabel (countsAfter names) name? := by
        simp [countsAfter]
      rw [step, countLabel]
      by_cases same : name? = some key
      · subst same
        rw [Function.update_self, labelStem, ih before]
        by_cases plain : IsPlainName key
        · simp [escapeName_of_plain plain, plain]
        · -- The escaped name has a dollar sign, so nothing is counted under it.
          have dollar := dollar_mem_escapeName plain
          have notPlain : ¬ IsPlainName (escapeName key) := fun isPlain => isPlain.1 dollar
          have unknown : some (escapeName key) ∉ names := fun member =>
            before _ member dollar
          simp [notPlain, unknown, plain]
      · have differs : some key ≠ name? := fun equal => same equal.symm
        rw [Function.update_of_ne differs, ih before]
        simp [same, differs, List.count_append]

/-- The name that has to stand between two functions without a name. -/
def separator : Option String := some "__lambda__"

/-- Functions with the same name get the same label if the name has an underscore.
Functions without a name do so if the separator was there already or is still not
there. -/
theorem nextLabel_eq_iff {before between after : List (Option String)}
    {first second : Option String}
    (dollarFree : DollarFree (before ++ first :: between ++ second :: after)) :
    nextLabel (countsAfter before) first =
        nextLabel (countsAfter (before ++ first :: between)) second ↔
      first = second ∧
        match first with
        | none => separator ∈ before ∨ separator ∉ between
        | some name => '_' ∈ name.toList := by
  have firstFree : ∀ name, first = some name → '$' ∉ name.toList := fun name same =>
    dollarFree name (by simp [same])
  have secondFree : ∀ name, second = some name → '$' ∉ name.toList := fun name same =>
    dollarFree name (by simp [same])
  have beforeFree : DollarFree before := fun name member => dollarFree name (by simp [member])
  have betweenFree : DollarFree (before ++ first :: between) := fun name member =>
    dollarFree name (List.mem_append_left _ member)
  have stems : nextLabel (countsAfter before) first =
      nextLabel (countsAfter (before ++ first :: between)) second ↔
        first = second ∧ countsAfter before (some (labelStem first)) =
          countsAfter (before ++ first :: between) (some (labelStem first)) := by
    constructor
    · intro same
      have parts := functionLabel_inj same
      have names := labelStem_inj firstFree secondFree parts.1
      exact ⟨names, names ▸ parts.2⟩
    · rintro ⟨rfl, numbers⟩
      rw [nextLabel, nextLabel, numbers]
  rw [stems]
  refine and_congr_right fun _ => ?_
  rw [countsAfter_some before beforeFree, countsAfter_some _ betweenFree]
  cases first with
  | none =>
      have notPlain : ¬ IsPlainName (labelStem none) := by decide
      have inSequence : separator ∈ before ++ none :: between ↔
          separator ∈ before ∨ separator ∈ between := by
        simp [separator]
      have numbers : (if separator ∈ before then (1 : Int) else 0) =
          (if separator ∈ before ++ none :: between then 1 else 0) ↔
            separator ∈ before ∨ separator ∉ between := by
        rw [if_congr inSequence rfl rfl]
        by_cases earlier : separator ∈ before <;> by_cases later : separator ∈ between <;>
          simp [earlier, later]
      rw [if_neg notPlain, if_neg notPlain]
      exact numbers
  | some name =>
      by_cases plain : IsPlainName name
      · -- A plain name has been counted once more in the meantime.
        have noUnderscore : '_' ∉ name.toList := plain.2
        simp only [labelStem, escapeName_of_plain plain, plain, if_true, noUnderscore, iff_false,
          List.count_append, List.count_cons_self]
        omega
      · have dollar := dollar_mem_escapeName plain
        have notPlain : ¬ IsPlainName (escapeName name) := fun isPlain => isPlain.1 dollar
        have unknownBefore : some (escapeName name) ∉ before := fun member =>
          beforeFree _ member dollar
        have unknownBetween : some (escapeName name) ∉ before ++ some name :: between :=
          fun member => betweenFree _ member dollar
        have underscore : '_' ∈ name.toList := by
          by_contra missing
          exact plain ⟨firstFree name rfl, missing⟩
        simp only [labelStem, notPlain, unknownBefore, unknownBetween, if_false, underscore]

/-- The labels of functions with these names, in the order in which they are
evaluated, are distinct. -/
structure Distinguished (names : List (Option String)) : Prop where
  anonymous : ∀ before between after,
    names = before ++ none :: between ++ none :: after → separator ∈ between
  named : ∀ before between after name,
    names = before ++ some name :: between ++ some name :: after → '_' ∉ name.toList

/-- The labels that are given out, each after those before it. -/
theorem mem_labelsFor {label : String} {before names : List (Option String)} :
    label ∈ labelsFor (countsAfter before) names ↔
      ∃ between name? after, names = between ++ name? :: after ∧
        label = nextLabel (countsAfter (before ++ between)) name? := by
  induction names generalizing before with
  | nil => simp [labelsFor]
  | cons name? rest ih =>
      have step : countLabel (countsAfter before) name? = countsAfter (before ++ [name?]) := by
        simp [countsAfter]
      rw [labelsFor, List.mem_cons, step, ih]
      constructor
      · rintro (rfl | ⟨between, other, after, rfl, rfl⟩)
        · exact ⟨[], name?, rest, rfl, by simp⟩
        · exact ⟨name? :: between, other, after, rfl, by simp⟩
      · rintro ⟨between, other, after, split, rfl⟩
        cases between with
        | nil =>
            cases split
            left
            simp
        | cons head tail =>
            cases split
            right
            exact ⟨tail, other, after, rfl, by simp⟩

/-- Labels are distinct if those of any two functions are. -/
theorem nodup_labelsFor_iff (before names : List (Option String)) :
    (labelsFor (countsAfter before) names).Nodup ↔
      ∀ outside first between second after,
        names = outside ++ first :: between ++ second :: after →
          nextLabel (countsAfter (before ++ outside)) first ≠
            nextLabel (countsAfter (before ++ outside ++ first :: between)) second := by
  induction names generalizing before with
  | nil => simp [labelsFor]
  | cons name? rest ih =>
      have step : countLabel (countsAfter before) name? = countsAfter (before ++ [name?]) := by
        simp [countsAfter]
      rw [labelsFor, List.nodup_cons, step, ih, mem_labelsFor]
      constructor
      · rintro ⟨new, later⟩ outside first between second after split
        cases outside with
        | nil =>
            cases split
            intro same
            exact new ⟨between, second, after, rfl, by simpa using same⟩
        | cons head tail =>
            cases split
            simpa using later tail first between second after rfl
      · intro distinct
        refine ⟨?_, ?_⟩
        · rintro ⟨between, second, after, rfl, same⟩
          exact distinct [] name? between second after rfl (by simpa using same)
        · rintro outside first between second after rfl
          simpa using distinct (name? :: outside) first between second after rfl

/-- Exactly distinguished functions get distinct labels. -/
theorem nodup_labelsFor_iff_distinguished {names : List (Option String)}
    (dollarFree : DollarFree names) :
    (labelsFor noCounts names).Nodup ↔ Distinguished names := by
  rw [show noCounts = countsAfter [] from rfl, nodup_labelsFor_iff]
  constructor
  · intro distinct
    constructor
    · rintro before between after rfl
      by_contra missing
      refine distinct before none between none after rfl ?_
      exact (nextLabel_eq_iff dollarFree).mpr ⟨rfl, .inr missing⟩
    · rintro before between after name rfl underscore
      refine distinct before (some name) between (some name) after rfl ?_
      exact (nextLabel_eq_iff dollarFree).mpr ⟨rfl, underscore⟩
  · rintro distinguished before first between second after rfl same
    have equal := (nextLabel_eq_iff dollarFree).mp same
    rcases equal with ⟨rfl, collide⟩
    cases first with
    | none =>
        have isBetween := distinguished.anonymous before between after rfl
        rcases collide with isBefore | isNotBetween
        · -- The separator has an underscore itself, so it may not occur twice.
          rcases List.append_of_mem isBefore with ⟨left, middle, rfl⟩
          rcases List.append_of_mem isBetween with ⟨right, last, rfl⟩
          refine distinguished.named left (middle ++ none :: right) (last ++ none :: after)
            "__lambda__" (by simp [separator]) (by decide)
        · exact isNotBetween isBetween
    | some name => exact distinguished.named before between after name rfl collide

end StackScript.Code

/-! ## Blocks under their own label -/

namespace StackScript.Code

/-- The label of a block occurs only there, and the table leads it to the first
instruction of the block. -/
def Block.IsOwn (block : Block) (entries : List Entry) : Prop :=
  ∃ before after, entries = before ++ block.entries ++ after ∧
    block.site.label ∉ labelsOf before ∧ block.site.label ∉ labelsOf block.body ∧
    block.site.label ∉ labelsOf after ∧
    (Document.Table.ofCode entries).labels.get? block.site.label =
      some (instructionsOf before).length

/-- A block whose label occurs once is led to by its label. -/
theorem Block.isOwn_of_count {block : Block} {before after : List Entry}
    (once : (labelsOf (before ++ block.entries ++ after)).count block.site.label = 1) :
    block.IsOwn (before ++ block.entries ++ after) := by
  have counts : (labelsOf before).count block.site.label = 0 ∧
      (labelsOf block.body).count block.site.label = 0 ∧
      (labelsOf after).count block.site.label = 0 := by
    simp only [labelsOf_append, labelsOf_block, List.count_append, List.count_cons_self] at once
    omega
  simp only [List.count_eq_zero] at counts
  refine ⟨before, after, rfl, counts.1, counts.2.1, counts.2.2, ?_⟩
  rw [Document.get?_ofCode, Block.entries_eq, List.append_assoc, List.cons_append]
  apply place?_of_last
  simpa [labelsOf_bindings] using ⟨counts.2.1, counts.2.2⟩

theorem Block.IsOwn.count {block : Block} {entries : List Entry} (own : block.IsOwn entries) :
    (labelsOf entries).count block.site.label = 1 := by
  rcases own with ⟨before, after, rfl, notBefore, notBody, notAfter, _⟩
  simp [List.count_append, List.count_eq_zero.mpr notBefore, List.count_eq_zero.mpr notBody,
    List.count_eq_zero.mpr notAfter]

/-- The labels of functions are distinct exactly if each leads to its own block. -/
theorem nodup_labels_iff_isOwn {labelled : Labelled} (numbered : labelled.Numbered) :
    labelled.labels.Nodup ↔
      ∀ block ∈ labelled.blocks, block.IsOwn (assemble labelled.fragment) := by
  have blockLabels : (labelled.blocks.map fun block => block.site.label).Perm
      labelled.labels := by
    have inner : labelled.blocks.map (fun block => block.site.label) =
        (labelled.functions false).map fun entry => entry.1.label := by
      rw [← Structured.map_blocks, List.map_map]
      rfl
    rw [inner]
    exact labelled.functions_perm.map _
  constructor
  · intro distinct block member
    have laidOut : ∃ before after,
        assemble labelled.fragment = before ++ block.entries ++ after := by
      rcases List.append_of_mem member with ⟨first, last, blocksEq⟩
      refine ⟨first.flatMap Block.entries, last.flatMap Block.entries ++ .label mainLabel ::
        (labelled.code ++ [Entry.of .halt .nothing]), ?_⟩
      simp [assemble_fragment, Structured.blockEntries, blocksEq]
    rcases laidOut with ⟨before, after, layout⟩
    have isLabel : block.site.label ∈ labelsOf (assemble labelled.fragment) := by
      simp [layout]
    rw [layout] at isLabel ⊢
    apply Block.isOwn_of_count
    rw [← layout] at isLabel ⊢
    exact List.count_eq_one_of_mem (numbered.nodup_labelsOf_iff.mpr distinct) isLabel
  · intro own
    rw [List.nodup_iff_count_le_one]
    intro label
    by_cases member : label ∈ labelled.labels
    · rcases List.mem_map.mp (blockLabels.mem_iff.mpr member) with ⟨block, isBlock, rfl⟩
      have once := (own block isBlock).count
      rw [(labelsOf_assemble labelled).count_eq, List.count_cons, List.count_append] at once
      omega
    · rw [List.count_eq_zero.mpr member]
      exact Nat.zero_le 1

end StackScript.Code

namespace StackScript.Script

open StackScript.Code (Entry Labelled assemble labelsOf closedLabels Distinguished)

theorem dollarFree_names {script : String} {program : Surface.Program}
    (parsed : Script.surface script = .ok program) :
    Code.DollarFree ((program.functions true).map Prod.fst) := by
  intro name member
  rcases List.mem_map.mp member with ⟨⟨name?, parameters⟩, isFunction, same⟩
  cases same
  exact (isName_of_mem_functions parsed isFunction).dollar_notMem

/-- The labels of a script's code are distinct exactly if its functions are
distinguished.  The code closes over each block once, and each block is the one that
its label leads to exactly under the same condition. -/
theorem labels_distinct_iff_distinguished {script : String} {entries : List Entry}
    (generated : Script.code script = .ok entries) :
    ∃ (program : Surface.Program) (labelled : Labelled),
      Script.surface script = .ok program ∧ program.outline = some labelled.outline ∧
      entries = assemble labelled.fragment ∧
      (closedLabels entries).Perm (labelled.blocks.map fun block => block.site.label) ∧
      ((labelsOf entries).Nodup ↔ Distinguished ((program.functions true).map Prod.fst)) ∧
      ((∀ block ∈ labelled.blocks, block.IsOwn entries) ↔
        Distinguished ((program.functions true).map Prod.fst)) := by
  rcases exists_hasLabelled generated with ⟨program, labelled, has, rfl⟩
  have distinguished : labelled.labels.Nodup ↔
      Distinguished ((program.functions true).map Prod.fst) := by
    rcases has.numbered with ⟨after, tallied⟩
    rw [tallied.labels, Code.functionCounts_initial, has.names_eq]
    exact Code.nodup_labelsFor_iff_distinguished (dollarFree_names has.parsed)
  refine ⟨program, labelled, has.parsed, has.outlined, rfl,
    Code.closedLabels_assemble has.straight, ?_, ?_⟩
  · rw [has.numbered.nodup_labelsOf_iff, distinguished]
  · rw [← Code.nodup_labels_iff_isOwn has.numbered, distinguished]

/-- A function inside another of the same name, and one without a name. -/
theorem nested_names_labels_distinct :
    ∃ entries,
      Script.code "def b(x) do\n  def b(y) do y end\n  b(x)\nend\nlambda(z) do b(z) end\n" =
        .ok entries ∧
      labelsOf entries = ["b$1", "b$0", "__lambda__$0", "__main__"] ∧
      ∃ (program : Surface.Program) (labelled : Labelled),
        Script.surface "def b(x) do\n  def b(y) do y end\n  b(x)\nend\nlambda(z) do b(z) end\n" =
          .ok program ∧
        program.outline = some labelled.outline ∧ entries = assemble labelled.fragment ∧
        (closedLabels entries).Perm (labelled.blocks.map fun block => block.site.label) ∧
        ((labelsOf entries).Nodup ↔ Distinguished ((program.functions true).map Prod.fst)) ∧
        ((∀ block ∈ labelled.blocks, block.IsOwn entries) ↔
          Distinguished ((program.functions true).map Prod.fst)) := by
  have labels : (Script.code
      "def b(x) do\n  def b(y) do y end\n  b(x)\nend\nlambda(z) do b(z) end\n").map labelsOf =
        .ok ["b$1", "b$0", "__lambda__$0", "__main__"] := by
    decide +kernel
  cases generated : Script.code
      "def b(x) do\n  def b(y) do y end\n  b(x)\nend\nlambda(z) do b(z) end\n" with
  | error error =>
      rw [generated] at labels
      cases labels
  | ok entries =>
      rw [generated] at labels
      exact ⟨entries, rfl, Except.ok.inj labels, labels_distinct_iff_distinguished generated⟩

/-- Two functions without a name get the same label, and it leads to the second one
from both places that close over it. -/
theorem anonymous_functions_share_label :
    ∃ entries, Script.code "lambda() do 1 end\nlambda() do 2 end\n" = .ok entries ∧
      labelsOf entries = ["__lambda__$0", "__lambda__$0", "__main__"] ∧
      ¬ (labelsOf entries).Nodup ∧
      closedLabels entries = ["__lambda__$0", "__lambda__$0"] ∧
      (Document.Table.ofCode entries).labels.get? "__lambda__$0" = some 2 ∧
      (Document.Table.ofCode entries).instructions[2]? = some ⟨.pushInteger, .integer 2⟩ :=
  ⟨[.label "__lambda__$0", .of .pushInteger (.integer 1), .of .returnValue .nothing,
      .label "__lambda__$0", .of .pushInteger (.integer 2), .of .returnValue .nothing,
      .label "__main__",
      .of .close (.text "__lambda__$0"), .of .pop (.text "sym($0)"),
      .of .push (.text "sym($0)"), .of .drop .nothing,
      .of .close (.text "__lambda__$0"), .of .pop (.text "sym($1)"),
      .of .push (.text "sym($1)"), .of .drop .nothing,
      .of .halt .nothing],
    by decide +kernel, by decide, by decide, by decide, by decide, by decide⟩

end StackScript.Script
