import StackScript.Code.Peephole
import StackScript.Document.Operand
import StackScript.Proofs.Labels.Place
import StackScript.Proofs.Sequences
import Mathlib.Data.List.Induction
import Mathlib.Data.Option.Basic

/-!
# Points of shortened code

When a `push` and the `drop` after it are removed, all later instructions get other
numbers.  `newPoint?` gives the new number of a point; only a point between a removed
`push` and its `drop` has none.  At points that correspond the same instruction is
found, unless a removed pair starts there (`removePushDrop_fetch`), and a label leads to
corresponding points (`removePushDrop_place`).
-/

namespace StackScript.Code

/-- Whether code starts with a `push` and its `drop`. -/
def startsPair : List Entry → Bool
  | first :: second :: _ => first.hasOpcode .push && second.hasOpcode .drop
  | _ => false

theorem removePushDrop_pair {first second : Entry} {rest : List Entry}
    (pair : startsPair (first :: second :: rest) = true) :
    removePushDrop (first :: second :: rest) = removePushDrop rest := by
  rw [removePushDrop]
  exact if_pos pair

theorem removePushDrop_cons {entry : Entry} {rest : List Entry}
    (kept : startsPair (entry :: rest) = false) :
    removePushDrop (entry :: rest) = entry :: removePushDrop rest := by
  cases rest with
  | nil => rfl
  | cons second rest =>
      rw [removePushDrop]
      have notPair : ¬ (entry.hasOpcode .push && second.hasOpcode .drop) = true := by
        intro pair
        rw [startsPair, pair] at kept
        cases kept
      exact if_neg notPair

theorem exists_of_hasOpcode {entry : Entry} {opcode : Opcode}
    (has : entry.hasOpcode opcode = true) :
    ∃ argument, entry = .instruction ⟨opcode, argument⟩ := by
  cases entry with
  | label name => cases has
  | instruction content =>
      rcases content with ⟨other, argument⟩
      have same : other = opcode := of_decide_eq_true has
      exact ⟨argument, by rw [same]⟩

/-- Induction along the removal of pairs. -/
theorem removal_induction {motive : List Entry → Prop} (nil : motive [])
    (pair : ∀ first second rest, motive rest →
      motive (.instruction ⟨.push, first⟩ :: .instruction ⟨.drop, second⟩ :: rest))
    (kept : ∀ entry rest, startsPair (entry :: rest) = false → motive rest →
      motive (entry :: rest)) (entries : List Entry) : motive entries := by
  induction entries using removePushDrop.induct with
  | case1 => exact nil
  | case2 entry => exact kept entry [] rfl nil
  | case3 first second rest isPair ih =>
      have opcodes := Bool.and_eq_true_iff.mp isPair
      rcases exists_of_hasOpcode opcodes.1 with ⟨firstArgument, rfl⟩
      rcases exists_of_hasOpcode opcodes.2 with ⟨secondArgument, rfl⟩
      exact pair firstArgument secondArgument rest ih
  | case4 first second rest isNotPair ih =>
      exact kept first (second :: rest) (Bool.eq_false_iff.mpr isNotPair) ih

/-- The new number of a point after one more entry that is kept. -/
def keptPoint : Entry → (Nat → Option Nat) → Nat → Option Nat
  | .label _, later, point => later point
  | .instruction _, _, 0 => some 0
  | .instruction _, later, point + 1 => (later point).map (· + 1)

/-- The new number of a point after one more pair that is removed. -/
def removedPoint (later : Nat → Option Nat) : Nat → Option Nat
  | 0 => later 0
  | 1 => none
  | point + 2 => later point

/-- The number that a point has after the removal of pairs. -/
def newPoint? : List Entry → Nat → Option Nat
  | [] => fun point => if point = 0 then some 0 else none
  | [entry] => keptPoint entry fun point => if point = 0 then some 0 else none
  | first :: second :: rest =>
      if first.hasOpcode .push && second.hasOpcode .drop then removedPoint (newPoint? rest)
      else keptPoint first (newPoint? (second :: rest))

theorem newPoint?_pair (first second : Argument) (rest : List Entry) :
    newPoint? (.instruction ⟨.push, first⟩ :: .instruction ⟨.drop, second⟩ :: rest) =
      removedPoint (newPoint? rest) := by
  rw [newPoint?]
  rfl

theorem newPoint?_cons {entry : Entry} {rest : List Entry}
    (kept : startsPair (entry :: rest) = false) :
    newPoint? (entry :: rest) = keptPoint entry (newPoint? rest) := by
  cases rest with
  | nil =>
      rw [newPoint?, newPoint?]
  | cons second rest =>
      rw [newPoint?]
      have notPair : ¬ (entry.hasOpcode .push && second.hasOpcode .drop) = true := by
        intro pair
        rw [startsPair, pair] at kept
        cases kept
      exact if_neg notPair

@[simp] theorem newPoint?_zero (entries : List Entry) : newPoint? entries 0 = some 0 := by
  induction entries using removal_induction with
  | nil => rfl
  | pair first second rest ih =>
      rw [newPoint?_pair]
      exact ih
  | kept entry rest kept ih =>
      rw [newPoint?_cons kept]
      cases entry with
      | label name => exact ih
      | instruction content => rfl

/-- A removed `push` and its `drop` stand at a point, and what follows corresponds to a
new point. -/
def RemovedAt (entries : List Entry) (point newPoint : Nat) : Prop :=
  ∃ first second, (instructionsOf entries)[point]? = some ⟨.push, first⟩ ∧
    (instructionsOf entries)[point + 1]? = some ⟨.drop, second⟩ ∧
    newPoint? entries (point + 2) = some newPoint

/-- The same instruction stands at two points, and what follows corresponds as well. -/
def KeptAt (entries : List Entry) (point newPoint : Nat) : Prop :=
  (instructionsOf (removePushDrop entries))[newPoint]? = (instructionsOf entries)[point]? ∧
    ∀ content, (instructionsOf entries)[point]? = some content →
      newPoint? entries (point + 1) = some (newPoint + 1)

/-- At points that correspond a pair was removed, or the same instruction is found. -/
theorem removePushDrop_fetch {entries : List Entry} {point newPoint : Nat}
    (corresponds : newPoint? entries point = some newPoint) :
    RemovedAt entries point newPoint ∨ KeptAt entries point newPoint := by
  induction entries using removal_induction generalizing point newPoint with
  | nil =>
      right
      exact ⟨rfl, fun content found => by cases found⟩
  | pair first second rest ih =>
      have removed : removePushDrop
          (.instruction ⟨.push, first⟩ :: .instruction ⟨.drop, second⟩ :: rest) =
            removePushDrop rest := removePushDrop_pair rfl
      rw [newPoint?_pair] at corresponds
      match point with
      | 0 =>
          left
          refine ⟨first, second, rfl, rfl, ?_⟩
          rw [newPoint?_pair]
          exact corresponds
      | 1 => cases corresponds
      | point + 2 =>
          rw [RemovedAt, KeptAt, removed, newPoint?_pair]
          exact ih corresponds
  | kept entry rest kept ih =>
      rw [newPoint?_cons kept] at corresponds
      rw [RemovedAt, KeptAt, removePushDrop_cons kept, newPoint?_cons kept]
      cases entry with
      | label name => exact ih corresponds
      | instruction content =>
          cases point with
          | zero =>
              cases corresponds
              right
              refine ⟨rfl, fun _ _ => ?_⟩
              rw [keptPoint, newPoint?_zero]
              rfl
          | succ point =>
              rcases Option.map_eq_some_iff.mp corresponds with ⟨later, found, rfl⟩
              rcases ih found with ⟨first, second, firstAt, secondAt, next⟩ | ⟨same, next⟩
              · left
                refine ⟨first, second, firstAt, secondAt, ?_⟩
                exact Option.map_eq_some_iff.mpr ⟨later, next, rfl⟩
              · right
                refine ⟨same, fun found isAt => ?_⟩
                exact Option.map_eq_some_iff.mpr ⟨later + 1, next found isAt, rfl⟩

/-- A label leads to points that correspond. -/
theorem removePushDrop_place (name : String) (entries : List Entry) :
    Option.Rel (fun point newPoint => newPoint? entries point = some newPoint)
      (place? name entries) (place? name (removePushDrop entries)) := by
  induction entries using removal_induction with
  | nil => exact .none
  | pair first second rest ih =>
      have removed : removePushDrop
          (.instruction ⟨.push, first⟩ :: .instruction ⟨.drop, second⟩ :: rest) =
            removePushDrop rest := removePushDrop_pair rfl
      have shifted : Option.Rel
          (fun point newPoint => removedPoint (newPoint? rest) point = some newPoint)
          ((place? name rest).map (· + 2)) ((place? name (removePushDrop rest)).map id) :=
        optionRel_map ih fun _ _ corresponds => corresponds
      rw [removed, newPoint?_pair, place?, place?, Option.map_map]
      rwa [Option.map_id_apply] at shifted
  | kept entry rest kept ih =>
      rw [removePushDrop_cons kept, newPoint?_cons kept]
      cases entry with
      | label other =>
          refine optionRel_or ih ?_
          by_cases same : other = name
          · rw [if_pos same]
            exact .some (newPoint?_zero rest)
          · rw [if_neg same]
            exact .none
      | instruction content =>
          refine optionRel_map ih fun point newPoint corresponds => ?_
          exact Option.map_eq_some_iff.mpr ⟨newPoint, corresponds, rfl⟩

/-! ## Unused bindings -/

/-- An instruction, or a `drop` for a `pop` of a symbol that is not used. -/
def dropInstruction (used : List Argument) (content : Instruction) : Instruction :=
  if content.opcode = .pop ∧ content.argument ∉ used then ⟨.drop, .nothing⟩ else content

theorem dropIfUnused_instruction (used : List Argument) (content : Instruction) :
    dropIfUnused used (.instruction content) = .instruction (dropInstruction used content) := by
  rcases content with ⟨opcode, argument⟩
  by_cases isPop : opcode = .pop
  · subst isPop
    by_cases isUsed : argument ∈ used
    · simp [dropIfUnused, dropInstruction, isUsed]
    · simp [dropIfUnused, dropInstruction, isUsed]
  · have unchanged : dropIfUnused used (.instruction ⟨opcode, argument⟩) =
        .instruction ⟨opcode, argument⟩ := by
      unfold dropIfUnused
      split
      · rename_i same
        cases same
        exact absurd rfl isPop
      · rfl
    rw [unchanged, dropInstruction, if_neg fun both => isPop both.1]

theorem instructionsOf_dropIfUnused (used : List Argument) (entries : List Entry) :
    instructionsOf (entries.map (dropIfUnused used)) =
      (instructionsOf entries).map (dropInstruction used) := by
  induction entries with
  | nil => rfl
  | cons entry rest ih =>
      cases entry with
      | label name => exact ih
      | instruction content =>
          rw [List.map_cons, dropIfUnused_instruction, instructionsOf_instruction,
            instructionsOf_instruction, List.map_cons, ih]

theorem place?_dropIfUnused (name : String) (used : List Argument) (entries : List Entry) :
    place? name (entries.map (dropIfUnused used)) = place? name entries := by
  induction entries with
  | nil => rfl
  | cons entry rest ih =>
      cases entry with
      | label other =>
          rw [List.map_cons, dropIfUnused, place?, place?, ih]
          simp
      | instruction content =>
          rw [List.map_cons, dropIfUnused_instruction, place?, place?, ih]

/-- The symbols that are used after the removal of pairs. -/
def usedSymbols (entries : List Entry) : List Argument :=
  (removePushDrop entries).filterMap usedSymbol?

theorem instructionsOf_optimize (entries : List Entry) :
    instructionsOf (optimize entries) =
      (instructionsOf (removePushDrop entries)).map (dropInstruction (usedSymbols entries)) := by
  rw [optimize, dropUnusedPops, instructionsOf_dropIfUnused]
  rfl

/-- A remaining instruction other than a binding mentions a name. -/
def IsUsed (entries : List Entry) (name : String) : Prop :=
  symbolArgument name ∈ usedSymbols entries

instance (entries : List Entry) (name : String) : Decidable (IsUsed entries name) :=
  inferInstanceAs (Decidable (_ ∈ _))

/-- A name can be read off the symbol that it is written as. -/
theorem symbolName?_symbol (name : String) :
    Document.symbolName? ("sym(" ++ name ++ ")") = some name := by
  have characters : ("sym(" ++ name ++ ")").toList =
      's' :: 'y' :: 'm' :: '(' :: (name.toList ++ [')']) := by
    simp
  have suffix : ")".toList.isSuffixOf ("sym(" ++ name ++ ")").toList = true := by
    rw [List.isSuffixOf_iff_suffix, characters]
    exact ⟨'s' :: 'y' :: 'm' :: '(' :: name.toList, by simp⟩
  simp only [Document.symbolName?]
  rw [suffix, characters]
  simp

/-- Only a symbol has a name. -/
theorem eq_of_symbolName? {content name : String}
    (named : Document.symbolName? content = some name) : content = "sym(" ++ name ++ ")" := by
  simp only [Document.symbolName?] at named
  split at named
  · rename_i both
    have parts := Bool.and_eq_true_iff.mp both
    rcases List.isPrefixOf_iff_prefix.mp parts.1 with ⟨tail, startsWith⟩
    rcases List.isSuffixOf_iff_suffix.mp parts.2 with ⟨front, endsWith⟩
    have tailEnds : ∃ middle, tail = middle ++ [')'] := by
      cases tail using List.reverseRecOn with
      | nil =>
          have last := congrArg List.getLast? (startsWith.trans endsWith.symm)
          simp at last
      | append_singleton middle character =>
          have last := congrArg List.getLast? (startsWith.trans endsWith.symm)
          rw [← List.append_assoc, List.getLast?_concat] at last
          simp at last
          exact ⟨middle, by rw [last]⟩
    rcases tailEnds with ⟨middle, rfl⟩
    rw [← startsWith] at named
    simp at named
    rw [← String.toList_inj, ← startsWith, ← named]
    simp
  · cases named

/-- What a remaining `push` reads is used. -/
theorem isUsed_of_push {entries : List Entry} {content name : String}
    (remains : ⟨.push, .text content⟩ ∈ instructionsOf (removePushDrop entries))
    (named : Document.symbolName? content = some name) : IsUsed entries name := by
  rcases List.mem_filterMap.mp remains with ⟨entry, member, isInstruction⟩
  cases entry with
  | label other => cases isInstruction
  | instruction other =>
      cases isInstruction
      refine List.mem_filterMap.mpr ⟨_, member, ?_⟩
      rw [eq_of_symbolName? named]
      simp [usedSymbol?, symbolArgument]

/-- A label leads to points that correspond. -/
theorem optimize_place (name : String) (entries : List Entry) :
    Option.Rel (fun point newPoint => newPoint? entries point = some newPoint)
      (place? name entries) (place? name (optimize entries)) := by
  rw [optimize, dropUnusedPops, place?_dropIfUnused]
  exact removePushDrop_place name entries

/-- The instruction at a point remains, but an unused binding has become a `drop`. -/
structure RemainsAt (entries : List Entry) (point newPoint : Nat) (content : Instruction) :
    Prop where
  found : (instructionsOf entries)[point]? = some content
  remains : content ∈ instructionsOf (removePushDrop entries)
  newFound : (instructionsOf (optimize entries))[newPoint]? =
    some (dropInstruction (usedSymbols entries) content)
  next : newPoint? entries (point + 1) = some (newPoint + 1)

/-- At points that correspond a pair was removed, or an instruction remains, or the code
ends. -/
theorem optimize_fetch {entries : List Entry} {point newPoint : Nat}
    (corresponds : newPoint? entries point = some newPoint) :
    RemovedAt entries point newPoint ∨ (∃ content, RemainsAt entries point newPoint content) ∨
      (instructionsOf entries)[point]? = none ∧
        (instructionsOf (optimize entries))[newPoint]? = none := by
  have mapped : (instructionsOf (optimize entries))[newPoint]? =
      (instructionsOf (removePushDrop entries))[newPoint]?.map
        (dropInstruction (usedSymbols entries)) := by
    rw [instructionsOf_optimize, List.getElem?_map]
  rcases removePushDrop_fetch corresponds with removed | ⟨same, next⟩
  · exact .inl removed
  · right
    cases found : (instructionsOf entries)[point]? with
    | none =>
        right
        refine ⟨rfl, ?_⟩
        rw [mapped, same, found]
        rfl
    | some content =>
        left
        rw [found] at same
        refine ⟨content, found, List.mem_of_getElem? same, ?_, next content found⟩
        rw [mapped, same]
        rfl

end StackScript.Code
