import StackScript.Proofs.Depth.Basic
import StackScript.Proofs.Labels.Standing

/-!
# Depths of laid out code

A script is laid out in pieces: one for each function, which ends in `return`, and one for
the script itself, which ends in `halt`.  The depths that structured code fits are depths
for the points of a piece: along every edge from one point to another they change by what
the instruction takes and gives (`exists_depths`).
-/

namespace StackScript.Code

/-- The point that an argument leads to. -/
def target? (entries : List Entry) (argument : Argument) : Option Nat :=
  (Machine.text? argument).bind (place? · entries)

/-- The points that an instruction leads to within its piece of code. -/
def successors? (entries : List Entry) (point : Nat) (content : Instruction) :
    Option (List Nat) :=
  match content.opcode with
  | .jump => (target? entries content.argument).map fun target => [target]
  | .jumpIfFalse => (target? entries content.argument).map fun target => [point + 1, target]
  | .returnValue | .halt => some []
  | _ => some [point + 1]

/-- No more is taken than there is at a point, and the depths at the points that follow
result from what is taken and given. -/
def FlowsAt (entries : List Entry) (depth : Nat → Nat) (point : Nat) (content : Instruction) :
    Prop :=
  ∃ taken given later, content.effect? = some (taken, given) ∧ taken ≤ depth point ∧
    successors? entries point content = some later ∧
    ∀ next ∈ later, next < size entries ∧ depth next + taken = depth point + given

/-- The depth that an instruction needs where a piece of code ends. -/
def Opcode.lastDepth? : Opcode → Option Nat
  | returnValue => some 1
  | halt => some 0
  | _ => none

/-- Depths are right at a point. -/
def SoundAt (entries : List Entry) (depth : Nat → Nat) (point : Nat) : Prop :=
  ∀ content, (instructionsOf entries)[point]? = some content →
    FlowsAt entries depth point content ∧
      ∀ last, content.opcode.lastDepth? = some last → depth point = last

/-- Depths are right from one point up to another. -/
def SoundBetween (entries : List Entry) (depth : Nat → Nat) (start stop : Nat) : Prop :=
  ∀ point, start ≤ point → point < stop → SoundAt entries depth point

/-- Depths from a point on. -/
def Agrees (depth : Nat → Nat) : (start : Nat) → List Nat → Prop
  | _, [] => True
  | start, value :: rest => depth start = value ∧ Agrees depth (start + 1) rest

section Points

variable {entries : List Entry} {depth : Nat → Nat} {start stop : Nat}

theorem agrees_append {first second : List Nat} :
    Agrees depth start (first ++ second) ↔
      Agrees depth start first ∧ Agrees depth (start + first.length) second := by
  induction first generalizing start with
  | nil => simp [Agrees]
  | cons value rest ih =>
      rw [List.cons_append, Agrees, Agrees, ih, List.length_cons, and_assoc,
        Nat.add_assoc start 1, Nat.add_comm 1]

theorem agrees_getD (front depths : List Nat) :
    Agrees (fun point => (front ++ depths).getD point 0) front.length depths := by
  induction depths generalizing front with
  | nil => trivial
  | cons value rest ih =>
      have later := ih (front ++ [value])
      rw [List.append_assoc, List.singleton_append, List.length_append] at later
      constructor
      · simp
      · exact later

theorem soundBetween_self (point : Nat) : SoundBetween entries depth point point := by
  intro other notBefore before
  omega

theorem SoundBetween.trans {middle : Nat} (first : SoundBetween entries depth start middle)
    (second : SoundBetween entries depth middle stop) : SoundBetween entries depth start stop := by
  intro point notBefore before
  by_cases early : point < middle
  · exact first point notBefore early
  · exact second point (Nat.le_of_not_lt early) before

theorem SoundAt.between {point : Nat} (sound : SoundAt entries depth point) :
    SoundBetween entries depth point (point + 1) := by
  intro other notBefore before
  have same : other = point := by omega
  rwa [same]

theorem soundAt_of_flows {point : Nat} {content : Instruction}
    (isAt : (instructionsOf entries)[point]? = some content)
    (flows : FlowsAt entries depth point content) (goesOn : content.opcode.lastDepth? = none) :
    SoundAt entries depth point := by
  intro other otherAt
  rw [isAt] at otherAt
  cases otherAt
  refine ⟨flows, ?_⟩
  intro last isLast
  rw [goesOn] at isLast
  cases isLast

/-- An instruction at the end of a piece is right at the depth that it needs. -/
theorem soundAt_last {point last : Nat} {opcode : Opcode} {argument : Argument}
    (isAt : (instructionsOf entries)[point]? = some ⟨opcode, argument⟩)
    (isLast : opcode.lastDepth? = some last) (atLast : depth point = last) :
    SoundAt entries depth point := by
  intro other otherAt
  rw [isAt] at otherAt
  cases otherAt
  constructor
  · cases opcode with
    | returnValue | halt =>
        refine ⟨0, 0, [], rfl, Nat.zero_le _, rfl, ?_⟩
        intro next member
        cases member
    | _ => cases isLast
  · intro other isOther
    rw [isLast] at isOther
    cases isOther
    exact atLast

end Points

/-! ## Structured code -/

theorem Structured.StandsAt.stop_eq {entries : List Entry} {labelled : Labelled}
    {start stop : Nat} (stands : labelled.StandsAt entries start stop) :
    stop = start + size labelled.code := by
  induction labelled generalizing start stop with
  | done => exact stands.symm
  | instruction content rest ih =>
      rw [ih stands.2, Structured.code, size_instruction]
      omega
  | function site parameters body rest _ ih =>
      rw [ih stands.2, Structured.code, size_of]
      omega
  | branch number onTrue onFalse rest trueIH falseIH restIH =>
      rcases stands with ⟨leaves, ends, _, trueStands, falseStands, restStands⟩
      rw [restIH restStands, falseIH falseStands, trueIH trueStands, Structured.code,
        size_append, size_branching]
      omega

section Straight

variable {entries : List Entry} {depth : Nat → Nat} {point : Nat}

/-- A straight instruction leads to the next one. -/
theorem flowsAt_straight {content : Instruction} {before taken given : Nat}
    (straight : content.opcode.isStraight = true)
    (effect : content.effect? = some (taken, given)) (inside : point + 1 < size entries)
    (here : depth point = before + taken) (next : depth (point + 1) = before + given) :
    FlowsAt entries depth point content := by
  have leads : successors? entries point content = some [point + 1] := by
    rcases content with ⟨opcode, argument⟩
    cases opcode <;> first | rfl | cases straight
  refine ⟨taken, given, _, effect, by omega, leads, ?_⟩
  intro later member
  cases List.mem_singleton.mp member
  exact ⟨inside, by omega⟩

theorem lastDepth?_of_straight {opcode : Opcode} (straight : opcode.isStraight = true) :
    opcode.lastDepth? = none := by
  cases opcode <;> first | rfl | cases straight

/-- A `close` leads to the next instruction with one value more. -/
theorem flowsAt_close {argument : Argument} (inside : point + 1 < size entries)
    (next : depth (point + 1) = depth point + 1) :
    FlowsAt entries depth point ⟨.close, argument⟩ := by
  refine ⟨0, 1, [point + 1], rfl, Nat.zero_le _, rfl, ?_⟩
  intro later member
  cases List.mem_singleton.mp member
  exact ⟨inside, next⟩

theorem flowsAt_jump {label : String} {target : Nat} (leads : place? label entries = some target)
    (inside : target < size entries) (same : depth target = depth point) :
    FlowsAt entries depth point ⟨.jump, .text label⟩ := by
  refine ⟨0, 0, [target], rfl, Nat.zero_le _, ?_, ?_⟩
  · simp [successors?, target?, Machine.text?, leads]
  · intro later member
    cases List.mem_singleton.mp member
    exact ⟨inside, same⟩

theorem flowsAt_jumpIfFalse {label : String} {target before : Nat}
    (leads : place? label entries = some target) (inside : point + 1 < size entries)
    (targetInside : target < size entries) (here : depth point = before + 1)
    (next : depth (point + 1) = before) (atTarget : depth target = before) :
    FlowsAt entries depth point ⟨.jumpIfFalse, .text label⟩ := by
  refine ⟨1, 0, [point + 1, target], rfl, by omega, ?_, ?_⟩
  · simp [successors?, target?, Machine.text?, leads]
  · intro later member
    rcases List.mem_cons.mp member with rfl | rest
    · exact ⟨inside, by omega⟩
    · cases List.mem_singleton.mp rest
      exact ⟨targetInside, by omega⟩

end Straight

/-- Depths for the points of labelled code that are right wherever it stands, if it ends at
a given depth. -/
structure Measures (labelled : Labelled) (before after : Nat) (depths : List Nat) : Prop where
  length_eq : depths.length = size labelled.code
  sound : ∀ {entries : List Entry} {depth : Nat → Nat} {start stop : Nat},
    labelled.StandsAt entries start stop → stop < size entries →
      Agrees depth start depths → depth stop = after →
        depth start = before ∧ SoundBetween entries depth start stop

namespace Measures

variable {before taken given between after : Nat} {inner first second third : List Nat}
variable {rest : Labelled}

theorem done (depth : Nat) : Measures .done depth depth [] where
  length_eq := rfl
  sound := by
    intro entries depth start stop stands _ _ atStop
    cases stands
    exact ⟨atStop, soundBetween_self start⟩

theorem instruction {content : Instruction} (straight : content.opcode.isStraight = true)
    (effect : content.effect? = some (taken, given))
    (restMeasures : Measures rest (before + given) after inner) :
    Measures (.instruction content rest) (before + taken) after
      ((before + taken) :: inner) where
  length_eq := by
    rw [List.length_cons, restMeasures.length_eq]
    rfl
  sound := by
    intro entries depth start stop stands inside agrees atStop
    rcases stands with ⟨isAt, restStands⟩
    rcases agrees with ⟨here, restAgrees⟩
    rcases restMeasures.sound restStands inside restAgrees atStop with ⟨next, restSound⟩
    have nextInside : start + 1 < size entries := by
      have stopEq := restStands.stop_eq
      omega
    have flows := flowsAt_straight straight effect nextInside here next
    have sound := soundAt_of_flows isAt flows (lastDepth?_of_straight straight)
    exact ⟨here, sound.between.trans restSound⟩

theorem function {site : Site} {parameters : List String} {body : Labelled}
    (restMeasures : Measures rest (before + 1) after inner) :
    Measures (.function site parameters body rest) before after (before :: inner) where
  length_eq := by
    rw [List.length_cons, restMeasures.length_eq]
    rfl
  sound := by
    intro entries depth start stop stands inside agrees atStop
    rcases stands with ⟨isAt, restStands⟩
    rcases agrees with ⟨here, restAgrees⟩
    rcases restMeasures.sound restStands inside restAgrees atStop with ⟨next, restSound⟩
    have nextInside : start + 1 < size entries := by
      have stopEq := restStands.stop_eq
      omega
    have flows : FlowsAt entries depth start ⟨.close, .text site.label⟩ :=
      flowsAt_close nextInside (by omega)
    exact ⟨here, (soundAt_of_flows isAt flows rfl).between.trans restSound⟩

theorem branch {number : Int} {onTrue onFalse : Labelled}
    (trueMeasures : Measures onTrue before between first)
    (falseMeasures : Measures onFalse before between second)
    (restMeasures : Measures rest between after third) :
    Measures (.branch number onTrue onFalse rest) (before + 1) after
      ((before + 1) :: before :: (first ++ between :: (second ++ third))) where
  length_eq := by
    simp only [List.length_cons, List.length_append, trueMeasures.length_eq,
      falseMeasures.length_eq, restMeasures.length_eq, Structured.code, size_append,
      size_branching]
    omega
  sound := by
    intro entries depth start stop stands inside agrees atStop
    rcases stands with ⟨leaves, ends, here, trueStands, falseStands, restStands⟩
    have leavesEq := trueStands.stop_eq
    have endsEq := falseStands.stop_eq
    have stopEq := restStands.stop_eq
    -- The depths of the branches and of what follows are parts of the list.
    rcases agrees with ⟨atStart, atEnter, parts⟩
    rcases agrees_append.mp parts with ⟨trueAgrees, atLeaves, laterParts⟩
    rcases agrees_append.mp laterParts with ⟨falseAgrees, restAgrees⟩
    rw [trueMeasures.length_eq, ← leavesEq] at atLeaves falseAgrees restAgrees
    rw [falseMeasures.length_eq, ← endsEq] at restAgrees
    rcases restMeasures.sound restStands inside restAgrees atStop with ⟨atEnds, restSound⟩
    rcases falseMeasures.sound falseStands (by omega) falseAgrees atEnds with
      ⟨atElse, falseSound⟩
    rcases trueMeasures.sound trueStands (by omega) trueAgrees atLeaves with
      ⟨atThen, trueSound⟩
    have testSound := soundAt_of_flows here.test
      (flowsAt_jumpIfFalse here.elsePlace (by omega) (by omega) atStart atEnter atElse) rfl
    have enterSound := soundAt_of_flows here.enter
      (flowsAt_jump here.thenPlace (by omega) (atThen.trans atEnter.symm)) rfl
    have leaveSound := soundAt_of_flows here.leave
      (flowsAt_jump here.endPlace (by omega) (atEnds.trans atLeaves.symm)) rfl
    have branchesSound : SoundBetween entries depth (start + 2) ends :=
      (trueSound.trans leaveSound.between).trans falseSound
    have allSound := (testSound.between.trans enterSound.between).trans
      (branchesSound.trans restSound)
    exact ⟨atStart, allSound⟩

end Measures

/-- Code that fits has depths for its points. -/
theorem exists_depths {labelled : Labelled} {before after : Nat}
    (fits : labelled.Fits before after) : ∃ depths, Measures labelled before after depths := by
  induction fits with
  | done depth => exact ⟨[], .done depth⟩
  | instruction straight effect _ ih =>
      rcases ih with ⟨inner, restMeasures⟩
      exact ⟨_, .instruction straight effect restMeasures⟩
  | function _ _ _ ih =>
      rcases ih with ⟨inner, restMeasures⟩
      exact ⟨_, .function restMeasures⟩
  | branch _ _ _ trueIH falseIH restIH =>
      rcases trueIH with ⟨first, trueMeasures⟩
      rcases falseIH with ⟨second, falseMeasures⟩
      rcases restIH with ⟨third, restMeasures⟩
      exact ⟨_, .branch trueMeasures falseMeasures restMeasures⟩

end StackScript.Code
