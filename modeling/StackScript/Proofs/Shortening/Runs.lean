import StackScript.Proofs.Labels.Layout
import StackScript.Proofs.Machine.Standard
import StackScript.Proofs.Shortening.Simulation

/-!
# Shortened code behaves like the code

Runs of the code and of the shortened code are matched step by step.  From a state
that cannot fail every run of either code has a match in the other one, and so the
code comes to its end exactly if the shortened code does.
-/

namespace StackScript.Machine

open StackScript.Code (Entry Instruction RemovedAt RemainsAt usedSymbols dropInstruction
  instructionsOf optimize)
open StackScript.Document (Table)

/-- A run of the code from a state and a run of the shortened code from another state,
matched step by step.  The counts are the lengths of the two runs. -/
inductive MatchedRun (runtime : Runtime) (entries : List Entry) (origin origin' : State) :
    Nat → State → Nat → State → Prop where
  | start : MatchedRun runtime entries origin origin' 0 origin 0 origin'
  /-- Both codes take a step. -/
  | both {count count' : Nat} {state state' next next' : State}
      (before : MatchedRun runtime entries origin origin' count state count' state')
      (stepped : step runtime (Table.ofCode entries) state = some next)
      (stepped' : step runtime (Table.ofCode (optimize entries)) state' = some next')
      (same : Corresponds entries next next') :
      MatchedRun runtime entries origin origin' (count + 1) next (count' + 1) next'
  /-- The code takes two steps at a removed pair, and the shortened code takes none. -/
  | removed {count count' : Nat} {state state' between next : State}
      (before : MatchedRun runtime entries origin origin' count state count' state')
      (removed : RemovedAt entries state.point state'.point)
      (stepped : step runtime (Table.ofCode entries) state = some between)
      (steppedAgain : step runtime (Table.ofCode entries) between = some next)
      (same : Corresponds entries next state') :
      MatchedRun runtime entries origin origin' (count + 2) next count' state'

section Runs

variable {entries : List Entry} {runtime : Runtime} {origin origin' state state' : State}

theorem run_concat {table : Table} {count : Nat} {between reached : State}
    (before : run runtime table count state = some between)
    (last : step runtime table between = some reached) :
    run runtime table (count + 1) state = some reached :=
  run_add before (run_succ last rfl)

/-- Runs that are matched are runs, and they end in corresponding states. -/
theorem MatchedRun.sound {count count' : Nat} (start : Corresponds entries origin origin')
    (matched : MatchedRun runtime entries origin origin' count state count' state') :
    run runtime (Table.ofCode entries) count origin = some state ∧
      run runtime (Table.ofCode (optimize entries)) count' origin' = some state' ∧
      Corresponds entries state state' := by
  induction matched with
  | start => exact ⟨rfl, rfl, start⟩
  | both before stepped stepped' same ih =>
      exact ⟨run_concat ih.1 stepped, run_concat ih.2.1 stepped', same⟩
  | removed before removed stepped steppedAgain same ih =>
      exact ⟨run_concat (run_concat ih.1 stepped) steppedAgain, ih.2.1, same⟩

/-- A state of the code is matched, or it stands between a removed `push` and its
`drop`. -/
def IsMatched (runtime : Runtime) (entries : List Entry) (origin origin' : State) (count : Nat)
    (state : State) : Prop :=
  (∃ count' state', MatchedRun runtime entries origin origin' count state count' state') ∨
    ∃ earlier before count' state', count = earlier + 1 ∧
      MatchedRun runtime entries origin origin' earlier before count' state' ∧
      RemovedAt entries before.point state'.point ∧
      step runtime (Table.ofCode entries) before = some state

theorem run_succ_cases {table : Table} {count : Nat} {reached : State}
    (runs : run runtime table (count + 1) state = some reached) :
    ∃ between, run runtime table count state = some between ∧
      step runtime table between = some reached := by
  induction count generalizing state with
  | zero =>
      rcases Option.bind_eq_some_iff.mp runs with ⟨between, stepped, last⟩
      cases last
      exact ⟨state, rfl, stepped⟩
  | succ count ih =>
      rcases Option.bind_eq_some_iff.mp runs with ⟨next, stepped, rest⟩
      rcases ih rest with ⟨between, before, last⟩
      exact ⟨between, run_succ stepped before, last⟩

/-- Every run of the code is matched. -/
theorem isMatched_of_run (start : Corresponds entries origin origin') {count : Nat}
    (runs : run runtime (Table.ofCode entries) count origin = some state) :
    IsMatched runtime entries origin origin' count state := by
  induction count generalizing state with
  | zero =>
      cases runs
      exact .inl ⟨0, origin', .start⟩
  | succ count ih =>
      rcases run_succ_cases runs with ⟨between, before, stepped⟩
      rcases ih before with ⟨count', state', matched⟩ |
        ⟨earlier, first, count', state', rfl, matched, removed, firstStepped⟩
      · have same := (matched.sound start).2.2
        rcases Code.optimize_fetch same.point with removed | ⟨content, remains⟩ | ⟨ends, _⟩
        · exact .inr ⟨count, between, count', state', rfl, matched, removed, stepped⟩
        · rcases step_remains same remains stepped with ⟨next', stepped', nexts⟩
          exact .inl ⟨count' + 1, next', .both matched stepped stepped' nexts⟩
        · rw [step, show (Table.ofCode entries).instructions[between.point]? = none from ends]
            at stepped
          cases stepped
      · have same := (matched.sound start).2.2
        rcases step_removed same removed firstStepped with ⟨next, again, nexts, _⟩
        rw [stepped] at again
        cases again
        exact .inl ⟨count', state', .removed matched removed firstStepped stepped nexts⟩

/-- At corresponding states the shortened code has stopped if the code has. -/
theorem Corresponds.halted (same : Corresponds entries state state')
    (halted : Halted (Table.ofCode entries) state) :
    Halted (Table.ofCode (optimize entries)) state' := by
  rcases Option.map_eq_some_iff.mp halted with ⟨given, isAt, isHalt⟩
  rcases Code.optimize_fetch same.point with ⟨first, _, firstAt, _⟩ | ⟨content, remains⟩ | ⟨ends, _⟩
  · rw [show (Table.ofCode entries).instructions[state.point]? = _ from firstAt] at isAt
    cases isAt
    cases isHalt
  · rw [show (Table.ofCode entries).instructions[state.point]? = _ from remains.found] at isAt
    have equal := Option.some.inj isAt
    subst equal
    have kept : dropInstruction (usedSymbols entries) content = content := by
      rw [dropInstruction, if_neg]
      rintro ⟨isPop, _⟩
      rw [isPop] at isHalt
      cases isHalt
    refine Option.map_eq_some_iff.mpr ⟨content, ?_, isHalt⟩
    rw [Document.instructions_ofCode, remains.newFound, kept]
  · rw [show (Table.ofCode entries).instructions[state.point]? = none from ends] at isAt
    cases isAt

/-- From a safe state the code gets past all removed pairs without the shortened code
taking a step. -/
theorem exists_catch_up {count count' : Nat} (start : Corresponds entries origin origin')
    (safe : Safe runtime (Table.ofCode entries) origin)
    (matched : MatchedRun runtime entries origin origin' count state count' state') :
    ∃ later reached, MatchedRun runtime entries origin origin' later reached count' state' ∧
      ¬ RemovedAt entries reached.point state'.point := by
  -- Every removed pair leads two points on, and the code ends somewhere.
  induction room : (instructionsOf entries).length - state.point using Nat.strongRecOn
    generalizing count state with
  | ind room ih =>
      by_cases removed : RemovedAt entries state.point state'.point
      · have sound := matched.sound start
        have moves : ∃ between, step runtime (Table.ofCode entries) state = some between := by
          rcases safe count state sound.1 with halted | moves
          · rcases removed with ⟨first, _, firstAt, _⟩
            rcases Option.map_eq_some_iff.mp halted with ⟨given, isAt, isHalt⟩
            rw [show (Table.ofCode entries).instructions[state.point]? = _ from firstAt] at isAt
            cases isAt
            cases isHalt
          · exact moves
        rcases moves with ⟨between, stepped⟩
        rcases step_removed sound.2.2 removed stepped with ⟨next, again, nexts, further⟩
        have inside : state.point < (instructionsOf entries).length := by
          rcases removed with ⟨_, _, firstAt, _⟩
          exact (List.getElem?_eq_some_iff.mp firstAt).1
        refine ih ((instructionsOf entries).length - next.point) ?_
          (.removed matched removed stepped again nexts) rfl
        omega
      · exact ⟨count, state, matched, removed⟩

/-- If no run of the code fails, every run of the shortened code matches one of the
code. -/
theorem matched_of_run (start : Corresponds entries origin origin')
    (safe : Safe runtime (Table.ofCode entries) origin) {count' : Nat}
    (runs : run runtime (Table.ofCode (optimize entries)) count' origin' = some state') :
    ∃ count state, MatchedRun runtime entries origin origin' count state count' state' ∧
      ¬ RemovedAt entries state.point state'.point := by
  induction count' generalizing state' with
  | zero =>
      cases runs
      exact exists_catch_up start safe .start
  | succ count' ih =>
      rcases run_succ_cases runs with ⟨between', before, stepped'⟩
      rcases ih before with ⟨count, between, matched, passed⟩
      have sound := matched.sound start
      rcases Code.optimize_fetch sound.2.2.point with removed | ⟨content, remains⟩ | ⟨_, ends⟩
      · exact absurd removed passed
      · rcases safe count between sound.1 with halted | ⟨next, stepped⟩
        · have stopped := sound.2.2.halted halted
          rcases Option.map_eq_some_iff.mp stopped with ⟨given, isAt, isHalt⟩
          rw [step_eq isAt] at stepped'
          rcases given with ⟨opcode, argument⟩
          cases isHalt
          cases stepped'
        · rcases step_remains sound.2.2 remains stepped with ⟨next', again, nexts⟩
          rw [stepped'] at again
          cases again
          exact exists_catch_up start safe (.both matched stepped stepped' nexts)
      · rw [step, show (Table.ofCode (optimize entries)).instructions[between'.point]? = none
          from ends] at stepped'
        cases stepped'

/-- At a point where no pair was removed the code has stopped if the shortened code
has. -/
theorem Corresponds.halted_of_passed (same : Corresponds entries state state')
    (passed : ¬ RemovedAt entries state.point state'.point)
    (halted : Halted (Table.ofCode (optimize entries)) state') :
    Halted (Table.ofCode entries) state := by
  rcases Option.map_eq_some_iff.mp halted with ⟨given, isAt, isHalt⟩
  rcases Code.optimize_fetch same.point with removed | ⟨content, remains⟩ | ⟨_, ends⟩
  · exact absurd removed passed
  · rw [show (Table.ofCode (optimize entries)).instructions[state'.point]? = _
      from remains.newFound] at isAt
    cases isAt
    refine Option.map_eq_some_iff.mpr ⟨content, remains.found, ?_⟩
    by_cases unused : content.opcode = .pop ∧ content.argument ∉ usedSymbols entries
    · rw [dropInstruction, if_pos unused] at isHalt
      cases isHalt
    · rwa [dropInstruction, if_neg unused] at isHalt
  · rw [show (Table.ofCode (optimize entries)).instructions[state'.point]? = none from ends]
      at isAt
    cases isAt

/-- A run of the code to its end is matched by one of the shortened code to its end. -/
theorem exists_matched_end (start : Corresponds entries origin origin') {count : Nat}
    (runs : run runtime (Table.ofCode entries) count origin = some state)
    (halted : Halted (Table.ofCode entries) state) :
    ∃ count' state',
      run runtime (Table.ofCode (optimize entries)) count' origin' = some state' ∧
      Halted (Table.ofCode (optimize entries)) state' ∧ Corresponds entries state state' := by
  rcases isMatched_of_run start runs with ⟨count', state', matched⟩ |
    ⟨_, before, count', state', _, matched, removed, stepped⟩
  · have sound := matched.sound start
    exact ⟨count', state', sound.2.1, sound.2.2.halted halted, sound.2.2⟩
  · -- Between a removed `push` and its `drop` there is no end.
    rcases step_removed (matched.sound start).2.2 removed stepped with ⟨next, again, _⟩
    rcases Option.map_eq_some_iff.mp halted with ⟨given, isAt, isHalt⟩
    rw [step_eq isAt] at again
    rcases given with ⟨opcode, argument⟩
    cases isHalt
    cases again

/-- The code reaches its end if and only if the shortened code does. -/
theorem reaches_end_iff (start : Corresponds entries origin origin')
    (safe : Safe runtime (Table.ofCode entries) origin) :
    (∃ count state, run runtime (Table.ofCode entries) count origin = some state ∧
        Halted (Table.ofCode entries) state) ↔
      ∃ count' state', run runtime (Table.ofCode (optimize entries)) count' origin' = some state' ∧
        Halted (Table.ofCode (optimize entries)) state' := by
  constructor
  · intro ends
    rcases ends with ⟨count, state, runs, halted⟩
    rcases exists_matched_end start runs halted with ⟨count', state', runs', halted', _⟩
    exact ⟨count', state', runs', halted'⟩
  · intro ends
    rcases ends with ⟨count', state', runs, halted⟩
    rcases matched_of_run start safe runs with ⟨count, state, matched, passed⟩
    have sound := matched.sound start
    exact ⟨count, state, sound.1, sound.2.2.halted_of_passed passed halted⟩

/-- No run of the shortened code fails if none of the code does. -/
theorem safe_optimize (start : Corresponds entries origin origin')
    (safe : Safe runtime (Table.ofCode entries) origin) :
    Safe runtime (Table.ofCode (optimize entries)) origin' := by
  intro count' state' runs
  rcases matched_of_run start safe runs with ⟨count, state, matched, passed⟩
  have sound := matched.sound start
  rcases safe count state sound.1 with halted | ⟨next, stepped⟩
  · exact .inl (sound.2.2.halted halted)
  · rcases Code.optimize_fetch sound.2.2.point with removed | ⟨content, remains⟩ | ⟨ends, _⟩
    · exact absurd removed passed
    · rcases step_remains sound.2.2 remains stepped with ⟨next', stepped', _⟩
      exact .inr ⟨next', stepped'⟩
    · rw [step, show (Table.ofCode entries).instructions[state.point]? = none from ends]
        at stepped
      cases stepped

end Runs

/-! ## Scripts -/

/-- Shortened code behaves like the code from the states in which they start. -/
structure BehavesAlike (runtime : Runtime) (entries : List Entry) (origin origin' : State) :
    Prop where
  /-- Both start in corresponding states. -/
  start : Corresponds entries origin origin'
  /-- Every run of the code is matched step by step. -/
  matched : ∀ count state, run runtime (Table.ofCode entries) count origin = some state →
    IsMatched runtime entries origin origin' count state
  /-- What is matched are runs that end in corresponding states. -/
  sound : ∀ count state count' state',
    MatchedRun runtime entries origin origin' count state count' state' →
      run runtime (Table.ofCode entries) count origin = some state ∧
      run runtime (Table.ofCode (optimize entries)) count' origin' = some state' ∧
      Corresponds entries state state'
  /-- If the code does not fail, every run of the shortened code matches one of the code. -/
  complete : Safe runtime (Table.ofCode entries) origin → ∀ count' state',
    run runtime (Table.ofCode (optimize entries)) count' origin' = some state' →
      ∃ count state, MatchedRun runtime entries origin origin' count state count' state'
  /-- If the code does not fail, the shortened code does not fail. -/
  safe : Safe runtime (Table.ofCode entries) origin →
    Safe runtime (Table.ofCode (optimize entries)) origin'
  /-- If the code does not fail, it reaches its end if and only if the shortened code
  does. -/
  ends : Safe runtime (Table.ofCode entries) origin →
    ((∃ count state, run runtime (Table.ofCode entries) count origin = some state ∧
        Halted (Table.ofCode entries) state) ↔
      ∃ count' state',
        run runtime (Table.ofCode (optimize entries)) count' origin' = some state' ∧
        Halted (Table.ofCode (optimize entries)) state')

theorem behavesAlike_of_corresponds (runtime : Runtime) {entries : List Entry}
    {origin origin' : State} (start : Corresponds entries origin origin') :
    BehavesAlike runtime entries origin origin' where
  start := start
  matched := fun _ _ runs => isMatched_of_run start runs
  sound := fun _ _ _ _ matched => matched.sound start
  complete := by
    intro safe count' state' runs
    rcases matched_of_run start safe runs with ⟨count, state, matched, _⟩
    exact ⟨count, state, matched⟩
  safe := safe_optimize start
  ends := reaches_end_iff start

/-- Code and shortened code start in corresponding states. -/
theorem corresponds_initial {entries : List Entry} {point point' : Nat}
    (same : SamePoint entries point point') :
    Corresponds entries (.initial point) (.initial point') :=
  ⟨same, rfl, .nil, .nil, .cons (fun _ _ => .none) .nil, .nil⟩

theorem exists_start {entries : List Entry}
    (member : Code.mainLabel ∈ Code.labelsOf entries) :
    ∃ origin origin', start (Table.ofCode entries) = some origin ∧
      start (Table.ofCode (optimize entries)) = some origin' ∧
      Corresponds entries origin origin' := by
  rw [start, start, Document.get?_ofCode, Document.get?_ofCode]
  rcases optionRel_cases (Code.optimize_place Code.mainLabel entries) with
    ⟨missing, _⟩ | ⟨point, point', found, found', same⟩
  · exact absurd member (Code.place?_eq_none_iff.mp missing)
  · rw [found, found']
    exact ⟨_, _, rfl, rfl, corresponds_initial same⟩

/-- The shortened code of a script behaves like the code of the script, whatever the
machine computes. -/
theorem shortCode_behaves_like_code {script : String} {entries : List Entry}
    (generated : Script.code script = .ok entries) (runtime : Runtime) :
    Script.shortCode script = .ok (optimize entries) ∧
      ∃ origin origin', start (Table.ofCode entries) = some origin ∧
        start (Table.ofCode (optimize entries)) = some origin' ∧
        BehavesAlike runtime entries origin origin' := by
  refine ⟨?_, ?_⟩
  · rw [Script.shortCode, generated]
    rfl
  · rcases Script.exists_hasLabelled generated with ⟨program, labelled, _, rfl⟩
    have member : Code.mainLabel ∈ Code.labelsOf (Code.assemble labelled.fragment) := by
      rw [Code.assemble_fragment]
      simp
    rcases exists_start member with ⟨origin, origin', starts, starts', same⟩
    exact ⟨origin, origin', starts, starts', behavesAlike_of_corresponds runtime same⟩

/-- A value that is dropped at once and a binding that nothing reads are shortened. -/
theorem unused_values_behave_alike :
    ∃ entries, Script.code "x = 1\nx\nprint(x)\ny = 2\n" = .ok entries ∧
      (instructionsOf entries).length = 11 ∧ (instructionsOf (optimize entries)).length = 9 ∧
      Script.shortCode "x = 1\nx\nprint(x)\ny = 2\n" = .ok (optimize entries) ∧
      ∃ origin origin', start (Table.ofCode entries) = some origin ∧
        start (Table.ofCode (optimize entries)) = some origin' ∧
        BehavesAlike (.standard .words) entries origin origin' := by
  have lengths : (Script.code "x = 1\nx\nprint(x)\ny = 2\n").map (fun entries =>
      ((instructionsOf entries).length, (instructionsOf (optimize entries)).length)) =
        .ok (11, 9) := by
    decide +kernel
  cases generated : Script.code "x = 1\nx\nprint(x)\ny = 2\n" with
  | error error =>
      rw [generated] at lengths
      cases lengths
  | ok entries =>
      rw [generated] at lengths
      have counts := Prod.mk.inj (Except.ok.inj lengths)
      exact ⟨entries, rfl, counts.1, counts.2,
        shortCode_behaves_like_code generated (.standard .words)⟩

end StackScript.Machine
