/-!
# Ledgers

A ledger maps keys to values and keeps the keys in the order in which they were
first entered.  Entering a key again changes its value and not its place:
`get?_set` says what is found after an entry, `map_fst_set` in which order.
-/

namespace StackScript

/-- Keys with their values, in the order of their first entry. -/
abbrev Ledger (κ ν : Type) : Type :=
  List (κ × ν)

namespace Ledger

variable {κ ν : Type} [DecidableEq κ]

/-- The value of a key. -/
def get? (key : κ) : Ledger κ ν → Option ν
  | [] => none
  | (other, value) :: rest => if other = key then some value else get? key rest

/-- Enters a value under a key. -/
def set (key : κ) (value : ν) : Ledger κ ν → Ledger κ ν
  | [] => [(key, value)]
  | (other, old) :: rest =>
      if other = key then (other, value) :: rest else (other, old) :: set key value rest

/-- The ledger that results from entering pairs in order. -/
def ofList (entries : List (κ × ν)) : Ledger κ ν :=
  entries.foldl (fun ledger entry => set entry.1 entry.2 ledger) []

/-- Entering a value changes what is found under its key and under no other. -/
theorem get?_set (key wanted : κ) (value : ν) (ledger : Ledger κ ν) :
    get? wanted (set key value ledger) =
      if key = wanted then some value else get? wanted ledger := by
  induction ledger with
  | nil => simp [set, get?]
  | cons entry rest ih =>
      obtain ⟨other, old⟩ := entry
      by_cases same : other = key
      · subst same
        by_cases found : other = wanted <;> simp [set, get?, found]
      · by_cases found : other = wanted
        · subst found
          have differs : key ≠ other := fun equal => same equal.symm
          simp [set, get?, same, differs]
        · simp [set, get?, same, found, ih]

/-- A key that is already entered keeps its place, and a new one goes last. -/
theorem map_fst_set (key : κ) (value : ν) (ledger : Ledger κ ν) :
    (set key value ledger).map Prod.fst =
      if key ∈ ledger.map Prod.fst then ledger.map Prod.fst
      else ledger.map Prod.fst ++ [key] := by
  induction ledger with
  | nil => simp [set]
  | cons entry rest ih =>
      obtain ⟨other, old⟩ := entry
      by_cases same : other = key
      · simp [set, same]
      · have differs : key ≠ other := fun equal => same equal.symm
        by_cases entered : key ∈ rest.map Prod.fst <;>
          simp_all [set]

end Ledger

end StackScript
