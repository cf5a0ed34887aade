import StackScript.Corpus.Samples

/-!
# Workloads

A workload makes one form of many sample scripts.  Its scripts are taken from a
pool in order, and from the start again when the pool is used up.  The pool of a
workload holds only scripts of which the form can be made.
-/

namespace StackScript.Corpus

/-- The small scripts that stack code exists for. -/
def emittedSamples : List String :=
  samples.filter fun script => script ≠ lists && script ≠ concatenation

/-- The scripts that can be parsed. -/
def readable : List String :=
  samples ++ [everyFeature, everyEmitted]

/-- The scripts that stack code exists for. -/
def emitted : List String :=
  emittedSamples ++ [everyEmitted, everyWritten]

/-- The scripts that a document exists for. -/
def written : List String :=
  emittedSamples.filter (fun script => script ≠ records) ++ [everyWritten]

/-- The forms that a workload can make of a script. -/
inductive Workload where
  | tokens
  | surface
  | core
  | linear
  | placed
  | code
  | shortCode
  | listing
  | table
  | whole
  deriving DecidableEq, Repr

namespace Workload

/-- The scripts that a workload takes. -/
def pool : Workload → List String
  | tokens | surface | core | linear | placed => readable
  | code | shortCode | listing | whole => emitted
  | table => written

/-- The usual sizes of a workload. -/
def sizes : Workload → List Nat
  | tokens => [40, 200, 800]
  | surface => [30, 120, 400]
  | core => [60, 300, 1000]
  | linear => [60, 300, 1000]
  | placed => [80, 400, 1500]
  | code => [60, 300, 1000]
  | shortCode => [120, 600, 2000]
  | listing => [80, 400, 1500]
  | table => [80, 400, 1500]
  | whole => [10, 40, 150]

/-- The scripts of a workload of a given size.  A size below zero counts as
zero. -/
def scripts (workload : Workload) (size : Int) : List String :=
  (List.range size.toNat).filterMap fun index =>
    workload.pool[index % workload.pool.length]?

end Workload

end StackScript.Corpus
