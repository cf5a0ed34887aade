import StackScript.Grammar.Expression
import StackScript.Proofs.Machine.Basic

/-!
# The standard machine

The machine that documents are written for.  It knows the names `true`, `false`,
`print` and `pow`, it binds a name at most once in a scope, and it calls closures only
without arguments.  It has no instructions on lists, records and symbols.  Arithmetic,
comparison and the builtins are left open as `Primitives`; `Primitives.words` are those
on words of 32 bits.
-/

namespace StackScript.Machine

open StackScript.Code (Opcode)

/-- Arithmetic, comparison and builtins. -/
structure Primitives where
  operate : Opcode → List Scalar → Option Scalar
  /-- The result of a builtin, and what it prints. -/
  invoke : Builtin → List Scalar → Option (Scalar × String)

/-- The names that are reserved on reading. -/
def reserved : String → Option Scalar
  | "true" => some (.boolean true)
  | "false" => some (.boolean false)
  | "print" => some (.builtin .print)
  | "pow" => some (.builtin .pow)
  | _ => none

def isBindable (name : String) : Bool :=
  name ≠ "print" && name ≠ "pow"

/-- An integer as a signed word of 32 bits. -/
def word (value : Int) : Int :=
  (BitVec.ofInt 32 value).toInt

/-- The standard machine with given primitives. -/
def Runtime.standard (primitives : Primitives) : Runtime where
  predefined := reserved
  bindable := isBindable
  rebinds := false
  accepts := fun argumentCount => argumentCount = 0
  integer := fun value => some (.integer (word value))
  text := fun content => some (.text (Grammar.unquoted content))
  operate := primitives.operate
  invoke := primitives.invoke
  extend := fun _ _ => none
  extend_related := fun _ _ _ _ _ => .none

/-- A scalar as it is printed. -/
def Scalar.print? : Scalar → Option String
  | boolean value => some (if value then "true" else "false")
  | integer value => some (toString value)
  | text content => some content
  | builtin _ => none

/-- Prints scalars one after another. -/
def printAll? : List Scalar → Option String
  | [] => some ""
  | content :: rest => do
      let first ← content.print?
      let later ← printAll? rest
      return first ++ later

/-- Primitives on words of 32 bits. -/
def Primitives.words : Primitives where
  operate
    | .add, [.integer left, .integer right] => some (.integer (word (left + right)))
    | .subtract, [.integer left, .integer right] => some (.integer (word (left - right)))
    | .multiply, [.integer left, .integer right] => some (.integer (word (left * right)))
    | .integerDivide, [.integer left, .integer right] =>
        if right = 0 then none else some (.integer (word (left.tdiv right)))
    | .modulo, [.integer left, .integer right] =>
        if right = 0 then none else some (.integer (word (left.tmod right)))
    | .negate, [.integer operand] => some (.integer (word (-operand)))
    | .eq, [.integer left, .integer right] => some (.boolean (left = right))
    | .neq, [.integer left, .integer right] => some (.boolean (left ≠ right))
    | .lt, [.integer left, .integer right] => some (.boolean (left < right))
    | .lte, [.integer left, .integer right] => some (.boolean (left ≤ right))
    | .gt, [.integer left, .integer right] => some (.boolean (left > right))
    | .gte, [.integer left, .integer right] => some (.boolean (left ≥ right))
    | _, _ => none
  invoke
    | .pow, [.integer base, .integer exponent] =>
        if exponent < 0 then none
        else some (.integer (word (base.pow exponent.toNat)), "")
    | .print, first :: rest => do
        let output ← printAll? (first :: rest)
        return (.builtin .nil, output)
    | _, _ => none

end StackScript.Machine
