import StackScript.Code.Basic

/-!
# Shortening stack code

Two passes shorten stack code.  The first removes a symbol that is pushed only to
be dropped at once.  The second replaces the binding of a symbol that no other
instruction mentions by a plain drop.
-/

namespace StackScript.Code

/-- Removes each `push` that is directly followed by a `drop`, together with the
`drop`.  Code that becomes adjacent by a removal is not looked at again. -/
def removePushDrop : List Entry → List Entry
  | [] => []
  | [entry] => [entry]
  | first :: second :: rest =>
      if first.hasOpcode .push && second.hasOpcode .drop then removePushDrop rest
      else first :: removePushDrop (second :: rest)

/-- The argument by which an entry uses a symbol, if it does.  A `pop` binds its
symbol and does not use it. -/
def usedSymbol? : Entry → Option Argument
  | .instruction ⟨opcode, .text content⟩ =>
      if opcode ≠ .pop && "sym".toList.isPrefixOf content.toList then some (.text content)
      else none
  | _ => none

/-- An entry, or a `drop` for a `pop` whose argument is not among the used
symbols. -/
def dropIfUnused (used : List Argument) : Entry → Entry
  | .instruction ⟨.pop, argument⟩ =>
      if used.contains argument then .instruction ⟨.pop, argument⟩
      else .instruction ⟨.drop, .nothing⟩
  | entry => entry

/-- Replaces each `pop` of a symbol that is not used anywhere by a `drop`. -/
def dropUnusedPops (entries : List Entry) : List Entry :=
  entries.map (dropIfUnused (entries.filterMap usedSymbol?))

/-- Shortens stack code. -/
def optimize (entries : List Entry) : List Entry :=
  dropUnusedPops (removePushDrop entries)

end StackScript.Code
