/-!
# Forms

Every form of tree node has a registered name.  Reports about a node that stands
where it may not stand, or that lacks what is asked of it, give this name.
-/

namespace StackScript

/-- The registered name of a form: the family it belongs to and its own name in
this family.  The family is empty for plain data that is no tree node. -/
structure Form where
  family : String
  name : String
  deriving DecidableEq, Repr

/-- The name of a form together with its family. -/
def Form.qualifiedName (form : Form) : String :=
  if form.family = "" then form.name else form.family ++ "." ++ form.name

end StackScript
