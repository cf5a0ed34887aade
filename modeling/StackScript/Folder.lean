import StackScript.Ledger

/-!
# Folders

What a path leads to from a folder of files.  A path is a row of steps with slashes
between them.  An empty step and a single period stay where they are, two periods
lead outside.  A folder knows nothing of what lies outside of it, except that
there are folders.
-/

namespace StackScript

/-- What a path leads to. -/
inductive Finding where
  | nothing
  | folder
  /-- The path goes on after a file. -/
  | pastFile
  | file (content : String)
  deriving DecidableEq, Repr

/-- The contents of files by their names. -/
abbrev Folder : Type :=
  Ledger String String

namespace Folder

/-- Whether a step stays where it is. -/
def stays (step : String) : Bool :=
  step = "" || step = "."

/-- What the steps of a path lead to. -/
def follow (folder : Folder) : (steps : List String) → Finding
  | [] => .folder
  | step :: steps =>
      if stays step then follow folder steps
      else if step = ".." then
        if steps.all fun next => stays next || next = ".." then .folder else .nothing
      else
        match Ledger.get? step folder with
        | none => .nothing
        | some content => if steps = [] then .file content else .pastFile

/-- What a path leads to.  A path that starts with a slash starts outside. -/
def find (folder : Folder) (path : String) : Finding :=
  if path = "" then .nothing
  else if path.startsWith "/" then follow [] (path.splitOn "/")
  else follow folder (path.splitOn "/")

end Folder

end StackScript
