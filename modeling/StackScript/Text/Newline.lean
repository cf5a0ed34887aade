/-!
# Newlines

Files may end their lines in a carriage return, in a newline, or in both.
-/

namespace StackScript.Text

/-- Characters with every line ending written as a newline. -/
def unifiedNewlines : List Char → List Char
  | [] => []
  | '\r' :: '\n' :: rest => '\n' :: unifiedNewlines rest
  | '\r' :: rest => '\n' :: unifiedNewlines rest
  | character :: rest => character :: unifiedNewlines rest

/-- A text with every line ending written as a newline. -/
def unifyNewlines (text : String) : String :=
  String.ofList (unifiedNewlines text.toList)

end StackScript.Text
