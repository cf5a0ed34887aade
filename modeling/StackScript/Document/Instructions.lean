import StackScript.Code.Basic

/-!
# Instructions of the machine, as C text

One function for each instruction.  Arithmetic and comparison instructions share
their text up to the operator.
-/

namespace StackScript.Document

open StackScript.Code (Opcode)

/-- The function for an arithmetic instruction, which joins two integers by an
operator of C. -/
def arithmeticLines (opcode : Opcode) (operator : String) : List String :=
  ["void inst_" ++ opcode.name ++ "(struct Thread* thread, const union Argument argument) \x7b",
   "  // We're going to reuse result as both the first input and the result",
   "  assert(!Stack_isEmpty(&(thread->stack)));",
   "  Object result = Stack_pop(&(thread->stack));",
   "  assert(result.type == INTEGER);",
   "",
   "  assert(!Stack_isEmpty(&(thread->stack)));",
   "  Object other = Stack_pop(&(thread->stack));",
   "  assert(other.type == INTEGER);",
   "",
   "  result.value.integer = other.value.integer " ++ operator ++ " result.value.integer;",
   "",
   "  Stack_push(&(thread->stack), result);",
   "\x7d"]

/-- The function for a comparison instruction, which joins two integers by an
operator of C. -/
def comparisonLines (opcode : Opcode) (operator : String) : List String :=
  ["void inst_" ++ opcode.name ++ "(struct Thread* thread, const union Argument argument) \x7b",
   "  // We're going to reuse result as both the first input and the result",
   "  assert(!Stack_isEmpty(&(thread->stack)));",
   "  Object result = Stack_pop(&(thread->stack));",
   "  assert(result.type == INTEGER);",
   "",
   "  assert(!Stack_isEmpty(&(thread->stack)));",
   "  Object other = Stack_pop(&(thread->stack));",
   "  assert(other.type == INTEGER);",
   "",
   "  result.type = BOOLEAN;",
   "  result.value.boolean = other.value.integer " ++ operator ++ " result.value.integer;",
   "",
   "  Stack_push(&(thread->stack), result);",
   "\x7d"]

/-- Lines that take the place of a line of their own: they are set off by empty
lines, and the first of them is indented. -/
def inset : List String → List String
  | [] => ["", "  ", ""]
  | first :: rest => "" :: ("  " ++ first) :: rest ++ [""]

def callLines : List String :=
  ["void inst_call(Thread* thread, Argument argument) \x7b",
   "  assert(!Stack_isEmpty(&(thread->stack)));",
   "  Object f = Stack_pop(&(thread->stack));",
   "  size_t argumentCount = argument.label;",
   "",
   "  switch(f.type) \x7b",
   "    case BUILTIN:",
   "      callBuiltin(thread, f.value.builtin, argumentCount);",
   "      break;",
   "",
   "    case CLOSURE:",
   "      callClosure(thread, f.value.closure, argumentCount);",
   "      break;",
   "",
   "    default:",
   "      assert(false);",
   "  \x7d",
   "\x7d",
   ""]

/-- The functions for closing over a block, dropping a value and ending. -/
def closureLines : List String :=
  ["",
   "void inst_close(Thread* thread, Argument argument) \x7b",
   "  Object result;",
   "  result.type = CLOSURE;",
   "  result.value.closure.environment = Thread_getEnvironment(thread);",
   "  result.value.closure.entry = argument.label;",
   "",
   "  Stack_push(&(thread->stack), result);",
   "\x7d",
   "",
   "void inst_drop(Thread* thread, Argument argument) \x7b",
   "  assert(!Stack_isEmpty(&(thread->stack)));",
   "  Object result = Stack_pop(&(thread->stack));",
   "  Object_deinitialize(&result);",
   "\x7d",
   "",
   "void inst_end(Thread* thread, Argument argument) \x7b",
   "\x7d",
   ""]

def jumpLines : List String :=
  ["",
   "void inst_jump(Thread* thread, Argument argument) \x7b",
   "  Thread_setProgramCounter(thread, argument.label - 1); // We will increment before running",
   "\x7d",
   "",
   "void inst_jump_if_false(Thread* thread, Argument argument) \x7b",
   "  assert(!Stack_isEmpty(&(thread->stack)));",
   "  Object result = Stack_pop(&(thread->stack));",
   "  assert(result.type == BOOLEAN);",
   "",
   "  if(!(result.value.boolean)) \x7b",
   "    inst_jump(thread, argument);",
   "  \x7d",
   "\x7d",
   ""]

/-- The functions for negating, binding and pushing. -/
def bindingLines : List String :=
  ["",
   "void inst_neg(Thread* thread, Argument argument) \x7b",
   "  assert(!Stack_isEmpty(&(thread->stack)));",
   "  Object result = Stack_pop(&(thread->stack));",
   "  assert(result.type == INTEGER);",
   "",
   "  result.value.integer = -(result.value.integer);",
   "",
   "  Stack_push(&(thread->stack), result);",
   "\x7d",
   "",
   "void inst_pop(Thread* thread, Argument argument) \x7b",
   "  char* argumentString = argument.string;",
   "",
   "  assert(!Stack_isEmpty(&(thread->stack)));",
   "  Object result = Stack_pop(&(thread->stack));",
   "",
   "  if(strcmp(argumentString, \"print\") == 0) \x7b",
   "    assert(false);",
   "  \x7d else if(strcmp(argumentString, \"pow\") == 0) \x7b",
   "    assert(false);",
   "  \x7d",
   "",
   "",
   "  Environment_set(Thread_getEnvironment(thread), argumentString, result);",
   "\x7d",
   "",
   "void inst_push(Thread* thread, Argument argument) \x7b",
   "  char* argumentString = argument.string;",
   "",
   "  if(strcmp(argumentString, \"false\") == 0) \x7b",
   "    Stack_push(&(thread->stack), (Object)\x7b BOOLEAN, false \x7d);",
   "  \x7delse if(strcmp(argumentString, \"pow\") == 0) \x7b",
   "    Object result;",
   "    result.type = BUILTIN;",
   "    result.value.builtin = POW;",
   "    Stack_push(&(thread->stack), result);",
   "  \x7d else if(strcmp(argumentString, \"print\") == 0) \x7b",
   "    Object result;",
   "    result.type = BUILTIN;",
   "    result.value.builtin = PRINT;",
   "    Stack_push(&(thread->stack), result);",
   "  \x7d else if(strcmp(argumentString, \"true\") == 0) \x7b",
   "    Stack_push(&(thread->stack), (Object)\x7b BOOLEAN, true \x7d);",
   "  \x7d else \x7b",
   "    Environment_get_Result result = Environment_get(",
   "      Thread_getEnvironment(thread),",
   "      argumentString",
   "    );",
   "    if(!result.found) \x7b",
   "      fprintf(stderr, \"Variable `%s` not found\", argumentString);",
   "      assert(false);",
   "    \x7d",
   "    Stack_push(&(thread->stack), result.result);",
   "  \x7d",
   "\x7d",
   "",
   "void inst_push_integer(Thread* thread, Argument argument) \x7b",
   "  Object result;",
   "  result.type = INTEGER;",
   "  result.value.integer = argument.integer;",
   "",
   "  Stack_push(&(thread->stack), result);",
   "\x7d",
   "",
   "void inst_push_string(Thread* thread, Argument argument) \x7b",
   "  Object result;",
   "  result.type = STRING;",
   "  result.value.string = argument.string;",
   "",
   "  Stack_push(&(thread->stack), result);",
   "\x7d",
   ""]

def returnLines : List String :=
  ["",
   "void inst_return(Thread* thread, Argument argument) \x7b",
   "  Frame* returnFrame = thread->frame.returnFrame;",
   "",
   "  Frame_deinitialize(&(thread->frame));",
   "",
   "  Frame_initialize(",
   "    &(thread->frame),",
   "    returnFrame->environment,",
   "    returnFrame->returnFrame,",
   "    returnFrame->programCounter",
   "  );",
   "",
   "  free(returnFrame);",
   "\x7d",
   ""]

/-- The functions for all instructions that can be written down. -/
def instructionLines : List String :=
  callLines ++
    inset (arithmeticLines .add "+") ++
    closureLines ++
    inset (comparisonLines .eq "==") ++
    [""] ++
    inset (comparisonLines .gt ">") ++
    [""] ++
    inset (comparisonLines .gte ">=") ++
    [""] ++
    inset (arithmeticLines .integerDivide "/") ++
    jumpLines ++
    inset (comparisonLines .lt "<") ++
    [""] ++
    inset (comparisonLines .lte "<=") ++
    [""] ++
    inset (arithmeticLines .modulo "%") ++
    [""] ++
    inset (arithmeticLines .multiply "*") ++
    [""] ++
    inset (comparisonLines .neq "!=") ++
    bindingLines ++
    inset (arithmeticLines .subtract "-") ++
    returnLines

end StackScript.Document
