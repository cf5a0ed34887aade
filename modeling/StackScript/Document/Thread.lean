/-!
# Threads and builtins of the machine, as C text

A thread has a frame and a stack.  The builtins `pow` and `print` work on the
stack of a thread.
-/

namespace StackScript.Document

/-- The declarations of threads. -/
def threadLines : List String :=
  ["",
   "struct Thread \x7b",
   "  Frame frame;",
   "  Stack stack;",
   "\x7d;",
   "",
   "void Thread_initialize(Thread* self, size_t programCounter) \x7b",
   "  Frame_initialize(&(self->frame), Environment_construct(NULL), NULL, programCounter);",
   "  Stack_initialize(&(self->stack));",
   "\x7d",
   "",
   "void Thread_deinitialize(Thread* self) \x7b",
   "  Frame_deinitialize(&(self->frame));",
   "  Stack_deinitialize(&(self->stack));",
   "\x7d",
   "",
   "Environment* Thread_getEnvironment(Thread* self) \x7b",
   "  return self->frame.environment;",
   "\x7d",
   "",
   "void Thread_setProgramCounter(Thread* self, size_t programCounter) \x7b",
   "  self->frame.programCounter = programCounter;",
   "\x7d",
   "",
   "void Thread_incrementProgramCounter(Thread* self) \x7b",
   "  self->frame.programCounter++;",
   "\x7d",
   "",
   "size_t Thread_getProgramCounter(Thread* self) \x7b",
   "  return self->frame.programCounter;",
   "\x7d",
   ""]

/-- The declarations of arguments, builtins and calls. -/
def builtinLines : List String :=
  ["union Argument;",
   "typedef const union Argument Argument;",
   "union Argument \x7b",
   "  size_t label;",
   "  void* pointer;",
   "  char* string;",
   "  int32_t integer;",
   "\x7d;",
   "",
   "void callBuiltinPow(Thread* thread, size_t argumentCount) \x7b",
   "  assert(argumentCount == 2);",
   "  assert(!Stack_isEmpty(&(thread->stack)));",
   "  Object exponent = Stack_pop(&(thread->stack));",
   "  assert(exponent.type == INTEGER);",
   "  assert(exponent.value.integer >= 0);",
   "",
   "  assert(!Stack_isEmpty(&(thread->stack)));",
   "  Object base = Stack_pop(&(thread->stack));",
   "  assert(base.type == INTEGER);",
   "",
   "  Object result;",
   "  result.type = INTEGER;",
   "  result.value.integer = 1;",
   "",
   "  while(exponent.value.integer > 0) \x7b",
   "    result.value.integer *= base.value.integer;",
   "    exponent.value.integer--;",
   "  \x7d",
   "",
   "  Stack_push(&(thread->stack), result);",
   "\x7d",
   "",
   "void callBuiltinPrint(Thread* thread, size_t argumentCount) \x7b",
   "  assert(argumentCount > 0);",
   "",
   "  Object arguments[argumentCount];",
   "  size_t count;",
   "",
   "  for(count = 0; count < argumentCount; count++) \x7b",
   "    assert(!Stack_isEmpty(&(thread->stack)));",
   "    arguments[argumentCount - count - 1] = Stack_pop(&(thread->stack));",
   "  \x7d",
   "",
   "  for(count = 0; count < argumentCount; count ++) \x7b",
   "    Object arg = arguments[count];",
   "",
   "    switch(arg.type) \x7b",
   "      case BOOLEAN:",
   "        if(arg.value.boolean) printf(\"true\");",
   "        else printf(\"false\");",
   "        break;",
   "",
   "      case INTEGER:",
   "        printf(\"%i\", arg.value.integer);",
   "        break;",
   "",
   "      case STRING:",
   "        printf(\"%s\", arg.value.string);",
   "        break;",
   "",
   "      default:",
   "        assert(false);",
   "    \x7d",
   "  \x7d",
   "",
   "  Stack_push(&(thread->stack), BUILTIN_NIL);",
   "\x7d",
   "",
   "void callBuiltin(Thread* thread, Builtin b, size_t argumentCount) \x7b",
   "  switch(b) \x7b",
   "    case POW:",
   "      callBuiltinPow(thread, argumentCount);",
   "      break;",
   "    case PRINT:",
   "      callBuiltinPrint(thread, argumentCount);",
   "      break;",
   "",
   "    default:",
   "      assert(false);",
   "  \x7d",
   "\x7d",
   "",
   "void callClosure(Thread* thread, Closure closure, size_t argumentCount) \x7b",
   "  assert(argumentCount == 0);",
   "",
   "  Frame* returnFrame = malloc(sizeof(Frame));",
   "  *returnFrame = thread->frame;",
   "  Frame_initialize(",
   "    &(thread->frame),",
   "    Environment_construct(Environment_reference(closure.environment)),",
   "    returnFrame,",
   "    closure.entry - 1 // We will increment the frame immediately after this",
   "  );",
   "\x7d",
   ""]

end StackScript.Document
