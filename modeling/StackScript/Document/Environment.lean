/-!
# Environments of the machine, as C text

An environment binds symbols to objects and may shadow another environment.
-/

namespace StackScript.Document

def environmentLines : List String :=
  ["struct _EnvironmentNode;",
   "typedef struct _EnvironmentNode _EnvironmentNode;",
   "struct _EnvironmentNode \x7b",
   "  const char* symbol;",
   "  Object value;",
   "  _EnvironmentNode* next;",
   "\x7d;",
   "",
   "struct Environment \x7b",
   "  size_t referenceCount;",
   "  Environment* shadowed;",
   "  _EnvironmentNode* top;",
   "\x7d;",
   "",
   "struct Environment_get_Result;",
   "typedef struct Environment_get_Result Environment_get_Result;",
   "struct Environment_get_Result \x7b",
   "  bool found;",
   "  Object result;",
   "\x7d;",
   "",
   "void Environment_initialize(Environment* self, Environment* shadowed) \x7b",
   "  self->referenceCount = 1;",
   "  self->shadowed = shadowed;",
   "  self->top = NULL;",
   "\x7d",
   "",
   "void Environment_deinitialize(Environment* self) \x7b",
   "  assert(self->referenceCount == 0);",
   "",
   "  while(self->top != NULL) \x7b",
   "    _EnvironmentNode* en = self->top;",
   "    self->top = en->next;",
   "    Object_deinitialize(&(en->value));",
   "    free(en);",
   "  \x7d",
   "\x7d",
   "",
   "Environment* Environment_construct(Environment* shadowed) \x7b",
   "  Environment* result = malloc(sizeof(Environment));",
   "  Environment_initialize(result, shadowed);",
   "  return result;",
   "\x7d",
   "",
   "Environment* Environment_reference(Environment* self) \x7b",
   "  self->referenceCount++; // TODO Do we need to make this thread safe?",
   "  return self;",
   "\x7d",
   "",
   "void Environment_destruct(Environment* self) \x7b",
   "  self->referenceCount--; // TODO Do we need to make this thread safe?",
   "  if(self->referenceCount == 0) \x7b",
   "    Environment_deinitialize(self);",
   "    free(self);",
   "  \x7d",
   "\x7d",
   "",
   "Environment_get_Result Environment_getShallow(Environment* self, char* symbol) \x7b",
   "  for(_EnvironmentNode* current = self->top; current != NULL; current = current->next) \x7b",
   "    if(strcmp(current->symbol, symbol) == 0) \x7b",
   "      return (Environment_get_Result) \x7b true, current->value \x7d;",
   "    \x7d",
   "  \x7d",
   "  return (Environment_get_Result) \x7b false, BUILTIN_NIL \x7d;",
   "\x7d",
   "",
   "Environment_get_Result Environment_get(Environment* self, char* symbol) \x7b",
   "  for(; self != NULL; self = self->shadowed) \x7b",
   "    Environment_get_Result result = Environment_getShallow(self, symbol);",
   "    if(result.found) return result;",
   "  \x7d",
   "  return (Environment_get_Result) \x7b false, BUILTIN_NIL \x7d;",
   "\x7d",
   "",
   "void Environment_set(Environment* self, char* symbol, Object value) \x7b",
   "  assert(!(Environment_getShallow(self, symbol).found));",
   "",
   "  _EnvironmentNode* en = malloc(sizeof(_EnvironmentNode));",
   "  en->symbol = symbol;",
   "  en->value = value;",
   "  en->next = self->top;",
   "  self->top = en;",
   "\x7d"]

end StackScript.Document
