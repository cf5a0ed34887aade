/-!
# The stack of the machine, as C text

The stack is a linked list of objects.
-/

namespace StackScript.Document

def stackLines : List String :=
  ["struct _StackNode;",
   "typedef struct _StackNode _StackNode;",
   "struct _StackNode \x7b",
   "  Object value;",
   "  _StackNode* next;",
   "\x7d;",
   "",
   "struct Stack;",
   "typedef struct Stack Stack;",
   "struct Stack \x7b",
   "  _StackNode* top;",
   "\x7d;",
   "",
   "void Stack_initialize(Stack* self) \x7b",
   "  self->top = NULL;",
   "\x7d",
   "",
   "bool Stack_isEmpty(Stack* self) \x7b",
   "  return self->top == NULL;",
   "\x7d",
   "",
   "Object Stack_pop(Stack*);",
   "",
   "void Stack_deinitialize(Stack* self) \x7b",
   "  while(self->top != NULL) \x7b",
   "    Object o = Stack_pop(self);",
   "    Object_deinitialize(&o);",
   "  \x7d",
   "\x7d",
   "",
   "void Stack_push(Stack* self, Object value) \x7b",
   "  _StackNode* node = malloc(sizeof(_StackNode));",
   "  node->value = value;",
   "  node->next = self->top;",
   "  self->top = node;",
   "\x7d",
   "",
   "Object Stack_pop(Stack* self) \x7b",
   "  assert(self->top != NULL);",
   "",
   "  _StackNode* node = self->top;",
   "  self->top = node->next;",
   "",
   "  Object result = node->value;",
   "  free(node);",
   "  return result;",
   "\x7d"]

end StackScript.Document
