/-!
# Objects of the machine, as C text

The values that the machine works on: booleans, builtins, closures, integers and
strings.
-/

namespace StackScript.Document

def objectLines : List String :=
  ["#include<assert.h>",
   "#include<stdbool.h>",
   "#include<stdint.h>",
   "#include<stdio.h>",
   "#include<stdlib.h>",
   "#include<string.h>",
   "",
   "enum Type;",
   "typedef enum Type Type;",
   "enum Type \x7b",
   "  BOOLEAN,",
   "  BUILTIN,",
   "  CLOSURE,",
   "  INTEGER,",
   "  STRING",
   "\x7d;",
   "",
   "enum Builtin;",
   "typedef enum Builtin Builtin;",
   "enum Builtin \x7b",
   "  NIL,",
   "  POW,",
   "  PRINT",
   "\x7d;",
   "",
   "struct Object;",
   "typedef struct Object Object;",
   "struct Environment;",
   "typedef struct Environment Environment;",
   "struct Thread;",
   "typedef struct Thread Thread;",
   "",
   "struct Closure;",
   "typedef struct Closure Closure;",
   "struct Closure \x7b",
   "  Environment* environment;",
   "  size_t entry;",
   "\x7d;",
   "",
   "union Value;",
   "typedef union Value Value;",
   "union Value \x7b",
   "  Builtin builtin;",
   "  Closure closure;",
   "  bool boolean;",
   "  char* string;",
   "  int32_t integer;",
   "\x7d;",
   "",
   "struct Object \x7b",
   "  Type type;",
   "  Value value;",
   "\x7d;",
   "",
   "#define BUILTIN_NIL (Object) \x7b BUILTIN, (Value)(Builtin)NIL \x7d",
   "",
   "void Object_deinitialize(Object* self) \x7b",
   "\x7d",
   ""]

end StackScript.Document
