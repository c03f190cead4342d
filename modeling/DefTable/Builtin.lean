/-!
# Builtins

The names that every program may refer to without declaring them.  Names that start with `@` are
bound outside the program altogether: they are never looked up and never renamed.
-/

namespace DefTable
namespace Builtin

def names : List String :=
  ["+", "-", "*", "/", "^", "mod",
   "floor", "ceil", "round", "trunc", "sign", "abs",
   "==", "!=", ">", "<", ">=", "<=",
   "and", "or", "not", "xor",
   "++", "map", "flat_map", "fold", "fold1", "index", "length", "contains",
   "head", "tail", "sum", "min", "max", "avg", "med", "sort",
   "date_sub", "date_add", "date_today", "date_fmt", "time_now", "datetime_fmt",
   "currency_fmt", "country_fmt", "phone_fmt",
   "id"]

def contains (name : String) : Bool :=
  names.contains name

end Builtin

def isGlobal (name : String) : Bool :=
  name.toList.head? = some '@'

end DefTable
