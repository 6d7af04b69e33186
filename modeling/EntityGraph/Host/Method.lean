import EntityGraph.Host.Kind

/-!
# Methods of built-in classes

The methods that the built-in classes offer by name. Some of them say how many arguments they take
by place; the others are silent about it.
-/

namespace EntityGraph.Builtin

/-- Methods that take so many arguments by place. -/
def taking (count : Nat) (names : List String) : List (String × Option Nat) :=
  names.map (·, some count)

/-- Methods that are silent about their arguments. -/
def silent (names : List String) : List (String × Option Nat) := names.map (·, none)

/-- The methods of a built-in class, with the numbers of their arguments. -/
def methodArities : Builtin → List (String × Option Nat)
  | str =>
    taking 0 ["capitalize", "casefold", "isalnum", "isalpha", "isascii", "isdecimal", "isdigit",
        "isidentifier", "islower", "isnumeric", "isprintable", "isspace", "istitle", "isupper",
        "lower", "swapcase", "title", "upper"]
    ++ taking 1 ["expandtabs", "join", "lstrip", "partition", "removeprefix", "removesuffix",
        "rpartition", "rstrip", "splitlines", "strip", "translate", "zfill"]
    ++ taking 2 ["center", "encode", "ljust", "rjust", "rsplit", "split"]
    ++ taking 3 ["replace"]
    ++ silent ["count", "endswith", "find", "format", "format_map", "index", "maketrans", "rfind",
        "rindex", "startswith"]
  | bytes =>
    taking 1 ["expandtabs", "fromhex", "join", "lstrip", "partition", "removeprefix",
        "removesuffix", "rpartition", "rstrip", "splitlines", "strip", "zfill"]
    ++ taking 2 ["center", "decode", "ljust", "maketrans", "rjust", "rsplit", "split", "translate"]
    ++ taking 3 ["replace"]
    ++ silent ["capitalize", "count", "endswith", "find", "hex", "index", "isalnum", "isalpha",
        "isascii", "isdigit", "islower", "isspace", "istitle", "isupper", "lower", "rfind",
        "rindex", "startswith", "swapcase", "title", "upper"]
  | list =>
    taking 0 ["clear", "copy", "reverse", "sort"]
    ++ taking 1 ["append", "count", "extend", "pop", "remove"]
    ++ taking 2 ["insert"]
    ++ taking 3 ["index"]
  | tuple =>
    taking 1 ["count"]
    ++ taking 3 ["index"]
  | dict =>
    taking 0 ["popitem"]
    ++ taking 2 ["fromkeys", "get", "setdefault"]
    ++ silent ["clear", "copy", "items", "keys", "pop", "update", "values"]
  | orderedDict =>
    taking 1 ["popitem"]
    ++ taking 2 ["fromkeys", "get", "move_to_end", "setdefault"]
    ++ silent ["clear", "copy", "items", "keys", "pop", "update", "values"]
  | set =>
    taking 1 ["issubset", "issuperset"]
    ++ silent ["add", "clear", "copy", "difference", "difference_update", "discard",
        "intersection", "intersection_update", "isdisjoint", "pop", "remove",
        "symmetric_difference", "symmetric_difference_update", "union", "update"]
  | int | bool =>
    taking 0 ["as_integer_ratio", "bit_count", "bit_length"]
    ++ taking 2 ["from_bytes", "to_bytes"]
    ++ silent ["conjugate"]
  | float =>
    taking 0 ["as_integer_ratio", "conjugate", "hex", "is_integer"]
    ++ taking 1 ["fromhex"]
  | complex =>
    taking 0 ["conjugate"]
  | decimal =>
    taking 0 ["adjusted", "as_integer_ratio", "as_tuple", "canonical", "conjugate", "copy_abs",
        "copy_negate", "is_canonical", "is_finite", "is_infinite", "is_nan", "is_qnan", "is_signed",
        "is_snan", "is_zero", "radix"]
    ++ taking 1 ["exp", "from_float", "is_normal", "is_subnormal", "ln", "log10", "logb",
        "logical_invert", "next_minus", "next_plus", "normalize", "number_class", "sqrt",
        "to_eng_string"]
    ++ taking 2 ["compare", "compare_signal", "compare_total", "compare_total_mag", "copy_sign",
        "logical_and", "logical_or", "logical_xor", "max", "max_mag", "min", "min_mag",
        "next_toward", "remainder_near", "rotate", "same_quantum", "scaleb", "shift", "to_integral",
        "to_integral_exact", "to_integral_value"]
    ++ taking 3 ["fma", "quantize"]
  | date =>
    taking 1 ["fromtimestamp"]
    ++ silent ["ctime", "fromisocalendar", "fromisoformat", "fromordinal", "isocalendar",
        "isoformat", "isoweekday", "replace", "strftime", "timetuple", "today", "toordinal",
        "weekday"]
  | timestamp =>
    taking 1 ["now"]
    ++ silent ["astimezone", "combine", "ctime", "date", "dst", "fromisocalendar", "fromisoformat",
        "fromordinal", "fromtimestamp", "isocalendar", "isoformat", "isoweekday", "replace",
        "strftime", "strptime", "time", "timestamp", "timetuple", "timetz", "today", "toordinal",
        "tzname", "utcfromtimestamp", "utcnow", "utcoffset", "utctimetuple", "weekday"]
  | span =>
    silent ["total_seconds"]
  | zone =>
    silent ["dst", "fromutc", "tzname", "utcoffset"]
  | _ => []

/-- The names of the methods of a built-in class. -/
def methods (b : Builtin) : List String := b.methodArities.map (·.1)

/-- Methods that belong to a class and not to its instances. -/
def classMethods : List String :=
  ["maketrans", "fromkeys", "from_bytes", "fromhex", "from_float", "fromisocalendar",
    "fromisoformat", "fromordinal", "fromtimestamp", "today", "combine", "now", "strptime",
    "utcfromtimestamp", "utcnow"]

end EntityGraph.Builtin
