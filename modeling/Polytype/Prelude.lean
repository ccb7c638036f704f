import Polytype.Chapter
import Polytype.Operator
import Polytype.Scheme

/-!
# The prelude

The operators and builtins that a program of some chapter can refer to. Each entry is written with
variables numbered from 0, and `numbered` gives every entry variables of its own.
-/

namespace Polytype.Prelude

abbrev Entry := String × Scheme

/-! ## Shapes of schemes -/

def first : Ty := .var ⟨0, false⟩

def second : Ty := .var ⟨1, false⟩

def sum : Ty := .var ⟨0, true⟩

def forOne (ty : Ty) : Scheme := ⟨[⟨0, false⟩], ty⟩

def forTwo (ty : Ty) : Scheme := ⟨[⟨0, false⟩, ⟨1, false⟩], ty⟩

def forAddable (ty : Ty) : Scheme := ⟨[⟨0, true⟩], ty⟩

/-- A function of so many numbers to a number. -/
def arithmetic (params : Nat) : Scheme := .mono (.func (List.replicate params .number) .number)

/-! ## Entries -/

/-- The name under which the empty list is found. -/
def null : String := "null"

/-- The right operand of a logical operator is the value, whenever it is reached. -/
def operators : List Entry :=
  [(BinaryOp.add.key, forAddable (.func [sum, sum] sum))] ++
  [BinaryOp.sub, .mul, .div, .mod].map (fun op => (op.key, arithmetic 2)) ++
  [BinaryOp.equal, .notEqual, .less, .greater, .lessEqual, .greaterEqual].map
    (fun op => (op.key, forAddable (.func [sum, sum] .boolean))) ++
  [BinaryOp.and, .or].map (fun op => (op.key, forOne (.func [.boolean, first] first))) ++
  [(UnaryOp.not.key, .mono (.func [.boolean] .boolean)),
   (UnaryOp.minus.key, arithmetic 1)]

def predicates : List String :=
  ["is_number", "is_string", "is_boolean", "is_function", "is_undefined"]

def numberFunctions : List String :=
  ["math_abs", "math_acos", "math_acosh", "math_asin", "math_asinh", "math_atan", "math_atanh",
   "math_cbrt", "math_ceil", "math_clz32", "math_cos", "math_cosh", "math_exp", "math_expm1",
   "math_floor", "math_fround", "math_log", "math_log1p", "math_log2", "math_log10", "math_round",
   "math_sign", "math_sin", "math_sinh", "math_sqrt", "math_tan", "math_tanh", "math_trunc"]

def constants : List String :=
  ["NaN", "Infinity", "math_E", "math_LN2", "math_LN10", "math_LOG2E", "math_LOG10E", "math_PI",
   "math_SQRT1_2", "math_SQRT2"]

def basics : List Entry :=
  [("display", forOne (.func [first] first)),
   ("error", forTwo (.func [first] second)),
   ("stringify", forOne (.func [first] .string)),
   ("prompt", .mono (.func [.string] .string))] ++
  predicates.map (fun name => (name, forOne (.func [first] .boolean))) ++
  ["runtime", "math_random"].map (fun name => (name, arithmetic 0)) ++
  numberFunctions.map (fun name => (name, arithmetic 1)) ++
  ["math_atan2", "math_imul", "math_pow"].map (fun name => (name, arithmetic 2)) ++
  [("parse_int", .mono (.func [.string, .number] .number)),
   ("undefined", .mono .undefined)] ++
  constants.map (fun name => (name, .mono .number))

def lists : List Entry :=
  [("pair", forTwo (.func [first, second] (.pair first second))),
   ("head", forTwo (.func [.pair first second] first)),
   ("tail", forTwo (.func [.pair first second] second)),
   ("is_null", forOne (.func [.list first] .boolean)),
   ("is_pair", forOne (.func [first] .boolean)),
   (null, forOne (.list first))]

def listUpdates : List Entry :=
  [("set_head", forTwo (.func [.pair first second, first] .undefined)),
   ("set_tail", forTwo (.func [.pair first second, second] .undefined))]

def entries (c : Chapter) : List Entry :=
  operators ++ basics ++
  (if c.offers .two then lists else []) ++
  (if c.offers .three then listUpdates else [])

/-! ## Numbering -/

/-- Numbers the variables of the entries one after another from `n` on, and gives the next unused
number too. -/
def numbered (n : Nat) : List Entry → List Entry × Nat
  | [] => ([], n)
  | (name, scheme) :: rest =>
    let (rest, next) := numbered (n + scheme.vars.length) rest
    ((name, scheme.shift n) :: rest, next)

end Polytype.Prelude
