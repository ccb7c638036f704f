/-!
# Operators

Each operator is looked up in the environment under a key. A binary operator's key is its symbol;
the unary ones have keys of their own, since `-` is binary too.
-/

namespace Polytype

inductive UnaryOp where
  | minus
  | not
  deriving DecidableEq, Inhabited

namespace UnaryOp

def symbol : UnaryOp → String
  | .minus => "-"
  | .not => "!"

def key : UnaryOp → String
  | .minus => "unary -"
  | .not => "unary !"

end UnaryOp

inductive BinaryOp where
  | add
  | sub
  | mul
  | div
  | mod
  | equal
  | notEqual
  | less
  | greater
  | lessEqual
  | greaterEqual
  | and
  | or
  deriving DecidableEq, Inhabited

namespace BinaryOp

def symbol : BinaryOp → String
  | .add => "+"
  | .sub => "-"
  | .mul => "*"
  | .div => "/"
  | .mod => "%"
  | .equal => "==="
  | .notEqual => "!=="
  | .less => "<"
  | .greater => ">"
  | .lessEqual => "<="
  | .greaterEqual => ">="
  | .and => "&&"
  | .or => "||"

def key (op : BinaryOp) : String := op.symbol

/-- How tightly the operator binds, from `or` upwards. -/
def precedence : BinaryOp → Nat
  | .or => 3
  | .and => 4
  | .equal | .notEqual => 5
  | .less | .greater | .lessEqual | .greaterEqual => 6
  | .add | .sub => 7
  | .mul | .div | .mod => 8

end BinaryOp

end Polytype
