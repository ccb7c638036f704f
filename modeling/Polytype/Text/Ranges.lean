/-!
# Ranges of characters

A class of characters as the first and last code point of each of its ranges, in increasing order.
-/

namespace Polytype.Text

abbrev Ranges := List (Nat × Nat)

namespace Ranges

def has (ranges : Ranges) (c : Char) : Bool :=
  ranges.any fun (first, last) => first ≤ c.toNat && c.toNat ≤ last

end Ranges

end Polytype.Text
