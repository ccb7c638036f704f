/-!
# Chapters

The language comes in four chapters, and each offers everything the ones before it do. Lists arrive
with chapter 2, assignment with chapter 3.
-/

namespace Polytype

inductive Chapter where
  | one
  | two
  | three
  | four
  deriving DecidableEq

namespace Chapter

def number : Chapter → Nat
  | .one => 1
  | .two => 2
  | .three => 3
  | .four => 4

/-- Whether `c` offers what chapter `d` brought. -/
def offers (c d : Chapter) : Bool := d.number ≤ c.number

def text (c : Chapter) : String := "chapter " ++ toString c.number

instance : Inhabited Chapter := ⟨.four⟩

end Chapter

/-- The number of a chapter that does not exist. -/
structure UnknownChapter where
  number : Nat

namespace UnknownChapter

def message (u : UnknownChapter) : String :=
  "unknown chapter " ++ toString u.number ++ ", expected a number from 1 to 4"

end UnknownChapter

namespace Chapter

def ofNumber : Nat → Except UnknownChapter Chapter
  | 1 => .ok .one
  | 2 => .ok .two
  | 3 => .ok .three
  | 4 => .ok .four
  | n => .error ⟨n⟩

end Chapter

end Polytype
