/-!
# Powers of two and of ten

* `twoTo` and `tenTo`: what doubles and their numerals are scaled by.
-/

namespace Arbiter

/-- A power of two. -/
def twoTo (n : Nat) : Nat := Nat.pow 2 n

/-- A power of ten. -/
def tenTo (n : Nat) : Nat := Nat.pow 10 n

end Arbiter
