import Arbiter.Chance.Generator
import Arbiter.Decimal.Dyadic

/-!
# Weighted choice

A position in a list of weights is drawn with a probability in proportion to its weight: a uniform number below the
total is compared with the running totals.

* `pick` fails on an empty list, on a weight that is not at least zero, and on a total of zero. It gives up where the
  total is not finite.
-/

namespace Arbiter

/-- Why no position can be drawn. -/
inductive WeightFault where
  /-- There are no weights. -/
  | empty
  /-- Some weight is below zero or not a number. -/
  | invalid
  /-- Every weight is zero. -/
  | allZero
  /-- The weights add up to more than a double holds. -/
  | overflow
deriving DecidableEq, Repr

namespace Weighted

/-- The running totals of all weights but the last, and the total. -/
def totals : (sum : Float) → List Float → List Float × Float
  | sum, [] => ([], sum)
  | sum, w :: rest =>
    let (before, total) := totals (sum + w) rest
    (sum :: before, total)

/-- The double just below a positive one. -/
def nextBelow (x : Float) : Float :=
  Float.ofBits (x.toBits - 1)

/-- The factor that takes a number of `[0, 1 - 2⁻⁵²]` below `total`: `total`, or the double below it. -/
def scale (total : Float) : Float :=
  if total ≤ total * Float.ofBits 0x3FEFFFFFFFFFFFFE then nextBelow total else total

/-- A number of `[0, 1)` from the upper 52 bits of the next two words. -/
def fraction (g : Generator) : Float × Generator :=
  let (n, g) := g.next64
  ((n >>> 12).toFloat * Float.ofBits 0x3CB0000000000000, g)

/-- Whether the weights can be drawn from; the first fault counts. -/
def check (weights : List Float) : Option WeightFault :=
  match weights with
  | [] => some .empty
  | first :: rest =>
    let total := (totals first rest).2
    if weights.any fun w => !decide (0.0 ≤ w) then some .invalid
    else if total == 0.0 then some .allZero
    else if (Dyadic.ofFloat? total).isNone then some .overflow
    else none

/-- A position drawn by weight. A fault leaves the generator as it was. -/
def pick (weights : List Float) (g : Generator) : Except WeightFault (Nat × Generator) :=
  match check weights, weights with
  | some fault, _ => .error fault
  | none, [] => .error .empty
  | none, first :: rest =>
    let (before, total) := totals first rest
    let (u, g) := fraction g
    let x := u * scale total
    .ok ((before.takeWhile fun c => c ≤ x).length, g)

end Weighted

end Arbiter
