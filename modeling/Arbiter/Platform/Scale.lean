import Arbiter.Decimal.Dyadic

/-!
# The range of a numeric market

A numeric market trades on a fraction of its range, which is divided evenly or by logarithms.

* `valueAt`: the number that a fraction stands for.
* `fractionAt`: the fraction that a number stands for, kept within `[0, 1]`.
-/

namespace Arbiter

/-- The number that a fraction of the range stands for. -/
def valueAt (fraction least greatest : Float) (isLogScale : Bool) : Float :=
  if isLogScale then Float.pow 10 (fraction * Float.log10 (greatest - least + 1)) + least - 1
  else fraction * (greatest - least) + least

/-- A number moved into `[0, 1]`; what is no number stays as it is. -/
def clampUnit (x : Float) : Float :=
  if x < 0 then 0 else if 1 < x then 1 else x

/-- The fraction of the range that a number stands for. -/
def fractionAt (x least greatest : Float) (isLogScale : Bool) : Float :=
  clampUnit
    (if isLogScale then Float.log10 (x - least + 1) / Float.log10 (greatest - least + 1)
      else (x - least) / (greatest - least))

end Arbiter
