import Arbiter.Decimal.Shortest

/-!
# Writing a double with its shortest digits

A `Layout` is a choice of spelling: which magnitudes are written without an exponent, whether an integer keeps `.0`,
whether a positive exponent has a sign, and which of two equally near digits comes last. The digits are always the
fewest that read back.

* `Layout.plain` is for reading: never an exponent, no `.0`.
* `Layout.pointed` is for showing a value inside a message: always a point or an exponent.
* `Layout.json` is for data: as `pointed`, one magnitude further down without an exponent, an exponent always signed,
  and the last digit even where two are equally near.
-/

namespace Arbiter

/-- The spelling of a number. -/
structure Layout where
  /-- The leading exponents written without exponent notation, both included; all of them when absent. -/
  positional : Option (Int × Int)
  /-- Whether an integer is written with `.0`. -/
  keepPoint : Bool
  /-- Whether a positive exponent is written with a plus sign. -/
  plusSign : Bool
  /-- Which way the last digit goes where two are equally near. -/
  halfway : Halfway

namespace Layout

/-- Positional at every magnitude, and no fraction where there is none. -/
def plain : Layout := ⟨none, false, false, .up⟩

/-- Positional from `0.0001` up to below `10 ^ 16`, with a fraction always. -/
def pointed : Layout := ⟨some (-4, 15), true, false, .up⟩

/-- Positional from `0.00001` up to below `10 ^ 16`, with a fraction always; elsewhere a signed exponent. -/
def json : Layout := ⟨some (-5, 15), true, true, .toEven⟩

/-- The digits of `c * 10 ^ e` with a point where it belongs. -/
def positionalText (keepPoint : Bool) (c : Nat) (e : Int) : String :=
  let digits := Nat.toDigits 10 c
  if 0 ≤ e then
    String.ofList (digits ++ List.replicate (if c = 0 then 0 else e.toNat) '0') ++ (if keepPoint then ".0" else "")
  else
    let places := (-e).toNat
    let padded := List.replicate (places + 1 - digits.length) '0' ++ digits
    String.ofList (padded.take (padded.length - places)) ++ "." ++
      String.ofList (padded.drop (padded.length - places))

/-- The digits of `c * 10 ^ e` as one leading digit, the rest behind a point, and an exponent. -/
def scientificText (plusSign : Bool) (c : Nat) (e : Int) : String :=
  let digits := Nat.toDigits 10 c
  let power := e + digits.length - 1
  let sign := if power < 0 then "-" else if plusSign then "+" else ""
  String.ofList (digits.take 1) ++ (if digits.length ≤ 1 then "" else "." ++ String.ofList (digits.drop 1)) ++
    "e" ++ sign ++ toString power.natAbs

/-- The text of a decimal magnitude. -/
def magnitudeText (l : Layout) (d : Decimal) : String :=
  let lead := d.exponent + digitCount d.coefficient - 1
  let inRange := match l.positional with
    | none => true
    | some (lo, hi) => d.coefficient = 0 || (lo ≤ lead && lead ≤ hi)
  if inRange then positionalText l.keepPoint d.coefficient d.exponent
  else scientificText l.plusSign d.coefficient d.exponent

/-- The text of a double; a zero keeps its sign. -/
def text (l : Layout) (x : Float) : String :=
  match Dyadic.ofFloat? x with
  | some d => (if d.negative then "-" else "") ++ l.magnitudeText (d.shortest l.halfway)
  | none => if x > 0 then "inf" else if x < 0 then "-inf" else "NaN"

end Layout

/-- A number as people read it. -/
def plainText (x : Float) : String := Layout.plain.text x

/-- A number as a value shown inside a message. -/
def pointedText (x : Float) : String := Layout.pointed.text x

end Arbiter
