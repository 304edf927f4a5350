import Arbiter.Text.Number

/-!
# Labels in basic characters

A label with characters beyond the basic ones is written as its basic characters and a row of distances. A distance
counts the places from one insertion to the next, over all characters in ascending order and all positions for each.
It is written in digits of base thirty-six, the lowest first; which digit is the last one depends on a bias that follows
the sizes of the distances so far.

* `punycode`: a label in basic characters.
* `ofPunycode?`: the label that basic characters stand for.
-/

namespace Arbiter.Punycode

/-- The digit of a value below thirty-six: the letters first. -/
def digit (n : Nat) : Char :=
  if n < 26 then Char.ofNat ('a'.toNat + n) else Char.ofNat ('0'.toNat + (n - 26))

/-- The value of a digit. -/
def digit? (c : Char) : Option Nat :=
  if 'a' ≤ c ∧ c ≤ 'z' then some (c.toNat - 'a'.toNat)
  else if 'A' ≤ c ∧ c ≤ 'Z' then some (c.toNat - 'A'.toNat)
  else if '0' ≤ c ∧ c ≤ '9' then some (c.toNat - '0'.toNat + 26)
  else none

/-- The digits at a place that end a distance are those below this bound. -/
def endBound (bias place : Nat) : Nat :=
  max 1 (min 26 (36 * (place + 1) - bias))

/-- How often a number is divided by thirty-five until it is at most 455, and what is left. -/
def shrink : (fuel n : Nat) → Nat × Nat
  | 0, n => (0, n)
  | fuel + 1, n =>
    if 455 < n then
      let (times, left) := shrink fuel (n / 35)
      (times + 1, left)
    else (0, n)

/-- The bias after a distance. `size` is the number of characters after its insertion. -/
def nextBias (first : Bool) (distance size : Nat) : Nat :=
  let damped := if first then distance / 700 else distance / 2
  let (times, left) := shrink distance (damped + damped / size)
  36 * times + 36 * left / (left + 38)

/-- The bias before the first distance. -/
def firstBias : Nat := 72

/-- The first code point that is not basic. -/
def firstPoint : Nat := 0x80

/-- A distance in digits from a place on. -/
def writeDistance (bias : Nat) : (fuel place n : Nat) → List Char
  | 0, _, n => [digit n]
  | fuel + 1, place, n =>
    let bound := endBound bias place
    if n < bound then [digit n]
    else digit (bound + (n - bound) % (36 - bound))
      :: writeDistance bias fuel (place + 1) ((n - bound) / (36 - bound))

/-- A row of distances in digits. `size` is the number of characters so far. -/
def writeDistances (first : Bool) (bias size : Nat) : List Nat → List Char
  | [] => []
  | n :: rest =>
    writeDistance bias n 0 n ++ writeDistances false (nextBias first n (size + 1)) (size + 1) rest

/-- The distances of the insertions of one code point, going through the characters of a label from `count` places
on, and how many places follow the last one of them. -/
def pointDistances (point : Nat) : (count : Nat) → List Char → List Nat × Nat
  | count, [] => ([], count)
  | count, c :: rest =>
    if c.toNat < point then pointDistances point (count + 1) rest
    else if c.toNat = point then
      let (distances, left) := pointDistances point 0 rest
      (count :: distances, left)
    else pointDistances point count rest

/-- The distances of the insertions of code points in ascending order. `next` is the first code point that was not gone
through, `size` the number of characters so far and `count` the places since the last insertion. -/
def distances (label : List Char) : (next size count : Nat) → List Nat → List Nat
  | _, _, _, [] => []
  | next, size, count, point :: rest =>
    let (found, left) := pointDistances point (count + (point - next) * (size + 1)) label
    found ++ distances label (point + 1) (size + found.length) (left + 1) rest

/-- The distances from the digits of one on: its value, and the characters after it. -/
def readDistance (bias : Nat) : (place weight sum : Nat) → List Char → Option (Nat × List Char)
  | _, _, _, [] => none
  | place, weight, sum, c :: rest => do
    let d ← digit? c
    let bound := endBound bias place
    if d < bound then pure (sum + d * weight, rest)
    else readDistance bias (place + 1) (weight * (36 - bound)) (sum + d * weight) rest

/-- A row of distances. `fuel` bounds the number of characters. -/
def readDistances (first : Bool) (bias size : Nat) : (fuel : Nat) → List Char → Option (List Nat)
  | _, [] => some []
  | 0, _ => none
  | fuel + 1, s => do
    let (n, rest) ← readDistance bias 0 1 0 s
    let more ← readDistances false (nextBias first n (size + 1)) (size + 1) fuel rest
    pure (n :: more)

/-- Inserts a code point for each distance. `place` is the place after the last insertion. -/
def insertPoints (next place : Nat) (label : List Char) : List Nat → Option (List Char)
  | [] => some label
  | n :: rest =>
    let total := place + n
    let point := next + total / (label.length + 1)
    let position := total % (label.length + 1)
    if point.isValidChar then
      insertPoints point (position + 1) (label.insertIdx position (Char.ofNat point)) rest
    else none

end Arbiter.Punycode

namespace Arbiter

open Punycode

/-- A label in basic characters. -/
def punycode (label : List Char) : List Char :=
  let basic := label.filter (·.toNat < firstPoint)
  let points := ((label.map Char.toNat).filter (firstPoint ≤ ·)).mergeSort.eraseDups
  basic ++ (if basic.isEmpty then [] else ['-'])
    ++ writeDistances true firstBias basic.length (distances label firstPoint basic.length 0 points)

/-- The label that basic characters stand for: those before the last hyphen, with the others inserted. -/
def ofPunycode? (s : List Char) : Option (List Char) := do
  let tail := (s.reverse.takeWhile (· ≠ '-')).reverse
  let basic := s.take (s.length - tail.length - 1)
  let found ← readDistances true firstBias basic.length tail.length tail
  insertPoints firstPoint 0 basic found

end Arbiter
