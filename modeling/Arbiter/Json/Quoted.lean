import Arbiter.Text.Number

/-!
# Texts in JSON

A text stands between double quotes; a backslash begins an escape. A reader takes the characters behind the opening
quote and gives a result with the characters after the closing one, or nothing.

* `readText`: the text. An escape never leaves half a surrogate pair.
* `skipText`: only what is left after it. An escape by code unit needs its digits, and nothing is asked of the unit.
-/

namespace Arbiter.Json

/-- Four digits in base sixteen. -/
def readUnit : List Char → Option (Nat × List Char)
  | a :: b :: c :: d :: rest => do
    let a ← hexDigit? a
    let b ← hexDigit? b
    let c ← hexDigit? c
    let d ← hexDigit? d
    pure (((a * 16 + b) * 16 + c) * 16 + d, rest)
  | _ => none

/-- The character behind `\u`; a high surrogate needs its low one right behind it. -/
def readEscapedUnit (s : List Char) : Option (Char × List Char) := do
  let (high, rest) ← readUnit s
  if high < 0xD800 ∨ 0xDFFF < high then pure (Char.ofNat high, rest)
  else if 0xDC00 ≤ high then none
  else
    match rest with
    | '\\' :: 'u' :: more => do
      let (low, rest) ← readUnit more
      if 0xDC00 ≤ low ∧ low ≤ 0xDFFF then
        pure (Char.ofNat (0x10000 + (high - 0xD800) * 0x400 + (low - 0xDC00)), rest)
      else none
    | _ => none

/-- The rest of a text up to its closing quote; `seen` holds the characters so far, the last one first. -/
def readText : (fuel : Nat) → (seen : List Char) → List Char → Option (String × List Char)
  | 0, _, _ => none
  | _, _, [] => none
  | fuel + 1, seen, c :: rest =>
    if c = '"' then some (String.ofList seen.reverse, rest)
    else if c = '\\' then
      match rest with
      | '"' :: more => readText fuel ('"' :: seen) more
      | '\\' :: more => readText fuel ('\\' :: seen) more
      | '/' :: more => readText fuel ('/' :: seen) more
      | 'b' :: more => readText fuel ('\u0008' :: seen) more
      | 'f' :: more => readText fuel ('\u000c' :: seen) more
      | 'n' :: more => readText fuel ('\n' :: seen) more
      | 'r' :: more => readText fuel ('\r' :: seen) more
      | 't' :: more => readText fuel ('\t' :: seen) more
      | 'u' :: more =>
        match readEscapedUnit more with
        | some (c, more) => readText fuel (c :: seen) more
        | none => none
      | _ => none
    else if c.toNat < 0x20 then none
    else readText fuel (c :: seen) rest

/-- The characters that are an escape together with the backslash before them. -/
def isPlainEscape (c : Char) : Bool :=
  c == '"' || c == '\\' || c == '/' || c == 'b' || c == 'f' || c == 'n' || c == 'r' || c == 't'

/-- What is left after a text. -/
def skipText : (fuel : Nat) → List Char → Option (List Char)
  | 0, _ => none
  | _, [] => none
  | fuel + 1, c :: rest =>
    if c = '"' then some rest
    else if c = '\\' then
      match rest with
      | 'u' :: more => (readUnit more).bind fun (_, more) => skipText fuel more
      | e :: more => if isPlainEscape e then skipText fuel more else none
      | [] => none
    else if c.toNat < 0x20 then none
    else skipText fuel rest

end Arbiter.Json
