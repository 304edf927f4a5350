/-!
# Credentials in a header

* `basicCredentials`: a user and a token as a header carries them: their bytes in groups of six bits.
-/

namespace Arbiter

/-- The digit for six bits. -/
def sixBitDigit (n : Nat) : Char :=
  if n < 26 then Char.ofNat ('A'.toNat + n)
  else if n < 52 then Char.ofNat ('a'.toNat + n - 26)
  else if n < 62 then Char.ofNat ('0'.toNat + n - 52)
  else if n = 62 then '+'
  else '/'

/-- Bytes in groups of six bits; an incomplete group of three bytes is filled up. -/
def sixBitText : List Nat → List Char
  | [] => []
  | [a] => [sixBitDigit (a / 4), sixBitDigit (a % 4 * 16), '=', '=']
  | [a, b] => [sixBitDigit (a / 4), sixBitDigit (a % 4 * 16 + b / 16), sixBitDigit (b % 16 * 4), '=']
  | a :: b :: c :: rest =>
    sixBitDigit (a / 4) :: sixBitDigit (a % 4 * 16 + b / 16) :: sixBitDigit (b % 16 * 4 + c / 64)
      :: sixBitDigit (c % 64) :: sixBitText rest

/-- A user and a token as a header carries them. -/
def basicCredentials (user token : String) : String :=
  "Basic " ++ String.ofList (sixBitText ((user ++ ":" ++ token).toUTF8.toList.map UInt8.toNat))

end Arbiter
