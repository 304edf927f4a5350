import Arbiter.Chance.Digest

/-!
# A reproducible source of random words

A generator is a key of eight words and a position in the stream of words that the key gives. The stream is ChaCha with
twelve rounds: block `n` is the permutation of the constants, the key, the counter `n` and zeros, added to its input.

* `Generator.ofText` keys a generator with the hash of a text, `Generator.ofNumber` with words drawn from a number.
* `Generator.next64` takes two words, the low one first; `Generator.unit` is a double in `[0, 1)`.
-/

namespace Arbiter

/-- A key and the number of words already taken. -/
structure Generator where
  key : List UInt32
  taken : Nat
deriving DecidableEq, Repr

namespace Generator

/-- Rotation to the left by `n` of 32 places. -/
def rotateLeft (x n : UInt32) : UInt32 :=
  (x <<< n) ||| (x >>> (32 - n))

/-- The quarter round on four words. -/
def quarter (a b c d : UInt32) : UInt32 × UInt32 × UInt32 × UInt32 :=
  let a := a + b
  let d := rotateLeft (d ^^^ a) 16
  let c := c + d
  let b := rotateLeft (b ^^^ c) 12
  let a := a + b
  let d := rotateLeft (d ^^^ a) 8
  let c := c + d
  let b := rotateLeft (b ^^^ c) 7
  (a, b, c, d)

/-- The quarter round on the words of a block at four places. -/
def quarterAt (block : Array UInt32) (i j k l : Nat) : Array UInt32 :=
  let (a, b, c, d) := quarter (block.getD i 0) (block.getD j 0) (block.getD k 0) (block.getD l 0)
  (((block.setIfInBounds i a).setIfInBounds j b).setIfInBounds k c).setIfInBounds l d

/-- Four quarter rounds down the columns and four along the diagonals. -/
def doubleRound (b : Array UInt32) : Array UInt32 :=
  let b := quarterAt b 0 4 8 12
  let b := quarterAt b 1 5 9 13
  let b := quarterAt b 2 6 10 14
  let b := quarterAt b 3 7 11 15
  let b := quarterAt b 0 5 10 15
  let b := quarterAt b 1 6 11 12
  let b := quarterAt b 2 7 8 13
  quarterAt b 3 4 9 14

/-- The input of block `n`: the constants, the key, the counter in two words and two zeros. -/
def blockInput (key : List UInt32) (n : Nat) : Array UInt32 :=
  ([0x61707865, 0x3320646e, 0x79622d32, 0x6b206574] ++ key ++
    [n.toUInt32, (n / 0x100000000).toUInt32, 0, 0] : List UInt32).toArray

/-- The sixteen words of block `n`: six double rounds on its input, added to the input. -/
def block (key : List UInt32) (n : Nat) : Array UInt32 :=
  let input := blockInput key n
  Array.zipWith (· + ·) input ((List.range 6).foldl (fun b _ => doubleRound b) input)

/-- Word `i` of the stream. -/
def word (key : List UInt32) (i : Nat) : UInt32 :=
  (block key (i / 16)).getD (i % 16) 0

/-- The next two words as one number, the low one first. -/
def next64 (g : Generator) : UInt64 × Generator :=
  let low := (word g.key g.taken).toUInt64
  let high := (word g.key (g.taken + 1)).toUInt64
  (low ||| (high <<< 32), { g with taken := g.taken + 2 })

/-- A double in `[0, 1)` from the upper 53 bits of the next two words. -/
def unit (g : Generator) : Float × Generator :=
  let (n, g) := g.next64
  ((n >>> 11).toFloat * Float.ofBits 0x3CA0000000000000, g)

/-- The words of a key from a number: each step multiplies and adds, and mixes the upper bits down. -/
def keyWords : (count : Nat) → UInt64 → List UInt32
  | 0, _ => []
  | count + 1, state =>
    let state := state * 6364136223846793005 + 11634580027462260723
    let mixed := (((state >>> 18) ^^^ state) >>> 27).toUInt32
    Digest.rotateRight mixed (state >>> 59).toUInt32 :: keyWords count state

/-- The generator of a number. -/
def ofNumber (n : UInt64) : Generator :=
  ⟨keyWords 8 n, 0⟩

/-- A word with its bytes in the other order. -/
def swapBytes (w : UInt32) : UInt32 :=
  (w <<< 24) ||| ((w &&& (0xff00 : UInt32)) <<< 8) ||| ((w >>> 8) &&& (0xff00 : UInt32)) ||| (w >>> 24)

/-- The generator of a text: its hash is the key. -/
def ofText (text : String) : Generator :=
  ⟨(Digest.digest text.toUTF8.toList).map swapBytes, 0⟩

end Generator

end Arbiter
