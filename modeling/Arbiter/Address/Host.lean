import Arbiter.Address.Domain
import Arbiter.Text.Quoted

/-!
# Hosts

* `Address.Host.read`: the host that a text names: a domain, or a number of four bytes or of eight groups of two bytes.
* `Address.Host.readAny`: the host of an address whose scheme is not known: any text that marks no other part of it.
* `Address.Host.text`: a host in its standard form.
-/

namespace Arbiter

/-- Why a text is no address. -/
inductive AddressFault where
  /-- There is no scheme. -/
  | relative
  | emptyHost
  | domain
  | port
  | fourBytes
  | eightGroups
  /-- A host of an unknown scheme has a character that marks something. -/
  | hostCharacter
deriving DecidableEq, Repr

/-- The wording of a fault. -/
def AddressFault.message : AddressFault → String
  | .relative => "relative URL without a base"
  | .emptyHost => "empty host"
  | .domain => "invalid international domain name"
  | .port => "invalid port number"
  | .fourBytes => "invalid IPv4 address"
  | .eightGroups => "invalid IPv6 address"
  | .hostCharacter => "invalid domain character"

/-- A host. -/
inductive Address.Host where
  | named (name : List Char)
  /-- The four bytes as one number. -/
  | fourBytes (n : Nat)
  | eightGroups (groups : List Nat)
deriving DecidableEq, Repr

namespace Address.Host

/-- Digits of a base as a number; none of them are zero. -/
def readBase? (base : Nat) (digits : List Char) : Option Nat :=
  digits.foldlM (fun n c => do
    let d ← hexDigit? c
    if d < base then pure (n * base + d) else none) 0

/-- A number with the base in front: `0x` for sixteen, a zero for eight. -/
def readNumber? : List Char → Option Nat
  | [] => none
  | '0' :: 'x' :: digits | '0' :: 'X' :: digits => readBase? 16 digits
  | '0' :: d :: digits => readBase? 8 (d :: digits)
  | digits => readBase? 10 digits

/-- The parts of a name between its points, without an empty one at the end. -/
def parts (name : List Char) : List (List Char) :=
  let all := pieces (· == '.') name
  if all.getLast? = some [] then all.dropLast else all

/-- Whether the last part of a name is a number, so that the name can only be an address of four bytes. -/
def endsInNumber (name : List Char) : Bool :=
  (parts name).getLast?.any fun part =>
    (!part.isEmpty && part.all Char.isDigit) || (readNumber? part).isSome

/-- The four bytes of numbers: all but the last are bytes, and the last one fills what is left. -/
def fourBytesOf? (numbers : List Nat) : Option Nat :=
  let bytes := numbers.dropLast
  let last := numbers.getLast?.getD 0
  let left := 4 - bytes.length
  if 3 < bytes.length || !bytes.all (· < 256) || twoTo (8 * left) ≤ last then none
  else some (bytes.foldl (fun n b => n * 256 + b) 0 * twoTo (8 * left) + last)

/-- The groups between colons, each of at most four digits; `numbers` allows four bytes in place of the last two. -/
def readGroups? (numbers : Bool) (s : List Char) : Option (List Nat) :=
  if s.isEmpty then some [] else go (pieces (· == ':') s)
where
  go : List (List Char) → Option (List Nat)
    | [] => some []
    | [last] => if numbers && last.contains '.' then readBytes? last else (group? last).map ([·])
    | first :: rest => do return (← group? first) :: (← go rest)
  group? (digits : List Char) : Option Nat :=
    if digits.isEmpty || 4 < digits.length then none else readBase? 16 digits
  readBytes? (s : List Char) : Option (List Nat) := do
    let bytes ← (pieces (· == '.') s).mapM fun digits =>
      if digits.isEmpty || 3 < digits.length || (digits.head? == some '0' && 1 < digits.length) then none
      else readBase? 10 digits
    match bytes with
    | [a, b, c, d] => if bytes.all (· < 256) then some [a * 256 + b, c * 256 + d] else none
    | _ => none

/-- The text before the first double colon and the one after it. -/
def splitDoubleColon? : List Char → Option (List Char × List Char)
  | ':' :: ':' :: rest => some ([], rest)
  | c :: rest => (splitDoubleColon? rest).map fun (before, after) => (c :: before, after)
  | [] => none

/-- Eight groups; a double colon stands for at least one group of zeros. -/
def readEightGroups? (s : List Char) : Option (List Nat) := do
  match splitDoubleColon? s with
  | none =>
    let groups ← readGroups? true s
    if groups.length = 8 then pure groups else none
  | some (before, after) =>
    let front ← readGroups? false before
    let back ← readGroups? true after
    if front.length + back.length < 8 then
      pure (front ++ List.replicate (8 - front.length - back.length) 0 ++ back)
    else none

/-- The host between brackets. -/
def readBracketed (s : List Char) : Except AddressFault Host :=
  match s.getLast?, readEightGroups? (s.drop 1).dropLast with
  | some ']', some groups => .ok (.eightGroups groups)
  | _, _ => .error .eightGroups

/-- The host that a text names. -/
def read (s : List Char) : Except AddressFault Host := do
  if s.isEmpty then throw .emptyHost
  if s.head? = some '[' then readBracketed s
  else
    match standardDomain? s with
    | none => throw .domain
    | some [] => throw .emptyHost
    | some name =>
      if endsInNumber name then
        match ((parts name).mapM readNumber?).bind fourBytesOf? with
        | some n => pure (.fourBytes n)
        | none => throw .fourBytes
      else pure (.named name)

/-- The host of an address whose scheme is not known. -/
def readAny (s : List Char) : Except AddressFault Host :=
  if s.head? = some '[' then readBracketed s
  else if s.any "\x00\t\n\r #/:<>?@[\\]^|".toList.contains then .error .hostCharacter
  else .ok (.named (escapeUnless isPrintable s))

/-- The numbers of zeros at the beginnings of the rests of a list, one for each place. -/
def zerosFrom : List Nat → List Nat
  | [] => []
  | g :: rest =>
    let later := zerosFrom rest
    (if g = 0 then later.head?.getD 0 + 1 else 0) :: later

/-- Groups with the first of the longest rows of zeros, if it has at least two, written as a double colon. -/
def groupsText (groups : List Nat) : String :=
  let joined (gs : List Nat) := ":".intercalate (gs.map hexText)
  let zeros := zerosFrom groups
  let longest := zeros.foldl max 0
  let start := zeros.idxOf longest
  if longest < 2 then joined groups
  else joined (groups.take start) ++ "::" ++ joined (groups.drop (start + longest))

/-- A host in its standard form. -/
def text : Host → String
  | .named name => String.ofList name
  | .fourBytes n =>
    ".".intercalate [toString (n / 0x1000000), toString (n / 0x10000 % 256), toString (n / 0x100 % 256),
      toString (n % 256)]
  | .eightGroups groups => "[" ++ groupsText groups ++ "]"

end Address.Host

end Arbiter
