import Arbiter.Address.Folding
import Arbiter.Address.Percent
import Arbiter.Address.Punycode
import Arbiter.Text.Hidden

/-!
# Domains

The labels of a domain are separated by points. In its standard form a domain has small basic characters only; a label
with others is written by its basic form behind `xn--`.

* `standardDomain?`: the standard form of a domain, if it is one.
-/

namespace Arbiter

/-- The pieces of a text between the characters that `p` holds of. -/
def pieces (p : Char → Bool) : List Char → List (List Char)
  | [] => [[]]
  | c :: rest =>
    if p c then [] :: pieces p rest
    else
      match pieces p rest with
      | first :: more => (c :: first) :: more
      | [] => [[c]]

namespace Domain

/-- Whether a character is a mark of a script, which stands behind a letter. -/
def isMark (c : Char) : Bool :=
  let n := c.toNat
  isHidden c && ((0x300 ≤ n && n ≤ 0x1DFF) || (0x302A ≤ n && n ≤ 0x302F) || n == 0x3099 || n == 0x309A ||
    (0xA66F ≤ n && n ≤ 0xABED))

/-- Whether a character may stand in a label. -/
def isLabelChar (c : Char) : Bool :=
  if c.toNat < 0x80 then 0x20 < c.toNat && c.toNat != 0x7F && !"%#/:<>?@[\\]^|".toList.contains c
  else (!isHidden c || isMark c) && foldChar c == [c]

/-- Whether a text may be a label. -/
def isLabel (label : List Char) : Bool :=
  label.all isLabelChar && !label.head?.any isMark

/-- What stands before the basic form of a label. -/
def mark : List Char := "xn--".toList

/-- Whether the basic form of a label is one: it stands for a label, and is written in the one way. -/
def isBasicForm (s : List Char) : Bool :=
  match ofPunycode? s with
  | some label => !label.all (·.toNat < 0x80) && isLabel label && joinMarks label == label && punycode label == s
  | none => false

/-- The standard form of a label. -/
def standardLabel? (label : List Char) : Option (List Char) :=
  if !isLabel label then none
  else if mark.isPrefixOf label then if isBasicForm (label.drop mark.length) then some label else none
  else if label.all (·.toNat < 0x80) then some label
  else some (mark ++ punycode label)

end Domain

/-- The standard form of a domain that may hold escapes. -/
def standardDomain? (host : List Char) : Option (List Char) := do
  let folded := joinMarks ((← unescape? host).flatMap foldChar)
  let labels ← (pieces (· == '.') folded).mapM Domain.standardLabel?
  pure (['.'].intercalate labels)

end Arbiter
