/-!
# What is expected of a value

A reader that knows which members of an object are asked for can pass over the others.

* `Shape.first` and `Shape.later`: what is expected of the items of a list.
* `Shape.member?`: what is expected of a member of an object; nothing of one that is not asked for.
-/

namespace Arbiter.Json

/-- What is expected of a value. -/
inductive Shape where
  /-- All of it is asked for. -/
  | whole
  /-- A list with the same expected of each item. -/
  | listOf (item : Shape)
  /-- An object with these members, or a list of their values in this order. -/
  | record (fields : List (String × Shape))

namespace Shape

/-- What is expected of the first item of a list. -/
def first : Shape → Shape
  | .whole => .whole
  | .listOf item => item
  | .record [] => .whole
  | .record (f :: _) => f.2

/-- What is expected of a list without its first item. -/
def later : Shape → Shape
  | .record (_ :: fields) => .record fields
  | shape => shape

/-- What is expected of a member of an object. -/
def member? (name : String) : Shape → Option Shape
  | .record fields => (fields.find? (·.1 == name)).map (·.2)
  | _ => some .whole

end Shape

end Arbiter.Json
