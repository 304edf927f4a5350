/-!
# Lines of an explanation

An explanation is a list of lines, each at a depth. Where rules were evaluated a line carries marks: the question of
the market that it refers to, and the value it came to or that it was never reached.

* `Line.render`: a line indented by two spaces for each level.
-/

namespace Arbiter

/-- What became of the rule on a line. -/
inductive Mark where
  | value (shown : String)
  | notEvaluated
deriving DecidableEq, Repr

/-- The mark as it is shown. -/
def Mark.text : Mark → String
  | .value shown => " (-> " ++ shown ++ ")"
  | .notEvaluated => " (not evaluated)"

/-- One line of an explanation. -/
structure Line where
  depth : Nat
  text : String
  /-- The question of the market that the line refers to. -/
  question : Option String := none
  mark : Option Mark := none
deriving DecidableEq, Repr

namespace Line

/-- What follows the text of a line. -/
def suffix (l : Line) : String :=
  (l.question.elim "" fun q => " (" ++ q ++ ")") ++ l.mark.elim "" Mark.text

/-- The indentation of a depth. -/
def indentation (depth : Nat) : String :=
  String.ofList (List.replicate (2 * depth) ' ')

/-- The line as it is shown, with its end. -/
def render (l : Line) : String :=
  indentation l.depth ++ "- " ++ l.text ++ l.suffix ++ "\n"

/-- The line without its marks. -/
def bare (l : Line) : Line := ⟨l.depth, l.text, none, none⟩

end Line

/-- Lines as they are shown, one after the other. -/
def renderLines (lines : List Line) : String :=
  String.join (lines.map Line.render)

end Arbiter
