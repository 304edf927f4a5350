import Arbiter.Platform.Scale
import Arbiter.Record.Outside

/-!
# What the platform and the code host answer

* `Listing`: a market as the platform lists it; `Listing.snapshot`, `Listing.isClosed` and `Listing.value` read it.
* `UserStats.decode`, `PullRequest.decode`: a user and a pull request.
-/

namespace Arbiter

/-- An answer of a listed market. -/
structure ListedAnswer where
  id : String
  text : String
  /-- A fraction of one. -/
  probability : Float

/-- A market as the platform lists it. Probabilities are fractions of one, times are milliseconds. -/
structure Listing where
  id : String
  url : String
  question : String
  outcomeType : OutcomeType
  probability : Option Float
  least : Option Float
  greatest : Option Float
  isLogScale : Bool
  answers : List ListedAnswer
  closeMillis : Option Int
  isResolved : Bool
  resolution : Option String
  resolutionProbability : Option Float

namespace ListedAnswer

/-- The fields of an answer. -/
def fields : List FieldCheck :=
  [field "id" Decoded.text, field "text" Decoded.text, field "probability" Decoded.number]

/-- What is expected of an answer. -/
def shape : Json.Shape := recordShape fields

/-- An answer; what is absent is empty or zero. -/
def decode (v : Json) : Decoded ListedAnswer := do
  let r ← Record.ofJson fields v
  return {
    id := ← r.withDefault "id" Decoded.text ""
    text := ← r.withDefault "text" Decoded.text ""
    probability := ← r.withDefault "probability" Decoded.number 0 }

end ListedAnswer

namespace Listing

/-- The fields of a listed market. -/
def fields : List FieldCheck :=
  [field "id" Decoded.text, field "url" Decoded.text, field "question" Decoded.text,
    field "outcomeType" OutcomeType.decode, field "probability" (Decoded.optional Decoded.number),
    field "min" (Decoded.optional Decoded.number), field "max" (Decoded.optional Decoded.number),
    field "isLogScale" Decoded.truth,
    field "answers" (Decoded.list ListedAnswer.decode) (.listOf ListedAnswer.shape),
    field "closeTime" (Decoded.optional Decoded.integer), field "isResolved" Decoded.truth,
    field "resolution" (Decoded.optional Decoded.text),
    field "resolutionProbability" (Decoded.optional Decoded.number)]

/-- What is expected of a listed market. -/
def shape : Json.Shape := recordShape fields

/-- A listed market. -/
def decode (v : Json) : Decoded Listing := do
  let r ← Record.ofJson fields v
  return {
    id := ← r.required "id" Decoded.text
    url := ← r.required "url" Decoded.text
    question := ← r.required "question" Decoded.text
    outcomeType := ← r.required "outcomeType" OutcomeType.decode
    probability := ← r.optional "probability" Decoded.number
    least := ← r.optional "min" Decoded.number
    greatest := ← r.optional "max" Decoded.number
    isLogScale := ← r.withDefault "isLogScale" Decoded.truth false
    answers := ← r.withDefault "answers" (Decoded.list ListedAnswer.decode) []
    closeMillis := ← r.optional "closeTime" Decoded.integer
    isResolved := ← r.withDefault "isResolved" Decoded.truth false
    resolution := ← r.optional "resolution" Decoded.text
    resolutionProbability := ← r.optional "resolutionProbability" Decoded.number }

/-- When the market closes, if that lies in the calendar. -/
def closeTime (l : Listing) : Option Instant :=
  l.closeMillis.bind Instant.ofMillis?

/-- The market as a snapshot. -/
def snapshot (l : Listing) : Snapshot where
  id := l.id
  url := l.url
  question := l.question
  outcomeType := l.outcomeType
  minValue := l.least
  maxValue := l.greatest
  isLogScale := l.isLogScale
  answers := l.answers.map (·.text)
  closeTime := l.closeTime
  isResolved := l.isResolved

/-- Whether trading has ended: the market has resolved, or its close time has passed. -/
def isClosed (l : Listing) (now : Instant) : Bool :=
  l.isResolved || l.closeTime.any fun t => decide (t < now)

/-- The probability that the market resolved to, if it says so. -/
def resolvedFraction (l : Listing) : Option Float :=
  if !l.isResolved then none
  else if l.resolution = some "YES" then some 1
  else if l.resolution = some "NO" then some 0
  else l.resolutionProbability

/-- The probability of the market, the resolved one before the present one. -/
def fraction (l : Listing) : Except ReadFault Float :=
  match l.resolvedFraction.or l.probability with
  | some p => .ok p
  | none => .error (.unexpected ("market " ++ l.id ++ " has no probability"))

/-- The weights of the answers. -/
def weights (l : Listing) : Distribution Float :=
  SortedMap.ofList (l.answers.zipIdx.map fun (answer, index) => (index, answer.probability * 100))

/-- The value that the market resolved to, or its present one. -/
def value (l : Listing) : Except ReadFault Outcome :=
  if l.isResolved && l.resolution == some "CANCEL" then .ok .cancel
  else
    match l.outcomeType with
    | .binary => do return .probability ((← l.fraction) * 100)
    | .pseudoNumeric => do
      return .numeric (valueAt (← l.fraction) (l.least.getD 0) (l.greatest.getD 0) l.isLogScale)
    | .freeResponse | .multipleChoice => .ok (.distribution l.weights)

/-- The market as others refer to it. -/
def reference (l : Listing) (now : Instant) : Except ReadFault Reference := do
  return ⟨l.question, l.isClosed now, l.isResolved, ← l.value⟩

end Listing

namespace UserStats

/-- The fields of a user. -/
def fields : List FieldCheck :=
  [field "profitCached" PeriodStats.decode PeriodStats.shape,
    field "creatorVolumeCached" PeriodStats.decode PeriodStats.shape]

/-- What is expected of a user. -/
def shape : Json.Shape := recordShape fields

/-- A user as the platform lists it. -/
def decode (v : Json) : Decoded UserStats := do
  let r ← Record.ofJson fields v
  return ⟨← r.withDefault "profitCached" PeriodStats.decode PeriodStats.zero,
    ← r.withDefault "creatorVolumeCached" PeriodStats.decode PeriodStats.zero⟩

end UserStats

namespace PullRequest

/-- The fields of a pull request. -/
def fields : List FieldCheck :=
  [field "state" Decoded.text, field "merged_at" (Decoded.optional Decoded.moment),
    field "closed_at" (Decoded.optional Decoded.moment)]

/-- What is expected of a pull request. -/
def shape : Json.Shape := recordShape fields

/-- A pull request as the code host lists it: one with a time of merging is merged, whatever else is said. -/
def decode (v : Json) : Decoded PullRequest := do
  let r ← Record.ofJson fields v
  let state ← r.required "state" Decoded.text
  let mergedAt ← r.optional "merged_at" Decoded.moment
  let closedAt ← r.optional "closed_at" Decoded.moment
  return ⟨if mergedAt.isSome then .merged else if state = "closed" then .closed else .open, mergedAt, closedAt⟩

end PullRequest

end Arbiter
