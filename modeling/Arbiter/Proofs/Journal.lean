import Arbiter.Command.Collaborators
import Arbiter.Proofs.Time.Written
import Mathlib.Data.List.Forall2

/-!
# The journal read back

What the journal holds is read again by a reader that knows commas, quotes and the ends of lines and nothing else: it goes
through the file one character at a time and keeps the records that have ended, the fields of the present record and what
it has seen of the present field.

* `RecordReader.next`, `RecordReader.done`: the reader. It refuses a quote that stands where no quote can stand.
* `read_fieldText`, `read_recordText`: what it makes of a field, and of a record.
* `Unquoted`: a text that is written as it is. `JournalEntry.line_eq`: every field of a record is written so that it comes
  back, also those that are written as they are.
* `JournalStep.perform_keeps`: what one step does to the file of a journal. `perform_all`: what a life of steps leaves.
* `journal_readBack`: the journal is read back as the names of the fields and one record for each entry.
-/

namespace Arbiter

/-- Where a reader stands. -/
inductive ReaderPlace where
  /-- At the first character of a field. -/
  | start
  /-- In a field without quotes. -/
  | plain
  /-- Between the quotes of a field. -/
  | quoted
  /-- Behind a quote that ends a field unless another one follows. -/
  | closed
deriving DecidableEq

/-- A reader of records in the middle of a text. -/
structure RecordReader where
  place : ReaderPlace
  /-- The characters of the present field so far. -/
  field : List Char
  /-- The fields of the present record that have ended. -/
  record : List String
  /-- The records that have ended. -/
  records : List (List String)

namespace RecordReader

/-- The reader before a text. -/
def initial : RecordReader := ⟨.start, [], [], []⟩

/-- The present field has ended. -/
def endField (r : RecordReader) : RecordReader := ⟨.start, [], r.record ++ [String.ofList r.field], r.records⟩

/-- The present field has ended, and the record with it. -/
def endRecord (r : RecordReader) : RecordReader := ⟨.start, [], [], r.records ++ [r.endField.record]⟩

/-- One more character. Between quotes a quote is the end or the first half of a quote; all else belongs to the field.
Elsewhere a comma ends the field and a line feed the record. -/
def next (r : RecordReader) (c : Char) : Option RecordReader :=
  match r.place, c with
  | .quoted, '"' => some { r with place := .closed }
  | .quoted, c => some { r with field := r.field ++ [c] }
  | _, ',' => some r.endField
  | _, '\n' => some r.endRecord
  | .start, '"' => some { r with place := .quoted }
  | .closed, '"' => some { r with place := .quoted, field := r.field ++ ['"'] }
  | .plain, '"' => none
  | .closed, _ => none
  | .start, c => some { r with place := .plain, field := r.field ++ [c] }
  | .plain, c => some { r with field := r.field ++ [c] }

/-- The records at the end of a text. The last one needs no line feed; quotes have to be closed. -/
def done (r : RecordReader) : Option (List (List String)) :=
  match r.place with
  | .quoted => none
  | .start => if r.record = [] then some r.records else some r.endRecord.records
  | .plain | .closed => some r.endRecord.records

/-- The reader behind some characters. -/
def read (r : RecordReader) (s : List Char) : Option RecordReader := s.foldlM next r

end RecordReader

/-- The records of a text. -/
def readRecords (text : String) : Option (List (List String)) :=
  (RecordReader.initial.read text.toList).bind RecordReader.done

/-! ## Fields and records -/

namespace RecordReader

variable {r t : RecordReader} {s : List Char} {text : String} {record : List String} {records : List (List String)}

theorem read_nil : r.read [] = some r := rfl

theorem read_append (s s' : List Char) : r.read (s ++ s') = (r.read s).bind fun t => t.read s' := List.foldlM_append

theorem read_append_of (h : r.read s = some t) (s' : List Char) : r.read (s ++ s') = t.read s' := by
  rw [read_append, h]
  rfl

theorem read_singleton (c : Char) : r.read [c] = r.next c := by
  simp [read]

/-- A character that belongs to a field without quotes. -/
def Ordinary (c : Char) : Prop := c ≠ ',' ∧ c ≠ '"' ∧ c ≠ '\n'

/-- A text that needs no quotes: it holds no comma, no quote and no line feed. -/
def Unquoted (text : String) : Prop := ∀ c ∈ text.toList, Ordinary c

theorem any_eq_false_iff :
    (text.toList.any fun c => c == ',' || c == '"' || c == '\n') = false ↔ Unquoted text := by
  simp [Unquoted, Ordinary, and_assoc]

theorem next_plain {c : Char} (hc : Ordinary c) (field : List Char) :
    next ⟨.plain, field, record, records⟩ c = some ⟨.plain, field ++ [c], record, records⟩ := by
  obtain ⟨hcomma, hquote, hend⟩ := hc
  unfold next
  split <;> simp_all

theorem next_start {c : Char} (hc : Ordinary c) :
    next ⟨.start, [], record, records⟩ c = some ⟨.plain, [c], record, records⟩ := by
  obtain ⟨hcomma, hquote, hend⟩ := hc
  unfold next
  split <;> simp_all

theorem next_quoted {c : Char} (hc : c ≠ '"') (field : List Char) :
    next ⟨.quoted, field, record, records⟩ c = some ⟨.quoted, field ++ [c], record, records⟩ := by
  unfold next
  split <;> simp_all

/-- Outside of quotes a comma ends the field. -/
theorem next_comma (h : r.place ≠ .quoted) : r.next ',' = some r.endField := by
  unfold next
  split <;> simp_all

/-- Outside of quotes a line feed ends the record. -/
theorem next_lineFeed (h : r.place ≠ .quoted) : r.next '\n' = some r.endRecord := by
  unfold next
  split <;> simp_all

theorem read_plain (h : ∀ c ∈ s, Ordinary c) (field : List Char) :
    read ⟨.plain, field, record, records⟩ s = some ⟨.plain, field ++ s, record, records⟩ := by
  induction s generalizing field with
  | nil => simp [read_nil]
  | cons c rest ih =>
    obtain ⟨hc, hrest⟩ := List.forall_mem_cons.1 h
    rw [← List.singleton_append, read_append, read_singleton, next_plain hc, Option.bind_some, ih hrest,
      List.append_assoc]

/-- Between quotes a text comes back from its enclosed form. -/
theorem read_quoted (s field : List Char) :
    read ⟨.quoted, field, record, records⟩ (s.flatMap fun c => if c = '"' then ['"', '"'] else [c]) =
      some ⟨.quoted, field ++ s, record, records⟩ := by
  induction s generalizing field with
  | nil => simp [read_nil]
  | cons c rest ih =>
    have hc : read ⟨.quoted, field, record, records⟩ (if c = '"' then ['"', '"'] else [c]) =
        some ⟨.quoted, field ++ [c], record, records⟩ := by
      split
      case isTrue h =>
        subst h
        rfl
      case isFalse h => rw [read_singleton, next_quoted h]
    rw [List.flatMap_cons, read_append_of hc, ih, List.append_assoc, List.singleton_append]

/-- The reader has seen a whole field after others. -/
def Holds (r : RecordReader) (record : List String) (records : List (List String)) : Prop :=
  r.place ≠ .quoted ∧ r.records = records ∧ r.endField.record = record

theorem toList_enclosed (text : String) : (Journal.enclosed text).toList =
    ['"'] ++ ((text.toList.flatMap fun c => if c = '"' then ['"', '"'] else [c]) ++ ['"']) := by
  simp [Journal.enclosed]

/-- A field as it is written is read as the field. -/
theorem read_fieldText (text : String) :
    ∃ r, read ⟨.start, [], record, records⟩ (Journal.fieldText text).toList = some r ∧
      r.Holds (record ++ [text]) records := by
  unfold Journal.fieldText
  split
  case isTrue =>
    refine ⟨⟨.closed, text.toList, record, records⟩, ?_, by simp, rfl, by simp [endField]⟩
    have hopen : read ⟨.start, [], record, records⟩ ['"'] = some ⟨.quoted, [], record, records⟩ := rfl
    rw [toList_enclosed, read_append_of hopen, read_append_of (read_quoted _ _), List.nil_append, read_singleton]
    rfl
  case isFalse h =>
    have hall := any_eq_false_iff.1 (Bool.eq_false_iff.2 h)
    obtain ⟨s, rfl⟩ : ∃ s, text = String.ofList s := ⟨text.toList, String.ofList_toList.symm⟩
    rw [Unquoted, String.toList_ofList] at hall
    rw [String.toList_ofList]
    cases s with
    | nil => exact ⟨_, read_nil, by simp, rfl, by simp [endField]⟩
    | cons c rest =>
      obtain ⟨hc, hrest⟩ := List.forall_mem_cons.1 hall
      refine ⟨⟨.plain, [c] ++ rest, record, records⟩, ?_, by simp, rfl, by simp [endField]⟩
      rw [← List.singleton_append, read_append, read_singleton, next_start hc, Option.bind_some, read_plain hrest]

/-- Fields as they are written, with commas between them, are read as the fields. -/
theorem read_fields (first : String) (rest : List String) :
    ∃ r, read ⟨.start, [], record, records⟩ (",".intercalate ((first :: rest).map Journal.fieldText)).toList = some r ∧
      r.Holds (record ++ first :: rest) records := by
  induction rest generalizing first record with
  | nil => simpa using read_fieldText first
  | cons second rest ih =>
    obtain ⟨r, hread, hplace, hrecords, hfields⟩ := @read_fieldText record records first
    obtain ⟨t, hrest, ht⟩ := @ih (record ++ [first]) second
    refine ⟨t, ?_, by simpa using ht⟩
    have hcomma : r.read ",".toList = some ⟨.start, [], record ++ [first], records⟩ := by
      rw [show ",".toList = [','] from rfl, read_singleton, next_comma hplace, ← hfields, ← hrecords]
      rfl
    rw [List.map_cons, List.map_cons, String.intercalate_cons_cons, ← List.map_cons, String.toList_append,
      String.toList_append, List.append_assoc, read_append_of hread, read_append_of hcomma, hrest]

/-- A record as it is written is read as the record. -/
theorem read_recordText {fields : List String} (h : fields ≠ []) :
    read ⟨.start, [], [], records⟩ (Journal.recordText (fields.map Journal.fieldText)).toList =
      some ⟨.start, [], [], records ++ [fields]⟩ := by
  obtain ⟨first, rest, rfl⟩ := List.exists_cons_of_ne_nil h
  obtain ⟨r, hread, hplace, hrecords, hfields⟩ := @read_fields [] records first rest
  rw [Journal.recordText, String.toList_append, read_append_of hread, show "\n".toList = ['\n'] from rfl, read_singleton,
    next_lineFeed hplace, endRecord, hrecords, hfields, List.nil_append]

/-- Records as they are written, one after the other, are read as the records. -/
theorem read_recordTexts : ∀ {written : List (List String)}, (∀ fields ∈ written, fields ≠ []) →
    ∀ records, read ⟨.start, [], [], records⟩
        (String.join (written.map fun fields => Journal.recordText (fields.map Journal.fieldText))).toList =
      some ⟨.start, [], [], records ++ written⟩
  | [], _, records => by simp [read_nil]
  | fields :: rest, h, records => by
    obtain ⟨hfields, hrest⟩ := List.forall_mem_cons.1 h
    rw [List.map_cons, String.join_cons, String.toList_append, read_append_of (read_recordText hfields),
      read_recordTexts hrest, List.append_assoc, List.singleton_append]

/-! ## Texts without quotes -/

theorem Unquoted.fieldText_eq (h : Unquoted text) : Journal.fieldText text = text :=
  if_neg (Bool.eq_false_iff.1 (any_eq_false_iff.2 h))

theorem Unquoted.append {more : String} (h : Unquoted text) (hmore : Unquoted more) : Unquoted (text ++ more) := by
  unfold Unquoted
  rw [String.toList_append]
  exact List.forall_mem_append.2 ⟨h, hmore⟩

theorem unquoted_padded (width n : Nat) : Unquoted (padded width n) := by
  intro c hc
  have hdigit := isDigit_padded width n c hc
  refine ⟨?_, ?_, ?_⟩
  all_goals
    rintro rfl
    exact absurd hdigit (by decide)

theorem unquoted_yearText (year : Int) : Unquoted (Instant.yearText year) := by
  unfold Instant.yearText
  split
  · exact unquoted_padded _ _
  · refine Unquoted.append ?_ (unquoted_padded _ _)
    split <;> simp [Unquoted, Ordinary]

theorem unquoted_fractionText (nanos : Nat) : Unquoted (Instant.fractionText nanos) := by
  have hpoint : Unquoted "." := by simp [Unquoted, Ordinary]
  unfold Instant.fractionText
  split
  · simp [Unquoted]
  · repeat' split
    all_goals exact hpoint.append (unquoted_padded _ _)

/-- The text of an instant has digits, signs, colons, a point and the letter between the date and the time. -/
theorem unquoted_instantText (t : Instant) : Unquoted t.text := by
  have hnumber : ∀ width n, ∀ c ∈ (padded width n).toList, Ordinary c := unquoted_padded
  have hyear : ∀ c ∈ (Instant.yearText t.date.year).toList, Ordinary c := unquoted_yearText _
  have hfraction : ∀ c ∈ (Instant.fractionText t.shownSecond.2).toList, Ordinary c := unquoted_fractionText _
  have hdash : Ordinary '-' := by simp [Ordinary]
  have hletter : Ordinary 'T' := by simp [Ordinary]
  have hcolon : Ordinary ':' := by simp [Ordinary]
  have hoffset : ∀ c ∈ "+00:00".toList, Ordinary c := by simp [Ordinary]
  unfold Unquoted
  simp only [Instant.toList_text, Instant.textAfterYear, Instant.textAfterDate, Instant.textAfterSeconds,
    List.forall_mem_append, List.forall_mem_cons]
  exact ⟨hyear, hdash, hnumber _ _, hdash, hnumber _ _, hletter, hnumber _ _, hcolon, hnumber _ _, hcolon, hnumber _ _,
    hfraction, hoffset⟩

theorem unquoted_decisionName (d : Decision) : Unquoted d.name := by
  cases d <;> simp [Unquoted, Ordinary, Decision.name]

theorem unquoted_toString (b : Bool) : Unquoted (toString b) := by
  cases b with
  | false =>
    change Unquoted "false"
    simp [Unquoted, Ordinary]
  | true =>
    change Unquoted "true"
    simp [Unquoted, Ordinary]

/-- The names of the fields are written as they are. -/
theorem map_fieldText_header : Journal.header.map Journal.fieldText = Journal.header := by
  have hplain : ∀ text ∈ Journal.header, Unquoted text := by simp [Journal.header, Unquoted, Ordinary]
  exact List.map_congr_left (fun text h => (hplain text h).fieldText_eq) |>.trans (List.map_id _)

end RecordReader

/-! ## The file of a journal -/

/-- The machine with a single file in place of its own ones. -/
def Host.withFile (base : Host (StateM (Option String))) : Host (StateM (Option String)) :=
  { base with
    hasPath := fun _ => return (← get).isSome
    appendTo := fun _ text => do
      modify fun file => some (file.getD "" ++ text)
      pure true }

/-- What is done with a journal. -/
inductive JournalStep where
  | opening
  | entry (entry : JournalEntry)

namespace JournalStep

/-- A step as the program carries it out. -/
def perform (base : Host (StateM (Option String))) (path : String) :
    JournalStep → StateM (Option String) (Except Failure Unit)
  | opening => return (← base.withFile.journal { enabled := true, path }).map fun _ => ()
  | entry e => base.withFile.record path e

/-- The entry of a step. -/
def recorded? : JournalStep → Option JournalEntry
  | opening => none
  | entry e => some e

variable (base : Host (StateM (Option String))) (path : String)

/-- The first opening makes the file. -/
theorem perform_opening_none :
    (perform base path opening).run none = (.ok (), some (Journal.recordText Journal.header)) := rfl

/-- A later opening leaves the file as it is, and an entry goes to its end. -/
theorem perform_keeps (step : JournalStep) (text : String) :
    (step.perform base path).run (some text) =
      (.ok (), some (text ++ String.join (step.recorded?.toList.map JournalEntry.line))) := by
  cases step with
  | opening =>
    change (Except.ok (), some text) = _
    simp [recorded?]
  | entry e =>
    change (Except.ok (), some (text ++ e.line)) = _
    simp [recorded?]

/-- A step that succeeds, and then the other ones. -/
theorem perform_cons {step : JournalStep} {file after : Option String} (rest : List JournalStep)
    (h : (step.perform base path).run file = (.ok (), after)) :
    ((step :: rest).mapM (perform base path)).run file =
      (.ok () :: ((rest.mapM (perform base path)).run after).1, ((rest.mapM (perform base path)).run after).2) := by
  rw [List.mapM_cons, StateT.run_bind, h]
  rfl

/-- The lines of all entries stand in the file in their order. -/
theorem perform_all : ∀ (steps : List JournalStep) (text : String),
    (steps.mapM (perform base path)).run (some text) =
      (steps.map fun _ => .ok (), some (text ++ String.join ((steps.filterMap recorded?).map JournalEntry.line)))
  | [], text => by
    change ([], some text) = _
    simp
  | step :: rest, text => by
    have hstep : (text ++ String.join (step.recorded?.toList.map JournalEntry.line)) ++
        String.join ((rest.filterMap recorded?).map JournalEntry.line) =
        text ++ String.join (((step :: rest).filterMap recorded?).map JournalEntry.line) := by
      rw [String.append_assoc, List.filterMap_cons]
      cases step.recorded? <;> simp
    rw [perform_cons base path rest (perform_keeps base path step text), perform_all rest, hstep]
    rfl

end JournalStep

/-! ## Entries and their records -/

namespace JournalEntry

/-- The six fields of the record of an entry. -/
def fields : JournalEntry → List String
  | .decision time proposal answer applied =>
    [time.text, proposal.marketId, proposal.question, proposal.value.text, answer.name, toString applied]
  | .event time marketId text => [time.text, marketId, "EVENT: " ++ text, "", "", ""]

theorem length_fields (e : JournalEntry) : e.fields.length = 6 := by
  cases e with
  | decision => rfl
  | event => rfl

/-- The fields that are written as they are need no quotes. -/
theorem line_eq (e : JournalEntry) : e.line = Journal.recordText (e.fields.map Journal.fieldText) := by
  have htime : ∀ t : Instant, Journal.fieldText t.text = t.text := fun t =>
    (RecordReader.unquoted_instantText t).fieldText_eq
  cases e with
  | decision time proposal answer applied =>
    have hname := (RecordReader.unquoted_decisionName answer).fieldText_eq
    have happlied := (RecordReader.unquoted_toString applied).fieldText_eq
    simp only [line, fields, List.map_cons, List.map_nil, htime, hname, happlied]
  | event time marketId text =>
    have hempty : Journal.fieldText "" = "" := rfl
    simp only [line, fields, List.map_cons, List.map_nil, htime, hempty]

end JournalEntry

/-- What a record says of an entry. -/
inductive JournalEntry.ReadAs : JournalEntry → List String → Prop where
  | decision (time : Instant) (proposal : Proposal) (answer : Decision) (applied : Bool) :
      ReadAs (.decision time proposal answer applied)
        [time.text, proposal.marketId, proposal.question, proposal.value.text, answer.name,
          if applied then "true" else "false"]
  | event (time : Instant) (marketId text : String) :
      ReadAs (.event time marketId text) [time.text, marketId, "EVENT: " ++ text, "", "", ""]

theorem JournalEntry.readAs_fields (e : JournalEntry) : e.ReadAs e.fields := by
  cases e with
  | decision time proposal answer applied => cases applied <;> exact .decision ..
  | event time marketId text => exact .event ..

/-- The file with some entries is read as the names of the fields and the records of the entries. -/
theorem readRecords_file (entries : List JournalEntry) :
    readRecords (Journal.recordText Journal.header ++ String.join (entries.map JournalEntry.line)) =
      some (Journal.header :: entries.map JournalEntry.fields) := by
  have hlines : entries.map JournalEntry.line =
      (entries.map JournalEntry.fields).map fun fields => Journal.recordText (fields.map Journal.fieldText) := by
    rw [List.map_map]
    exact List.map_congr_left fun e _ => e.line_eq
  have hfile : Journal.recordText Journal.header ++ String.join (entries.map JournalEntry.line) =
      String.join ((Journal.header :: entries.map JournalEntry.fields).map fun fields =>
        Journal.recordText (fields.map Journal.fieldText)) := by
    rw [List.map_cons, String.join_cons, RecordReader.map_fieldText_header, hlines]
  have hne : ∀ fields ∈ Journal.header :: entries.map JournalEntry.fields, fields ≠ [] := by
    refine List.forall_mem_cons.2 ⟨by simp [Journal.header], List.forall_mem_map.2 fun e _ => ?_⟩
    exact List.ne_nil_of_length_pos (by rw [e.length_fields]; omega)
  rw [hfile, readRecords, RecordReader.initial, RecordReader.read_recordTexts hne]
  rfl

/-- **The journal is read back as it was written.** However often it is opened again, and whatever the texts of its entries
hold, every step on a journal in a new file succeeds, and then the file is read as the names of the fields and one record of
six fields for each entry, in order and with the texts of the entry. -/
theorem journal_readBack (base : Host (StateM (Option String))) (path : String) (steps : List JournalStep) :
    ∃ text records,
      ((JournalStep.opening :: steps).mapM (JournalStep.perform base path)).run none =
        ((JournalStep.opening :: steps).map fun _ => .ok (), some text) ∧
      readRecords text = some (Journal.header :: records) ∧
      List.Forall₂ JournalEntry.ReadAs (steps.filterMap JournalStep.recorded?) records ∧
      records.map List.length = List.replicate records.length 6 := by
  refine ⟨_, _, ?_, readRecords_file (steps.filterMap JournalStep.recorded?), ?_, ?_⟩
  · rw [JournalStep.perform_cons base path steps (JournalStep.perform_opening_none base path), JournalStep.perform_all]
    rfl
  · exact List.forall₂_map_right_iff.2 (List.forall₂_same.2 fun e _ => e.readAs_fields)
  · rw [List.map_map, List.length_map, List.eq_replicate_iff]
    exact ⟨List.length_map .., List.forall_mem_map.2 fun e _ => e.length_fields⟩

end Arbiter
