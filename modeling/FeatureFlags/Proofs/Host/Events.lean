import FeatureFlags.Host.Desk
import FeatureFlags.Proofs.Json.Printing
import FeatureFlags.Text.Pieces

/-!
# Reading event streams

Who reads an event stream line by line gets one event for every value that came, in their order,
with the text of the value: no value ends its event early, and none is taken for a line of another
kind.

* `EventStream.lines`        the lines of a stream, each ended by CR, LF or CRLF;
* `EventStream.readEvents`   the events of a stream: a line is a field of the event that has begun,
                             and an empty line ends that event;
* `EventStream.written`      the text of an event, with one line for every line of its data;
* `EventStream.Frames`       a text that is read as whole events, whatever follows it;
* `EventStream.Reading`      a part of a stream that is taken at some time;
* `EventStream.events_framed`   values that come are read as they are.
-/

namespace FeatureFlags.EventStream

/-! ## reading -/

/-- The lines of a text, without what ends them; what follows the last end is no line. -/
def lines : List Char → List (List Char)
  | [] => []
  | '\r' :: '\n' :: cs => [] :: lines cs
  | c :: cs =>
    if c = '\r' ∨ c = '\n' then [] :: lines cs
    else
      match lines cs with
      | [] => []
      | l :: ls => (c :: l) :: ls

/-- An event as a reader gets it. -/
structure Event where
  type : String
  data : String
  deriving DecidableEq

/-- The fields of an event that has not ended; every line of data has its line break. -/
structure Fields where
  type : List Char := []
  data : List Char := []

namespace Fields

/-- what follows the colon in a line, without one blank after it -/
def valueOf (line : List Char) : List Char :=
  match line.dropWhile (· ≠ ':') with
  | ':' :: ' ' :: value => value
  | ':' :: value => value
  | _ => []

/-- A line that is not empty is a field with its name before the colon.  One that begins with a
colon has no name, and is a comment. -/
def take (f : Fields) (line : List Char) : Fields :=
  let name := line.takeWhile (· ≠ ':')
  if name = "event".toList then { f with type := valueOf line }
  else if name = "data".toList then { f with data := f.data ++ valueOf line ++ ['\n'] }
  else f

/-- The event of some fields, if there is data; its last line break does not belong to it. -/
def event? (f : Fields) : Option Event :=
  if f.data = [] then none
  else some ⟨if f.type = [] then "message" else String.ofList f.type, String.ofList f.data.dropLast⟩

end Fields

/-- The events that end among some lines. -/
def readLines : Fields → List (List Char) → List Event
  | _, [] => []
  | f, line :: rest =>
    if line = [] then f.event?.toList ++ readLines {} rest else readLines (f.take line) rest

/-- The events of a stream. -/
def readEvents (text : String) : List Event := readLines {} (lines text.toList)

example : readEvents "event: a\r\ndata: 1\rdata:2\n\n: b\n\ndata\n\ndata: 3\n" =
    [⟨"a", "1\n2"⟩, ⟨"message", ""⟩] := by decide +kernel

/-! ## writing -/

def isBreak (c : Char) : Bool := c = '\r' || c = '\n'

/-- a text without line breaks -/
def OneLine (cs : List Char) : Prop := ∀ c ∈ cs, isBreak c = false

instance (cs : List Char) : Decidable (OneLine cs) :=
  List.decidableBAll (fun c => isBreak c = false) cs

def fieldLine (name : String) (value : List Char) : String :=
  name ++ ": " ++ String.ofList value ++ "\n"

/-- the text of an event: its type, its data line by line, and an empty line -/
def written (e : Event) : String :=
  fieldLine "event" e.type.toList ++
    String.join ((Text.pieces isBreak e.data.toList).map (fieldLine "data")) ++ "\n"

/-- the event of a value that came -/
def changed (value : Json) : Event := ⟨"change", value.print⟩

theorem toList_changeEvent (value : Json) : (changeEvent value).toList =
    "event: change".toList ++ '\n' :: ("data: ".toList ++ value.chars ++ '\n' :: '\n' :: []) := by
  have hhead : "event: change\ndata: ".toList = "event: change".toList ++ '\n' :: "data: ".toList :=
    by decide
  have htail : "\n\n".toList = ['\n', '\n'] := by decide
  show ("event: change\ndata: " ++ value.print ++ "\n\n").toList = _
  rw [String.toList_append, String.toList_append, hhead, htail, Json.toList_print]
  simp only [List.append_assoc, List.cons_append]

theorem oneLine_chars (value : Json) : OneLine value.chars := by
  intro c hc
  have h : 0x20 ≤ c.toNat := Json.plain_chars value c hc
  rw [isBreak, Bool.or_eq_false_iff, decide_eq_false_iff_not, decide_eq_false_iff_not]
  constructor
  · rintro rfl
    exact absurd h (by decide)
  · rintro rfl
    exact absurd h (by decide)

/-- The text of a value is one line, so its event has one line of data. -/
theorem changeEvent_eq_written (value : Json) : changeEvent value = written (changed value) := by
  have hpieces : Text.pieces isBreak (changed value).data.toList = [value.chars] := by
    rw [changed, Json.toList_print]
    exact Text.pieces_of_none (oneLine_chars value)
  rw [written, hpieces, ← String.toList_inj, toList_changeEvent]
  simp [fieldLine, changed]

/-! ## frames -/

/-- A text that is read as whole events, whatever follows it. -/
def Frames (text : List Char) (es : List Event) : Prop :=
  ∀ rest, readLines {} (lines (text ++ rest)) = es ++ readLines {} (lines rest)

theorem frames_nil : Frames [] [] := fun _ => rfl

theorem Frames.append {as bs : List Char} {es fs : List Event} (h : Frames as es)
    (k : Frames bs fs) : Frames (as ++ bs) (es ++ fs) := by
  intro rest
  rw [List.append_assoc, h, k, List.append_assoc]

theorem Frames.readEvents_eq {text : String} {es : List Event} (h : Frames text.toList es) :
    readEvents text = es := by
  have h := h []
  rwa [List.append_nil, lines, readLines, List.append_nil] at h

theorem lines_append {line : List Char} (h : OneLine line) (rest : List Char) :
    lines (line ++ '\n' :: rest) = line :: lines rest := by
  induction line with
  | nil => rw [List.nil_append, lines.eq_3 _ _ (by simp), if_pos (.inr rfl)]
  | cons c line ih =>
    obtain ⟨hc, hline⟩ := List.forall_mem_cons.mp h
    have hr : c ≠ '\r' ∧ c ≠ '\n' := by simpa [isBreak] using hc
    rw [List.cons_append, lines.eq_3 _ _ (by simp [hr.1]), if_neg (by simp [hr]), ih hline]

theorem frames_changeEvent (value : Json) :
    Frames (changeEvent value).toList [changed value] := by
  intro rest
  have hdata : OneLine ("data: ".toList ++ value.chars) :=
    List.forall_mem_append.mpr ⟨(by decide : OneLine "data: ".toList), oneLine_chars value⟩
  have hlines : lines ((changeEvent value).toList ++ rest) =
      "event: change".toList :: ("data: ".toList ++ value.chars) :: [] :: lines rest := by
    have hempty : OneLine [] := nofun
    have hend : lines ('\n' :: rest) = [] :: lines rest := lines_append hempty rest
    rw [toList_changeEvent, List.append_assoc, List.cons_append, lines_append (by decide),
      List.append_assoc, List.cons_append, lines_append hdata, List.cons_append, List.nil_append,
      hend]
  rw [hlines]
  simp [readLines, Fields.take, Fields.valueOf, Fields.event?, changed, Json.print]

theorem frames_keepAlive : Frames keepAlive.toList [] := by
  intro rest
  have hlines : lines (keepAlive.toList ++ rest) = [':'] :: [] :: lines rest := rfl
  rw [hlines]
  rfl

theorem frames_events (values : List Json) :
    Frames (events values).toList (values.map changed) := by
  induction values with
  | nil => exact frames_nil
  | cons value values ih =>
    rw [events_cons, String.toList_append]
    exact (frames_changeEvent value).append ih

/-! ## a stream that is read from time to time -/

/-- A part of a stream that is taken: when, the values that came, and whether no more can come. -/
structure Reading where
  now : Nat
  values : List Json
  ended : Bool

/-- all that is taken of a stream -/
def takeAll : EventStream → List Reading → String
  | _, [] => ""
  | e, r :: rs =>
    let s := e.read r.now r.values r.ended
    s.2 ++ takeAll s.1 rs

/-- What is taken at a time holds the values that came; a comment that tells that the stream is
still there holds none. -/
theorem frames_read (e : EventStream) (now : Nat) (values : List Json) (ended : Bool) :
    Frames (e.read now values ended).2.toList (values.map changed) := by
  rw [read]
  split
  next => exact frames_events values
  next hvalues =>
    have hnil : values = [] := by simpa using hvalues
    subst hnil
    split
    · exact frames_keepAlive
    · exact frames_nil

theorem frames_takeAll (e : EventStream) (rs : List Reading) :
    Frames (e.takeAll rs).toList ((rs.flatMap Reading.values).map changed) := by
  induction rs generalizing e with
  | nil => exact frames_nil
  | cons r rs ih =>
    rw [takeAll, String.toList_append, List.flatMap_cons, List.map_append]
    exact (frames_read e r.now r.values r.ended).append (ih _)

/-- **Values that come are read as they are.**  The text of a value is one line, so its event has
one line of data.  Whatever values come, and whenever the stream is read in between, reading its
text gives one event of the type `change` for each of them, in their order, with the text of the
value as its data; and that is what is told to who reads the body of such a response. -/
theorem events_framed :
    (∀ value, changeEvent value = written (changed value)) ∧
    (∀ values, readEvents (events values) = values.map changed) ∧
    (∀ (e : EventStream) (rs : List Reading),
      readEvents (e.takeAll rs) = (rs.flatMap Reading.values).map changed) ∧
    ∀ (d : Host.Desk) (label : String) (e : EventStream),
      d.bodies.find? label = some (.events e) → ∃ text ended,
        (d.readBody label).2 = .text text ended ∧
          readEvents text = (d.host.take e.stream).2.map changed := by
  refine ⟨changeEvent_eq_written, fun values => (frames_events values).readEvents_eq,
    fun e rs => (frames_takeAll e rs).readEvents_eq, fun d label e hd => ?_⟩
  let ended := !d.host.attached e.stream
  refine ⟨(e.read d.now (d.host.take e.stream).2 ended).2, ended, ?_,
    (frames_read e d.now _ ended).readEvents_eq⟩
  rw [Host.Desk.readBody, hd]

/-- A host at which a request for the changes of a flag is answered; then the flag gets a text of
two lines, and an object with a line break in a name. -/
def followed : Host.Desk :=
  [Host.Command.nothing,
    .request ⟨"GET", "/api/experiments/note/changes", [], ""⟩ (some "changes"),
    .push (.ofList [("note", .str "a\ndata: b")]),
    .push (.ofList [("note", .obj [("x\r", .null)])])].foldl (fun d c => (d.step c).1)
    (.start ⟨some (.start (.scripted .ready {}) ⟨"key", {}⟩ 5000 (.anonymous "en")),
      .anonymous "en", true⟩)

/-- Both come as one event each. -/
theorem framed_of_followed :
    ∃ e text ended, followed.bodies.find? "changes" = some (.events e) ∧
      (followed.readBody "changes").2 = .text text ended ∧
      readEvents text = [⟨"change", "\"a\\ndata: b\""⟩, ⟨"change", "\x7b\"x\\r\":null\x7d"⟩] := by
  obtain ⟨-, -, -, hread⟩ := events_framed
  have hstream : followed.bodies.find? "changes" = some (.events ⟨0, 0⟩) := by decide +kernel
  have htaken : (followed.host.take 0).2.map changed =
      [⟨"change", "\"a\\ndata: b\""⟩, ⟨"change", "\x7b\"x\\r\":null\x7d"⟩] := by decide +kernel
  obtain ⟨text, ended, htext, hevents⟩ := hread followed "changes" ⟨0, 0⟩ hstream
  exact ⟨_, text, ended, hstream, htext, hevents.trans htaken⟩

end FeatureFlags.EventStream
