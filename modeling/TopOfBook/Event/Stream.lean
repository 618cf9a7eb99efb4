import TopOfBook.Event.Json
import TopOfBook.Json.Reader
import TopOfBook.Json.Writer
import TopOfBook.Text.Blank
import TopOfBook.Text.Lines

/-! Streams of events, one a line. Blank lines are passed over but counted. A line that holds no
event is reported by its number, and reading goes on behind it. The clock is read anew for every
event. -/

namespace TopOfBook

/-- What a clock shows as each line of a stream is read, by the number of the line. -/
structure Clock where
  time : Nat → Timestamp

/-- A clock that stands still. -/
instance : Coe Timestamp Clock := ⟨fun now => ⟨fun _ => now⟩⟩

/-- What a line that is not blank holds. -/
inductive StreamItem
  | event (e : Event)
  /-- The line is not valid UTF-8. -/
  | unreadable (line : Nat)
  /-- The line is not an event. -/
  | malformed (line : Nat)
deriving DecidableEq, Repr

namespace StreamItem

/-- What is wrong with a line. -/
def message? : StreamItem → Option String
  | event _ => none
  | unreadable line => some ("reading line " ++ Nat.repr line)
  | malformed line => some ("parsing event on line " ++ Nat.repr line)

def receive (item : StreamItem) (now : Timestamp) : StreamItem :=
  match item with
  | event e => event (e.receive now)
  | item => item

/-- The item of a line, given its number; nothing for a blank line. -/
def ofLine? (number : Nat) : Option String → Option StreamItem
  | none => some (unreadable number)
  | some line =>
    if Text.isBlankLine line then none
    else match (Json.read? line).bind Event.ofJson? with
      | none => some (malformed number)
      | some e => some (event e)

end StreamItem

namespace EventStream

/-- The lines of a stream with their numbers, which start at one. -/
def numbered (bytes : ByteArray) : List (Option String × Nat) := (Text.lines bytes).zipIdx 1

/-- The items as they stand in the stream. -/
def items (bytes : ByteArray) : List StreamItem :=
  (numbered bytes).filterMap fun (line, number) => StreamItem.ofLine? number line

/-- The items as they are received, each at the time that the clock shows for its line. -/
def read (clock : Clock) (bytes : ByteArray) : List StreamItem :=
  (numbered bytes).filterMap fun (line, number) =>
    (StreamItem.ofLine? number line).map fun item => item.receive (clock.time number)

/-- An event as a line of the stream, without its end. -/
def writeLine (e : Event) : String := e.toJson.compact

end EventStream
end TopOfBook
