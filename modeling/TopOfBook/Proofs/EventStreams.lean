import TopOfBook.Event.Stream
import TopOfBook.Proofs.EventText
import TopOfBook.Proofs.JsonLines
import TopOfBook.Proofs.TextLines

/-! A stream of events reads back. Its lines are events, blanks and texts that are no events, in any
mix, each with an end of its own. A line that is read may lack a carriage return at its end, which
makes no difference: an event has none there, and for a blank line or a text that is no event it is
one more blank. -/

namespace TopOfBook

namespace EventStream

/-- A line of a stream. -/
inductive Line
  /-- An event, without some of its fields. -/
  | event (e : Event) (omitted : OmittedEventFields)
  | blank (text : String)
  /-- Neither an event nor blank. -/
  | other (text : String)

namespace Line

def text : Line → String
  | event e omitted => (e.partialJson omitted).compact
  | blank text => text
  | other text => text

/-- The line is what it is said to be, and is a single line. -/
def Fits : Line → Prop
  | event e omitted => e.Omits omitted
  | blank text => '\n' ∉ text.toList ∧ Text.isBlankLine text = true
  | other text => '\n' ∉ text.toList ∧ Text.isBlankLine text = false ∧
    (Json.read? text).bind Event.ofJson? = none

/-- The item of the line, as it is written. -/
def item? (number : Nat) : Line → Option StreamItem
  | event e _ => some (.event e)
  | blank _ => none
  | other _ => some (.malformed number)

/-- The item of the line once it is received. -/
def received? (now : Timestamp) (number : Nat) : Line → Option StreamItem
  | event ⟨h, message⟩ _ =>
    let fed := if h.fed = .zero then h.received else h.fed
    some (.event ⟨⟨now, fed, h.sequence, h.offset⟩, message⟩)
  | blank _ => none
  | other _ => some (.malformed number)

/-- What is said about the line. -/
def complaint? (number : Nat) : Line → Option String
  | other _ => some ("parsing event on line " ++ Nat.repr number)
  | _ => none

variable {l : Line} {e : Event} {o : OmittedEventFields}

/-- A whole event is written as a line of the stream. -/
theorem text_event (e : Event) : (event e ⟨∅, ∅⟩).text = writeLine e :=
  congrArg Json.compact e.partialJson_empty

theorem lineFeed_not_mem (h : l.Fits) : '\n' ∉ l.text.toList := by
  cases l with
  | event e omitted =>
    intro hmem
    exact absurd ((e.partialJson omitted).le_toNat_compact _ hmem) (by decide)
  | blank text => exact h.1
  | other text => exact h.1

theorem isBlankLine_object (fields : List (Option String × Json)) :
    Text.isBlankLine (Json.object fields).compact = false := by
  rw [Text.isBlankLine, Json.compact, String.toList_ofList, Json.tokens, List.flatMap_cons]
  rfl

theorem isBlankLine_carriageReturn (text : String) :
    Text.isBlankLine (text ++ "\r") = Text.isBlankLine text := by
  rw [Text.isBlankLine, String.toList_append, List.all_append]
  exact Bool.and_true _

/-- What is read of a line gives the item of the line, be it with or without a carriage return at
the end. -/
theorem ofLine?_read (h : l.Fits) {read : String} (hread : l.text = read ∨ l.text = read ++ "\r")
    (number : Nat) : StreamItem.ofLine? number (some read) = l.item? number := by
  cases l with
  | event e omitted =>
    have hsame : read = (e.partialJson omitted).compact := by
      refine (hread.resolve_right fun hr => ?_).symm
      have hmem : '\r' ∈ (e.partialJson omitted).compact.toList := by
        rw [show (e.partialJson omitted).compact = read ++ "\r" from hr]
        simp
      exact absurd ((e.partialJson omitted).le_toNat_compact _ hmem) (by decide)
    have hvisible : Text.isBlankLine (e.partialJson omitted).compact = false := by
      rw [Event.partialJson_eq h]
      exact isBlankLine_object _
    rw [hsame, StreamItem.ofLine?, hvisible]
    simp only [Bool.false_eq_true, if_false, Json.read?_compact (e.plain_partialJson omitted),
      Option.bind_some, Event.ofJson?_partialJson h, item?]
  | blank text =>
    have hblank : Text.isBlankLine read = true := by
      have htext := h.2
      obtain rfl | rfl : text = read ∨ text = read ++ "\r" := hread
      · exact htext
      · rwa [isBlankLine_carriageReturn] at htext
    rw [StreamItem.ofLine?, if_pos hblank, item?]
  | other text =>
    obtain ⟨-, hblank, hnone⟩ := h
    obtain rfl | rfl : text = read ∨ text = read ++ "\r" := hread
    · simp [StreamItem.ofLine?, hblank, hnone, item?]
    · have hreturn : ∀ c ∈ "\r".toList, Json.isBlank c = true := List.forall_mem_singleton.2 rfl
      rw [isBlankLine_carriageReturn] at hblank
      have hnone' : (Json.read? read).bind Event.ofJson? = none := by
        rw [← Option.not_isSome_iff_eq_none, Option.isSome_iff_exists]
        rintro ⟨e, he⟩
        obtain ⟨v, hv, hev⟩ := Option.bind_eq_some_iff.1 he
        rw [Json.read?_append_blanks hv hreturn, Option.bind_some, hev] at hnone
        cases hnone
      simp [StreamItem.ofLine?, hblank, hnone', item?]

end Line

/-- The lines one after the other, each but the last with its end. -/
def join (lines : List (Line × Text.LineEnd)) : ByteArray :=
  (Text.joinLines (lines.map fun l => (l.1.text, l.2))).toUTF8

/-- What is made of the items of the lines that are read, by their numbers, is made of the items of
the lines that were joined. -/
theorem filterMap_lines_join {α : Type} (f : Nat → StreamItem → α)
    {lines : List (Line × Text.LineEnd)} (h : ∀ l ∈ lines, l.1.Fits) (number : Nat) :
    ((Text.lines (join lines)).zipIdx number).filterMap
        (fun l => (StreamItem.ofLine? l.2 l.1).map (f l.2)) =
      (lines.zipIdx number).filterMap fun l => (l.1.1.item? l.2).map (f l.2) := by
  induction lines generalizing number with
  | nil => rfl
  | cons l rest ih =>
    obtain ⟨line, e⟩ := l
    rw [List.forall_mem_cons] at h
    rw [List.zipIdx_cons, List.filterMap_cons]
    cases rest with
    | nil =>
      have hitem := Line.ofLine?_read h.1 (.inl rfl) number
      have hlines : Text.lines (join [(line, e)]) =
          if line.text = "" then [] else [some line.text] :=
        Text.lines_last (Line.lineFeed_not_mem h.1)
      rw [hlines]
      split_ifs with hempty
      · -- no line is read of an empty text, which is blank
        rw [hempty] at hitem
        rw [show line.item? number = none from hitem.symm]
        rfl
      · rw [List.zipIdx_cons, List.filterMap_cons, hitem]
        rfl
    | cons next rest =>
      obtain ⟨read, hlines, hread⟩ := Text.lines_ended (Line.lineFeed_not_mem h.1) e
        (Text.joinLines ((next :: rest).map fun l => (l.1.text, l.2)))
      have hsplit : Text.lines (join ((line, e) :: next :: rest)) =
          some read :: Text.lines (join (next :: rest)) := hlines
      rw [hsplit, List.zipIdx_cons, List.filterMap_cons, Line.ofLine?_read h.1 hread, ih h.2]

theorem items_join {lines : List (Line × Text.LineEnd)} (h : ∀ l ∈ lines, l.1.Fits) :
    items (join lines) = (lines.zipIdx 1).filterMap fun l => l.1.1.item? l.2 := by
  have hsame := filterMap_lines_join (fun _ item => item) h 1
  simp only [Option.map_id'] at hsame
  exact hsame

theorem read_join (clock : Clock) {lines : List (Line × Text.LineEnd)}
    (h : ∀ l ∈ lines, l.1.Fits) :
    read clock (join lines) =
      (lines.zipIdx 1).filterMap fun l => l.1.1.received? (clock.time l.2) l.2 := by
  refine (filterMap_lines_join (fun number item => item.receive (clock.time number)) h 1).trans ?_
  refine List.filterMap_congr fun l _ => ?_
  cases l.1.1 <;> rfl

end EventStream

/-- Any lines, each an event or blank or neither and each with an end of its own, are read in their
order and with their numbers, blank ones counted but passed over. An event is what was written, also
when fields that hold their default were left out. As it is received it has the time at which its
line was read, keeps the time of receipt as that of the feed where that was zero, and is otherwise
the same. A line that is no event is reported by its number, and reading goes on behind it. An event
that nothing is left out of is a line as it is written. -/
theorem stream_reads_back (lines : List (EventStream.Line × Text.LineEnd))
    (h : ∀ l ∈ lines, l.1.Fits) :
    EventStream.items (EventStream.join lines) =
      (lines.zipIdx 1).filterMap (fun l => l.1.1.item? l.2) ∧
    (∀ clock : Clock, EventStream.read clock (EventStream.join lines) =
        (lines.zipIdx 1).filterMap (fun l => l.1.1.received? (clock.time l.2) l.2) ∧
      (EventStream.read clock (EventStream.join lines)).filterMap StreamItem.message? =
        (lines.zipIdx 1).filterMap fun l => l.1.1.complaint? l.2) ∧
    ∀ e, (EventStream.Line.event e ⟨∅, ∅⟩).text = EventStream.writeLine e := by
  refine ⟨EventStream.items_join h, fun clock => ⟨EventStream.read_join clock h, ?_⟩,
    EventStream.Line.text_event⟩
  rw [EventStream.read_join clock h, List.filterMap_filterMap]
  refine List.filterMap_congr fun l _ => ?_
  cases l.1.1 <;> rfl

/-- An execution that was received at a time and fed at none. -/
def unfedExecution : Event :=
  ⟨⟨⟨7⟩, .zero, 0, 3⟩, .orderExecutedWithPrice ⟨1⟩ 5 ⟨10⟩ 0 ⟨-99⟩ false⟩

/-- A directory entry with a line break in its name, a blank line, a text with a carriage return of
its own, an execution without fields that hold their default, and a list without items. -/
def mixedLines : List (EventStream.Line × Text.LineEnd) :=
  [(.event ⟨default, .directory ⟨1⟩ "\"a\n\r\""⟩ ⟨∅, ∅⟩, .carriageReturn),
    (.blank " \t", .lineFeed),
    (.other "oops\r", .lineFeed),
    (.event unfedExecution ⟨{"feed_ts", "sequence"}, {"match_number", "printable"}⟩,
      .carriageReturn),
    (.other "[]", .lineFeed)]

/-- The clock shows ten times the number of the line. -/
theorem stream_reads_back_mixedLines :
    let clock : Clock := ⟨fun number => ⟨10 * number.toUInt64⟩⟩
    (∀ l ∈ mixedLines, l.1.Fits) ∧
    EventStream.read clock (EventStream.join mixedLines) =
      [.event ⟨⟨⟨10⟩, .zero, 0, 0⟩, .directory ⟨1⟩ "\"a\n\r\""⟩,
        .malformed 3,
        .event ⟨⟨⟨40⟩, ⟨7⟩, 0, 3⟩, .orderExecutedWithPrice ⟨1⟩ 5 ⟨10⟩ 0 ⟨-99⟩ false⟩,
        .malformed 5] ∧
    (EventStream.read clock (EventStream.join mixedLines)).filterMap StreamItem.message? =
      ["parsing event on line 3", "parsing event on line 5"] := by
  intro clock
  have hfits : ∀ l ∈ mixedLines, l.1.Fits := by
    simp only [mixedLines, List.forall_mem_cons]
    refine ⟨⟨?_, ?_⟩, ?_, ?_, ⟨?_, ?_⟩, ?_, List.forall_mem_nil _⟩
    · simp
    · simp
    · exact ⟨by decide, by decide⟩
    · refine ⟨by decide, by decide, ?_⟩
      cbv
    · simp [Header.IsDefault, unfedExecution]
    · simp [Message.IsDefault, unfedExecution]
    · refine ⟨by decide, by decide, ?_⟩
      cbv
  obtain ⟨-, hread, -⟩ := stream_reads_back mixedLines hfits
  exact ⟨hfits, (hread clock).1, (hread clock).2⟩

end TopOfBook
