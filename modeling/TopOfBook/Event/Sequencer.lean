import TopOfBook.Event.Basic

/-! Building events with headers that count up: numbers from one, offsets by the size of each
message and the two bytes that give its length. -/

namespace TopOfBook

structure Sequencer where
  /-- The number given last. -/
  sequence : UInt64
  /-- Where the next message starts. -/
  offset : UInt64
  /-- The time put on both clocks, the current one when there is none. -/
  pinned : Option Timestamp
deriving Repr

namespace Sequencer

def start (pinned : Option Timestamp) : Sequencer := ⟨0, 0, pinned⟩

def pin (s : Sequencer) (t : Timestamp) : Sequencer := { s with pinned := some t }

/-- Starts counting again; the clock stays pinned. -/
def restart (s : Sequencer) : Sequencer := { s with sequence := 0, offset := 0 }

def nextHeader (s : Sequencer) (now : Timestamp) : Header :=
  let t := s.pinned.getD now
  ⟨t, t, s.sequence + 1, s.offset⟩

/-- Executions carry the number of their event as match number. -/
def numbered (sequence : UInt64) : Message → Message
  | .orderExecuted instrument id quantity _ => .orderExecuted instrument id quantity sequence
  | .orderExecutedWithPrice instrument id quantity _ price printable =>
    .orderExecutedWithPrice instrument id quantity sequence price printable
  | message => message

/-- The next event, with the given message. -/
def next (s : Sequencer) (now : Timestamp) (message : Message) : Event × Sequencer :=
  let header := s.nextHeader now
  (⟨header, numbered header.sequence message⟩,
    { s with sequence := s.sequence + 1, offset := s.offset + (message.kind.messageSize + 2) })

end Sequencer
end TopOfBook
