/-! Timestamps are nanoseconds since the epoch. Differences stop at zero when a clock runs
backwards. -/

namespace TopOfBook

def nanosPerMicro : UInt64 := 1000
def nanosPerMilli : UInt64 := 1000000
def nanosPerSecond : UInt64 := 1000000000

structure Timestamp where
  nanos : UInt64
deriving DecidableEq, Repr, Inhabited

namespace Timestamp

def zero : Timestamp := ⟨0⟩

def micros (t : Timestamp) : UInt64 := t.nanos / nanosPerMicro

def millis (t : Timestamp) : UInt64 := t.nanos / nanosPerMilli

/-- Nanoseconds from `earlier` to `t`, zero when `t` is not later. -/
def since (t earlier : Timestamp) : UInt64 :=
  if earlier.nanos ≤ t.nanos then t.nanos - earlier.nanos else 0

/-- The later of two timestamps. -/
def latest (a b : Timestamp) : Timestamp := if a.nanos < b.nanos then b else a

def render (t : Timestamp) : String := Nat.repr t.nanos.toNat ++ "ns"

end Timestamp
end TopOfBook
