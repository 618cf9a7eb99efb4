/-! Splitting bytes into lines. A line ends at a line feed, or at the end of the bytes; a
carriage return right before the line feed is not part of it. -/

namespace TopOfBook.Text

def lineFeed : UInt8 := 10
def carriageReturn : UInt8 := 13

/-- A line that was read up to its line feed, given last byte first. -/
def endedLine : List UInt8 → List UInt8
  | [] => []
  | b :: rest => if b = carriageReturn then rest.reverse else (b :: rest).reverse

/-- The lines of the bytes, with those of the current line given last byte first. -/
def splitLines (current : List UInt8) : List UInt8 → List (List UInt8)
  | [] => if current.isEmpty then [] else [current.reverse]
  | b :: rest =>
    if b = lineFeed then endedLine current :: splitLines [] rest
    else splitLines (b :: current) rest

/-- The lines of the bytes as texts; `none` for a line that is not valid UTF-8. -/
def lines (bytes : ByteArray) : List (Option String) :=
  (splitLines [] bytes.data.toList).map fun line => String.fromUTF8? ⟨line.toArray⟩

end TopOfBook.Text
