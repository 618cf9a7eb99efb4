/-! Number literals of JSON, kept as written: a literal is a count, an integer or a double only
when somebody asks for one. -/

namespace TopOfBook.Json

abbrev Digit := Fin 10

namespace Digit

def zero : Digit := ⟨0, by omega⟩

def ofChar? (c : Char) : Option Digit :=
  if h : 48 ≤ c.toNat ∧ c.toNat < 58 then some ⟨c.toNat - 48, by omega⟩ else none

def toChar (d : Digit) : Char := Char.ofNat (48 + d.val)

/-- Reads digits from the left, on top of what was read before. -/
def value (digits : List Digit) (before : Nat) : Nat :=
  digits.foldl (fun n d => 10 * n + d.val) before

/-- The decimal digits of a number, a single zero for zero. -/
def ofNat (n : Nat) : List Digit :=
  if n < 10 then [⟨n % 10, by omega⟩] else ofNat (n / 10) ++ [⟨n % 10, by omega⟩]

end Digit

/-- The part of a literal after `e`. -/
structure Exponent where
  negative : Bool
  digits : List Digit
deriving DecidableEq, Repr

/-- A sign, the digits before and after the point, and an exponent. -/
structure Literal where
  negative : Bool
  whole : List Digit
  fraction : List Digit
  exponent : Option Exponent
deriving DecidableEq, Repr

namespace Literal

def ofNat (n : Nat) : Literal := ⟨false, Digit.ofNat n, [], none⟩

def ofInt (i : Int) : Literal := ⟨decide (i < 0), Digit.ofNat i.natAbs, [], none⟩

/-- The integer a literal stands for. A fraction or an exponent makes it a double, and so does
a minus sign before a zero. -/
def toInt? (l : Literal) : Option Int :=
  if l.fraction.isEmpty && l.exponent.isNone then
    let n := Digit.value l.whole 0
    if l.negative then (if n = 0 then none else some (-(n : Int))) else some n
  else none

/-- A natural number below a bound. -/
def toNatBelow? (bound : Nat) (l : Literal) : Option Nat :=
  match l.toInt? with
  | some (.ofNat n) => if n < bound then some n else none
  | _ => none

/-- An integer of a signed word of 64 bits. -/
def toInt64? (l : Literal) : Option Int64 :=
  match l.toInt? with
  | some i => if Int64.minValue.toInt ≤ i && i ≤ Int64.maxValue.toInt then some (Int64.ofInt i)
    else none
  | none => none

/-- The sign, the digits, a point before the fraction, and the exponent. -/
def text (l : Literal) : List Char :=
  (if l.negative then ['-'] else []) ++ l.whole.map Digit.toChar ++
    (if l.fraction.isEmpty then [] else '.' :: l.fraction.map Digit.toChar) ++
    (match l.exponent with
     | none => []
     | some e => 'e' :: ((if e.negative then ['-'] else []) ++ e.digits.map Digit.toChar))

end Literal
end TopOfBook.Json
