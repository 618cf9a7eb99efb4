/-! Quantities are whole shares in a 64-bit word. Adding and taking away say so when the result
would leave the word; a total over many quantities is a plain natural number. -/

namespace TopOfBook

structure Quantity where
  shares : UInt64
deriving DecidableEq, Repr, Inhabited

namespace Quantity

def zero : Quantity := ⟨0⟩

/-- The largest number of shares a quantity can hold. -/
def maximum : Nat := UInt64.size - 1

def isZero (q : Quantity) : Bool := q.shares == 0

def toNat (q : Quantity) : Nat := q.shares.toNat

def add? (a b : Quantity) : Option Quantity :=
  if a.toNat + b.toNat ≤ maximum then some ⟨a.shares + b.shares⟩ else none

def sub? (a b : Quantity) : Option Quantity :=
  if b.toNat ≤ a.toNat then some ⟨a.shares - b.shares⟩ else none

/-- The mathematical sum of the shares, free of any word size. -/
def total : List Quantity → Nat
  | [] => 0
  | q :: rest => q.toNat + total rest

def render (q : Quantity) : String := Nat.repr q.toNat

end Quantity
end TopOfBook
