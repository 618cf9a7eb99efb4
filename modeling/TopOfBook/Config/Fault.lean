/-! What can be wrong with the values of a configuration. -/

namespace TopOfBook

inductive ConfigFault
  | invertedRange (min max : UInt64)
  | tooFewCuts (count : Nat)
  | unsortedCuts (previous next : UInt64)
  | invalidShards (shards : UInt64) (limit : UInt64)
  | notPositive (field : String)
  | notAboveOne (field : String) (value : UInt64)
deriving DecidableEq, Repr

def ConfigFault.message : ConfigFault → String
  | invertedRange min max =>
    "Invalid integer range: min " ++ Nat.repr min.toNat ++ " is larger than max " ++
      Nat.repr max.toNat
  | tooFewCuts count =>
    "Explicit cuts binning requires at least 2 cuts, got " ++ Nat.repr count
  | unsortedCuts previous next =>
    "Explicit cuts must be strictly increasing, found " ++ Nat.repr previous.toNat ++
      " followed by " ++ Nat.repr next.toNat
  | invalidShards shards limit =>
    "Invalid shard count " ++ Nat.repr shards.toNat ++ ", must be between 1 and " ++
      Nat.repr limit.toNat
  | notPositive field => "Invalid configuration: " ++ field ++ " must be positive"
  | notAboveOne field value =>
    "Invalid configuration: " ++ field ++ " must be greater than 1, got " ++ Nat.repr value.toNat

end TopOfBook
