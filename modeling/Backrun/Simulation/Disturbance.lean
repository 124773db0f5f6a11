import Backrun.Simulation.Bank

/-!
# Disturbances

What can be made to go wrong with a market and a bank: refusals by pool or by
denomination, and swaps that return more or less than the pool would.
-/

namespace Backrun.Simulation

/-- What goes wrong. -/
structure Disturbance where
  mint : List Denom
  burn : List Denom
  transfer : List Denom
  /-- Pools without quotes. -/
  quote : List PoolId
  /-- By pool, how much more a swap returns. -/
  swap : List (PoolId × Int)
  deriving DecidableEq, Repr

namespace Disturbance

/-- Nothing goes wrong. -/
def none : Disturbance := ⟨[], [], [], [], []⟩

/-- Refuses coins of blocked denominations before anything else. -/
def guard (blocked : List Denom) (c : Coin) (fault : Fault) (effect : Effect Unit) : Effect Unit :=
  if c.denom ∈ blocked then Effect.refuse fault else effect

/-- A bank that refuses blocked denominations. -/
def bank (d : Disturbance) (b : Bank) : Bank where
  balance := b.balance
  transfer source target c :=
    guard d.transfer c ("transfers of " ++ c.denom.text ++ " are blocked")
      (b.transfer source target c)
  mint a c := guard d.mint c ("minting " ++ c.denom.text ++ " is blocked") (b.mint a c)
  burn a c := guard d.burn c ("burning " ++ c.denom.text ++ " is blocked") (b.burn a c)

/-- Changes the output of a swap that was made, and the balance with it. -/
def shift (delta : Int) (sender : Account) (hop : Hop) (output : Amount) : Effect Amount :=
  match delta with
  | .ofNat 0 => return output
  | .ofNat more => do
      credit sender ⟨hop.denomOut, BitVec.ofNat 256 more⟩
      return output + BitVec.ofNat 256 more
  | .negSucc less => do
      debit sender ⟨hop.denomOut, BitVec.ofNat 256 (less + 1)⟩
      return output - BitVec.ofNat 256 (less + 1)

/-- A market without some quotes, and with shifted outputs of swaps. -/
def market (d : Disturbance) (m : Market) : Market where
  poolType := m.poolType
  quote hop input :=
    if hop.poolId ∈ d.quote then throw ("pool " ++ toString hop.poolId ++ " has no quote")
    else m.quote hop input
  swap sender hop input := do
    let output ← m.swap sender hop input
    match d.swap.lookup hop.poolId with
    | some delta => shift delta sender hop output
    | Option.none => return output

end Disturbance

end Backrun.Simulation
