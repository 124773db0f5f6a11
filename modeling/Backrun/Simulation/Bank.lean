import Backrun.Market.Basic

/-!
# A simulated bank

Balances are records of the store, so that a discarded branch takes them back with
everything else.  Sums work modulo the word.
-/

namespace Backrun.Simulation

/-- Where the balance of an account is kept. -/
def balanceKey (a : Account) (d : Denom) : Bytes := 0xF1 :: (a.bytes ++ 0x00 :: d.bytes)

/-- The record under a key, if it can be read. -/
def record? {α : Type} [Codec α] (v : View) (k : Bytes) : Option α :=
  match v k with
  | some bytes => Codec.decode? bytes
  | none => none

/-- What an account holds, zero if nothing was ever recorded.  Only balances are kept here; bytes
that are none count as zero too, where the simulated bank stops. -/
def balance (a : Account) (d : Denom) (v : View) : Amount := (record? v (balanceKey a d)).getD 0

/-- What an account holds at this point of an effect. -/
def currentBalance (a : Account) (d : Denom) : Effect Amount := fun v => (.ok (balance a d v), [])

/-- Adds coins to an account. -/
def credit (a : Account) (c : Coin) : Effect Unit := do
  let current ← currentBalance a c.denom
  Effect.save (balanceKey a c.denom) (current + c.amount)

/-- Takes coins from an account that has them. -/
def debit (a : Account) (c : Coin) : Effect Unit := do
  let current ← currentBalance a c.denom
  match current.checkedSub c.amount with
  | some rest => Effect.save (balanceKey a c.denom) rest
  | none =>
      Effect.refuse ("insufficient funds: " ++ a.text ++ " has " ++ current.text ++ ", needs "
        ++ c.text)

/-- A bank that refuses nothing but overdrafts. -/
def bank : Bank where
  balance := balance
  transfer source target c := do
    debit source c
    credit target c
  mint := credit
  burn := debit

end Backrun.Simulation
