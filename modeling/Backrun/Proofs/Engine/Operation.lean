import Backrun.Engine
import Backrun.Proofs.Governance

/-!
# Operations and runs

Everything that can be asked of an engine as one type, and runs as lists of calls.  Every
call names its own engine, so from call to call the pools and the bank may behave
differently; all that is asked of them is to stay outside the keys of the engine.
-/

namespace Backrun

/-- What can be asked of an engine. -/
inductive Operation where
  | postTrade (block : Block) (trade : Hop)
  | govern (caller : Account) (change : Governance.Change)
  | withdrawFees (caller : Account)

/-- What an operation answers. -/
inductive Reply where
  | afterTrade (outcome : PostTrade)
  | changed (result : Except Error Unit)
  | paid (result : Except Error (List Coin))

namespace Reply

/-- The points of the cycle that was executed. -/
def points : Reply → Nat
  | .afterTrade (.executed done) => done.points.toNat
  | _ => 0

end Reply

namespace Engine

/-- What an operation answers, and the store that it leaves. -/
def operate (e : Engine) (op : Operation) (s : Store) : Reply × Store :=
  match op with
  | .postTrade block trade =>
      let (outcome, t) := e.postTrade block trade s
      (.afterTrade outcome, t)
  | .govern caller change =>
      let (result, t) := (change.action e.authority caller).perform s
      (.changed result, t)
  | .withdrawFees caller =>
      let (result, t) := (e.withdrawFees caller).perform s
      (.paid result, t)

end Engine

/-! ## Staying outside -/

/-- An effect that writes no key of the engine, whatever it sees. -/
def Effect.IsOutside {α : Type} (effect : Effect α) : Prop :=
  ∀ (v : View), ∀ w ∈ (effect v).2, ¬ Key.IsEngine w.key

/-- Pools whose swaps write no key of the engine. They may refuse and answer anything. -/
structure Market.StaysOutside (m : Market) : Prop where
  swap : ∀ a hop amount, (m.swap a hop amount).IsOutside

/-- A bank that writes no key of the engine. It may refuse anything. -/
structure Bank.StaysOutside (b : Bank) : Prop where
  transfer : ∀ source target c, (b.transfer source target c).IsOutside
  mint : ∀ a c, (b.mint a c).IsOutside
  burn : ∀ a c, (b.burn a c).IsOutside

/-- Pools and a bank that write no key of the engine. -/
structure Engine.StaysOutside (e : Engine) : Prop where
  market : e.market.StaysOutside
  bank : e.bank.StaysOutside

/-! ## Obliging pools and banks -/

/-- Pools whose swaps return what was ever quoted. -/
def Market.KeepsQuotes (m : Market) : Prop :=
  ∀ ⦃a : Account⦄ ⦃hop : Hop⦄ ⦃amount output : Amount⦄ ⦃v w : View⦄,
    m.quote hop amount v = .ok output → (m.swap a hop amount w).1 = .ok output

/-- A bank that mints and burns whatever it is asked to. -/
structure Bank.Obliges (b : Bank) : Prop where
  mint : ∀ a c v, (b.mint a c v).1 = .ok ()
  burn : ∀ a c v, (b.burn a c v).1 = .ok ()

/-! ## Runs -/

/-- An operation of an engine. -/
structure Call where
  engine : Engine
  operation : Operation

namespace Call

/-- The store that a call leaves. -/
def leave (c : Call) (s : Store) : Store := (c.engine.operate c.operation s).2

/-- What a call answers. -/
def reply (c : Call) (s : Store) : Reply := (c.engine.operate c.operation s).1

/-- The store that calls in order leave. -/
def leaveAll (calls : List Call) (s : Store) : Store := calls.foldl (fun t c => c.leave t) s

@[simp]
theorem leaveAll_nil (s : Store) : leaveAll [] s = s := rfl

@[simp]
theorem leaveAll_cons (c : Call) (calls : List Call) (s : Store) :
    leaveAll (c :: calls) s = leaveAll calls (c.leave s) := rfl

end Call

end Backrun
