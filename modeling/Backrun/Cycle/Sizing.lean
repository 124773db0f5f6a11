import Backrun.Budget.Cost
import Backrun.Market.Basic

/-!
# Sizing a cycle

A cycle is priced by passing an input through the quotes of its hops.  The input is
a multiple of a step; a binary search over the multiples looks for the peak of the
profit, and settles on the smaller of two inputs that earn the same.
-/

namespace Backrun

/-- What a cycle would return for one input. -/
structure Quote where
  input : Amount
  /-- The output of each hop in order. -/
  outputs : List Amount
  /-- What is left of the last output, zero where the cycle loses. -/
  profit : Amount
  deriving DecidableEq, Repr

namespace Route

/-- The quoted output of each hop, the first one fed with the given amount. -/
def quoteHops (market : Market) (amount : Amount) : List Hop → Query (List Amount)
  | [] => return []
  | hop :: rest => do
      let output ← Query.inspect (market.quote hop amount) fun fault =>
        .notFound (.quote hop fault)
      let outputs ← quoteHops market output rest
      return output :: outputs

/-- What a cycle would return for an input. -/
def quote (market : Market) (r : Route) (input : Amount) : Query Quote := do
  let outputs ← quoteHops market input r.hops
  return ⟨input, outputs, (outputs.getLastD input).saturatingSub input⟩

/-- Halves the range of multiples between `low` and `high` at most `rounds` times, towards
the larger profit, and returns the lower end. -/
def narrow (profit : Nat → Query Amount) : Nat → Nat → Nat → Query Nat
  | 0, low, _ => return low
  | rounds + 1, low, high =>
      if low < high then do
        let middle := low + (high - low) / 2
        let above ← profit (middle + 1)
        let here ← profit middle
        if here < above then narrow profit rounds (middle + 1) high
        else narrow profit rounds low middle
      else return low

/-- What a cycle would return for a multiple of the step. -/
def quoteMultiple (market : Market) (r : Route) (step : Amount) (multiple : Nat) : Query Quote :=
  r.quote market (step.times multiple)

/-- Sizes the input of a cycle within the parameters of the search. -/
def size (market : Market) (r : Route) (step : Amount) (params : SearchParams) : Query Quote := do
  let profit := fun multiple => do
    let quote ← r.quoteMultiple market step multiple
    return quote.profit
  let multiple ← narrow profit params.iterations.toNat 1 (max 1 params.mostSteps.toNat)
  r.quoteMultiple market step multiple

end Route

end Backrun
