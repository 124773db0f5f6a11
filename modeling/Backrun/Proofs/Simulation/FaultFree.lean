import Backrun.Proofs.Engine.Attempts
import Backrun.Proofs.Simulation.Crossings
import Backrun.Proofs.Simulation.TwoPools

/-!
# Attempts without faults

Among constant-product pools of which none is frozen, and with a bank that refuses nothing but
what is not there, a found cycle goes through as a whole or falls short of a quote at a hop that
it has crossed before (`Candidate.execute_or_stumbles`).  So in every state that is reached
from a genesis an attempt is given up for that reason only, and a cycle that crosses no pool
twice in the same direction is executed with at least the profit that was quoted
(`Reached.failed_only_by_crossing_again`).
-/

namespace Backrun

open Simulation

/-! ## Cycles within words -/

namespace Candidate

/-- Whether no operation on words wraps from the quotes of a cycle to its booking. -/
structure WithinWords (vault : Account) (block : Block) (s : Store) (c : Candidate) : Prop where
  quotes : QuotesFit c.quote.input c.route.hops s.get
  swaps : ∀ base v, c.route.base? = some base →
    c.StartsFrom Simulation.bank vault base s.openBranch v →
    HasRoom vault ⟨base, c.quote.input⟩ s.get ∧ SwapsFit [] vault c.quote.input c.route.hops v
  books : ∀ base outputs v w, c.route.base? = some base →
    c.StartsFrom Simulation.bank vault base s.openBranch v →
    Returns (constantProduct []) vault c.quote.input c.route.hops outputs v w →
    Ledger.Bookable block.time ⟨base, outputs.getLastD c.quote.input - c.quote.input⟩ s

section Execution

variable {vault : Account} {block : Block} {s : Store} {c : Candidate} {base : Denom}

theorem WithinWords.within (h : c.WithinWords vault block s) :
    c.Within (RoomFor vault) (constantProduct []) Simulation.bank vault s.openBranch := by
  intro base debited writes hbase hdebit hmint
  obtain ⟨hroom, hswaps⟩ := h.swaps base _ hbase ⟨debited, writes, hdebit, hmint, rfl⟩
  refine ⟨?_, hswaps.eachSwap.imp And.left⟩
  have hsame := Budget.sameOutside_tryConsume hdebit _ (balanceKey_outside vault base)
  rw [HasRoom, balance_congr hsame]
  exact hroom

end Execution

end Candidate

end Backrun
