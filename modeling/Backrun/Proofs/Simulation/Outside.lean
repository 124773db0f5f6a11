import Backrun.Proofs.Engine.Operation
import Backrun.Proofs.Store.Views
import Backrun.Simulation.Bonus
import Backrun.Simulation.ConstantProduct
import Backrun.Simulation.Disturbance

/-!
# The simulated pools and the simulated bank stay outside

Balances and pools have leading bytes of their own, above those of the engine, and a
disturbance adds no other writes.
-/

namespace Backrun

namespace Effect

variable {α β : Type} {a : Effect α} {v : View} {writes : List Write}

/-- The second effect sees the writes of the first. -/
theorem bind_of_ok {x : α} (h : a v = (.ok x, writes)) (f : α → Effect β) :
    (a >>= f) v = ((f x (v.afterAll writes)).1, writes ++ (f x (v.afterAll writes)).2) := by
  simp only [bind, h]
  rfl

theorem bind_of_error {fault : Fault} (h : a v = (.error fault, writes)) (f : α → Effect β) :
    (a >>= f) v = (.error fault, writes) := by
  simp only [bind, h]

end Effect

namespace Effect.IsOutside

variable {α β : Type}

theorem pure (a : α) : IsOutside (Pure.pure a : Effect α) :=
  fun _ _ hw => absurd hw List.not_mem_nil

theorem refuse (fault : Fault) : IsOutside (Effect.refuse fault : Effect α) :=
  fun _ _ hw => absurd hw List.not_mem_nil

theorem inspect (i : Inspection α) : IsOutside (liftM i : Effect α) :=
  fun _ _ hw => absurd hw List.not_mem_nil

theorem save [Codec α] {k : Bytes} (hk : ¬ Key.IsEngine k) (a : α) :
    IsOutside (Effect.save k a) := by
  intro v w hw
  rw [List.mem_singleton.1 hw]
  exact hk

theorem bind {a : Effect α} {f : α → Effect β} (ha : IsOutside a) (hf : ∀ x, IsOutside (f x)) :
    IsOutside (a >>= f) := by
  intro v w hw
  have hfirst := ha v
  rcases heq : a v with ⟨fault | x, writes⟩
  · rw [bind_of_error heq] at hw
    rw [heq] at hfirst
    exact hfirst w hw
  · rw [bind_of_ok heq] at hw
    rw [heq] at hfirst
    rcases List.mem_append.1 hw with hw | hw
    · exact hfirst w hw
    · exact hf x _ w hw

end Effect.IsOutside

namespace Simulation

theorem kind_balanceKey (a : Account) (d : Denom) : Key.kind (balanceKey a d) = some 0xF1 := rfl

theorem kind_poolKey (id : PoolId) : Key.kind (poolKey id) = some 0xF0 := rfl

theorem balanceKey_outside (a : Account) (d : Denom) : ¬ Key.IsEngine (balanceKey a d) :=
  Key.not_isEngine_of_kind (kind_balanceKey a d)

theorem poolKey_outside (id : PoolId) : ¬ Key.IsEngine (poolKey id) :=
  Key.not_isEngine_of_kind (kind_poolKey id)

theorem credit_outside (a : Account) (c : Coin) : (credit a c).IsOutside :=
  .bind (fun _ _ hw => absurd hw List.not_mem_nil) fun _ => .save (balanceKey_outside a c.denom) _

theorem debit_outside (a : Account) (c : Coin) : (debit a c).IsOutside := by
  refine .bind (fun _ _ hw => absurd hw List.not_mem_nil) fun current => ?_
  split
  · exact .save (balanceKey_outside a c.denom) _
  · exact .refuse _

theorem bank_staysOutside : bank.StaysOutside where
  transfer source target c := .bind (debit_outside source c) fun _ => credit_outside target c
  mint := credit_outside
  burn := debit_outside

theorem bonusPools_staysOutside (pools : List BonusPool) : (bonusPools pools).StaysOutside where
  swap sender hop input :=
    .bind (.inspect (quoteBonus pools hop input)) fun _ =>
      .bind (debit_outside sender _) fun _ => .bind (credit_outside sender _) fun _ => .pure _

theorem constantProduct_staysOutside (frozen : List PoolId) :
    (constantProduct frozen).StaysOutside where
  swap sender hop input := by
    show (swapPool frozen sender hop input).IsOutside
    rw [swapPool]
    split
    · exact .refuse _
    · refine .bind (.inspect _) fun pool => .bind (.inspect _) fun reserves => ?_
      dsimp only
      split
      · exact .refuse _
      · exact .bind (debit_outside sender _) fun _ => .bind (credit_outside sender _) fun _ =>
          .bind (.save (poolKey_outside hop.poolId) _) fun _ => .pure _

namespace Disturbance

variable (d : Disturbance)

theorem guard_outside {blocked : List Denom} {c : Coin} {fault : Fault} {effect : Effect Unit}
    (h : effect.IsOutside) : (guard blocked c fault effect).IsOutside := by
  rw [guard]
  split
  · exact .refuse _
  · exact h

theorem bank_staysOutside {b : Bank} (h : b.StaysOutside) : (d.bank b).StaysOutside where
  transfer source target c := guard_outside (h.transfer source target c)
  mint a c := guard_outside (h.mint a c)
  burn a c := guard_outside (h.burn a c)

theorem shift_outside (delta : Int) (sender : Account) (hop : Hop) (output : Amount) :
    (shift delta sender hop output).IsOutside := by
  unfold shift
  split
  · exact .pure _
  · exact .bind (credit_outside sender _) fun _ => .pure _
  · exact .bind (debit_outside sender _) fun _ => .pure _

theorem market_staysOutside {m : Market} (h : m.StaysOutside) : (d.market m).StaysOutside where
  swap sender hop input := by
    refine .bind (h.swap sender hop input) fun output => ?_
    split
    · exact shift_outside _ sender hop output
    · exact .pure _

end Disturbance

/-- A simulated engine stays outside, whatever is made to go wrong with it. -/
theorem disturbed_staysOutside (d : Disturbance) (pools : List BonusPool)
    (vault authority : Account) :
    Engine.StaysOutside ⟨d.market (bonusPools pools), d.bank bank, vault, authority⟩ :=
  ⟨d.market_staysOutside (bonusPools_staysOutside pools), d.bank_staysOutside bank_staysOutside⟩

end Simulation

end Backrun
