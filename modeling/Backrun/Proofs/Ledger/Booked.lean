import Backrun.Proofs.Config.Valid
import Backrun.Proofs.Instant.Text
import Backrun.Proofs.Ledger.Bookings

/-!
# The books in order

`Booked` says of a view that the genesis time and the number of trades are there, that fees
and profits are coins under their own denominations, and that no more is owed to the
developer than was ever earned.  Booking a profit and paying out keep it so.
-/

namespace Backrun

namespace Ledger

/-! ## Counting -/

/-- A trade can be counted where the number of trades can be read. -/
theorem countTrade_of_legible {s : Store} (h : Legible UInt64 s.get 0x08) :
    ∃ count t, countTrade.perform s = (.ok count, t) := by
  have htrades : trades s = .ok (((s.get Key.tradeCount).bind Codec.decode?).getD 0) := by
    rw [trades, Query.bind_of_ok (h.find_eq Key.kind_tradeCount)]
    rcases (s.get Key.tradeCount).bind (Codec.decode? (α := UInt64)) with _ | count <;> rfl
  rw [countTrade, Action.perform_query_bind_of_ok htrades]
  exact ⟨_, _, rfl⟩

end Ledger

/-! ## The books -/

/-- A view holds a genesis time and a number of trades, each alone in its kind. -/
structure Dated (v : View) : Prop where
  time : ∃ time : Instant, v Key.genesisTime = some (Codec.encode time)
  trades : ∃ count : UInt64, v Key.tradeCount = some (Codec.encode count)
  onlyTime : ∀ k b, Key.kind k = some 0x07 → v k = some b → k = Key.genesisTime
  onlyTrades : ∀ k b, Key.kind k = some 0x08 → v k = some b → k = Key.tradeCount

/-- A view is dated and holds fees and profits by denomination, no more fees than profits. -/
structure Booked (v : View) : Prop where
  dated : Dated v
  fees : Filed v 0x06 (fun c : Coin => Key.developerFees c.denom) fun _ => True
  profits : Filed v 0x09 (fun c : Coin => Key.profits c.denom) fun _ => True
  covered : ∀ d, Ledger.owed v d ≤ Ledger.earned v d

namespace Dated

variable {v w : View} {s : Store}

theorem congr (h : Dated v) (heq : ∀ k, Key.kind k = some 0x07 ∨ Key.kind k = some 0x08 →
    w k = v k) : Dated w where
  time := by
    obtain ⟨time, htime⟩ := h.time
    exact ⟨time, (heq _ (.inl rfl)).trans htime⟩
  trades := by
    obtain ⟨count, hcount⟩ := h.trades
    exact ⟨count, (heq _ (.inr rfl)).trans hcount⟩
  onlyTime k b hk hb := h.onlyTime k b hk ((heq k (.inl hk)).symm.trans hb)
  onlyTrades k b hk hb := h.onlyTrades k b hk ((heq k (.inr hk)).symm.trans hb)

theorem legibleTime (h : Dated v) : Legible Instant v 0x07 := by
  obtain ⟨time, htime⟩ := h.time
  exact legible_of_only (Instant.faithful time) htime h.onlyTime

theorem legibleTrades (h : Dated v) : Legible UInt64 v 0x08 := by
  obtain ⟨count, hcount⟩ := h.trades
  exact legible_of_only (Codec.faithful_uint64 count) hcount h.onlyTrades

theorem setTrades (h : Dated s.get) (count : UInt64) :
    Dated (s.set Key.tradeCount (Codec.encode count)).get where
  time := by
    obtain ⟨time, htime⟩ := h.time
    exact ⟨time, (Store.get_set_of_ne s _ (by decide)).trans htime⟩
  trades := ⟨count, Store.get_set_self s _ _⟩
  onlyTime k b hk hb := by
    have hne : k ≠ Key.tradeCount := Key.ne_of_kind (Key.kind_ne hk)
    rw [Store.get_set_of_ne s _ hne] at hb
    exact h.onlyTime k b hk hb
  onlyTrades k b hk hb := by
    refine Classical.byContradiction fun hne => hne (h.onlyTrades k b hk ?_)
    rw [Store.get_set_of_ne s _ hne] at hb
    exact hb

end Dated

namespace Booked

variable {v w : View} {s t : Store}

theorem congr (h : Booked v) (heq : ∀ k, Key.IsBook k → w k = v k) : Booked w where
  dated := h.dated.congr fun k hk => heq k (hk.elim (fun hk => .inr (.inl hk))
    fun hk => .inr (.inr (.inl hk)))
  fees := h.fees.congr fun k hk => heq k (.inl hk)
  profits := h.profits.congr fun k hk => heq k (.inr (.inr (.inr hk)))
  covered d := by
    have howed : Ledger.owed w d = Ledger.owed v d := Ledger.amountAt_congr (heq _ (.inl rfl))
    have hearned : Ledger.earned w d = Ledger.earned v d :=
      Ledger.amountAt_congr (heq _ (.inr (.inr (.inr rfl))))
    rw [howed, hearned]
    exact h.covered d

/-- Booking a profit credits the developer with a share of it and adds all of it to what was
earned. -/
theorem book (h : Booked s.get) {now : Instant} {profit : Coin} {split : ProfitSplit}
    (hbook : (Ledger.book now profit).perform s = (.ok split, t)) :
    Booked t.get
      ∧ (∀ d, (Ledger.owed t.get d).toNat = (Ledger.owed s.get d).toNat
        + if d = profit.denom then split.developer.amount.toNat else 0)
      ∧ (∀ d, (Ledger.earned t.get d).toNat = (Ledger.earned s.get d).toNat
        + if d = profit.denom then profit.amount.toNat else 0)
      ∧ ∀ k, Key.kind k ≠ some 0x06 → Key.kind k ≠ some 0x09 → t.get k = s.get k := by
  have hends := Ledger.book_iff.1 hbook
  have hentered := hends.enters
  have hframe : ∀ k, Key.kind k ≠ some 0x06 → Key.kind k ≠ some 0x09 → t.get k = s.get k :=
    fun k hfee hprofit => hentered.frame k
      (fun heq => hfee (heq ▸ Key.kind_developerFees _))
      (fun heq => hprofit (heq ▸ Key.kind_profits _))
  obtain ⟨hfees, hprofits⟩ := hends.filed h.fees h.profits
  refine ⟨⟨?_, hfees, hprofits, hentered.covered h.covered⟩, hentered.fees, hentered.profits,
    hframe⟩
  refine h.dated.congr fun k hk => ?_
  rcases hk with hk | hk <;> exact hframe k (Key.kind_ne hk) (Key.kind_ne hk)

/-- What is owed to the developer stays below what was ever earned, so a profit fits if the latter
stays an amount. -/
theorem bookable (h : Booked s.get) (now : Instant) {profit : Coin}
    (hfits : (Ledger.earned s.get profit.denom).toNat + profit.amount.toNat < Amount.bound) :
    Ledger.Bookable now profit s where
  profits := hfits
  fees config days _ _ := by
    have hcovered := Amount.le_iff.1 (h.covered profit.denom)
    have hshare : (profit.split (config.schedule.basisPoints days)).developer.amount.toNat
        ≤ profit.amount.toNat := Amount.share_le profit.amount _
    omega

/-- Counting a trade changes the number of trades only. -/
theorem countTrade (h : Booked s.get) {count : UInt64}
    (hcount : Ledger.countTrade.perform s = (.ok count, t)) :
    Booked t.get ∧ t = s.set Key.tradeCount (Codec.encode count) := by
  rw [Ledger.countTrade, Action.perform_query_bind_ok] at hcount
  obtain ⟨before, -, hcount⟩ := hcount
  obtain ⟨_, mid, hsave, hreturn⟩ := Action.perform_bind_ok.1 hcount
  cases hreturn
  have ht : t = s.set Key.tradeCount (Codec.encode (before + 1)) := (congrArg Prod.snd hsave).symm
  have hframe : ∀ k, Key.kind k ≠ some 0x08 → t.get k = s.get k := by
    intro k hk
    rw [ht]
    exact Store.get_set_of_ne s _ (Key.ne_of_kind hk)
  refine ⟨⟨?_, ?_, ?_, ?_⟩, ht⟩
  · rw [ht]
    exact h.dated.setTrades _
  · exact h.fees.congr fun k hk => hframe k (Key.kind_ne hk)
  · exact h.profits.congr fun k hk => hframe k (Key.kind_ne hk)
  · intro d
    have howed : Ledger.owed t.get d = Ledger.owed s.get d :=
      Ledger.amountAt_congr (hframe _ (Key.kind_ne (Key.kind_developerFees _)))
    have hearned : Ledger.earned t.get d = Ledger.earned s.get d :=
      Ledger.amountAt_congr (hframe _ (Key.kind_ne (Key.kind_profits _)))
    rw [howed, hearned]
    exact h.covered d

/-- With all fees gone nothing is owed. -/
theorem clearFees (h : Booked s.get) (hnone : ∀ k, Key.kind k = some 0x06 → t.get k = none)
    (hframe : ∀ k, Key.IsBook k → Key.kind k ≠ some 0x06 → t.get k = s.get k) :
    Booked t.get where
  dated := by
    refine h.dated.congr fun k hk => ?_
    rcases hk with hk | hk
    · exact hframe k (.inr (.inl hk)) (Key.kind_ne hk)
    · exact hframe k (.inr (.inr (.inl hk))) (Key.kind_ne hk)
  fees k b hk hb := by
    rw [hnone k hk] at hb
    exact absurd hb (by simp)
  profits := h.profits.congr fun k hk => hframe k (.inr (.inr (.inr hk))) (Key.kind_ne hk)
  covered d := by
    rw [Ledger.owed, Ledger.amountAt_of_none (hnone _ (Key.kind_developerFees d)), Amount.le_iff]
    exact Nat.zero_le _

end Booked

end Backrun
