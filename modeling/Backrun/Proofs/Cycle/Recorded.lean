import Backrun.Proofs.Engine.Coherent

/-!
# What an executed cycle records

An executed cycle changes four records of the engine: the counter of points, the developer's
fees and the profits of its base denomination, and the number of trades.  `Recorded` says so
of any store whatsoever, in order or not; all that is asked is that the pools and the bank
stay outside the keys of the engine.
-/

namespace Backrun

namespace Ledger

variable {s t : Store} {q : Query Coin} {split : ProfitSplit}

/-! ## Bookings in any store -/

theorem amountOrZero_congr (h : q t = q s) : amountOrZero q t = amountOrZero q s := by
  have hfound : Query.unlessMissing q t = Query.unlessMissing q s := by
    rw [Query.unlessMissing, Query.unlessMissing, h]
  rw [amountOrZero, Query.bind_apply, Query.bind_apply, hfound]
  rcases Query.unlessMissing q s with e | _ | coin <;> rfl

/-- What a booking does to the two records of its denomination: the developer's share is added to
the fees and the whole profit to the profits. -/
structure Posted (s t : Store) (profit : Coin) (split : ProfitSplit) : Prop where
  splits : split.Splits profit
  fees : split.developer.amount ≠ 0 →
    ∃ before total, amountOrZero (Ledger.fees profit.denom) s = .ok before
      ∧ Ledger.fees profit.denom t = .ok ⟨profit.denom, total⟩
      ∧ total.toNat = before.toNat + split.developer.amount.toNat
  /-- Without a share the developer's record is not even rewritten. -/
  noFees : split.developer.amount = 0 →
    t.get (Key.developerFees profit.denom) = s.get (Key.developerFees profit.denom)
  profits : ∃ before total, amountOrZero (Ledger.profit profit.denom) s = .ok before
    ∧ Ledger.profit profit.denom t = .ok ⟨profit.denom, total⟩
    ∧ total.toNat = before.toNat + profit.amount.toNat

/-- Only the two records count. -/
theorem Posted.congr {s' t' : Store} {profit : Coin} (h : Posted s t profit split)
    (hfees : s'.get (Key.developerFees profit.denom) = s.get (Key.developerFees profit.denom))
    (hprofits : s'.get (Key.profits profit.denom) = s.get (Key.profits profit.denom))
    (hfees' : t'.get (Key.developerFees profit.denom) = t.get (Key.developerFees profit.denom))
    (hprofits' : t'.get (Key.profits profit.denom) = t.get (Key.profits profit.denom)) :
    Posted s' t' profit split where
  splits := h.splits
  fees hshare := by
    obtain ⟨before, total, hbefore, htotal, hsum⟩ := h.fees hshare
    exact ⟨before, total, (amountOrZero_congr (Query.load_congr hfees _)).trans hbefore,
      (Query.load_congr hfees' _).trans htotal, hsum⟩
  noFees hnone := by rw [hfees', hfees, h.noFees hnone]
  profits := by
    obtain ⟨before, total, hbefore, htotal, hsum⟩ := h.profits
    exact ⟨before, total, (amountOrZero_congr (Query.load_congr hprofits _)).trans hbefore,
      (Query.load_congr hprofits' _).trans htotal, hsum⟩

/-- A booking posts the profit and its split, and changes no other record. -/
theorem book_posts {now : Instant} {profit : Coin}
    (h : (book now profit).perform s = (.ok split, t)) :
    Posted s t profit split
      ∧ ∀ k, k ≠ Key.developerFees profit.denom → k ≠ Key.profits profit.denom →
        t.get k = s.get k := by
  have hends := book_iff.1 h
  refine ⟨?_, hends.enters.frame⟩
  cases hends with
  | entered hplan htaken htakes =>
      have hsplits := splits_of_planned hplan
      -- The profit is written behind the share, under a key of its own.
      have hfees : ∀ d, (withCoin Key.profits profit (withShare split s)).get (Key.developerFees d)
          = (withShare split s).get (Key.developerFees d) :=
        fun d => get_withCoin_of_ne _ (Key.ne_of_kind (Key.kind_ne (Key.kind_developerFees d)))
      have hprofits : (withShare split s).get (Key.profits profit.denom)
          = s.get (Key.profits profit.denom) := get_withShare_profits s _
      refine ⟨hsplits, fun hshare => ?_, fun hnone => ?_, ?_⟩
      · obtain ⟨before, total, hbefore, htotal, hsum⟩ :=
          (htaken hshare).loads (.developerFees split.developer.denom)
        rw [hsplits.developer] at hbefore htotal
        rw [← withShare_of_share hshare] at htotal
        exact ⟨before, total, hbefore, (Query.load_congr (hfees _) _).trans htotal, hsum⟩
      · rw [hfees, withShare_of_no_share hnone]
      · obtain ⟨before, total, hbefore, htotal, hsum⟩ :=
          (htakes.congr hprofits).loads (.profits profit.denom)
        exact ⟨before, total, (amountOrZero_congr (Query.load_congr hprofits.symm _)).trans hbefore,
          htotal, hsum⟩

/-- Counting a trade adds one to the number of trades. -/
theorem countTrade_ok {count : UInt64} :
    countTrade.perform s = (.ok count, t)
      ↔ ∃ before, trades s = .ok before ∧ count = before + 1
        ∧ t = s.set Key.tradeCount (Codec.encode count) := by
  rw [countTrade, Action.perform_query_bind_ok]
  refine exists_congr fun before => and_congr_right fun _ => ?_
  constructor
  · intro h
    obtain ⟨_, mid, hsave, hreturn⟩ := Action.perform_bind_ok.1 h
    cases hreturn
    exact ⟨rfl, (congrArg Prod.snd hsave).symm⟩
  · rintro ⟨rfl, rfl⟩
    exact Action.perform_bind_ok.2 ⟨(), _, rfl, rfl⟩

theorem trades_of_get {count : UInt64} (h : s.get Key.tradeCount = some (Codec.encode count)) :
    trades s = .ok count := by
  rw [trades, Query.bind_of_ok (Query.find_of_get (Codec.faithful_uint64 count) h)]
  rfl

theorem trades_congr (h : t.get Key.tradeCount = s.get Key.tradeCount) : trades t = trades s := by
  have hfind : Query.find (α := UInt64) Key.tradeCount t = Query.find Key.tradeCount s := by
    rw [Query.find, Query.find, h]
  rw [trades, Query.bind_apply, Query.bind_apply, hfind]
  rcases Query.find (α := UInt64) Key.tradeCount s with e | _ | count <;> rfl

end Ledger

namespace Budget

variable {s t : Store}

/-- A debit adds its points to the counter, whatever the ceilings are: what is left of the
block keeps the sum within a word. -/
theorem counter_of_tryConsume {points : UInt64} {u : Unit}
    (h : (tryConsume points).perform s = (.ok u, t)) :
    ∃ counted counted' : PointCounter, counter s = .ok counted ∧ counted'.height = counted.height
      ∧ counted'.consumed.toNat = counted.consumed.toNat + points.toNat
      ∧ t = s.set Key.pointCounter (Codec.encode counted') := by
  obtain ⟨b, hstate, -, hfits, rfl⟩ := tryConsume_ok.1 h
  obtain ⟨config, counted, -, hcounted, rfl⟩ := state_ok.1 hstate
  refine ⟨counted, ⟨counted.consumed + points, counted.height⟩, hcounted, rfl, ?_, rfl⟩
  rw [UInt64.le_iff_toNat_le, BudgetState.toNat_remaining] at hfits
  have hceiling := config.pointsPerBlock.toNat_lt
  have hconsumed := counted.consumed.toNat_lt
  change points.toNat ≤ config.pointsPerBlock.toNat - counted.consumed.toNat at hfits
  change (counted.consumed + points).toNat = counted.consumed.toNat + points.toNat
  rw [UInt64.toNat_add, Nat.mod_eq_of_lt]
  omega

end Budget

/-! ## Executed cycles -/

/-- What an executed cycle does to the records of the engine: its points are consumed, its profit
is posted, one more trade is counted, and every other record stays as it is. -/
structure Recorded (s t : Store) (done : Trade) : Prop where
  counter : ∃ counted counted', Budget.counter s = .ok counted ∧ Budget.counter t = .ok counted'
    ∧ counted'.height = counted.height
    ∧ counted'.consumed.toNat = counted.consumed.toNat + done.points.toNat
  posted : Ledger.Posted s t done.profit done.split
  trades : ∃ count, Ledger.trades s = .ok count ∧ Ledger.trades t = .ok (count + 1)
  frame : ∀ k, Key.IsEngine k → k ≠ Key.pointCounter → k ≠ Key.developerFees done.profit.denom →
    k ≠ Key.profits done.profit.denom → k ≠ Key.tradeCount → t.get k = s.get k

namespace Candidate

variable {e : Engine} {c : Candidate} {block : Block} {base : Denom} {done : Trade} {s t : Store}

/-- The stages of a cycle leave its records: the debit the counter, the booking the posting and
the count the number of trades. -/
theorem executeFrom_recorded (hout : e.StaysOutside)
    (hdone : (c.executeFrom base e.market e.bank e.vault block).perform s = (.ok done, t)) :
    Recorded s t done := by
  obtain ⟨debited, minted, swapped, burned, booked, output, split, count, hdebit, hmint, hswap, -,
    hburn, hbook, hcount, rfl⟩ := executeFrom_ok.1 hdone
  obtain ⟨counted, counted', hcounted, hheight, hconsumed, rfl⟩ :=
    Budget.counter_of_tryConsume hdebit
  have houtside := sameEngine_of_stages hout hmint hswap hburn
  obtain ⟨hposted, hbookFrame⟩ := Ledger.book_posts hbook
  obtain ⟨before, hbefore, rfl, rfl⟩ := Ledger.countTrade_ok.1 hcount
  dsimp only at hposted hbookFrame
  -- Up to the booking only the counter has changed among the records.
  have hburned : ∀ k, Key.IsEngine k → k ≠ Key.pointCounter → burned.get k = s.get k := by
    intro k hk hne
    rw [houtside k hk, Store.get_set_of_ne s _ hne]
  have hfeeKey : burned.get (Key.developerFees base) = s.get (Key.developerFees base) :=
    hburned _ (Key.isEngine_of_kind (Key.kind_developerFees base))
      (Key.ne_of_kind (Key.kind_ne (Key.kind_developerFees _)))
  have hprofitKey : burned.get (Key.profits base) = s.get (Key.profits base) :=
    hburned _ (Key.isEngine_of_kind (Key.kind_profits base))
      (Key.ne_of_kind (Key.kind_ne (Key.kind_profits _)))
  have hbooked : ∀ k, k ≠ Key.tradeCount →
      (booked.set Key.tradeCount (Codec.encode (before + 1))).get k = booked.get k :=
    fun k hk => Store.get_set_of_ne booked _ hk
  refine ⟨⟨counted, counted', hcounted, ?_, hheight, hconsumed⟩, ?_, ⟨before, ?_, ?_⟩, ?_⟩
  · refine Query.load_of_get (PointCounter.faithful counted') ?_ _
    rw [hbooked _ (by decide), hbookFrame _ (Key.ne_of_kind (Key.kind_ne Key.kind_pointCounter))
      (Key.ne_of_kind (Key.kind_ne Key.kind_pointCounter)),
      houtside _ (Key.isEngine_of_kind Key.kind_pointCounter)]
    exact Store.get_set_self s _ _
  · exact hposted.congr hfeeKey.symm hprofitKey.symm
      (hbooked _ (Key.ne_of_kind (Key.kind_ne (Key.kind_developerFees _))))
      (hbooked _ (Key.ne_of_kind (Key.kind_ne (Key.kind_profits _))))
  · rw [← hbefore]
    refine (Ledger.trades_congr ?_).symm
    rw [hbookFrame _ (Key.ne_of_kind (Key.kind_ne Key.kind_tradeCount))
      (Key.ne_of_kind (Key.kind_ne Key.kind_tradeCount)),
      hburned _ (Key.isEngine_of_kind Key.kind_tradeCount) (by decide)]
  · exact Ledger.trades_of_get (Store.get_set_self booked _ _)
  · intro k hk hcounter hfees hprofits htrades
    rw [hbooked k htrades, hbookFrame k hfees hprofits, hburned k hk hcounter]

/-- The profit of an executed cycle is split as planned in the store in which the cycle began. -/
theorem executeFrom_planned (hout : e.StaysOutside)
    (hdone : (c.executeFrom base e.market e.bank e.vault block).perform s = (.ok done, t)) :
    Ledger.planned block.time done.profit s = .ok done.split := by
  obtain ⟨debited, minted, swapped, burned, booked, output, split, count, hdebit, hmint, hswap, -,
    hburn, hbook, -, rfl⟩ := executeFrom_ok.1 hdone
  obtain ⟨_, _, -, -, -, rfl⟩ := Budget.counter_of_tryConsume hdebit
  have houtside := sameEngine_of_stages hout hmint hswap hburn
  rw [← (Ledger.book_iff.1 hbook).enters.planned]
  refine Ledger.planned_congr ?_ ?_
  · rw [houtside _ (Key.isEngine_of_kind Key.kind_config), Store.get_set_of_ne s _ (by decide)]
  · rw [houtside _ (Key.isEngine_of_kind Key.kind_genesisTime),
      Store.get_set_of_ne s _ (by decide)]

theorem execute_planned (hout : e.StaysOutside)
    (hdone : (c.execute e.market e.bank e.vault block).perform s = (.ok done, t)) :
    Ledger.planned block.time done.profit s = .ok done.split := by
  obtain ⟨base, last, -, -, hlast, -⟩ := execute_ok.1 hdone
  rw [← executeFrom_planned hout hlast]
  exact (Ledger.planned_congr (Store.get_openBranch s _) (Store.get_openBranch s _)).symm

/-- An executed cycle returns more of its base denomination than went in, and the engine records
what it has earned. -/
theorem execute_recorded (hout : e.StaysOutside)
    (hdone : (c.execute e.market e.bank e.vault block).perform s = (.ok done, t)) :
    Recorded s t done := by
  obtain ⟨base, last, -, -, hlast, rfl⟩ := execute_ok.1 hdone
  obtain ⟨⟨counted, counted', hcounted, hcounted', hsum⟩, hposted, ⟨count, hcount, hcount'⟩,
    hframe⟩ := executeFrom_recorded hout hlast
  have hview : ∀ k, last.commit.get k = last.get k := Store.get_commit last
  have hopen : ∀ k, s.get k = s.openBranch.get k := fun k => (Store.get_openBranch s k).symm
  exact ⟨⟨counted, counted', (Query.load_congr (hopen _) _).trans hcounted,
      (Query.load_congr (hview _) _).trans hcounted', hsum⟩,
    hposted.congr (hopen _) (hopen _) (hview _) (hview _),
    ⟨count, (Ledger.trades_congr (hopen _)).trans hcount,
      (Ledger.trades_congr (hview _)).trans hcount'⟩,
    fun k hk hcounter hfees hprofits htrades =>
      (hview k).trans (hframe k hk hcounter hfees hprofits htrades)⟩

end Candidate

end Backrun
