import Backrun.Proofs.Ledger.Credits

/-!
# How a booking ends

A booking plans the split of a profit and then writes two ledgers one after the other, the fees
before the profits.  In any store whatsoever it ends in one of four ways, which `Ends` lists
together with what is left: the split cannot be planned, the fees reject the share, the profits
reject the profit, or both are entered.

* `Ends`, `book_iff` — a booking ends exactly as `Ends` says.
* `Entered`, `Ends.enters` — what a booking that succeeds does to the amounts.
* `Bookable`, `Overflows` — over records that can be read only the sums are in the way.
-/

namespace Backrun

/-! ## Shares -/

/-- The two parts of a split add up to the profit. -/
theorem Coin.split_adds (profit : Coin) (basisPoints : Nat) :
    (profit.split basisPoints).developer.amount.toNat
      + (profit.split basisPoints).treasury.amount.toNat = profit.amount.toNat := by
  have hshare := Amount.share_le profit.amount basisPoints
  have htreasury : (profit.amount - profit.amount.share basisPoints).toNat
      = profit.amount.toNat - (profit.amount.share basisPoints).toNat :=
    BitVec.toNat_sub_of_le (Amount.le_iff.2 hshare)
  change (profit.amount.share basisPoints).toNat
    + (profit.amount - profit.amount.share basisPoints).toNat = profit.amount.toNat
  omega

/-- A split of a profit: two parts in its denomination that add up to it. -/
structure ProfitSplit.Splits (split : ProfitSplit) (profit : Coin) : Prop where
  developer : split.developer.denom = profit.denom
  treasury : split.treasury.denom = profit.denom
  adds : split.developer.amount.toNat + split.treasury.amount.toNat = profit.amount.toNat

theorem Coin.split_splits (profit : Coin) (basisPoints : Nat) :
    (profit.split basisPoints).Splits profit :=
  ⟨rfl, rfl, Coin.split_adds profit basisPoints⟩

namespace Ledger

variable {s t : Store} {k : Bytes} {e : Error}

/-! ## The age of the module -/

theorem daysSinceGenesis_ok {time : Instant} (h : genesisTime s = .ok time) (now : Instant) :
    daysSinceGenesis now s = .ok (now.daysSince time) := by
  rw [daysSinceGenesis, Query.bind_of_ok h]
  rfl

/-- The age of the module depends on the time at which it began. -/
theorem daysSinceGenesis_congr
    (htime : t.get Key.genesisTime = s.get Key.genesisTime) (now : Instant) :
    daysSinceGenesis now t = daysSinceGenesis now s := by
  have hgenesis : genesisTime t = genesisTime s := Query.load_congr htime _
  rw [daysSinceGenesis, Query.bind_apply, Query.bind_apply, hgenesis]
  rfl

/-! ## The stages of a booking -/

/-- The split of a profit by the stored schedule, on the day of the booking. -/
def planned (now : Instant) (profit : Coin) : Query ProfitSplit := do
  let config ← storedConfig
  let days ← daysSinceGenesis now
  return profit.split (config.schedule.basisPoints days)

/-- Enters a profit by its split. -/
def enter (profit : Coin) (split : ProfitSplit) : Action ProfitSplit := do
  if split.developer.amount ≠ 0 then
    addFees split.developer
  addProfit profit
  return split

variable {now : Instant} {profit : Coin} {split : ProfitSplit}

theorem planned_ok :
    planned now profit s = .ok split ↔ ∃ config days, storedConfig s = .ok config
      ∧ daysSinceGenesis now s = .ok days
      ∧ profit.split (config.schedule.basisPoints days) = split := by
  rw [planned, Query.bind_ok]
  refine exists_congr fun config => ?_
  rw [Query.bind_ok]
  simp

theorem splits_of_planned (h : planned now profit s = .ok split) : split.Splits profit := by
  obtain ⟨config, days, -, -, rfl⟩ := planned_ok.1 h
  exact profit.split_splits _

theorem share_le_of_planned (h : planned now profit s = .ok split) :
    split.developer.amount.toNat ≤ profit.amount.toNat :=
  Nat.le.intro (splits_of_planned h).adds

/-- A plan depends on the configuration and the genesis time only. -/
theorem planned_congr (hconfig : t.get Key.config = s.get Key.config)
    (htime : t.get Key.genesisTime = s.get Key.genesisTime) :
    planned now profit t = planned now profit s := by
  have hstored : storedConfig t = storedConfig s := Query.load_congr hconfig _
  have hdays := daysSinceGenesis_congr htime now
  rw [planned, Query.bind_apply, Query.bind_apply, hstored]
  congr 1
  funext config
  rw [Query.bind_apply, Query.bind_apply, hdays]
  rfl

theorem book_of_planned (h : planned now profit s = .ok split) :
    (book now profit).perform s = (enter profit split).perform s := by
  obtain ⟨config, days, hconfig, hdays, rfl⟩ := planned_ok.1 h
  rw [book, Action.perform_query_bind_of_ok hconfig, Action.perform_query_bind_of_ok hdays]
  rfl

theorem book_of_unplanned (h : planned now profit s = .error e) :
    (book now profit).perform s = (.error e, s) := by
  rcases Query.bind_error.1 h with hconfig | ⟨config, hconfig, h⟩
  · refine Action.perform_bind_of_error ?_ _
    rw [Action.perform_liftQuery, hconfig]
  · rw [book, Action.perform_query_bind_of_ok hconfig]
    rcases Query.bind_error.1 h with hdays | ⟨days, -, hreturn⟩
    · refine Action.perform_bind_of_error ?_ _
      rw [Action.perform_liftQuery, hdays]
    · cases hreturn

/-- The store in which the developer's share is among the fees.  Where there is no share, nothing
is written. -/
def withShare (split : ProfitSplit) (s : Store) : Store :=
  if split.developer.amount = 0 then s else withCoin Key.developerFees split.developer s

theorem withShare_of_no_share (h : split.developer.amount = 0) : withShare split s = s := if_pos h

theorem withShare_of_share (h : split.developer.amount ≠ 0) :
    withShare split s = withCoin Key.developerFees split.developer s := if_neg h

theorem get_withShare_of_ne (s : Store) (h : k ≠ Key.developerFees split.developer.denom) :
    (withShare split s).get k = s.get k := by
  rw [withShare]
  split
  · rfl
  · exact get_withCoin_of_ne s h

theorem get_withShare_profits (s : Store) (d : Denom) :
    (withShare split s).get (Key.profits d) = s.get (Key.profits d) :=
  get_withShare_of_ne s (Key.ne_of_kind (Key.kind_ne (Key.kind_profits d)))

theorem get_withShare_congr (h : t.get = s.get) :
    (withShare split t).get = (withShare split s).get := by
  rw [withShare, withShare]
  split
  · exact h
  · exact get_withCoin_congr h

/-- What is owed grows by the share. -/
theorem owed_withShare
    (h : split.developer.amount ≠ 0 → Takes Key.developerFees split.developer s.get) (d : Denom) :
    (owed (withShare split s).get d).toNat = (owed s.get d).toNat
      + if d = split.developer.denom then split.developer.amount.toNat else 0 := by
  rw [withShare]
  split
  · rename_i hnone
    rw [hnone]
    simp
  · rename_i hshare
    exact amountAt_withCoin Key.developerFees_injective (h hshare) d

theorem enter_of_share_rejected (hshare : split.developer.amount ≠ 0)
    (h : Rejects Key.developerFees split.developer
      (.store (.developerFees split.developer.denom)) s.get e) :
    (enter profit split).perform s = (.error e, s) := by
  have hadd : (addFees split.developer).perform s = (.error e, s) := by
    rw [addFees_eq]
    exact credit_of_rejects _ h
  rw [enter]
  simp only [ne_eq, hshare, not_false_eq_true, if_true]
  exact Action.perform_bind_of_error hadd _

/-- Behind the share the profit decides. -/
theorem enter_of_share_taken
    (h : split.developer.amount ≠ 0 → Takes Key.developerFees split.developer s.get) :
    (enter profit split).perform s
      = (addProfit profit >>= fun _ => pure split).perform (withShare split s) := by
  rw [enter, withShare]
  by_cases hnone : split.developer.amount = 0
  · simp only [ne_eq, hnone, not_true, if_false, if_true]
  · have hadd : (addFees split.developer).perform s
        = (.ok (), withCoin Key.developerFees split.developer s) := by
      rw [addFees_eq]
      exact credit_of_takes _ _ (h hnone)
    simp only [ne_eq, hnone, not_false_eq_true, if_true, if_false]
    exact Action.perform_bind_of_ok hadd _

/-! ## The ends of a booking -/

/-- How a booking ends, and the store that it leaves. -/
inductive Ends (now : Instant) (profit : Coin) (s : Store) :
    Except Error ProfitSplit → Store → Prop
  /-- The configuration or the genesis time is missing or cannot be read. -/
  | unplanned {e : Error} (h : planned now profit s = .error e) : Ends now profit s (.error e) s
  /-- There is a share, and the fees reject it. -/
  | shareRejected {split : ProfitSplit} {e : Error} (hplan : planned now profit s = .ok split)
      (hshare : split.developer.amount ≠ 0)
      (h : Rejects Key.developerFees split.developer
        (.store (.developerFees split.developer.denom)) s.get e) :
      Ends now profit s (.error e) s
  /-- The profits reject the profit, behind the share. -/
  | profitRejected {split : ProfitSplit} {e : Error} (hplan : planned now profit s = .ok split)
      (htaken : split.developer.amount ≠ 0 → Takes Key.developerFees split.developer s.get)
      (h : Rejects Key.profits profit (.store (.profits profit.denom)) s.get e) :
      Ends now profit s (.error e) (withShare split s)
  /-- Both ledgers take what they are to take. -/
  | entered {split : ProfitSplit} (hplan : planned now profit s = .ok split)
      (htaken : split.developer.amount ≠ 0 → Takes Key.developerFees split.developer s.get)
      (h : Takes Key.profits profit s.get) :
      Ends now profit s (.ok split) (withCoin Key.profits profit (withShare split s))

variable {result : Except Error ProfitSplit}

/-- There is an end for every store. -/
theorem exists_ends (now : Instant) (profit : Coin) (s : Store) :
    ∃ result t, Ends now profit s result t := by
  cases hplan : planned now profit s with
  | error e => exact ⟨_, _, .unplanned hplan⟩
  | ok split =>
      have hfees : (split.developer.amount ≠ 0 → Takes Key.developerFees split.developer s.get)
          ∨ ∃ e, split.developer.amount ≠ 0 ∧ Rejects Key.developerFees split.developer
            (.store (.developerFees split.developer.denom)) s.get e := by
        by_cases hnone : split.developer.amount = 0
        · exact .inl (absurd hnone)
        · rcases takes_or_rejects Key.developerFees split.developer
            (.store (.developerFees split.developer.denom)) s.get with htakes | ⟨e, hrejects⟩
          · exact .inl fun _ => htakes
          · exact .inr ⟨e, hnone, hrejects⟩
      rcases hfees with htaken | ⟨e, hshare, hrejects⟩
      · rcases takes_or_rejects Key.profits profit (.store (.profits profit.denom)) s.get with
          htakes | ⟨e, hrejects⟩
        · exact ⟨_, _, .entered hplan htaken htakes⟩
        · exact ⟨_, _, .profitRejected hplan htaken hrejects⟩
      · exact ⟨_, _, .shareRejected hplan hshare hrejects⟩

/-- Each end is the end of the booking. -/
theorem Ends.perform (h : Ends now profit s result t) :
    (book now profit).perform s = (result, t) := by
  cases h with
  | unplanned h => exact book_of_unplanned h
  | shareRejected hplan hshare h =>
      rw [book_of_planned hplan]
      exact enter_of_share_rejected hshare h
  -- The share has left the profits alone, so they answer as they would have before it.
  | @profitRejected split e hplan htaken h =>
      have hadd : (addProfit profit).perform (withShare split s)
          = (.error e, withShare split s) := by
        rw [addProfit_eq]
        exact credit_of_rejects _ (h.congr (get_withShare_profits s _))
      rw [book_of_planned hplan, enter_of_share_taken htaken]
      exact Action.perform_bind_of_error hadd _
  | @entered split hplan htaken h =>
      have hadd : (addProfit profit).perform (withShare split s)
          = (.ok (), withCoin Key.profits profit (withShare split s)) := by
        rw [addProfit_eq]
        exact credit_of_takes _ _ (h.congr (get_withShare_profits s _))
      rw [book_of_planned hplan, enter_of_share_taken htaken, Action.perform_bind_of_ok hadd]
      rfl

/-- A booking ends in one of the four ways, and in no other. -/
theorem book_iff : (book now profit).perform s = (result, t) ↔ Ends now profit s result t := by
  refine ⟨fun h => ?_, Ends.perform⟩
  -- The store has an end, and the run comes to that one, so it is the one given.
  obtain ⟨result', t', hends⟩ := exists_ends now profit s
  rw [hends.perform] at h
  cases h
  exact hends

/-- Stores that hold the same see a booking end alike. -/
theorem Ends.congr {s' : Store} (h : Ends now profit s result t) (heq : s'.get = s.get) :
    ∃ t', Ends now profit s' result t' ∧ t'.get = t.get := by
  have hplanned : planned now profit s' = planned now profit s :=
    planned_congr (congrFun heq _) (congrFun heq _)
  cases h with
  | unplanned h => exact ⟨s', .unplanned (hplanned.trans h), heq⟩
  | shareRejected hplan hshare h =>
      exact ⟨s', .shareRejected (hplanned.trans hplan) hshare (heq ▸ h), heq⟩
  | profitRejected hplan htaken h =>
      exact ⟨_, .profitRejected (hplanned.trans hplan) (heq ▸ htaken) (heq ▸ h),
        get_withShare_congr heq⟩
  | entered hplan htaken h =>
      exact ⟨_, .entered (hplanned.trans hplan) (heq ▸ htaken) (heq ▸ h),
        get_withCoin_congr (get_withShare_congr heq)⟩

/-! ## Profits in the books -/

/-- In no denomination is the developer owed more than was ever earned.  What is not there or
cannot be read counts as nothing. -/
def Covered (v : View) : Prop := ∀ d, owed v d ≤ earned v d

/-- A profit is in the books by its split, and no other record has changed. -/
structure Entered (now : Instant) (profit : Coin) (split : ProfitSplit) (s t : Store) : Prop where
  planned : planned now profit s = .ok split
  fees : ∀ d, (owed t.get d).toNat = (owed s.get d).toNat
    + if d = profit.denom then split.developer.amount.toNat else 0
  profits : ∀ d, (earned t.get d).toNat = (earned s.get d).toNat
    + if d = profit.denom then profit.amount.toNat else 0
  frame : ∀ k, k ≠ Key.developerFees profit.denom → k ≠ Key.profits profit.denom →
    t.get k = s.get k

/-- Both ledgers grow in the denomination of the profit, what is owed by no more than a share. -/
theorem Entered.covered (h : Entered now profit split s t) (hcovered : Covered s.get) :
    Covered t.get := by
  intro d
  have hbefore := Amount.le_iff.1 (hcovered d)
  have hshare := share_le_of_planned h.planned
  rw [Amount.le_iff, h.fees, h.profits]
  split <;> omega

/-- A booking that succeeds has entered the profit. -/
theorem Ends.enters (h : Ends now profit s (.ok split) t) : Entered now profit split s t := by
  cases h with
  | entered hplan htaken h =>
      have hdenom := (splits_of_planned hplan).developer
      have hapart : ∀ d, Key.developerFees d ≠ Key.profits profit.denom :=
        fun d => Key.ne_of_kind (Key.kind_ne (Key.kind_developerFees d))
      refine ⟨hplan, fun d => ?_, fun d => ?_, fun k hfee hprofit => ?_⟩
      · rw [owed, amountAt_congr (get_withCoin_of_ne _ (hapart d)), ← hdenom]
        exact owed_withShare htaken d
      · rw [earned, amountAt_withCoin Key.profits_injective
          (h.congr (get_withShare_profits s _)), amountAt_congr (get_withShare_profits s d)]
        rfl
      · rw [get_withCoin_of_ne _ hprofit, get_withShare_of_ne]
        rwa [hdenom]

/-- Ledgers of coins under their denominations are still such ledgers after a booking. -/
theorem Ends.filed (h : Ends now profit s (.ok split) t)
    (hfees : Filed s.get 0x06 (fun c : Coin => Key.developerFees c.denom) fun _ => True)
    (hprofits : Filed s.get 0x09 (fun c : Coin => Key.profits c.denom) fun _ => True) :
    Filed t.get 0x06 (fun c : Coin => Key.developerFees c.denom) (fun _ => True)
      ∧ Filed t.get 0x09 (fun c : Coin => Key.profits c.denom) fun _ => True := by
  cases h with
  | entered hplan htaken h =>
      have hshare : Filed (withShare split s).get 0x06
          (fun c : Coin => Key.developerFees c.denom) fun _ => True := by
        rw [withShare]
        split
        · exact hfees
        · exact filed_withCoin hfees
      refine ⟨hshare.congr fun k hk => ?_, filed_withCoin (hprofits.congr fun k hk => ?_)⟩
      · exact get_withCoin_of_ne _ (Key.ne_of_kind (Key.kind_ne hk))
      · exact get_withShare_of_ne s (Key.ne_of_kind (Key.kind_ne hk))

/-! ## Books that can be read -/

/-- Whether a profit fits into the books: with it what was ever earned stays an amount, and with
the developer's share of it so does what is owed. -/
structure Bookable (now : Instant) (profit : Coin) (s : Store) : Prop where
  profits : (earned s.get profit.denom).toNat + profit.amount.toNat < Amount.bound
  fees : ∀ config days, storedConfig s = .ok config → daysSinceGenesis now s = .ok days →
    (owed s.get profit.denom).toNat
      + (profit.split (config.schedule.basisPoints days)).developer.amount.toNat < Amount.bound

/-- A profit that does not fit into the books, with the error that says which of them is full. -/
inductive Overflows (now : Instant) (profit : Coin) (s : Store) : Error → Prop
  | fees {config : EngineConfig} {days : Nat} (hconfig : storedConfig s = .ok config)
      (hdays : daysSinceGenesis now s = .ok days)
      (hfull : Amount.bound ≤ (owed s.get profit.denom).toNat
        + (profit.split (config.schedule.basisPoints days)).developer.amount.toNat) :
      Overflows now profit s (.store (.developerFees profit.denom))
  | profits (hfull : Amount.bound ≤ (earned s.get profit.denom).toNat + profit.amount.toNat) :
      Overflows now profit s (.store (.profits profit.denom))

/-- Books that can be read take every profit that fits. -/
theorem book_error {config : EngineConfig} {now : Instant} {days : Nat} {profit : Coin} {e : Error}
    (hconfig : storedConfig s = .ok config) (hdays : daysSinceGenesis now s = .ok days)
    (hfees : Legible Coin s.get 0x06) (hprofits : Legible Coin s.get 0x09)
    (h : (book now profit).perform s = (.error e, t)) : Overflows now profit s e := by
  cases book_iff.1 h with
  | unplanned hplan =>
      rw [planned_ok.2 ⟨config, days, hconfig, hdays, rfl⟩] at hplan
      cases hplan
  | shareRejected hplan _ hrejects =>
      obtain ⟨config', days', hconfig', hdays', rfl⟩ := planned_ok.1 hplan
      cases hrejects with
      | illegible hnone =>
          exact absurd hnone (not_illegible_of_legible hfees (Key.kind_developerFees _))
      | full hfull => exact .fees hconfig' hdays' hfull
  | profitRejected _ _ hrejects =>
      cases hrejects with
      | illegible hnone =>
          exact absurd hnone (not_illegible_of_legible hprofits (Key.kind_profits _))
      | full hfull => exact .profits hfull

/-- A profit that fits into books that can be read is booked. -/
theorem book_of_bookable {config : EngineConfig} {now : Instant} {days : Nat} {profit : Coin}
    (hconfig : storedConfig s = .ok config) (hdays : daysSinceGenesis now s = .ok days)
    (hfees : Legible Coin s.get 0x06) (hprofits : Legible Coin s.get 0x09)
    (hfits : Bookable now profit s) : ∃ split t, (book now profit).perform s = (.ok split, t) := by
  rcases hrun : (book now profit).perform s with ⟨e | split, t⟩
  · cases book_error hconfig hdays hfees hprofits hrun with
    | fees hconfig' hdays' hfull =>
        exact absurd (hfits.fees _ _ hconfig' hdays') (Nat.not_lt.2 hfull)
    | profits hfull => exact absurd hfits.profits (Nat.not_lt.2 hfull)
  · exact ⟨split, t, rfl⟩

end Ledger

end Backrun
