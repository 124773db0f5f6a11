import Backrun.Proofs.Ledger.Shares

/-!
# Shares that a failed booking strands

A booking that fails may leave a trace: where the profits reject a profit, the developer's share
of it is already among the fees, and on its own the booking does not take it back.  In a branch
nothing stays of a booking that fails.

* `Stranded` — what is left where a share has been credited without its profit.
* `book_enters_or_strands` — a booking enters a profit or fails, on its own and in a branch.
* `book_strands_share` — without a branch the fees may grow beyond the profits.
-/

namespace Backrun.Ledger

variable {s t : Store} {e : Error} {now : Instant} {profit : Coin} {split : ProfitSplit}
  {result : Except Error ProfitSplit}

/-! ## What a failure leaves -/

/-- A profit has been rejected with its share among the fees, and no other record has changed. -/
structure Stranded (now : Instant) (profit : Coin) (split : ProfitSplit) (e : Error)
    (s t : Store) : Prop where
  planned : planned now profit s = .ok split
  share : split.developer.amount ≠ 0
  rejected : Rejects Key.profits profit (.store (.profits profit.denom)) s.get e
  fees : ∀ d, (owed t.get d).toNat = (owed s.get d).toNat
    + if d = profit.denom then split.developer.amount.toNat else 0
  frame : ∀ k, k ≠ Key.developerFees profit.denom → t.get k = s.get k

theorem Stranded.earned_eq (h : Stranded now profit split e s t) (d : Denom) :
    earned t.get d = earned s.get d :=
  amountAt_congr (h.frame _ (Key.ne_of_kind (Key.kind_ne (Key.kind_profits d))))

/-- A share among the fees without its profit is covered by what was earned before, or not. -/
theorem Stranded.covered_iff (h : Stranded now profit split e s t) (hcovered : Covered s.get) :
    Covered t.get ↔ (owed s.get profit.denom).toNat + split.developer.amount.toNat
      ≤ (earned s.get profit.denom).toNat := by
  constructor
  · intro hafter
    have hdenom := Amount.le_iff.1 (hafter profit.denom)
    rwa [h.fees, if_pos rfl, h.earned_eq] at hdenom
  · intro hroom d
    rw [Amount.le_iff, h.fees, h.earned_eq]
    by_cases hd : d = profit.denom
    · rw [if_pos hd, hd]
      exact hroom
    · rw [if_neg hd]
      exact Amount.le_iff.1 (hcovered d)

/-- A share that is taken stays where it is when the profit is rejected. -/
theorem stranded_of_rejected (hplan : planned now profit s = .ok split)
    (hshare : split.developer.amount ≠ 0) (htakes : Takes Key.developerFees split.developer s.get)
    (h : Rejects Key.profits profit (.store (.profits profit.denom)) s.get e) :
    Stranded now profit split e s (withShare split s) where
  planned := hplan
  share := hshare
  rejected := h
  fees d := by
    rw [← (splits_of_planned hplan).developer]
    exact owed_withShare (fun _ => htakes) d
  frame k hk := by
    refine get_withShare_of_ne s ?_
    rwa [(splits_of_planned hplan).developer]

/-- A booking that fails leaves the store as it was, or the share among the fees. -/
theorem Ends.leaves (h : Ends now profit s (.error e) t) :
    t = s ∨ ∃ split, Stranded now profit split e s t := by
  cases h with
  | unplanned => exact .inl rfl
  | shareRejected => exact .inl rfl
  | @profitRejected split _ hplan htaken h =>
      by_cases hshare : split.developer.amount = 0
      · exact .inl (if_pos hshare)
      · exact .inr ⟨split, stranded_of_rejected hplan hshare (htaken hshare) h⟩

/-- In a branch a booking ends alike, and one that fails leaves the store itself. -/
theorem Ends.atomically (h : Ends now profit s result t) :
    ∃ u, (book now profit).atomically.perform s = (result, u)
      ∧ (∀ split, result = .ok split → u.get = t.get) ∧ ∀ e, result = .error e → u = s := by
  obtain ⟨t', hends, hsame⟩ := h.congr (show s.openBranch.get = s.get from rfl)
  have hrun := hends.perform
  cases result with
  | error e =>
      have hfails : (book now profit).atomically.perform s = (.error e, t'.discard) := by
        rw [Action.perform_atomically, hrun]
      exact ⟨_, hfails, nofun, fun _ _ => (local_book now profit).clean_atomically hfails⟩
  | ok split =>
      refine ⟨t'.commit, Action.perform_atomically_ok.2 ⟨t', hrun, rfl⟩, fun _ _ => ?_, nofun⟩
      rw [← hsame]
      exact funext (Store.get_commit t')

/-- **A booking enters a profit or fails, and a failure may strand the share.**  Whatever the
store, on a day with basis points a booking ends as `Ends` says.  One that succeeds has added the
developer's share by those basis points to the fees and the whole profit to the profits, and
changed no other record.  One that fails has left the store exactly as it was, unless the profits
have rejected the profit behind a share: that share is then among the fees, and they stay covered
exactly if there was room for it.  In a branch the booking ends alike, but then every failure
leaves the store itself, and fees that were covered stay so. -/
theorem book_enters_or_strands (profit : Coin) (hdivisible : Divisible now s) :
    ∃ result t u, (book now profit).perform s = (result, t)
      ∧ Ends now profit s result t
      ∧ (∀ split, result = .ok split → Divided now profit split s
        ∧ Entered now profit split s t ∧ (Covered s.get → Covered t.get))
      ∧ (∀ e, result = .error e → t = s ∨ ∃ split, Divided now profit split s
        ∧ Stranded now profit split e s t
        ∧ (Covered s.get → (Covered t.get
          ↔ (owed s.get profit.denom).toNat + split.developer.amount.toNat
            ≤ (earned s.get profit.denom).toNat)))
      ∧ (book now profit).atomically.perform s = (result, u)
      ∧ (∀ split, result = .ok split → u.get = t.get)
      ∧ (∀ e, result = .error e → u = s)
      ∧ (Covered s.get → Covered u.get) := by
  obtain ⟨result, t, hends⟩ := exists_ends now profit s
  obtain ⟨u, hbranch, hkept, hleft⟩ := hends.atomically
  refine ⟨result, t, u, hends.perform, hends, ?_, ?_, hbranch, hkept, hleft, fun hcovered => ?_⟩
  · rintro split rfl
    have henters := hends.enters
    exact ⟨hdivisible.divided henters.planned, henters, henters.covered⟩
  · rintro e rfl
    exact hends.leaves.imp_right fun ⟨split, h⟩ =>
      ⟨split, hdivisible.divided h.planned, h, h.covered_iff⟩
  · cases result with
    | error e => rwa [hleft e rfl]
    | ok split =>
        rw [hkept split rfl]
        exact hends.enters.covered hcovered

/-! ## Full books -/

open Simulation in
/-- The document of an engine whose developer is owed all that was ever earned, ten units less than
the greatest amount. -/
def brimming : Genesis :=
  { Genesis.standard with
    fees := [⟨osmo, Amount.greatest - 10⟩]
    profits := [⟨osmo, Amount.greatest - 10⟩] }

open Simulation in
/-- Such an engine gives a fifth of what is booked on the first day to its developer, and either
ledger takes up to ten units. -/
theorem exists_brimming : ∃ s, brimming.store.perform Store.empty = (.ok (), s)
    ∧ Covered s.get ∧ Divisible .epoch s ∧ (∀ profit, planned .epoch profit s = .ok (profit.split 2000))
    ∧ owed s.get osmo = Amount.greatest - 10 ∧ earned s.get osmo = Amount.greatest - 10
    ∧ (∀ a : Amount, a.toNat ≤ 10 →
      Takes Key.developerFees ⟨osmo, a⟩ s.get ∧ Takes Key.profits ⟨osmo, a⟩ s.get)
    ∧ ∀ (a : Amount) (full : Error), 10 < a.toNat →
      Rejects Key.profits ⟨osmo, a⟩ full s.get full := by
  have hvalid : brimming.Valid := Genesis.validate_ok.1 (by decide +kernel)
  obtain ⟨s, _, hs, hholds, -⟩ := Genesis.perform_store hvalid Store.empty fun _ _ => rfl
  have hcoherent := Genesis.coherent_of_perform_store hs
  have hfees : Kept s.get 0x06 (fun c : Coin => Key.developerFees c.denom)
      [⟨osmo, Amount.greatest - 10⟩] := hholds.fees
  have hprofits : Kept s.get 0x09 (fun c : Coin => Key.profits c.denom)
      [⟨osmo, Amount.greatest - 10⟩] := hholds.profits
  have hfee := hfees.get (a := ⟨osmo, Amount.greatest - 10⟩) List.mem_cons_self
    (Key.kind_developerFees osmo)
  have hprofit := hprofits.get (a := ⟨osmo, Amount.greatest - 10⟩) List.mem_cons_self
    (Key.kind_profits osmo)
  have howed : owed s.get osmo = Amount.greatest - 10 := amountAt_of_coin hfee
  have hearned : earned s.get osmo = Amount.greatest - 10 := amountAt_of_coin hprofit
  have hfull : (Amount.greatest - 10).toNat + 11 = Amount.bound := by decide
  have htime : genesisTime s = .ok .epoch := Query.load_of_get (Instant.faithful .epoch)
    (hholds.time.get List.mem_cons_self rfl) _
  have hfifth : brimming.config.schedule.basisPoints (Instant.epoch.daysSince .epoch) = 2000 := by
    decide +kernel
  refine ⟨s, hs, hcoherent.books.covered, hcoherent.divisible _, fun profit => ?_, howed, hearned,
    fun a ha => ?_, fun a full ha => ?_⟩
  · exact planned_ok.2 ⟨_, _, hcoherent.budget.storedConfig_eq, daysSinceGenesis_ok htime _,
      by rw [hfifth]⟩
  · refine ⟨⟨not_illegible_of_coin hfee, ?_⟩, ⟨not_illegible_of_coin hprofit, ?_⟩⟩
    · show (owed s.get osmo).toNat + a.toNat < Amount.bound
      rw [howed]
      omega
    · show (earned s.get osmo).toNat + a.toNat < Amount.bound
      rw [hearned]
      omega
  · refine .full ?_
    show Amount.bound ≤ (earned s.get osmo).toNat + a.toNat
    rw [hearned]
    omega

open Simulation in
/-- Ten units fill the books.  Fifteen are rejected, and a branch forgets the share of three. -/
theorem book_enters_or_strands_brimming :
    ∃ s, brimming.store.perform Store.empty = (.ok (), s) ∧ Covered s.get ∧ Divisible .epoch s
      ∧ (∃ split t, (book .epoch ⟨osmo, 10⟩).perform s = (.ok split, t)
        ∧ owed t.get osmo = Amount.greatest - 8 ∧ earned t.get osmo = Amount.greatest)
      ∧ (book .epoch ⟨osmo, 15⟩).atomically.perform s = (.error (.store (.profits osmo)), s) := by
  obtain ⟨s, hs, hcovered, hdivisible, hplan, howed, hearned, htakes, hrejects⟩ :=
    exists_brimming
  refine ⟨s, hs, hcovered, hdivisible, ?_, ?_⟩
  · have hshare : (Coin.split ⟨osmo, 10⟩ 2000).developer = ⟨osmo, 2⟩ := by decide +kernel
    have hrun := (Ends.entered (hplan ⟨osmo, 10⟩)
      (fun _ => hshare ▸ (htakes 2 (by decide)).1) (htakes 10 (by decide)).2).perform
    obtain ⟨result, t, -, hends, -, hentered, -⟩ :=
      book_enters_or_strands ⟨osmo, 10⟩ hdivisible
    obtain ⟨hresult, -⟩ := Prod.mk.inj (hends.symm.trans hrun)
    obtain ⟨-, ⟨-, hfees, hprofits, -⟩, -⟩ := hentered _ hresult
    refine ⟨_, t, hresult ▸ hends, BitVec.eq_of_toNat_eq ?_, BitVec.eq_of_toNat_eq ?_⟩
    · rw [hfees, if_pos rfl, howed, hshare]
      decide
    · rw [hprofits, if_pos rfl, hearned]
      decide
  · have hshare : (Coin.split ⟨osmo, 15⟩ 2000).developer = ⟨osmo, 3⟩ := by decide +kernel
    have hrun := (Ends.profitRejected (hplan ⟨osmo, 15⟩)
      (fun _ => hshare ▸ (htakes 3 (by decide)).1) (hrejects 15 _ (by decide))).perform
    obtain ⟨result, t, u, hends, -, -, -, hbranch, -, hleft, -⟩ :=
      book_enters_or_strands ⟨osmo, 15⟩ hdivisible
    obtain ⟨hresult, -⟩ := Prod.mk.inj (hends.symm.trans hrun)
    rw [hbranch, hleft _ hresult, hresult]

open Simulation in
/-- Without a branch the share of three is among the fees when the fifteen units are rejected, and
more is owed than was ever earned. -/
theorem book_strands_share :
    ∃ s t, brimming.store.perform Store.empty = (.ok (), s)
      ∧ (book .epoch ⟨osmo, 15⟩).perform s = (.error (.store (.profits osmo)), t)
      ∧ Divisible .epoch s ∧ t ≠ s ∧ Covered s.get ∧ ¬ Covered t.get := by
  obtain ⟨s, hs, hcovered, hdivisible, hplan, howed, hearned, htakes, hrejects⟩ :=
    exists_brimming
  have hshare : (Coin.split ⟨osmo, 15⟩ 2000).developer = ⟨osmo, 3⟩ := by decide +kernel
  have htaken : Takes Key.developerFees (Coin.split ⟨osmo, 15⟩ 2000).developer s.get := by
    rw [hshare]
    exact (htakes 3 (by decide)).1
  have hrejected := hrejects 15 (.store (.profits osmo)) (by decide)
  have hstranded := stranded_of_rejected (hplan ⟨osmo, 15⟩) (by rw [hshare]; decide) htaken
    hrejected
  have huncovered : ¬ Covered (withShare (Coin.split ⟨osmo, 15⟩ 2000) s).get := by
    rw [hstranded.covered_iff hcovered, hshare, howed, hearned]
    decide
  refine ⟨s, _, hs, (Ends.profitRejected (hplan ⟨osmo, 15⟩) (fun _ => htaken) hrejected).perform,
    hdivisible, fun heq => huncovered ?_, hcovered, huncovered⟩
  rw [heq]
  exact hcovered

end Backrun.Ledger
