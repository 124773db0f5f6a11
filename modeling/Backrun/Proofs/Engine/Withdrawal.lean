import Backrun.Proofs.Engine.Solvency
import Backrun.Proofs.Simulation.Generous
import Backrun.Proofs.Store.Order

/-!
# Withdrawals

A withdrawal pays the developer every coin that the ledger records, or it leaves the store
itself.  Each coin is of its own denomination, so that no transfer touches the funds for another
one: all of them go through exactly if each of them would.

* `Simulation.Transferred` — what transfers from one account to another one do to the balances,
  also where the two accounts are the same.
* `Ledger.transferAll_iff`, `Ledger.transferAll_transferred` — when a list of coins is
  transferred, and what that does.
* `Engine.withdrawFees_all_or_nothing` — the whole withdrawal.
-/

namespace Backrun

open Simulation

/-! ## One transfer -/

namespace Simulation

variable {source target : Account} {c : Coin} {coins more : List Coin} {v w u : View}
  {writes : List Write} {d : Disturbance}

/-- From one view to the next coins have gone from an account to another one, while nobody
else's balance has changed.  From an account to itself no balance has changed at all. -/
structure Transferred (source target : Account) (coins : List Coin) (v w : View) : Prop where
  given : source ≠ target → ∀ d,
    (balance source d w).toNat + Coin.totalIn d coins = (balance source d v).toNat
  received : source ≠ target → ∀ d,
    (balance target d w).toNat = (balance target d v).toNat + Coin.totalIn d coins
  kept : source = target → ∀ d, balance source d w = balance source d v
  others : ∀ a, a ≠ source → a ≠ target → ∀ d, balance a d w = balance a d v

namespace Transferred

theorem refl (source target : Account) (v : View) : Transferred source target [] v v :=
  ⟨fun _ _ => rfl, fun _ _ => rfl, fun _ _ => rfl, fun _ _ _ _ => rfl⟩

/-- One list of coins after the other. -/
theorem trans (hvw : Transferred source target coins v w)
    (hwu : Transferred source target more w u) :
    Transferred source target (coins ++ more) v u where
  given hne d := by
    have hfirst := hvw.given hne d
    have hsecond := hwu.given hne d
    rw [Coin.totalIn_append]
    omega
  received hne d := by
    have hfirst := hvw.received hne d
    have hsecond := hwu.received hne d
    rw [Coin.totalIn_append]
    omega
  kept heq d := (hwu.kept heq d).trans (hvw.kept heq d)
  others a hsource htarget d :=
    (hwu.others a hsource htarget d).trans (hvw.others a hsource htarget d)

/-- It depends on the balances only. -/
theorem congr (h : Transferred source target coins v w)
    (heq : ∀ a d, u (balanceKey a d) = w (balanceKey a d)) :
    Transferred source target coins v u := by
  have hbalance : ∀ a d, balance a d u = balance a d w := fun a d => balance_congr (heq a d)
  refine ⟨fun hne d => ?_, fun hne d => ?_, fun hsame d => ?_, fun a hsource htarget d => ?_⟩
  · rw [hbalance]
    exact h.given hne d
  · rw [hbalance]
    exact h.received hne d
  · rw [hbalance]
    exact h.kept hsame d
  · rw [hbalance]
    exact h.others a hsource htarget d

/-- What the one gives and the other one receives is a transfer. -/
theorem of_moved (hdebit : Moved source coins [] v w) (hcredit : Moved target [] coins w u) :
    Transferred source target coins v u where
  given hne d := by
    rw [hcredit.others source hne d]
    exact hdebit.own d
  received hne d := by
    rw [← hdebit.others target hne.symm d]
    exact hcredit.own d
  kept heq d := by
    subst heq
    have hgiven := hdebit.own d
    have hreceived := hcredit.own d
    rw [Coin.totalIn_nil] at hgiven hreceived
    exact BitVec.eq_of_toNat_eq (by omega)
  others a hsource htarget d := (hcredit.others a htarget d).trans (hdebit.others a hsource d)

end Transferred

/-- A bank that refuses some denominations transfers the others for which there are funds. -/
theorem transfer_accepted_iff :
    ((d.bank bank).transfer source target c v).1 = .ok ()
      ↔ c.denom ∉ d.transfer ∧ c.amount.toNat ≤ (balance source c.denom v).toNat := by
  have hguard : (d.bank bank).transfer source target c = if c.denom ∈ d.transfer then
      Effect.refuse ("transfers of " ++ c.denom.text ++ " are blocked")
    else bank.transfer source target c := rfl
  rw [hguard]
  by_cases hblocked : c.denom ∈ d.transfer
  · rw [if_pos hblocked]
    exact ⟨nofun, fun h => absurd hblocked h.1⟩
  · rw [if_neg hblocked]
    refine ⟨fun h => ⟨hblocked, ?_⟩, fun h => transfer_funded target h.2⟩
    obtain ⟨_, _, _, hdebit, -⟩ := Effect.bind_ok.1 (Prod.ext h rfl :
      bank.transfer source target c v = (.ok (), (bank.transfer source target c v).2))
    exact (debit_ok.1 hdebit).1

/-- Where it transfers, it does as the bank itself. -/
theorem transfer_of_accepted (h : (d.bank bank).transfer source target c v = (.ok (), writes)) :
    bank.transfer source target c v = (.ok (), writes) := by
  have haccepted := transfer_accepted_iff.1 (congrArg Prod.fst h)
  rw [← h]
  exact (congrFun (if_neg haccepted.1) v).symm

/-- A transfer takes the coin from the one account and adds it to the other one. -/
theorem transferred_transfer (hroom : source ≠ target → HasRoom target c v)
    (h : bank.transfer source target c v = (.ok (), writes)) :
    Transferred source target [c] v (v.afterAll writes) := by
  obtain ⟨_, given, received, hgiven, hreceived, rfl⟩ := Effect.bind_ok.1 h
  have hdebit := moved_debit hgiven
  have hleft : HasRoom target c (v.afterAll given) := by
    by_cases heq : source = target
    -- What was just taken from the account fits in again.
    · subst heq
      have hown := hdebit.own c.denom
      rw [Coin.totalIn_cons, Coin.amountIn_self, Coin.totalIn_nil] at hown
      exact Nat.lt_of_le_of_lt (by omega) (balance source c.denom v).isLt
    · rw [HasRoom, hdebit.others target (Ne.symm heq) c.denom]
      exact hroom heq
  have hcredit := moved_credit hleft
  rw [hreceived] at hcredit
  rw [View.afterAll_append]
  exact .of_moved hdebit hcredit

/-- It writes the two balances only. -/
theorem transfer_frame (h : bank.transfer source target c v = (.ok (), writes)) {k : Bytes}
    (hsource : k ≠ balanceKey source c.denom) (htarget : k ≠ balanceKey target c.denom) :
    v.afterAll writes k = v k := by
  obtain ⟨_, given, received, hgiven, hreceived, rfl⟩ := Effect.bind_ok.1 h
  obtain ⟨-, rfl⟩ := debit_ok.1 hgiven
  rw [credit_apply] at hreceived
  obtain ⟨-, rfl⟩ := Prod.mk.inj hreceived
  exact View.afterAll_of_untouched v (by simpa using ⟨hsource.symm, htarget.symm⟩)

end Simulation

/-! ## All transfers -/

namespace Ledger

variable {vault caller : Account} {d : Disturbance} {c : Coin} {coins : List Coin} {s t : Store}

theorem transferAll_cons {bank : Bank} :
    (transferAll bank vault caller (c :: coins)).perform s = (.ok (), t)
      ↔ (bank.transfer vault caller c s.get).1 = .ok ()
        ∧ (transferAll bank vault caller coins).perform
          (s.writeAll (bank.transfer vault caller c s.get).2) = (.ok (), t) := by
  refine Action.perform_bind_ok.trans ⟨?_, fun ⟨hfirst, hrest⟩ =>
    ⟨(), _, Action.perform_call_ok.2 ⟨hfirst, rfl⟩, hrest⟩⟩
  rintro ⟨_, _, hcall, hrest⟩
  obtain ⟨hfirst, rfl⟩ := Action.perform_call_ok.1 hcall
  exact ⟨hfirst, hrest⟩

/-- Coins of different denominations are transferred together exactly if each of them would be
alone. -/
theorem transferAll_iff (hnodup : (coins.map Coin.denom).Nodup) :
    (∃ t, (transferAll (d.bank bank) vault caller coins).perform s = (.ok (), t))
      ↔ ∀ c ∈ coins, ((d.bank bank).transfer vault caller c s.get).1 = .ok () := by
  induction coins generalizing s with
  | nil => exact ⟨fun _ => nofun, fun _ => ⟨s, rfl⟩⟩
  | cons c coins ih =>
      rw [List.map_cons, List.nodup_cons] at hnodup
      simp only [transferAll_cons, exists_and_left, List.forall_mem_cons]
      refine and_congr_right fun hfirst => (ih hnodup.2).trans ?_
      refine forall₂_congr fun c' hc' => ?_
      -- The first transfer leaves the funds for the other denominations.
      have hne : c'.denom ≠ c.denom := fun heq => hnodup.1 (heq ▸ List.mem_map_of_mem hc')
      rw [transfer_accepted_iff, transfer_accepted_iff, Store.get_writeAll,
        balance_of_transfer hne vault (transfer_of_accepted (Prod.ext hfirst rfl))]

/-- They have then gone from the vault to the caller. -/
theorem transferAll_transferred (hnodup : (coins.map Coin.denom).Nodup)
    (hroom : vault ≠ caller → ∀ c ∈ coins, HasRoom caller c s.get)
    (h : (transferAll (d.bank bank) vault caller coins).perform s = (.ok (), t)) :
    Transferred vault caller coins s.get t.get := by
  induction coins generalizing s with
  | nil =>
      obtain rfl : s = t := congrArg Prod.snd h
      exact .refl vault caller s.get
  | cons c coins ih =>
      rw [List.map_cons, List.nodup_cons] at hnodup
      obtain ⟨hfirst, hrest⟩ := transferAll_cons.1 h
      have htransfer := transfer_of_accepted (Prod.ext hfirst rfl)
      have hone := transferred_transfer (fun hne => hroom hne c List.mem_cons_self) htransfer
      rw [← Store.get_writeAll] at hone
      refine hone.trans (ih hnodup.2 (fun hne c' hc' => ?_) hrest)
      have hother : c'.denom ≠ c.denom := fun heq => hnodup.1 (heq ▸ List.mem_map_of_mem hc')
      rw [HasRoom, Store.get_writeAll, balance_of_transfer hother caller htransfer]
      exact hroom hne c' (List.mem_cons_of_mem c hc')

/-- Nothing but the two balances of each coin is written. -/
theorem transferAll_frame
    (h : (transferAll (d.bank bank) vault caller coins).perform s = (.ok (), t)) {k : Bytes}
    (hk : ∀ c ∈ coins, k ≠ balanceKey vault c.denom ∧ k ≠ balanceKey caller c.denom) :
    t.get k = s.get k := by
  induction coins generalizing s with
  | nil =>
      obtain rfl : s = t := congrArg Prod.snd h
      rfl
  | cons c coins ih =>
      obtain ⟨hfirst, hrest⟩ := transferAll_cons.1 h
      obtain ⟨⟨hvault, hcaller⟩, hothers⟩ := List.forall_mem_cons.1 hk
      rw [ih hrest hothers, Store.get_writeAll]
      exact transfer_frame (transfer_of_accepted (Prod.ext hfirst rfl)) hvault hcaller

/-! ## The withdrawal -/

/-- A coin that the ledger records, unless its amount is zero. -/
def Due (v : View) (c : Coin) : Prop :=
  c.amount ≠ 0 ∧ ∃ b, v (Key.developerFees c.denom) = some b ∧ Codec.decode? b = some c

/-- In a branch a withdrawal reads what the store holds.  So it succeeds exactly if the caller is
the developer and what is due is transferred, and then the ledger is cleared. -/
theorem withdrawFees_ok {bank : Bank} {config : EngineConfig} {recorded paid : List Coin}
    (hconfig : storedConfig s = .ok config) (hrecorded : allFees s = .ok recorded) :
    (withdrawFees bank vault caller).perform s = (.ok paid, t)
      ↔ config.developer = some caller ∧ paid = (recorded.filter fun c => c.amount != 0)
        ∧ ∃ mid, (transferAll bank vault caller paid).perform s.openBranch = (.ok (), mid)
          ∧ t = (mid.deleteUnder Key.allDeveloperFees).commit := by
  have hsame : storedConfig s.openBranch = .ok config :=
    (Query.load_congr (Store.get_openBranch s _) .config).trans hconfig
  have hlisted : allFees s.openBranch = .ok recorded := by
    have hunder : s.openBranch.under Key.allDeveloperFees = s.under Key.allDeveloperFees :=
      Store.under_congr fun _ _ => rfl
    rw [← hrecorded, allFees, Query.loadAll, Query.loadAll, hunder]
  rw [withdrawFees, Action.perform_atomically_ok]
  constructor
  · rintro ⟨u, hu, rfl⟩
    obtain ⟨config', recorded', mid, hconfig', hmay, hrecorded', hpaid, hmid, rfl⟩ :=
      payFees_ok.1 hu
    obtain rfl : config = config' := Except.ok.inj (hsame.symm.trans hconfig')
    obtain rfl : recorded = recorded' := Except.ok.inj (hlisted.symm.trans hrecorded')
    exact ⟨authorizeDeveloper_ok.1 hmay, hpaid, mid, hmid, rfl⟩
  · rintro ⟨hdeveloper, hpaid, mid, hmid, rfl⟩
    exact ⟨_, payFees_ok.2 ⟨config, recorded, mid, hsame, authorizeDeveloper_ok.2 hdeveloper,
      hlisted, hpaid, hmid, rfl⟩, rfl⟩

/-- Where the ledger can be read, its records list what is due in the order of the
denominations. -/
theorem exists_due (h : Keyed s.get 0x06 fun c : Coin => Key.developerFees c.denom) :
    ∃ recorded, allFees s = .ok recorded
      ∧ ((recorded.filter fun c => c.amount != 0).Pairwise fun c c' => c.denom.Before c'.denom)
      ∧ ∀ c, c ∈ (recorded.filter fun c => c.amount != 0) ↔ Due s.get c := by
  obtain ⟨recorded, hload, hascending, hmem⟩ := h.exists_ascending
  refine ⟨recorded, hload, ?_, fun c => ?_⟩
  · exact (hascending.imp fun hlt => Key.developerFees_lt_iff.1 hlt).filter _
  · rw [List.mem_filter, hmem, bne_iff_ne, and_comm, Due]
    simp only [Key.kind_developerFees, true_and]

/-- Where the ledger holds the coins of a list, those of them are due that are not of nothing. -/
theorem due_iff_of_kept (h : Kept s.get 0x06 (fun c => Key.developerFees c.denom) coins) :
    Due s.get c ↔ c.amount ≠ 0 ∧ c ∈ coins :=
  and_congr_right fun _ =>
    (h.mem_iff Coin.faithful fun c => Key.kind_developerFees c.denom).symm

theorem allFees_of_none (h : ∀ k, Key.kind k = some 0x06 → s.get k = none) :
    allFees s = .ok [] := by
  have hkeyed : Keyed s.get 0x06 fun c : Coin => Key.developerFees c.denom := by
    intro k b hkind hb
    rw [h k hkind] at hb
    cases hb
  obtain ⟨recorded, hload, -, hmem⟩ := hkeyed.exists_ascending
  have hempty : recorded = [] := by
    refine List.eq_nil_iff_forall_not_mem.2 fun c hc => ?_
    obtain ⟨b, hkind, hb, -⟩ := (hmem c).1 hc
    rw [h _ hkind] at hb
    cases hb
  rw [← hempty]
  exact hload

/-- What a withdrawal of these coins does to the store. -/
structure Withdrawn (vault caller : Account) (paid : List Coin) (s t : Store) : Prop where
  cleared : ∀ k, Key.kind k = some 0x06 → t.get k = none
  transferred : (vault ≠ caller → ∀ c ∈ paid, HasRoom caller c s.get) →
    Transferred vault caller paid s.get t.get
  /-- Nothing else has changed. -/
  frame : ∀ k, Key.kind k ≠ some 0x06 →
    (∀ c ∈ paid, k ≠ balanceKey vault c.denom ∧ k ≠ balanceKey caller c.denom) → t.get k = s.get k

section Paying

variable {config : EngineConfig} {recorded paid : List Coin} (hconfig : storedConfig s = .ok config)
  (hrecorded : allFees s = .ok recorded)
  (hnodup : ((recorded.filter fun c => c.amount != 0).map Coin.denom).Nodup)
include hconfig hrecorded hnodup

theorem withdrawFees_succeeds :
    (∃ paid t, (withdrawFees (d.bank Simulation.bank) vault caller).perform s = (.ok paid, t))
      ↔ config.developer = some caller ∧ ∀ c ∈ recorded.filter fun c => c.amount != 0,
        ((d.bank Simulation.bank).transfer vault caller c s.get).1 = .ok () := by
  have hopen : s.openBranch.get = s.get := funext (Store.get_openBranch s)
  rw [← hopen, ← transferAll_iff hnodup]
  simp only [withdrawFees_ok hconfig hrecorded]
  constructor
  · rintro ⟨_, _, hdeveloper, rfl, mid, hmid, -⟩
    exact ⟨hdeveloper, mid, hmid⟩
  · rintro ⟨hdeveloper, mid, hmid⟩
    exact ⟨_, _, hdeveloper, rfl, mid, hmid, rfl⟩

theorem withdrawn_of_withdrawFees
    (h : (withdrawFees (d.bank Simulation.bank) vault caller).perform s = (.ok paid, t)) :
    paid = (recorded.filter fun c => c.amount != 0) ∧ Withdrawn vault caller paid s t := by
  obtain ⟨-, rfl, mid, hmid, rfl⟩ := (withdrawFees_ok hconfig hrecorded).1 h
  have hopen : s.openBranch.get = s.get := funext (Store.get_openBranch s)
  have hview : ∀ k, (mid.deleteUnder Key.allDeveloperFees).commit.get k
      = if Key.kind k = some 0x06 then none else mid.get k := fun k =>
    (Store.get_commit _ k).trans (Store.get_deleteUnder_kind mid 0x06 k)
  refine ⟨rfl, fun k hk => (hview k).trans (if_pos hk), fun hroom => ?_, fun k hk hother => ?_⟩
  -- The ledger and the balances are kept apart.
  · rw [← hopen] at hroom ⊢
    refine (transferAll_transferred hnodup hroom hmid).congr fun a d => ?_
    exact (hview _).trans (if_neg (Key.kind_ne (kind_balanceKey a d)))
  · rw [hview, if_neg hk, transferAll_frame hmid hother, hopen]

end Paying

end Ledger

theorem Denom.Before.ne {a b : Denom} (h : a.Before b) : a ≠ b := by
  rintro rfl
  exact List.lt_irrefl a.bytes h

namespace Engine

variable {s : Store} {e : Engine} {d : Disturbance} {config : EngineConfig}

/-- **A withdrawal pays everything once or nothing.**  Where the configuration and the ledger can
be read, with a bank that may refuse any denominations, it succeeds exactly if the caller is the
developer and every coin that is due would be transferred.  Then it pays these coins in the order
of their denominations, the ledger is empty, and the coins have gone from the vault to the caller,
if there is room in the balances of the caller; nothing else in the store has changed.  A
withdrawal that fails, at whichever of the transfers, leaves the store itself. -/
theorem withdrawFees_all_or_nothing (hbank : e.bank = d.bank Simulation.bank)
    (hconfig : storedConfig s = .ok config)
    (hledger : Keyed s.get 0x06 fun c : Coin => Key.developerFees c.denom) (caller : Account) :
    ∃ due : List Coin, (due.Pairwise fun c c' => c.denom.Before c'.denom)
      ∧ (∀ c, c ∈ due ↔ Ledger.Due s.get c)
      ∧ ((∃ paid t, (e.withdrawFees caller).perform s = (.ok paid, t))
        ↔ config.developer = some caller
          ∧ ∀ c ∈ due, (e.bank.transfer e.vault caller c s.get).1 = .ok ())
      ∧ (∀ paid t, (e.withdrawFees caller).perform s = (.ok paid, t) →
        paid = due ∧ Ledger.allFees t = .ok [] ∧ Ledger.Withdrawn e.vault caller due s t)
      ∧ ∀ err t, (e.withdrawFees caller).perform s = (.error err, t) → t = s := by
  obtain ⟨recorded, hrecorded, hpairwise, hmem⟩ := Ledger.exists_due hledger
  have hnodup : ((recorded.filter fun c => c.amount != 0).map Coin.denom).Nodup :=
    List.pairwise_map.2 (hpairwise.imp Denom.Before.ne)
  refine ⟨_, hpairwise, hmem, ?_, fun paid t hpaid => ?_, fun err t hfailed =>
    (Coherent.local_payFees e.bank e.vault caller).clean_atomically hfailed⟩
  · rw [withdrawFees, hbank]
    exact Ledger.withdrawFees_succeeds hconfig hrecorded hnodup
  · rw [withdrawFees, hbank] at hpaid
    obtain ⟨rfl, hwithdrawn⟩ := Ledger.withdrawn_of_withdrawFees hconfig hrecorded hnodup hpaid
    exact ⟨rfl, Ledger.allFees_of_none hwithdrawn.cleared, hwithdrawn⟩

/-- An engine with a bank that refuses some denominations. -/
def paying (blocked : List Denom) : Engine :=
  { generous with bank := ({ Disturbance.none with transfer := blocked }).bank Simulation.bank }

/-- A genesis with three coins in the ledger, one of them of nothing. -/
def owing : Genesis :=
  { Genesis.standard with
    config := { EngineConfig.standard with developer := some generous.authority }
    fees := [⟨atom, 5⟩, ⟨osmo, 0⟩, ⟨atomic, 7⟩]
    profits := [⟨atom, 9⟩, ⟨atomic, 8⟩] }

/-- A vault with funds for them. -/
def funded : Store :=
  (Store.empty.set (balanceKey generous.vault atom) (Codec.encode (9 : Amount))).set
    (balanceKey generous.vault atomic) (Codec.encode (8 : Amount))

/-- After that genesis these coins are due, and the vault has what it had. -/
theorem exists_owing :
    ∃ s, owing.store.perform funded = (.ok (), s) ∧ storedConfig s = .ok owing.config
      ∧ Keyed s.get 0x06 (fun c : Coin => Key.developerFees c.denom)
      ∧ (∀ due : List Coin, (due.Pairwise fun c c' => c.denom.Before c'.denom) →
        (∀ c, c ∈ due ↔ Ledger.Due s.get c) → due = [⟨atom, 5⟩, ⟨atomic, 7⟩])
      ∧ ∀ a d, balance a d s.get = balance a d funded.get := by
  have hvalid := Genesis.validate_ok.1 (show owing.validate = .ok () by decide +kernel)
  have hempty : ∀ k, Key.IsEngine k → funded.get k = none := by
    intro k hk
    have hne : ∀ d, k ≠ balanceKey generous.vault d := fun d heq =>
      balanceKey_outside generous.vault d (heq ▸ hk)
    rw [funded, Store.get_set_of_ne _ _ (hne atomic), Store.get_set_of_ne _ _ (hne atom)]
    rfl
  obtain ⟨s, bases, hs, hholds, hsound, -⟩ := Genesis.perform_store hvalid funded hempty
  have hcoherent := hholds.coherent { hvalid with bases := hsound }
  refine ⟨s, hs, hcoherent.budget.storedConfig_eq, hcoherent.books.fees.keyed Coin.faithful,
    fun due hpairwise hmem => ?_, fun a d =>
      balance_congr (Genesis.frame_of_perform_store hs (balanceKey_outside a d))⟩
  refine eq_of_mem_iff_of_ascending (fun c => ?_) hpairwise (by decide)
  have hfees : Kept s.get 0x06 (fun c => Key.developerFees c.denom) owing.fees := hholds.fees
  rw [hmem, Ledger.due_iff_of_kept hfees]
  simp only [owing, List.mem_cons, List.not_mem_nil, or_false]
  constructor
  · rintro ⟨hamount, rfl | rfl | rfl⟩
    · exact .inl rfl
    · exact absurd rfl hamount
    · exact .inr rfl
  · rintro (rfl | rfl)
    · exact ⟨by decide, .inl rfl⟩
    · exact ⟨by decide, .inr (.inr rfl)⟩

/-- Of that ledger the developer is paid the two other coins; and where the second one of them is
refused, the first one is not paid either. -/
theorem withdrawFees_all_or_nothing_owing :
    ∃ s, owing.store.perform funded = (.ok (), s)
      ∧ (∃ t, ((paying []).withdrawFees generous.authority).perform s
          = (.ok [⟨atom, 5⟩, ⟨atomic, 7⟩], t)
        ∧ Ledger.allFees t = .ok []
        ∧ (balance generous.vault atom t.get).toNat = 4
        ∧ (balance generous.authority atom t.get).toNat = 5)
      ∧ ∃ err, ((paying [atomic]).withdrawFees generous.authority).perform s
        = (.error err, s) := by
  obtain ⟨s, hs, hconfig, hkeyed, hdue, hbalance⟩ := exists_owing
  have hvault : balance generous.vault atom s.get = 9 ∧ balance generous.vault atomic s.get = 8 :=
    ⟨(hbalance _ _).trans (by decide +kernel), (hbalance _ _).trans (by decide +kernel)⟩
  have hcaller : balance generous.authority atom s.get = 0
      ∧ balance generous.authority atomic s.get = 0 :=
    ⟨(hbalance _ _).trans (by decide +kernel), (hbalance _ _).trans (by decide +kernel)⟩
  refine ⟨s, hs, ?_, ?_⟩
  · obtain ⟨due, hpairwise, hmem, hsucceeds, hpaid, -⟩ := withdrawFees_all_or_nothing
      (e := paying []) (d := { Disturbance.none with transfer := [] }) rfl hconfig hkeyed
      generous.authority
    obtain rfl := hdue due hpairwise hmem
    have haccepted : ∀ c ∈ [(⟨atom, 5⟩ : Coin), ⟨atomic, 7⟩],
        ((paying []).bank.transfer generous.vault generous.authority c s.get).1 = .ok () := by
      rw [List.forall_mem_cons, List.forall_mem_singleton]
      refine ⟨transfer_accepted_iff.2 ⟨List.not_mem_nil, ?_⟩,
        transfer_accepted_iff.2 ⟨List.not_mem_nil, ?_⟩⟩
      · rw [hvault.1]
        decide
      · rw [hvault.2]
        decide
    have hroom : ∀ c ∈ [(⟨atom, 5⟩ : Coin), ⟨atomic, 7⟩], HasRoom generous.authority c s.get := by
      rw [List.forall_mem_cons, List.forall_mem_singleton, HasRoom, HasRoom, hcaller.1, hcaller.2]
      exact ⟨by decide, by decide⟩
    obtain ⟨_, t, ht⟩ := hsucceeds.2 ⟨rfl, haccepted⟩
    obtain ⟨rfl, hcleared, hwithdrawn⟩ := hpaid _ t ht
    have hmoved := hwithdrawn.transferred fun _ => hroom
    have hgiven := hmoved.given (by decide) atom
    have hreceived := hmoved.received (by decide) atom
    change _ = (balance generous.vault atom s.get).toNat at hgiven
    rw [hvault.1] at hgiven
    rw [hcaller.1] at hreceived
    exact ⟨t, ht, hcleared, Nat.add_right_cancel hgiven, hreceived⟩
  · obtain ⟨due, hpairwise, hmem, hsucceeds, -, hfails⟩ := withdrawFees_all_or_nothing
      (e := paying [atomic]) (d := { Disturbance.none with transfer := [atomic] }) rfl hconfig
      hkeyed generous.authority
    obtain rfl := hdue due hpairwise hmem
    rcases hrun : ((paying [atomic]).withdrawFees generous.authority).perform s with ⟨err | paid, t⟩
    · exact ⟨err, by rw [hfails err t hrun]⟩
    · have haccepted := (hsucceeds.1 ⟨paid, t, hrun⟩).2 ⟨atomic, 7⟩ (by decide)
      exact absurd (transfer_accepted_iff.1 haccepted).1 (by decide)

end Engine

end Backrun
