import Backrun.Proofs.Asset.Totals
import Backrun.Proofs.Genesis.Import
import Backrun.Proofs.Ledger.Booked

/-!
# Totals of recorded coins

Where every coin is recorded under its own denomination, the amount in a record is the total of
the list of all of them.  So ledgers, documents and payments can be compared by numbers.
-/

namespace Backrun

namespace Ledger

variable {v : View} {kind : UInt8} {key : Denom → Bytes} {coins : List Coin}

/-- Where the records of a kind are coins under their denominations, an amount in the view is
the total of the list. -/
theorem amountAt_of_kept (h : Kept v kind (fun c : Coin => key c.denom) coins)
    (hnodup : (coins.map Coin.denom).Nodup) (hinj : ∀ {a b}, key a = key b → a = b)
    (hkind : ∀ d, Key.kind (key d) = some kind) (d : Denom) :
    (amountAt v (key d)).toNat = Coin.totalIn d coins := by
  cases hget : v (key d) with
  | none =>
      rw [amountAt_of_none hget, Coin.totalIn_eq_zero fun c hc heq => ?_]
      · rfl
      · rw [← heq, h.get hc (hkind c.denom)] at hget
        exact absurd hget (by simp)
  | some b =>
      obtain ⟨c, hc, hkey, hencode⟩ := (h _ b (hkind d)).1 hget
      obtain rfl := hinj hkey
      rw [hencode] at hget
      rw [amountAt_of_coin hget, Coin.totalIn_of_mem hnodup hc]

variable {s t : Store} {bank : Bank} {vault caller : Account} {paid : List Coin}

theorem authorizeDeveloper_ok {config : EngineConfig} {x : Unit} :
    authorizeDeveloper config caller = .ok x ↔ config.developer = some caller := by
  rw [authorizeDeveloper]
  cases config.developer with
  | none => simp
  | some developer =>
      dsimp only
      by_cases heq : developer = caller
      · simp [heq]
      · simp [heq]

/-- The developer is paid what is recorded, and then the records are cleared. -/
theorem payFees_ok :
    (payFees bank vault caller).perform s = (.ok paid, t)
      ↔ ∃ config recorded mid, storedConfig s = .ok config
        ∧ authorizeDeveloper config caller = .ok () ∧ allFees s = .ok recorded
        ∧ paid = (recorded.filter fun c => c.amount != 0)
        ∧ (paid.forM fun c => Action.call (bank.transfer vault caller c) fun fault =>
            .executionFailure (.withdrawal fault)).perform s = (.ok (), mid)
        ∧ t = mid.deleteUnder Key.allDeveloperFees := by
  rw [payFees, Action.perform_query_bind_ok]
  constructor
  · rintro ⟨config, hconfig, h⟩
    obtain ⟨_, hmay, h⟩ := Action.perform_verdict_bind_ok.1 h
    obtain ⟨recorded, hrecorded, h⟩ := Action.perform_query_bind_ok.1 h
    obtain ⟨_, mid, hmid, h⟩ := Action.perform_bind_ok.1 h
    obtain ⟨_, last, hclear, hreturn⟩ := Action.perform_bind_ok.1 h
    cases hreturn
    exact ⟨config, recorded, mid, hconfig, hmay, hrecorded, rfl, hmid,
      (congrArg Prod.snd hclear).symm⟩
  · rintro ⟨config, recorded, mid, hconfig, hmay, hrecorded, rfl, hmid, rfl⟩
    refine ⟨config, hconfig, Action.perform_verdict_bind_ok.2 ⟨(), hmay, ?_⟩⟩
    refine Action.perform_query_bind_ok.2 ⟨recorded, hrecorded, ?_⟩
    refine Action.perform_bind_ok.2 ⟨(), mid, hmid, ?_⟩
    exact Action.perform_bind_ok.2 ⟨(), _, rfl, rfl⟩

end Ledger

/-- Books in order list what is owed. -/
theorem Booked.allFees {s : Store} (h : Booked s.get) :
    ∃ recorded, Ledger.allFees s = .ok recorded ∧ (recorded.map Coin.denom).Nodup
      ∧ ∀ d, (Ledger.owed s.get d).toNat = Coin.totalIn d recorded := by
  obtain ⟨recorded, hrecorded, -, hkeys, hkept⟩ := h.fees.exists_list Coin.faithful
  have hnodup : (recorded.map Coin.denom).Nodup :=
    nodup_map_of_nodup hkeys fun hdenom => by rw [hdenom]
  exact ⟨recorded, hrecorded, hnodup, fun d => Ledger.amountAt_of_kept hkept hnodup
    Key.developerFees_injective Key.kind_developerFees d⟩

namespace Genesis

variable {g : Genesis} {v : View}

theorem Holds.earned_eq_total (h : Holds v g) (hg : g.Valid) (d : Denom) :
    (Ledger.earned v d).toNat = Coin.totalIn d g.profits :=
  Ledger.amountAt_of_kept h.profits hg.profits Key.profits_injective Key.kind_profits d

theorem Holds.owed_eq_total (h : Holds v g) (hg : g.Valid) (d : Denom) :
    (Ledger.owed v d).toNat = Coin.totalIn d g.fees :=
  Ledger.amountAt_of_kept h.fees hg.fees Key.developerFees_injective Key.kind_developerFees d

end Genesis

end Backrun
