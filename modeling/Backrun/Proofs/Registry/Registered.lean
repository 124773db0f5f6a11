import Backrun.Proofs.Registry.Bases
import Backrun.Proofs.Route.Cycles
import Backrun.Proofs.Store.Records

/-!
# The registry in order

`Registered` says of a view that routes, base denominations and the pool index are what
may be registered.  The two changes of the registry keep it so.
-/

namespace Backrun

namespace DenomPair

/-- A canonical pair names the smaller denomination first, so making it canonical again
changes nothing. -/
theorem canonical_canonical (a b : Denom) :
    canonical (canonical a b).tokenA (canonical a b).tokenB = canonical a b := by
  by_cases h : b.bytes < a.bytes
  · have hpair : canonical a b = ⟨b, a⟩ := if_pos h
    rw [hpair]
    exact if_neg (List.lt_asymm h)
  · have hpair : canonical a b = ⟨a, b⟩ := if_neg h
    rw [hpair]
    exact if_neg h

theorem canonical_proper {a b : Denom} (h : a ≠ b) :
    (canonical a b).tokenA ≠ (canonical a b).tokenB := by
  rw [canonical]
  split
  · exact fun heq => h heq.symm
  · exact h

end DenomPair

namespace Registry

variable {s t : Store} {v w : View} {mostHops : UInt64}

/-! ## Changing the registry -/

/-- Routes are registered exactly if each of them may be; the empty list forgets the pair. -/
theorem setRoutes_ok {a b : Denom} {routes : List Route} {u : Unit} :
    (setRoutes a b routes mostHops).perform s = (.ok u, t)
      ↔ a ≠ b ∧ PairRoutes.validateRoutes mostHops (DenomPair.canonical a b) routes = .ok ()
        ∧ t = (if routes.isEmpty then s.delete (Key.pairRoutes (DenomPair.canonical a b))
          else s.set (Key.pairRoutes (DenomPair.canonical a b))
            (Codec.encode (⟨DenomPair.canonical a b, routes⟩ : PairRoutes))) := by
  rw [setRoutes]
  dsimp only
  by_cases hab : a = b
  · rw [if_pos hab, Action.perform_bind_of_error (Action.perform_throw _ s)]
    simp [hab]
  · rw [if_neg hab, Action.perform_verdict_bind_ok]
    constructor
    · rintro ⟨_, hvalid, h⟩
      refine ⟨hab, Verdict.mapError_ok.1 hvalid, ?_⟩
      split at h
      · rename_i hempty
        rw [if_pos hempty]
        exact (congrArg Prod.snd h).symm
      · rename_i hempty
        rw [if_neg hempty]
        exact (congrArg Prod.snd h).symm
    · rintro ⟨-, hvalid, rfl⟩
      refine ⟨(), Verdict.mapError_ok.2 hvalid, ?_⟩
      split <;> rfl

theorem clean_setRoutes (a b : Denom) (routes : List Route) :
    (setRoutes a b routes mostHops).Clean := by
  rw [setRoutes]
  dsimp only
  split
  · exact Action.Clean.throw_bind _ _
  · refine Action.Clean.verdict_bind fun _ => ?_
    split
    · exact (Action.Total.update _).clean
    · exact (Action.Total.update _).clean

theorem staysFlat_setRoutes (a b : Denom) (routes : List Route) (mostHops : UInt64) :
    (setRoutes a b routes mostHops).StaysFlat := by
  rw [setRoutes]
  dsimp only
  split
  · exact .bind (.throw _) fun _ => .bind (.verdict _) fun _ => by
      split
      · exact .delete _
      · exact .save _ _
  · refine .bind (.verdict _) fun _ => ?_
    split
    · exact .delete _
    · exact .save _ _

theorem staysFlat_setPool (base counter : Denom) (poolId : PoolId) :
    (setPool base counter poolId).StaysFlat := by
  rw [setPool]
  split
  · exact .bind (.throw _) fun _ => .save _ _
  · exact .save _ _

/-- Clearing the pools of base denominations takes the entries under them and no others. -/
theorem perform_clearPools (bases : List BaseDenom) (s : Store) :
    ∃ t, (bases.forM fun b => clearPools b.denom).perform s = (.ok (), t)
      ∧ ∀ k, ((∃ b ∈ bases, Key.poolsOf b.denom <+: k) → t.get k = none)
        ∧ ((∀ b ∈ bases, ¬ Key.poolsOf b.denom <+: k) → t.get k = s.get k) := by
  induction bases generalizing s with
  | nil => exact ⟨s, rfl, fun k => ⟨fun ⟨_, hb, _⟩ => absurd hb List.not_mem_nil, fun _ => rfl⟩⟩
  | cons b rest ih =>
      obtain ⟨t, hperform, hview⟩ := ih (s.deleteUnder (Key.poolsOf b.denom))
      refine ⟨t, hperform, fun k => ⟨?_, fun hnone => ?_⟩⟩
      · intro hsome
        by_cases hrest : ∃ b' ∈ rest, Key.poolsOf b'.denom <+: k
        · exact (hview k).1 hrest
        · have hkeep := (hview k).2 fun b' hb' hstart => hrest ⟨b', hb', hstart⟩
          obtain ⟨b', hb', hstart⟩ := hsome
          rcases List.mem_cons.1 hb' with rfl | hb'
          · rw [hkeep, Store.get_deleteUnder, if_pos hstart]
          · exact absurd ⟨b', hb', hstart⟩ hrest
      · rw [(hview k).2 fun b' hb' => hnone b' (List.mem_cons_of_mem b hb'),
          Store.get_deleteUnder, if_neg (hnone b List.mem_cons_self)]

end Registry

/-! ## What is registered -/

/-- A view holds routes that may be registered, a sound list of base denominations, and a
pool index between different denominations. -/
structure Registered (v : View) (mostHops : UInt64) : Prop where
  routes : Filed v 0x01 (fun entry : PairRoutes => Key.pairRoutes entry.pair)
    fun entry => entry.Admissible mostHops
  bases : ∃ bases, Registry.Listed v bases ∧ BaseDenom.Sound bases
  pools : Filed v 0x03 (fun e : PoolEntry => Key.pool e.base e.counter) fun e => e.base ≠ e.counter

namespace Registered

variable {s t : Store} {v w : View} {mostHops : UInt64}

theorem congr (h : Registered v mostHops) (heq : ∀ k, Key.IsRegistry k → w k = v k) :
    Registered w mostHops where
  routes := h.routes.congr fun k hk => heq k (.inl hk)
  bases := by
    obtain ⟨bases, hlisted, hsound⟩ := h.bases
    exact ⟨bases, hlisted.congr fun k hk => heq k (.inr (.inl hk)), hsound⟩
  pools := h.pools.congr fun k hk => heq k (.inr (.inr hk))

/-- Registering routes for a pair keeps the registry in order. -/
theorem setRoutes (h : Registered s.get mostHops) {a b : Denom} {routes : List Route} {u : Unit}
    (hset : (Registry.setRoutes a b routes mostHops).perform s = (.ok u, t)) :
    Registered t.get mostHops ∧ ∀ k, Key.kind k ≠ some 0x01 → t.get k = s.get k := by
  obtain ⟨hab, hvalid, ht⟩ := Registry.setRoutes_ok.1 hset
  have hframe : ∀ k, Key.kind k ≠ some 0x01 → t.get k = s.get k := by
    intro k hk
    have hother : k ≠ Key.pairRoutes (DenomPair.canonical a b) := Key.ne_of_kind hk
    rw [ht]
    split
    · rw [Store.get_delete, if_neg hother]
    · exact Store.get_set_of_ne s _ hother
  refine ⟨⟨?_, ?_, h.pools.congr fun k hk => hframe k (Key.kind_ne hk)⟩, hframe⟩
  · rw [ht]
    split
    · refine h.routes.update fun k b hkind hb => .inl ?_
      rw [Store.get_delete] at hb
      split at hb
      · exact absurd hb (by simp)
      · exact hb
    · rename_i hnonempty
      have hcycles := PairRoutes.validateRoutes_ok.1 hvalid
      refine h.routes.put (a := ⟨DenomPair.canonical a b, routes⟩) ?_ (Store.get_set_self s _ _)
        fun k _ hk => Store.get_set_of_ne s _ hk
      exact ⟨DenomPair.canonical_canonical a b, DenomPair.canonical_proper hab,
        fun hnil => hnonempty (List.isEmpty_iff.2 hnil), fun r hr => (hcycles r hr).1,
        fun r hr => (hcycles r hr).2⟩
  · obtain ⟨bases, hlisted, hsound⟩ := h.bases
    exact ⟨bases, hlisted.congr fun k hk => hframe k (Key.kind_ne hk), hsound⟩

/-- Replacing the base denominations and clearing pools keeps the registry in order. -/
theorem setBaseDenoms (h : Registered s.get mostHops) {bases : List BaseDenom}
    (dropped : List BaseDenom)
    (hvalid : BaseDenom.validateList bases = .ok ()) :
    ∃ mid t, (Registry.setBaseDenoms bases).perform s = (.ok (), mid)
      ∧ (dropped.forM fun b => Registry.clearPools b.denom).perform mid = (.ok (), t)
      ∧ Registered t.get mostHops
      ∧ ∀ k, Key.kind k ≠ some 0x02 → Key.kind k ≠ some 0x03 → t.get k = s.get k := by
  obtain ⟨mid, bases', hmid, hlisted, hsound, -, hframe⟩ :=
    Registry.perform_setBaseDenoms s hvalid
  obtain ⟨t, ht, hview⟩ := Registry.perform_clearPools dropped mid
  have hpools : ∀ k, Key.kind k ≠ some 0x03 → t.get k = mid.get k := fun k hk =>
    (hview k).2 fun b _ hstart => hk (Key.kind_of_start hstart)
  refine ⟨mid, t, hmid, ht, ⟨?_, ?_, ?_⟩, fun k hbase hpool => ?_⟩
  · refine h.routes.congr fun k hk => ?_
    rw [hpools k (Key.kind_ne hk), hframe k (Key.kind_ne hk)]
  · exact ⟨bases', hlisted.congr fun k hk => hpools k (Key.kind_ne hk), hsound⟩
  -- An entry that is still there stands under no dropped denomination, so it was there before.
  · refine h.pools.update fun k b hkind hb => .inl ?_
    by_cases hcleared : ∃ b ∈ dropped, Key.poolsOf b.denom <+: k
    · rw [(hview k).1 hcleared] at hb
      exact absurd hb (by simp)
    · rw [(hview k).2 fun b' hb' hstart => hcleared ⟨b', hb', hstart⟩,
        hframe k (Key.kind_ne hkind)] at hb
      exact hb
  · rw [hpools k hpool, hframe k hbase]

end Registered

end Backrun
