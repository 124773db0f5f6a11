import Backrun.Proofs.Engine.Attempts
import Backrun.Proofs.Simulation.Generous

/-!
# The list of base denominations replaced

When governance replaces the list, the pool index forgets what it holds for the denominations that
the new list leaves out.  It forgets nothing else: the key of an entry ends its base denomination
with a byte that no denomination has, so that a denomination does not begin the keys of another
one that merely begins with it.

* `Governance.perform_setBaseDenoms` — the replacement in a store whose list and index can be
  read, key by key.
* `Maintained` — reachable states, with the pool index kept from outside.
* `Maintained.setBaseDenoms_exact` — in these, what can be read before and after.
-/

namespace Backrun

theorem Registry.pool_of_get {s : Store} {e : PoolEntry}
    (h : s.get (Key.pool e.base e.counter) = some (Codec.encode e)) :
    Registry.pool e.base e.counter s = .ok e.poolId := by
  rw [Registry.pool, Query.bind_of_ok (Query.load_of_get (PoolEntry.faithful e) h _)]
  rfl

/-! ## The replacement -/

namespace Governance

variable {authority caller : Account} {s : Store} {previous bases : List BaseDenom} {d : Denom}

/-- A denomination was in the list before and is not in the new one. -/
def LeftOut (previous bases : List BaseDenom) (d : Denom) : Prop :=
  d ∈ previous.map BaseDenom.denom ∧ d ∉ bases.map BaseDenom.denom

instance : DecidablePred (LeftOut previous bases) := fun _ => inferInstanceAs (Decidable (_ ∧ _))

theorem leftOut_iff : LeftOut previous bases d ↔ ∃ b ∈ dropped previous bases, b.denom = d := by
  have hposition : ∀ b : BaseDenom, (BaseDenom.position? bases b.denom).isNone = true
      ↔ b.denom ∉ bases.map BaseDenom.denom := by
    intro b
    rw [BaseDenom.position?, Option.isNone_iff_eq_none, List.findIdx?_eq_none_iff]
    simp
  simp only [dropped, List.mem_filter, hposition, LeftOut, List.mem_map]
  constructor
  · rintro ⟨⟨b, hb, rfl⟩, hnew⟩
    exact ⟨b, ⟨hb, hnew⟩, rfl⟩
  · rintro ⟨b, ⟨hb, hnew⟩, rfl⟩
    exact ⟨⟨b, hb, rfl⟩, hnew⟩

/-- Those who may govern replace the list by one that is accepted.  Every entry of the pool index
stays that is not under a denomination left out, and so does every record of another kind. -/
theorem perform_setBaseDenoms (hmay : authorize authority caller s = .ok ())
    (hprevious : Registry.baseDenoms s = .ok previous)
    (hvalid : BaseDenom.validateList bases = .ok ()) (hfits : bases.length ≤ UInt64.size) :
    ∃ t, (setBaseDenoms authority caller bases).perform s = (.ok (), t)
      ∧ Registry.Listed t.get bases
      ∧ (∀ base counter, t.get (Key.pool base counter)
        = if ¬ LeftOut previous bases base then s.get (Key.pool base counter) else none)
      ∧ (∀ k b, Key.kind k = some 0x03 → t.get k = some b → s.get k = some b)
      ∧ ∀ k, Key.kind k ≠ some 0x02 → Key.kind k ≠ some 0x03 → t.get k = s.get k := by
  obtain ⟨mid, bases', hmid, hlisted, -, hsame, hframe⟩ := Registry.perform_setBaseDenoms s hvalid
  obtain rfl := hsame hfits
  obtain ⟨t, ht, hview⟩ := Registry.perform_clearPools (dropped previous bases') mid
  have hother : ∀ k, Key.kind k ≠ some 0x03 → t.get k = mid.get k := fun k hk =>
    (hview k).2 fun b _ hstart => hk (Key.kind_of_start hstart)
  refine ⟨t, ?_, hlisted.congr fun k hk => hother k (Key.kind_ne hk), fun base counter => ?_,
    fun k b hk hb => ?_, fun k hbase hpool => (hother k hpool).trans (hframe k hbase)⟩
  · refine authorize_bind_ok.2 ⟨hmay, Action.perform_query_bind_ok.2 ⟨previous, hprevious, ?_⟩⟩
    exact Action.perform_bind_ok.2 ⟨(), mid, hmid, ht⟩
  -- What is cleared under a denomination is what is indexed for it.
  · have hcleared : LeftOut previous bases' base
        ↔ ∃ b ∈ dropped previous bases', Key.poolsOf b.denom <+: Key.pool base counter := by
      simp only [leftOut_iff, Key.poolsOf_prefix_pool_iff]
    by_cases hleft : LeftOut previous bases' base
    · rw [if_neg (not_not_intro hleft)]
      exact (hview _).1 (hcleared.1 hleft)
    · have hkept := (hview (Key.pool base counter)).2 fun b hb hstart =>
        hleft (hcleared.2 ⟨b, hb, hstart⟩)
      rw [if_pos hleft, hkept]
      exact hframe _ (Key.kind_ne (Key.kind_pool base counter))
  · by_cases hcleared : ∃ b ∈ dropped previous bases', Key.poolsOf b.denom <+: k
    · rw [(hview k).1 hcleared] at hb
      cases hb
    · rw [(hview k).2 fun b' hb' hstart => hcleared ⟨b', hb', hstart⟩,
        hframe k (Key.kind_ne hk)] at hb
      exact hb

end Governance

/-! ## States with the pool index kept -/

/-- A state that is reached from a genesis by calls of engines, by changes of the pool index, and
by whatever else happens outside the keys of the engine. -/
inductive Maintained (g : Genesis) : Store → Prop
  | reached {s : Store} (before : Reached g s) : Maintained g s
  | called {s : Store} {c : Call} (before : Maintained g s) (stays : c.engine.StaysOutside) :
      Maintained g (c.leave s)
  | moved {s t : Store} (before : Maintained g s) (same : Store.SameEngine s t) : Maintained g t
  /-- Someone has found a pool to be the most liquid one. -/
  | indexed {s : Store} (before : Maintained g s) (base counter : Denom) (poolId : PoolId) :
      Maintained g ((Registry.setPool base counter poolId).perform s).2

/-- An entry of the pool index keeps coherence. -/
theorem Coherent.setPool {s : Store} {config : EngineConfig} {counted : PointCounter}
    (h : Coherent s.get config counted) (base counter : Denom) (poolId : PoolId) :
    Coherent ((Registry.setPool base counter poolId).perform s).2.get config counted := by
  by_cases hbase : base = counter
  · rw [Registry.setPool, if_pos hbase]
    exact h
  · have hset := Genesis.perform_setPool (e := ⟨base, counter, poolId⟩) hbase s
    rw [hset]
    have hframe : ∀ k, Key.kind k ≠ some 0x03 →
        (s.set (Key.pool base counter) (Codec.encode (⟨base, counter, poolId⟩ : PoolEntry))).get k
          = s.get k := fun k hk => Store.get_set_of_ne s _ (Key.ne_of_kind hk)
    obtain ⟨bases, hlisted, hsound⟩ := h.registry.bases
    refine ⟨h.budget.congr fun k hk => hframe k hk.kind_ne, ⟨?_, ?_, ?_⟩,
      h.books.congr fun k hk => hframe k hk.kind_ne⟩
    · exact h.registry.routes.congr fun k hk => hframe k (Key.kind_ne hk)
    · exact ⟨bases, hlisted.congr fun k hk => hframe k (Key.kind_ne hk), hsound⟩
    · exact h.registry.pools.put (a := ⟨base, counter, poolId⟩) hbase (Store.get_set_self s _ _)
        fun k _ hk => Store.get_set_of_ne s _ hk

namespace Maintained

variable {g : Genesis} {s : Store} {authority caller : Account} {bases : List BaseDenom}

theorem coherent (h : Maintained g s) : ∃ config counted, Coherent s.get config counted := by
  induction h with
  | reached before => exact before.coherent
  | called _ stays ih =>
      obtain ⟨config, counted, hcoherent⟩ := ih
      obtain ⟨config', counted', hnext, -⟩ := hcoherent.operate stays _
      exact ⟨config', counted', hnext⟩
  | moved _ same ih =>
      obtain ⟨config, counted, hcoherent⟩ := ih
      exact ⟨config, counted, hcoherent.congr same⟩
  | indexed _ base counter poolId ih =>
      obtain ⟨config, counted, hcoherent⟩ := ih
      exact ⟨config, counted, hcoherent.setPool base counter poolId⟩

/-- **Replacing the list of base denominations does what it says and nothing else.**  In every
reachable state, those who may govern replace the list by any list that is accepted, which in
memory has no more members than a word counts.  Then exactly that list is read back, whatever the
length of the one before; the pool index holds exactly the entries from before whose base
denominations are not left out; and every record of another kind is what it was. -/
theorem setBaseDenoms_exact (h : Maintained g s)
    (hmay : Governance.authorize authority caller s = .ok ())
    (hvalid : BaseDenom.validateList bases = .ok ()) (hfits : bases.length ≤ UInt64.size) :
    ∃ previous entries t, Registry.baseDenoms s = .ok previous
      ∧ Registry.allPools s = .ok entries
      ∧ (Governance.setBaseDenoms authority caller bases).perform s = (.ok (), t)
      ∧ Registry.baseDenoms t = .ok bases
      ∧ Registry.allPools t
        = .ok (entries.filter fun e => ¬ Governance.LeftOut previous bases e.base)
      ∧ (∀ base counter, Registry.pool base counter t
        = if ¬ Governance.LeftOut previous bases base then Registry.pool base counter s
          else .error (.notFound (.poolFor base counter)))
      ∧ ∀ k, Key.kind k ≠ some 0x02 → Key.kind k ≠ some 0x03 → t.get k = s.get k := by
  obtain ⟨config, counted, hcoherent⟩ := h.coherent
  obtain ⟨previous, hlisted, -⟩ := hcoherent.registry.bases
  have hprevious := Registry.baseDenoms_of_listed hlisted
  obtain ⟨t, ht, hlisted', hpool, hold, hframe⟩ :=
    Governance.perform_setBaseDenoms hmay hprevious hvalid hfits
  have hkeyed := hcoherent.registry.pools.keyed PoolEntry.faithful
  obtain ⟨entries, hentries, hleft⟩ := hkeyed.loadAll_filter
    (p := fun e => ¬ Governance.LeftOut previous bases e.base) hold fun e => hpool e.base e.counter
  refine ⟨previous, entries, t, hprevious, hentries, ht, Registry.baseDenoms_of_listed hlisted',
    hleft, fun base counter => ?_, hframe⟩
  have hget := hpool base counter
  split at hget
  · rename_i hkept
    rw [if_pos hkept, Registry.pool, Query.bind_apply, Query.bind_apply, Query.load_congr hget]
    rfl
  · rename_i hcleared
    rw [if_neg hcleared, Registry.pool, Query.bind_apply, Query.load_of_get_none hget]
    rfl

open Simulation in
/-- A genesis with two base denominations and a pool for each of them. -/
def paired : Genesis :=
  { Genesis.standard with
    bases := [⟨atom, 1⟩, ⟨osmo, 1⟩]
    pools := [⟨atom, osmo, 1⟩, ⟨osmo, atom, 3⟩] }

open Simulation in
/-- With a pool found in between for a denomination that atoms begin, a list of osmos alone leaves
that one and the one for osmos. -/
theorem setBaseDenoms_exact_paired :
    ∃ s₀ s t, paired.store.perform Store.empty = (.ok (), s₀)
      ∧ (Registry.setPool atomic osmo 2).perform s₀ = (.ok (), s)
      ∧ (Governance.setBaseDenoms generous.authority generous.authority [⟨osmo, 2⟩]).perform s
        = (.ok (), t)
      ∧ Registry.baseDenoms t = .ok [⟨osmo, 2⟩]
      ∧ Registry.pool atom osmo t = .error (.notFound (.poolFor atom osmo))
      ∧ Registry.pool osmo atom t = .ok 3 ∧ Registry.pool atomic osmo t = .ok 2 := by
  have hvalid := Genesis.validate_ok.1 (show paired.validate = .ok () by decide +kernel)
  obtain ⟨s₀, bases, hs₀, hholds, -, hsame⟩ :=
    Genesis.perform_store hvalid Store.empty fun _ _ => rfl
  obtain rfl := hsame (by decide)
  have hset := Genesis.perform_setPool (e := ⟨atomic, osmo, 2⟩) (by decide) s₀
  have hmaintained : Maintained paired
      (s₀.set (Key.pool atomic osmo) (Codec.encode (⟨atomic, osmo, 2⟩ : PoolEntry))) := by
    have hindexed := (Maintained.reached (.imported hs₀)).indexed atomic osmo 2
    rwa [hset] at hindexed
  have hcoherent := (hholds.coherent hvalid).setPool atomic osmo 2
  rw [hset] at hcoherent
  generalize hs : s₀.set (Key.pool atomic osmo)
    (Codec.encode (⟨atomic, osmo, 2⟩ : PoolEntry)) = s at hset hmaintained hcoherent
  have hmay : Governance.authorize generous.authority generous.authority s = .ok () := by
    rw [Governance.authorize, Query.bind_of_ok hcoherent.budget.storedConfig_eq]
    rfl
  have haccepted : BaseDenom.validateList [⟨osmo, 2⟩] = .ok () := by decide
  obtain ⟨previous, -, t, hprevious, -, ht, hlist, -, hpool, -⟩ :=
    setBaseDenoms_exact hmaintained hmay haccepted (by decide)
  have hbefore : previous = paired.bases := by
    have hlisted : Registry.Listed s.get paired.bases := hholds.bases.congr fun k hk => by
      rw [← hs]
      exact Store.get_set_of_ne s₀ _ (Key.ne_of_kind (Key.kind_ne hk))
    exact Except.ok.inj (hprevious.symm.trans (Registry.baseDenoms_of_listed hlisted))
  have hosmo : Registry.pool osmo atom s = .ok 3 := by
    refine Registry.pool_of_get (e := ⟨osmo, atom, 3⟩) ?_
    rw [← hs, Store.get_set_of_ne _ _ fun heq => absurd (Key.pool_injective heq).1 (by decide)]
    exact (hholds.pools _ _ (Key.kind_pool osmo atom)).2 ⟨⟨osmo, atom, 3⟩, by decide, rfl, rfl⟩
  have hatomic : Registry.pool atomic osmo s = .ok 2 :=
    Registry.pool_of_get (e := ⟨atomic, osmo, 2⟩) (by rw [← hs, Store.get_set_self])
  subst hbefore
  refine ⟨s₀, s, t, hs₀, hset, ht, hlist, ?_, ?_, ?_⟩
  · rw [hpool, if_neg (by decide)]
  · rw [hpool, if_pos (by decide), hosmo]
  · rw [hpool, if_pos (by decide), hatomic]

end Maintained

end Backrun
