import Backrun.Cycle.Search
import Backrun.Proofs.Registry.Registered
import Mathlib.Data.List.Pairwise

/-!
# The cycles in play

Which cycles a search tries after a trade: the routes that are registered for the traded
pair and start in a base denomination, with their positions among all registered routes, and
behind them the cycles of the pool index, if the search looks there.
-/

namespace Backrun

/-- Routes, base denominations and the pool index can be read. -/
structure Registry.Readable (v : View) : Prop where
  routes : Legible PairRoutes v 0x01
  bases : Legible BaseDenom v 0x02
  pools : Legible PoolEntry v 0x03

/-! ## Cycles of the pool index -/

namespace Registry

variable {s : Store} {trade : Hop} {mostHops : UInt64}

/-- The pool that the index holds for a base denomination and another one. -/
def indexedPool (v : View) (base counter : Denom) : Option PoolId :=
  ((v (Key.pool base counter)).bind Codec.decode?).map PoolEntry.poolId

theorem unlessMissing_pool (h : Legible PoolEntry s.get 0x03) (base counter : Denom) :
    Query.unlessMissing (pool base counter) s = .ok (indexedPool s.get base counter) := by
  rw [indexedPool, Query.unlessMissing, pool, Query.bind_apply]
  cases hget : s.get (Key.pool base counter) with
  | none =>
      rw [Query.load_of_get_none hget]
      rfl
  | some b =>
      obtain ⟨entry, hentry⟩ := h _ b (Key.kind_pool base counter) hget
      rw [Query.load_ok.2 ⟨b, hget, hentry⟩, Option.bind_some, hentry]
      rfl

theorem otherPool_ok (h : Legible PoolEntry s.get 0x03) (traded : PoolId) (base counter : Denom) :
    ∃ id, otherPool traded base counter s = .ok id := by
  rw [otherPool, Query.bind_of_ok (unlessMissing_pool h base counter)]
  cases indexedPool s.get base counter with
  | none => exact ⟨none, rfl⟩
  | some id =>
      dsimp only
      split
      · exact ⟨none, rfl⟩
      · exact ⟨some id, rfl⟩

theorem hopsAround_ok (h : Legible PoolEntry s.get 0x03) (trade : Hop) (base : Denom) :
    ∃ hops, hopsAround trade base s = .ok hops := by
  obtain ⟨entry, hentry⟩ := otherPool_ok h trade.poolId base trade.denomOut
  obtain ⟨exit, hexit⟩ := otherPool_ok h trade.poolId base trade.denomIn
  rw [hopsAround]
  split
  · rw [Query.bind_of_ok hentry]
    exact ⟨_, rfl⟩
  · split
    · rw [Query.bind_of_ok hexit]
      exact ⟨_, rfl⟩
    · rw [Query.bind_of_ok hentry, Query.bind_of_ok hexit]
      split
      · exact ⟨_, rfl⟩
      · exact ⟨_, rfl⟩

theorem cyclesFrom_ok (h : Legible PoolEntry s.get 0x03) (trade : Hop) (mostHops : UInt64)
    (position : Nat) (bases : List BaseDenom) :
    ∃ cycles, cyclesFrom trade mostHops position bases s = .ok cycles := by
  induction bases generalizing position with
  | nil => exact ⟨[], rfl⟩
  | cons b rest ih =>
      obtain ⟨hops, hhops⟩ := hopsAround_ok h trade b.denom
      obtain ⟨others, hothers⟩ := ih (position + 1)
      have hcycle : ∃ cycle, cycleAround trade mostHops b.denom s = .ok cycle := by
        rw [cycleAround, Query.bind_of_ok hhops]
        exact ⟨_, rfl⟩
      obtain ⟨cycle, hcycle⟩ := hcycle
      rw [cyclesFrom, Query.bind_of_ok hcycle, Query.bind_of_ok hothers]
      cases cycle with
      | none => exact ⟨others, rfl⟩
      | some r => exact ⟨(position, r) :: others, rfl⟩

/-- No two cycles of the pool index have the same position of their base denominations. -/
theorem pairwise_of_cyclesFrom {position : Nat} {bases : List BaseDenom}
    {cycles : List (Nat × Route)} (h : cyclesFrom trade mostHops position bases s = .ok cycles) :
    cycles.Pairwise (fun c d => c.1 < d.1) ∧ ∀ c ∈ cycles, position ≤ c.1 := by
  induction bases generalizing position cycles with
  | nil =>
      cases Except.ok.inj h
      exact ⟨List.Pairwise.nil, nofun⟩
  | cons b rest ih =>
      obtain ⟨cycle, -, h⟩ := Query.bind_ok.1 h
      obtain ⟨others, hothers, h⟩ := Query.bind_ok.1 h
      obtain ⟨hpairwise, hbound⟩ := ih hothers
      have hbehind : ∀ c ∈ others, position < c.1 := fun c hc => hbound c hc
      cases cycle with
      | none =>
          cases Except.ok.inj h
          exact ⟨hpairwise, fun c hc => Nat.le_of_lt (hbehind c hc)⟩
      | some r =>
          cases Except.ok.inj h
          exact ⟨List.pairwise_cons.2 ⟨hbehind, hpairwise⟩,
            List.forall_mem_cons.2 ⟨Nat.le_refl _, fun c hc => Nat.le_of_lt (hbehind c hc)⟩⟩

/-- Around a trade only cycles are made. -/
theorem isCycle_of_cyclesFrom {position : Nat} {bases : List BaseDenom}
    {cycles : List (Nat × Route)} (h : cyclesFrom trade mostHops position bases s = .ok cycles) :
    ∀ c ∈ cycles, c.2.IsCycle mostHops := by
  induction bases generalizing position cycles with
  | nil =>
      cases Except.ok.inj h
      exact nofun
  | cons b rest ih =>
      obtain ⟨cycle, hcycle, h⟩ := Query.bind_ok.1 h
      obtain ⟨others, hothers, h⟩ := Query.bind_ok.1 h
      cases cycle with
      | none =>
          cases Except.ok.inj h
          exact ih hothers
      | some r =>
          cases Except.ok.inj h
          rw [cycleAround] at hcycle
          obtain ⟨hops, -, hchecked⟩ := Query.bind_ok.1 hcycle
          have hvalid := (Option.filter_eq_some_iff.1 (Except.ok.inj hchecked)).2
          refine List.forall_mem_cons.2 ⟨Route.validate_ok.1 ?_, ih hothers⟩
          cases hcheck : r.validate mostHops with
          | ok _ => rfl
          | error fault =>
              rw [hcheck] at hvalid
              exact absurd hvalid nofun

/-- The hops around a trade start in the base denomination. -/
theorem base_of_hopsAround {base : Denom} {hops : List Hop}
    (h : hopsAround trade base s = .ok (some hops)) : (Route.mk hops).base? = some base := by
  rw [hopsAround] at h
  split at h
  · obtain ⟨entry, -, h⟩ := Query.bind_ok.1 h
    obtain ⟨id, -, rfl⟩ := Option.map_eq_some_iff.1 (Except.ok.inj h)
    rfl
  · split at h
    · rename_i hpaid
      obtain ⟨exit, -, h⟩ := Query.bind_ok.1 h
      obtain ⟨id, -, rfl⟩ := Option.map_eq_some_iff.1 (Except.ok.inj h)
      rw [hpaid]
      rfl
    · obtain ⟨entry, -, h⟩ := Query.bind_ok.1 h
      obtain ⟨exit, -, h⟩ := Query.bind_ok.1 h
      split at h
      · cases h
        rfl
      · cases h

/-- A cycle around a trade starts in the base denomination at its position. -/
theorem base_of_cyclesFrom {position : Nat} {bases : List BaseDenom}
    {cycles : List (Nat × Route)} (h : cyclesFrom trade mostHops position bases s = .ok cycles) :
    ∀ c ∈ cycles, ∃ j b, c.1 = position + j ∧ bases[j]? = some b ∧ c.2.base? = some b.denom := by
  induction bases generalizing position cycles with
  | nil =>
      cases Except.ok.inj h
      exact nofun
  | cons b rest ih =>
      obtain ⟨cycle, hcycle, h⟩ := Query.bind_ok.1 h
      obtain ⟨others, hothers, h⟩ := Query.bind_ok.1 h
      have hrest : ∀ c ∈ others, ∃ j b', c.1 = position + j ∧ (b :: rest)[j]? = some b'
          ∧ c.2.base? = some b'.denom := by
        intro c hc
        obtain ⟨j, b', hposition, hb', hbase⟩ := ih hothers c hc
        exact ⟨j + 1, b', by omega, hb', hbase⟩
      cases cycle with
      | none =>
          cases Except.ok.inj h
          exact hrest
      | some r =>
          cases Except.ok.inj h
          rw [cycleAround] at hcycle
          obtain ⟨hops, hhops, hchecked⟩ := Query.bind_ok.1 hcycle
          have hsome := (Option.filter_eq_some_iff.1 (Except.ok.inj hchecked)).1
          obtain ⟨hops', rfl, rfl⟩ := Option.map_eq_some_iff.1 hsome
          exact List.forall_mem_cons.2 ⟨⟨0, b, rfl, rfl, base_of_hopsAround hhops⟩, hrest⟩

end Registry

/-! ## Eligible cycles -/

namespace BaseDenom

/-- The position of a denomination is the first one in the list. -/
theorem position?_eq_some {bases : List BaseDenom} {d : Denom} {j : Nat} :
    position? bases d = some j
      ↔ (∃ b, bases[j]? = some b ∧ b.denom = d)
        ∧ ∀ k b, k < j → bases[k]? = some b → b.denom ≠ d := by
  rw [position?, List.findIdx?_eq_some_iff_getElem]
  constructor
  · rintro ⟨hj, hfound, hfirst⟩
    refine ⟨⟨bases[j], List.getElem?_eq_getElem hj, by simpa using hfound⟩, fun k b hk hb => ?_⟩
    obtain ⟨hlength, rfl⟩ := List.getElem?_eq_some_iff.1 hb
    simpa using hfirst k hk
  · rintro ⟨⟨b, hb, hdenom⟩, hfirst⟩
    obtain ⟨hj, rfl⟩ := List.getElem?_eq_some_iff.1 hb
    refine ⟨hj, by simpa using hdenom, fun k hk => ?_⟩
    simpa using hfirst k bases[k] hk (List.getElem?_eq_getElem (Nat.lt_trans hk hj))

end BaseDenom

namespace Search

/-- A cycle that may be tried, with the base denomination that it starts in: one of the
registered routes that starts in a base denomination, or one of the pool index. -/
inductive Eligible (registered : List Route) (bases : List BaseDenom)
    (cycles : List (Nat × Route)) : Proposal → BaseDenom → Prop where
  | registered {i j : Nat} {r : Route} {b : BaseDenom} (hroute : registered[i]? = some r)
      (hbase : r.base? = some b.denom) (hposition : bases[j]? = some b)
      (hfirst : ∀ k b', k < j → bases[k]? = some b' → b'.denom ≠ b.denom) :
      Eligible registered bases cycles ⟨r, .registered, i, j⟩ b
  | indexed {j : Nat} {r : Route} {b : BaseDenom} (hcycle : (j, r) ∈ cycles)
      (hposition : bases[j]? = some b) :
      Eligible registered bases cycles ⟨r, .poolIndex, registered.length, j⟩ b

variable {registered : List Route} {bases : List BaseDenom} {cycles : List (Nat × Route)}
  {p q : Proposal} {b b' : BaseDenom}

/-- Two eligible cycles that agree in both positions are one. -/
theorem Eligible.unique (hcycles : cycles.Pairwise fun c d => c.1 < d.1)
    (hp : Eligible registered bases cycles p b) (hq : Eligible registered bases cycles q b')
    (hroute : p.routeIndex = q.routeIndex) (hbase : p.basePosition = q.basePosition) :
    p = q ∧ b = b' := by
  cases hp with
  | @registered i j r _ hr _ hb _ =>
      cases hq with
      | @registered i' j' r' _ hr' _ hb' _ =>
          dsimp only at hroute hbase
          subst hroute hbase
          rw [hr] at hr'
          rw [hb] at hb'
          exact ⟨by rw [Option.some.inj hr'], Option.some.inj hb'⟩
      | indexed =>
          obtain ⟨hi, -⟩ := List.getElem?_eq_some_iff.1 hr
          exact absurd hroute (Nat.ne_of_lt hi)
  | @indexed j r _ hr hb =>
      cases hq with
      -- The pool index stands behind all registered routes, so the positions differ.
      | registered hr' =>
          obtain ⟨hi, -⟩ := List.getElem?_eq_some_iff.1 hr'
          exact absurd hroute.symm (Nat.ne_of_lt hi)
      | @indexed j' r' _ hr' hb' =>
          dsimp only at hbase
          subst hbase
          rw [hb] at hb'
          -- Positions ascend in the pool index, so one position holds one cycle.
          have hapart : cycles.Pairwise fun c d => c.1 ≠ d.1 :=
            hcycles.imp fun hlt => Nat.ne_of_lt hlt
          have hsame : r = r' := by
            have : Std.Symm fun c d : Nat × Route => c.1 ≠ d.1 := ⟨fun _ _ => Ne.symm⟩
            refine Classical.byContradiction fun hne => ?_
            exact hapart.forall hr hr' (fun heq => hne (congrArg Prod.snd heq)) rfl
          exact ⟨by rw [hsame], Option.some.inj hb'⟩

/-! ## The search tries the eligible cycles -/

/-- What one route adds to the registered routes in front of others. -/
theorem mem_registeredFrom_cons {index : Nat} {r : Route} {rest : List Route} :
    (p, b) ∈ registeredFrom bases index (r :: rest)
      ↔ (∃ j, r.base?.bind (BaseDenom.position? bases) = some j ∧ bases[j]? = some b
          ∧ p = ⟨r, .registered, index, j⟩)
        ∨ (p, b) ∈ registeredFrom bases (index + 1) rest := by
  rw [registeredFrom]
  cases hposition : r.base?.bind (BaseDenom.position? bases) with
  | none => simp
  | some j =>
      dsimp only
      cases hb : bases[j]? with
      | none => simp [hb]
      | some b₀ =>
          simp only [List.mem_cons, Prod.mk.injEq, Option.some.injEq]
          constructor
          · rintro (⟨rfl, rfl⟩ | hrest)
            · exact .inl ⟨j, rfl, hb, rfl⟩
            · exact .inr hrest
          · rintro (⟨_, rfl, hb', rfl⟩ | hrest)
            · rw [hb] at hb'
              exact .inl ⟨rfl, (Option.some.inj hb').symm⟩
            · exact .inr hrest

theorem mem_registeredFrom (index : Nat) :
    (p, b) ∈ registeredFrom bases index registered
      ↔ ∃ i j r, registered[i]? = some r ∧ r.base? = some b.denom ∧ bases[j]? = some b
        ∧ (∀ k b', k < j → bases[k]? = some b' → b'.denom ≠ b.denom)
        ∧ p = ⟨r, .registered, index + i, j⟩ := by
  have hstarts : ∀ (r : Route) (j : Nat),
      (r.base?.bind (BaseDenom.position? bases) = some j ∧ bases[j]? = some b)
        ↔ r.base? = some b.denom ∧ bases[j]? = some b
          ∧ ∀ k b', k < j → bases[k]? = some b' → b'.denom ≠ b.denom := by
    intro r j
    rw [Option.bind_eq_some_iff]
    constructor
    · rintro ⟨⟨d, hd, hposition⟩, hb⟩
      obtain ⟨⟨b₀, hb₀, rfl⟩, hfirst⟩ := BaseDenom.position?_eq_some.1 hposition
      rw [hb] at hb₀
      cases hb₀
      exact ⟨hd, hb, hfirst⟩
    · rintro ⟨hbase, hb, hfirst⟩
      exact ⟨⟨b.denom, hbase, BaseDenom.position?_eq_some.2 ⟨⟨b, hb, rfl⟩, hfirst⟩⟩, hb⟩
  induction registered generalizing index with
  | nil => simp [registeredFrom]
  | cons r rest ih =>
      refine (mem_registeredFrom_cons.trans (or_congr_right (ih (index + 1)))).trans ?_
      constructor
      · rintro (⟨j, hposition, hb, rfl⟩ | ⟨i, j, r', hr', hbase, hb, hfirst, rfl⟩)
        · obtain ⟨hbase, hb, hfirst⟩ := (hstarts r j).1 ⟨hposition, hb⟩
          exact ⟨0, j, r, rfl, hbase, hb, hfirst, rfl⟩
        · exact ⟨i + 1, j, r', hr', hbase, hb, hfirst, by rw [Nat.add_right_comm, Nat.add_assoc]⟩
      · rintro ⟨i, j, r', hr', hbase, hb, hfirst, rfl⟩
        cases i with
        | zero =>
            cases Option.some.inj hr'
            obtain ⟨hposition, hb⟩ := (hstarts r j).2 ⟨hbase, hb, hfirst⟩
            exact .inl ⟨j, hposition, hb, rfl⟩
        | succ i =>
            exact .inr ⟨i, j, r', hr', hbase, hb, hfirst, by
              rw [Nat.add_right_comm, Nat.add_assoc]⟩

theorem mem_indexed {index : Nat} :
    (p, b) ∈ indexed bases index cycles
      ↔ ∃ j r, (j, r) ∈ cycles ∧ bases[j]? = some b ∧ p = ⟨r, .poolIndex, index, j⟩ := by
  rw [indexed, List.mem_filterMap]
  constructor
  · rintro ⟨⟨j, r⟩, hcycle, hsome⟩
    cases hb : bases[j]? with
    | none => simp [hb] at hsome
    | some b₀ =>
        simp only [hb, Option.some.injEq, Prod.mk.injEq] at hsome
        obtain ⟨rfl, rfl⟩ := hsome
        exact ⟨j, r, hcycle, hb, rfl⟩
  · rintro ⟨j, r, hcycle, hb, rfl⟩
    exact ⟨(j, r), hcycle, by simp [hb]⟩

/-- Both parts of the tried cycles together are the eligible ones. -/
theorem mem_tried :
    (p, b) ∈ registeredFrom bases 0 registered ++ indexed bases registered.length cycles
      ↔ Eligible registered bases cycles p b := by
  rw [List.mem_append, mem_registeredFrom, mem_indexed]
  constructor
  · rintro (⟨i, j, r, hr, hbase, hb, hfirst, rfl⟩ | ⟨j, r, hcycle, hb, rfl⟩)
    · rw [Nat.zero_add]
      exact .registered hr hbase hb hfirst
    · exact .indexed hcycle hb
  · rintro (⟨hr, hbase, hb, hfirst⟩ | ⟨hcycle, hb⟩)
    · exact .inl ⟨_, _, _, hr, hbase, hb, hfirst, by rw [Nat.zero_add]⟩
    · exact .inr ⟨_, _, hcycle, hb, rfl⟩

/-- The routes that a view has registered for a pair. -/
def registeredRoutes (v : View) (a b : Denom) : List Route :=
  match (v (Key.pairRoutes (DenomPair.canonical a b))).bind Codec.decode? with
  | some (entry : PairRoutes) => entry.routes
  | none => []

/-- The cycles of the pool index that a search tries. -/
def indexCycles (config : EngineConfig) (trade : Hop) (bases : List BaseDenom) :
    Query (List (Nat × Route)) :=
  if config.search.liquidityCycles then
    Registry.cyclesAround trade bases config.search.mostHops
  else
    return []

/-- A cycle that a search tries after a trade, with the base denomination that it starts in. -/
def InPlay (config : EngineConfig) (trade : Hop) (s : Store) (p : Proposal) (b : BaseDenom) :
    Prop :=
  ∃ bases cycles, Registry.baseDenoms s = .ok bases
    ∧ indexCycles config trade bases s = .ok cycles
    ∧ Eligible (registeredRoutes s.get trade.denomIn trade.denomOut) bases cycles p b

variable {s : Store} {config : EngineConfig} {trade : Hop}

/-- Two cycles in play that agree in both positions are one. -/
theorem InPlay.unique (hp : InPlay config trade s p b) (hq : InPlay config trade s q b')
    (hroute : p.routeIndex = q.routeIndex) (hbase : p.basePosition = q.basePosition) :
    p = q ∧ b = b' := by
  obtain ⟨bases, cycles, hbases, hcycles, hp⟩ := hp
  obtain ⟨bases', cycles', hbases', hcycles', hq⟩ := hq
  rw [hbases] at hbases'
  cases hbases'
  rw [hcycles] at hcycles'
  cases hcycles'
  refine hp.unique ?_ hq hroute hbase
  rw [indexCycles] at hcycles
  split at hcycles
  · exact (Registry.pairwise_of_cyclesFrom hcycles).1
  · cases Except.ok.inj hcycles
    exact List.Pairwise.nil

/-- What is in play starts in one of the base denominations. -/
theorem InPlay.base (hin : InPlay config trade s p b) :
    p.route.base? = some b.denom ∧ ∃ bases, Registry.baseDenoms s = .ok bases ∧ b ∈ bases := by
  obtain ⟨bases, cycles, hbases, hcycles, heligible⟩ := hin
  cases heligible with
  | registered _ hbase hposition _ =>
      exact ⟨hbase, bases, hbases, List.mem_of_getElem? hposition⟩
  | @indexed j r _ hcycle hposition =>
      refine ⟨?_, bases, hbases, List.mem_of_getElem? hposition⟩
      rw [indexCycles] at hcycles
      split at hcycles
      · obtain ⟨i, b', hi, hb', hbase⟩ := Registry.base_of_cyclesFrom hcycles _ hcycle
        obtain rfl : j = i := hi.trans (Nat.zero_add i)
        rw [hposition] at hb'
        cases hb'
        exact hbase
      · cases Except.ok.inj hcycles
        exact absurd hcycle List.not_mem_nil

/-- With a registry in order, all that is in play are cycles. -/
theorem InPlay.isCycle (h : Registered s.get config.search.mostHops)
    (hin : InPlay config trade s p b) : p.route.IsCycle config.search.mostHops := by
  obtain ⟨bases, cycles, -, hcycles, heligible⟩ := hin
  cases heligible with
  | @registered i j r _ hroute _ _ _ =>
      have hr := List.mem_of_getElem? hroute
      rw [registeredRoutes] at hr
      split at hr
      · rename_i entry hentry
        obtain ⟨bytes, hbytes, hdecode⟩ := Option.bind_eq_some_iff.1 hentry
        obtain ⟨stored, -, hstored, hgood⟩ := h.routes _ bytes (Key.kind_pairRoutes _) hbytes
        rw [hstored, Codec.decode?_encode (PairRoutes.faithful stored)] at hdecode
        cases hdecode
        exact hgood.cycles r hr
      · exact absurd hr List.not_mem_nil
  | indexed hcycle _ =>
      rw [indexCycles] at hcycles
      split at hcycles
      · exact Registry.isCycle_of_cyclesFrom hcycles _ hcycle
      · cases Except.ok.inj hcycles
        exact absurd hcycle List.not_mem_nil

/-- Where the registry can be read, the cycles that a search tries are those in play. -/
theorem proposals_ok (h : Registry.Readable s.get) (config : EngineConfig) (trade : Hop) :
    ∃ tried, proposals config trade s = .ok tried
      ∧ ∀ p b, (p, b) ∈ tried ↔ InPlay config trade s p b := by
  obtain ⟨bases, hbases⟩ := h.bases.loadAll
  have hbases : Registry.baseDenoms s = .ok bases := hbases
  have hcycles : ∃ cycles, indexCycles config trade bases s = .ok cycles := by
    rw [indexCycles]
    split
    · exact Registry.cyclesFrom_ok h.pools trade _ 0 bases
    · exact ⟨[], rfl⟩
  obtain ⟨cycles, hcycles⟩ := hcycles
  refine ⟨registeredFrom bases 0 (registeredRoutes s.get trade.denomIn trade.denomOut)
    ++ indexed bases (registeredRoutes s.get trade.denomIn trade.denomOut).length cycles, ?_, ?_⟩
  · have hentry := h.routes.unlessMissing_load
      (Key.kind_pairRoutes (DenomPair.canonical trade.denomIn trade.denomOut))
      (.routes (DenomPair.canonical trade.denomIn trade.denomOut))
    have hregistered : (((s.get (Key.pairRoutes
        (DenomPair.canonical trade.denomIn trade.denomOut))).bind Codec.decode?).map
          PairRoutes.routes).getD [] = registeredRoutes s.get trade.denomIn trade.denomOut := by
      rw [registeredRoutes]
      cases (s.get (Key.pairRoutes (DenomPair.canonical trade.denomIn trade.denomOut))).bind
        (Codec.decode? (α := PairRoutes)) <;> rfl
    rw [proposals, Query.bind_of_ok (show Query.unlessMissing
      (Registry.routes trade.denomIn trade.denomOut) s = _ from hentry), hregistered]
    dsimp only
    rw [Query.bind_of_ok hbases]
    rw [indexCycles] at hcycles
    split at hcycles
    · rename_i hflag
      rw [if_pos hflag, Query.bind_of_ok hcycles]
      rfl
    · rename_i hflag
      cases Except.ok.inj hcycles
      rw [if_neg hflag]
      simp [indexed]
  · intro p b
    rw [mem_tried]
    constructor
    · exact fun heligible => ⟨bases, cycles, hbases, hcycles, heligible⟩
    · rintro ⟨bases', cycles', hbases', hcycles', heligible⟩
      rw [hbases] at hbases'
      cases hbases'
      rw [hcycles] at hcycles'
      cases hcycles'
      exact heligible

end Search

end Backrun
