import Backrun.Proofs.Cycle.Proposals
import Backrun.Proofs.Simulation.Generous

/-!
# The cycles around a trade

From a base denomination the pool index offers at most one cycle around a trade.  It enters at
what the trade paid out, crosses the traded pool against the trade, and leaves from what the
trade paid in; where the base denomination is one of these two itself, the entry or the exit
falls away.

* `Around` — the hops that the index offers from a base denomination, a constructor for each
  place that it may have in the trade.
* `cycleAround_eq_some` — of these the cycles within the limit of hops are made.
* `cyclesAround_exact` — the whole walk over the base denominations.
-/

namespace Backrun.Registry

variable {s : Store} {v : View} {trade : Hop} {mostHops : UInt64} {base counter : Denom}

/-! ## Pools of the index -/

/-- The index holds this pool, and it is not the one that was traded. -/
def Offers (v : View) (traded : PoolId) (base counter : Denom) (id : PoolId) : Prop :=
  indexedPool v base counter = some id ∧ id ≠ traded

/-- The index holds a pool between the two that is not the one that was traded. -/
def HasOther (v : View) (traded : PoolId) (base counter : Denom) : Prop :=
  ∃ id, Offers v traded base counter id

/-- A hop between a base denomination and another one, in either direction, through the pool that
the index holds for them. -/
def CrossesIndexed (v : View) (base : Denom) (hop : Hop) : Prop :=
  hop.denomIn = base ∧ indexedPool v base hop.denomOut = some hop.poolId
    ∨ hop.denomOut = base ∧ indexedPool v base hop.denomIn = some hop.poolId

theorem otherPool_eq_some (h : Legible PoolEntry s.get 0x03) {traded id : PoolId} :
    otherPool traded base counter s = .ok (some id) ↔ Offers s.get traded base counter id := by
  rw [otherPool, Query.bind_of_ok (unlessMissing_pool h base counter), Offers]
  cases indexedPool s.get base counter with
  | none => simp
  | some known =>
      dsimp only
      by_cases htraded : known = traded
      · rw [if_pos htraded]
        constructor
        · intro hnone
          simp at hnone
        · rintro ⟨hknown, hother⟩
          exact absurd ((Option.some.inj hknown).symm.trans htraded) hother
      · rw [if_neg htraded]
        constructor
        · intro hsome
          obtain rfl := Option.some.inj (Except.ok.inj hsome)
          exact ⟨rfl, htraded⟩
        · rintro ⟨hknown, -⟩
          exact congrArg Except.ok hknown

/-! ## The hops that the index offers -/

/-- The hops that the index offers from a base denomination around a trade. -/
inductive Around (v : View) (trade : Hop) (base : Denom) : List Hop → Prop
  /-- The base denomination was paid in, where the trade ends when it is reversed. -/
  | fromPaidIn {entry : PoolId} (hbase : base = trade.denomIn)
      (hentry : Offers v trade.poolId base trade.denomOut entry) :
      Around v trade base [⟨entry, base, trade.denomOut⟩, trade.reverse]
  /-- The base denomination was paid out, where the trade begins when it is reversed. -/
  | fromPaidOut {exit : PoolId} (hother : base ≠ trade.denomIn) (hbase : base = trade.denomOut)
      (hexit : Offers v trade.poolId base trade.denomIn exit) :
      Around v trade base [trade.reverse, ⟨exit, trade.denomIn, base⟩]
  | fromElsewhere {entry exit : PoolId} (hin : base ≠ trade.denomIn) (hout : base ≠ trade.denomOut)
      (hentry : Offers v trade.poolId base trade.denomOut entry)
      (hexit : Offers v trade.poolId base trade.denomIn exit) :
      Around v trade base [⟨entry, base, trade.denomOut⟩, trade.reverse,
        ⟨exit, trade.denomIn, base⟩]

/-- Where the index can be read, what it offers is what is tried. -/
theorem hopsAround_eq_some (h : Legible PoolEntry s.get 0x03) {hops : List Hop} :
    hopsAround trade base s = .ok (some hops) ↔ Around s.get trade base hops := by
  constructor
  · intro hhops
    rw [hopsAround] at hhops
    split at hhops
    · rename_i hin
      obtain ⟨entry, hentry, hhops⟩ := Query.bind_ok.1 hhops
      obtain ⟨id, rfl, rfl⟩ := Option.map_eq_some_iff.1 (Except.ok.inj hhops)
      exact .fromPaidIn hin ((otherPool_eq_some h).1 hentry)
    · rename_i hin
      split at hhops
      · rename_i hout
        obtain ⟨exit, hexit, hhops⟩ := Query.bind_ok.1 hhops
        obtain ⟨id, rfl, rfl⟩ := Option.map_eq_some_iff.1 (Except.ok.inj hhops)
        exact .fromPaidOut hin hout ((otherPool_eq_some h).1 hexit)
      · rename_i hout
        obtain ⟨entry, hentry, hhops⟩ := Query.bind_ok.1 hhops
        obtain ⟨exit, hexit, hhops⟩ := Query.bind_ok.1 hhops
        split at hhops
        · cases hhops
          exact .fromElsewhere hin hout ((otherPool_eq_some h).1 hentry)
            ((otherPool_eq_some h).1 hexit)
        · cases hhops
  · rintro (⟨hin, hentry⟩ | ⟨hin, hout, hexit⟩ | ⟨hin, hout, hentry, hexit⟩)
    · rw [hopsAround, if_pos hin, Query.bind_of_ok ((otherPool_eq_some h).2 hentry)]
      rfl
    · rw [hopsAround, if_neg hin, if_pos hout, Query.bind_of_ok ((otherPool_eq_some h).2 hexit)]
      rfl
    · rw [hopsAround, if_neg hin, if_neg hout, Query.bind_of_ok ((otherPool_eq_some h).2 hentry),
        Query.bind_of_ok ((otherPool_eq_some h).2 hexit)]
      rfl

namespace Around

variable {hops : List Hop}

/-- The hops lead from the base denomination back to it. -/
theorem closed (h : Around v trade base hops) :
    (Route.mk hops).base? = some base ∧ (Route.mk hops).finish? = some base := by
  cases h with
  | fromPaidIn hbase _ => exact ⟨rfl, congrArg some hbase.symm⟩
  | fromPaidOut _ hbase _ => exact ⟨congrArg some hbase.symm, rfl⟩
  | fromElsewhere _ _ _ _ => exact ⟨rfl, rfl⟩

/-- They are a cycle where the trade is no swap of a denomination into itself, which would be
reversed into another one, and where the limit admits as many hops. -/
theorem isCycle_iff (h : Around v trade base hops) :
    (Route.mk hops).IsCycle mostHops
      ↔ trade.denomIn ≠ trade.denomOut ∧ hops.length ≤ mostHops.toNat := by
  constructor
  · intro hcycle
    refine ⟨fun heq => ?_, hcycle.atMost⟩
    have hback : trade.reverse ∈ hops := by cases h <;> simp
    exact hcycle.changes _ hback heq.symm
  · rintro ⟨hchanges, hmost⟩
    have hclosed : (Route.mk hops).finish? = (Route.mk hops).base? :=
      h.closed.2.trans h.closed.1.symm
    cases h with
    | fromPaidIn hbase _ =>
        refine ⟨by simp, hmost, ?_, by simp [Hop.reverse], hclosed⟩
        simpa [Hop.reverse, hbase] using ⟨hchanges, hchanges.symm⟩
    | fromPaidOut _ hbase _ =>
        refine ⟨by simp, hmost, ?_, by simp [Hop.reverse], hclosed⟩
        simpa [Hop.reverse, hbase] using ⟨hchanges.symm, hchanges⟩
    | fromElsewhere hin hout _ _ =>
        refine ⟨by simp, hmost, ?_, by simp [Hop.reverse], hclosed⟩
        simpa [Hop.reverse] using ⟨hout, hchanges.symm, Ne.symm hin⟩

/-- The traded pool is crossed once, against the trade. -/
theorem filter_traded (h : Around v trade base hops) :
    (hops.filter fun hop => hop.poolId = trade.poolId) = [trade.reverse] := by
  cases h with
  | fromPaidIn _ hentry => simp [Hop.reverse, hentry.2]
  | fromPaidOut _ _ hexit => simp [Hop.reverse, hexit.2]
  | fromElsewhere _ _ hentry hexit => simp [Hop.reverse, hentry.2, hexit.2]

/-- Every other hop starts or ends in the base denomination and crosses the pool that the index
holds for its two denominations. -/
theorem crosses_indexed (h : Around v trade base hops) {hop : Hop} (hhop : hop ∈ hops)
    (hother : hop.poolId ≠ trade.poolId) : CrossesIndexed v base hop := by
  have hback : hop ≠ trade.reverse := by
    rintro rfl
    exact hother rfl
  cases h with
  | fromPaidIn _ hentry =>
      obtain rfl : hop = _ := by simpa [hback] using hhop
      exact .inl ⟨rfl, hentry.1⟩
  | fromPaidOut _ _ hexit =>
      obtain rfl : hop = _ := by simpa [hback] using hhop
      exact .inr ⟨rfl, hexit.1⟩
  | fromElsewhere _ _ hentry hexit =>
      obtain rfl | rfl : hop = _ ∨ hop = _ := by simpa [hback] using hhop
      · exact .inl ⟨rfl, hentry.1⟩
      · exact .inr ⟨rfl, hexit.1⟩

end Around

/-- Whether the index closes a cycle from a base denomination around a trade within so many
hops. -/
def Closes (v : View) (trade : Hop) (mostHops : UInt64) (base : Denom) : Prop :=
  trade.denomIn ≠ trade.denomOut
    ∧ if base = trade.denomIn then
        HasOther v trade.poolId base trade.denomOut ∧ 2 ≤ mostHops
      else if base = trade.denomOut then
        HasOther v trade.poolId base trade.denomIn ∧ 2 ≤ mostHops
      else
        HasOther v trade.poolId base trade.denomOut ∧ HasOther v trade.poolId base trade.denomIn
          ∧ 3 ≤ mostHops

theorem exists_around_iff :
    (∃ hops, Around v trade base hops ∧ trade.denomIn ≠ trade.denomOut
      ∧ hops.length ≤ mostHops.toNat) ↔ Closes v trade mostHops base := by
  have hlimit : ∀ n : UInt64, n.toNat ≤ mostHops.toNat ↔ n ≤ mostHops := fun n =>
    UInt64.le_iff_toNat_le.symm
  have htwo := hlimit 2
  have hthree := hlimit 3
  constructor
  · rintro ⟨_, ⟨hin, hentry⟩ | ⟨hin, hout, hexit⟩ | ⟨hin, hout, hentry, hexit⟩, hchanges, hmost⟩
    · exact ⟨hchanges, by rw [if_pos hin]; exact ⟨⟨_, hentry⟩, htwo.1 hmost⟩⟩
    · exact ⟨hchanges, by rw [if_neg hin, if_pos hout]; exact ⟨⟨_, hexit⟩, htwo.1 hmost⟩⟩
    · exact ⟨hchanges, by
        rw [if_neg hin, if_neg hout]
        exact ⟨⟨_, hentry⟩, ⟨_, hexit⟩, hthree.1 hmost⟩⟩
  · rintro ⟨hchanges, hcases⟩
    split at hcases
    · rename_i hin
      obtain ⟨⟨entry, hentry⟩, hmost⟩ := hcases
      exact ⟨_, .fromPaidIn hin hentry, hchanges, htwo.2 hmost⟩
    · rename_i hin
      split at hcases
      · rename_i hout
        obtain ⟨⟨exit, hexit⟩, hmost⟩ := hcases
        exact ⟨_, .fromPaidOut hin hout hexit, hchanges, htwo.2 hmost⟩
      · rename_i hout
        obtain ⟨⟨entry, hentry⟩, ⟨exit, hexit⟩, hmost⟩ := hcases
        exact ⟨_, .fromElsewhere hin hout hentry hexit, hchanges, hthree.2 hmost⟩

/-! ## The cycles that are made -/

theorem cycleAround_eq_some (h : Legible PoolEntry s.get 0x03) {r : Route} :
    cycleAround trade mostHops base s = .ok (some r)
      ↔ Around s.get trade base r.hops ∧ r.IsCycle mostHops := by
  obtain ⟨found, hfound⟩ := hopsAround_ok h trade base
  have hcheck : (r.validate mostHops).isOk = true ↔ r.IsCycle mostHops := by
    rw [← Route.validate_ok]
    cases r.validate mostHops with
    | ok _ => exact ⟨fun _ => rfl, fun _ => rfl⟩
    | error fault => exact ⟨nofun, nofun⟩
  have hrun : cycleAround trade mostHops base s
      = .ok ((found.map Route.mk).filter fun r => (r.validate mostHops).isOk) := by
    rw [cycleAround, Query.bind_of_ok hfound]
    rfl
  rw [hrun, Except.ok.injEq, Option.filter_eq_some_iff, hcheck, ← hopsAround_eq_some h, hfound,
    Except.ok.injEq]
  refine and_congr_left fun _ => ?_
  cases found with
  | none => simp
  | some hops => exact ⟨fun heq => by rw [← Option.some.inj heq], fun heq => by simp_all⟩

/-- The walk makes one cycle at each position from which there is one. -/
theorem mem_cyclesFrom {position : Nat} {bases : List BaseDenom} {cycles : List (Nat × Route)}
    (h : cyclesFrom trade mostHops position bases s = .ok cycles) {i : Nat} {r : Route} :
    (i, r) ∈ cycles ↔ ∃ j b, i = position + j ∧ bases[j]? = some b
      ∧ cycleAround trade mostHops b.denom s = .ok (some r) := by
  induction bases generalizing position cycles with
  | nil =>
      cases Except.ok.inj h
      simp
  | cons b rest ih =>
      obtain ⟨cycle, hcycle, h⟩ := Query.bind_ok.1 h
      obtain ⟨others, hothers, h⟩ := Query.bind_ok.1 h
      have hmem : (i, r) ∈ cycles
          ↔ (i = position ∧ cycle = some r) ∨ (i, r) ∈ others := by
        cases cycle with
        | none =>
            cases Except.ok.inj h
            simp
        | some made =>
            cases Except.ok.inj h
            rw [List.mem_cons, Prod.mk.injEq, Option.some.injEq, eq_comm (a := r)]
      rw [hmem, ih hothers]
      constructor
      · rintro (⟨rfl, rfl⟩ | ⟨j, b', rfl, hb', hmade⟩)
        · exact ⟨0, b, rfl, rfl, hcycle⟩
        · exact ⟨j + 1, b', by omega, hb', hmade⟩
      · rintro ⟨j, b', rfl, hb', hmade⟩
        cases j with
        | zero =>
            cases Option.some.inj hb'
            exact .inl ⟨rfl, Except.ok.inj (hcycle.symm.trans hmade)⟩
        | succ j => exact .inr ⟨j, b', by omega, hb', hmade⟩

/-- **The cycles around a trade are exactly the admissible ones.**  Where the pool index can be
read, the walk over the base denominations succeeds, with at most one cycle for a position and
the positions ascending.  A position has a cycle exactly if the index closes one from its base
denomination.  Every cycle is accepted by the check of routes, starts and ends in its base
denomination, crosses the traded pool once, against the trade, and crosses elsewhere the pools
that the index holds. -/
theorem cyclesAround_exact (h : Legible PoolEntry s.get 0x03) (trade : Hop)
    (bases : List BaseDenom) (mostHops : UInt64) :
    ∃ cycles, cyclesAround trade bases mostHops s = .ok cycles
      ∧ (cycles.Pairwise fun c d => c.1 < d.1)
      ∧ (∀ i, (∃ r, (i, r) ∈ cycles)
        ↔ ∃ b, bases[i]? = some b ∧ Closes s.get trade mostHops b.denom)
      ∧ ∀ i r, (i, r) ∈ cycles → ∃ b, bases[i]? = some b
        ∧ r.validate mostHops = .ok ()
        ∧ r.base? = some b.denom ∧ r.finish? = some b.denom
        ∧ (r.hops.filter fun hop => hop.poolId = trade.poolId)
          = [⟨trade.poolId, trade.denomOut, trade.denomIn⟩]
        ∧ ∀ hop ∈ r.hops, hop.poolId ≠ trade.poolId → CrossesIndexed s.get b.denom hop := by
  obtain ⟨cycles, hcycles⟩ := cyclesFrom_ok h trade mostHops 0 bases
  have hmem : ∀ i r, (i, r) ∈ cycles ↔ ∃ b, bases[i]? = some b
      ∧ Around s.get trade b.denom r.hops ∧ r.IsCycle mostHops := by
    intro i r
    rw [mem_cyclesFrom hcycles]
    simp only [cycleAround_eq_some h, Nat.zero_add]
    exact ⟨fun ⟨_, b, hi, hb⟩ => ⟨b, hi ▸ hb⟩, fun ⟨b, hb⟩ => ⟨i, b, rfl, hb⟩⟩
  refine ⟨cycles, hcycles, (pairwise_of_cyclesFrom hcycles).1, fun i => ?_, fun i r hr => ?_⟩
  · simp only [hmem, ← exists_around_iff]
    constructor
    · rintro ⟨r, b, hb, haround, hcycle⟩
      exact ⟨b, hb, r.hops, haround, haround.isCycle_iff.1 hcycle⟩
    · rintro ⟨b, hb, hops, haround, hfits⟩
      exact ⟨⟨hops⟩, b, hb, haround, haround.isCycle_iff.2 hfits⟩
  · obtain ⟨b, hb, haround, hcycle⟩ := (hmem i r).1 hr
    exact ⟨b, hb, Route.validate_ok.2 hcycle, haround.closed.1, haround.closed.2,
      haround.filter_traded, fun _ => haround.crosses_indexed⟩

/-! ## An index -/

/-- The store in which a list of pools is indexed. -/
def indexOf : List PoolEntry → Store
  | [] => Store.empty
  | e :: rest => (indexOf rest).set (Key.pool e.base e.counter) (Codec.encode e)

theorem legible_indexOf (entries : List PoolEntry) :
    Legible PoolEntry (indexOf entries).get 0x03 := by
  induction entries with
  | nil => exact .empty PoolEntry 0x03
  | cons e rest ih => exact ih.set fun _ => ⟨e, Codec.decode?_encode (PoolEntry.faithful e)⟩

/-- Entries for different pairs are all found. -/
theorem indexedPool_indexOf {entries : List PoolEntry} {e : PoolEntry}
    (hkeys : (entries.map fun e => Key.pool e.base e.counter).Nodup) (he : e ∈ entries) :
    indexedPool (indexOf entries).get e.base e.counter = some e.poolId := by
  have hget : (indexOf entries).get (Key.pool e.base e.counter) = some (Codec.encode e) := by
    induction entries with
    | nil => exact absurd he List.not_mem_nil
    | cons first rest ih =>
        rw [List.map_cons, List.nodup_cons] at hkeys
        rw [indexOf]
        rcases List.mem_cons.1 he with rfl | he
        · exact Store.get_set_self _ _ _
        · have hne : Key.pool e.base e.counter ≠ Key.pool first.base first.counter := fun heq =>
            hkeys.1 (List.mem_map.2 ⟨e, he, heq⟩)
          rw [Store.get_set_of_ne _ _ hne]
          exact ih hkeys.2 he
  rw [indexedPool, hget, Option.bind_some, Codec.decode?_encode (PoolEntry.faithful e)]
  rfl

open Simulation in
/-- Pools for a trade of atoms for osmos through pool 1, which is itself the one that is indexed
for osmos. -/
def smallIndex : List PoolEntry :=
  [⟨atom, osmo, 3⟩, ⟨osmo, atom, 1⟩, ⟨atomic, osmo, 4⟩, ⟨atomic, atom, 5⟩]

open Simulation in
/-- Among these there are cycles from atoms and from the third base denomination, but none from
osmos; and with two hops only the one from atoms. -/
theorem cyclesAround_exact_smallIndex :
    (∃ cycles, cyclesAround ⟨1, atom, osmo⟩ [⟨atom, 1⟩, ⟨osmo, 1⟩, ⟨atomic, 1⟩] 3
        (indexOf smallIndex) = .ok cycles
      ∧ (∃ r, (0, r) ∈ cycles) ∧ (¬ ∃ r, (1, r) ∈ cycles) ∧ ∃ r, (2, r) ∈ cycles)
    ∧ ∃ cycles, cyclesAround ⟨1, atom, osmo⟩ [⟨atom, 1⟩, ⟨osmo, 1⟩, ⟨atomic, 1⟩] 2
        (indexOf smallIndex) = .ok cycles
      ∧ (∃ r, (0, r) ∈ cycles) ∧ ¬ ∃ r, (2, r) ∈ cycles := by
  have hkeys : (smallIndex.map fun e => Key.pool e.base e.counter).Nodup := by decide
  have hfirst := indexedPool_indexOf (e := ⟨atom, osmo, 3⟩) hkeys (by decide)
  have hsecond := indexedPool_indexOf (e := ⟨osmo, atom, 1⟩) hkeys (by decide)
  have hentry := indexedPool_indexOf (e := ⟨atomic, osmo, 4⟩) hkeys (by decide)
  have hexit := indexedPool_indexOf (e := ⟨atomic, atom, 5⟩) hkeys (by decide)
  have hlegible := legible_indexOf smallIndex
  obtain ⟨three, hthree, -, hmade, -⟩ := cyclesAround_exact hlegible ⟨1, atom, osmo⟩
    [⟨atom, 1⟩, ⟨osmo, 1⟩, ⟨atomic, 1⟩] 3
  obtain ⟨two, htwo, -, hmade', -⟩ := cyclesAround_exact hlegible ⟨1, atom, osmo⟩
    [⟨atom, 1⟩, ⟨osmo, 1⟩, ⟨atomic, 1⟩] 2
  have hatom : HasOther (indexOf smallIndex).get 1 atom osmo := ⟨3, hfirst, by decide⟩
  have hosmo : ¬ HasOther (indexOf smallIndex).get 1 osmo atom := by
    rintro ⟨id, hid, hother⟩
    exact hother (Option.some.inj (hid.symm.trans hsecond))
  refine ⟨⟨three, hthree, (hmade 0).2 ⟨_, rfl, by decide, ?_⟩, fun h => ?_,
    (hmade 2).2 ⟨_, rfl, by decide, ?_⟩⟩, two, htwo, (hmade' 0).2 ⟨_, rfl, by decide, ?_⟩,
    fun h => ?_⟩
  · exact ⟨hatom, by decide⟩
  · obtain ⟨_, hb, -, hcloses⟩ := (hmade 1).1 h
    cases hb
    rw [if_neg (by decide), if_pos rfl] at hcloses
    exact hosmo hcloses.1
  · exact ⟨⟨4, hentry, by decide⟩, ⟨5, hexit, by decide⟩, by decide⟩
  · exact ⟨hatom, by decide⟩
  · obtain ⟨_, hb, -, hcloses⟩ := (hmade' 2).1 h
    cases hb
    rw [if_neg (by decide), if_neg (by decide)] at hcloses
    exact absurd hcloses.2.2 (by decide)

end Backrun.Registry
