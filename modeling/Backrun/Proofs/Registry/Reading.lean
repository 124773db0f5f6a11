import Backrun.Proofs.Registry.Catalogue
import Backrun.Proofs.Simulation.Generous

/-!
# Reading a catalogue

A store that stands for a catalogue is read as that catalogue (`Shows`): a look-up answers
what the map has there, and a listing has exactly the entries of its map, in the order of
their denominations.  With the refinement of edits this says of any sequence of changes
what every reader of the store sees after it.
-/

namespace Backrun.Catalogue

/-- What is found, or that it is missing. -/
def orMissing {α : Type} (missing : Missing) : Option α → Except Error α
  | some a => .ok a
  | none => .error (.notFound missing)

/-- A store is read as a catalogue: every look-up answers what the catalogue has there, and
every listing has exactly the entries of its kind, in order. -/
structure Shows (s : Store) (c : Catalogue) : Prop where
  routes : ∀ a b, Registry.routes a b s = orMissing (.routes (.canonical a b))
    (if c.routes s(a, b) = [] then none else some ⟨.canonical a b, c.routes s(a, b)⟩)
  routes_comm : ∀ a b, Registry.routes a b s = Registry.routes b a s
  bases : Registry.baseDenoms s = .ok c.bases
  pool : ∀ a b, Registry.pool a b s = orMissing (.poolFor a b) (c.pools (a, b))
  config : storedConfig s = orMissing .config c.config
  counter : Budget.counter s = orMissing .pointCounter c.counter
  fees : ∀ d, Ledger.fees d s = orMissing (.developerFees d) ((c.fees d).map (Coin.mk d))
  time : Ledger.genesisTime s = orMissing .genesisTime c.time
  /-- Nothing was counted before the first count. -/
  trades : Ledger.trades s = .ok (c.trades.getD 0)
  profit : ∀ d, Ledger.profit d s = orMissing (.profits d) ((c.profits d).map (Coin.mk d))
  allRoutes : ∃ entries, Registry.allRoutes s = .ok entries
    ∧ (entries.Pairwise fun x y => Denom.PairBefore (x.pair.tokenA, x.pair.tokenB)
        (y.pair.tokenA, y.pair.tokenB))
    ∧ ∀ entry, entry ∈ entries ↔ c.Registers entry
  allPools : ∃ entries, Registry.allPools s = .ok entries
    ∧ (entries.Pairwise fun x y => Denom.PairBefore (x.base, x.counter) (y.base, y.counter))
    ∧ ∀ e, e ∈ entries ↔ c.pools (e.base, e.counter) = some e.poolId
  allFees : ∃ coins, Ledger.allFees s = .ok coins
    ∧ (coins.Pairwise fun x y => x.denom.Before y.denom)
    ∧ ∀ coin, coin ∈ coins ↔ c.fees coin.denom = some coin.amount
  allProfits : ∃ coins, Ledger.allProfits s = .ok coins
    ∧ (coins.Pairwise fun x y => x.denom.Before y.denom)
    ∧ ∀ coin, coin ∈ coins ↔ c.profits coin.denom = some coin.amount

namespace Represents

variable {s : Store} {c : Catalogue} {α : Type} [Codec α]

/-- A record is loaded from its slot. -/
theorem load (h : Represents s.get c) (slot : Slot) (record : Option α)
    (hrecord : c.recorded slot = record.map Codec.encode)
    (hfaithful : ∀ a ∈ record, Codec.Faithful a) (missing : Missing) :
    Query.load slot.key missing s = orMissing missing record := by
  have hslot := (h.slots slot).trans hrecord
  cases record with
  | none => exact Query.load_of_get_none hslot missing
  | some a => exact Query.load_of_get (hfaithful a rfl) hslot missing

/-- The records of a kind are listed in key order, each of them and no others. -/
theorem listing (h : Represents s.get c) (kind : UInt8) (slotOf : α → Slot) (listed : α → Prop)
    (hfaithful : ∀ a : α, Codec.Faithful a) (hkind : ∀ a, (slotOf a).kind = kind)
    (hsound : ∀ slot b, slot.kind = kind → c.recorded slot = some b →
      ∃ a, slot = slotOf a ∧ b = Codec.encode a ∧ listed a)
    (hcomplete : ∀ a, listed a → c.recorded (slotOf a) = some (Codec.encode a))
    (hengine : 0x01 ≤ kind ∧ kind ≤ 0x09 := by decide) :
    ∃ as : List α, Query.loadAll [kind] s = .ok as
      ∧ (as.Pairwise fun x y => (slotOf x).key < (slotOf y).key) ∧ ∀ a, a ∈ as ↔ listed a := by
  have hfiled : Filed s.get kind (fun a => (slotOf a).key) listed := by
    intro k b hk hb
    obtain ⟨slot, rfl⟩ := h.only k b (Key.isEngine_of_kind hk hengine.1 hengine.2) hb
    rw [Slot.kind_key, Option.some_inj] at hk
    obtain ⟨a, rfl, rfl, ha⟩ := hsound slot b hk ((h.slots slot).symm.trans hb)
    exact ⟨a, rfl, rfl, ha⟩
  obtain ⟨as, hload, hlisted, hascending, hkeys⟩ := hfiled.exists_ascending hfaithful
  refine ⟨as, hload, hascending, fun a => ⟨hlisted a, fun ha => ?_⟩⟩
  have hget : s.get (slotOf a).key = some (Codec.encode a) := (h.slots _).trans (hcomplete a ha)
  have hkindKey : Key.kind (slotOf a).key = some kind := by rw [Slot.kind_key, hkind]
  obtain ⟨a', ha', -, hencode⟩ := (hkeys _ _ hkindKey).1 hget
  rwa [Codec.encode_injective (hfaithful a) (hfaithful a') hencode]

/-- The bases of a catalogue are the list that the view holds. -/
theorem listed (h : Represents s.get c) : Registry.Listed s.get c.bases where
  short := h.short
  record i hi := by
    have hslot := h.slots (.base (UInt64.ofNat i))
    have hword : i < UInt64.size := Nat.lt_of_lt_of_le hi h.short
    rw [Slot.key, recorded, UInt64.toNat_ofNat_of_lt' hword, List.getElem?_eq_getElem hi] at hslot
    exact hslot
  only k b hk hb := by
    obtain ⟨slot, rfl⟩ := h.only k b (Key.isEngine_of_kind hk) hb
    rw [Slot.kind_key, Option.some_inj] at hk
    cases slot with
    | base i =>
        rw [h.slots, recorded, Option.map_eq_some_iff] at hb
        obtain ⟨base, hbase, -⟩ := hb
        obtain ⟨hi, -⟩ := List.getElem?_eq_some_iff.1 hbase
        exact ⟨i.toNat, hi, by rw [UInt64.ofNat_toNat, Slot.key]⟩
    | routes | pool | config | counter | fees | time | trades | profits =>
        exact absurd hk (by simp [Slot.kind])

theorem recordOf?_canonical (routes : Sym2 Denom → List Route) (a b : Denom) :
    recordOf? routes (.canonical a b)
      = if routes s(a, b) = [] then none else some ⟨.canonical a b, routes s(a, b)⟩ := by
  rw [recordOf?, DenomPair.unordered_canonical]
  by_cases hnil : routes s(a, b) = [] <;> simp [hnil, DenomPair.canonical_canonical]

theorem recordOf?_eq_some {routes : Sym2 Denom → List Route} {p : DenomPair} {entry : PairRoutes} :
    recordOf? routes p = some entry
      ↔ entry.pair = p ∧ DenomPair.canonical p.tokenA p.tokenB = p
        ∧ entry.routes = routes p.unordered ∧ entry.routes ≠ [] := by
  obtain ⟨pair, list⟩ := entry
  rw [recordOf?]
  split
  · rename_i hp
    simp only [Option.some_inj, PairRoutes.mk.injEq]
    constructor
    · rintro ⟨rfl, rfl⟩
      exact ⟨rfl, hp.1, rfl, hp.2⟩
    · rintro ⟨rfl, -, rfl, -⟩
      exact ⟨rfl, rfl⟩
  · rename_i hp
    refine ⟨fun h => absurd h (Option.some_ne_none _).symm, ?_⟩
    rintro ⟨-, hcanonical, hroutes, hnonempty⟩
    exact absurd ⟨hcanonical, hroutes ▸ hnonempty⟩ hp

/-- The listing of all routes. -/
theorem allRoutes (h : Represents s.get c) :
    ∃ entries, Registry.allRoutes s = .ok entries
      ∧ (entries.Pairwise fun x y => Denom.PairBefore (x.pair.tokenA, x.pair.tokenB)
        (y.pair.tokenA, y.pair.tokenB))
      ∧ ∀ entry, entry ∈ entries ↔ c.Registers entry := by
  simp only [← Key.pairRoutes_lt_iff]
  refine h.listing (α := PairRoutes) 0x01 (fun entry => .routes entry.pair) c.Registers
    PairRoutes.faithful (fun _ => rfl) (fun slot b hslot hb => ?_) fun entry hentry => ?_
  · cases slot with
    | routes p =>
        rw [recorded, Option.map_eq_some_iff] at hb
        obtain ⟨entry, hentry, rfl⟩ := hb
        obtain ⟨rfl, hregisters⟩ := recordOf?_eq_some.1 hentry
        exact ⟨entry, rfl, rfl, hregisters⟩
    | base | pool | config | counter | fees | time | trades | profits =>
        exact absurd hslot (by simp [Slot.kind])
  · rw [recorded, recordOf?_eq_some.2 ⟨rfl, hentry⟩]
    rfl

/-- The listing of all pools. -/
theorem allPools (h : Represents s.get c) :
    ∃ entries, Registry.allPools s = .ok entries
      ∧ (entries.Pairwise fun x y => Denom.PairBefore (x.base, x.counter) (y.base, y.counter))
      ∧ ∀ e, e ∈ entries ↔ c.pools (e.base, e.counter) = some e.poolId := by
  simp only [← Key.pool_lt_iff]
  refine h.listing (α := PoolEntry) 0x03 (fun e => .pool e.base e.counter)
    (fun e => c.pools (e.base, e.counter) = some e.poolId) PoolEntry.faithful (fun _ => rfl)
    (fun slot b hslot hb => ?_) fun e he => ?_
  · cases slot with
    | pool base counter =>
        rw [recorded, Option.map_eq_some_iff] at hb
        obtain ⟨e, he, rfl⟩ := hb
        obtain ⟨id, hid, rfl⟩ := Option.map_eq_some_iff.1 he
        exact ⟨_, rfl, rfl, hid⟩
    | routes | base | config | counter | fees | time | trades | profits =>
        exact absurd hslot (by simp [Slot.kind])
  · rw [recorded, he]
    rfl

/-- The listing of all fees. -/
theorem allFees (h : Represents s.get c) :
    ∃ coins, Ledger.allFees s = .ok coins
      ∧ (coins.Pairwise fun x y => x.denom.Before y.denom)
      ∧ ∀ coin, coin ∈ coins ↔ c.fees coin.denom = some coin.amount := by
  simp only [← Key.developerFees_lt_iff]
  refine h.listing (α := Coin) 0x06 (fun coin => .fees coin.denom)
    (fun coin => c.fees coin.denom = some coin.amount) Coin.faithful (fun _ => rfl)
    (fun slot b hslot hb => ?_) fun coin hcoin => ?_
  · cases slot with
    | fees d =>
        rw [recorded, Option.map_eq_some_iff] at hb
        obtain ⟨coin, hcoin, rfl⟩ := hb
        obtain ⟨amount, hamount, rfl⟩ := Option.map_eq_some_iff.1 hcoin
        exact ⟨_, rfl, rfl, hamount⟩
    | routes | base | pool | config | counter | time | trades | profits =>
        exact absurd hslot (by simp [Slot.kind])
  · rw [recorded, hcoin]
    rfl

/-- The listing of all profits. -/
theorem allProfits (h : Represents s.get c) :
    ∃ coins, Ledger.allProfits s = .ok coins
      ∧ (coins.Pairwise fun x y => x.denom.Before y.denom)
      ∧ ∀ coin, coin ∈ coins ↔ c.profits coin.denom = some coin.amount := by
  simp only [← Key.profits_lt_iff]
  refine h.listing (α := Coin) 0x09 (fun coin => .profits coin.denom)
    (fun coin => c.profits coin.denom = some coin.amount) Coin.faithful (fun _ => rfl)
    (fun slot b hslot hb => ?_) fun coin hcoin => ?_
  · cases slot with
    | profits d =>
        rw [recorded, Option.map_eq_some_iff] at hb
        obtain ⟨coin, hcoin, rfl⟩ := hb
        obtain ⟨amount, hamount, rfl⟩ := Option.map_eq_some_iff.1 hcoin
        exact ⟨_, rfl, rfl, hamount⟩
    | routes | base | pool | config | counter | fees | time | trades =>
        exact absurd hslot (by simp [Slot.kind])
  · rw [recorded, hcoin]
    rfl

/-- The pool between two denominations. -/
theorem pool (h : Represents s.get c) (a b : Denom) :
    Registry.pool a b s = orMissing (.poolFor a b) (c.pools (a, b)) := by
  have hload := h.load (.pool a b) ((c.pools (a, b)).map (PoolEntry.mk a b))
    rfl (fun e _ => PoolEntry.faithful e) (.poolFor a b)
  rw [Registry.pool, Query.bind_apply]
  change ((Query.load (Slot.pool a b).key (.poolFor a b) s).bind fun e : PoolEntry =>
    .ok e.poolId) = _
  rw [hload]
  cases c.pools (a, b) <;> rfl

/-- The count of trades, zero before the first one. -/
theorem trades (h : Represents s.get c) : Ledger.trades s = .ok (c.trades.getD 0) := by
  have hslot := h.slots .trades
  rw [Ledger.trades]
  cases hcount : c.trades with
  | none =>
      rw [Slot.key, recorded, hcount] at hslot
      rw [Query.bind_of_ok (Query.find_of_get_none hslot)]
      rfl
  | some count =>
      rw [Slot.key, recorded, hcount] at hslot
      rw [Query.bind_of_ok (Query.find_of_get (Codec.faithful_uint64 count) hslot)]
      rfl

/-- A store that stands for a catalogue is read as that catalogue. -/
theorem shows (h : Represents s.get c) : Shows s c where
  routes a b := by
    rw [← recordOf?_canonical]
    exact h.load (.routes (.canonical a b)) (recordOf? c.routes (.canonical a b)) (by rw [recorded])
      (fun e _ => PairRoutes.faithful e) _
  routes_comm a b := by rw [Registry.routes, Registry.routes, DenomPair.canonical_comm]
  bases := Registry.baseDenoms_of_listed h.listed
  pool := h.pool
  config := h.load .config c.config rfl
    (fun x hx => EngineConfig.faithful (h.valid x hx)) _
  counter := h.load .counter c.counter rfl
    (fun x _ => PointCounter.faithful x) _
  fees d := h.load (.fees d) ((c.fees d).map (Coin.mk d)) rfl (fun x _ => Coin.faithful x) _
  time := h.load .time c.time rfl (fun x _ => Instant.faithful x) _
  trades := h.trades
  profit d := h.load (.profits d) ((c.profits d).map (Coin.mk d)) rfl
    (fun x _ => Coin.faithful x) _
  allRoutes := h.allRoutes
  allPools := h.allPools
  allFees := h.allFees
  allProfits := h.allProfits

end Represents

/-- **The store refines plain maps.**  Where the engine has recorded nothing, any edits have the
answers that they have on plain maps, and the store is then read as the maps that they leave.
An edit that is rejected leaves the store itself, and no edit touches what is not the
engine's. -/
theorem refines_catalogue (s : Store) (hs : ∀ k, Key.IsEngine k → s.get k = none)
    (edits : List Edit) :
    let run := Edit.performAll edits s
    let plain := Edit.applyAll edits empty
    run.1 = plain.1 ∧ Shows run.2 plain.2
      ∧ (∀ (e : Edit) fault t, e.action.perform run.2 = (.error fault, t) → t = run.2)
      ∧ ∀ k, ¬ Key.IsEngine k → run.2.get k = s.get k := by
  intro run plain
  obtain ⟨hanswers, hrepresents, hframe⟩ :=
    Edit.performAll_refines (represents_empty hs) edits
  refine ⟨hanswers, hrepresents.shows, fun e fault t he => ?_, hframe⟩
  cases hverdict : e.verdict with
  | error fault' =>
      rw [Edit.perform_of_error hverdict] at he
      exact (congrArg Prod.snd he).symm
  | ok u =>
      obtain ⟨t', ht', -⟩ := Edit.perform_of_ok hrepresents hverdict
      rw [ht'] at he
      exact absurd (congrArg Prod.fst he) (by simp)

/-- Edits of two pools, the base denomination of one of which begins that of the other, with a
rejected one among them. -/
def edits : List Edit :=
  [.setRoutes Simulation.osmo Simulation.atom [Simulation.roundTrip] 6,
    .setPool Simulation.atomic Simulation.osmo 4, .setPool Simulation.atom Simulation.atom 1,
    .setPool Simulation.atom Simulation.osmo 3, .clearPools Simulation.atom]

/-- In a branch over a key of somebody else: the routes are found in either order, and the
pools that were cleared are those of one base denomination only. -/
theorem refines_catalogue_edits :
    ∃ s t : Store, s = (Store.empty.set [0x42] [0x01]).openBranch
      ∧ t = (Edit.performAll edits s).2
      ∧ Registry.routes Simulation.atom Simulation.osmo t
        = .ok ⟨⟨Simulation.atom, Simulation.osmo⟩, [Simulation.roundTrip]⟩
      ∧ Registry.pool Simulation.atomic Simulation.osmo t = .ok 4
      ∧ Registry.pool Simulation.atom Simulation.osmo t
        = .error (.notFound (.poolFor Simulation.atom Simulation.osmo))
      ∧ t.get [0x42] = some [0x01] := by
  have houtside : ¬ Key.IsEngine [0x42] := Key.not_isEngine_of_kind rfl
  have hnothing : ∀ k, Key.IsEngine k →
      (Store.empty.set [0x42] [0x01]).openBranch.get k = none := by
    intro k hk
    rw [Store.get_openBranch, Store.get_set, if_neg, Store.get_empty]
    rintro rfl
    exact houtside hk
  have hroutes : (Edit.applyAll edits empty).2.routes
      = Function.update (fun _ => []) s(Simulation.osmo, Simulation.atom)
        [Simulation.roundTrip] := by
    have hset : (Edit.setRoutes Simulation.osmo Simulation.atom [Simulation.roundTrip] 6).verdict
        = .ok () := by decide +kernel
    have hpool : (Edit.setPool Simulation.atomic Simulation.osmo 4).verdict = .ok () := by
      decide +kernel
    have hpool' : (Edit.setPool Simulation.atom Simulation.osmo 3).verdict = .ok () := by
      decide +kernel
    simp only [edits, Edit.applyAll, Edit.apply, hset, hpool, hpool']
    rfl
  obtain ⟨-, hshows, -, hframe⟩ := refines_catalogue _ hnothing edits
  refine ⟨_, _, rfl, rfl, ?_, ?_, ?_, ?_⟩
  · have hcanonical : DenomPair.canonical Simulation.atom Simulation.osmo
        = ⟨Simulation.atom, Simulation.osmo⟩ := by decide +kernel
    rw [hshows.routes, hroutes, Sym2.eq_swap, Function.update_self, hcanonical]
    rfl
  · rw [hshows.pool]
    decide +kernel
  · rw [hshows.pool]
    decide +kernel
  · rw [hframe _ houtside]
    rfl

end Backrun.Catalogue
