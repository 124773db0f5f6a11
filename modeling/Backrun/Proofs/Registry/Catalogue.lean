import Backrun.Ledger.Fees
import Backrun.Proofs.Config.Valid
import Backrun.Proofs.Instant.Text
import Backrun.Proofs.Registry.Registered
import Backrun.Proofs.Registry.Slots
import Mathlib.Data.Sym.Sym2

/-!
# The store refines plain maps

`Catalogue` is what the records of the engine are without keys and bytes: routes by
unordered pair, pools by ordered pair, fees and profits by denomination, one list of base
denominations, and four single records.  `Edit` is a change of one of them.

* `Catalogue.Represents` — a view stands for a catalogue, slot by slot.
* `Edit.perform_step` — one edit: the same answer, and a view of the catalogue it leaves.
* `Edit.performAll_refines` — any number of edits, by induction.
-/

namespace Backrun

namespace DenomPair

/-- The order in which a pair is named does not matter to its canonical form. -/
theorem canonical_comm (a b : Denom) : canonical a b = canonical b a := by
  rw [canonical, canonical]
  by_cases hba : b.bytes < a.bytes
  · rw [if_pos hba, if_neg (List.lt_asymm hba)]
  · by_cases hab : a.bytes < b.bytes
    · rw [if_neg hba, if_pos hab]
    -- Neither is below the other, so they are the same.
    · have hsame : a = b := Denom.bytes_injective (List.le_antisymm (List.not_lt.1 hba)
        (List.not_lt.1 hab))
      rw [hsame]

/-- The pair without its order. -/
def unordered (p : DenomPair) : Sym2 Denom := s(p.tokenA, p.tokenB)

theorem unordered_canonical (a b : Denom) : (canonical a b).unordered = s(a, b) := by
  rw [canonical]
  split
  · exact Sym2.eq_swap
  · rfl

/-- A pair in canonical form is the canonical form of any naming of it. -/
theorem eq_canonical_iff {p : DenomPair} (hp : canonical p.tokenA p.tokenB = p) {a b : Denom} :
    p = canonical a b ↔ p.unordered = s(a, b) := by
  constructor
  · rintro rfl
    exact unordered_canonical a b
  · intro h
    rcases Sym2.eq_iff.1 h with ⟨rfl, rfl⟩ | ⟨rfl, rfl⟩
    · exact hp.symm
    · exact hp.symm.trans (canonical_comm _ _)

end DenomPair

/-- The record at an index is that of the member of the list there. -/
theorem Registry.Listed.at {v : View} {bases : List BaseDenom} (h : Listed v bases)
    (i : UInt64) : v (Key.baseDenom i) = bases[i.toNat]?.map Codec.encode := by
  by_cases hi : i.toNat < bases.length
  · have hrecord := h.record i.toNat hi
    rw [UInt64.ofNat_toNat] at hrecord
    rw [hrecord, List.getElem?_eq_getElem hi]
    rfl
  · rw [List.getElem?_eq_none (Nat.not_lt.1 hi)]
    cases hv : v (Key.baseDenom i) with
    | none => rfl
    | some b =>
        obtain ⟨j, hj, hkey⟩ := h.only _ b rfl hv
        have hindex : i.toNat = j := by
          rw [Key.baseDenom_injective hkey,
            UInt64.toNat_ofNat_of_lt' (Nat.lt_of_lt_of_le hj h.short)]
        exact absurd (hindex ▸ hj) hi

/-! ## Catalogues -/

/-- The records of the engine as plain maps. -/
structure Catalogue where
  /-- The routes of each pair, none where nothing is registered. -/
  routes : Sym2 Denom → List Route
  bases : List BaseDenom
  /-- The pool between a base denomination and another one. -/
  pools : Denom × Denom → Option PoolId
  config : Option EngineConfig
  counter : Option PointCounter
  fees : Denom → Option Amount
  time : Option Instant
  trades : Option UInt64
  profits : Denom → Option Amount

namespace Catalogue

/-- Nothing is recorded. -/
def empty : Catalogue := ⟨fun _ => [], [], fun _ => none, none, none, fun _ => none, none, none,
  fun _ => none⟩

/-- An entry that is listed among all routes. -/
def Registers (c : Catalogue) (entry : PairRoutes) : Prop :=
  DenomPair.canonical entry.pair.tokenA entry.pair.tokenB = entry.pair
    ∧ entry.routes = c.routes entry.pair.unordered ∧ entry.routes ≠ []

/-- The record of a pair, which only a pair in canonical form has. -/
def recordOf? (routes : Sym2 Denom → List Route) (p : DenomPair) : Option PairRoutes :=
  if DenomPair.canonical p.tokenA p.tokenB = p ∧ routes p.unordered ≠ [] then
    some ⟨p, routes p.unordered⟩
  else none

/-- The bytes that a slot holds. -/
def recorded (c : Catalogue) : Slot → Option Bytes
  | .routes p => (recordOf? c.routes p).map Codec.encode
  | .base i => c.bases[i.toNat]?.map Codec.encode
  | .pool a b => ((c.pools (a, b)).map (PoolEntry.mk a b)).map Codec.encode
  | .config => c.config.map Codec.encode
  | .counter => c.counter.map Codec.encode
  | .fees d => ((c.fees d).map (Coin.mk d)).map Codec.encode
  | .time => c.time.map Codec.encode
  | .trades => c.trades.map Codec.encode
  | .profits d => ((c.profits d).map (Coin.mk d)).map Codec.encode

/-! ## Edits -/

/-- A change of the records. -/
inductive Edit where
  /-- Routes for a pair, each of a limited number of hops. -/
  | setRoutes (a b : Denom) (routes : List Route) (mostHops : UInt64)
  | clearRoutes
  /-- A list in memory has no more members than a word counts. -/
  | setBaseDenoms (bases : List BaseDenom) (fits : bases.length ≤ UInt64.size)
  | setPool (base counter : Denom) (poolId : PoolId)
  | clearPools (base : Denom)
  | saveConfig (config : EngineConfig)
  | saveCounter (counter : PointCounter)
  | setGenesisTime (time : Instant)
  | setFees (total : Coin)
  | setProfit (total : Coin)
  | setTrades (count : UInt64)

namespace Edit

/-- The edit on a store. -/
def action : Edit → Action Unit
  | .setRoutes a b routes mostHops => Registry.setRoutes a b routes mostHops
  | .clearRoutes => Registry.clearRoutes
  | .setBaseDenoms bases _ => Registry.setBaseDenoms bases
  | .setPool base counter poolId => Registry.setPool base counter poolId
  | .clearPools base => Registry.clearPools base
  | .saveConfig config => Backrun.saveConfig config
  | .saveCounter counter => Budget.saveCounter counter
  | .setGenesisTime time => Ledger.setGenesisTime time
  | .setFees total => Ledger.setFees total
  | .setProfit total => Ledger.setProfit total
  | .setTrades count => Ledger.setTrades count

/-- Whether the edit is accepted, whatever is recorded. -/
def verdict : Edit → Except Error Unit
  | .setRoutes a b routes mostHops =>
      if a = b then .error (.invalidConfig (.registry (.degeneratePair a b)))
      else (PairRoutes.validateRoutes mostHops (.canonical a b) routes).mapError .invalidConfig
  | .setBaseDenoms bases _ =>
      (BaseDenom.validateList bases).mapError fun fault => .invalidConfig (.registry fault)
  | .setPool base counter _ =>
      if base = counter then .error (.invalidConfig (.registry (.degeneratePool base counter)))
      else .ok ()
  | .saveConfig config => ConfigFault.raise config.validate
  | _ => .ok ()

/-- What the edit changes if it is accepted. -/
def change (c : Catalogue) : Edit → Catalogue
  | .setRoutes a b routes _ => { c with routes := Function.update c.routes s(a, b) routes }
  | .clearRoutes => { c with routes := fun _ => [] }
  | .setBaseDenoms bases _ => { c with bases }
  | .setPool base counter poolId =>
      { c with pools := Function.update c.pools (base, counter) (some poolId) }
  | .clearPools base => { c with pools := fun p => if p.1 = base then none else c.pools p }
  | .saveConfig config => { c with config := some config }
  | .saveCounter counter => { c with counter := some counter }
  | .setGenesisTime time => { c with time := some time }
  | .setFees total => { c with fees := Function.update c.fees total.denom (some total.amount) }
  | .setProfit total =>
      { c with profits := Function.update c.profits total.denom (some total.amount) }
  | .setTrades count => { c with trades := some count }

/-- The edit on a catalogue: one that is rejected changes nothing. -/
def apply (c : Catalogue) (e : Edit) : Except Error Unit × Catalogue :=
  match e.verdict with
  | .ok () => (.ok (), e.change c)
  | .error fault => (.error fault, c)

/-- The answers to edits in order, and the catalogue after them. -/
def applyAll : List Edit → Catalogue → List (Except Error Unit) × Catalogue
  | [], c => ([], c)
  | e :: es, c =>
      let answer := e.apply c
      let rest := applyAll es answer.2
      (answer.1 :: rest.1, rest.2)

/-- The answers to edits in order, and the store after them. -/
def performAll : List Edit → Store → List (Except Error Unit) × Store
  | [], s => ([], s)
  | e :: es, s =>
      let answer := e.action.perform s
      let rest := performAll es answer.2
      (answer.1 :: rest.1, rest.2)

end Edit

/-! ## Views of a catalogue -/

/-- A view stands for a catalogue: each slot holds its bytes, and under the keys of the
engine there is nothing else. -/
structure Represents (v : View) (c : Catalogue) : Prop where
  slots : ∀ slot : Slot, v slot.key = c.recorded slot
  only : ∀ k b, Key.IsEngine k → v k = some b → ∃ slot : Slot, k = slot.key
  short : c.bases.length ≤ UInt64.size
  valid : ∀ config ∈ c.config, config.validate = .ok ()

/-- Where the engine has recorded nothing, the view stands for the empty catalogue. -/
theorem represents_empty {v : View} (h : ∀ k, Key.IsEngine k → v k = none) :
    Represents v empty where
  slots slot := by
    rw [h slot.key slot.isEngine_key]
    cases slot with
    | routes p => simp [recorded, recordOf?, empty]
    | base | pool | config | counter | fees | time | trades | profits => rfl
  only k b hk hb := by
    rw [h k hk] at hb
    exact absurd hb (by simp)
  short := Nat.zero_le _
  valid := nofun

/-! ## What each edit leaves recorded -/

section Recorded

variable (c : Catalogue) (slot : Slot)

/-- Routes that are set are recorded under the pair in canonical form, and only there. -/
theorem recorded_setRoutes (a b : Denom) (routes : List Route) (mostHops : UInt64) :
    ((Edit.setRoutes a b routes mostHops).change c).recorded slot
      = if slot = .routes (.canonical a b) then
          if routes = [] then none
          else some (Codec.encode (⟨.canonical a b, routes⟩ : PairRoutes))
        else c.recorded slot := by
  cases slot with
  | routes p =>
      simp only [Edit.change, recorded, recordOf?, Slot.routes.injEq]
      by_cases hp : DenomPair.canonical p.tokenA p.tokenB = p
      · simp only [hp, true_and, DenomPair.eq_canonical_iff hp]
        by_cases hsame : p.unordered = s(a, b)
        · have hpair := (DenomPair.eq_canonical_iff hp).2 hsame
          rw [if_pos hsame, hsame, Function.update_self, ← hpair]
          by_cases hnil : routes = [] <;> simp [hnil]
        · rw [if_neg hsame, Function.update_of_ne hsame]
      -- A pair that is not canonical has no record before or after.
      · have hother : p ≠ .canonical a b := by
          rintro rfl
          exact hp (DenomPair.canonical_canonical a b)
        simp [hp, hother]
  | base | pool | config | counter | fees | time | trades | profits => simp [Edit.change, recorded]

theorem recorded_clearRoutes :
    (Edit.clearRoutes.change c).recorded slot
      = if slot.kind = 0x01 then none else c.recorded slot := by
  cases slot <;> simp [Edit.change, recorded, recordOf?, Slot.kind]

theorem recorded_setPool (a b : Denom) (poolId : PoolId) :
    ((Edit.setPool a b poolId).change c).recorded slot
      = if slot = .pool a b then some (Codec.encode (⟨a, b, poolId⟩ : PoolEntry))
        else c.recorded slot := by
  cases slot with
  | pool base counter =>
      simp only [Edit.change, recorded, Slot.pool.injEq]
      by_cases hsame : base = a ∧ counter = b
      · obtain ⟨rfl, rfl⟩ := hsame
        simp
      · have hpair : (base, counter) ≠ (a, b) := fun h => hsame (Prod.mk.inj h)
        rw [if_neg hsame, Function.update_of_ne hpair]
  | routes | base | config | counter | fees | time | trades | profits =>
      simp [Edit.change, recorded]

theorem recorded_clearPools (base : Denom) [Decidable (∃ b, slot = .pool base b)] :
    ((Edit.clearPools base).change c).recorded slot
      = if ∃ b, slot = .pool base b then none else c.recorded slot := by
  cases slot with
  | pool a b =>
      by_cases hsame : a = base
      · simp [Edit.change, recorded, hsame]
      · simp [Edit.change, recorded, hsame]
  | routes | base | config | counter | fees | time | trades | profits =>
      simp [Edit.change, recorded]

theorem recorded_saveConfig (config : EngineConfig) :
    ((Edit.saveConfig config).change c).recorded slot
      = if slot = .config then some (Codec.encode config) else c.recorded slot := by
  cases slot <;> simp [Edit.change, recorded]

theorem recorded_saveCounter (counter : PointCounter) :
    ((Edit.saveCounter counter).change c).recorded slot
      = if slot = .counter then some (Codec.encode counter) else c.recorded slot := by
  cases slot <;> simp [Edit.change, recorded]

theorem recorded_setGenesisTime (time : Instant) :
    ((Edit.setGenesisTime time).change c).recorded slot
      = if slot = .time then some (Codec.encode time) else c.recorded slot := by
  cases slot <;> simp [Edit.change, recorded]

theorem recorded_setTrades (count : UInt64) :
    ((Edit.setTrades count).change c).recorded slot
      = if slot = .trades then some (Codec.encode count) else c.recorded slot := by
  cases slot <;> simp [Edit.change, recorded]

theorem recorded_setFees (total : Coin) :
    ((Edit.setFees total).change c).recorded slot
      = if slot = .fees total.denom then some (Codec.encode total) else c.recorded slot := by
  cases slot with
  | fees d =>
      by_cases hsame : d = total.denom
      · simp [Edit.change, recorded, hsame]
      · simp [Edit.change, recorded, hsame]
  | routes | base | pool | config | counter | time | trades | profits =>
      simp [Edit.change, recorded]

theorem recorded_setProfit (total : Coin) :
    ((Edit.setProfit total).change c).recorded slot
      = if slot = .profits total.denom then some (Codec.encode total) else c.recorded slot := by
  cases slot with
  | profits d =>
      by_cases hsame : d = total.denom
      · simp [Edit.change, recorded, hsame]
      · simp [Edit.change, recorded, hsame]
  | routes | base | pool | config | counter | fees | time | trades =>
      simp [Edit.change, recorded]

end Recorded

/-! ## One edit -/

namespace Represents

variable {s t : Store} {c c' : Catalogue}

/-- A slot that is written holds what is written.  The other slots stay as they are, and so
does everything that is not the engine's. -/
theorem write (h : Represents s.get c) {slot : Slot} {value : Option Bytes}
    (hrecorded : ∀ other, c'.recorded other = if other = slot then value else c.recorded other)
    (hshort : c'.bases.length ≤ UInt64.size)
    (hvalid : ∀ config ∈ c'.config, config.validate = .ok ()) :
    Represents (s.write slot.key value).get c'
      ∧ ∀ k, ¬ Key.IsEngine k → (s.write slot.key value).get k = s.get k := by
  refine ⟨⟨fun other => ?_, fun k b hk hb => ?_, hshort, hvalid⟩, fun k hk => ?_⟩
  · rw [Store.get_write, hrecorded, h.slots]
    simp only [Slot.key_inj]
  · rw [Store.get_write] at hb
    split at hb
    · rename_i heq
      exact ⟨slot, heq⟩
    · exact h.only k b hk hb
  · rw [Store.get_write, if_neg]
    rintro rfl
    exact hk slot.isEngine_key

/-- Slots that are removed together hold nothing.  The other slots stay as they are, and so
does everything that is not the engine's. -/
theorem deleteUnder (h : Represents s.get c) {start : Bytes}
    (hstart : ∀ k, start <+: k → Key.IsEngine k)
    (hrecorded : ∀ slot : Slot, c'.recorded slot
      = if start <+: slot.key then none else c.recorded slot)
    (hshort : c'.bases.length ≤ UInt64.size)
    (hvalid : ∀ config ∈ c'.config, config.validate = .ok ()) :
    Represents (s.deleteUnder start).get c'
      ∧ ∀ k, ¬ Key.IsEngine k → (s.deleteUnder start).get k = s.get k := by
  refine ⟨⟨fun slot => ?_, fun k b hk hb => ?_, hshort, hvalid⟩, fun k hk => ?_⟩
  · rw [Store.get_deleteUnder, hrecorded, h.slots]
  · rw [Store.get_deleteUnder] at hb
    split at hb
    · exact absurd hb (by simp)
    · exact h.only k b hk hb
  · rw [Store.get_deleteUnder, if_neg (mt (hstart k) hk)]

/-- The list of base denominations may be another one. -/
theorem setBases (h : Represents s.get c) {bases : List BaseDenom}
    (hlisted : Registry.Listed t.get bases)
    (hframe : ∀ k, Key.kind k ≠ some 0x02 → t.get k = s.get k) :
    Represents t.get { c with bases } where
  slots slot := by
    cases slot with
    | base i => exact hlisted.at i
    | routes | pool | config | counter | fees | time | trades | profits =>
        exact (hframe _ (by simp [Slot.key])).trans (h.slots _)
  only k b hk hb := by
    by_cases hkind : Key.kind k = some 0x02
    · obtain ⟨i, -, rfl⟩ := hlisted.only k b hkind hb
      exact ⟨.base (UInt64.ofNat i), rfl⟩
    · exact h.only k b hk ((hframe k hkind).symm.trans hb)
  short := hlisted.short
  valid := h.valid

end Represents

namespace Edit

variable {s : Store} {c : Catalogue}

/-- A rejected edit names its fault and leaves the store itself. -/
theorem perform_of_error {e : Edit} {fault : Error} (h : e.verdict = .error fault) :
    e.action.perform s = (.error fault, s) := by
  cases e with
  | setRoutes a b routes mostHops =>
      rw [verdict] at h
      rw [action, Registry.setRoutes]
      dsimp only
      split at h
      · rename_i hab
        rw [if_pos hab, Action.perform_bind_of_error (Action.perform_throw _ s), h]
      · rename_i hab
        rw [if_neg hab, Action.perform_bind, Action.perform_liftVerdict, h]
  | setBaseDenoms bases fits =>
      rw [verdict] at h
      rw [action, Registry.setBaseDenoms, Action.perform_bind, Action.perform_liftVerdict, h]
  | setPool base counter poolId =>
      rw [verdict] at h
      rw [action, Registry.setPool]
      split at h
      · rename_i hsame
        rw [if_pos hsame, Action.perform_bind_of_error (Action.perform_throw _ s), h]
      · exact absurd h (by simp)
  | saveConfig config =>
      rw [verdict] at h
      rw [action, Backrun.saveConfig, Action.perform_bind, Action.perform_liftVerdict, h]
  | clearRoutes | clearPools | saveCounter | setGenesisTime | setFees | setProfit | setTrades =>
      exact absurd h (by simp [verdict])

/-- An accepted edit succeeds, and leaves a view of the changed catalogue. -/
theorem perform_of_ok (h : Represents s.get c) {e : Edit} (hok : e.verdict = .ok ()) :
    ∃ t, e.action.perform s = (.ok (), t) ∧ Represents t.get (e.change c)
      ∧ ∀ k, ¬ Key.IsEngine k → t.get k = s.get k := by
  cases e with
  | setRoutes a b routes mostHops =>
      rw [verdict, Verdict.reject_ok, Verdict.mapError_ok] at hok
      refine ⟨_, Registry.setRoutes_ok.2 ⟨hok.1, hok.2, rfl⟩, ?_⟩
      have hstep := h.write (recorded_setRoutes c · a b routes mostHops) h.short h.valid
      by_cases hnil : routes = []
      · rw [if_pos hnil] at hstep
        rw [if_pos (List.isEmpty_iff.2 hnil)]
        exact hstep
      · rw [if_neg hnil] at hstep
        rw [if_neg (mt List.isEmpty_iff.1 hnil)]
        exact hstep
  | clearRoutes =>
      refine ⟨_, rfl, h.deleteUnder (fun k hk => ?_) (fun slot => ?_) h.short h.valid⟩
      · exact Key.isEngine_of_kind (Key.kind_of_start hk)
      · rw [recorded_clearRoutes]
        exact if_congr Slot.kind_prefix_iff.symm rfl rfl
  | setBaseDenoms bases fits =>
      obtain ⟨t, bases', ht, hlisted, -, hsame, hframe⟩ :=
        Registry.perform_setBaseDenoms s (Verdict.mapError_ok.1 hok)
      rw [hsame fits] at hlisted
      refine ⟨t, ht, h.setBases hlisted hframe, fun k hk => hframe k fun hkind => ?_⟩
      exact hk (Key.isEngine_of_kind hkind)
  | setPool base counter poolId =>
      rw [verdict, Verdict.reject_ok] at hok
      refine ⟨_, ?_, h.write (recorded_setPool c · base counter poolId) h.short h.valid⟩
      rw [action, Registry.setPool, if_neg hok.1]
      rfl
  | clearPools base =>
      refine ⟨_, rfl, h.deleteUnder (fun k hk => ?_) (fun slot => ?_) h.short h.valid⟩
      · exact Key.isEngine_of_kind (Key.kind_of_start hk)
      · classical
        rw [recorded_clearPools]
        exact if_congr Slot.poolsOf_prefix_iff.symm rfl rfl
  | saveConfig config =>
      have hvalid : config.validate = .ok () := Verdict.mapError_ok.1 hok
      refine ⟨_, perform_saveConfig_ok.2 ⟨hvalid, rfl⟩,
        h.write (recorded_saveConfig c · config) h.short ?_⟩
      intro other hother
      obtain rfl : config = other := Option.some.inj hother
      exact hvalid
  | saveCounter counter => exact ⟨_, rfl, h.write (recorded_saveCounter c · counter) h.short h.valid⟩
  | setGenesisTime time => exact ⟨_, rfl, h.write (recorded_setGenesisTime c · time) h.short h.valid⟩
  | setFees total => exact ⟨_, rfl, h.write (recorded_setFees c · total) h.short h.valid⟩
  | setProfit total => exact ⟨_, rfl, h.write (recorded_setProfit c · total) h.short h.valid⟩
  | setTrades count => exact ⟨_, rfl, h.write (recorded_setTrades c · count) h.short h.valid⟩

/-- One edit has the same answer on the store and on its catalogue, and leaves a view of the
changed catalogue. -/
theorem perform_step (h : Represents s.get c) (e : Edit) :
    ∃ t, e.action.perform s = ((e.apply c).1, t) ∧ Represents t.get (e.apply c).2
      ∧ ∀ k, ¬ Key.IsEngine k → t.get k = s.get k := by
  rw [apply]
  cases hverdict : e.verdict with
  | error fault => exact ⟨s, perform_of_error hverdict, h, fun _ _ => rfl⟩
  | ok u => exact perform_of_ok h hverdict

/-- Any number of edits have the same answers on the store and on its catalogue. -/
theorem performAll_refines (h : Represents s.get c) (edits : List Edit) :
    (performAll edits s).1 = (applyAll edits c).1
      ∧ Represents (performAll edits s).2.get (applyAll edits c).2
      ∧ ∀ k, ¬ Key.IsEngine k → (performAll edits s).2.get k = s.get k := by
  induction edits generalizing s c with
  | nil => exact ⟨rfl, h, fun _ _ => rfl⟩
  | cons e es ih =>
      obtain ⟨t, ht, hrepresents, hframe⟩ := perform_step h e
      obtain ⟨hanswers, hrest, hframe'⟩ := ih hrepresents
      rw [performAll, applyAll, ht]
      exact ⟨congrArg _ hanswers, hrest, fun k hk => (hframe' k hk).trans (hframe k hk)⟩

end Edit

end Catalogue

end Backrun
