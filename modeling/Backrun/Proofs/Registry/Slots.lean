import Backrun.Proofs.Registry.Bases
import Backrun.Proofs.Store.Order

/-!
# Slots

A slot is the place of one record of the engine: a kind, and what tells the record from the
others of its kind.  Each slot has a key of its own, so that a change of one slot leaves
all others as they are, and the keys below a common beginning are those of known slots.
-/

namespace Backrun

/-- The place of a record. -/
inductive Slot where
  /-- The routes of a pair. -/
  | routes (pair : DenomPair)
  /-- A member of the list of base denominations. -/
  | base (index : UInt64)
  | pool (base counter : Denom)
  | config
  | counter
  | fees (d : Denom)
  | time
  | trades
  | profits (d : Denom)
  deriving DecidableEq

namespace Slot

/-- The key under which the record stands. -/
def key : Slot → Bytes
  | .routes pair => Key.pairRoutes pair
  | .base index => Key.baseDenom index
  | .pool a b => Key.pool a b
  | .config => Key.config
  | .counter => Key.pointCounter
  | .fees d => Key.developerFees d
  | .time => Key.genesisTime
  | .trades => Key.tradeCount
  | .profits d => Key.profits d

/-- The kind of the record. -/
def kind : Slot → UInt8
  | .routes _ => 0x01
  | .base _ => 0x02
  | .pool _ _ => 0x03
  | .config => 0x04
  | .counter => 0x05
  | .fees _ => 0x06
  | .time => 0x07
  | .trades => 0x08
  | .profits _ => 0x09

@[simp]
theorem kind_key (slot : Slot) : Key.kind slot.key = some slot.kind := by
  cases slot <;> rfl

theorem isEngine_key (slot : Slot) : Key.IsEngine slot.key := by
  cases slot <;> exact Key.isEngine_of_kind rfl

/-- No two slots share a key. -/
theorem key_injective {a b : Slot} (h : a.key = b.key) : a = b := by
  have hkind : a.kind = b.kind := by
    have hkeys := congrArg Key.kind h
    rw [kind_key, kind_key] at hkeys
    exact Option.some.inj hkeys
  -- Slots of different kinds are out; within a kind the key tells the rest.
  cases a <;> cases b <;> try (simp [kind] at hkind; done)
  case routes.routes p q => rw [Key.pairRoutes_injective h]
  case base.base i j => rw [Key.baseDenom_injective h]
  case pool.pool a b c d =>
    obtain ⟨hbase, hcounter⟩ := Key.pool_injective h
    rw [hbase, hcounter]
  case config.config => rfl
  case counter.counter => rfl
  case fees.fees c d => rw [Key.developerFees_injective h]
  case time.time => rfl
  case trades.trades => rfl
  case profits.profits c d => rw [Key.profits_injective h]

@[simp]
theorem key_inj {a b : Slot} : a.key = b.key ↔ a = b := ⟨key_injective, congrArg key⟩

/-- A kind's byte begins the keys of its slots. -/
theorem kind_prefix_iff {b : UInt8} {slot : Slot} : [b] <+: slot.key ↔ slot.kind = b := by
  rw [Key.singleton_prefix_iff, kind_key, Option.some_inj]

/-- The pools of a base denomination stand under its beginning, and nothing else does. -/
theorem poolsOf_prefix_iff {d : Denom} {slot : Slot} :
    Key.poolsOf d <+: slot.key ↔ ∃ b, slot = .pool d b := by
  constructor
  · intro h
    have hkind : slot.kind = 0x03 := by
      have hkey := Key.kind_of_start h
      rw [kind_key] at hkey
      exact Option.some.inj hkey
    cases slot with
    | pool a b => exact ⟨b, by rw [Key.poolsOf_prefix_pool_iff.1 h]⟩
    | routes | base | config | counter | fees | time | trades | profits =>
        exact absurd hkind (by simp [kind])
  · rintro ⟨b, rfl⟩
    exact Key.poolsOf_prefix_pool_iff.2 rfl

end Slot

end Backrun
