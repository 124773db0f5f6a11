import Backrun.Proofs.Config.Schedules
import Backrun.Proofs.Genesis.Valid

/-!
# Every record comes back

`Codec.RoundTrips` says of a record type that each of its values comes back from its bytes in
settled form, and that no two of them share their bytes.  The values are those that are read or
built: of instants, only the last second of a minute has more than a second of nanoseconds, and of
zeros, only those of all places may have a sign.

Settling does nothing but take the sign off a zero.  Only a fraction that lost all of its digits
has one, which takes all 28 places, so the records without shares are settled as they are, and so
is everything that is valid.
-/

namespace Backrun

open Codec

/-- A settled fraction stands for the same number. -/
theorem Decimal.quantity_settled (d : Decimal) : d.settled.quantity = d.quantity := by
  by_cases hzero : d.SignedZero
  · rw [quantity_of_nonnegative hzero.negative_settled, quantity_of_negative hzero.1]
    show (d.coefficient : ℚ) / 10 ^ d.places = _
    rw [hzero.2]
    simp
  · rw [settled_eq_self.2 hzero]

/-- Values come back in settled form from their stored bytes, and differ in their bytes. -/
structure Codec.RoundTrips (α : Type) [Codec α] (settle : α → α) : Prop where
  restored : ∀ a : α, decode? (encode a) = some (settle a)
  settled : ∀ a : α, settle (settle a) = settle a
  distinct : ∀ a b : α, encode a = encode b → a = b

namespace Codec

variable {α : Type} [Codec α] {settle : α → α}

theorem Settles.roundTrips (h : Settles α settle) (hsettled : ∀ a, settle (settle a) = settle a) :
    RoundTrips α settle where
  restored a := (decode?_encode_of_plain (h.plain a)).trans (h.read a)
  settled := hsettled
  distinct a b heq := h.injective (toJson_eq_of_encode (h.plain a) (h.plain b) heq)

theorem roundTrips_of_faithful (h : ∀ a : α, Faithful a) : RoundTrips α id :=
  (settles_of_faithful h).roundTrips fun _ => rfl

end Codec

/-! ## All records -/

/-- **Every record comes back from its bytes, and no two records share theirs.**  A record without
shares comes back as it is, to the places of its numbers and the nanoseconds of its time.  A record
with shares comes back settled: a share keeps its digits, its places and its quantity, and loses
the sign of a zero of all 28 places, if it is one.  No valid schedule, configuration or document
holds such a share. -/
theorem Codec.records_round_trip :
    (RoundTrips Coin id ∧ RoundTrips Amount id ∧ RoundTrips Hop id ∧ RoundTrips Route id
      ∧ RoundTrips PairRoutes id ∧ RoundTrips BaseDenom id ∧ RoundTrips PoolEntry id
      ∧ RoundTrips PoolWeights id ∧ RoundTrips PointCounter id ∧ RoundTrips SearchParams id
      ∧ RoundTrips Instant id ∧ RoundTrips UInt64 id)
    ∧ (RoundTrips FeeTier FeeTier.settled ∧ RoundTrips FeeSchedule FeeSchedule.settled
      ∧ RoundTrips EngineConfig EngineConfig.settled ∧ RoundTrips Genesis Genesis.settled)
    ∧ (∀ d : Decimal, d.settled.coefficient = d.coefficient ∧ d.settled.places = d.places
      ∧ d.settled.quantity = d.quantity ∧ (d.SignedZero → d.places = 28))
    ∧ (∀ t : FeeTier, t.settled = t ↔ ¬ t.share.SignedZero)
    ∧ (∀ s : FeeSchedule, s.settled = s ↔ ∀ t ∈ s.tiers, ¬ t.share.SignedZero)
    ∧ (∀ c : EngineConfig, c.settled = c ↔ ∀ t ∈ c.schedule.tiers, ¬ t.share.SignedZero)
    ∧ (∀ g : Genesis, g.settled = g ↔ ∀ t ∈ g.config.schedule.tiers, ¬ t.share.SignedZero)
    ∧ (∀ s : FeeSchedule, s.validate = .ok () → s.settled = s)
    ∧ (∀ c : EngineConfig, c.validate = .ok () → c.settled = c)
    ∧ ∀ g : Genesis, g.validate = .ok () → g.settled = g := by
  have hconfig : ∀ c : EngineConfig,
      c.settled = c ↔ ∀ t ∈ c.schedule.tiers, ¬ t.share.SignedZero := fun c =>
    EngineConfig.settled_eq_self.trans FeeSchedule.settled_eq_self
  refine ⟨⟨roundTrips_of_faithful Coin.faithful, roundTrips_of_faithful Amount.faithful,
      roundTrips_of_faithful Hop.faithful, roundTrips_of_faithful Route.faithful,
      roundTrips_of_faithful PairRoutes.faithful, roundTrips_of_faithful BaseDenom.faithful,
      roundTrips_of_faithful PoolEntry.faithful, roundTrips_of_faithful PoolWeights.faithful,
      roundTrips_of_faithful PointCounter.faithful, roundTrips_of_faithful SearchParams.faithful,
      roundTrips_of_faithful Instant.faithful, roundTrips_of_faithful faithful_uint64⟩,
    ⟨FeeTier.settles.roundTrips FeeTier.settled_settled,
      FeeSchedule.settles.roundTrips FeeSchedule.settled_settled,
      EngineConfig.settles.roundTrips EngineConfig.settled_settled,
      Genesis.settles.roundTrips Genesis.settled_settled⟩,
    fun d => ⟨rfl, rfl, d.quantity_settled, fun hzero => d.places_of_zero hzero.1 hzero.2⟩,
    fun _ => FeeTier.settled_eq_self, fun _ => FeeSchedule.settled_eq_self, hconfig,
    fun g => Genesis.settled_eq_self.trans (hconfig g.config),
    fun _ => FeeSchedule.settled_of_valid, fun _ => EngineConfig.settled_of_valid, fun g hg => ?_⟩
  exact Genesis.settled_eq_self.2
    (EngineConfig.settled_of_valid (Genesis.validate_ok.1 hg).config)

/-- The configuration of an engine that nobody configured comes back as it is. -/
theorem Codec.records_round_trip_standard :
    EngineConfig.standard.validate = .ok ()
      ∧ decode? (encode EngineConfig.standard) = some EngineConfig.standard := by
  have hvalid : EngineConfig.standard.validate = .ok () := by decide +kernel
  obtain ⟨-, ⟨-, -, hconfig, -⟩, -, -, -, -, -, -, hsettled, -⟩ := records_round_trip
  refine ⟨hvalid, ?_⟩
  rw [hconfig.restored, hsettled _ hvalid]

/-- A tier whose share has lost its digits is read, and written with the sign of its zero.  These
bytes are read as another tier, which is written without it. -/
theorem Codec.signed_zero_not_restored :
    (decode? (Bytes.ofString "[null,\"-0.4e-28\"]") : Option FeeTier)
        = some ⟨none, { negative := true, coefficient := 0, places := 28 }⟩
      ∧ decode? (encode (⟨none, { negative := true, coefficient := 0, places := 28 }⟩ : FeeTier))
        = some (⟨none, { coefficient := 0, places := 28 }⟩ : FeeTier)
      ∧ encode (⟨none, { coefficient := 0, places := 28 }⟩ : FeeTier)
        ≠ encode (⟨none, { negative := true, coefficient := 0, places := 28 }⟩ : FeeTier) := by
  refine ⟨by decide +kernel, ?_, fun heq => ?_⟩
  · exact (FeeTier.settles.roundTrips FeeTier.settled_settled).restored _
  · have hsame := (FeeTier.settles.roundTrips FeeTier.settled_settled).distinct _ _ heq
    exact absurd hsame (by decide)

end Backrun
