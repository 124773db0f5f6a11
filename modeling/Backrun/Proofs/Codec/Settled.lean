import Backrun.Proofs.Codec.Decimals
import Backrun.Proofs.Instant.Text

/-!
# Records with shares read back

The records that hold shares settle as their shares do: what is read back is the record with
`settled` shares, which differs from the one that was written in the signs of zeros only.
-/

namespace Backrun

open Codec

/-! ## Settled records -/

/-- A tier with a settled share. -/
def FeeTier.settled (t : FeeTier) : FeeTier := { t with share := t.share.settled }

/-- A schedule of settled tiers. -/
def FeeSchedule.settled (s : FeeSchedule) : FeeSchedule := ⟨s.tiers.map FeeTier.settled⟩

/-- A configuration with a settled schedule. -/
def EngineConfig.settled (c : EngineConfig) : EngineConfig :=
  { c with schedule := c.schedule.settled }

/-- A document with a settled configuration. -/
def Genesis.settled (g : Genesis) : Genesis := { g with config := g.config.settled }

theorem FeeTier.settled_eq_self {t : FeeTier} : t.settled = t ↔ ¬ t.share.SignedZero := by
  rw [← Decimal.settled_eq_self]
  exact ⟨fun h => congrArg FeeTier.share h, fun h => by rw [FeeTier.settled, h]⟩

theorem FeeSchedule.settled_eq_self {s : FeeSchedule} :
    s.settled = s ↔ ∀ t ∈ s.tiers, ¬ t.share.SignedZero := by
  obtain ⟨tiers⟩ := s
  have hall : tiers.map FeeTier.settled = tiers.map id
      ↔ ∀ t ∈ tiers, ¬ t.share.SignedZero := by
    rw [List.map_inj_left]
    exact forall₂_congr fun t _ => FeeTier.settled_eq_self
  rw [List.map_id] at hall
  rw [FeeSchedule.settled, FeeSchedule.mk.injEq]
  exact hall

theorem EngineConfig.settled_eq_self {c : EngineConfig} :
    c.settled = c ↔ c.schedule.settled = c.schedule :=
  ⟨fun h => congrArg EngineConfig.schedule h, fun h => by rw [EngineConfig.settled, h]⟩

theorem Genesis.settled_eq_self {g : Genesis} : g.settled = g ↔ g.config.settled = g.config :=
  ⟨fun h => congrArg Genesis.config h, fun h => by rw [Genesis.settled, h]⟩

theorem FeeTier.settled_settled (t : FeeTier) : t.settled.settled = t.settled :=
  FeeTier.settled_eq_self.2 (Decimal.not_signedZero_settled t.share)

theorem FeeSchedule.settled_settled (s : FeeSchedule) : s.settled.settled = s.settled := by
  refine FeeSchedule.settled_eq_self.2 fun t ht => ?_
  obtain ⟨t', -, rfl⟩ := List.mem_map.1 ht
  exact Decimal.not_signedZero_settled t'.share

theorem EngineConfig.settled_settled (c : EngineConfig) : c.settled.settled = c.settled :=
  EngineConfig.settled_eq_self.2 (FeeSchedule.settled_settled c.schedule)

theorem Genesis.settled_settled (g : Genesis) : g.settled.settled = g.settled :=
  Genesis.settled_eq_self.2 (EngineConfig.settled_settled g.config)

/-! ## Written forms -/

theorem FeeTier.settles : Settles FeeTier FeeTier.settled where
  plain t := ⟨plain_optionJson fun n _ => faithful_uint64 n, Decimal.settles.plain t.share, trivial⟩
  read t := by
    have hday : Fields.optional true (some (optionJson t.untilDay)) = some t.untilDay :=
      Fields.optional_optionJson (fun n _ => faithful_uint64 n) fun n _ => nofun
    have hshare := Decimal.settles.read t.share
    unfold instCodecFeeTier
    simp [Fields.required, hshare, hday, FeeTier.settled]
  injective {t u} heq := by
    obtain ⟨day, share⟩ := t
    obtain ⟨day', share'⟩ := u
    unfold instCodecFeeTier at heq
    simp only [Json.object.injEq, List.cons.injEq, Prod.mk.injEq, true_and, and_true] at heq
    obtain ⟨hday, hshare⟩ := heq
    rw [optionJson_injective faithful_uint64 (fun n => nofun) hday,
      Decimal.settles.injective hshare]

theorem FeeSchedule.settles : Settles FeeSchedule FeeSchedule.settled where
  plain s := ⟨FeeTier.settles.list.plain s.tiers, trivial⟩
  read s := by
    have htiers := FeeTier.settles.list.read s.tiers
    unfold instCodecFeeSchedule
    simp [Fields.required, htiers, FeeSchedule.settled]
  injective {s t} heq := by
    obtain ⟨tiers⟩ := s
    obtain ⟨tiers'⟩ := t
    unfold instCodecFeeSchedule at heq
    simp only [Json.object.injEq, List.cons.injEq, Prod.mk.injEq, true_and, and_true] at heq
    rw [FeeTier.settles.list.injective heq]

theorem EngineConfig.settles : Settles EngineConfig EngineConfig.settled where
  plain c := ⟨(faithful_bool _).plain, plain_optionJson fun a _ => Account.faithful a,
    plain_optionJson fun a _ => Account.faithful a, (faithful_uint64 _).plain,
    (faithful_uint64 _).plain, (PoolWeights.faithful _).plain, (SearchParams.faithful _).plain,
    FeeSchedule.settles.plain c.schedule, trivial⟩
  read c := by
    have haccount : ∀ a : Option Account,
        Fields.optional true (some (optionJson a)) = some a := fun a =>
      Fields.optional_optionJson (fun a _ => Account.faithful a) fun a _ => nofun
    have hschedule := FeeSchedule.settles.read c.schedule
    unfold instCodecEngineConfig
    simp [Fields.required, hschedule, haccount, EngineConfig.settled]
  injective {c d} heq := by
    obtain ⟨_, _, _, _, _, _, _, _⟩ := c
    obtain ⟨_, _, _, _, _, _, _, _⟩ := d
    unfold instCodecEngineConfig at heq
    simp only [Json.object.injEq, List.cons.injEq, Prod.mk.injEq, true_and, and_true] at heq
    obtain ⟨henabled, hadmin, hdeveloper, htx, hblock, hweights, hsearch, hschedule⟩ := heq
    have haccount : ∀ a : Account, toJson a ≠ .null := fun a => nofun
    rw [(settles_of_faithful faithful_bool).injective henabled,
      optionJson_injective Account.faithful haccount hadmin,
      optionJson_injective Account.faithful haccount hdeveloper,
      (settles_of_faithful faithful_uint64).injective htx,
      (settles_of_faithful faithful_uint64).injective hblock,
      (settles_of_faithful PoolWeights.faithful).injective hweights,
      (settles_of_faithful SearchParams.faithful).injective hsearch,
      FeeSchedule.settles.injective hschedule]

theorem Genesis.settles : Settles Genesis Genesis.settled where
  plain g := ⟨EngineConfig.settles.plain g.config,
    (faithful_list fun x _ => PairRoutes.faithful x).plain,
    (faithful_list fun x _ => BaseDenom.faithful x).plain,
    (faithful_list fun x _ => PoolEntry.faithful x).plain,
    (faithful_list fun x _ => Coin.faithful x).plain, (PointCounter.faithful _).plain,
    (Instant.faithful _).plain, (faithful_uint64 _).plain,
    (faithful_list fun x _ => Coin.faithful x).plain, trivial⟩
  read g := by
    have hconfig := EngineConfig.settles.read g.config
    unfold instCodecGenesis
    simp [Fields.required, Fields.withDefault, hconfig, Instant.faithful, Genesis.settled]
  injective {g g'} heq := by
    obtain ⟨_, _, _, _, _, _, _, _, _⟩ := g
    obtain ⟨_, _, _, _, _, _, _, _, _⟩ := g'
    unfold instCodecGenesis at heq
    simp only [Json.object.injEq, List.cons.injEq, Prod.mk.injEq, true_and, and_true] at heq
    obtain ⟨hconfig, hroutes, hbases, hpools, hfees, hcounter, htime, htrades, hprofits⟩ := heq
    rw [EngineConfig.settles.injective hconfig,
      (settles_of_faithful PairRoutes.faithful).list.injective hroutes,
      (settles_of_faithful BaseDenom.faithful).list.injective hbases,
      (settles_of_faithful PoolEntry.faithful).list.injective hpools,
      (settles_of_faithful Coin.faithful).list.injective hfees,
      (settles_of_faithful PointCounter.faithful).injective hcounter,
      (settles_of_faithful Instant.faithful).injective htime,
      (settles_of_faithful faithful_uint64).injective htrades,
      (settles_of_faithful Coin.faithful).list.injective hprofits]

end Backrun
