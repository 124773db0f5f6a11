import Backrun.Proofs.Simulation.RoundTrip

/-!
# Points spent in a block

Between two starts of the count the counter shows what executed cycles have spent, less what
governance has forgiven: a ceiling for blocks that is set below the counter clamps it, and the
points above are forgotten.  One call keeps this balance (`counter_of_continued`), and so
do whole runs (`counter_of_allContinued`).
-/

namespace Backrun

namespace Call

/-! ## Accounts of a run -/

/-- The points that a call forgives: a ceiling for blocks below the counter forgets the
difference. -/
def forgiven (c : Call) (s : Store) : Nat :=
  match c.operation, c.reply s, Budget.counter s with
  | .govern _ (.pointsPerBlock ceiling), .changed (.ok _), .ok counted =>
      counted.consumed.toNat - ceiling.toNat
  | _, _, _ => 0

/-- The points that calls in order forgive. -/
def forgivenBy : List Call → Store → Nat
  | [], _ => 0
  | c :: calls, s => c.forgiven s + forgivenBy calls (c.leave s)

/-- The points of all cycles that calls in order execute. -/
def spentBy : List Call → Store → Nat
  | [], _ => 0
  | c :: calls, s => (c.reply s).points + spentBy calls (c.leave s)

/-- Whether a call starts the count of points anew. -/
def Renews (c : Call) (s : Store) : Prop :=
  ∃ block trade, c.operation = .postTrade block trade ∧ Engine.Renews block s

/-- Calls none of which starts the count of points anew. -/
def Continues : List Call → Store → Prop
  | [], _ => True
  | c :: calls, s => ¬ c.Renews s ∧ Continues calls (c.leave s)

/-- A ceiling for blocks that is in force before, between or after calls. -/
def InForce (calls : List Call) (s : Store) (ceiling : UInt64) : Prop :=
  ∃ made config, made <+: calls ∧ storedConfig (leaveAll made s) = .ok config
    ∧ config.pointsPerBlock = ceiling

theorem InForce.now {s : Store} {ceiling : UInt64} (h : InForce [] s ceiling) :
    ∃ config, storedConfig s = .ok config ∧ config.pointsPerBlock = ceiling := by
  obtain ⟨made, config, hmade, hconfig, hceiling⟩ := h
  obtain rfl := List.prefix_nil.1 hmade
  exact ⟨config, hconfig, hceiling⟩

/-- A ceiling is in force before the first call, or from then on. -/
theorem InForce.cases {c : Call} {calls : List Call} {s : Store} {ceiling : UInt64}
    (h : InForce (c :: calls) s ceiling) :
    (∃ config, storedConfig s = .ok config ∧ config.pointsPerBlock = ceiling)
      ∨ InForce calls (c.leave s) ceiling := by
  obtain ⟨made, config, hmade, hconfig, hceiling⟩ := h
  rcases List.prefix_cons_iff.1 hmade with rfl | ⟨rest, rfl, hrest⟩
  · exact .inl ⟨config, hconfig, hceiling⟩
  · exact .inr ⟨rest, config, hrest, hconfig, hceiling⟩

end Call

namespace Coherent

variable {s : Store} {config : EngineConfig} {counted : PointCounter} {c : Call}
  {calls : List Call}

theorem renews_iff (h : Coherent s.get config counted) {block : Block} :
    Engine.Renews block s ↔ config.enabled = true ∧ counted.height < block.height := by
  constructor
  · rintro ⟨config', counted', hconfig, henabled, hcounted, habove⟩
    obtain rfl := h.budget.config_unique hconfig
    obtain rfl := h.budget.counter_unique hcounted
    exact ⟨henabled, habove⟩
  · rintro ⟨henabled, habove⟩
    exact ⟨config, counted, h.budget.storedConfig_eq, henabled, h.budget.counter_eq, habove⟩

/-- What a change forgives is what the clamp takes off the counter. -/
theorem forgiven_changed (h : Coherent s.get config counted) {caller : Account}
    {change : Governance.Change} (hop : c.operation = .govern caller change)
    (hreply : c.reply s = .changed (.ok ())) :
    (counted.clampedTo (change.reconfigure config).pointsPerBlock).consumed.toNat + c.forgiven s
      = counted.consumed.toNat := by
  rw [Call.forgiven, hop, hreply, h.budget.counter_eq]
  cases change with
  | pointsPerBlock ceiling =>
      rw [PointCounter.toNat_clampedTo]
      show min counted.consumed.toNat ceiling.toNat
        + (counted.consumed.toNat - ceiling.toNat) = counted.consumed.toNat
      omega
  | _ => exact congrArg (fun k : PointCounter => k.consumed.toNat) h.clampedTo_ceiling

theorem forgiven_of_not_changed (h : ∀ u, c.reply s ≠ .changed (.ok u)) : c.forgiven s = 0 := by
  rw [Call.forgiven]
  split
  · rename_i hreply _
    exact absurd hreply (h _)
  · rfl

/-- A call that does not start the count anew keeps the balance of counter, spent and
forgiven points. -/
theorem counter_of_continued (h : Coherent s.get config counted) (hout : c.engine.StaysOutside)
    (hcontinued : ¬ c.Renews s) :
    ∃ config' counted', Coherent (c.leave s).get config' counted'
      ∧ counted'.height = counted.height
      ∧ counted'.consumed.toNat + c.forgiven s
        = counted.consumed.toNat + (c.reply s).points := by
  obtain ⟨config', counted', hcoherent, hmetering⟩ := h.operate hout c.operation
  refine ⟨config', counted', hcoherent, ?_⟩
  cases hmetering with
  -- Nothing is spent and nothing forgiven.
  | idle hpoints hreply _ _ hcounted =>
      rw [hcounted, forgiven_of_not_changed hreply, show (c.reply s).points = 0 from hpoints]
      exact ⟨rfl, rfl⟩
  -- Nothing is spent; the clamp takes off what is forgiven.
  | changed caller change hop hreply hconfig hcounted =>
      rw [hcounted, hconfig, PointCounter.height_clampedTo,
        show (c.reply s).points = 0 from congrArg Reply.points hreply]
      exact ⟨rfl, h.forgiven_changed hop hreply⟩
  -- The block is not above the recorded one, so the counter grows by what is spent.
  | attempted block trade hop henabled _ hheight hconsumed =>
      have hblock : block.height ≤ counted.height := by
        refine UInt64.not_lt.1 fun habove => hcontinued ⟨block, trade, hop, ?_⟩
        exact h.renews_iff.2 ⟨henabled, habove⟩
      rw [PointCounter.inBlock, if_pos hblock] at hheight hconsumed
      have hnone : c.forgiven s = 0 := by
        refine forgiven_of_not_changed fun u hreply => ?_
        have hreply' : (c.engine.operate c.operation s).1 = .changed (.ok u) := hreply
        rw [hop] at hreply'
        exact absurd hreply' (by simp [Engine.operate])
      rw [hnone]
      exact ⟨hheight, hconsumed⟩

/-- A call that starts the count anew leaves a counter that shows its own points, and forgives
none. -/
theorem counter_of_renewed (h : Coherent s.get config counted) (hout : c.engine.StaysOutside)
    (hrenewed : c.Renews s) :
    ∃ config' counted', Coherent (c.leave s).get config' counted'
      ∧ counted'.consumed.toNat = (c.reply s).points ∧ c.forgiven s = 0 := by
  obtain ⟨block, trade, hop, hrenews⟩ := hrenewed
  obtain ⟨henabled, habove⟩ := h.renews_iff.1 hrenews
  obtain ⟨config', counted', hcoherent, hmetering⟩ := h.operate hout c.operation
  have hnone : c.forgiven s = 0 := by
    rw [Call.forgiven, hop]
  refine ⟨config', counted', hcoherent, ?_, hnone⟩
  cases hmetering with
  | idle _ _ hidle _ _ => exact absurd henabled (hidle block trade hop)
  | changed caller change hgovern =>
      rw [hop] at hgovern
      exact absurd hgovern (by simp)
  | attempted block' trade' hop' _ _ _ hconsumed =>
      rw [hop] at hop'
      cases hop'
      rw [PointCounter.inBlock, if_neg (UInt64.not_le.2 habove)] at hconsumed
      exact hconsumed.trans (Nat.zero_add _)

/-- Calls that do not start the count anew keep the balance of counter, spent and forgiven
points. -/
theorem counter_of_allContinued (h : Coherent s.get config counted)
    (hout : ∀ c ∈ calls, c.engine.StaysOutside) (hcontinued : Call.Continues calls s) :
    ∃ config' counted', Coherent (Call.leaveAll calls s).get config' counted'
      ∧ counted'.consumed.toNat + Call.forgivenBy calls s
        = counted.consumed.toNat + Call.spentBy calls s := by
  induction calls generalizing s config counted with
  | nil => exact ⟨config, counted, h, rfl⟩
  | cons c calls ih =>
      obtain ⟨hfirst, hrest⟩ := hcontinued
      obtain ⟨config₁, counted₁, hcoherent, -, hstep⟩ :=
        h.counter_of_continued (hout c List.mem_cons_self) hfirst
      obtain ⟨config', counted', hend, hrun⟩ :=
        ih hcoherent (fun c' hc' => hout c' (List.mem_cons_of_mem c hc')) hrest
      refine ⟨config', counted', hend, ?_⟩
      rw [Call.forgivenBy, Call.spentBy]
      omega

end Coherent

namespace Simulation.Turning

variable {s : Store} {ceiling other : UInt64} {counted : PointCounter} {trades : Nat}
  {block : Block}

theorem renews_attempt_iff (h : Turning s ceiling counted trades) :
    (attempt block).Renews s ↔ counted.height < block.height := by
  constructor
  · rintro ⟨_, _, hop, hrenews⟩
    cases hop
    exact (h.coherent.renews_iff.1 hrenews).2
  · exact fun habove => ⟨block, _, rfl, h.coherent.renews_iff.2 ⟨rfl, habove⟩⟩

theorem not_renews_recap : ¬ (recap other).Renews s := by
  rintro ⟨_, _, hop, -⟩
  exact absurd hop nofun

theorem ceiling_eq (h : Turning s ceiling counted trades)
    (hforce : ∃ config, storedConfig s = .ok config ∧ config.pointsPerBlock = other) :
    other = ceiling := by
  obtain ⟨config, hconfig, rfl⟩ := hforce
  rw [← h.coherent.budget.config_unique hconfig]
  rfl

end Simulation.Turning

/-! ## The law of the budget -/

namespace Call

/-- After a valid genesis, from a start of the count on up to the next one: the cycles spend
what the counter shows in the end and what governance has forgiven meanwhile, so at most the
ceiling for blocks and the forgiven points. -/
theorem spentBy_le_ceiling {g : Genesis} {s₀ : Store}
    (hgenesis : g.store.perform Store.empty = (.ok (), s₀)) {before rest : List Call} {first : Call}
    (hout : ∀ c ∈ before ++ first :: rest, c.engine.StaysOutside)
    (hfirst : first.Renews (leaveAll before s₀))
    (hrest : Continues rest (first.leave (leaveAll before s₀))) :
    ∃ config counted, storedConfig (leaveAll (before ++ first :: rest) s₀) = .ok config
      ∧ Budget.counter (leaveAll (before ++ first :: rest) s₀) = .ok counted
      ∧ spentBy (first :: rest) (leaveAll before s₀)
        = counted.consumed.toNat + forgivenBy (first :: rest) (leaveAll before s₀)
      ∧ counted.consumed ≤ config.pointsPerBlock
      ∧ InForce (first :: rest) (leaveAll before s₀) config.pointsPerBlock
      ∧ spentBy (first :: rest) (leaveAll before s₀)
        ≤ config.pointsPerBlock.toNat + forgivenBy (first :: rest) (leaveAll before s₀) := by
  have hstart := Genesis.coherent_of_perform_store hgenesis
  obtain ⟨config₀, counted₀, hbefore, -⟩ :=
    hstart.leaveAll fun c hc => hout c (List.mem_append_left _ hc)
  obtain ⟨config₁, counted₁, hrenewed, hzero, hnone⟩ :=
    hbefore.counter_of_renewed (hout first (List.mem_append_right _ List.mem_cons_self)) hfirst
  obtain ⟨config, counted, hend, hbalance⟩ := hrenewed.counter_of_allContinued
    (fun c hc => hout c (List.mem_append_right _ (List.mem_cons_of_mem first hc))) hrest
  have hleave : leaveAll (before ++ first :: rest) s₀
      = leaveAll (first :: rest) (leaveAll before s₀) := List.foldl_append
  have hspent : spentBy (first :: rest) (leaveAll before s₀)
      = counted.consumed.toNat + forgivenBy (first :: rest) (leaveAll before s₀) := by
    rw [spentBy, forgivenBy, hnone]
    omega
  have hwithin := hend.budget.within
  rw [hleave]
  refine ⟨config, counted, hend.budget.storedConfig_eq, hend.budget.counter_eq, hspent, hwithin,
    ⟨first :: rest, config, List.prefix_rfl, hend.budget.storedConfig_eq, rfl⟩, ?_⟩
  rw [hspent]
  exact Nat.add_le_add_right (UInt64.le_iff_toNat_le.1 hwithin) _

open Simulation in
/-- Two round trips of five points each under a ceiling of ten, which is then lowered to five:
the counter shows five points, and five are forgiven. -/
theorem spentBy_le_ceiling_lowered :
    ∃ s₀ first rest, (routeGenesis (tight 10) roundTrip).store.perform Store.empty = (.ok (), s₀)
      ∧ first = attempt ⟨10, .epoch⟩ ∧ rest = [attempt ⟨10, .epoch⟩, recap 5]
      ∧ first.Renews s₀ ∧ Continues rest (first.leave s₀)
      ∧ spentBy (first :: rest) s₀ = 10 ∧ forgivenBy (first :: rest) s₀ = 5
      ∧ InForce (first :: rest) s₀ 5 := by
  obtain ⟨s₀, hs₀, h₀⟩ := exists_turning validate_roundTripGenesis
  let b : Block := ⟨10, .epoch⟩
  obtain ⟨hp₁, c₁, h₁, hheight₁, hc₁⟩ := h₀.leave_attempt b (by decide) (by decide)
  have hb₁ : b.height ≤ c₁.height := hheight₁ ▸ UInt64.le_refl 10
  rw [show (PointCounter.inBlock .zero b).consumed.toNat = 0 from rfl] at hc₁
  obtain ⟨hp₂, c₂, h₂, -, hc₂⟩ := h₁.leave_attempt b
    (by rw [PointCounter.inBlock_of_le hb₁, hc₁]; decide) (by decide)
  rw [PointCounter.inBlock_of_le hb₁] at hc₂
  obtain ⟨hp₃, h₃⟩ := h₂.leave_recap (show (tight 5).validate = .ok () by decide +kernel)
  have hc₃ : (c₂.clampedTo 5).consumed.toNat = 5 := by
    rw [PointCounter.toNat_clampedTo, hc₂, hc₁]
    rfl
  have hrenews : (attempt b).Renews s₀ := h₀.renews_attempt_iff.2 (by decide)
  have hcontinues : Continues [attempt b, recap 5] ((attempt b).leave s₀) :=
    ⟨fun h => UInt64.not_lt.2 hb₁ (h₁.renews_attempt_iff.1 h), Turning.not_renews_recap, trivial⟩
  have hout : ∀ c ∈ [] ++ attempt b :: [attempt b, recap 5], c.engine.StaysOutside := by
    intro c hc
    simp only [List.nil_append, List.mem_cons, List.not_mem_nil, or_false] at hc
    rcases hc with rfl | rfl | rfl <;> exact generous_staysOutside
  obtain ⟨config, counted, hconfig, hcounted, hbalance, -, hforce, -⟩ :=
    spentBy_le_ceiling hs₀ hout hrenews hcontinues
  have hspent : spentBy [attempt b, attempt b, recap 5] s₀ = 10 := by
    rw [spentBy, hp₁, spentBy, hp₂, spentBy, hp₃, spentBy]
  have hsame : c₂.clampedTo 5 = counted := h₃.coherent.budget.counter_unique hcounted
  have hceiling : config.pointsPerBlock = 5 := h₃.ceiling_eq ⟨config, hconfig, rfl⟩
  rw [hceiling] at hforce
  rw [← hsame, hc₃] at hbalance
  refine ⟨s₀, _, _, hs₀, rfl, rfl, hrenews, hcontinues, hspent, ?_, hforce⟩
  rw [leaveAll_nil, hspent] at hbalance
  exact (Nat.add_left_cancel (show 5 + 5 = 5 + _ from hbalance)).symm

open Simulation in
/-- Three round trips of five points in one block whose ceiling is ten throughout, but for a
moment: the lower ceiling clamps the counter, and the higher one lets the third trip in. -/
theorem spentBy_above_ceilings :
    ∃ s₀ first rest, (routeGenesis (tight 10) roundTrip).store.perform Store.empty = (.ok (), s₀)
      ∧ first = attempt ⟨10, .epoch⟩
      ∧ rest = [attempt ⟨10, .epoch⟩, recap 5, recap 10, attempt ⟨10, .epoch⟩]
      ∧ (∀ c ∈ first :: rest, c.engine.StaysOutside)
      ∧ first.Renews s₀ ∧ Continues rest (first.leave s₀)
      ∧ spentBy (first :: rest) s₀ = 15
      ∧ ∀ ceiling, InForce (first :: rest) s₀ ceiling → ceiling ≤ 10 := by
  obtain ⟨s₀, hs₀, h₀⟩ := exists_turning validate_roundTripGenesis
  let b : Block := ⟨10, .epoch⟩
  -- The five calls one after the other, each with the counter that it leaves.
  obtain ⟨hp₁, c₁, h₁, hheight₁, hc₁⟩ := h₀.leave_attempt b (by decide) (by decide)
  have hb₁ : b.height ≤ c₁.height := hheight₁ ▸ UInt64.le_refl 10
  rw [show (PointCounter.inBlock .zero b).consumed.toNat = 0 from rfl] at hc₁
  obtain ⟨hp₂, c₂, h₂, hheight₂, hc₂⟩ := h₁.leave_attempt b
    (by rw [PointCounter.inBlock_of_le hb₁, hc₁]; decide) (by decide)
  rw [PointCounter.inBlock_of_le hb₁] at hheight₂ hc₂
  obtain ⟨hp₃, h₃⟩ := h₂.leave_recap (show (tight 5).validate = .ok () by decide +kernel)
  obtain ⟨hp₄, h₄⟩ := h₃.leave_recap (show (tight 10).validate = .ok () by decide +kernel)
  have hc₄ : ((c₂.clampedTo 5).clampedTo 10).consumed.toNat = 5 := by
    rw [PointCounter.toNat_clampedTo, PointCounter.toNat_clampedTo, hc₂, hc₁]
    rfl
  have hheight₄ : ((c₂.clampedTo 5).clampedTo 10).height = c₁.height := by
    rw [PointCounter.height_clampedTo, PointCounter.height_clampedTo, hheight₂]
  have hb₄ : b.height ≤ ((c₂.clampedTo 5).clampedTo 10).height := hheight₄ ▸ hb₁
  obtain ⟨hp₅, c₅, h₅, -, -⟩ := h₄.leave_attempt b
    (by rw [PointCounter.inBlock_of_le hb₄, hc₄]; decide) (by decide)
  refine ⟨s₀, _, _, hs₀, rfl, rfl, ?_, ?_, ?_, ?_, ?_⟩
  · intro c hc
    simp only [List.mem_cons, List.not_mem_nil, or_false] at hc
    rcases hc with rfl | rfl | rfl | rfl | rfl <;> exact generous_staysOutside
  · exact h₀.renews_attempt_iff.2 (by decide)
  · refine ⟨fun h => ?_, Turning.not_renews_recap, Turning.not_renews_recap, fun h => ?_, trivial⟩
    · exact UInt64.not_lt.2 hb₁ (h₁.renews_attempt_iff.1 h)
    · exact UInt64.not_lt.2 hb₄ (h₄.renews_attempt_iff.1 h)
  · rw [spentBy, hp₁, spentBy, hp₂, spentBy, hp₃, spentBy, hp₄, spentBy, hp₅, spentBy]
  · intro ceiling hforce
    rcases hforce.cases with hnow | hforce
    · exact h₀.ceiling_eq hnow ▸ UInt64.le_refl 10
    rcases hforce.cases with hnow | hforce
    · exact h₁.ceiling_eq hnow ▸ UInt64.le_refl 10
    rcases hforce.cases with hnow | hforce
    · exact h₂.ceiling_eq hnow ▸ UInt64.le_refl 10
    rcases hforce.cases with hnow | hforce
    · exact h₃.ceiling_eq hnow ▸ (by decide : (5 : UInt64) ≤ 10)
    rcases hforce.cases with hnow | hforce
    · exact h₄.ceiling_eq hnow ▸ UInt64.le_refl 10
    · exact h₅.ceiling_eq hforce.now ▸ UInt64.le_refl 10

end Call

end Backrun
