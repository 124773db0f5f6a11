import Backrun.Proofs.Budget.Counting
import Backrun.Proofs.Config.Valid
import Backrun.Proofs.Store.Keys

/-!
# The configuration and the counter in order

`Budgeted` says of a view that it holds a valid configuration and a counter within its
ceiling for blocks.  Starting the count anew and debiting points keep it so.
-/

namespace Backrun

/-- A view holds this valid configuration and this counter, which is within the ceiling
for blocks. -/
structure Budgeted (v : View) (config : EngineConfig) (counted : PointCounter) : Prop where
  holdsConfig : v Key.config = some (Codec.encode config)
  valid : config.validate = .ok ()
  holdsCounter : v Key.pointCounter = some (Codec.encode counted)
  within : counted.consumed ≤ config.pointsPerBlock
  onlyConfig : ∀ k b, Key.kind k = some 0x04 → v k = some b → k = Key.config
  onlyCounter : ∀ k b, Key.kind k = some 0x05 → v k = some b → k = Key.pointCounter

namespace Budgeted

variable {v w : View} {s t : Store} {config config' : EngineConfig}
  {counted counted' : PointCounter}

theorem storedConfig_eq (h : Budgeted s.get config counted) : storedConfig s = .ok config :=
  Query.load_of_get (EngineConfig.faithful h.valid) h.holdsConfig _

theorem counter_eq (h : Budgeted s.get config counted) : Budget.counter s = .ok counted :=
  Query.load_of_get (PointCounter.faithful counted) h.holdsCounter _

theorem state_eq (h : Budgeted s.get config counted) : Budget.state s
    = .ok ⟨config.pointsPerTx, config.pointsPerBlock, counted.consumed, counted.height⟩ :=
  Budget.state_ok.2 ⟨config, counted, h.storedConfig_eq, h.counter_eq, rfl⟩

theorem config_unique (h : Budgeted s.get config counted) (hconfig : storedConfig s = .ok config') :
    config = config' := Except.ok.inj (h.storedConfig_eq.symm.trans hconfig)

theorem counter_unique (h : Budgeted s.get config counted)
    (hcounted : Budget.counter s = .ok counted') : counted = counted' :=
  Except.ok.inj (h.counter_eq.symm.trans hcounted)

/-- Nothing else has to be kept but the two records. -/
theorem rewrite (h : Budgeted v config counted) (hvalid : config'.validate = .ok ())
    (hwithin : counted'.consumed ≤ config'.pointsPerBlock)
    (hconfig : w Key.config = some (Codec.encode config'))
    (hcounter : w Key.pointCounter = some (Codec.encode counted'))
    (hframe : ∀ k, k ≠ Key.config → k ≠ Key.pointCounter → Key.IsBudget k → w k = v k) :
    Budgeted w config' counted' where
  holdsConfig := hconfig
  valid := hvalid
  holdsCounter := hcounter
  within := hwithin
  onlyConfig k b hkind hb := by
    refine Classical.byContradiction fun hne => hne (h.onlyConfig k b hkind ?_)
    have hother : k ≠ Key.pointCounter := Key.ne_of_kind (Key.kind_ne hkind)
    rw [← hframe k hne hother (.inl hkind)]
    exact hb
  onlyCounter k b hkind hb := by
    refine Classical.byContradiction fun hne => hne (h.onlyCounter k b hkind ?_)
    have hother : k ≠ Key.config := Key.ne_of_kind (Key.kind_ne hkind)
    rw [← hframe k hother hne (.inr hkind)]
    exact hb

theorem congr (h : Budgeted v config counted) (heq : ∀ k, Key.IsBudget k → w k = v k) :
    Budgeted w config counted :=
  h.rewrite h.valid h.within ((heq _ (.inl rfl)).trans h.holdsConfig)
    ((heq _ (.inr rfl)).trans h.holdsCounter) fun k _ _ hkind => heq k hkind

/-- Another valid configuration under which the counter is within its ceiling. -/
theorem setConfig (h : Budgeted s.get config counted) (hvalid : config'.validate = .ok ())
    (hwithin : counted.consumed ≤ config'.pointsPerBlock) :
    Budgeted (s.set Key.config (Codec.encode config')).get config' counted :=
  h.rewrite hvalid hwithin (Store.get_set_self s _ _)
    ((Store.get_set_of_ne s _ (by decide)).trans h.holdsCounter)
    fun _ hconfig _ _ => Store.get_set_of_ne s _ hconfig

/-- Another counter within the ceiling. -/
theorem setCounter (h : Budgeted s.get config counted)
    (hwithin : counted'.consumed ≤ config.pointsPerBlock) :
    Budgeted (s.set Key.pointCounter (Codec.encode counted')).get config counted' :=
  h.rewrite h.valid hwithin ((Store.get_set_of_ne s _ (by decide)).trans h.holdsConfig)
    (Store.get_set_self s _ _) fun _ _ hcounter _ => Store.get_set_of_ne s _ hcounter

theorem renewed (h : Budgeted s.get config counted) (height : UInt64) :
    Budgeted (Budget.renewed height s).get config ⟨0, height⟩ :=
  h.setCounter (UInt64.le_iff_toNat_le.2 (Nat.zero_le _))

/-- A debit adds its points to the counter, whose sum stays within the ceiling. -/
theorem tryConsume (h : Budgeted s.get config counted) {points : UInt64} {u : Unit}
    (hdebit : (Budget.tryConsume points).perform s = (.ok u, t)) :
    ∃ counted', Budgeted t.get config counted' ∧ counted'.height = counted.height
      ∧ counted'.consumed.toNat = counted.consumed.toNat + points.toNat
      ∧ points ≤ config.pointsPerTx ∧ counted'.consumed ≤ config.pointsPerBlock
      ∧ t = s.set Key.pointCounter (Codec.encode counted') := by
  obtain ⟨b, hb, htx, hblock, rfl⟩ := Budget.tryConsume_ok.1 hdebit
  rw [h.state_eq] at hb
  cases hb
  obtain ⟨hsum, hceiling⟩ := BudgetState.after_le_ceiling h.within hblock
  exact ⟨_, h.setCounter hceiling, rfl, hsum, htx, hceiling, rfl⟩

end Budgeted

/-- Some store holds any valid configuration and any counter. -/
theorem Budget.exists_store {config : EngineConfig} (hvalid : config.validate = .ok ())
    (k : PointCounter) : ∃ s, storedConfig s = .ok config ∧ Budget.counter s = .ok k := by
  refine ⟨(Store.empty.set Key.config (Codec.encode config)).set Key.pointCounter
    (Codec.encode k), ?_, ?_⟩
  · refine Query.load_of_get (EngineConfig.faithful hvalid) ?_ _
    exact (Store.get_set_of_ne _ _ (by decide)).trans (Store.get_set_self _ _ _)
  · exact Query.load_of_get (PointCounter.faithful k) (Store.get_set_self _ _ _) _

end Backrun
