import Backrun.Proofs.Budget.Budgeted
import Mathlib.Algebra.GroupWithZero.Nat

/-!
# Blocks and debits in any order

Under one configuration, heights and debits may come in any order and heights may repeat or go
back.  `Follows` is what one step makes of the counter; `Metered.perform` is that step on a store,
and `Metered.performAll` a run of them.

What the counter holds is read off the events of the run (`Tally`): the debits that were made
since the count last started anew.  The ceilings do not change here.
-/

namespace Backrun.Budget

/-! ## Steps -/

/-- What can be done to the count: to come to a block, or to debit points. -/
inductive CountStep where
  | block (height : UInt64)
  | debit (points : UInt64)

/-- A step with what it came to. -/
inductive CountEvent where
  | block (height : UInt64) (result : Except Error Bool)
  | debit (points : UInt64) (result : Except Error Unit)

/-- A step on a store. -/
def CountStep.perform : CountStep → Store → CountEvent × Store
  | .block height, s =>
      let (result, t) := (beginBlock height).perform s
      (.block height result, t)
  | .debit points, s =>
      let (result, t) := (tryConsume points).perform s
      (.debit points result, t)

/-- Steps one after the other. -/
def performAll : List CountStep → Store → List CountEvent × Store
  | [], s => ([], s)
  | step :: rest, s =>
      let (event, t) := step.perform s
      let (events, last) := performAll rest t
      (event :: events, last)

/-- The height that a step comes to. -/
def CountStep.height? : CountStep → Option Nat
  | .block height => some height.toNat
  | .debit _ => none

/-- The greatest height so far, the first one included. -/
def greatestHeight (first : Nat) (steps : List CountStep) : Nat :=
  (steps.filterMap CountStep.height?).foldl max first

/-- Whether the count started anew. -/
def CountEvent.renews : CountEvent → Bool
  | .block _ (.ok true) => true
  | _ => false

/-- The points that were debited, none if the debit was refused. -/
def CountEvent.spent : CountEvent → Nat
  | .debit points (.ok ()) => points.toNat
  | _ => 0

/-- What has been consumed in the end: the debits behind the last event that started the count
anew, and if there is none all of them and what was consumed before. -/
structure Tally (before : Nat) (events : List CountEvent) (consumed : Nat) : Prop where
  continued : (∀ e ∈ events, e.renews = false) →
    consumed = before + (events.map CountEvent.spent).sum
  renewed : ∀ earlier e later, events = earlier ++ e :: later → e.renews = true →
    (∀ e' ∈ later, e'.renews = false) → consumed = (later.map CountEvent.spent).sum

/-! ## One step -/

/-- Whether a debit stays within both ceilings. -/
def Fits (config : EngineConfig) (k : PointCounter) (points : UInt64) : Prop :=
  points ≤ config.pointsPerTx ∧ k.consumed.toNat + points.toNat ≤ config.pointsPerBlock.toNat

/-- What a step comes to under a configuration, and what it makes of the counter. -/
inductive Follows (config : EngineConfig) (k : PointCounter) :
    CountStep → CountEvent → PointCounter → Prop where
  /-- A height above the recorded one starts the count anew. -/
  | renewed {height : UInt64} (habove : k.height < height) :
      Follows config k (.block height) (.block height (.ok true)) ⟨0, height⟩
  /-- Any other height is passed over. -/
  | passed {height : UInt64} (hbelow : height ≤ k.height) :
      Follows config k (.block height) (.block height (.ok false)) k
  /-- A debit within both ceilings is made. -/
  | debited {points : UInt64} (hfits : Fits config k points) :
      Follows config k (.debit points) (.debit points (.ok ()))
        ⟨k.consumed + points, k.height⟩
  /-- Any other debit is refused. -/
  | refused {points : UInt64} (hover : ¬ Fits config k points) :
      Follows config k (.debit points)
        (.debit points (.error (.budgetExceeded points (min config.pointsPerTx
          (Points.minus config.pointsPerBlock k.consumed))))) k

/-- A debit that fits is added without wrapping around. -/
theorem Fits.toNat_add {config : EngineConfig} {k : PointCounter} {points : UInt64}
    (h : Fits config k points) :
    (k.consumed + points).toNat = k.consumed.toNat + points.toNat := by
  have hblock := h.2
  have hword := config.pointsPerBlock.toNat_lt
  rw [UInt64.toNat_add, Nat.mod_eq_of_lt (by omega)]

theorem greatestHeight_cons (first : Nat) (step : CountStep) (rest : List CountStep) :
    greatestHeight first (step :: rest) = greatestHeight (greatestHeight first [step]) rest := by
  cases step <;> rfl

namespace Follows

variable {config : EngineConfig} {k k' : PointCounter} {step : CountStep} {event : CountEvent}

/-- The recorded height is the greatest one. -/
theorem toNat_height (h : Follows config k step event k') :
    k'.height.toNat = greatestHeight k.height.toNat [step] := by
  cases h with
  | renewed habove => exact (Nat.max_eq_right (Nat.le_of_lt (UInt64.lt_iff_toNat_lt.1 habove))).symm
  | passed hbelow => exact (Nat.max_eq_left (UInt64.le_iff_toNat_le.1 hbelow)).symm
  | debited => rfl
  | refused => rfl

/-- The counter starts anew or goes on, and takes in what the step has spent. -/
theorem toNat_consumed (h : Follows config k step event k') :
    k'.consumed.toNat = (if event.renews then 0 else k.consumed.toNat) + event.spent := by
  cases h with
  | renewed => rfl
  | passed => rfl
  | debited hfits => exact hfits.toNat_add
  | refused => rfl

/-- Nothing is spent by the event that starts the count anew. -/
theorem spent_of_renews (h : Follows config k step event k') (hrenews : event.renews = true) :
    event.spent = 0 := by
  cases h with
  | renewed => rfl
  | passed => rfl
  | debited => exact absurd hrenews Bool.false_ne_true
  | refused => rfl

theorem consumed_le (h : Follows config k step event k')
    (hwithin : k.consumed ≤ config.pointsPerBlock) : k'.consumed ≤ config.pointsPerBlock := by
  cases h with
  | renewed => exact UInt64.zero_le
  | passed => exact hwithin
  | debited hfits => exact UInt64.le_iff_toNat_le.2 (hfits.toNat_add ▸ hfits.2)
  | refused => exact hwithin

/-- What follows on the counter goes on from its tally. -/
theorem tally {events : List CountEvent} {consumed : Nat} (h : Follows config k step event k')
    (hrest : Tally k'.consumed.toNat events consumed) :
    Tally k.consumed.toNat (event :: events) consumed := by
  have hsum := h.toNat_consumed
  refine ⟨fun hnone => ?_, fun earlier e later hsplit he hlater => ?_⟩
  · obtain ⟨hevent, hevents⟩ := List.forall_mem_cons.1 hnone
    rw [hevent] at hsum
    rw [hrest.continued hevents, hsum, List.map_cons, List.sum_cons, Nat.add_assoc]
    rfl
  -- The last start is this event itself or a later one.
  · rcases earlier with _ | ⟨e', earlier⟩
    · obtain ⟨rfl, rfl⟩ := List.cons.inj hsplit
      rw [hrest.continued hlater, hsum, he, h.spent_of_renews he]
      exact Nat.zero_add _
    · obtain ⟨-, hsplit⟩ := List.cons.inj hsplit
      exact hrest.renewed earlier e later hsplit he hlater

end Follows

/-- A store with this configuration and this counter, which is within the ceiling. -/
structure Metered (config : EngineConfig) (k : PointCounter) (s : Store) : Prop where
  config_eq : storedConfig s = .ok config
  counter_eq : counter s = .ok k
  within : k.consumed ≤ config.pointsPerBlock

namespace Metered

variable {config : EngineConfig} {k k' : PointCounter} {s : Store} {step : CountStep}
  {event : CountEvent}

theorem state_eq (h : Metered config k s) :
    state s = .ok ⟨config.pointsPerTx, config.pointsPerBlock, k.consumed, k.height⟩ :=
  state_ok.2 ⟨config, k, h.config_eq, h.counter_eq, rfl⟩

/-- What is left of the block has room for a debit exactly if the sum is within the ceiling. -/
theorem le_remaining_iff (h : Metered config k s) (points : UInt64) :
    points ≤ BudgetState.remaining ⟨config.pointsPerTx, config.pointsPerBlock, k.consumed, k.height⟩
      ↔ k.consumed.toNat + points.toNat ≤ config.pointsPerBlock.toNat := by
  have hwithin := UInt64.le_iff_toNat_le.1 h.within
  rw [UInt64.le_iff_toNat_le, BudgetState.toNat_remaining]
  dsimp only
  omega

/-- A counter that is written takes the place of the one before. -/
theorem write (h : Metered config k s) (hfollows : Follows config k step event k') :
    Metered config k' (s.set Key.pointCounter (Codec.encode k')) where
  config_eq := (Query.load_congr (Store.get_set_of_ne s _ (by decide)) _).trans h.config_eq
  counter_eq := Query.load_of_get (PointCounter.faithful k') (Store.get_set_self s _ _) _
  within := hfollows.consumed_le h.within

/-- A debit is made or refused by the two ceilings alone. -/
theorem perform_tryConsume (h : Metered config k s) (points : UInt64) :
    (Fits config k points ∧ (tryConsume points).perform s = (.ok (),
        s.set Key.pointCounter (Codec.encode (⟨k.consumed + points, k.height⟩ : PointCounter))))
      ∨ (¬ Fits config k points ∧ (tryConsume points).perform s
        = (.error (.budgetExceeded points (min config.pointsPerTx
          (Points.minus config.pointsPerBlock k.consumed))), s)) := by
  have hroom := h.le_remaining_iff points
  rw [tryConsume, Action.perform_query_bind_of_ok h.state_eq]
  by_cases hfits : Fits config k points
  · refine .inl ⟨hfits, ?_⟩
    rw [if_neg (not_or.2 ⟨UInt64.not_lt.2 hfits.1, UInt64.not_lt.2 (hroom.2 hfits.2)⟩)]
    rfl
  · refine .inr ⟨hfits, ?_⟩
    rw [Fits, ← hroom, not_and_or, UInt64.not_le, UInt64.not_le] at hfits
    rw [if_pos hfits]
    rfl

/-- A step leaves a store with the counter that follows, and changes no other record. -/
theorem perform (h : Metered config k s) (step : CountStep) :
    ∃ k', Follows config k step (step.perform s).1 k' ∧ Metered config k' (step.perform s).2
      ∧ ∀ key, key ≠ Key.pointCounter → (step.perform s).2.get key = s.get key := by
  cases step with
  | block height =>
      rw [CountStep.perform, perform_beginBlock h.counter_eq height]
      by_cases hbelow : height ≤ k.height
      · rw [if_pos hbelow]
        exact ⟨k, .passed hbelow, h, fun _ _ => rfl⟩
      · rw [if_neg hbelow]
        have hfollows : Follows config k _ _ _ := .renewed (UInt64.not_le.1 hbelow)
        exact ⟨_, hfollows, h.write hfollows, fun key hkey => Store.get_set_of_ne s _ hkey⟩
  | debit points =>
      rcases h.perform_tryConsume points with ⟨hfits, hrun⟩ | ⟨hover, hrun⟩
      · rw [CountStep.perform, hrun]
        have hfollows := Follows.debited hfits
        exact ⟨_, hfollows, h.write hfollows, fun key hkey => Store.get_set_of_ne s _ hkey⟩
      · rw [CountStep.perform, hrun]
        exact ⟨k, .refused hover, h, fun _ _ => rfl⟩

/-! ## A run -/

/-- After a run the counter holds the greatest height and the tally of the events. -/
theorem performAll (h : Metered config k s) (steps : List CountStep) :
    ∃ k', Metered config k' (performAll steps s).2
      ∧ k'.height.toNat = greatestHeight k.height.toNat steps
      ∧ Tally k.consumed.toNat (performAll steps s).1 k'.consumed.toNat
      ∧ ∀ key, key ≠ Key.pointCounter → (performAll steps s).2.get key = s.get key := by
  induction steps generalizing k s with
  | nil =>
      refine ⟨k, h, rfl, ⟨fun _ => rfl, fun earlier e later hsplit _ _ => ?_⟩, fun _ _ => rfl⟩
      exact absurd hsplit (by simp [Budget.performAll])
  | cons step rest ih =>
      obtain ⟨k₁, hfollows, hmetered, hframe⟩ := h.perform step
      obtain ⟨k₂, hlast, hheight, htally, hrest⟩ := ih hmetered
      refine ⟨k₂, hlast, ?_, hfollows.tally htally, fun key hkey => ?_⟩
      · rw [hheight, hfollows.toNat_height, ← greatestHeight_cons]
      · exact (hrest key hkey).trans (hframe key hkey)

end Metered

/-- **The count under one configuration.**  After any steps in any order the recorded height is
the greatest one so far, and what has been consumed is the sum of the debits that were made since
it rose last, within the ceiling for blocks.  The next height starts the count anew exactly if it
rises above it; the next debit is made exactly if it stays within both ceilings, where its sum is
that of the numbers, and a refused one leaves the store as it was.  Nothing but the counter ever
changes. -/
theorem counted_by_blocks {config : EngineConfig} {k : PointCounter} {s : Store}
    (hconfig : storedConfig s = .ok config) (hcounter : counter s = .ok k)
    (hwithin : k.consumed ≤ config.pointsPerBlock) (steps : List CountStep) :
    ∃ k', counter (performAll steps s).2 = .ok k'
      ∧ k'.height.toNat = greatestHeight k.height.toNat steps
      ∧ Tally k.consumed.toNat (performAll steps s).1 k'.consumed.toNat
      ∧ k'.consumed ≤ config.pointsPerBlock
      ∧ (∀ height, (beginBlock height).perform (performAll steps s).2
        = if greatestHeight k.height.toNat steps < height.toNat
          then (.ok true, renewed height (performAll steps s).2)
          else (.ok false, (performAll steps s).2))
      ∧ (∀ points, ((tryConsume points).perform (performAll steps s).2).1 = .ok ()
        ↔ points.toNat ≤ config.pointsPerTx.toNat
          ∧ k'.consumed.toNat + points.toNat ≤ config.pointsPerBlock.toNat)
      ∧ (∀ points, ((tryConsume points).perform (performAll steps s).2).1 = .ok () →
        (k'.consumed + points).toNat = k'.consumed.toNat + points.toNat
          ∧ counter ((tryConsume points).perform (performAll steps s).2).2
            = .ok ⟨k'.consumed + points, k'.height⟩)
      ∧ (∀ points e, ((tryConsume points).perform (performAll steps s).2).1 = .error e →
        ((tryConsume points).perform (performAll steps s).2).2 = (performAll steps s).2)
      ∧ ∀ key, key ≠ Key.pointCounter → (performAll steps s).2.get key = s.get key := by
  obtain ⟨k', hmetered, hheight, htally, hframe⟩ :=
    Metered.performAll ⟨hconfig, hcounter, hwithin⟩ steps
  refine ⟨k', hmetered.counter_eq, hheight, htally, hmetered.within, fun height => ?_,
    fun points => ?_, fun points hmade => ?_, fun points e hrefused => ?_, hframe⟩
  · rw [perform_beginBlock hmetered.counter_eq height, ← hheight]
    by_cases hbelow : height ≤ k'.height
    · rw [if_pos hbelow, if_neg (Nat.not_lt.2 (UInt64.le_iff_toNat_le.1 hbelow))]
    · rw [if_neg hbelow, if_pos (UInt64.lt_iff_toNat_lt.1 (UInt64.not_le.1 hbelow))]
  · rcases hmetered.perform_tryConsume points with ⟨hfits, hrun⟩ | ⟨hover, hrun⟩
    · rw [hrun]
      exact ⟨fun _ => ⟨UInt64.le_iff_toNat_le.1 hfits.1, hfits.2⟩, fun _ => rfl⟩
    · rw [hrun]
      exact ⟨nofun, fun hfits => absurd ⟨UInt64.le_iff_toNat_le.2 hfits.1, hfits.2⟩ hover⟩
  · rcases hmetered.perform_tryConsume points with ⟨hfits, hrun⟩ | ⟨-, hrun⟩
    · rw [hrun]
      exact ⟨hfits.toNat_add, (hmetered.write (.debited hfits)).counter_eq⟩
    · rw [hrun] at hmade
      cases hmade
  · rcases hmetered.perform_tryConsume points with ⟨-, hrun⟩ | ⟨-, hrun⟩
    · rw [hrun] at hrefused
      cases hrefused
    · rw [hrun]

/-- Debits at the heights 40 and 41, one of them too large, and then a height that goes back. -/
theorem counted_by_blocks_standard :
    ∃ s k', storedConfig s = .ok .standard ∧ counter s = .ok ⟨12, 40⟩
      ∧ (12 : UInt64) ≤ EngineConfig.standard.pointsPerBlock
      ∧ counter (performAll [.debit 18, .block 40, .block 41, .debit 19, .debit 18, .block 7] s).2
        = .ok k'
      ∧ k'.height.toNat = 41 ∧ k'.consumed ≤ 100 := by
  have hvalid : EngineConfig.standard.validate = .ok () := by decide +kernel
  obtain ⟨s, hconfig, hcounter⟩ := exists_store hvalid ⟨12, 40⟩
  have hwithin : (12 : UInt64) ≤ EngineConfig.standard.pointsPerBlock := by decide
  obtain ⟨k', hlast, hheight, -, hbelow, -⟩ := counted_by_blocks hconfig hcounter hwithin
    [.debit 18, .block 40, .block 41, .debit 19, .debit 18, .block 7]
  exact ⟨s, k', hconfig, hcounter, hwithin, hlast, hheight, hbelow⟩

end Backrun.Budget
