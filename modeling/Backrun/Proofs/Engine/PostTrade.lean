import Backrun.Engine
import Backrun.Proofs.Budget.Budgeted
import Backrun.Proofs.Simulation.Generous

/-!
# What the engine does after a trade

An attempt is taken apart once, in `postTrade_course`: it stops before the count of
points, or after it with nothing else done, or it executes the cycle that the search
has found.  A cycle is executed in stages (`executeFrom_ok`), and as a whole or not at all
whatever the pools and the bank write.
-/

namespace Backrun

/-! ## Executing a cycle -/

namespace Ledger

theorem local_addFees (earned : Coin) : (addFees earned).Local := by
  refine Action.Local.bind (Action.Local.query _) fun current => ?_
  split
  · exact Action.Local.save _ _
  · exact Action.Local.throw _

theorem local_addProfit (earned : Coin) : (addProfit earned).Local := by
  refine Action.Local.bind (Action.Local.query _) fun current => ?_
  split
  · exact Action.Local.save _ _
  · exact Action.Local.throw _

theorem local_book (now : Instant) (profit : Coin) : (book now profit).Local := by
  refine Action.Local.bind (Action.Local.query _) fun config => ?_
  refine Action.Local.bind (Action.Local.query _) fun days => ?_
  dsimp only
  split
  · refine Action.Local.bind (local_addFees _) fun _ => ?_
    exact Action.Local.bind (local_addProfit _) fun _ => Action.Local.pure _
  · exact Action.Local.bind (local_addProfit _) fun _ => Action.Local.pure _

theorem local_countTrade : countTrade.Local := by
  refine Action.Local.bind (Action.Local.query _) fun count => ?_
  exact Action.Local.bind (Action.Local.save _ _) fun _ => Action.Local.pure _

end Ledger

namespace Candidate

section Stages

variable {market : Market} {bank : Bank} {vault : Account} {block : Block} {c : Candidate}
  {done : Trade} {s t : Store}

/-- A cycle is executed from a base denomination exactly if all of its stages succeed one after
the other and more comes out than went in. -/
theorem executeFrom_ok {base : Denom} :
    (executeFrom base market bank vault block c).perform s = (.ok done, t)
      ↔ ∃ debited minted swapped burned booked output split count,
        (Budget.tryConsume c.cost).perform s = (.ok (), debited)
        ∧ (Action.call (bank.mint vault ⟨base, c.quote.input⟩) fun fault =>
            .executionFailure (.mint ⟨base, c.quote.input⟩ fault)).perform debited
          = (.ok (), minted)
        ∧ (swapAll market vault c.quote.input (c.route.hops.zip c.quote.outputs)).perform minted
          = (.ok output, swapped)
        ∧ c.quote.input < output
        ∧ (Action.call (bank.burn vault ⟨base, c.quote.input⟩) fun fault =>
            .executionFailure (.burn ⟨base, c.quote.input⟩ fault)).perform swapped
          = (.ok (), burned)
        ∧ (Ledger.book block.time ⟨base, output - c.quote.input⟩).perform burned
          = (.ok split, booked)
        ∧ Ledger.countTrade.perform booked = (.ok count, t)
        ∧ done = ⟨c.route, c.quote.input, output, ⟨base, output - c.quote.input⟩, split, c.cost⟩ := by
  rw [executeFrom]
  constructor
  · intro h
    obtain ⟨_, debited, hdebit, h⟩ := Action.perform_bind_ok.1 h
    obtain ⟨_, minted, hmint, h⟩ := Action.perform_bind_ok.1 h
    obtain ⟨output, swapped, hswap, h⟩ := Action.perform_bind_ok.1 h
    dsimp only at h
    split at h
    · simp at h
    · rename_i hprofit
      obtain ⟨_, burned, hburn, h⟩ := Action.perform_bind_ok.1 h
      obtain ⟨split, booked, hbook, h⟩ := Action.perform_bind_ok.1 h
      obtain ⟨count, last, hcount, hreturn⟩ := Action.perform_bind_ok.1 h
      cases hreturn
      exact ⟨debited, minted, swapped, burned, booked, output, split, count, hdebit, hmint, hswap,
        BitVec.not_le.1 hprofit, hburn, hbook, hcount, rfl⟩
  · rintro ⟨debited, minted, swapped, burned, booked, output, split, count, hdebit, hmint, hswap,
      hprofit, hburn, hbook, hcount, rfl⟩
    refine Action.perform_bind_ok.2 ⟨(), debited, hdebit, ?_⟩
    refine Action.perform_bind_ok.2 ⟨(), minted, hmint, ?_⟩
    refine Action.perform_bind_ok.2 ⟨output, swapped, hswap, ?_⟩
    dsimp only
    rw [if_neg (BitVec.not_le.2 hprofit)]
    refine Action.perform_bind_ok.2 ⟨(), burned, hburn, ?_⟩
    refine Action.perform_bind_ok.2 ⟨split, booked, hbook, ?_⟩
    exact Action.perform_bind_ok.2 ⟨count, t, hcount, rfl⟩

/-- A cycle is executed exactly if it starts somewhere, has a quote for each hop, and is
executed in a branch. -/
theorem execute_ok :
    (c.execute market bank vault block).perform s = (.ok done, t)
      ↔ ∃ base u, c.route.base? = some base ∧ c.quote.outputs.length = c.route.hops.length
        ∧ (executeFrom base market bank vault block c).perform s.openBranch = (.ok done, u)
        ∧ t = u.commit := by
  rw [execute, Action.perform_atomically_ok]
  cases hbase : c.route.base? with
  | none => simp
  | some base =>
      dsimp only
      by_cases hlength : c.quote.outputs.length = c.route.hops.length
      · rw [if_neg (not_not_intro hlength)]
        constructor
        · rintro ⟨u, hrun, rfl⟩
          exact ⟨base, u, rfl, hlength, hrun, rfl⟩
        · rintro ⟨_, u, hsome, -, hrun, rfl⟩
          cases hsome
          exact ⟨u, hrun, rfl⟩
      · rw [if_pos hlength]
        constructor
        · rintro ⟨u, hrun, -⟩
          rw [Action.perform_bind_of_error (Action.perform_throw _ _)] at hrun
          exact absurd hrun (by simp)
        · rintro ⟨_, u, -, hlength', -⟩
          exact absurd hlength' hlength

end Stages

variable (market : Market) (bank : Bank) (vault : Account) (block : Block)

theorem local_swapAll (amount : Amount) (hops : List (Hop × Amount)) :
    (swapAll market vault amount hops).Local := by
  induction hops generalizing amount with
  | nil => exact Action.Local.pure amount
  | cons hop rest ih =>
      refine Action.Local.bind (Action.Local.call _ _) fun output => ?_
      dsimp only
      split
      · exact Action.Local.bind (Action.Local.throw _) fun _ => ih output
      · exact ih output

theorem local_executeFrom (base : Denom) (c : Candidate) :
    (executeFrom base market bank vault block c).Local := by
  -- What comes after the test for a profit, which both of its branches end in.
  have hrest : ∀ output : Amount, Action.Local (α := Trade) do
      Action.call (bank.burn vault ⟨base, c.quote.input⟩) fun fault =>
        .executionFailure (.burn ⟨base, c.quote.input⟩ fault)
      let split ← Ledger.book block.time ⟨base, output - c.quote.input⟩
      let _ ← Ledger.countTrade
      return ⟨c.route, c.quote.input, output, ⟨base, output - c.quote.input⟩, split, c.cost⟩ := by
    intro output
    refine Action.Local.bind (Action.Local.call _ _) fun _ => ?_
    refine Action.Local.bind (Ledger.local_book _ _) fun split => ?_
    exact Action.Local.bind Ledger.local_countTrade fun _ => Action.Local.pure _
  rw [executeFrom]
  refine Action.Local.bind (Budget.local_tryConsume c.cost) fun _ => ?_
  refine Action.Local.bind (Action.Local.call _ _) fun _ => ?_
  refine Action.Local.bind (local_swapAll market vault _ _) fun output => ?_
  dsimp only
  split
  · exact Action.Local.bind (Action.Local.throw _) fun _ => hrest output
  · exact hrest output

/-- A cycle that is not executed leaves the store itself. -/
theorem clean_execute (c : Candidate) : (c.execute market bank vault block).Clean := by
  refine Action.Local.clean_atomically ?_
  split
  · exact Action.Local.throw _
  · dsimp only
    split
    · exact Action.Local.bind (Action.Local.throw _) fun _ =>
        local_executeFrom market bank vault block _ c
    · exact local_executeFrom market bank vault block _ c

end Candidate

/-! ## The course of an attempt -/

namespace PostTrade

/-- The cycle that was executed. -/
def trade? : PostTrade → Option Trade
  | .executed done => some done
  | _ => none

theorem trade?_ofAttempt_error (err : Error) : (ofAttempt (.error err)).trade? = none := by
  cases err <;> rfl

end PostTrade

namespace Engine

/-- The store in which an attempt searches: the count has been started anew if the block
is above the recorded one. -/
def countedFor (block : Block) (counted : PointCounter) (s : Store) : Store :=
  if block.height ≤ counted.height then s else Budget.renewed block.height s

/-- Starting the count anew writes the counter only. -/
theorem get_countedFor {k : Bytes} (hk : Key.kind k ≠ some 0x05) (block : Block)
    (counted : PointCounter) (s : Store) : (countedFor block counted s).get k = s.get k := by
  rw [countedFor]
  split
  · rfl
  · exact Store.get_set_of_ne s _ (Key.ne_of_kind hk)

/-- How an attempt in a store may go, with its outcome and the store that it leaves. -/
inductive Course (e : Engine) (block : Block) (trade : Hop) (s : Store) :
    PostTrade → Store → Prop where
  /-- It stops before the count of points, for want of a configuration, of permission or
  of a counter. -/
  | idle {outcome : PostTrade} (hnone : outcome.trade? = none)
      (hidle : ∀ config counted, storedConfig s = .ok config → config.enabled = true →
        Budget.counter s ≠ .ok counted) : Course e block trade s outcome s
  /-- It ends without a cycle. -/
  | searched {outcome : PostTrade} {config : EngineConfig} {counted : PointCounter}
      (hnone : outcome.trade? = none) (hconfig : storedConfig s = .ok config)
      (henabled : config.enabled = true) (hcounted : Budget.counter s = .ok counted) :
      Course e block trade s outcome (countedFor block counted s)
  /-- It executes the cycle that the search has found. -/
  | executed {config : EngineConfig} {counted : PointCounter} {best : Candidate} {done : Trade}
      {t : Store} (hconfig : storedConfig s = .ok config) (henabled : config.enabled = true)
      (hcounted : Budget.counter s = .ok counted)
      (hfound : Search.run config e.market trade (countedFor block counted s) = .ok (.found best))
      (hdone : (best.execute e.market e.bank e.vault block).perform (countedFor block counted s)
        = (.ok done, t)) :
      Course e block trade s (.executed done) t

variable (e : Engine) (block : Block) (trade : Hop) (s : Store)

theorem postTrade_eq : e.postTrade block trade s
    = (.ofAttempt ((e.attempt block trade).perform s).1,
      ((e.attempt block trade).perform s).2) := rfl

/-- What an attempt does once the points are counted. -/
def searchAndExecute (config : EngineConfig) : Action PostTrade := do
  match ← Search.run config e.market trade with
  | .disabled => return .disabled
  | .budgetExhausted => return .budgetExceeded
  | .noRoutes => return .noRoutes
  | .notProfitable => return .notProfitable
  | .found best => return .executed (← best.execute e.market e.bank e.vault block)

/-- After the count, either nothing is executed and nothing changed, or the found cycle is. -/
theorem searchAndExecute_cases (config : EngineConfig) :
    ((PostTrade.ofAttempt ((e.searchAndExecute block trade config).perform s).1).trade? = none
        ∧ ((e.searchAndExecute block trade config).perform s).2 = s)
      ∨ ∃ best done t, Search.run config e.market trade s = .ok (.found best)
        ∧ (best.execute e.market e.bank e.vault block).perform s = (.ok done, t)
        ∧ (e.searchAndExecute block trade config).perform s = (.ok (.executed done), t) := by
  rw [searchAndExecute, Action.perform_bind, Action.perform_liftQuery]
  cases hsearch : Search.run config e.market trade s with
  | error err => exact .inl ⟨PostTrade.trade?_ofAttempt_error err, rfl⟩
  | ok outcome =>
      cases outcome with
      | disabled => exact .inl ⟨rfl, rfl⟩
      | budgetExhausted => exact .inl ⟨rfl, rfl⟩
      | noRoutes => exact .inl ⟨rfl, rfl⟩
      | notProfitable => exact .inl ⟨rfl, rfl⟩
      | found best =>
          dsimp only
          rw [Action.perform_bind]
          -- A found cycle that fails is rolled back, so the store is the one after the count.
          rcases hexecute : (best.execute e.market e.bank e.vault block).perform s with
            ⟨err | done, t⟩
          · refine .inl ⟨PostTrade.trade?_ofAttempt_error err, ?_⟩
            exact Candidate.clean_execute e.market e.bank e.vault block best hexecute
          · exact .inr ⟨best, done, t, rfl, hexecute, rfl⟩

/-- An enabled engine counts the block and goes on from there. -/
theorem postTrade_of_counter {config : EngineConfig} {counted : PointCounter}
    (hconfig : storedConfig s = .ok config) (henabled : config.enabled = true)
    (hcounted : Budget.counter s = .ok counted) :
    e.postTrade block trade s
      = (.ofAttempt ((e.searchAndExecute block trade config).perform
          (countedFor block counted s)).1,
        ((e.searchAndExecute block trade config).perform (countedFor block counted s)).2) := by
  have hbegin : ∃ fresh, (Budget.beginBlock block.height).perform s
      = (.ok fresh, countedFor block counted s) := by
    rw [Budget.perform_beginBlock hcounted, countedFor]
    split
    · exact ⟨false, rfl⟩
    · exact ⟨true, rfl⟩
  obtain ⟨fresh, hbegin⟩ := hbegin
  rw [postTrade_eq, attempt, Action.perform_query_bind_of_ok hconfig,
    if_neg (not_not_intro henabled), Action.perform_bind_of_ok hbegin]
  rfl

/-- An attempt executes the cycle that is found, if that succeeds. -/
theorem postTrade_of_executed {config : EngineConfig} {counted : PointCounter} {best : Candidate}
    {done : Trade} {t : Store} (hconfig : storedConfig s = .ok config)
    (henabled : config.enabled = true) (hcounted : Budget.counter s = .ok counted)
    (hfound : Search.run config e.market trade (countedFor block counted s) = .ok (.found best))
    (hdone : (best.execute e.market e.bank e.vault block).perform (countedFor block counted s)
      = (.ok done, t)) :
    e.postTrade block trade s = (.executed done, t) := by
  rw [postTrade_of_counter e block trade s hconfig henabled hcounted, searchAndExecute,
    Action.perform_query_bind_of_ok hfound]
  dsimp only
  rw [Action.perform_bind_of_ok hdone]
  rfl

/-- Every attempt takes one of the three courses. -/
theorem postTrade_course :
    Course e block trade s (e.postTrade block trade s).1 (e.postTrade block trade s).2 := by
  cases hconfig : storedConfig s with
  | error err =>
      rw [postTrade_eq, attempt, Action.perform_bind, Action.perform_liftQuery, hconfig]
      refine .idle (PostTrade.trade?_ofAttempt_error err) fun config counted h => ?_
      rw [hconfig] at h
      exact absurd h (by simp)
  | ok config =>
      by_cases henabled : config.enabled = true
      · cases hcounted : Budget.counter s with
        | error err =>
            rw [postTrade_eq, attempt, Action.perform_query_bind_of_ok hconfig,
              if_neg (not_not_intro henabled),
              Action.perform_bind_of_error (Budget.perform_beginBlock_of_error hcounted _)]
            refine .idle (PostTrade.trade?_ofAttempt_error err) fun config' counted _ _ h => ?_
            rw [hcounted] at h
            exact absurd h (by simp)
        | ok counted =>
            rw [postTrade_of_counter e block trade s hconfig henabled hcounted]
            rcases searchAndExecute_cases e block trade (countedFor block counted s) config with
              ⟨hnone, hsame⟩ | ⟨best, done, t, hfound, hdone, hrun⟩
            · rw [hsame]
              exact .searched hnone hconfig henabled hcounted
            · rw [hrun]
              exact .executed hconfig henabled hcounted hfound hdone
      · rw [postTrade_eq, attempt, Action.perform_query_bind_of_ok hconfig, if_pos henabled]
        refine .idle rfl fun config' counted h henabled' => ?_
        rw [hconfig] at h
        cases h
        exact absurd henabled' henabled

/-! ## All or nothing -/

/-- Whether an attempt starts the count of points anew: the engine is enabled and the block
is above the recorded one. -/
def Renews (block : Block) (s : Store) : Prop :=
  ∃ config counted, storedConfig s = .ok config ∧ config.enabled = true
    ∧ Budget.counter s = .ok counted ∧ counted.height < block.height

/-- The part of an attempt that stays when it executes nothing. -/
theorem Course.residue {e : Engine} {block : Block} {trade : Hop} {s t : Store}
    {outcome : PostTrade} (h : Course e block trade s outcome t) (hnone : outcome.trade? = none) :
    (Renews block s → t = Budget.renewed block.height s) ∧ (¬ Renews block s → t = s) := by
  cases h with
  -- An attempt that stops so early has no configuration, no permission or no counter.
  | idle _ hidle =>
      refine ⟨fun hrenews => ?_, fun _ => rfl⟩
      obtain ⟨config, counted, hconfig, henabled, hcounted, -⟩ := hrenews
      exact absurd hcounted (hidle config counted hconfig henabled)
  | @searched _ config counted _ hconfig henabled hcounted =>
      rw [countedFor]
      constructor
      · rintro ⟨config', counted', -, -, hcounted', habove⟩
        rw [hcounted] at hcounted'
        cases hcounted'
        exact if_neg (UInt64.not_le.2 habove)
      · intro hsame
        by_cases hle : block.height ≤ counted.height
        · exact if_pos hle
        · exact absurd ⟨config, counted, hconfig, henabled, hcounted, UInt64.not_le.1 hle⟩ hsame
  | executed => exact absurd hnone (by simp [PostTrade.trade?])

/-- Whatever the pools and the bank answer and write: a cycle that is not executed leaves
the store itself, and an attempt that executes none leaves the store itself but for the
count of points, which has been started anew if the engine is enabled and the block is
above the recorded one. -/
theorem all_or_nothing (e : Engine) (block : Block) (s : Store) :
    (∀ (c : Candidate) (err : Error) (t : Store),
      (c.execute e.market e.bank e.vault block).perform s = (.error err, t) → t = s)
    ∧ ∀ (trade : Hop) (outcome : PostTrade) (t : Store),
      e.postTrade block trade s = (outcome, t) → (∀ done, outcome ≠ .executed done) →
        (Renews block s →
          t = s.set Key.pointCounter (Codec.encode (⟨0, block.height⟩ : PointCounter)))
        ∧ (¬ Renews block s → t = s) := by
  constructor
  · intro c err t h
    exact Candidate.clean_execute e.market e.bank e.vault block c h
  · intro trade outcome t h hnone
    have hcourse := postTrade_course e block trade s
    rw [h] at hcourse
    refine hcourse.residue ?_
    cases outcome with
    | executed done => exact absurd rfl (hnone done)
    | _ => rfl

/-- An engine among generous pools whose bank erases the configuration before it refuses to
mint. -/
def erasing : Engine :=
  { Simulation.generous with
    bank := { Simulation.freeBank with
      mint := fun _ _ _ => (.error "refused", [⟨Key.config, none⟩]) } }

theorem not_execute_erasing (block : Block) (c : Candidate) (s t : Store) (done : Trade) :
    (c.execute erasing.market erasing.bank erasing.vault block).perform s ≠ (.ok done, t) := by
  intro hdone
  obtain ⟨base, u, -, -, hfrom, -⟩ := Candidate.execute_ok.1 hdone
  obtain ⟨_, _, _, _, _, _, _, _, -, hmint, -⟩ := Candidate.executeFrom_ok.1 hfrom
  exact absurd (Action.perform_call_ok.1 hmint).1 nofun

theorem not_executed_erasing (block : Block) (trade : Hop) (s : Store) (done : Trade) :
    (erasing.postTrade block trade s).1 ≠ .executed done := by
  intro hexecuted
  have hcourse := postTrade_course erasing block trade s
  rw [hexecuted] at hcourse
  generalize (erasing.postTrade block trade s).2 = t at hcourse
  cases hcourse with
  | idle hnone => exact absurd hnone (by simp [PostTrade.trade?])
  | searched hnone => exact absurd hnone (by simp [PostTrade.trade?])
  | executed _ _ _ _ hdone => exact not_execute_erasing _ _ _ _ _ hdone

/-- In some store a block above the height zero starts the count anew. -/
theorem exists_renews {block : Block} (habove : 0 < block.height) : ∃ s, Renews block s := by
  have hvalid : EngineConfig.standard.validate = .ok () := by decide +kernel
  obtain ⟨s, hconfig, hcounter⟩ := Budget.exists_store hvalid .zero
  exact ⟨s, .standard, .zero, hconfig, rfl, hcounter, habove⟩

/-- The erased configuration is back after a cycle that is not executed, and an attempt at a
new height only starts the count anew. -/
theorem all_or_nothing_erasing :
    ∃ s err t outcome u, Renews ⟨10, .epoch⟩ s
      ∧ (Simulation.roundTripCandidate.execute erasing.market erasing.bank erasing.vault
        ⟨10, .epoch⟩).perform s = (.error err, t)
      ∧ t = s
      ∧ erasing.postTrade ⟨10, .epoch⟩ ⟨1, Simulation.atom, Simulation.osmo⟩ s = (outcome, u)
      ∧ (∀ done, outcome ≠ .executed done)
      ∧ u = s.set Key.pointCounter (Codec.encode (⟨0, 10⟩ : PointCounter)) := by
  obtain ⟨s, hrenews⟩ : ∃ s, Renews ⟨10, .epoch⟩ s := exists_renews (by decide)
  obtain ⟨hexecute, hpost⟩ := all_or_nothing erasing ⟨10, .epoch⟩ s
  have hnone := not_executed_erasing ⟨10, .epoch⟩ ⟨1, Simulation.atom, Simulation.osmo⟩ s
  rcases hrun : (Simulation.roundTripCandidate.execute erasing.market erasing.bank erasing.vault
    ⟨10, .epoch⟩).perform s with ⟨err | done, t⟩
  · exact ⟨s, err, t, _, _, hrenews, hrun, hexecute _ err t hrun, rfl, hnone,
      (hpost _ _ _ rfl hnone).1 hrenews⟩
  · exact absurd hrun (not_execute_erasing _ _ _ _ _)

end Engine

end Backrun
