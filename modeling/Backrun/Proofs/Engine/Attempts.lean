import Backrun.Proofs.Engine.Progress
import Backrun.Proofs.Genesis.Restart

/-!
# Attempts in reachable states

A state is reached from a genesis by calls of engines, and by whatever happens outside the keys
of the engine in between; it is coherent (`Reached.coherent`).  In a coherent state a search comes
to an outcome, so that an attempt is given up only if the cycle that it finds fails
(`Engine.finds_of_failed`), and with the error of that cycle (`Engine.Finds.failed`).
-/

namespace Backrun

/-! ## Cycles that fail -/

namespace Candidate

variable {market : Market} {bank : Bank} {vault : Account} {block : Block} {base : Denom}
  {c : Candidate} {s u : Store} {err : Error}

theorem execute_of_error (hbase : c.route.base? = some base)
    (hlength : c.quote.outputs.length = c.route.hops.length)
    (hrun : (c.executeFrom base market bank vault block).perform s.openBranch = (.error err, u)) :
    (c.execute market bank vault block).perform s = (.error err, s) := by
  have hfails : ∃ t, (c.execute market bank vault block).perform s = (.error err, t) := by
    rw [execute, Action.perform_atomically, hbase]
    dsimp only
    rw [if_neg (not_not_intro hlength), hrun]
    exact ⟨_, rfl⟩
  obtain ⟨t, ht⟩ := hfails
  obtain rfl := clean_execute market bank vault block c ht
  exact ht

end Candidate

/-! ## Reachable states -/

/-- A state that is reached from a genesis by calls of engines, whose pools and banks stay outside
the keys of the engine, and by whatever else happens outside of these keys. -/
inductive Reached (g : Genesis) : Store → Prop
  | imported {s : Store} (stored : g.store.perform Store.empty = (.ok (), s)) : Reached g s
  | called {s : Store} {c : Call} (before : Reached g s) (stays : c.engine.StaysOutside) :
      Reached g (c.leave s)
  | moved {s t : Store} (before : Reached g s) (same : Store.SameEngine s t) : Reached g t

/-- Every reachable state is coherent. -/
theorem Reached.coherent {g : Genesis} {s : Store} (h : Reached g s) :
    ∃ config counted, Coherent s.get config counted := by
  induction h with
  | imported stored => exact ⟨_, _, Genesis.coherent_of_perform_store stored⟩
  | called _ stays ih =>
      obtain ⟨config, counted, hcoherent⟩ := ih
      obtain ⟨config', counted', hnext, -⟩ := hcoherent.operate stays _
      exact ⟨config', counted', hnext⟩
  | moved _ same ih =>
      obtain ⟨config, counted, hcoherent⟩ := ih
      exact ⟨config, counted, hcoherent.congr same⟩

/-! ## Attempts -/

namespace Engine

variable {e : Engine} {block : Block} {trade : Hop} {s t : Store}

/-- The search of an attempt, in the store in which the points are counted, finds a cycle. -/
def Finds (e : Engine) (block : Block) (trade : Hop) (s t : Store) (c : Candidate) : Prop :=
  ∃ config counted, storedConfig s = .ok config ∧ Budget.counter s = .ok counted
    ∧ t = countedFor block counted s ∧ Search.run config e.market trade t = .ok (.found c)

theorem Finds.unique {t' : Store} {c c' : Candidate} (h : e.Finds block trade s t c)
    (h' : e.Finds block trade s t' c') : t = t' ∧ c = c' := by
  obtain ⟨config, counted, hconfig, hcounted, rfl, hfound⟩ := h
  obtain ⟨config', counted', hconfig', hcounted', rfl, hfound'⟩ := h'
  obtain rfl := Except.ok.inj (hconfig.symm.trans hconfig')
  obtain rfl := Except.ok.inj (hcounted.symm.trans hcounted')
  exact ⟨rfl, SearchOutcome.found.inj (Except.ok.inj (hfound.symm.trans hfound'))⟩

theorem eq_of_ofAttempt_failed {err err' : Error}
    (h : PostTrade.ofAttempt (.error err) = .failed err') : err = err' := by
  cases err <;> cases h <;> rfl

theorem kind_of_ofAttempt_budgetExceeded {err : Error}
    (h : PostTrade.ofAttempt (.error err) = .budgetExceeded) : err.kind = .budgetExceeded := by
  cases err <;> cases h
  rfl

/-- How an attempt in a coherent state goes: the search of an enabled engine always comes to an
outcome, and what it finds is executed. -/
inductive Attempted (e : Engine) (block : Block) (trade : Hop) (s : Store) (config : EngineConfig)
    (counted : PointCounter) : PostTrade → Store → Prop
  | turnedOff (hdisabled : config.enabled ≠ true) :
      Attempted e block trade s config counted .disabled s
  | exhausted (henabled : config.enabled = true)
      (hsearch : Search.run config e.market trade (countedFor block counted s)
        = .ok .budgetExhausted) :
      Attempted e block trade s config counted .budgetExceeded (countedFor block counted s)
  /-- There was nothing to execute, and points were left. -/
  | futile {answer : PostTrade}
      (hanswer : answer = .disabled ∨ answer = .noRoutes ∨ answer = .notProfitable) :
      Attempted e block trade s config counted answer (countedFor block counted s)
  | executed {c : Candidate} {done : Trade} {t : Store}
      (hfinds : e.Finds block trade s (countedFor block counted s) c)
      (hrun : (c.execute e.market e.bank e.vault block).perform (countedFor block counted s)
        = (.ok done, t)) :
      Attempted e block trade s config counted (.executed done) t
  | broken {c : Candidate} {err : Error} {answer : PostTrade} {t : Store}
      (hfinds : e.Finds block trade s (countedFor block counted s) c)
      (hrun : (c.execute e.market e.bank e.vault block).perform (countedFor block counted s)
        = (.error err, t))
      (hanswer : PostTrade.ofAttempt (.error err) = answer) :
      Attempted e block trade s config counted answer t

theorem attempted {config : EngineConfig} {counted : PointCounter}
    (h : Coherent s.get config counted) (e : Engine) (block : Block) (trade : Hop) :
    e.Attempted block trade s config counted (e.postTrade block trade s).1
      (e.postTrade block trade s).2 := by
  have hconfig := h.budget.storedConfig_eq
  have hcounted := h.budget.counter_eq
  by_cases henabled : config.enabled = true
  · have hbegun := h.countedFor block
    obtain ⟨outcome, hsearch⟩ :=
      Search.exists_run_ok hbegun.readable hbegun.budget.state_eq config e.market trade
    rw [postTrade_of_counter e block trade s hconfig henabled hcounted, searchAndExecute,
      Action.perform_query_bind_of_ok hsearch]
    cases outcome with
    | budgetExhausted => exact .exhausted henabled hsearch
    | found c =>
        have hfinds : e.Finds block trade s (countedFor block counted s) c :=
          ⟨config, counted, hconfig, hcounted, rfl, hsearch⟩
        dsimp only
        rcases hrun : (c.execute e.market e.bank e.vault block).perform
          (countedFor block counted s) with ⟨err | done, t⟩
        · rw [Action.perform_bind_of_error hrun]
          exact .broken hfinds hrun rfl
        · rw [Action.perform_bind_of_ok hrun]
          exact .executed hfinds hrun
    | disabled => exact .futile (.inl rfl)
    | noRoutes => exact .futile (.inr (.inl rfl))
    | notProfitable => exact .futile (.inr (.inr rfl))
  · rw [postTrade_eq, attempt, Action.perform_query_bind_of_ok hconfig, if_pos henabled]
    exact .turnedOff henabled

/-- In coherent states an attempt is given up only if the found cycle fails. -/
theorem finds_of_failed {config : EngineConfig} {counted : PointCounter} {err : Error}
    (h : Coherent s.get config counted) (hfailed : e.postTrade block trade s = (.failed err, t)) :
    ∃ u c, e.Finds block trade s u c
      ∧ (c.execute e.market e.bank e.vault block).perform u = (.error err, t) := by
  have hattempted := attempted h e block trade
  rw [hfailed] at hattempted
  cases hattempted with
  | futile hanswer => simp at hanswer
  | broken hfinds hrun hanswer =>
      obtain rfl := eq_of_ofAttempt_failed hanswer
      exact ⟨_, _, hfinds, hrun⟩

/-- An attempt is given up with the found cycle. -/
theorem Finds.failed {c : Candidate} {setback : Setback} {u : Store}
    (h : e.Finds block trade s t c)
    (hrun : (c.execute e.market e.bank e.vault block).perform t
      = (.error (.executionFailure setback), u)) :
    e.postTrade block trade s = (.failed (.executionFailure setback), u) := by
  obtain ⟨config, counted, hconfig, hcounted, rfl, hfound⟩ := h
  rw [postTrade_of_counter e block trade s hconfig (Search.enabled_of_found hfound) hcounted,
    searchAndExecute, Action.perform_query_bind_of_ok hfound]
  dsimp only
  rw [Action.perform_bind_of_error hrun]
  rfl

end Engine

end Backrun
