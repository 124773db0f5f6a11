import Backrun.Proofs.Engine.Attempts
import Backrun.Proofs.Simulation.RoundTrip

/-!
# Who may govern, and what the others cannot do

The store says who the admin is, so those who may govern change in the course of a run.

* In a reachable state the configuration is there, so whoever may not govern is told so, and
  nothing else is looked at (`Governance.Change.perform_of_denied`).  Behind the gate it does not
  matter who has asked (`Governance.Change.permitted`).
* A call that leaves the store that it has found may be erased from a run: every other call finds
  the same store as before (`Call.log_erased`).  Failed changes of governance are such calls.
* So are all changes that an account asks for which is never the admin or the authority.  Such an
  account does not become the admin by its own calls either, so two runs that differ in its changes
  only cannot be told apart (`Call.log_without`).
-/

namespace Backrun

/-! ## Entitlement -/

namespace Governance

variable {authority caller : Account} {change : Change} {config : EngineConfig} {s : Store}

/-- The store names this admin, or none. -/
def AdminIs (s : Store) (admin : Option Account) : Prop :=
  ∃ config, storedConfig s = .ok config ∧ config.admin = admin

/-- The admin may make every change.  The authority may name the admin, and make every other change
while there is no admin. -/
def Entitled (authority caller : Account) (change : Change) (s : Store) : Prop :=
  AdminIs s (some caller)
    ∨ caller = authority ∧ (AdminIs s none ∨ ∃ named, change = .admin named)

theorem mayGovern_iff : mayGovern authority caller config = true
    ↔ config.admin = some caller ∨ caller = authority ∧ config.admin = none := by
  rw [mayGovern]
  cases config.admin with
  | some admin => simp
  | none => simpa using eq_comm

/-- A change as it is made once it is permitted. -/
def Change.permitted : Change → Action Unit
  | .enabled on => changeConfig fun c => { c with enabled := on }
  | .pointsPerTx ceiling => Budget.setPointsPerTx ceiling
  | .pointsPerBlock ceiling => Budget.setPointsPerBlock ceiling
  | .weights update => Budget.setWeights update
  | .baseDenoms bases => do
      let previous ← Registry.baseDenoms
      Registry.setBaseDenoms bases
      (dropped previous bases).forM fun b => Registry.clearPools b.denom
  | .routes a b cycles => do
      let config ← storedConfig
      Registry.setRoutes a b cycles config.search.mostHops
  | .admin named => changeConfig fun c => { c with admin := some named }
  | .developer named => changeConfig fun c => { c with developer := some named }

/-- The admin, or whoever stands in for one, is let through. -/
theorem authorize_eq_ok (hconfig : storedConfig s = .ok config)
    (h : config.admin = some caller ∨ caller = authority ∧ config.admin = none) :
    authorize authority caller s = .ok () := by
  rw [authorize, Query.bind_of_ok hconfig, if_neg (not_not_intro (mayGovern_iff.2 h))]
  rfl

/-- Behind the gate it does not matter who has asked. -/
theorem Change.perform_of_authorized (h : authorize authority caller s = .ok ()) :
    (change.action authority caller).perform s = change.permitted.perform s := by
  cases change with
  | admin named =>
      rw [Change.action, setAdmin]
      dsimp only
      split
      · exact Action.perform_query_bind_of_ok h _
      · rfl
  | enabled | pointsPerTx | pointsPerBlock | weights | baseDenoms | routes | developer =>
      exact Action.perform_query_bind_of_ok h _

/-- Whoever is entitled to a change is let through. -/
theorem Change.perform_of_entitled (h : Entitled authority caller change s) :
    (change.action authority caller).perform s = change.permitted.perform s := by
  rcases h with ⟨config, hconfig, hadmin⟩ | ⟨rfl, ⟨config, hconfig, hnone⟩ | ⟨named, rfl⟩⟩
  · exact perform_of_authorized (authorize_eq_ok hconfig (.inl hadmin))
  · exact perform_of_authorized (authorize_eq_ok hconfig (.inr ⟨rfl, hnone⟩))
  · rw [Change.action, setAdmin]
    dsimp only
    rw [if_neg (not_not_intro rfl)]
    rfl

/-- Whoever is neither the admin nor stands in for one is turned away. -/
theorem authorize_error (hconfig : storedConfig s = .ok config)
    (hadmin : config.admin ≠ some caller)
    (hauthority : caller = authority → config.admin ≠ none) :
    authorize authority caller s = .error (.unauthorized (.notAdmin caller)) := by
  have hmay : ¬ mayGovern authority caller config = true := by
    rw [mayGovern_iff, not_or, not_and]
    exact ⟨hadmin, hauthority⟩
  rw [authorize, Query.bind_of_ok hconfig, if_pos hmay]
  rfl

/-- What fails at the gate has failed as a whole. -/
theorem authorize_bind_of_error {e : Error} (h : authorize authority caller s = .error e)
    (f : Unit → Action Unit) :
    ((liftM (authorize authority caller) : Action Unit) >>= f).perform s = (.error e, s) :=
  Action.perform_bind_of_error (by rw [Action.perform_liftQuery, h]) f

/-- All changes stand behind the same gate, which the authority may pass by to name the admin. -/
theorem Change.perform_of_denied {e : Error} (h : authorize authority caller s = .error e)
    (hother : caller = authority → ∀ named, change ≠ .admin named) :
    (change.action authority caller).perform s = (.error e, s) := by
  cases change with
  | admin named =>
      have hne : caller ≠ authority := fun heq => hother heq named rfl
      rw [Change.action, setAdmin]
      dsimp only
      rw [if_pos hne]
      exact authorize_bind_of_error h _
  | enabled | pointsPerTx | pointsPerBlock | weights | baseDenoms | routes | developer =>
      exact authorize_bind_of_error h _

/-- With a configuration in the store nobody who is not entitled changes anything. -/
theorem Change.perform_of_not_entitled (hconfig : storedConfig s = .ok config)
    (h : ¬ Entitled authority caller change s) :
    (change.action authority caller).perform s
      = (.error (.unauthorized (.notAdmin caller)), s) := by
  rw [Entitled, not_or, not_and, not_or, not_exists] at h
  obtain ⟨hadmin, hauthority⟩ := h
  refine perform_of_denied (authorize_error hconfig ?_ ?_) fun heq => (hauthority heq).2
  · exact fun heq => hadmin ⟨config, hconfig, heq⟩
  · exact fun heq hnone => (hauthority heq).1 ⟨config, hconfig, hnone⟩

/-- Whoever is neither the admin nor the authority changes nothing, whatever the store holds. -/
theorem Change.perform_of_stranger (hadmin : ¬ AdminIs s (some caller))
    (hauthority : caller ≠ authority) :
    ((change.action authority caller).perform s).2 = s := by
  obtain ⟨e, he⟩ : ∃ e, authorize authority caller s = .error e := by
    cases hconfig : storedConfig s with
    | error e => exact ⟨e, Query.bind_error.2 (.inl hconfig)⟩
    | ok config =>
        exact ⟨_, authorize_error hconfig (fun heq => hadmin ⟨config, hconfig, heq⟩)
          fun heq => absurd heq hauthority⟩
  rw [perform_of_denied he fun heq => absurd heq hauthority]

end Governance

/-! ## The log of a run -/

namespace Call

variable {calls : List Call} {s : Store} {x : Account}

/-- A call of a run, with the store that it finds.  The two decide what it answers and leaves. -/
structure Entry where
  call : Call
  found : Store

namespace Entry

/-- What the call answered. -/
def reply (e : Entry) : Reply := e.call.reply e.found

/-- The store that the call left. -/
def left (e : Entry) : Store := e.call.leave e.found

/-- A change of governance was asked for and failed. -/
def isFailedChange (e : Entry) : Bool :=
  match e.reply with
  | .changed (.error _) => true
  | _ => false

/-- A change that fails leaves the store as it was. -/
theorem left_of_isFailedChange {e : Entry} (h : e.isFailedChange = true) : e.left = e.found := by
  obtain ⟨⟨engine, operation⟩, found⟩ := e
  cases operation with
  | govern caller change =>
      rcases hrun : (change.action engine.authority caller).perform found with ⟨err | _, t⟩
      · exact (congrArg Prod.snd hrun).trans (Governance.clean_change change hrun)
      · have hreply : (⟨⟨engine, .govern caller change⟩, found⟩ : Entry).reply
            = .changed (.ok ()) :=
          congrArg (fun p : Except Error Unit × Store => Reply.changed p.1) hrun
        rw [isFailedChange, hreply] at h
        cases h
  | postTrade | withdrawFees => cases h

end Entry

/-- The calls of a run in order. -/
def log : List Call → Store → List Entry
  | [], _ => []
  | c :: calls, s => ⟨c, s⟩ :: log calls (c.leave s)

@[simp]
theorem log_cons (c : Call) (calls : List Call) (s : Store) :
    log (c :: calls) s = ⟨c, s⟩ :: log calls (c.leave s) := rfl

theorem map_call_log (calls : List Call) (s : Store) : (log calls s).map Entry.call = calls := by
  induction calls generalizing s with
  | nil => rfl
  | cons c calls ih => rw [log_cons, List.map_cons, ih]

theorem call_mem {e : Entry} (he : e ∈ log calls s) : e.call ∈ calls := by
  have hmem : e.call ∈ (log calls s).map Entry.call := List.mem_map_of_mem he
  rwa [map_call_log] at hmem

/-- The stores that a run goes through, from the first to the last. -/
def stores (calls : List Call) (s : Store) : List Store :=
  (log calls s).map Entry.found ++ [leaveAll calls s]

theorem stores_cons (c : Call) (calls : List Call) (s : Store) :
    stores (c :: calls) s = s :: stores calls (c.leave s) := rfl

theorem mem_stores_self (calls : List Call) (s : Store) : s ∈ stores calls s := by
  cases calls with
  | nil => exact List.mem_singleton_self s
  | cons c calls => exact List.mem_cons_self

theorem found_mem_stores {e : Entry} (he : e ∈ log calls s) : e.found ∈ stores calls s :=
  List.mem_append_left _ (List.mem_map_of_mem he)

/-- Calls that leave the store that they have found may be erased: those that are kept find the
same stores, so they answer and leave the same, and so does the run. -/
theorem log_erased {keeps : Entry → Bool}
    (h : ∀ e ∈ log calls s, keeps e = false → e.left = e.found) :
    log (((log calls s).filter keeps).map Entry.call) s = (log calls s).filter keeps
      ∧ leaveAll (((log calls s).filter keeps).map Entry.call) s = leaveAll calls s := by
  induction calls generalizing s with
  | nil => exact ⟨rfl, rfl⟩
  | cons c calls ih =>
      obtain ⟨hlog, hleave⟩ := ih fun e he => h e (List.mem_cons_of_mem _ he)
      rw [log_cons]
      by_cases hkeeps : keeps ⟨c, s⟩ = true
      · rw [List.filter_cons_of_pos hkeeps, List.map_cons, log_cons, leaveAll_cons, leaveAll_cons,
          hlog, hleave]
        exact ⟨rfl, rfl⟩
      · have hsame : c.leave s = s :=
          h ⟨c, s⟩ List.mem_cons_self (Bool.eq_false_iff.2 hkeeps)
        rw [hsame] at hlog hleave ⊢
        rw [List.filter_cons_of_neg hkeeps, leaveAll_cons, hsame]
        exact ⟨hlog, hleave⟩

/-! ## Runs without the failed changes -/

/-- What is left of a run without the changes of governance that fail. -/
def lasting (calls : List Call) (s : Store) : List Entry :=
  (log calls s).filter fun e => !e.isFailedChange

theorem log_lasting (calls : List Call) (s : Store) :
    log ((lasting calls s).map Entry.call) s = lasting calls s
      ∧ leaveAll ((lasting calls s).map Entry.call) s = leaveAll calls s := by
  refine log_erased fun e _ hfailed => Entry.left_of_isFailedChange ?_
  rwa [Bool.not_eq_false'] at hfailed

/-! ## Runs without the changes of one account -/

/-- The account asks for a change of governance. -/
def isChangeBy (x : Account) (c : Call) : Bool :=
  match c.operation with
  | .govern caller _ => caller == x
  | _ => false

/-- A run without the changes that an account asks for. -/
def without (x : Account) (calls : List Call) : List Call :=
  calls.filter fun c => !c.isChangeBy x

theorem leave_of_isChangeBy {c : Call} (hadmin : ¬ Governance.AdminIs s (some x))
    (hauthority : c.engine.authority ≠ x) (h : c.isChangeBy x = true) : c.leave s = s := by
  obtain ⟨engine, operation⟩ := c
  cases operation with
  | govern caller change =>
      obtain rfl : caller = x := eq_of_beq h
      exact Governance.Change.perform_of_stranger hadmin (Ne.symm hauthority)
  | postTrade | withdrawFees => cases h

/-- The log of a run but for the changes that an account asks for: what everybody else sees. -/
def logWithout (x : Account) (calls : List Call) (s : Store) : List Entry :=
  (log calls s).filter fun e => !e.call.isChangeBy x

theorem map_call_logWithout (x : Account) (calls : List Call) (s : Store) :
    (logWithout x calls s).map Entry.call = without x calls := by
  have hfilter := List.filter_map (f := Entry.call) (p := fun c => !c.isChangeBy x)
    (l := log calls s)
  rw [map_call_log] at hfilter
  exact hfilter.symm

/-- Where the changes of an account leave everything as it is, nobody else can tell whether they
were asked for. -/
theorem log_without (h : ∀ e ∈ log calls s, e.call.isChangeBy x = true → e.left = e.found) :
    log (without x calls) s = logWithout x calls s
      ∧ leaveAll (without x calls) s = leaveAll calls s := by
  have hidle : ∀ e ∈ log calls s, (!e.call.isChangeBy x) = false → e.left = e.found := by
    intro e he hby
    rw [Bool.not_eq_false'] at hby
    exact h e he hby
  have herased := log_erased hidle
  rwa [← logWithout, map_call_logWithout] at herased

/-- Their calls do not lead to other stores either. -/
theorem stores_without_subset
    (h : ∀ e ∈ log calls s, e.call.isChangeBy x = true → e.left = e.found) :
    stores (without x calls) s ⊆ stores calls s := by
  obtain ⟨hlog, hleave⟩ := log_without h
  rw [stores, hlog, hleave]
  exact ((List.filter_sublist.map Entry.found).append_right _).subset

/-- An account that is not the admin in the run without its changes changes nothing. -/
theorem left_of_isChangeBy
    (hadmin : ∀ t ∈ stores (without x calls) s, ¬ Governance.AdminIs t (some x))
    (hauthority : ∀ c ∈ calls, c.engine.authority ≠ x) :
    ∀ e ∈ log calls s, e.call.isChangeBy x = true → e.left = e.found := by
  induction calls generalizing s with
  | nil => exact fun e he => absurd he List.not_mem_nil
  | cons c calls ih =>
      have hrest : ∀ c' ∈ calls, c'.engine.authority ≠ x :=
        fun c' hc' => hauthority c' (List.mem_cons_of_mem c hc')
      rw [log_cons, List.forall_mem_cons]
      by_cases hby : c.isChangeBy x = true
      -- Such a call is no part of the run without them, which goes on from the same store.
      · have hwithout : without x (c :: calls) = without x calls :=
          List.filter_cons_of_neg (by simp [hby])
        rw [hwithout] at hadmin
        have hsame : c.leave s = s := leave_of_isChangeBy (hadmin s (mem_stores_self _ s))
          (hauthority c List.mem_cons_self) hby
        rw [hsame]
        exact ⟨fun _ => hsame, ih hadmin hrest⟩
      · have hwithout : without x (c :: calls) = c :: without x calls :=
          List.filter_cons_of_pos (by simp [hby])
        rw [hwithout, stores_cons, List.forall_mem_cons] at hadmin
        exact ⟨fun hby' => absurd hby' hby, ih hadmin.2 hrest⟩

/-- Two runs that differ only in what an account asks for look the same to everybody else, if that
account is never the admin in the first one and never the authority. -/
theorem logWithout_eq {calls' : List Call}
    (hadmin : ∀ t ∈ stores calls s, ¬ Governance.AdminIs t (some x))
    (hauthority : ∀ c ∈ calls ++ calls', c.engine.authority ≠ x)
    (hwithout : without x calls' = without x calls) :
    logWithout x calls' s = logWithout x calls s ∧ leaveAll calls' s = leaveAll calls s := by
  rw [List.forall_mem_append] at hauthority
  have hidle : ∀ e ∈ log calls s, e.call.isChangeBy x = true → e.left = e.found := fun e he =>
    leave_of_isChangeBy (hadmin e.found (found_mem_stores he)) (hauthority.1 e.call (call_mem he))
  have hidle' : ∀ e ∈ log calls' s, e.call.isChangeBy x = true → e.left = e.found := by
    refine left_of_isChangeBy (fun t ht => hadmin t ?_) hauthority.2
    rw [hwithout] at ht
    exact stores_without_subset hidle ht
  obtain ⟨hlog, hleave⟩ := log_without hidle
  obtain ⟨hlog', hleave'⟩ := log_without hidle'
  rw [hwithout] at hlog' hleave'
  exact ⟨hlog'.symm.trans hlog, hleave'.symm.trans hleave⟩

end Call

/-! ## The gate -/

/-- **The gate of governance.**  In every reachable state
* whoever is entitled to a change is let through, and everybody else is turned away as
  unauthorized,
* a change that fails, for whatever reason, leaves the store itself,
* erasing the failed changes from a run changes nothing for the calls that remain, and
* an account that is never the admin or the authority has no influence: runs that differ only in
  the changes that it asks for come to the same end, and look the same to everybody else. -/
theorem Reached.governance_gated {g : Genesis} {s : Store} (hreached : Reached g s) :
    (∀ (authority caller : Account) (change : Governance.Change),
        (Governance.Entitled authority caller change s →
          (change.action authority caller).perform s = change.permitted.perform s)
        ∧ (¬ Governance.Entitled authority caller change s →
          (change.action authority caller).perform s
            = (.error (.unauthorized (.notAdmin caller)), s)))
      ∧ (∀ (authority caller : Account) (change : Governance.Change) (err : Error) (t : Store),
        (change.action authority caller).perform s = (.error err, t) → t = s)
      ∧ (∀ calls : List Call,
        Call.log ((Call.lasting calls s).map Call.Entry.call) s = Call.lasting calls s
          ∧ Call.leaveAll ((Call.lasting calls s).map Call.Entry.call) s = Call.leaveAll calls s)
      ∧ ∀ (x : Account) (calls calls' : List Call),
        (∀ t ∈ Call.stores calls s, ¬ Governance.AdminIs t (some x)) →
        (∀ c ∈ calls ++ calls', c.engine.authority ≠ x) →
        Call.without x calls' = Call.without x calls →
        Call.logWithout x calls' s = Call.logWithout x calls s
          ∧ Call.leaveAll calls' s = Call.leaveAll calls s := by
  obtain ⟨config, counted, h⟩ := hreached.coherent
  refine ⟨fun authority caller change => ⟨fun hentitled => ?_, fun hnot => ?_⟩,
    fun authority caller change err t hfailed => ?_, fun calls => Call.log_lasting calls s,
    fun x calls calls' => Call.logWithout_eq⟩
  · exact Governance.Change.perform_of_entitled hentitled
  · exact Governance.Change.perform_of_not_entitled h.budget.storedConfig_eq hnot
  · exact Governance.clean_change change hfailed

/-- An account that has nothing to do with the engines. -/
def Simulation.stranger : Account := ⟨"stranger", by decide⟩

/-- While the round trip is in turn nobody is the admin. -/
theorem Simulation.Turning.not_adminIs {s : Store} {ceiling : UInt64} {counted : PointCounter}
    {trades : Nat} (h : Turning s ceiling counted trades) (x : Account) :
    ¬ Governance.AdminIs s (some x) := by
  rintro ⟨config, hconfig, hadmin⟩
  obtain rfl := h.coherent.budget.config_unique hconfig
  cases hadmin

/-- A stranger asks in vain to be the admin and to turn the engine off, while the round trip is
executed and the authority, which is let through, lowers the ceiling. -/
theorem Reached.governance_gated_stranger :
    ∃ (s : Store) (calls calls' : List Call),
      Reached (Simulation.routeGenesis (Simulation.tight 10) Simulation.roundTrip) s
      ∧ calls = [Simulation.attempt ⟨0, .epoch⟩, Simulation.recap 5]
      ∧ calls' = [
        ⟨Simulation.generous, .govern Simulation.stranger (.admin Simulation.stranger)⟩,
        Simulation.attempt ⟨0, .epoch⟩,
        ⟨Simulation.generous, .govern Simulation.stranger (.enabled false)⟩, Simulation.recap 5]
      ∧ ((Governance.Change.pointsPerBlock 5).action Simulation.generous.authority
          Simulation.generous.authority).perform s = (Budget.setPointsPerBlock 5).perform s
      ∧ ((Governance.Change.admin Simulation.stranger).action Simulation.generous.authority
          Simulation.stranger).perform s
        = (.error (.unauthorized (.notAdmin Simulation.stranger)), s)
      ∧ Call.logWithout Simulation.stranger calls' s = Call.logWithout Simulation.stranger calls s
      ∧ Call.leaveAll calls' s = Call.leaveAll calls s := by
  obtain ⟨s, hgenesis, hturning⟩ :=
    Simulation.exists_turning Simulation.validate_roundTripGenesis
  obtain ⟨-, counted, hattempted, -, -⟩ :=
    hturning.leave_attempt ⟨0, .epoch⟩ (by decide) (by decide)
  obtain ⟨-, hrecapped⟩ := hattempted.leave_recap
    (by decide +kernel : (Simulation.tight 5).validate = .ok ())
  have hreached := Reached.imported hgenesis
  obtain ⟨hgated, -, -, hinfluence⟩ := governance_gated hreached
  refine ⟨s, _, _, hreached, rfl, rfl, (hgated _ _ _).1 ?_, (hgated _ _ _).2 ?_,
    hinfluence Simulation.stranger _ _ ?_ ?_ rfl⟩
  · exact .inr ⟨rfl, .inl ⟨_, hturning.coherent.budget.storedConfig_eq, rfl⟩⟩
  · rintro (hadmin | ⟨hauthority, -⟩)
    · exact hturning.not_adminIs _ hadmin
    · exact absurd hauthority (by decide)
  · simp only [Call.stores_cons, List.forall_mem_cons]
    exact ⟨hturning.not_adminIs _, hattempted.not_adminIs _, fun t ht => by
      obtain rfl := List.mem_singleton.1 ht
      exact hrecapped.not_adminIs _⟩
  -- All calls are calls of the same engine.
  · have hother : Simulation.generous.authority ≠ Simulation.stranger := by decide
    simp only [List.cons_append, List.nil_append, List.forall_mem_cons]
    exact ⟨hother, hother, hother, hother, hother, hother, fun _ => nofun⟩

end Backrun
