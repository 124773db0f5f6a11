import Backrun.Proofs.Engine.Operation
import Backrun.Proofs.Engine.PostTrade
import Backrun.Proofs.Governance
import Backrun.Proofs.Ledger.Booked

/-!
# Coherent states

A view is coherent if the budget, the registry and the books are in order.  Every operation
keeps it so, whether it succeeds or fails, as long as the pools and the bank stay outside
the keys of the engine; `operate_cases` also says what becomes of the counter.
-/

namespace Backrun

/-! ## Engine keys out of the reach of calls -/

namespace Store

/-- The second store holds the same under all keys of the engine. -/
def SameEngine (s t : Store) : Prop := ∀ k, Key.IsEngine k → t.get k = s.get k

theorem SameEngine.refl (s : Store) : SameEngine s s := fun _ _ => rfl

theorem SameEngine.trans {s t u : Store} (hst : SameEngine s t) (htu : SameEngine t u) :
    SameEngine s u := fun k hk => (htu k hk).trans (hst k hk)

/-- Writes outside the keys of the engine change none of them. -/
theorem sameEngine_writeAll (s : Store) {writes : List Write}
    (h : ∀ w ∈ writes, ¬ Key.IsEngine w.key) : SameEngine s (s.writeAll writes) := by
  intro k hk
  rw [get_writeAll]
  exact View.afterAll_of_untouched s.get fun w hw heq => h w hw (heq ▸ hk)

end Store

namespace Action

variable {α β : Type}

/-- An action that changes no key of the engine, whether it succeeds or fails. -/
def Quiet (a : Action α) : Prop := ∀ s : Store, Store.SameEngine s (a.perform s).2

theorem Quiet.pure (x : α) : Quiet (Pure.pure x : Action α) := fun s => Store.SameEngine.refl s

theorem Quiet.throw (e : Error) : Quiet (MonadExcept.throw e : Action α) :=
  fun s => Store.SameEngine.refl s

theorem Quiet.call {effect : Effect α} (h : effect.IsOutside) (explain : Fault → Error) :
    Quiet (Action.call effect explain) := fun s => Store.sameEngine_writeAll s (h s.get)

theorem Quiet.bind {a : Action α} {f : α → Action β} (ha : Quiet a) (hf : ∀ x, Quiet (f x)) :
    Quiet (a >>= f) := by
  intro s
  have hfirst := ha s
  rw [perform_bind]
  rcases heq : a.perform s with ⟨e | x, u⟩
  · rw [heq] at hfirst
    exact hfirst
  · rw [heq] at hfirst
    exact hfirst.trans (hf x u)

theorem Quiet.forM (xs : List β) {g : β → Action PUnit} (hg : ∀ x, Quiet (g x)) :
    Quiet (xs.forM g) := by
  induction xs with
  | nil => exact Quiet.pure PUnit.unit
  | cons x xs ih => exact Quiet.bind (hg x) fun _ => ih

end Action

/-- Swaps through pools that stay outside change no key of the engine. -/
theorem Candidate.quiet_swapAll {market : Market} {vault : Account}
    (h : ∀ hop amount, (market.swap vault hop amount).IsOutside) (amount : Amount)
    (hops : List (Hop × Amount)) : (swapAll market vault amount hops).Quiet := by
  induction hops generalizing amount with
  | nil => exact Action.Quiet.pure amount
  | cons hop rest ih =>
      refine Action.Quiet.bind (Action.Quiet.call (h hop.1 amount) _) fun output => ?_
      dsimp only
      split
      · exact Action.Quiet.bind (Action.Quiet.throw _) fun _ => ih output
      · exact ih output

/-- From the debit to the booking only those outside write. -/
theorem Candidate.sameEngine_of_stages {e : Engine} (hout : e.StaysOutside) {c : Coin}
    {amount output : Amount} {hops : List (Hop × Amount)} {explain explain' : Fault → Error}
    {debited minted swapped burned : Store}
    (hmint : (Action.call (e.bank.mint e.vault c) explain).perform debited = (.ok (), minted))
    (hswap : (swapAll e.market e.vault amount hops).perform minted = (.ok output, swapped))
    (hburn : (Action.call (e.bank.burn e.vault c) explain').perform swapped = (.ok (), burned)) :
    Store.SameEngine debited burned := by
  have hminted := Action.Quiet.call (hout.bank.mint e.vault c) explain debited
  have hswapped := quiet_swapAll (hout.market.swap e.vault) amount hops minted
  have hburned := Action.Quiet.call (hout.bank.burn e.vault c) explain' swapped
  rw [hmint] at hminted
  rw [hswap] at hswapped
  rw [hburn] at hburned
  exact hminted.trans (hswapped.trans hburned)

/-! ## Coherence -/

/-- A view holds this configuration and this counter, and everything that the engine stores
is in order. -/
structure Coherent (v : View) (config : EngineConfig) (counted : PointCounter) : Prop where
  budget : Budgeted v config counted
  registry : Registered v config.search.mostHops
  books : Booked v

namespace Coherent

variable {v w : View} {s t : Store} {config : EngineConfig} {counted : PointCounter}

theorem congr (h : Coherent v config counted) (heq : ∀ k, Key.IsEngine k → w k = v k) :
    Coherent w config counted where
  budget := h.budget.congr fun k hk => heq k hk.isEngine
  registry := h.registry.congr fun k hk => heq k hk.isEngine
  books := h.books.congr fun k hk => heq k hk.isEngine

/-- A write of the configuration or the counter leaves registry and books alone. -/
theorem ofBudget {config' : EngineConfig} {counted' : PointCounter}
    (h : Coherent s.get config counted) (hbudget : Budgeted t.get config' counted')
    (hsearch : config'.search = config.search)
    (hframe : ∀ k, Key.kind k ≠ some 0x04 → Key.kind k ≠ some 0x05 → t.get k = s.get k) :
    Coherent t.get config' counted' where
  budget := hbudget
  registry := by
    rw [hsearch]
    exact h.registry.congr fun k hk => hframe k hk.kind_ne hk.kind_ne
  books := h.books.congr fun k hk => hframe k hk.kind_ne hk.kind_ne

/-! ### Changes of governance -/

/-- A changed configuration with the same ceiling for blocks. -/
theorem reconfigured (h : Coherent s.get config counted) {f : EngineConfig → EngineConfig}
    (hf : Reconfigured f s t) (hsearch : ∀ c, (f c).search = c.search)
    (hceiling : ∀ c, (f c).pointsPerBlock = c.pointsPerBlock) :
    Coherent t.get (f config) counted := by
  obtain ⟨config', hconfig, hvalid, rfl⟩ := hf
  obtain rfl := h.budget.config_unique hconfig
  refine h.ofBudget (h.budget.setConfig hvalid ?_) (hsearch config) fun k hk _ =>
    Store.get_set_of_ne s _ (Key.ne_of_kind hk)
  rw [hceiling]
  exact h.budget.within

/-- Another ceiling for blocks, to which the counter is clamped. -/
theorem recapped (h : Coherent s.get config counted) {points : UInt64}
    (hcap : Recapped points s t) :
    Coherent t.get { config with pointsPerBlock := points } (counted.clampedTo points) := by
  refine h.ofBudget ?_ rfl fun k => hcap.frame
  obtain ⟨config', counted', hconfig, hcounted, hvalid, rfl⟩ := hcap
  obtain rfl := h.budget.config_unique hconfig
  obtain rfl := h.budget.counter_unique hcounted
  have hwithin : (counted.clampedTo points).consumed ≤ points := by
    rw [UInt64.le_iff_toNat_le, PointCounter.toNat_clampedTo]
    exact Nat.min_le_right _ _
  split
  · refine h.budget.rewrite hvalid hwithin ?_ (Store.get_set_self _ _ _) fun k hne hne' _ => ?_
    · exact (Store.get_set_of_ne _ _ (by decide)).trans (Store.get_set_self s _ _)
    · rw [Store.get_set_of_ne _ _ hne', Store.get_set_of_ne s _ hne]
  · rename_i hlower
    rw [PointCounter.clampedTo, if_neg hlower]
    exact h.budget.setConfig hvalid (UInt64.not_lt.1 hlower)

/-- Under its own ceiling a counter stays as it is. -/
theorem clampedTo_ceiling (h : Coherent v config counted) :
    counted.clampedTo config.pointsPerBlock = counted :=
  if_neg (UInt64.not_lt.2 h.budget.within)

/-- A change of governance reconfigures the engine, and clamps the counter to the ceiling for
blocks, if anything. -/
theorem change (h : Coherent s.get config counted) {authority caller : Account}
    {change : Governance.Change} {u : Unit}
    (hdone : (change.action authority caller).perform s = (.ok u, t)) :
    Coherent t.get (change.reconfigure config)
      (counted.clampedTo (change.reconfigure config).pointsPerBlock) := by
  -- Most changes keep the ceiling for blocks, under which there is nothing to clamp.
  have hkept : ∀ {f : EngineConfig → EngineConfig}, Reconfigured f s t →
      (∀ c, (f c).search = c.search) → (∀ c, (f c).pointsPerBlock = c.pointsPerBlock) →
      Coherent t.get (f config) (counted.clampedTo (f config).pointsPerBlock) := by
    intro f hf hsearch hceiling
    rw [hceiling, h.clampedTo_ceiling]
    exact h.reconfigured hf hsearch hceiling
  cases change with
  | enabled on => exact hkept (Governance.setEnabled_ok hdone).2 (fun _ => rfl) fun _ => rfl
  | pointsPerTx ceiling =>
      exact hkept (Governance.setPointsPerTx_ok hdone).2 (fun _ => rfl) fun _ => rfl
  | pointsPerBlock ceiling => exact h.recapped (Governance.setPointsPerBlock_ok.1 hdone).2
  | weights update => exact hkept (Governance.setWeights_ok hdone).2 (fun _ => rfl) fun _ => rfl
  | baseDenoms bases =>
      -- The run that the registry promises is the one at hand.
      obtain ⟨-, previous, mid, -, hmid, ht⟩ := Governance.setBaseDenoms_ok hdone
      obtain ⟨mid', t', hmid', ht', hregistry, hframe⟩ := h.registry.setBaseDenoms
        (Governance.dropped previous bases) (Registry.validateList_of_perform hmid)
      rw [hmid] at hmid'
      cases hmid'
      rw [ht] at ht'
      cases ht'
      rw [Governance.Change.reconfigure, h.clampedTo_ceiling]
      exact ⟨h.budget.congr fun k hk => hframe k hk.kind_ne hk.kind_ne, hregistry,
        h.books.congr fun k hk => hframe k hk.kind_ne hk.kind_ne⟩
  | routes a b cycles =>
      obtain ⟨-, config', hconfig, hset⟩ := Governance.setRoutes_ok hdone
      obtain rfl := h.budget.config_unique hconfig
      obtain ⟨hregistry, hframe⟩ := h.registry.setRoutes hset
      rw [Governance.Change.reconfigure, h.clampedTo_ceiling]
      exact ⟨h.budget.congr fun k hk => hframe k hk.kind_ne, hregistry,
        h.books.congr fun k hk => hframe k hk.kind_ne⟩
  | admin named => exact hkept (Governance.setAdmin_ok hdone).2 (fun _ => rfl) fun _ => rfl
  | developer named =>
      exact hkept (Governance.setDeveloper_ok hdone).2 (fun _ => rfl) fun _ => rfl

/-! ### Withdrawals -/

/-- What a withdrawal does in its branch when it succeeds: the fees are gone and no other
key of the engine has changed. -/
theorem payFees_frame {bank : Bank} {vault caller : Account} {paid : List Coin}
    (hout : ∀ c, (bank.transfer vault caller c).IsOutside)
    (hpaid : (Ledger.payFees bank vault caller).perform s = (.ok paid, t)) :
    (∀ k, Key.kind k = some 0x06 → t.get k = none)
      ∧ ∀ k, Key.IsEngine k → Key.kind k ≠ some 0x06 → t.get k = s.get k := by
  rw [Ledger.payFees, Action.perform_query_bind_ok] at hpaid
  obtain ⟨config, -, hpaid⟩ := hpaid
  obtain ⟨_, -, hpaid⟩ := Action.perform_verdict_bind_ok.1 hpaid
  obtain ⟨recorded, -, hpaid⟩ := Action.perform_query_bind_ok.1 hpaid
  obtain ⟨_, mid, hmid, hpaid⟩ := Action.perform_bind_ok.1 hpaid
  obtain ⟨_, last, hclear, hreturn⟩ := Action.perform_bind_ok.1 hpaid
  cases hreturn
  have ht : t = mid.deleteUnder Key.allDeveloperFees := (congrArg Prod.snd hclear).symm
  have hquiet : Store.SameEngine s mid := by
    have hforM := Action.Quiet.forM (recorded.filter fun c => c.amount != 0)
      (fun c => Action.Quiet.call (hout c) fun fault => .executionFailure (.withdrawal fault)) s
    rw [hmid] at hforM
    exact hforM
  have hview : ∀ k, t.get k = if Key.kind k = some 0x06 then none else mid.get k := by
    rw [ht]
    exact Store.get_deleteUnder_kind mid 0x06
  refine ⟨fun k hk => ?_, fun k hengine hk => ?_⟩
  · rw [hview, if_pos hk]
  · rw [hview, if_neg hk, hquiet k hengine]

theorem local_payFees (bank : Bank) (vault caller : Account) :
    (Ledger.payFees bank vault caller).Local := by
  refine Action.Local.bind (Action.Local.query _) fun config => ?_
  refine Action.Local.bind (Action.Local.verdict _) fun _ => ?_
  refine Action.Local.bind (Action.Local.query _) fun recorded => ?_
  refine Action.Local.bind (Action.Local.forM fun c => Action.Local.call _ _) fun _ => ?_
  exact Action.Local.bind (Action.Local.deleteUnder _) fun _ => Action.Local.pure _

/-- A withdrawal keeps coherence, and one that fails leaves the store itself. -/
theorem withdrawFees (h : Coherent s.get config counted) {e : Engine} (hout : e.StaysOutside)
    (caller : Account) : Coherent ((e.withdrawFees caller).perform s).2.get config counted := by
  rcases hrun : (e.withdrawFees caller).perform s with ⟨err | paid, t⟩
  · have hsame : t = s := (local_payFees e.bank e.vault caller).clean_atomically hrun
    rw [hsame]
    exact h
  · obtain ⟨mid, hmid, rfl⟩ := Action.perform_atomically_ok.1 hrun
    obtain ⟨hnone, hframe⟩ := payFees_frame (fun c => hout.bank.transfer _ _ c) hmid
    have hbooks := h.books.clearFees (t := mid) hnone fun k hk hne => hframe k hk.isEngine hne
    have hmid : Coherent mid.get config counted :=
      ⟨h.budget.congr fun k hk => hframe k hk.isEngine hk.kind_ne,
        h.registry.congr fun k hk => hframe k hk.isEngine hk.kind_ne, hbooks⟩
    exact hmid.congr fun k _ => Store.get_commit mid k

/-! ### Executed cycles -/

/-- What an executed cycle does to the counter and the books. All other keys of the engine stay
as they are. -/
structure Settled (v w : View) (counted counted' : PointCounter) (done : Trade) : Prop where
  height : counted'.height = counted.height
  consumed : counted'.consumed.toNat = counted.consumed.toNat + done.points.toNat
  owed : ∀ d, (Ledger.owed w d).toNat = (Ledger.owed v d).toNat
    + if d = done.profit.denom then done.split.developer.amount.toNat else 0
  earned : ∀ d, (Ledger.earned w d).toNat = (Ledger.earned v d).toNat
    + if d = done.profit.denom then done.profit.amount.toNat else 0
  frame : ∀ k, Key.IsEngine k → Key.kind k ≠ some 0x05 → Key.kind k ≠ some 0x06 →
    Key.kind k ≠ some 0x08 → Key.kind k ≠ some 0x09 → w k = v k

/-- Where only other keys differ, the books show the same. -/
theorem ledger_congr (heq : ∀ k, Key.IsBook k → w k = v k) (d : Denom) :
    Ledger.owed w d = Ledger.owed v d ∧ Ledger.earned w d = Ledger.earned v d :=
  ⟨Ledger.amountAt_congr (heq _ (.inl rfl)), Ledger.amountAt_congr (heq _ (.inr (.inr (.inr rfl))))⟩

/-- A debit changes the counter only. -/
theorem debit (h : Coherent s.get config counted) {points : UInt64} {u : Unit}
    (hdebit : (Budget.tryConsume points).perform s = (.ok u, t)) :
    ∃ counted', Coherent t.get config counted'
      ∧ (counted'.height = counted.height
        ∧ counted'.consumed.toNat = counted.consumed.toNat + points.toNat)
      ∧ ∀ k, Key.kind k ≠ some 0x05 → t.get k = s.get k := by
  obtain ⟨counted', hbudget, hheight, hconsumed, -, -, rfl⟩ := h.budget.tryConsume hdebit
  have hframe : ∀ k, Key.kind k ≠ some 0x05 →
      (s.set Key.pointCounter (Codec.encode counted')).get k = s.get k :=
    fun k hk => Store.get_set_of_ne s _ (Key.ne_of_kind hk)
  exact ⟨counted', h.ofBudget hbudget rfl fun k _ hk => hframe k hk, ⟨hheight, hconsumed⟩, hframe⟩

/-- An executed cycle keeps coherence. -/
theorem executeFrom (h : Coherent s.get config counted) {e : Engine} (hout : e.StaysOutside)
    {base : Denom} {block : Block} {best : Candidate} {done : Trade}
    (hdone : (best.executeFrom base e.market e.bank e.vault block).perform s = (.ok done, t)) :
    ∃ counted', Coherent t.get config counted' ∧ Settled s.get t.get counted counted' done := by
  obtain ⟨debited, minted, swapped, burned, booked, output, split, count, hdebit, hmint, hswap, -,
    hburn, hbook, hcount, rfl⟩ := Candidate.executeFrom_ok.1 hdone
  -- The debit writes the counter, the pools and the bank no key of the engine, and the booking
  -- the books; each of the three keeps what the others need.
  obtain ⟨counted', hdebited, ⟨hheight, hconsumed⟩, hdebitFrame⟩ := h.debit hdebit
  have houtside := Candidate.sameEngine_of_stages hout hmint hswap hburn
  have hburned : Coherent burned.get config counted' := hdebited.congr houtside
  obtain ⟨hbooked, howed, hearned, hbookFrame⟩ := hburned.books.book hbook
  obtain ⟨hcounted, rfl⟩ := hbooked.countTrade hcount
  have hcountFrame : ∀ k, Key.kind k ≠ some 0x08 →
      (booked.set Key.tradeCount (Codec.encode count)).get k = booked.get k :=
    fun k hk => Store.get_set_of_ne booked _ (Key.ne_of_kind hk)
  have hbookKeys : ∀ k, Key.IsBook k → burned.get k = s.get k := by
    intro k hk
    rw [houtside k hk.isEngine, hdebitFrame k hk.kind_ne]
  refine ⟨counted', ⟨?_, ?_, hcounted⟩, hheight, hconsumed, fun d => ?_, fun d => ?_, ?_⟩
  · refine hburned.budget.congr fun k hk => ?_
    rw [hcountFrame k hk.kind_ne, hbookFrame k hk.kind_ne hk.kind_ne]
  · refine hburned.registry.congr fun k hk => ?_
    rw [hcountFrame k hk.kind_ne, hbookFrame k hk.kind_ne hk.kind_ne]
  · have hcountKey := hcountFrame (Key.developerFees d) (Key.kind_ne (Key.kind_developerFees _))
    rw [Ledger.owed, Ledger.amountAt_congr hcountKey, ← Ledger.owed, howed,
      (ledger_congr hbookKeys d).1]
  · have hcountKey := hcountFrame (Key.profits d) (Key.kind_ne (Key.kind_profits _))
    rw [Ledger.earned, Ledger.amountAt_congr hcountKey, ← Ledger.earned, hearned,
      (ledger_congr hbookKeys d).2]
  · intro k hengine hcounter hfees htrades hprofits
    rw [hcountFrame k htrades, hbookFrame k hfees hprofits, houtside k hengine,
      hdebitFrame k hcounter]

theorem execute (h : Coherent s.get config counted) {e : Engine} (hout : e.StaysOutside)
    {block : Block} {best : Candidate} {done : Trade}
    (hdone : (best.execute e.market e.bank e.vault block).perform s = (.ok done, t)) :
    ∃ counted', Coherent t.get config counted' ∧ Settled s.get t.get counted counted' done := by
  obtain ⟨base, last, -, -, hlast, rfl⟩ := Candidate.execute_ok.1 hdone
  have hopen : Coherent s.openBranch.get config counted := h
  obtain ⟨counted', hcoherent, hsettled⟩ := hopen.executeFrom hout hlast
  have hview : last.commit.get = last.get := funext fun k => Store.get_commit last k
  rw [hview]
  exact ⟨counted', hcoherent, hsettled⟩

end Coherent

/-! ## Operations -/

namespace PointCounter

/-- The counter that an attempt in a block goes on from: the recorded one, or a fresh one if
the block is above the recorded height. -/
def inBlock (counted : PointCounter) (block : Block) : PointCounter :=
  if block.height ≤ counted.height then counted else ⟨0, block.height⟩

theorem inBlock_of_le {counted : PointCounter} {block : Block} (h : block.height ≤ counted.height) :
    counted.inBlock block = counted := if_pos h

end PointCounter

/-- How an operation changes the configuration and the counter: not at all, by a change of
governance, which clamps the counter to the ceiling for blocks, or by an attempt after a trade,
which adds the points of its cycle to the counter of its block. -/
inductive Metering (op : Operation) (reply : Reply) (config : EngineConfig)
    (counted : PointCounter) (config' : EngineConfig) (counted' : PointCounter) : Prop where
  | idle (hpoints : reply.points = 0) (hreply : ∀ u, reply ≠ .changed (.ok u))
      (hidle : ∀ block trade, op = .postTrade block trade → config.enabled ≠ true)
      (hconfig : config' = config) (hcounted : counted' = counted)
  | changed (caller : Account) (change : Governance.Change) (hop : op = .govern caller change)
      (hreply : reply = .changed (.ok ())) (hconfig : config' = change.reconfigure config)
      (hcounted : counted' = counted.clampedTo config'.pointsPerBlock)
  | attempted (block : Block) (trade : Hop) (hop : op = .postTrade block trade)
      (henabled : config.enabled = true) (hconfig : config' = config)
      (hheight : counted'.height = (counted.inBlock block).height)
      (hconsumed : counted'.consumed.toNat
        = (counted.inBlock block).consumed.toNat + reply.points)

theorem Metering.search_eq {op : Operation} {reply : Reply} {config config' : EngineConfig}
    {counted counted' : PointCounter} (h : Metering op reply config counted config' counted') :
    config'.search = config.search := by
  cases h with
  | idle _ _ _ hconfig _ => rw [hconfig]
  | changed _ change _ _ hconfig _ => rw [hconfig, change.search_reconfigure]
  | attempted _ _ _ _ hconfig _ _ => rw [hconfig]

namespace Coherent

variable {s : Store} {config : EngineConfig} {counted : PointCounter}

theorem countedFor (h : Coherent s.get config counted) (block : Block) :
    Coherent (Engine.countedFor block counted s).get config (counted.inBlock block) := by
  rw [Engine.countedFor, PointCounter.inBlock]
  split
  · exact h
  · exact h.ofBudget (h.budget.renewed block.height) rfl fun k _ hk =>
      Store.get_set_of_ne s _ (Key.ne_of_kind hk)

theorem points_eq_zero {outcome : PostTrade} (h : outcome.trade? = none) :
    (Reply.afterTrade outcome).points = 0 := by
  cases outcome with
  | executed done => exact absurd h (by simp [PostTrade.trade?])
  | _ => rfl

/-- An attempt after a trade keeps coherence. -/
theorem postTrade (h : Coherent s.get config counted) {e : Engine} (hout : e.StaysOutside)
    (block : Block) (trade : Hop) :
    ∃ config' counted', Coherent (e.postTrade block trade s).2.get config' counted'
      ∧ Metering (.postTrade block trade) (.afterTrade (e.postTrade block trade s).1) config counted
        config' counted' := by
  have hcourse := Engine.postTrade_course e block trade s
  generalize (e.postTrade block trade s).1 = outcome at hcourse
  generalize (e.postTrade block trade s).2 = t at hcourse
  cases hcourse with
  -- In a coherent store only a disabled engine stops before the count.
  | idle hnone hidle =>
      refine ⟨config, counted, h, .idle (points_eq_zero hnone) nofun ?_ rfl rfl⟩
      intro _ _ _ henabled
      exact hidle config counted h.budget.storedConfig_eq henabled h.budget.counter_eq
  | searched hnone hconfig henabled hcounted =>
      obtain rfl := h.budget.config_unique hconfig
      obtain rfl := h.budget.counter_unique hcounted
      refine ⟨config, counted.inBlock block, h.countedFor block,
        .attempted block trade rfl henabled rfl rfl ?_⟩
      rw [points_eq_zero hnone]
      rfl
  | executed hconfig henabled hcounted _ hdone =>
      obtain rfl := h.budget.config_unique hconfig
      obtain rfl := h.budget.counter_unique hcounted
      obtain ⟨counted', hcoherent, hsettled⟩ := (h.countedFor block).execute hout hdone
      exact ⟨config, counted', hcoherent,
        .attempted block trade rfl henabled rfl hsettled.height hsettled.consumed⟩

/-- A change of governance keeps coherence, and one that fails leaves the store itself. -/
theorem govern (h : Coherent s.get config counted) (authority caller : Account)
    (change : Governance.Change) :
    ∃ config' counted', Coherent ((change.action authority caller).perform s).2.get config' counted'
      ∧ Metering (.govern caller change) (.changed ((change.action authority caller).perform s).1)
        config counted config' counted' := by
  rcases hrun : (change.action authority caller).perform s with ⟨err | _, t⟩
  · have hsame : t = s := Governance.clean_change change hrun
    rw [hsame]
    exact ⟨config, counted, h, .idle rfl (fun _ => nofun) (fun _ _ => nofun) rfl rfl⟩
  · exact ⟨_, _, h.change hrun, .changed caller change rfl rfl rfl rfl⟩

/-- Every operation keeps coherence. -/
theorem operate (h : Coherent s.get config counted) {e : Engine} (hout : e.StaysOutside)
    (op : Operation) :
    ∃ config' counted', Coherent (e.operate op s).2.get config' counted'
      ∧ Metering op (e.operate op s).1 config counted config' counted' := by
  cases op with
  | postTrade block trade => exact h.postTrade hout block trade
  | govern caller change => exact h.govern e.authority caller change
  | withdrawFees caller =>
      exact ⟨config, counted, h.withdrawFees hout caller,
        .idle rfl (fun _ => nofun) (fun _ _ => nofun) rfl rfl⟩

/-- Every run keeps coherence, and the parameters of the search. -/
theorem leaveAll (h : Coherent s.get config counted) {calls : List Call}
    (hout : ∀ c ∈ calls, c.engine.StaysOutside) :
    ∃ config' counted', Coherent (Call.leaveAll calls s).get config' counted'
      ∧ config'.search = config.search := by
  induction calls generalizing s config counted with
  | nil => exact ⟨config, counted, h, rfl⟩
  | cons c calls ih =>
      obtain ⟨config₁, counted₁, hfirst, hmetering⟩ :=
        h.operate (hout c List.mem_cons_self) c.operation
      obtain ⟨config', counted', hrest, hsearch'⟩ :=
        ih hfirst fun c' hc' => hout c' (List.mem_cons_of_mem c hc')
      exact ⟨config', counted', hrest, hsearch'.trans hmetering.search_eq⟩

end Coherent

end Backrun
