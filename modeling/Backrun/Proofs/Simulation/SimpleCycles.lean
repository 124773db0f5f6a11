import Backrun.Proofs.Ledger.Shares
import Backrun.Proofs.Simulation.TwoPools

/-!
# Cycles through distinct pools

A search quotes all hops of a cycle on the view that it finds; an execution swaps them one
after the other, and every swap moves the reserves of its pool.  If no pool comes twice, a swap
finds the reserves of its pool just as they were quoted, whatever came before it, and so
returns exactly what was quoted (`returns_quoted`).

The invariant of the induction is that the pools of the hops still to come are untouched and that
the account holds the next input.  The execution as a whole is `Candidate.execute_as_quoted`: all
that the executor checks has been established by the search, or follows from the route being a
cycle.
-/

namespace Backrun

namespace Simulation

variable {a : Account} {input : Amount} {v : View} {frozen : List PoolId}

/-- Through distinct pools that are still as they were quoted, the swaps return the quotes. -/
theorem returns_quoted {hops : List Hop} {outputs : List Amount} {start finish : Denom} {s : Store}
    (hleads : Route.Leads start hops finish)
    (hquotes : Route.quoteHops (constantProduct frozen) input hops s = .ok outputs)
    (hsame : ∀ hop ∈ hops, v (poolKey hop.poolId) = s.get (poolKey hop.poolId))
    (hdistinct : (hops.map Hop.poolId).Nodup) (hfree : ∀ hop ∈ hops, hop.poolId ∉ frozen)
    (hpays : ∀ x ∈ outputs, x ≠ 0) (hfunds : input.toNat ≤ (balance a start v).toNat)
    (hroom : EachSwap (constantProduct frozen) a (RoomFor a) input hops v) :
    ∃ w, Returns (constantProduct frozen) a input hops outputs v w := by
  induction hops generalizing start input outputs v with
  | nil =>
      rw [← Except.ok.inj hquotes]
      exact ⟨v, .here input v⟩
  | cons hop rest ih =>
      obtain ⟨output, others, hquote, hothers, rfl⟩ := Route.quoteHops_cons_ok.1 hquotes
      obtain ⟨reserveIn, reserveOut, htrades, rfl⟩ := quotePool_ok.1 hquote
      rw [List.map_cons, List.nodup_cons] at hdistinct
      obtain ⟨hfirst, hrest⟩ := List.forall_mem_cons.1 hsame
      obtain ⟨hfreeFirst, hfreeRest⟩ := List.forall_mem_cons.1 hfree
      obtain ⟨hpaysFirst, hpaysRest⟩ := List.forall_mem_cons.1 hpays
      cases hleads with
      | hop changes onwards =>
          obtain ⟨writes, hswap⟩ :=
            swapPool_succeeds hfreeFirst (htrades.congr hfirst) hpaysFirst hfunds
          obtain ⟨hroomFirst, hroomRest⟩ := hroom _ writes hswap
          have hmoved := (Pools.constantProduct frozen).swap_moved hswap changes hroomFirst
          -- The swap has touched none of the pools to come.
          have hframe := (swapPool_pools hswap).2
          have huntouched : ∀ next ∈ rest, View.afterAll v writes (poolKey next.poolId)
              = s.get (poolKey next.poolId) := by
            intro next hnext
            have hother : next.poolId ≠ hop.poolId := fun heq =>
              hdistinct.1 (heq ▸ List.mem_map_of_mem hnext)
            exact (hframe _ hother).trans (hrest next hnext)
          obtain ⟨w, hreturns⟩ := ih onwards hothers huntouched hdistinct.2 hfreeRest hpaysRest
            (hmoved.received_of_ne changes) hroomRest
          exact ⟨w, .swap hswap hreturns⟩

end Simulation

open Simulation

/-- **Quotes come true.**  In every store whose records can be read, a cycle that was found, that
is a cycle indeed and that comes through distinct pools, none of them frozen, is executed with
every hop returning exactly its quote: the profit is the one quoted, it is split by the basis
points of the day, and the points are the cost.  No balance may overflow on the way, the profit
has to fit into the books, and the share of the day needs basis points, which an accepted schedule
always has. -/
theorem Candidate.execute_as_quoted {frozen : List PoolId} {vault : Account} (block : Block)
    {trade : Hop} {config : EngineConfig} {c : Candidate} {mostHops : UInt64} {s : Store}
    (hdecodes : Decodes s.get) (hgenesis : s.get Key.genesisTime ≠ none)
    (hfound : Search.run config (constantProduct frozen) trade s = .ok (.found c))
    (hroute : c.route.validate mostHops = .ok ())
    (hdistinct : (c.route.hops.map Hop.poolId).Nodup)
    (hfree : ∀ hop ∈ c.route.hops, hop.poolId ∉ frozen)
    (hroom : c.Within (RoomFor vault) (constantProduct frozen) Simulation.bank vault s.openBranch)
    (hfits : ∀ base, c.route.base? = some base →
      Ledger.Bookable block.time ⟨base, c.quote.profit⟩ s)
    (hdivisible : Ledger.Divisible block.time s) :
    ∃ base done t v w, c.route.base? = some base
      ∧ (c.execute (constantProduct frozen) Simulation.bank vault block).perform s = (.ok done, t)
      ∧ done.profit = ⟨base, c.quote.profit⟩ ∧ done.points = c.cost
      ∧ c.StartsFrom Simulation.bank vault base s.openBranch v
      ∧ Returns (constantProduct frozen) vault c.quote.input c.route.hops c.quote.outputs v w
      ∧ Recorded s t done ∧ Ledger.Divided block.time done.profit done.split s := by
  obtain ⟨budget, hbudget⟩ := Search.state_of_found hfound
  have hpromising := Search.promising_of_found hdecodes.registry hbudget hfound
  obtain ⟨base, hbase, hleads⟩ := (Route.validate_ok.1 hroute).leads
  have hopened : Budget.state s.openBranch = .ok budget := Budget.state_congr hbudget rfl rfl
  obtain ⟨v, hstart, hpools, hborrowed, hswaps⟩ :=
    exists_startsFrom hopened hpromising.fitsTx hpromising.fitsBlock hbase hroom
  obtain ⟨w, hreturns⟩ := returns_quoted hleads hpromising.quotes
    (fun hop _ => hpools hop.poolId) hdistinct hfree (pays_of_promising hpromising)
    (hborrowed.le_of_received rfl) hswaps
  have hbookable := hfits base hbase
  rw [hpromising.profit] at hbookable
  obtain ⟨split, t, hdone⟩ := hdecodes.execute_of_returns (.constantProduct frozen) hgenesis block
    hpromising hbase hleads hstart hborrowed hswaps hreturns
    (List.forall₂_same.2 fun x _ => BitVec.le_refl x) hbookable
  have houtside := (Engine.Simulated.plain (.constantProduct frozen) vault vault).staysOutside
  refine ⟨base, _, t, v, w, hbase, hdone, ?_, rfl, hstart, hreturns,
    execute_recorded houtside hdone, hdivisible.divided (execute_planned houtside hdone)⟩
  rw [hpromising.profit]

/-! ## The two pools -/

/-- The round trip through the two pools earns just what was quoted. -/
theorem Candidate.execute_as_quoted_gap : ∃ s done t v w,
    (gapCandidate.execute (constantProduct []) Simulation.bank generous.vault
        ⟨10, .epoch⟩).perform s = (.ok done, t)
      ∧ done.profit = ⟨atom, 991⟩ ∧ done.points = 5
      ∧ Returns (constantProduct []) generous.vault 1 roundTrip.hops [996, 992] v w := by
  obtain ⟨s, -, hplaced, honly, hearned, hmodest⟩ := exists_placed validate_roundTripGenesis
  have hfound : Search.run (tight 10) (constantProduct []) ⟨1, atom, osmo⟩ (withPools s)
      = .ok (.found gapCandidate) :=
    found_withPools honly hplaced.decodes hplaced.budget.state_eq rfl rfl rfl rfl rfl rfl
      (by decide) rfl (gap_quotes [] s) (by decide) (by decide) (by decide) (by decide)
  have hwithin := Candidate.within_modest (c := gapCandidate) (m := 10 ^ 8)
    (s := (withPools s).openBranch) [] roundTrip_leads rfl (hmodest generous.vault) (by decide)
    (by decide) (by decide)
  obtain ⟨base, done, t, v, w, hbase, hdone, hprofit, hpoints, -, hreturns, -⟩ :=
    execute_as_quoted ⟨10, .epoch⟩ hplaced.decodes hplaced.genesisTime_ne_none hfound
      (show roundTrip.validate 2 = .ok () by decide) (by decide) (by decide)
      (hwithin.imp And.left) (fun base hbase => by
        obtain rfl : atom = base := Option.some.inj hbase
        exact hplaced.books.bookable _ (by rw [hearned]; decide))
      (hplaced.divisible _)
  obtain rfl : atom = base := Option.some.inj hbase
  exact ⟨_, done, t, v, w, hdone, hprofit, hpoints, hreturns⟩

/-- A route that ends elsewhere cannot repay what it has borrowed, if the vault has none of it. -/
theorem Candidate.executeFrom_stray {frozen : List PoolId} {vault : Account} {block : Block}
    {c : Candidate} {base finish : Denom} {done : Trade} {s t : Store}
    (hbase : c.route.base? = some base) (hleads : Route.Leads base c.route.hops finish)
    (hstray : finish ≠ base) (hlength : c.quote.outputs.length = c.route.hops.length)
    (hwithin : c.Within (RoomFor vault) (constantProduct frozen) Simulation.bank vault s)
    (hpoor : balance vault base s.get < c.quote.input) :
    (c.executeFrom base (constantProduct frozen) Simulation.bank vault block).perform s
      ≠ (.ok done, t) := by
  intro hdone
  have hplain := Engine.Simulated.plain (.constantProduct frozen) vault vault
  obtain ⟨minted, swapped, output, ⟨hborrowed, -⟩, hswaps, hswap, -, -, hrepaid, -⟩ :=
    executeFrom_around hplain hbase hwithin hdone
  rw [← hops_of_zip hlength] at hleads hswaps
  have htraded := swapAll_moved (fun hop x => hplain.swap vault hop x) hleads hswaps hswap
  -- The input is given twice, and only once received.
  have hown := ((hborrowed.trans htraded).trans hrepaid).own base
  have hpoor : (balance vault base s.get).toNat < c.quote.input.toNat := hpoor
  simp only [List.nil_append, List.append_nil, List.cons_append, Coin.totalIn_cons,
    Coin.totalIn_nil, Coin.amountIn, if_true, if_neg hstray.symm] at hown
  omega

/-- A route that never returns may be put where the round trip was registered, past every check.
The rest of the state stays as the genesis left it. -/
theorem exists_oneWay : ∃ s t : Store, Coherent s.get (tight 10) .zero
    ∧ Ledger.earned s.get atom = 0 ∧ Decodes t.get ∧ OnlyRoute oneWay t.get
    ∧ (∀ k, Key.kind k ≠ some 0x01 → t.get k = s.get k)
    ∧ Modest generous.vault 1000000 (withPools t).get ∧ balance generous.vault atom t.get = 0 := by
  obtain ⟨s, hgenesis, hcoherent, honly, hnothing⟩ := exists_onlyRoute validate_roundTripGenesis
  have hrouted : Store.SameOutside s (s.set (Key.pairRoutes ⟨atom, osmo⟩)
      (Codec.encode (⟨⟨atom, osmo⟩, [oneWay]⟩ : PairRoutes))) :=
    s.sameOutside_set (Key.isEngine_of_kind (Key.kind_pairRoutes _)) _
  have hother : ∀ k, Key.kind k ≠ some 0x01 → (s.set (Key.pairRoutes ⟨atom, osmo⟩)
      (Codec.encode (⟨⟨atom, osmo⟩, [oneWay]⟩ : PairRoutes))).get k = s.get k :=
    fun k hk => Store.get_set_of_ne s _ (Key.ne_of_kind hk)
  refine ⟨s, _, hcoherent, hnothing,
    hcoherent.decodes.setRoutes ⟨atom, osmo⟩ ⟨⟨atom, osmo⟩, [oneWay]⟩, ?_, hother,
    modest_sinceGenesis hgenesis hrouted generous.vault,
    balance_sinceGenesis hgenesis hrouted generous.vault atom⟩
  exact ⟨Store.get_set_self s _ _, honly.bases.congr fun k hk => hother k (Key.kind_ne hk)⟩

/-- A route that never returns is not executed, although a search finds it wherever it is
registered: what was borrowed is not there to be repaid. -/
theorem Candidate.execute_oneWay_fails : ∃ s c,
    Decodes s.get ∧ s.get Key.genesisTime ≠ none
      ∧ Search.run (tight 10) (constantProduct []) ⟨1, atom, osmo⟩ s = .ok (.found c)
      ∧ (c.route.hops.map Hop.poolId).Nodup
      ∧ c.Within (fun hop x y v => RoomFor generous.vault hop x y v
          ∧ (Pools.constantProduct []).Fits hop x v) (constantProduct []) Simulation.bank
        generous.vault s.openBranch
      ∧ (∀ base, c.route.base? = some base →
          Ledger.Bookable .epoch ⟨base, c.quote.profit⟩ s)
      ∧ Ledger.Divisible .epoch s
      ∧ ∃ err, (c.execute (constantProduct []) Simulation.bank generous.vault
        ⟨10, .epoch⟩).perform s = (.error err, s) := by
  obtain ⟨s, t, hcoherent, hearned, hdecodes, honly, hother, hmodest, hpoor⟩ := exists_oneWay
  have hsame := sameEngine_withPools t
  have hkept : ∀ {k}, Key.IsEngine k → Key.kind k ≠ some 0x01 →
      (withPools t).get k = s.get k := fun hk hne => (hsame _ hk).trans (hother _ hne)
  have hpooled : Decodes (withPools t).get := hdecodes.congr hsame
  have hconfig := hkept (Key.isEngine_of_kind Key.kind_config) (Key.kind_ne Key.kind_config)
  have htime := hkept (Key.isEngine_of_kind Key.kind_genesisTime)
    (Key.kind_ne Key.kind_genesisTime)
  have hbudget := Budget.state_congr hcoherent.budget.state_eq hconfig
    (hkept (Key.isEngine_of_kind Key.kind_pointCounter) (Key.kind_ne Key.kind_pointCounter))
  have hfound : Search.run (tight 10) (constantProduct []) ⟨1, atom, osmo⟩ (withPools t)
      = .ok (.found oneWayCandidate) :=
    found_withPools honly hpooled hbudget rfl rfl rfl rfl rfl rfl (by decide) rfl
      (oneWay_quotes [] t) (by decide) (by decide) (by decide) (by decide)
  have hwithin := Candidate.within_modest (c := oneWayCandidate) (m := 10 ^ 8)
    (s := (withPools t).openBranch) [] oneWay_leads rfl hmodest (by decide) (by decide) (by decide)
  have hbookable : Ledger.Bookable .epoch ⟨atom, 995⟩ s :=
    hcoherent.books.bookable _ (by rw [hearned]; decide)
  refine ⟨withPools t, oneWayCandidate, hpooled, ?_, hfound, by decide, hwithin, ?_,
    (hcoherent.divisible .epoch).congr hconfig htime, ?_⟩
  · rw [htime]
    exact hcoherent.genesisTime_ne_none
  · intro base hbase
    obtain rfl : atom = base := Option.some.inj hbase
    refine hbookable.congr hconfig htime ?_ ?_
    · exact hkept (Key.isEngine_of_kind (Key.kind_developerFees _))
        (Key.kind_ne (Key.kind_developerFees _))
    · exact hkept (Key.isEngine_of_kind (Key.kind_profits _)) (Key.kind_ne (Key.kind_profits _))
  · rcases hresult : (oneWayCandidate.execute (constantProduct []) Simulation.bank generous.vault
      ⟨10, .epoch⟩).perform (withPools t) with ⟨err | done, u⟩
    · obtain rfl := Candidate.clean_execute _ _ _ _ oneWayCandidate hresult
      exact ⟨err, rfl⟩
    · obtain ⟨base, last, hbase, hlength, hlast, -⟩ := Candidate.execute_ok.1 hresult
      obtain rfl : atom = base := Option.some.inj hbase
      refine absurd hlast (Candidate.executeFrom_stray hbase oneWay_leads (by decide) hlength
        (hwithin.imp And.left) ?_)
      show balance generous.vault atom (withPools t).get < 1
      rw [balance_withPools, hpoor]
      decide

end Backrun
