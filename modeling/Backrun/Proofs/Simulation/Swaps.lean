import Backrun.Proofs.Codec.Records
import Backrun.Proofs.Engine.PostTrade
import Backrun.Proofs.Route.Cycles
import Backrun.Proofs.Simulation.Balances

/-!
# Swaps through the simulated pools

A swap takes the input from the balance of the account and adds the output to it.  Along the hops
of a route each output is the next input, so that in the end only the first input was given
and only the last output was received (`Returns.moved`), however long the route is and
however often it comes through the same pool or denomination.

A constant-product pool takes the input into its reserves and gives the output out of them, so
that balances and reserves together stay what they are (`Returns.supply_eq`), as long as no
operation on words wraps (`NoWrap`).  That the reserves suffice for the output is proved.
-/

namespace Backrun

/-! ## Effects that may falter -/

namespace Effect

variable {α β : Type}

/-- An effect that does what another one does, or else fails, whatever it has written outside the
keys of the engine. -/
def Falters (actual ideal : Effect α) : Prop :=
  ∀ v, actual v = ideal v
    ∨ ∃ fault writes, actual v = (.error fault, writes) ∧ ∀ w ∈ writes, ¬ Key.IsEngine w.key

variable {actual ideal : Effect α} {v : View} {x : α} {writes : List Write}

theorem Falters.refl (effect : Effect α) : Falters effect effect := fun _ => .inl rfl

/-- What succeeds does what it should. -/
theorem Falters.ok (h : Falters actual ideal) (hok : actual v = (.ok x, writes)) :
    ideal v = (.ok x, writes) := by
  rcases h v with hsame | ⟨fault, _, hfault, -⟩
  · exact hsame.symm.trans hok
  · rw [hok] at hfault
    exact absurd (congrArg Prod.fst hfault) nofun

theorem Falters.isOutside (h : Falters actual ideal) (hideal : ideal.IsOutside) :
    actual.IsOutside := by
  intro v w hw
  rcases h v with hsame | ⟨fault, writes, hfault, hwrites⟩
  · rw [hsame] at hw
    exact hideal v w hw
  · rw [hfault] at hw
    exact hwrites w hw

/-- Behind an inspection an effect goes on with the answer on the same view. -/
theorem inspect_bind_of_ok {i : Inspection α} (h : i v = .ok x) (f : α → Effect β) :
    ((liftM i : Effect α) >>= f) v = f x v := by
  have hlift : (liftM i : Effect α) v = (.ok x, []) := congrArg (fun r => (r, [])) h
  rw [bind_of_ok hlift]
  rfl

theorem inspect_bind_ok {i : Inspection α} {f : α → Effect β} {y : β} :
    ((liftM i : Effect α) >>= f) v = (.ok y, writes)
      ↔ ∃ x, i v = .ok x ∧ f x v = (.ok y, writes) := by
  constructor
  · intro h
    have hlift : (liftM i : Effect α) v = (i v, []) := rfl
    obtain ⟨x, first, rest, hfirst, hrest, rfl⟩ := bind_ok.1 h
    rw [hlift] at hfirst
    obtain ⟨hx, rfl⟩ := Prod.mk.inj hfirst
    exact ⟨x, hx, hrest⟩
  · rintro ⟨x, hx, hrest⟩
    exact (inspect_bind_of_ok hx f).trans hrest

end Effect

/-- A call succeeds with what those outside have written. -/
theorem Action.call_ok {α : Type} {effect : Effect α} {explain : Fault → Error} {x : α}
    {s t : Store} (h : (call effect explain).perform s = (.ok x, t)) :
    ∃ writes, effect s.get = (.ok x, writes) ∧ t.get = View.afterAll s.get writes := by
  obtain ⟨hresult, rfl⟩ := perform_call_ok.1 h
  exact ⟨_, Prod.ext hresult rfl, Store.get_writeAll s _⟩

namespace Simulation

/-! ## The pools -/

/-- The simulated pools of either make. -/
inductive Pools where
  | bonus (pools : List BonusPool)
  | constantProduct (frozen : List PoolId)

/-- The market of simulated pools. -/
def Pools.market : Pools → Market
  | .bonus pools => bonusPools pools
  | .constantProduct frozen => Simulation.constantProduct frozen

theorem Pools.staysOutside (pools : Pools) : pools.market.StaysOutside := by
  cases pools with
  | bonus pools => exact bonusPools_staysOutside pools
  | constantProduct frozen => exact constantProduct_staysOutside frozen

variable {a : Account} {hop : Hop} {input output : Amount} {v w u : View} {writes : List Write}

/-- An account pays one coin and then gets another one of a different denomination. -/
theorem moved_exchange {paid got : Coin} {given : List Write} (hne : paid.denom ≠ got.denom)
    (hdebit : debit a paid v = (.ok (), given)) (hroom : HasRoom a got v) :
    Moved a [paid] [got] v (v.afterAll (given ++ (credit a got (v.afterAll given)).2)) := by
  have hpaid := moved_debit hdebit
  have hroom' : HasRoom a got (v.afterAll given) := by
    have hown := hpaid.own got.denom
    rw [Coin.totalIn_cons, Coin.amountIn_of_ne hne.symm, Coin.totalIn_nil] at hown
    rw [HasRoom] at hroom ⊢
    omega
  rw [View.afterAll_append]
  exact hpaid.trans (moved_credit hroom')

/-- A swap through a bonus pool returns what the pool quotes. -/
theorem bonus_swap_ok {pools : List BonusPool}
    (h : (bonusPools pools).swap a hop input v = (.ok output, writes)) :
    quoteBonus pools hop input v = .ok output
      ∧ ∃ given, debit a ⟨hop.denomIn, input⟩ v = (.ok (), given)
        ∧ writes = given ++ (credit a ⟨hop.denomOut, output⟩ (v.afterAll given)).2 := by
  obtain ⟨quoted, hquoted, hswap⟩ := Effect.inspect_bind_ok.1 h
  obtain ⟨_, given, rest, hgiven, hrest, hwrites⟩ := Effect.bind_ok.1 hswap
  obtain ⟨_, received, last, hreceived, hreturn, hmore⟩ := Effect.bind_ok.1 hrest
  obtain ⟨houtput, hlast⟩ := Prod.mk.inj hreturn
  cases houtput
  refine ⟨hquoted, given, hgiven, ?_⟩
  rw [hwrites, hmore, ← hlast, List.append_nil, hreceived]

/-- A swap through a constant-product pool in its stages. -/
theorem swapPool_ok {frozen : List PoolId}
    (h : swapPool frozen a hop input v = (.ok output, writes)) :
    ∃ p reserveIn reserveOut given, loadPool hop.poolId v = .ok p
      ∧ p.reserves hop v = .ok (reserveIn, reserveOut)
      ∧ output = payout input reserveIn reserveOut
      ∧ debit a ⟨hop.denomIn, input⟩ v = (.ok (), given)
      ∧ writes = (given ++ (credit a ⟨hop.denomOut, output⟩ (v.afterAll given)).2)
        ++ [⟨poolKey hop.poolId, some (Codec.encode (p.after hop input output))⟩] := by
  rw [swapPool] at h
  split at h
  · cases congrArg Prod.fst h
  · obtain ⟨p, hp, hpool⟩ := Effect.inspect_bind_ok.1 h
    obtain ⟨⟨reserveIn, reserveOut⟩, hreserves, hswap⟩ := Effect.inspect_bind_ok.1 hpool
    dsimp only at hswap
    split at hswap
    · cases congrArg Prod.fst hswap
    · obtain ⟨_, given, rest, hgiven, hrest, hwrites⟩ := Effect.bind_ok.1 hswap
      obtain ⟨_, received, later, hreceived, hlater, hmore⟩ := Effect.bind_ok.1 hrest
      obtain ⟨_, saved, last, hsaved, hreturn, hlast⟩ := Effect.bind_ok.1 hlater
      obtain ⟨houtput, hnothing⟩ := Prod.mk.inj hreturn
      obtain ⟨-, hpoolWrite⟩ := Prod.mk.inj hsaved
      cases houtput
      refine ⟨p, reserveIn, reserveOut, given, hp, hreserves, rfl, hgiven, ?_⟩
      rw [hwrites, hmore, hlast, ← hnothing, ← hpoolWrite, List.append_nil, hreceived,
        List.append_assoc]

/-! ## The reserves of a pool -/

@[simp]
theorem PoolType.faithful (kind : PoolType) : Codec.Faithful kind where
  plain := by cases kind <;> trivial
  read := by cases kind <;> rfl

@[simp]
theorem Pool.faithful (p : Pool) : Codec.Faithful p where
  plain := ⟨(PoolType.faithful _).plain, (Denom.faithful _).plain, (Amount.faithful _).plain,
    (Denom.faithful _).plain, (Amount.faithful _).plain, trivial⟩
  read := by
    unfold instCodecPool
    simp [Fields.required]

/-- What a pool holds of a denomination. -/
def Pool.holds (p : Pool) (d : Denom) : Nat :=
  Coin.totalIn d [⟨p.denomA, p.reserveA⟩, ⟨p.denomB, p.reserveB⟩]

/-- A pool trades between its denominations, in either direction. -/
theorem Pool.reserves_ok {p : Pool} {reserveIn reserveOut : Amount}
    (h : p.reserves hop v = .ok (reserveIn, reserveOut)) :
    (hop.denomIn = p.denomA ∧ hop.denomOut = p.denomB ∧ reserveIn = p.reserveA
        ∧ reserveOut = p.reserveB)
      ∨ (hop.denomIn = p.denomB ∧ hop.denomOut = p.denomA ∧ reserveIn = p.reserveB
        ∧ reserveOut = p.reserveA) := by
  rw [Pool.reserves] at h
  split at h
  · rename_i hforth
    obtain ⟨rfl, rfl⟩ := Prod.mk.inj (Except.ok.inj h)
    exact .inl ⟨hforth.1, hforth.2, rfl, rfl⟩
  · split at h
    · rename_i hback
      obtain ⟨rfl, rfl⟩ := Prod.mk.inj (Except.ok.inj h)
      exact .inr ⟨hback.1, hback.2, rfl, rfl⟩
    · exact absurd h nofun

/-- The operations on words in a swap through a constant-product pool stay below the bound. -/
structure NoWrap (input reserveIn reserveOut : Amount) : Prop where
  product : input.toNat * 997 * reserveOut.toNat < Amount.bound
  divisor : reserveIn.toNat * 1000 + input.toNat * 997 < Amount.bound
  reserve : reserveIn.toNat + input.toNat < Amount.bound

/-- What is paid out without wrapping, as a number. -/
theorem toNat_payout {reserveIn reserveOut : Amount} (h : NoWrap input reserveIn reserveOut)
    (hin : reserveIn ≠ 0) :
    (payout input reserveIn reserveOut).toNat = input.toNat * 997 * reserveOut.toNat
      / (reserveIn.toNat * 1000 + input.toNat * 997) := by
  have hproduct := h.product
  have hdivisor := h.divisor
  have hcharged : (input * 997).toNat = input.toNat * 997 :=
    Amount.toNat_mul (Nat.lt_of_le_of_lt (Nat.le_add_left _ _) hdivisor)
  have hscaled : (reserveIn * 1000).toNat = reserveIn.toNat * 1000 :=
    Amount.toNat_mul (Nat.lt_of_le_of_lt (Nat.le_add_right _ _) hdivisor)
  have hnumerator : (input * 997 * reserveOut).toNat = input.toNat * 997 * reserveOut.toNat := by
    rw [← hcharged] at hproduct ⊢
    exact Amount.toNat_mul hproduct
  have hsum : (reserveIn * 1000 + input * 997).toNat
      = reserveIn.toNat * 1000 + input.toNat * 997 := by
    rw [← hcharged, ← hscaled] at hdivisor ⊢
    exact Amount.toNat_add hdivisor
  have hzero : (0 : Amount).toNat = 0 := rfl
  rw [payout]
  split
  -- Where nothing is paid out the quotient is zero as well, since there is a divisor.
  · rename_i hnone
    rcases hnone with rfl | hnone | rfl
    · rw [hzero, Nat.zero_mul, Nat.zero_mul, Nat.zero_div]
    · exact absurd hnone hin
    · rw [hzero, Nat.mul_zero, Nat.zero_div]
  · dsimp only
    rw [BitVec.toNat_udiv, hnumerator, hsum]

/-- Without wrapping, reserves never have to pay out more than there is. -/
theorem payout_le {reserveIn reserveOut : Amount} (h : NoWrap input reserveIn reserveOut) :
    (payout input reserveIn reserveOut).toNat ≤ reserveOut.toNat := by
  by_cases hin : reserveIn = 0
  · rw [payout, if_pos (.inr (.inl hin))]
    exact Nat.zero_le _
  · rw [toNat_payout h hin]
    -- The input is part of the divisor, so the quotient is a part of the reserve.
    exact Nat.div_le_of_le_mul (Nat.mul_le_mul_right _ (Nat.le_add_left _ _))

/-- A swap moves the input into the reserves of the pool and the output out of them. -/
theorem Pool.holds_after {p : Pool} {reserveIn reserveOut : Amount}
    (hreserves : p.reserves hop v = .ok (reserveIn, reserveOut))
    (hchanges : hop.denomIn ≠ hop.denomOut) (hin : reserveIn.toNat + input.toNat < Amount.bound)
    (hout : output.toNat ≤ reserveOut.toNat) (d : Denom) :
    (p.after hop input output).holds d + Coin.totalIn d [⟨hop.denomOut, output⟩]
      = p.holds d + Coin.totalIn d [⟨hop.denomIn, input⟩] := by
  have hgrown := Amount.toNat_add hin
  have hshrunk : (reserveOut - output).toNat = reserveOut.toNat - output.toNat :=
    BitVec.toNat_sub_of_le (Amount.le_iff.2 hout)
  rcases Pool.reserves_ok hreserves with ⟨hA, hB, rfl, rfl⟩ | ⟨hB, hA, rfl, rfl⟩
  · rw [Pool.after, if_pos hA, hA, hB]
    simp only [Pool.holds, Coin.totalIn_cons, Coin.totalIn_nil, Coin.amountIn, hgrown, hshrunk]
    split <;> split <;> omega
  · have hne : hop.denomIn ≠ p.denomA := fun heq => hchanges (heq.trans hA.symm)
    rw [Pool.after, if_neg hne, hA, hB]
    simp only [Pool.holds, Coin.totalIn_cons, Coin.totalIn_nil, Coin.amountIn, hgrown, hshrunk]
    split <;> split <;> omega

/-! ## Balances and reserves together -/

/-- What the pool of a number holds of a denomination. -/
def reserve (d : Denom) (id : PoolId) (v : View) : Nat :=
  match loadPool id v with
  | .ok p => p.holds d
  | .error _ => 0

theorem reserve_congr {d : Denom} {id : PoolId} (h : w (poolKey id) = v (poolKey id)) :
    reserve d id w = reserve d id v := by
  rw [reserve, loadPool, h, reserve, loadPool]

theorem reserve_of_pool {d : Denom} {id : PoolId} {p : Pool} (h : loadPool id v = .ok p) :
    reserve d id v = p.holds d := by
  rw [reserve, h]

theorem loadPool_of_get {id : PoolId} {p : Pool} (h : v (poolKey id) = some (Codec.encode p)) :
    loadPool id v = .ok p := by
  rw [loadPool, h]
  dsimp only
  rw [Codec.decode?_encode (Pool.faithful p)]

theorem loadPool_after (v : View) (id : PoolId) (p : Pool) :
    loadPool id (v.after ⟨poolKey id, some (Codec.encode p)⟩) = .ok p :=
  loadPool_of_get (if_pos rfl)

theorem poolKey_injective {id id' : PoolId} (h : poolKey id = poolKey id') : id = id' :=
  Bytes.bigEndian_injective (List.append_cancel_left h)

theorem poolKey_ne_balanceKey (id : PoolId) (a : Account) (d : Denom) :
    poolKey id ≠ balanceKey a d :=
  Key.ne_of_kind (Key.kind_ne (kind_poolKey id))

/-- What all pools together hold of a denomination. -/
noncomputable def pooled (d : Denom) (v : View) : Nat := ∑ᶠ id : PoolId, reserve d id v

/-- What accounts and pools together hold of a denomination. -/
noncomputable def supply (d : Denom) (v : View) : Nat := held d v + pooled d v

/-- The second view holds the same pools. -/
def SamePools (v w : View) : Prop := ∀ id, w (poolKey id) = v (poolKey id)

theorem SamePools.trans (hvw : SamePools v w) (hwu : SamePools w u) : SamePools v u :=
  fun id => (hwu id).trans (hvw id)

theorem pooled_congr {d : Denom} (h : SamePools v w) : pooled d w = pooled d v :=
  finsum_congr fun id => reserve_congr (h id)

/-- Where only balances have moved, the supply has changed by what was given and received. -/
theorem Moved.supply_eq {given received : List Coin} (h : Moved a given received v w)
    (hpools : SamePools v w) (d : Denom) :
    supply d w + Coin.totalIn d given = supply d v + Coin.totalIn d received := by
  have hheld := h.held_eq d
  rw [supply, supply, pooled_congr hpools]
  omega

/-- A balance that is written anew is no pool. -/
theorem samePools_write (v : View) (a : Account) (d : Denom) (b : Option Bytes) :
    SamePools v (v.after ⟨balanceKey a d, b⟩) :=
  fun id => View.after_of_ne v (poolKey_ne_balanceKey id a d)

theorem samePools_credit (a : Account) (c : Coin) (v : View) :
    SamePools v (v.afterAll (credit a c v).2) := samePools_write v a c.denom _

theorem samePools_debit {c : Coin} {x : Unit} (h : debit a c v = (.ok x, writes)) :
    SamePools v (v.afterAll writes) := by
  obtain ⟨-, rfl⟩ := debit_ok.1 h
  exact samePools_write v a c.denom _

/-- A pool that is written anew changes what all pools hold by its own change. -/
theorem pooled_after (d : Denom) {id : PoolId} {p : Pool} (p' : Pool) (h : loadPool id v = .ok p) :
    pooled d (v.after ⟨poolKey id, some (Codec.encode p')⟩) + p.holds d
      = pooled d v + p'.holds d := by
  have hchange := finsum_change (f := fun i => reserve d i v)
    (g := fun i => reserve d i (v.after ⟨poolKey id, some (Codec.encode p')⟩)) (i := id)
    fun i hi => reserve_congr (View.after_of_ne v fun heq => hi (poolKey_injective heq))
  rw [reserve_of_pool h, reserve_of_pool (loadPool_after v id p')] at hchange
  exact hchange

/-! ## One swap -/

/-- A swap moves the input out of the balance of the account and the output into it. -/
theorem Pools.swap_moved (pools : Pools)
    (h : pools.market.swap a hop input v = (.ok output, writes))
    (hchanges : hop.denomIn ≠ hop.denomOut) (hroom : HasRoom a ⟨hop.denomOut, output⟩ v) :
    Moved a [⟨hop.denomIn, input⟩] [⟨hop.denomOut, output⟩] v (v.afterAll writes) := by
  cases pools with
  | bonus pools =>
      obtain ⟨-, given, hgiven, rfl⟩ := bonus_swap_ok h
      exact moved_exchange hchanges hgiven hroom
  | constantProduct frozen =>
      obtain ⟨p, _, _, given, -, -, -, hgiven, rfl⟩ := swapPool_ok h
      rw [View.afterAll_append, View.afterAll_cons, View.afterAll_nil]
      -- What is written last is the pool, which is no balance.
      exact (moved_exchange hchanges hgiven hroom).trans
        (.of_same fun a' d => View.after_of_ne _ (poolKey_ne_balanceKey hop.poolId a' d).symm)

/-- Whether no operation of a swap on words wraps, apart from the credit. The sum of a bonus pool
may wrap: what it returns is credited as it is. -/
def Pools.Fits (pools : Pools) (hop : Hop) (input : Amount) (v : View) : Prop :=
  match pools with
  | .bonus _ => True
  | .constantProduct _ => ∀ p reserveIn reserveOut, loadPool hop.poolId v = .ok p →
      p.reserves hop v = .ok (reserveIn, reserveOut) → NoWrap input reserveIn reserveOut

/-- A swap through a constant-product pool keeps balances and reserves together what they are. -/
theorem swapPool_supply {frozen : List PoolId}
    (h : swapPool frozen a hop input v = (.ok output, writes))
    (hchanges : hop.denomIn ≠ hop.denomOut) (hroom : HasRoom a ⟨hop.denomOut, output⟩ v)
    (hfits : (Pools.constantProduct frozen).Fits hop input v) (d : Denom) :
    supply d (v.afterAll writes) = supply d v := by
  have hmoved : Moved a [⟨hop.denomIn, input⟩] [⟨hop.denomOut, output⟩] v (v.afterAll writes) :=
    (Pools.constantProduct frozen).swap_moved h hchanges hroom
  have hheld := hmoved.held_eq d
  obtain ⟨p, reserveIn, reserveOut, given, hpool, hreserves, hpayout, hgiven, rfl⟩ := swapPool_ok h
  have hnowrap := hfits p reserveIn reserveOut hpool hreserves
  have hout : output.toNat ≤ reserveOut.toNat := hpayout ▸ payout_le hnowrap
  have hholds := Pool.holds_after hreserves hchanges hnowrap.reserve hout d
  rw [supply, supply]
  rw [View.afterAll_append, View.afterAll_cons, View.afterAll_nil] at hheld ⊢
  -- Up to the last write the pools are untouched.
  generalize hpaid : v.afterAll (given ++ (credit a ⟨hop.denomOut, output⟩ (v.afterAll given)).2)
    = u at hheld ⊢
  have hsame : SamePools v u := by
    rw [← hpaid, View.afterAll_append]
    exact (samePools_debit hgiven).trans (samePools_credit a _ _)
  have hload : loadPool hop.poolId u = .ok p := by
    rw [loadPool, hsame, ← hpool, loadPool]
  have hpooled := pooled_after d (p.after hop input output) hload
  rw [pooled_congr hsame] at hpooled
  omega

/-! ## Swaps along a route -/

/-- Whether a condition holds at every swap through hops one after the other, each of them on
what the one before it returns. The condition sees the hop, its input and output, and the view
that the swap starts from. -/
def EachSwap (m : Market) (a : Account) (P : Hop → Amount → Amount → View → Prop) :
    Amount → List Hop → View → Prop
  | _, [], _ => True
  | input, hop :: rest, v => ∀ output writes, m.swap a hop input v = (.ok output, writes) →
      P hop input output v ∧ EachSwap m a P output rest (v.afterAll writes)

theorem EachSwap.imp {m : Market} {P Q : Hop → Amount → Amount → View → Prop} {hops : List Hop}
    (h : EachSwap m a P input hops v) (himp : ∀ {hop x y u}, P hop x y u → Q hop x y u) :
    EachSwap m a Q input hops v := by
  induction hops generalizing input v with
  | nil => trivial
  | cons hop rest ih =>
      intro output writes hswap
      obtain ⟨hfirst, hrest⟩ := h output writes hswap
      exact ⟨himp hfirst, ih hrest⟩

/-- Whether there is room for the output of a swap. -/
def RoomFor (a : Account) (hop : Hop) (_ output : Amount) (v : View) : Prop :=
  HasRoom a ⟨hop.denomOut, output⟩ v

/-- Swaps through hops one after the other, each of them on what the one before it returns: they
return these outputs and lead from the first view to the last one. -/
inductive Returns (m : Market) (a : Account) :
    Amount → List Hop → List Amount → View → View → Prop
  | here (input : Amount) (v : View) : Returns m a input [] [] v v
  | swap {input output : Amount} {hop : Hop} {rest : List Hop} {others : List Amount} {v w : View}
      {writes : List Write} (returned : m.swap a hop input v = (.ok output, writes))
      (onwards : Returns m a output rest others (v.afterAll writes) w) :
      Returns m a input (hop :: rest) (output :: others) v w

namespace Returns

variable {m : Market} {pools : Pools} {hops : List Hop} {outputs : List Amount}
  {start finish : Denom}

/-- Along hops that lead from one denomination to another, the account gives the first input and
receives the last output. -/
theorem moved (h : Returns m a input hops outputs v w)
    (hm : ∀ hop x, (m.swap a hop x).Falters (pools.market.swap a hop x))
    (hleads : Route.Leads start hops finish) (hroom : EachSwap m a (RoomFor a) input hops v) :
    Moved a [⟨start, input⟩] [⟨finish, outputs.getLastD input⟩] v w := by
  induction h generalizing start with
  | here input v =>
      cases hleads
      exact (Moved.of_same fun _ _ => rfl).of_totals fun d => Nat.add_comm _ _
  | swap returned onwards ih =>
      obtain ⟨hfirst, hothers⟩ := hroom _ _ returned
      cases hleads with
      | hop changes leads =>
          have hmoved := pools.swap_moved ((hm _ _).ok returned) changes hfirst
          rw [List.getLastD_cons]
          -- The output of the first swap is the input of the next, and cancels.
          exact (hmoved.trans (ih leads hothers)).of_totals fun d => by
            simp only [List.singleton_append, Coin.totalIn_cons, Coin.totalIn_nil]
            omega

/-- Along hops through constant-product pools, balances and reserves together stay what they
are. -/
theorem supply_eq {frozen : List PoolId}
    (h : Returns (constantProduct frozen) a input hops outputs v w)
    (hleads : Route.Leads start hops finish)
    (hfits : EachSwap (constantProduct frozen) a
      (fun hop x y v => RoomFor a hop x y v ∧ (Pools.constantProduct frozen).Fits hop x v) input
      hops v) (d : Denom) : supply d w = supply d v := by
  induction h generalizing start with
  | here => rfl
  | swap returned onwards ih =>
      obtain ⟨⟨hroom, hfirst⟩, hothers⟩ := hfits _ _ returned
      cases hleads with
      | hop changes leads =>
          exact (ih leads hothers).trans (swapPool_supply returned changes hroom hfirst d)

end Returns

end Simulation

namespace Candidate

open Simulation

variable {m : Market} {pools : Pools} {a : Account} {hops : List (Hop × Amount)}
  {start finish : Denom} {input output : Amount} {s t : Store}

/-- The first of several swaps, and the others. -/
theorem swapAll_cons_ok {hop : Hop × Amount} {rest : List (Hop × Amount)}
    (h : (swapAll m a input (hop :: rest)).perform s = (.ok output, t)) :
    ∃ mid writes u, m.swap a hop.1 input s.get = (.ok mid, writes) ∧ hop.2 ≤ mid
      ∧ u.get = View.afterAll s.get writes
      ∧ (swapAll m a mid rest).perform u = (.ok output, t) := by
  obtain ⟨mid, u, hcall, hrest⟩ := Action.perform_bind_ok.1 h
  obtain ⟨writes, hswap, hview⟩ := Action.call_ok hcall
  dsimp only at hrest
  split at hrest
  · exact absurd (congrArg Prod.fst hrest) nofun
  · rename_i henough
    exact ⟨mid, writes, u, hswap, BitVec.not_lt.1 henough, hview, hrest⟩

/-- The outputs of swaps that all succeed, each of them at least what was quoted. -/
theorem returns_of_swapAll (h : (swapAll m a input hops).perform s = (.ok output, t)) :
    ∃ outputs, Returns m a input (hops.map Prod.fst) outputs s.get t.get
      ∧ List.Forall₂ (· ≤ ·) (hops.map Prod.snd) outputs ∧ outputs.getLastD input = output := by
  induction hops generalizing input s with
  | nil =>
      cases h
      exact ⟨[], .here _ _, .nil, rfl⟩
  | cons hop rest ih =>
      obtain ⟨mid, writes, u, hswap, henough, hview, hrest⟩ := swapAll_cons_ok h
      obtain ⟨others, honwards, hquoted, hlast⟩ := ih hrest
      rw [hview] at honwards
      exact ⟨mid :: others, .swap hswap honwards, .cons henough hquoted,
        List.getLastD_cons.trans hlast⟩

/-- Along hops that lead from one denomination to another, the account gives the first input and
receives the last output. -/
theorem swapAll_moved (hm : ∀ hop x, (m.swap a hop x).Falters (pools.market.swap a hop x))
    (hleads : Route.Leads start (hops.map Prod.fst) finish)
    (hroom : EachSwap m a (RoomFor a) input (hops.map Prod.fst) s.get)
    (h : (swapAll m a input hops).perform s = (.ok output, t)) :
    Moved a [⟨start, input⟩] [⟨finish, output⟩] s.get t.get := by
  obtain ⟨outputs, hreturns, -, rfl⟩ := returns_of_swapAll h
  exact hreturns.moved hm hleads hroom

/-- Along hops through constant-product pools, balances and reserves together stay what they
are. -/
theorem swapAll_supply {frozen : List PoolId}
    (hleads : Route.Leads start (hops.map Prod.fst) finish)
    (hfits : EachSwap (constantProduct frozen) a
      (fun hop x y v => RoomFor a hop x y v ∧ (Pools.constantProduct frozen).Fits hop x v) input
      (hops.map Prod.fst) s.get)
    (h : (swapAll (constantProduct frozen) a input hops).perform s = (.ok output, t)) (d : Denom) :
    supply d t.get = supply d s.get := by
  obtain ⟨outputs, hreturns, -, -⟩ := returns_of_swapAll h
  exact hreturns.supply_eq hleads hfits d

end Candidate

end Backrun
