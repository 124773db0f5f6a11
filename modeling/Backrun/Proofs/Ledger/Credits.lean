import Backrun.Ledger.Fees
import Backrun.Proofs.Store.Records

/-!
# Credits

What a ledger has of a denomination is an amount: that of the coin under its key, and zero where
there is none that can be read.  A credit adds a coin to it.  The fees and the profits are both
credited in this way, each with keys and errors of its own.

* `amountAt`, `owed`, `earned` — what a view has under a key.
* `Takes`, `Rejects` — what a ledger says to a coin, by the bytes under its key.
* `credit_of_takes`, `credit_of_rejects` — a credit is made, or the store stays as it is.
-/

namespace Backrun

namespace Amount

theorem le_iff {a b : Amount} : a ≤ b ↔ a.toNat ≤ b.toNat := BitVec.le_def

/-- A sum that is an amount does not wrap. -/
theorem toNat_add {a b : Amount} (h : a.toNat + b.toNat < bound) :
    (a + b).toNat = a.toNat + b.toNat := by
  rw [BitVec.toNat_add]
  exact Nat.mod_eq_of_lt h

/-- A product that is an amount does not wrap. -/
theorem toNat_mul {a b : Amount} (h : a.toNat * b.toNat < bound) :
    (a * b).toNat = a.toNat * b.toNat := by
  rw [BitVec.toNat_mul]
  exact Nat.mod_eq_of_lt h

/-- A checked result is the number itself, which has to be an amount. -/
theorem checked_eq_some {a c : Amount} {n : Nat} (h : n < bound → a.toNat = n) :
    (if n < bound then some a else none) = some c ↔ c.toNat = n := by
  by_cases hfits : n < bound
  · rw [if_pos hfits, Option.some.injEq, ← h hfits, BitVec.toNat_inj]
    exact eq_comm
  · rw [if_neg hfits]
    exact ⟨nofun, fun heq => absurd (heq ▸ c.isLt) hfits⟩

theorem checkedMul_eq_some {a b c : Amount} :
    a.checkedMul b = some c ↔ c.toNat = a.toNat * b.toNat := by
  exact checked_eq_some toNat_mul

/-- A share is at most the whole. -/
theorem share_le (a : Amount) (basisPoints : Nat) : (a.share basisPoints).toNat ≤ a.toNat := by
  have hwhole : (BitVec.ofNat 256 wholeInBasisPoints).toNat = 10000 := rfl
  have hpoints : (BitVec.ofNat 256 (min basisPoints wholeInBasisPoints)).toNat ≤ 10000 := by
    have hmin : min basisPoints wholeInBasisPoints ≤ 10000 := Nat.min_le_right _ _
    rw [BitVec.toNat_ofNat]
    exact Nat.le_trans (Nat.mod_le _ _) hmin
  rw [share]
  generalize BitVec.ofNat 256 (min basisPoints wholeInBasisPoints) = points at hpoints
  split
  · rename_i scaled hscaled
    rw [BitVec.toNat_udiv, hwhole, checkedMul_eq_some.1 hscaled]
    calc a.toNat * points.toNat / 10000
        ≤ a.toNat * 10000 / 10000 := Nat.div_le_div_right (Nat.mul_le_mul_left _ hpoints)
      _ = a.toNat := Nat.mul_div_cancel _ (by decide)
  -- Where the product is no amount, the division comes first, and the product may even wrap.
  · rw [BitVec.toNat_mul, BitVec.toNat_udiv, hwhole]
    calc a.toNat / 10000 * points.toNat % 2 ^ 256
        ≤ a.toNat / 10000 * points.toNat := Nat.mod_le _ _
      _ ≤ a.toNat / 10000 * 10000 := Nat.mul_le_mul_left _ hpoints
      _ ≤ a.toNat := Nat.div_mul_le_self _ _

end Amount

namespace Ledger

variable {v w : View} {s t : Store} {kind : UInt8} {k : Bytes} {key : Denom → Bytes} {c : Coin}
  {e full : Error}

/-! ## Amounts in a view -/

/-- The amount of the coin under a key, zero where there is none. -/
def amountAt (v : View) (k : Bytes) : Amount :=
  match (v k).bind Codec.decode? with
  | some (c : Coin) => c.amount
  | none => 0

/-- What the developer may withdraw of a denomination. -/
def owed (v : View) (d : Denom) : Amount := amountAt v (Key.developerFees d)

/-- What was ever earned in a denomination. -/
def earned (v : View) (d : Denom) : Amount := amountAt v (Key.profits d)

theorem amountAt_congr (h : w k = v k) : amountAt w k = amountAt v k := by
  rw [amountAt, h, amountAt]

theorem amountAt_of_coin (h : v k = some (Codec.encode c)) : amountAt v k = c.amount := by
  simp [amountAt, h, Codec.decode?_encode (Coin.faithful c)]

theorem amountAt_of_none (h : v k = none) : amountAt v k = 0 := by
  simp [amountAt, h]

/-- The bytes under a key do not stand for a coin. -/
def Illegible (v : View) (k : Bytes) : Prop :=
  ∃ b, v k = some b ∧ (Codec.decode? b : Option Coin) = none

theorem amountAt_of_illegible (h : Illegible v k) : amountAt v k = 0 := by
  obtain ⟨b, hb, hdecode⟩ := h
  simp [amountAt, hb, hdecode]

theorem not_illegible_of_coin (h : v k = some (Codec.encode c)) : ¬ Illegible v k := by
  rintro ⟨b, hb, hdecode⟩
  rw [h, Option.some.injEq] at hb
  rw [← hb, Codec.decode?_encode (Coin.faithful c)] at hdecode
  exact Option.some_ne_none c hdecode

theorem not_illegible_of_legible (h : Legible Coin v kind) (hkind : Key.kind k = some kind) :
    ¬ Illegible v k := by
  rintro ⟨b, hb, hdecode⟩
  obtain ⟨c, hc⟩ := h k b hkind hb
  rw [hc] at hdecode
  exact Option.some_ne_none c hdecode

theorem amountOrZero_of_illegible (h : Illegible s.get k) (missing : Missing) :
    amountOrZero (Query.load k missing) s = .error .codec := by
  obtain ⟨b, hb, hdecode⟩ := h
  rw [amountOrZero, Query.bind_apply, Query.unlessMissing, Query.load_of_undecodable hb hdecode]
  rfl

/-- The amount that a ledger finds is the one in the view. -/
theorem amountOrZero_of_not_illegible (h : ¬ Illegible s.get k) (missing : Missing) :
    amountOrZero (Query.load k missing) s = .ok (amountAt s.get k) := by
  have hfound : Query.unlessMissing (Query.load (α := Coin) k missing) s
      = .ok ((s.get k).bind Codec.decode?) := by
    rw [Query.unlessMissing]
    cases hget : s.get k with
    | none =>
        rw [Query.load_of_get_none hget]
        rfl
    | some b =>
        cases hdecode : (Codec.decode? b : Option Coin) with
        | none => exact absurd ⟨b, hget, hdecode⟩ h
        | some c =>
            rw [Query.load_ok.2 ⟨b, hget, hdecode⟩]
            exact congrArg Except.ok hdecode.symm
  rw [amountOrZero, Query.bind_of_ok hfound, amountAt]
  rcases (s.get k).bind (Codec.decode? (α := Coin)) with _ | c <;> rfl

theorem amountOrZero_load (d : Denom) (missing : Missing)
    (h : Filed s.get kind (fun c : Coin => key c.denom) fun _ => True)
    (hkind : Key.kind (key d) = some kind) :
    amountOrZero (Query.load (key d) missing) s = .ok (amountAt s.get (key d)) :=
  amountOrZero_of_not_illegible (not_illegible_of_legible (h.legible Coin.faithful) hkind) missing

/-! ## What a ledger says to a coin -/

/-- A ledger takes a coin if what it has of the denomination can be read, where it has any, and the
sum is an amount. -/
structure Takes (key : Denom → Bytes) (c : Coin) (v : View) : Prop where
  legible : ¬ Illegible v (key c.denom)
  fits : (amountAt v (key c.denom)).toNat + c.amount.toNat < Amount.bound

/-- Why a ledger rejects a coin, with the error that it gives.  A full ledger has one of its own. -/
inductive Rejects (key : Denom → Bytes) (c : Coin) (full : Error) (v : View) : Error → Prop
  | illegible (h : Illegible v (key c.denom)) : Rejects key c full v .codec
  | full (h : Amount.bound ≤ (amountAt v (key c.denom)).toNat + c.amount.toNat) :
      Rejects key c full v full

theorem takes_or_rejects (key : Denom → Bytes) (c : Coin) (full : Error) (v : View) :
    Takes key c v ∨ ∃ e, Rejects key c full v e := by
  by_cases hlegible : Illegible v (key c.denom)
  · exact .inr ⟨_, .illegible hlegible⟩
  · rcases Nat.lt_or_ge ((amountAt v (key c.denom)).toNat + c.amount.toNat) Amount.bound with
      hfits | hfull
    · exact .inl ⟨hlegible, hfits⟩
    · exact .inr ⟨_, .full hfull⟩

theorem Takes.congr (h : Takes key c v) (heq : w (key c.denom) = v (key c.denom)) :
    Takes key c w where
  legible := by
    rw [Illegible, heq]
    exact h.legible
  fits := by
    rw [amountAt_congr heq]
    exact h.fits

theorem Rejects.congr (h : Rejects key c full v e) (heq : w (key c.denom) = v (key c.denom)) :
    Rejects key c full w e := by
  cases h with
  | illegible h =>
      refine .illegible ?_
      rw [Illegible, heq]
      exact h
  | full h =>
      refine .full ?_
      rw [amountAt_congr heq]
      exact h

/-! ## Credits -/

/-- Adds a coin to what a ledger has of its denomination. -/
def credit (key : Denom → Bytes) (missing : Missing) (full : Error) (c : Coin) : Action Unit := do
  let current ← amountOrZero (Query.load (key c.denom) missing)
  match current.checkedAdd c.amount with
  | some total => Action.save (key c.denom) (⟨c.denom, total⟩ : Coin)
  | none => throw full

theorem addFees_eq (c : Coin) :
    addFees c = credit Key.developerFees (.developerFees c.denom)
      (.store (.developerFees c.denom)) c := rfl

theorem addProfit_eq (c : Coin) :
    addProfit c = credit Key.profits (.profits c.denom) (.store (.profits c.denom)) c := rfl

/-- The store in which a coin is added to what a ledger has of its denomination. -/
def withCoin (key : Denom → Bytes) (c : Coin) (s : Store) : Store :=
  s.set (key c.denom)
    (Codec.encode (⟨c.denom, amountAt s.get (key c.denom) + c.amount⟩ : Coin))

theorem get_withCoin_self (key : Denom → Bytes) (c : Coin) (s : Store) :
    (withCoin key c s).get (key c.denom)
      = some (Codec.encode (⟨c.denom, amountAt s.get (key c.denom) + c.amount⟩ : Coin)) :=
  Store.get_set_self s _ _

theorem get_withCoin_of_ne (s : Store) (h : k ≠ key c.denom) :
    (withCoin key c s).get k = s.get k := Store.get_set_of_ne s _ h

/-- What a credit leaves depends on what there was before only. -/
theorem get_withCoin_congr (h : t.get = s.get) :
    (withCoin key c t).get = (withCoin key c s).get := by
  funext k
  rw [withCoin, withCoin, Store.get_set, Store.get_set, h]

/-- A coin that is taken adds to its denomination and to no other. -/
theorem amountAt_withCoin (hinj : ∀ {a b}, key a = key b → a = b) (h : Takes key c s.get)
    (d : Denom) :
    (amountAt (withCoin key c s).get (key d)).toNat
      = (amountAt s.get (key d)).toNat + if d = c.denom then c.amount.toNat else 0 := by
  by_cases hd : d = c.denom
  · rw [if_pos hd, hd, amountAt_of_coin (get_withCoin_self key c s)]
    exact Amount.toNat_add h.fits
  · rw [if_neg hd, amountAt_congr (get_withCoin_of_ne s fun heq => hd (hinj heq)), Nat.add_zero]

/-- A ledger of coins under their denominations is still one with the sum in it. -/
theorem filed_withCoin (h : Filed s.get kind (fun c : Coin => key c.denom) fun _ => True) :
    Filed (withCoin key c s).get kind (fun c : Coin => key c.denom) fun _ => True :=
  h.put (a := ⟨c.denom, amountAt s.get (key c.denom) + c.amount⟩) trivial
    (get_withCoin_self key c s) fun _ _ hk => get_withCoin_of_ne s hk

/-- A coin that is taken is loaded together with what there was before. -/
theorem Takes.loads (h : Takes key c s.get) (missing : Missing) :
    ∃ before total, amountOrZero (Query.load (key c.denom) missing) s = .ok before
      ∧ Query.load (key c.denom) missing (withCoin key c s) = .ok (⟨c.denom, total⟩ : Coin)
      ∧ total.toNat = before.toNat + c.amount.toNat :=
  ⟨_, _, amountOrZero_of_not_illegible h.legible missing,
    Query.load_of_get (Coin.faithful _) (get_withCoin_self key c s) _, Amount.toNat_add h.fits⟩

/-- A ledger that takes a coin has it from then on. -/
theorem credit_of_takes (missing : Missing) (full : Error) (h : Takes key c s.get) :
    (credit key missing full c).perform s = (.ok (), withCoin key c s) := by
  rw [credit, Action.perform_query_bind_of_ok (amountOrZero_of_not_illegible h.legible missing),
    Amount.checkedAdd, if_pos h.fits]
  rfl

/-- A ledger that rejects a coin stays as it is. -/
theorem credit_of_rejects (missing : Missing) (h : Rejects key c full s.get e) :
    (credit key missing full c).perform s = (.error e, s) := by
  cases h with
  | illegible h =>
      refine Action.perform_bind_of_error ?_ _
      rw [Action.perform_liftQuery, amountOrZero_of_illegible h]
  | full h =>
      -- What cannot be read counts as nothing, to which every amount can be added.
      have hlegible : ¬ Illegible s.get (key c.denom) := by
        intro hillegible
        rw [amountAt_of_illegible hillegible] at h
        have hsmall : c.amount.toNat < Amount.bound := c.amount.isLt
        simp at h
        omega
      rw [credit, Action.perform_query_bind_of_ok (amountOrZero_of_not_illegible hlegible missing),
        Amount.checkedAdd, if_neg (Nat.not_lt.2 h)]
      rfl

end Ledger

end Backrun
