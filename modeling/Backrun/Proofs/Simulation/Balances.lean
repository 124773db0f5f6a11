import Backrun.Proofs.Asset.Totals
import Backrun.Proofs.Ledger.Booked
import Backrun.Proofs.Simulation.Outside
import Mathlib.Algebra.BigOperators.Finprod
import Mathlib.Data.FinEnum
import Mathlib.Data.Set.Finite.List

/-!
# Balances in the simulated bank

Each account has one record for each denomination, so a credit or a debit changes one balance
and no other.  `Moved` sums up what has happened to an account between two views: coins that it
has given and coins that it has received, while nobody else's balance has changed.  Movements
come one after the other (`Moved.trans`), and what is given as well as received may be
left out (`Moved.of_totals`).

There are finitely many accounts, so that all their balances have a sum, `held`.
-/

namespace Backrun

/-! ## One record for each balance -/

namespace Account

theorem bytes_injective {a b : Account} (h : a.bytes = b.bytes) : a = b := by
  cases a
  cases b
  cases Bytes.ofString_injective h
  rfl

/-- An address consists of lower-case letters and digits. -/
theorem isAddressChar_of_mem {a : Account} {c : Char} (hc : c ∈ a.text.toList) :
    isAddressChar c = true := by
  have hvalid := a.valid
  rw [fault?] at hvalid
  split at hvalid
  · exact absurd hvalid (by simp)
  · split at hvalid
    · rename_i hall
      exact List.all_eq_true.1 hall c hc
    · exact absurd hvalid (by simp)

/-- The characters of addresses are ASCII and none of them is zero. -/
theorem toNat_of_isAddressChar {c : Char} (h : isAddressChar c = true) :
    0 < c.val.toNat ∧ c.val.toNat ≤ 0x7f := by
  have h : (decide ('a'.val ≤ c.val) && decide (c.val ≤ 'z'.val)
      || decide ('0'.val ≤ c.val) && decide (c.val ≤ '9'.val)) = true := h
  simp only [Bool.or_eq_true, Bool.and_eq_true, decide_eq_true_eq, UInt32.le_iff_toNat_le] at h
  rcases h with h | h
  · exact ⟨Nat.lt_of_lt_of_le (by decide) h.1, Nat.le_trans h.2 (by decide)⟩
  · exact ⟨Nat.lt_of_lt_of_le (by decide) h.1, Nat.le_trans h.2 (by decide)⟩

/-- No byte of an address is zero. -/
theorem zero_not_mem_bytes (a : Account) : (0x00 : UInt8) ∉ a.bytes := by
  intro hmem
  obtain ⟨c, hc, hbyte⟩ := List.mem_flatMap.1 hmem
  obtain ⟨hpos, hle⟩ := toNat_of_isAddressChar (isAddressChar_of_mem hc)
  rw [String.utf8EncodeChar, if_pos hle, List.mem_singleton, ← UInt8.toNat_inj,
    UInt8.toNat_ofNat'] at hbyte
  have hzero : (0 : UInt8).toNat = 0 := rfl
  omega

end Account

namespace View

/-- A write changes no other key. -/
theorem after_of_ne {w : Write} {k : Bytes} (v : View) (h : k ≠ w.key) : v.after w k = v k :=
  if_neg h

theorem afterAll_append (v : View) (writes more : List Write) :
    v.afterAll (writes ++ more) = (v.afterAll writes).afterAll more := List.foldl_append

end View

namespace Effect

variable {α β : Type} {a : Effect α} {f : α → Effect β} {v : View} {writes : List Write}

/-- An effect succeeds if its parts succeed, the second one on what the first one has written. -/
theorem bind_ok {y : β} :
    (a >>= f) v = (.ok y, writes)
      ↔ ∃ x first rest, a v = (.ok x, first) ∧ f x (v.afterAll first) = (.ok y, rest)
        ∧ writes = first ++ rest := by
  rcases heq : a v with ⟨fault | x, first⟩
  · rw [bind_of_error heq]
    simp
  · rw [bind_of_ok heq]
    constructor
    · intro h
      obtain ⟨hresult, hwrites⟩ := Prod.mk.inj h
      exact ⟨x, first, _, rfl, Prod.ext hresult rfl, hwrites.symm⟩
    · rintro ⟨x', first', rest, hfirst, hrest, rfl⟩
      cases hfirst
      rw [hrest]

end Effect

namespace Simulation

variable {a : Account} {c : Coin} {v w u : View} {writes : List Write}

/-- The dividing byte shows where the address ends. -/
theorem balanceKey_injective {a a' : Account} {d d' : Denom}
    (h : balanceKey a d = balanceKey a' d') : a = a' ∧ d = d' := by
  obtain ⟨hfirst, -, hsecond⟩ := (List.append_cons_inj_of_notMem a.zero_not_mem_bytes
    d.zero_not_mem_bytes).1 (List.cons.inj h).2
  exact ⟨Account.bytes_injective hfirst, Denom.bytes_injective hsecond⟩

theorem balance_congr {d : Denom} (h : w (balanceKey a d) = v (balanceKey a d)) :
    balance a d w = balance a d v := by
  rw [balance, record?, h, balance, record?]

/-- A write of one balance changes that balance and no other. -/
theorem balance_after (v : View) (a a' : Account) (d d' : Denom) (x : Amount) :
    balance a' d' (v.after ⟨balanceKey a d, some (Codec.encode x)⟩)
      = if a' = a ∧ d' = d then x else balance a' d' v := by
  by_cases hsame : a' = a ∧ d' = d
  · obtain ⟨rfl, rfl⟩ := hsame
    rw [if_pos ⟨rfl, rfl⟩, balance, record?]
    simp only [View.after, if_true]
    rw [Codec.decode?_encode (Amount.faithful x)]
    rfl
  · rw [if_neg hsame]
    exact balance_congr (View.after_of_ne v fun heq => hsame (balanceKey_injective heq))

/-! ## Movements -/

/-- From one view to the next an account has given and received coins, and no other account's
balance has changed. -/
structure Moved (a : Account) (given received : List Coin) (v w : View) : Prop where
  own : ∀ d, (balance a d w).toNat + Coin.totalIn d given
    = (balance a d v).toNat + Coin.totalIn d received
  others : ∀ a', a' ≠ a → ∀ d, balance a' d w = balance a' d v

namespace Moved

variable {given received given' received' : List Coin}

/-- Where no balance is written nothing moves. -/
theorem of_same (h : ∀ a' d, w (balanceKey a' d) = v (balanceKey a' d)) : Moved a [] [] v w where
  own d := by rw [balance_congr (h a d)]
  others a' _ d := balance_congr (h a' d)

/-- One movement after the other. -/
theorem trans (hvw : Moved a given received v w) (hwu : Moved a given' received' w u) :
    Moved a (given ++ given') (received ++ received') v u where
  own d := by
    have hfirst := hvw.own d
    have hsecond := hwu.own d
    rw [Coin.totalIn_append, Coin.totalIn_append]
    omega
  others a' ha' d := (hwu.others a' ha' d).trans (hvw.others a' ha' d)

/-- Only the difference of what is received and given counts. -/
theorem of_totals (h : Moved a given received v w)
    (htotals : ∀ d, Coin.totalIn d given + Coin.totalIn d received'
      = Coin.totalIn d given' + Coin.totalIn d received) : Moved a given' received' v w where
  own d := by
    have hown := h.own d
    have hequal := htotals d
    omega
  others := h.others

/-- A coin that was received is there, if nothing of its denomination was given. -/
theorem le_of_received (h : Moved a given [c] v w) (hgiven : Coin.totalIn c.denom given = 0) :
    c.amount.toNat ≤ (balance a c.denom w).toNat := by
  have hown := h.own c.denom
  rw [hgiven, Coin.totalIn_cons, Coin.amountIn_self] at hown
  omega

/-- After an exchange the coin that was received is there. -/
theorem received_of_ne {paid : Coin} (h : Moved a [paid] [c] v w) (hne : paid.denom ≠ c.denom) :
    c.amount.toNat ≤ (balance a c.denom w).toNat :=
  h.le_of_received (by rw [Coin.totalIn_cons, Coin.amountIn_of_ne hne.symm, Coin.totalIn_nil])

/-- One balance has been written. -/
theorem of_write {d : Denom} {x : Amount}
    (hown : x.toNat + Coin.totalIn d given = (balance a d v).toNat + Coin.totalIn d received)
    (hgiven : ∀ c ∈ given, c.denom = d) (hreceived : ∀ c ∈ received, c.denom = d) :
    Moved a given received v (v.after ⟨balanceKey a d, some (Codec.encode x)⟩) where
  own d' := by
    rw [balance_after]
    by_cases hd : d' = d
    · rw [hd, if_pos ⟨rfl, rfl⟩]
      exact hown
    · rw [if_neg fun h => hd h.2,
        Coin.totalIn_eq_zero fun c hc heq => hd (heq.symm.trans (hgiven c hc)),
        Coin.totalIn_eq_zero fun c hc heq => hd (heq.symm.trans (hreceived c hc))]
  others a' ha' d' := by rw [balance_after, if_neg fun h => ha' h.1]

end Moved

/-- The balance of an account has room for a coin. -/
def HasRoom (a : Account) (c : Coin) (v : View) : Prop :=
  (balance a c.denom v).toNat + c.amount.toNat < Amount.bound

theorem credit_apply (a : Account) (c : Coin) (v : View) :
    credit a c v = (.ok (), [⟨balanceKey a c.denom,
      some (Codec.encode (balance a c.denom v + c.amount))⟩]) := rfl

/-- A credit that there is room for is received. -/
theorem moved_credit (h : HasRoom a c v) : Moved a [] [c] v (v.afterAll (credit a c v).2) := by
  rw [credit_apply]
  refine Moved.of_write ?_ nofun fun c' hc' => by rw [List.mem_singleton.1 hc']
  rw [Amount.toNat_add h, Coin.totalIn_cons, Coin.amountIn_self]
  rfl

/-- A debit is made exactly if the account has the coins. -/
theorem debit_ok {x : Unit} :
    debit a c v = (.ok x, writes) ↔ c.amount.toNat ≤ (balance a c.denom v).toNat
      ∧ writes = [⟨balanceKey a c.denom,
        some (Codec.encode (balance a c.denom v - c.amount))⟩] := by
  have hcurrent : currentBalance a c.denom v = (.ok (balance a c.denom v), []) := rfl
  rw [debit, Effect.bind_of_ok hcurrent, Amount.checkedSub]
  by_cases hle : c.amount.toNat ≤ (balance a c.denom v).toNat
  · rw [if_pos hle]
    constructor
    · exact fun h => ⟨hle, (congrArg Prod.snd h).symm⟩
    · rintro ⟨-, rfl⟩
      rfl
  · rw [if_neg hle]
    exact ⟨fun h => absurd (congrArg Prod.fst h) nofun, fun h => absurd h.1 hle⟩

/-- A debit is given. -/
theorem moved_debit {x : Unit} (h : debit a c v = (.ok x, writes)) :
    Moved a [c] [] v (v.afterAll writes) := by
  obtain ⟨hle, rfl⟩ := debit_ok.1 h
  refine Moved.of_write ?_ (fun c' hc' => by rw [List.mem_singleton.1 hc']) nofun
  rw [BitVec.toNat_sub_of_le (Amount.le_iff.2 hle), Coin.totalIn_cons, Coin.amountIn_self,
    Coin.totalIn_nil]
  omega

/-- No balance of the account is above a number. -/
def AtMost (a : Account) (n : Nat) (v : View) : Prop := ∀ d, (balance a d v).toNat ≤ n

namespace AtMost

variable {n : Nat}

theorem moved {given : List Coin} (h : AtMost a n v) (hmoved : Moved a given [c] v w) :
    AtMost a (n + c.amount.toNat) w := by
  intro d
  have hbefore := h d
  have hown := hmoved.own d
  rw [Coin.totalIn_cons, Coin.totalIn_nil, Coin.amountIn] at hown
  split at hown <;> omega

theorem hasRoom (h : AtMost a n v) (hfits : n + c.amount.toNat < Amount.bound) : HasRoom a c v :=
  Nat.lt_of_le_of_lt (Nat.add_le_add_right (h c.denom) _) hfits

end AtMost

end Simulation

/-! ## All balances together -/

theorem Account.length_bytes_le (a : Account) : a.bytes.length ≤ 128 := by
  have hsize : a.bytes.length = a.text.utf8ByteSize := by
    have hbytes : a.bytes.toByteArray = a.text.toByteArray := by
      show a.text.toList.utf8Encode = _
      simp
    rw [← String.size_toByteArray, ← hbytes, List.size_toByteArray]
  have hvalid := a.valid
  rw [Account.fault?] at hvalid
  split at hvalid
  · exact absurd hvalid (by simp)
  · rename_i hlength
    omega

/-- There are finitely many accounts, since addresses are short. -/
instance : Finite Account := by
  have hfinite : Finite { l : Bytes // l ∈ { l : Bytes | l.length ≤ 128 } } :=
    (List.finite_length_le UInt8 128).to_subtype
  refine Finite.of_injective (fun a => (⟨a.bytes, a.length_bytes_le⟩ :
    { l : Bytes // l ∈ { l : Bytes | l.length ≤ 128 } })) fun a b h => ?_
  exact Account.bytes_injective (Subtype.mk.inj h)

/-- A sum in which one summand has changed. -/
theorem finsum_change {ι : Type} [Finite ι] {f g : ι → Nat} {i : ι} (h : ∀ j, j ≠ i → g j = f j) :
    ∑ᶠ j, g j + f i = ∑ᶠ j, f j + g i := by
  classical
  have := Fintype.ofFinite ι
  have hrest : ∑ j ∈ Finset.univ.erase i, g j = ∑ j ∈ Finset.univ.erase i, f j :=
    Finset.sum_congr rfl fun j hj => h j (Finset.ne_of_mem_erase hj)
  rw [finsum_eq_sum_of_fintype, finsum_eq_sum_of_fintype,
    ← Finset.add_sum_erase _ g (Finset.mem_univ i), ← Finset.add_sum_erase _ f (Finset.mem_univ i),
    hrest]
  omega

namespace Simulation

/-- What all accounts together hold of a denomination. -/
noncomputable def held (d : Denom) (v : View) : Nat := ∑ᶠ a : Account, (balance a d v).toNat

/-- What all accounts hold changes by what one of them has given and received. -/
theorem Moved.held_eq {a : Account} {given received : List Coin} {v w : View}
    (h : Moved a given received v w) (d : Denom) :
    held d w + Coin.totalIn d given = held d v + Coin.totalIn d received := by
  have hchange : held d w + (balance a d v).toNat = held d v + (balance a d w).toNat :=
    finsum_change fun a' ha' => congrArg BitVec.toNat (h.others a' ha' d)
  have hown := h.own d
  omega

end Simulation

end Backrun
