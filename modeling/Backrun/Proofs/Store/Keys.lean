import Backrun.Proofs.Store.Views
import Backrun.Store.Keys
import Mathlib.Data.List.Basic

/-!
# Keys keep apart

Keys of different kinds differ in their first byte, and within a kind a key belongs to
one record only.  The key of a base denomination ascends with its index.
-/

namespace Backrun

namespace Bytes

theorem ofString_injective {a b : String} (h : ofString a = ofString b) : a = b := by
  have hread := toString?_ofString a
  rw [h, toString?_ofString] at hread
  exact (Option.some.inj hread).symm

/-- Lists that differ before their tails are compared by what stands before the tails. -/
theorem append_lt_append {xs ys : Bytes} (hlength : xs.length = ys.length) (h : xs < ys)
    (us vs : Bytes) : xs ++ us < ys ++ vs := by
  -- The lists run out together, so the order is decided before a tail is reached.
  induction xs generalizing ys with
  | nil =>
      cases ys with
      | nil => exact absurd h (List.lt_irrefl [])
      | cons y ys => exact absurd hlength (by simp)
  | cons x xs ih =>
      cases ys with
      | nil => exact absurd hlength (by simp)
      | cons y ys =>
          rw [List.cons_append, List.cons_append, List.cons_lt_cons_iff]
          rcases List.cons_lt_cons_iff.1 h with hlt | ⟨heq, hlt⟩
          · exact .inl hlt
          · exact .inr ⟨heq, ih (by simpa using hlength) hlt⟩

/-- A common beginning does not matter for the order. -/
theorem append_lt_append_left (start : Bytes) {xs ys : Bytes} (h : xs < ys) :
    start ++ xs < start ++ ys := by
  induction start with
  | nil => exact h
  | cons b start ih => exact List.cons_lt_cons_iff.2 (.inr ⟨rfl, ih⟩)

/-- The last bytes of a number, the most significant one first. -/
def lowBytes : Nat → Nat → Bytes
  | 0, _ => []
  | count + 1, n => lowBytes count (n / 256) ++ [UInt8.ofNat n]

theorem length_lowBytes (count n : Nat) : (lowBytes count n).length = count := by
  induction count generalizing n with
  | zero => rfl
  | succ count ih => rw [lowBytes, List.length_append, ih, List.length_singleton]

/-- Smaller numbers have smaller bytes, as long as the bytes hold the number. -/
theorem lowBytes_lt {count m n : Nat} (hmn : m < n) (hn : n < Nat.pow 256 count) :
    lowBytes count m < lowBytes count n := by
  induction count generalizing m n with
  | zero =>
      have hn' : n < 1 := hn
      omega
  | succ count ih =>
      have hpow : Nat.pow 256 (count + 1) = Nat.pow 256 count * 256 := rfl
      have hhigh : n / 256 < Nat.pow 256 count := by
        rw [Nat.div_lt_iff_lt_mul (by decide)]
        omega
      rw [lowBytes, lowBytes]
      -- The high bytes decide, and where they agree the last byte does.
      by_cases hlt : m / 256 < n / 256
      · exact append_lt_append (by rw [length_lowBytes, length_lowBytes]) (ih hlt hhigh) _ _
      · have heq : m / 256 = n / 256 := by omega
        rw [heq]
        refine append_lt_append_left _ (List.cons_lt_cons_iff.2 (.inl ?_))
        rw [UInt8.lt_iff_toNat_lt, UInt8.toNat_ofNat', UInt8.toNat_ofNat']
        omega

theorem bigEndian_eq_lowBytes (i : UInt64) : bigEndian i = lowBytes 8 i.toNat := by
  simp [bigEndian, lowBytes, Nat.div_div_eq_div_mul]

/-- The order of the bytes is the order of the numbers. -/
theorem bigEndian_lt {i j : UInt64} (h : i < j) : bigEndian i < bigEndian j := by
  rw [bigEndian_eq_lowBytes, bigEndian_eq_lowBytes]
  exact lowBytes_lt (UInt64.lt_iff_toNat_lt.1 h) j.toNat_lt

theorem bigEndian_injective {i j : UInt64} (h : bigEndian i = bigEndian j) : i = j := by
  have hnot : ∀ {i j : UInt64}, bigEndian i = bigEndian j → ¬ i < j := by
    intro i j heq hlt
    have hbytes := bigEndian_lt hlt
    rw [heq] at hbytes
    exact List.lt_irrefl _ hbytes
  exact UInt64.le_antisymm (UInt64.not_lt.1 (hnot h.symm)) (UInt64.not_lt.1 (hnot h))

end Bytes

namespace Denom

theorem bytes_injective {a b : Denom} (h : a.bytes = b.bytes) : a = b := by
  cases a
  cases b
  cases Bytes.ofString_injective h
  rfl

/-- A denomination is a letter and characters that may follow it. -/
theorem isTailChar_of_mem {d : Denom} {c : Char} (hc : c ∈ d.text.toList) :
    isTailChar c = true := by
  have hvalid := d.valid
  rw [fault?] at hvalid
  split at hvalid
  · exact absurd hvalid (by simp)
  · cases htext : d.text.toList with
    | nil =>
        rw [htext] at hc
        exact absurd hc List.not_mem_nil
    | cons first rest =>
        rw [htext] at hvalid hc
        dsimp only at hvalid
        split at hvalid
        · rename_i halpha
          rw [Option.map_eq_none_iff, List.find?_eq_none] at hvalid
          rcases List.mem_cons.1 hc with rfl | hrest
          · simp [isTailChar, Char.isAlphanum, halpha]
          · simpa using hvalid c hrest
        · exact absurd hvalid (by simp)

/-- The characters of denominations are ASCII and none of them is zero. -/
theorem toNat_of_isTailChar {c : Char} (h : isTailChar c = true) :
    0 < c.val.toNat ∧ c.val.toNat ≤ 0x7f := by
  -- The tests for letters and digits, opened: their definitions have no equations to rewrite with.
  have h : (decide ('A'.val ≤ c.val ∧ c.val ≤ 'Z'.val)
      || decide ('a'.val ≤ c.val) && decide (c.val ≤ 'z'.val)
      || decide ('0'.val ≤ c.val) && decide (c.val ≤ '9'.val)
      || c == '/' || c == ':' || c == '.' || c == '_' || c == '-') = true := h
  simp only [Bool.or_eq_true, Bool.and_eq_true, decide_eq_true_eq, beq_iff_eq,
    UInt32.le_iff_toNat_le] at h
  rcases h with (((((((h | h) | h) | rfl) | rfl) | rfl) | rfl) | rfl)
  · exact ⟨Nat.lt_of_lt_of_le (by decide) h.1, Nat.le_trans h.2 (by decide)⟩
  · exact ⟨Nat.lt_of_lt_of_le (by decide) h.1, Nat.le_trans h.2 (by decide)⟩
  · exact ⟨Nat.lt_of_lt_of_le (by decide) h.1, Nat.le_trans h.2 (by decide)⟩
  · decide
  · decide
  · decide
  · decide
  · decide

/-- No byte of a denomination is zero, so none is the byte that divides two of them. -/
theorem zero_not_mem_bytes (d : Denom) : (0x00 : UInt8) ∉ d.bytes := by
  intro hmem
  obtain ⟨c, hc, hbyte⟩ := List.mem_flatMap.1 hmem
  obtain ⟨hpos, hle⟩ := toNat_of_isTailChar (isTailChar_of_mem hc)
  rw [String.utf8EncodeChar, if_pos hle, List.mem_singleton, ← UInt8.toNat_inj,
    UInt8.toNat_ofNat'] at hbyte
  have hzero : (0 : UInt8).toNat = 0 := rfl
  omega

end Denom

namespace Key

/-! ## Kinds of keys -/

/-- The first byte, which tells the kind of record. -/
def kind (k : Bytes) : Option UInt8 := k.head?

theorem ne_of_kind {k k' : Bytes} (h : kind k ≠ kind k') : k ≠ k' := fun heq => h (heq ▸ rfl)

/-- A key is of one kind only. -/
theorem kind_ne {k : Bytes} {b c : UInt8} (h : kind k = some b) (hne : b ≠ c := by decide) :
    kind k ≠ some c := by
  rw [h]
  exact fun heq => hne (Option.some.inj heq)

/-- All keys with a common beginning are of one kind. -/
theorem kind_of_start {b : UInt8} {start k : Bytes} (h : (b :: start) <+: k) : kind k = some b := by
  obtain ⟨rest, rfl⟩ := h
  rfl

/-- A key of a kind begins with its byte. -/
theorem singleton_prefix_iff {b : UInt8} {k : Bytes} : [b] <+: k ↔ kind k = some b :=
  List.singleton_prefix_iff_head?_eq_some

@[simp]
theorem kind_config : kind config = some 0x04 := rfl

@[simp]
theorem kind_pointCounter : kind pointCounter = some 0x05 := rfl

@[simp]
theorem kind_genesisTime : kind genesisTime = some 0x07 := rfl

@[simp]
theorem kind_tradeCount : kind tradeCount = some 0x08 := rfl

@[simp]
theorem kind_pairRoutes (p : DenomPair) : kind (pairRoutes p) = some 0x01 := rfl

@[simp]
theorem kind_baseDenom (index : UInt64) : kind (baseDenom index) = some 0x02 := rfl

@[simp]
theorem kind_pool (base counter : Denom) : kind (pool base counter) = some 0x03 := rfl

@[simp]
theorem kind_developerFees (d : Denom) : kind (developerFees d) = some 0x06 := rfl

@[simp]
theorem kind_profits (d : Denom) : kind (profits d) = some 0x09 := rfl

theorem allBaseDenoms_prefix_iff {k : Bytes} : allBaseDenoms <+: k ↔ kind k = some 0x02 :=
  singleton_prefix_iff

/-- The keys that hold records of the engine. -/
def IsEngine (k : Bytes) : Prop := ∃ b : UInt8, 0x01 ≤ b ∧ b ≤ 0x09 ∧ kind k = some b

theorem isEngine_of_kind {b : UInt8} {k : Bytes} (h : kind k = some b)
    (hlow : 0x01 ≤ b := by decide) (hhigh : b ≤ 0x09 := by decide) : IsEngine k :=
  ⟨b, hlow, hhigh, h⟩

theorem not_isEngine_of_kind {b : UInt8} {k : Bytes} (h : kind k = some b)
    (habove : 0x09 < b := by decide) : ¬ IsEngine k := by
  rintro ⟨c, -, hhigh, hkind⟩
  rw [h] at hkind
  rw [← Option.some.inj hkind] at hhigh
  exact UInt8.not_le.2 habove hhigh

/-- The nine kinds one by one. -/
theorem isEngine_iff {k : Bytes} : IsEngine k ↔ kind k = some 0x01 ∨ kind k = some 0x02
    ∨ kind k = some 0x03 ∨ kind k = some 0x04 ∨ kind k = some 0x05 ∨ kind k = some 0x06
    ∨ kind k = some 0x07 ∨ kind k = some 0x08 ∨ kind k = some 0x09 := by
  constructor
  · rintro ⟨b, hlow, hhigh, hkind⟩
    have hcases : b = 0x01 ∨ b = 0x02 ∨ b = 0x03 ∨ b = 0x04 ∨ b = 0x05 ∨ b = 0x06 ∨ b = 0x07
        ∨ b = 0x08 ∨ b = 0x09 := by
      rw [UInt8.le_iff_toNat_le] at hlow hhigh
      simp only [← UInt8.toNat_inj, UInt8.reduceToNat] at hlow hhigh ⊢
      omega
    rw [hkind]
    simpa using hcases
  · rintro (h | h | h | h | h | h | h | h | h) <;> exact isEngine_of_kind h

/-! ### Groups of kinds -/

/-- The kinds of keys that the configuration and the counter are kept under. -/
def IsBudget (k : Bytes) : Prop := kind k = some 0x04 ∨ kind k = some 0x05

/-- The kinds of keys that routes, base denominations and pools are kept under. -/
def IsRegistry (k : Bytes) : Prop :=
  kind k = some 0x01 ∨ kind k = some 0x02 ∨ kind k = some 0x03

/-- The kinds of keys that the books are kept under. -/
def IsBook (k : Bytes) : Prop :=
  kind k = some 0x06 ∨ kind k = some 0x07 ∨ kind k = some 0x08 ∨ kind k = some 0x09

theorem IsBudget.isEngine {k : Bytes} (h : IsBudget k) : IsEngine k := by
  rcases h with h | h <;> exact isEngine_of_kind h

theorem IsRegistry.isEngine {k : Bytes} (h : IsRegistry k) : IsEngine k := by
  rcases h with h | h | h <;> exact isEngine_of_kind h

theorem IsBook.isEngine {k : Bytes} (h : IsBook k) : IsEngine k := by
  rcases h with h | h | h | h <;> exact isEngine_of_kind h

/-- A key of a group is of no kind outside the group. -/
theorem IsBudget.kind_ne {k : Bytes} {b : UInt8} (h : IsBudget k)
    (hb : b ≠ 0x04 ∧ b ≠ 0x05 := by decide) : kind k ≠ some b := by
  rcases h with h | h
  · exact Key.kind_ne h hb.1.symm
  · exact Key.kind_ne h hb.2.symm

theorem IsRegistry.kind_ne {k : Bytes} {b : UInt8} (h : IsRegistry k)
    (hb : b ≠ 0x01 ∧ b ≠ 0x02 ∧ b ≠ 0x03 := by decide) : kind k ≠ some b := by
  rcases h with h | h | h
  · exact Key.kind_ne h hb.1.symm
  · exact Key.kind_ne h hb.2.1.symm
  · exact Key.kind_ne h hb.2.2.symm

theorem IsBook.kind_ne {k : Bytes} {b : UInt8} (h : IsBook k)
    (hb : b ≠ 0x06 ∧ b ≠ 0x07 ∧ b ≠ 0x08 ∧ b ≠ 0x09 := by decide) : kind k ≠ some b := by
  rcases h with h | h | h | h
  · exact Key.kind_ne h hb.1.symm
  · exact Key.kind_ne h hb.2.1.symm
  · exact Key.kind_ne h hb.2.2.1.symm
  · exact Key.kind_ne h hb.2.2.2.symm

/-! ## One record, one key -/

/-- The dividing byte shows where the first denomination ends. -/
theorem joined_injective {a b c d : Denom} (h : joined a b = joined c d) : a = c ∧ b = d := by
  obtain ⟨hfirst, -, hsecond⟩ := (List.append_cons_inj_of_notMem a.zero_not_mem_bytes
    b.zero_not_mem_bytes).1 h
  exact ⟨Denom.bytes_injective hfirst, Denom.bytes_injective hsecond⟩

theorem pairRoutes_injective {p q : DenomPair} (h : pairRoutes p = pairRoutes q) : p = q := by
  obtain ⟨ha, hb⟩ := joined_injective (List.append_cancel_left h)
  cases p
  cases q
  cases ha
  cases hb
  rfl

theorem pool_injective {a b c d : Denom} (h : pool a b = pool c d) : a = c ∧ b = d :=
  joined_injective (List.append_cancel_left h)

theorem baseDenom_injective {i j : UInt64} (h : baseDenom i = baseDenom j) : i = j :=
  Bytes.bigEndian_injective (List.append_cancel_left h)

theorem developerFees_injective {a b : Denom} (h : developerFees a = developerFees b) : a = b :=
  Denom.bytes_injective (List.append_cancel_left h)

theorem profits_injective {a b : Denom} (h : profits a = profits b) : a = b :=
  Denom.bytes_injective (List.append_cancel_left h)

/-- Keys of base denominations ascend with the index. -/
theorem baseDenom_lt {i j : UInt64} (h : i < j) : baseDenom i < baseDenom j :=
  Bytes.append_lt_append_left allBaseDenoms (Bytes.bigEndian_lt h)

end Key

/-- A kind is deleted as a whole and alone. -/
theorem Store.get_deleteUnder_kind (s : Store) (b : UInt8) (k : Bytes) :
    (s.deleteUnder [b]).get k = if Key.kind k = some b then none else s.get k := by
  rw [get_deleteUnder]
  simp only [Key.singleton_prefix_iff]

end Backrun
