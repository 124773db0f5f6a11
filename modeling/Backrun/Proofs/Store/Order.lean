import Backrun.Proofs.Store.Keys
import Mathlib.Data.List.Sort

/-!
# The order of keys

A walk lists records by key.  The lemmas here say what that order is in the records
themselves: denominations in byte order, and pairs by their first denominations and then
by their second ones.  The byte that divides two denominations is below every byte of
them, so it does not disturb the order when one denomination begins another.
-/

namespace Backrun

namespace Bytes

/-- With a zero byte behind bytes that are not zero, the order is decided before that byte
or behind it. -/
theorem append_zero_lt_iff {xs ys us vs : Bytes} (hxs : (0x00 : UInt8) ∉ xs)
    (hys : (0x00 : UInt8) ∉ ys) :
    xs ++ 0x00 :: us < ys ++ 0x00 :: vs ↔ xs < ys ∨ xs = ys ∧ us < vs := by
  have hpos : ∀ {b : UInt8}, b ≠ 0x00 → 0x00 < b := fun h => UInt8.pos_iff_ne_zero.2 h
  induction xs generalizing ys with
  | nil =>
      cases ys with
      | nil => simp
      -- The first list has run out, and its zero byte is below whatever follows in the other.
      | cons y ys =>
          have hy : y ≠ 0x00 := fun h => hys (h ▸ List.mem_cons_self)
          simp [List.cons_lt_cons_iff, hpos hy]
  | cons x xs ih =>
      have hx : x ≠ 0x00 := fun h => hxs (h ▸ List.mem_cons_self)
      cases ys with
      | nil => simp [List.cons_lt_cons_iff, hx]
      | cons y ys =>
          have hys' : (0x00 : UInt8) ∉ ys := mt (List.mem_cons_of_mem y) hys
          have hrest := ih (mt (List.mem_cons_of_mem x) hxs) hys'
          simp only [List.cons_append, List.cons_lt_cons_iff, hrest, List.cons.injEq]
          rw [and_or_left, or_assoc, and_assoc]

end Bytes

namespace Denom

/-- The first denomination stands before the second one, byte by byte. -/
def Before (a b : Denom) : Prop := a.bytes < b.bytes

/-- Pairs by their first denominations, and where these are the same by their second ones. -/
def PairBefore (p q : Denom × Denom) : Prop := p.1.Before q.1 ∨ p.1 = q.1 ∧ p.2.Before q.2

instance : DecidableRel Before := fun a b => inferInstanceAs (Decidable (a.bytes < b.bytes))

instance : DecidableRel PairBefore := fun p q =>
  inferInstanceAs (Decidable (p.1.Before q.1 ∨ p.1 = q.1 ∧ p.2.Before q.2))

end Denom

namespace Key

theorem cons_lt_cons {b : UInt8} {xs ys : Bytes} : b :: xs < b :: ys ↔ xs < ys := by
  simp

/-- Two denominations with the dividing byte between them are in the order of the pairs. -/
theorem joined_lt_iff {a b c d : Denom} :
    joined a b < joined c d ↔ Denom.PairBefore (a, b) (c, d) := by
  rw [joined, joined, Bytes.append_zero_lt_iff a.zero_not_mem_bytes c.zero_not_mem_bytes]
  exact or_congr_right (and_congr_left fun _ => ⟨Denom.bytes_injective, congrArg Denom.bytes⟩)

theorem pairRoutes_lt_iff {p q : DenomPair} :
    pairRoutes p < pairRoutes q
      ↔ Denom.PairBefore (p.tokenA, p.tokenB) (q.tokenA, q.tokenB) :=
  cons_lt_cons.trans joined_lt_iff

theorem pool_lt_iff {a b c d : Denom} :
    pool a b < pool c d ↔ Denom.PairBefore (a, b) (c, d) := cons_lt_cons.trans joined_lt_iff

theorem developerFees_lt_iff {a b : Denom} : developerFees a < developerFees b ↔ a.Before b :=
  cons_lt_cons

theorem profits_lt_iff {a b : Denom} : profits a < profits b ↔ a.Before b := cons_lt_cons

/-- The pools of a base denomination stand under its name with the dividing byte, and no
others do. -/
theorem poolsOf_prefix_pool_iff {a b c : Denom} : poolsOf a <+: pool b c ↔ a = b := by
  constructor
  · rintro ⟨rest, h⟩
    have hbytes : a.bytes ++ 0x00 :: rest = b.bytes ++ 0x00 :: c.bytes := by
      simpa [poolsOf, pool, joined, allPools] using h
    obtain ⟨hbase, -, -⟩ := (List.append_cons_inj_of_notMem b.zero_not_mem_bytes
      c.zero_not_mem_bytes).1 hbytes.symm
    exact (Denom.bytes_injective hbase).symm
  · rintro rfl
    exact ⟨c.bytes, by simp [poolsOf, pool, joined, allPools]⟩

end Key

/-! ## Records in the order of their keys -/

section Sorting

variable {α : Type} {before : α → α → Prop} [DecidableRel before] {key : α → Bytes}
  {as : List α}

/-- The members of a list in an order. -/
def sortedBy (before : α → α → Prop) [DecidableRel before] (as : List α) : List α :=
  as.insertionSort fun a b => ¬ before b a

theorem sortedBy_perm (as : List α) : (sortedBy before as).Perm as := List.perm_insertionSort _ as

/-- Records with different keys ascend by key once they are sorted in the order of the keys. -/
theorem ascending_sortedBy (hbefore : ∀ a b, before a b ↔ key a < key b)
    (hkeys : (as.map key).Nodup) : (sortedBy before as).Pairwise fun a b => key a < key b := by
  have hrel : ∀ a b, ¬ before b a ↔ key a ≤ key b := fun a b => (not_congr (hbefore b a)).trans
    List.not_lt
  have htotal : Std.Total fun a b => ¬ before b a :=
    ⟨fun a b => by
      rw [hrel, hrel]
      exact List.le_total (key a) (key b)⟩
  have htrans : IsTrans α fun a b => ¬ before b a :=
    ⟨fun a b c hab hbc => by
      rw [hrel] at hab hbc ⊢
      exact List.le_trans hab hbc⟩
  have hsorted := List.pairwise_insertionSort (fun a b => ¬ before b a) as
  -- Sorting leaves equal keys next to each other, and here no two keys are equal.
  have hdifferent : (sortedBy before as).Pairwise fun a b => key a ≠ key b := by
    rw [← List.pairwise_map, ← List.nodup_iff_pairwise_ne]
    exact ((sortedBy_perm as).map key).nodup_iff.2 hkeys
  refine (hsorted.and hdifferent).imp fun {a b} h => ?_
  exact KeyMap.key_lt_of_not ((not_congr (hbefore b a)).1 h.1) h.2.symm

/-- Lists with the same records in ascending key order are the same. -/
theorem eq_of_perm_of_ascending {bs : List α} (h : as.Perm bs)
    (has : as.Pairwise fun a b => key a < key b) (hbs : bs.Pairwise fun a b => key a < key b) :
    as = bs :=
  h.eq_of_pairwise (fun _ _ _ _ hab hba => absurd (List.lt_trans hab hba) (List.lt_irrefl _)) has hbs

/-- Ascending keys leave one list of the same records. -/
theorem eq_of_mem_iff_of_ascending {bs : List α} (h : ∀ a, a ∈ as ↔ a ∈ bs)
    (has : as.Pairwise fun a b => key a < key b) (hbs : bs.Pairwise fun a b => key a < key b) :
    as = bs := by
  have hne : ∀ {a b : α}, key a < key b → a ≠ b := by
    rintro a _ hlt rfl
    exact List.lt_irrefl (key a) hlt
  have hperm : as.Perm bs := (List.perm_ext_iff_of_nodup (has.imp hne) (hbs.imp hne)).2 h
  exact eq_of_perm_of_ascending hperm has hbs

end Sorting

end Backrun
