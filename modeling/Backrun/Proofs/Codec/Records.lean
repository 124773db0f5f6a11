import Backrun.Genesis.Basic
import Backrun.Proofs.Json.Written
import Mathlib.Data.List.Basic

/-!
# Records read back

A value is faithful if what it is written as is read as that value.  Faithful values
come back from their stored bytes, and so no two of them share their bytes.

Records are faithful if their fields are.  Two leaves have modules of their own:
decimals and instants.  `Settles` is for types not all of whose values are faithful: it says what
becomes of each of them.
-/

namespace Backrun

namespace Codec

/-- Whether a value is read back from what it is written as. -/
structure Faithful {α : Type} [Codec α] (a : α) : Prop where
  /-- What it is written as can be read. -/
  plain : (toJson a).Plain
  /-- It is read as the value. -/
  read : ofJson? (toJson a) = some a

attribute [simp] Faithful.read

section Bytes

variable {α : Type} [Codec α]

/-- Stored bytes are read as the written form that they were made of. -/
theorem decode?_encode_of_plain {a : α} (h : (toJson a).Plain) :
    decode? (encode a) = (ofJson? (toJson a) : Option α) := by
  simp [decode?, encode, ofText?, Json.ofText?_render h]

/-- A faithful value comes back from its stored bytes. -/
@[simp]
theorem decode?_encode {a : α} (h : Faithful a) : decode? (encode a) = some a :=
  (decode?_encode_of_plain h.plain).trans h.read

/-- Different written forms have different bytes. -/
theorem toJson_eq_of_encode {a b : α} (ha : (toJson a).Plain) (hb : (toJson b).Plain)
    (h : encode a = encode b) : toJson a = toJson b := by
  have hchars : (toJson a).render = (toJson b).render := by
    have hstring := congrArg Bytes.toString? h
    simp only [encode, Bytes.toString?_ofString, Option.some.injEq] at hstring
    simpa using congrArg String.toList hstring
  have hread := Json.ofText?_render ha
  rw [hchars, Json.ofText?_render hb] at hread
  exact (Option.some.inj hread).symm

/-- Different faithful values have different bytes. -/
theorem encode_injective {a b : α} (ha : Faithful a) (hb : Faithful b)
    (h : encode a = encode b) : a = b := by
  have hread := decode?_encode ha
  rw [h, decode?_encode hb] at hread
  exact (Option.some.inj hread).symm

end Bytes

/-- Values are read back in settled form from what they are written as, and no two of them are
written alike. -/
structure Settles (α : Type) [Codec α] (settle : α → α) : Prop where
  plain : ∀ a : α, (toJson a).Plain
  read : ∀ a : α, ofJson? (toJson a) = some (settle a)
  injective : ∀ {a b : α}, toJson a = toJson b → a = b

section Settles

variable {α : Type} [Codec α] {settle : α → α}

/-- Faithful values are settled as they are. -/
theorem settles_of_faithful (h : ∀ a : α, Faithful a) : Settles α id where
  plain a := (h a).plain
  read a := (h a).read
  injective {a b} heq := by
    have hread := (h a).read
    rw [heq, (h b).read] at hread
    exact (Option.some.inj hread).symm

/-- Settled values are faithful. -/
theorem Settles.faithful (h : Settles α settle) {a : α} (ha : settle a = a) : Faithful a where
  plain := h.plain a
  read := (h.read a).trans (congrArg some ha)

/-- Lists settle item by item. -/
theorem Settles.list (h : Settles α settle) : Settles (List α) (List.map settle) where
  plain as := by
    show Json.PlainItems (as.map toJson)
    induction as with
    | nil => trivial
    | cons a as ih => exact ⟨h.plain a, ih⟩
  read as := by
    show readAll (as.map toJson) = some (as.map settle)
    induction as with
    | nil => rfl
    | cons a as ih => simp only [List.map_cons, readAll, h.read a, ih]
  injective {as bs} heq := by
    have hitems : as.map toJson = bs.map toJson := Json.array.inj heq
    exact List.map_injective_iff.2 (fun _ _ => h.injective) hitems

end Settles

/-! ## Plain values -/

@[simp]
theorem faithful_bool (b : Bool) : Faithful b := ⟨trivial, rfl⟩

@[simp]
theorem faithful_uint64 (n : UInt64) : Faithful n where
  plain := UInt64.toNat_lt_size n
  read := by
    have h : ofJson? (toJson n)
        = if n.toNat < UInt64.size then some (UInt64.ofNat n.toNat) else none := rfl
    rw [h, if_pos n.toNat_lt_size, UInt64.ofNat_toNat]

@[simp]
theorem faithful_uint32 (n : UInt32) : Faithful n where
  plain := Nat.lt_trans n.toNat_lt_size (by decide)
  read := by
    have h : ofJson? (toJson n)
        = if n.toNat < UInt32.size then some (UInt32.ofNat n.toNat) else none := rfl
    rw [h, if_pos n.toNat_lt_size, UInt32.ofNat_toNat]

/-- A list is faithful if its items are. -/
@[simp]
theorem faithful_list {α : Type} [Codec α] {as : List α} (h : ∀ a ∈ as, Faithful a) :
    Faithful as := by
  constructor
  · show Json.PlainItems (as.map toJson)
    induction as with
    | nil => trivial
    | cons a as ih =>
        exact ⟨(h a List.mem_cons_self).plain, ih fun b hb => h b (List.mem_cons_of_mem a hb)⟩
  · show readAll (as.map toJson) = some as
    induction as with
    | nil => rfl
    | cons a as ih =>
        simp only [List.map_cons, readAll, (h a List.mem_cons_self).read,
          ih fun b hb => h b (List.mem_cons_of_mem a hb)]

theorem plain_optionJson {α : Type} [Codec α] {a : Option α} (h : ∀ x ∈ a, Faithful x) :
    (optionJson a).Plain := by
  cases a with
  | none => trivial
  | some x => exact (h x rfl).plain

end Codec

open Codec

namespace Fields

theorem lookup_of_mem {members : List (String × Json)} (hnodup : (members.map Prod.fst).Nodup)
    {m : String × Json} (hm : m ∈ members) : members.lookup m.1 = some m.2 := by
  induction members with
  | nil => exact absurd hm List.not_mem_nil
  | cons m' members ih =>
      rw [List.map_cons, List.nodup_cons] at hnodup
      rcases List.mem_cons.1 hm with rfl | hm
      · rw [List.lookup_cons, beq_self_eq_true]
      · have hne : m.1 ≠ m'.1 := by
          intro heq
          exact hnodup.1 (heq ▸ List.mem_map_of_mem hm)
        rw [List.lookup_cons, beq_eq_false_iff_ne.2 hne]
        exact ih hnodup.2 hm

/-- The members of an object are its fields, if their names are the declared ones. -/
@[simp]
theorem ofJson?_object {names : List String} {members : List (String × Json)}
    (hnames : members.map Prod.fst = names) (hnodup : names.Nodup) :
    Fields.ofJson? names (.object members) = some ⟨true, members.map fun m => some m.2⟩ := by
  subst hnames
  -- No name is written twice, so that the reader finds each member under its name.
  have hcount : ∀ name, members.countP (fun m => m.1 == name)
      = (members.map Prod.fst).count name := by
    intro name
    rw [List.count, List.countP_map]
    rfl
  have honce : ((members.map Prod.fst).any fun name =>
      decide (1 < members.countP fun m => m.1 == name)) = false := by
    rw [List.any_eq_false]
    intro name _
    have hle := List.nodup_iff_count.1 hnodup name
    rw [hcount, decide_eq_true_eq]
    omega
  have hlookup : (members.map Prod.fst).map (fun name => members.lookup name)
      = members.map fun m => some m.2 := by
    rw [List.map_map]
    refine List.map_congr_left fun m hm => ?_
    exact lookup_of_mem hnodup hm
  simp only [Fields.ofJson?, honce, Bool.false_eq_true, if_false, hlookup]

/-- An optional value that is not written as `null` is read back, and so is its absence. -/
theorem optional_optionJson {α : Type} [Codec α] {a : Option α} (h : ∀ x ∈ a, Faithful x)
    (hnull : ∀ x ∈ a, toJson x ≠ .null) :
    Fields.optional true (some (optionJson a)) = some a := by
  cases a with
  | none => rfl
  | some x =>
      have hread := (h x rfl).read
      have hsome := hnull x rfl
      simp only [optionJson]
      cases hj : toJson x <;> simp_all [Fields.optional]

end Fields

/-- An optional value that is not written as `null` is written unlike any other. -/
theorem Codec.optionJson_injective {α : Type} [Codec α] {a b : Option α} (h : ∀ x : α, Faithful x)
    (hnull : ∀ x : α, toJson x ≠ .null) (heq : optionJson a = optionJson b) : a = b := by
  have hread := Fields.optional_optionJson (a := a) (fun x _ => h x) fun x _ => hnull x
  rw [heq, Fields.optional_optionJson (fun x _ => h x) fun x _ => hnull x] at hread
  exact (Option.some.inj hread).symm

/-! ## Names and amounts -/

@[simp]
theorem Denom.faithful (d : Denom) : Faithful d where
  plain := trivial
  read := by
    show (Denom.ofString d.text).toOption = some d
    rw [Denom.ofString]
    split
    · rfl
    · rename_i hfault
      rw [d.valid] at hfault
      cases hfault

@[simp]
theorem Account.faithful (a : Account) : Faithful a where
  plain := trivial
  read := by
    show (Account.ofString a.text).toOption = some a
    rw [Account.ofString]
    split
    · rfl
    · rename_i hfault
      rw [a.valid] at hfault
      cases hfault

theorem Amount.ofText?_hexText (a : Amount) : Amount.ofText? a.hexText = some a := by
  have hmark : ∀ c ∈ Nat.toDigits 16 a.toNat, (c != '_') = true := by
    intro c hc
    obtain ⟨d, hd, rfl⟩ := Numeral.exists_digit_of_mem_toDigits (by decide) hc
    rw [bne_iff_ne]
    exact Numeral.digitChar_ne_underscore d hd
  have hbound : a.toNat < Amount.bound := a.isLt
  simp only [Amount.ofText?, Amount.hexText, String.toList_ofList, Amount.splitBase,
    List.filter_eq_self.2 hmark, Numeral.read?_toDigits (show 1 < 16 by decide) (by decide),
    if_pos hbound, BitVec.ofNat_toNat, BitVec.setWidth_eq]

@[simp]
theorem Amount.faithful (a : Amount) : Faithful a where
  plain := trivial
  read := Amount.ofText?_hexText a

/-! ## Records -/

@[simp]
theorem Coin.faithful (c : Coin) : Faithful c where
  plain := ⟨(Denom.faithful _).plain, (Amount.faithful _).plain, trivial⟩
  read := by
    unfold instCodecCoin
    simp [Fields.required]

@[simp]
theorem Hop.faithful (h : Hop) : Faithful h where
  plain := ⟨(faithful_uint64 _).plain, (Denom.faithful _).plain, (Denom.faithful _).plain, trivial⟩
  read := by
    unfold instCodecHop
    simp [Fields.required]

@[simp]
theorem Route.faithful (r : Route) : Faithful r where
  plain := ⟨(faithful_list fun h _ => Hop.faithful h).plain, trivial⟩
  read := by
    unfold instCodecRoute
    simp [Fields.required]

@[simp]
theorem DenomPair.faithful (p : DenomPair) : Faithful p where
  plain := ⟨(Denom.faithful _).plain, (Denom.faithful _).plain, trivial⟩
  read := by
    unfold instCodecDenomPair
    simp [Fields.required]

@[simp]
theorem PairRoutes.faithful (e : PairRoutes) : Faithful e where
  plain := ⟨(DenomPair.faithful _).plain, (faithful_list fun r _ => Route.faithful r).plain,
    trivial⟩
  read := by
    unfold instCodecPairRoutes
    simp [Fields.required]

@[simp]
theorem BaseDenom.faithful (b : BaseDenom) : Faithful b where
  plain := ⟨(Denom.faithful _).plain, (Amount.faithful _).plain, trivial⟩
  read := by
    unfold instCodecBaseDenom
    simp [Fields.required]

@[simp]
theorem PoolEntry.faithful (e : PoolEntry) : Faithful e where
  plain := ⟨(Denom.faithful _).plain, (Denom.faithful _).plain, (faithful_uint64 _).plain, trivial⟩
  read := by
    unfold instCodecPoolEntry
    simp [Fields.required]

@[simp]
theorem PointCounter.faithful (c : PointCounter) : Faithful c where
  plain := ⟨(faithful_uint64 _).plain, (faithful_uint64 _).plain, trivial⟩
  read := by
    unfold instCodecPointCounter
    simp [Fields.required]

/-! ## The configuration -/

/-- Weights are members named after their families, and each family has one at most. -/
@[simp]
theorem PoolWeights.faithful (w : PoolWeights) : Faithful w where
  plain := by
    obtain ⟨balancer, stable, concentrated⟩ := w
    show Json.PlainMembers _
    cases balancer <;> cases stable <;> cases concentrated <;>
      simp [PoolWeights.toList, PoolWeights.weight?, Json.PlainMembers, (faithful_uint64 _).plain]
  read := by
    obtain ⟨balancer, stable, concentrated⟩ := w
    show PoolWeights.ofMembers? .empty _ = _
    cases balancer <;> cases stable <;> cases concentrated <;>
      simp [PoolWeights.toList, PoolWeights.weight?, PoolWeights.ofMembers?, PoolType.ofText?,
        PoolType.text, PoolWeights.insert, PoolWeights.empty]

@[simp]
theorem SearchParams.faithful (p : SearchParams) : Faithful p where
  plain := ⟨(faithful_uint64 _).plain, (faithful_uint64 _).plain, (faithful_uint32 _).plain,
    (faithful_uint64 _).plain, trivial, trivial⟩
  read := by
    unfold instCodecSearchParams
    simp [Fields.required, Fields.withDefault]

end Backrun
