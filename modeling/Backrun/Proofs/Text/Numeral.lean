import Backrun.Text.Numeral

/-!
# Numerals read back

Writing is `Nat.toDigits`, possibly filled up with zeros on the left; reading takes
digits while they last.  Every reader here returns the number that was written,
whatever follows it, as long as that does not begin with another digit.
-/

namespace Backrun.Numeral

/-- Whether a run of digits ends in front of these characters. -/
def StopsDigits (cs : List Char) : Prop := ∀ c ∈ cs.head?, c.isDigit = false

@[simp]
theorem stopsDigits_nil : StopsDigits [] := by simp [StopsDigits]

@[simp]
theorem stopsDigits_cons {c : Char} {cs : List Char} :
    StopsDigits (c :: cs) ↔ c.isDigit = false := by
  simp [StopsDigits]

/-! ## Digits of a base -/

theorem digitIn?_digitChar_all :
    ∀ base, base ≤ 16 → ∀ d, d < base → digitIn? base d.digitChar = some d := by decide

theorem digitIn?_digitChar (base d : Nat) (hbase : base ≤ 16) (hd : d < base) :
    digitIn? base d.digitChar = some d :=
  digitIn?_digitChar_all base hbase d hd

theorem readFrom?_append {base value mid : Nat} {cs ds : List Char}
    (h : readFrom? base value cs = some mid) :
    readFrom? base value (cs ++ ds) = readFrom? base mid ds := by
  induction cs generalizing value with
  | nil =>
      simp only [readFrom?, Option.some.injEq] at h
      simp [h]
  | cons c cs ih =>
      cases hc : digitIn? base c with
      | none => simp [readFrom?, hc] at h
      | some d =>
          simp only [readFrom?, hc] at h
          simp only [List.cons_append, readFrom?, hc]
          exact ih h

/-- The digits of a base that a numeral has are read in that base. -/
theorem read?_toDigits {base : Nat} (hlow : 1 < base) (hhigh : base ≤ 16) (n : Nat) :
    read? base (Nat.toDigits base n) = some n := by
  -- All digits but the last one are the numeral of the quotient by the base.
  induction n using Nat.strongRecOn with
  | ind n ih =>
      rcases Nat.lt_or_ge n base with hn | hn
      · rw [Nat.toDigits_of_lt_base hn, read?, readFrom?, digitIn?_digitChar _ _ hhigh hn]
        simp [readFrom?]
      · have hpos : 0 < base := by omega
        have hrest := ih (n / base) (Nat.div_lt_self (by omega) hlow)
        rw [Nat.toDigits_of_base_le hlow hn, read?, readFrom?_append hrest, readFrom?,
          digitIn?_digitChar _ _ hhigh (Nat.mod_lt n hpos)]
        simp [readFrom?, Nat.div_add_mod]

theorem exists_digit_of_mem_toDigits {base n : Nat} (hlow : 1 < base) {c : Char}
    (h : c ∈ Nat.toDigits base n) : ∃ d, d < base ∧ c = d.digitChar := by
  induction n using Nat.strongRecOn with
  | ind n ih =>
      rcases Nat.lt_or_ge n base with hn | hn
      · rw [Nat.toDigits_of_lt_base hn, List.mem_singleton] at h
        exact ⟨n, hn, h⟩
      · rw [Nat.toDigits_of_base_le hlow hn, List.mem_append, List.mem_singleton] at h
        rcases h with h | h
        · exact ih (n / base) (Nat.div_lt_self (by omega) hlow) h
        · exact ⟨n % base, Nat.mod_lt n (by omega), h⟩

theorem digitChar_ne_underscore : ∀ d, d < 16 → d.digitChar ≠ '_' := by decide

/-! ## Decimal digits -/

theorem isDigit_of_mem_toDigits {n : Nat} {c : Char} (h : c ∈ Nat.toDigits 10 n) :
    c.isDigit = true :=
  Nat.isDigit_of_mem_toDigits (by decide) (by decide) h

/-- A numeral begins with a digit. -/
theorem exists_toDigits_cons (n : Nat) :
    ∃ d ds, Nat.toDigits 10 n = d :: ds ∧ d.isDigit = true := by
  cases hds : Nat.toDigits 10 n with
  | nil => exact absurd hds Nat.toDigits_ne_nil
  | cons d ds =>
      refine ⟨d, ds, rfl, isDigit_of_mem_toDigits (n := n) ?_⟩
      rw [hds]
      exact List.mem_cons_self

/-- A numeral does not begin with a zero unless it is one. -/
theorem toDigits_head_ne_zero {n : Nat} {cs : List Char} (h : Nat.toDigits 10 n = '0' :: cs) :
    cs = [] := by
  induction n using Nat.strongRecOn generalizing cs with
  | ind n ih =>
      rcases Nat.lt_or_ge n 10 with hn | hn
      · rw [Nat.toDigits_of_lt_base hn] at h
        exact (List.cons.inj h).2.symm
      · rw [Nat.toDigits_of_base_le (by decide) hn] at h
        obtain ⟨d, ds, hd, -⟩ := exists_toDigits_cons (n / 10)
        rw [hd, List.cons_append] at h
        obtain ⟨rfl, -⟩ := List.cons.inj h
        have hds := ih (n / 10) (by omega) hd
        subst hds
        -- The digits in front of the last one are a lone zero, but there are tens in the number.
        have hzero : Nat.ofDigitChars 10 (Nat.toDigits 10 (n / 10)) 0 = 0 := by
          rw [hd]
          rfl
        rw [Nat.ofDigitChars_ten_toDigits] at hzero
        omega

theorem takeWhile_isDigit_append {ds : List Char} (rest : List Char)
    (hds : ∀ c ∈ ds, c.isDigit = true) (hrest : StopsDigits rest) : (ds ++ rest).takeWhile Char.isDigit = ds := by
  rw [List.takeWhile_append_of_pos hds]
  cases rest with
  | nil => simp
  | cons c rest => simp [stopsDigits_cons.1 hrest]

theorem spanDigits_append {ds rest : List Char} (hds : ∀ c ∈ ds, c.isDigit = true)
    (hrest : StopsDigits rest) : spanDigits (ds ++ rest) = (ds, rest) := by
  have htake := takeWhile_isDigit_append rest hds hrest
  have hdrop : (ds ++ rest).dropWhile Char.isDigit = rest := by
    have hsplit := List.takeWhile_append_dropWhile (p := Char.isDigit) (l := ds ++ rest)
    rw [htake] at hsplit
    exact List.append_cancel_left hsplit
  rw [spanDigits, htake, hdrop]

/-! ## Numerals of a fixed width -/

@[simp]
theorem ofDigits_toDigits (n : Nat) : ofDigits (Nat.toDigits 10 n) = n :=
  Nat.ofDigitChars_ten_toDigits

@[simp]
theorem ofDigits_padded (width n : Nat) : ofDigits (padded width n) = n := by
  rw [ofDigits, padded, Nat.ofDigitChars_append, Nat.ofDigitChars_replicate_zero, Nat.mul_zero,
    Nat.ofDigitChars_ten_toDigits]

theorem length_padded {width n : Nat} (hwidth : 0 < width) (hn : n < Nat.pow 10 width) :
    (padded width n).length = width := by
  have hlen := (Nat.length_toDigits_le_iff (b := 10) (by decide) hwidth).2 hn
  rw [padded, List.length_append, List.length_replicate]
  omega

theorem isDigit_of_mem_padded (width n : Nat) {c : Char} (h : c ∈ padded width n) :
    c.isDigit = true := by
  rw [padded, List.mem_append] at h
  rcases h with h | h
  · rw [List.eq_of_mem_replicate h]
    decide
  · exact isDigit_of_mem_toDigits h

theorem padded_ne_nil (width n : Nat) : padded width n ≠ [] := by
  simp [padded, Nat.toDigits_ne_nil]

theorem exists_padded_cons (width n : Nat) :
    ∃ d ds, padded width n = d :: ds ∧ d.isDigit = true := by
  cases hds : padded width n with
  | nil => exact absurd hds (padded_ne_nil width n)
  | cons d ds =>
      refine ⟨d, ds, rfl, isDigit_of_mem_padded width n ?_⟩
      rw [hds]
      exact List.mem_cons_self

end Backrun.Numeral
