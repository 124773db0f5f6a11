import Backrun.Decimal
import Backrun.Proofs.Codec.Records

/-!
# Decimal fractions read back

A fraction is written with all its places, and reading it gathers the same coefficient
digit by digit.  A negative zero is the exception: it is read as the zero without sign, which
is what `settled` makes of it.
-/

namespace Backrun.Decimal

/-! ## Settled fractions -/

/-- The zero that is left of a negative fraction. -/
def SignedZero (d : Decimal) : Prop := d.negative = true ∧ d.coefficient = 0

/-- A fraction without the sign of its zero. -/
def settled (d : Decimal) : Decimal where
  negative := d.negative && d.coefficient != 0
  coefficient := d.coefficient
  places := d.places
  coefficient_lt := d.coefficient_lt
  places_le := d.places_le
  places_of_zero hnegative := d.places_of_zero (Bool.and_eq_true_iff.1 hnegative).1

theorem SignedZero.negative_settled {d : Decimal} (h : d.SignedZero) :
    d.settled.negative = false := by
  show (d.negative && d.coefficient != 0) = false
  rw [h.2]
  exact Bool.and_false _

/-- Only the sign of a zero is lost. -/
theorem settled_eq_self {d : Decimal} : d.settled = d ↔ ¬ d.SignedZero := by
  constructor
  · intro heq hzero
    have hsign := hzero.negative_settled
    rw [heq, hzero.1] at hsign
    exact Bool.noConfusion hsign
  · intro hzero
    have hsign : (d.negative && d.coefficient != 0) = d.negative := by
      cases hneg : d.negative with
      | false => rfl
      | true => exact bne_iff_ne.2 fun hcoefficient => hzero ⟨hneg, hcoefficient⟩
    obtain ⟨negative, coefficient, places, _, _, _⟩ := d
    simp only [settled, mk.injEq, and_true]
    exact hsign

theorem not_signedZero_settled (d : Decimal) : ¬ d.settled.SignedZero := by
  rintro ⟨hnegative, hzero⟩
  exact bne_iff_ne.1 (Bool.and_eq_true_iff.1 hnegative).2 hzero

/-- With fewer than all places there is no negative zero. -/
theorem not_signedZero_of_places {d : Decimal} (hplaces : d.places < 28) : ¬ d.SignedZero := by
  rintro ⟨hnegative, hzero⟩
  have := d.places_of_zero hnegative hzero
  omega

/-! ## Reading -/

theorem le_ofDigitChars (ds : List Char) (n : Nat) : n ≤ Nat.ofDigitChars 10 ds n := by
  rw [Nat.ofDigitChars_eq_ofDigitChars_zero]
  have hpow : 1 ≤ 10 ^ ds.length := Nat.one_le_pow _ _ (by decide)
  have hmul := Nat.mul_le_mul_right n hpow
  omega

/-- Before the point, digits are gathered as long as the coefficient has room for them. -/
theorem scan_whole {ds : List Char} (rest : List Char) {coefficient : Nat}
    (hdigits : ∀ c ∈ ds, c.isDigit = true) (hne : ds ≠ [])
    (hbound : Nat.ofDigitChars 10 ds coefficient < coefficientBound) (started : Bool) :
    scan coefficient 0 false started (ds ++ rest)
      = scan (Nat.ofDigitChars 10 ds coefficient) 0 false true rest := by
  induction ds generalizing coefficient started with
  | nil => exact absurd rfl hne
  | cons c ds ih =>
      have hc := hdigits c List.mem_cons_self
      rw [Nat.ofDigitChars_cons] at hbound ⊢
      have hroom := Nat.lt_of_le_of_lt (le_ofDigitChars ds _) hbound
      simp only [List.cons_append, scan, hc, if_true, Bool.false_and, Bool.false_eq_true, if_false,
        if_pos hroom]
      cases ds with
      | nil => rfl
      | cons c' ds =>
          exact ih (fun x hx => hdigits x (List.mem_cons_of_mem c hx)) (List.cons_ne_nil c' ds)
            hbound true

/-- Behind the point, each digit takes a place. -/
theorem scan_fraction {ds : List Char} (coefficient places : Nat)
    (hdigits : ∀ c ∈ ds, c.isDigit = true) (hplaces : places + ds.length ≤ 28)
    (hbound : Nat.ofDigitChars 10 ds coefficient < coefficientBound) :
    scan coefficient places true true ds
      = some (Nat.ofDigitChars 10 ds coefficient, places + ds.length) := by
  induction ds generalizing coefficient places with
  | nil => rfl
  | cons c ds ih =>
      have hc := hdigits c List.mem_cons_self
      rw [List.length_cons] at hplaces ⊢
      rw [Nat.ofDigitChars_cons] at hbound ⊢
      have hroom := Nat.lt_of_le_of_lt (le_ofDigitChars ds _) hbound
      have hplace : (places == mostPlaces) = false := by
        rw [beq_eq_false_iff_ne, mostPlaces]
        omega
      have htail := ih _ (places + 1) (fun x hx => hdigits x (List.mem_cons_of_mem c hx))
        (by omega) hbound
      simp only [scan, hc, if_true, hplace, Bool.and_false, Bool.false_eq_true, if_false,
        if_pos hroom]
      rw [htail]
      congr 2
      omega

theorem scan_point (coefficient : Nat) (cs : List Char) :
    scan coefficient 0 false true ('.' :: cs) = scan coefficient 0 true true cs := by
  simp [scan]

/-- Text with a fixed number of places is read as its coefficient and its places. -/
theorem scan_fixedPoint {coefficient places : Nat} (hbound : coefficient < coefficientBound)
    (hplaces : places ≤ 28) :
    scan 0 0 false false (Numeral.fixedPoint places coefficient) = some (coefficient, places) := by
  have hwhole : ∀ n, ∀ c ∈ Nat.toDigits 10 n, c.isDigit = true := fun n c hc =>
    Numeral.isDigit_of_mem_toDigits hc
  rw [Numeral.fixedPoint]
  -- Without places there is no point.
  split
  · subst places
    have hscan := scan_whole [] (hwhole coefficient) Nat.toDigits_ne_nil
      (by rwa [Nat.ofDigitChars_ten_toDigits]) false
    rw [List.append_nil, Nat.ofDigitChars_ten_toDigits] at hscan
    rw [hscan]
    rfl
  -- The quotient stands in front of the point and the remainder, with all its zeros, behind it.
  · rename_i hpos
    have hsplit := Nat.div_add_mod coefficient (Nat.pow 10 places)
    have hmod : coefficient % Nat.pow 10 places < Nat.pow 10 places :=
      Nat.mod_lt _ (Nat.pow_pos (by decide))
    have hlength := Numeral.length_padded (by omega) hmod
    have hvalue : Nat.ofDigitChars 10 (Numeral.padded places (coefficient % Nat.pow 10 places))
        (coefficient / Nat.pow 10 places) = coefficient := by
      rw [Nat.ofDigitChars_eq_ofDigitChars_zero, hlength]
      have hread := Numeral.ofDigits_padded places (coefficient % Nat.pow 10 places)
      rw [Numeral.ofDigits] at hread
      rw [hread]
      exact hsplit
    have hless : coefficient / Nat.pow 10 places < coefficientBound :=
      Nat.lt_of_le_of_lt (Nat.div_le_self _ _) hbound
    rw [scan_whole _ (hwhole _) Nat.toDigits_ne_nil (by rwa [Nat.ofDigitChars_ten_toDigits]) false,
      Nat.ofDigitChars_ten_toDigits, scan_point]
    have hfraction := scan_fraction (coefficient / Nat.pow 10 places) 0
      (fun c hc => Numeral.isDigit_of_mem_padded _ _ hc) (by rw [hlength]; omega)
      (by rw [hvalue]; exact hbound)
    rw [hfraction, hvalue, hlength, Nat.zero_add]

/-- The parts of a fraction make that fraction again, without the sign of a zero. -/
theorem ofParts?_self (d : Decimal) :
    ofParts? d.negative d.coefficient d.places = some d.settled := by
  rw [ofParts?, ofSigned?]
  exact dif_pos ⟨d.settled.coefficient_lt, d.settled.places_le, d.settled.places_of_zero⟩

theorem fixedPoint_head (places n : Nat) :
    ∃ c cs, Numeral.fixedPoint places n = c :: cs ∧ c.isDigit = true := by
  have hhead : ∀ m rest, ∃ c cs, Nat.toDigits 10 m ++ rest = c :: cs ∧ c.isDigit = true := by
    intro m rest
    obtain ⟨d, ds, hds, hd⟩ := Numeral.exists_toDigits_cons m
    exact ⟨d, ds ++ rest, by rw [hds, List.cons_append], hd⟩
  rw [Numeral.fixedPoint]
  split
  · simpa using hhead n []
  · exact hhead _ _

/-- Every fraction is read back from its text, without the sign of a zero. -/
theorem ofChars?_text (d : Decimal) : ofChars? d.text.toList = some d.settled := by
  have hscan := scan_fixedPoint d.coefficient_lt d.places_le
  have hparts := ofParts?_self d
  have hplain : ofPlain? d.text.toList = some d.settled := by
    obtain ⟨c, cs, hc, hdigit⟩ := fixedPoint_head d.places d.coefficient
    rw [text, String.toList_ofList]
    cases hneg : d.negative with
    | true =>
        rw [hneg] at hparts
        simp [ofPlain?, hscan, hparts]
    | false =>
        rw [hneg] at hparts
        -- A digit in front is neither of the signs.
        have hminus : ∀ tail, c :: cs = '-' :: tail → False := by
          rintro tail htail
          obtain ⟨rfl, -⟩ := List.cons.inj htail
          exact absurd hdigit (by decide)
        have hplus : ∀ tail, c :: cs = '+' :: tail → False := by
          rintro tail htail
          obtain ⟨rfl, -⟩ := List.cons.inj htail
          exact absurd hdigit (by decide)
        rw [hc] at hscan
        simp only [Bool.false_eq_true, if_false, hc, ofPlain?, hscan, hparts]
  rw [ofChars?, hplain]

/-! ## Writing -/

/-- The sign stands in front. -/
theorem head?_text (d : Decimal) : d.text.toList.head? = some '-' ↔ d.negative = true := by
  obtain ⟨c, cs, hc, hdigit⟩ := fixedPoint_head d.places d.coefficient
  rw [text, String.toList_ofList]
  cases d.negative with
  | true => exact ⟨fun _ => rfl, fun _ => rfl⟩
  | false =>
      refine ⟨fun hhead => ?_, nofun⟩
      simp only [Bool.false_eq_true, if_false, hc, List.head?_cons, Option.some.injEq] at hhead
      subst hhead
      exact absurd hdigit (by decide)

/-- Different fractions have different texts, a zero with a sign and the one without as well. -/
theorem text_injective {d e : Decimal} (h : d.text = e.text) : d = e := by
  have hsign : d.negative = e.negative := by
    rw [Bool.eq_iff_iff, ← head?_text, ← head?_text, h]
  have hsettled : d.settled = e.settled := by
    have hread := ofChars?_text d
    rw [h, ofChars?_text e] at hread
    exact (Option.some.inj hread).symm
  have hcoefficient : d.settled.coefficient = e.settled.coefficient := by rw [hsettled]
  have hplaces : d.settled.places = e.settled.places := by rw [hsettled]
  obtain ⟨_, _, _, _, _, _⟩ := d
  obtain ⟨_, _, _, _, _, _⟩ := e
  simp only [settled] at hsign hcoefficient hplaces
  subst hsign hcoefficient hplaces
  rfl

theorem settles : Codec.Settles Decimal settled where
  plain _ := trivial
  read := ofChars?_text
  injective heq := text_injective (Json.text.inj heq)

end Backrun.Decimal
