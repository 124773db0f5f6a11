import Backrun.Instant.Text
import Backrun.Proofs.Codec.Records
import Backrun.Proofs.Instant.Calendar

/-!
# Instants read back

Every instant comes back from its text, with its nanoseconds and with a leap second
as the sixtieth of its minute.  Each part of the text is read back on its own, in
front of whatever the next part begins with.
-/

namespace Backrun.Instant

/-! ## Numbers -/

theorem isBlank_of_isDigit {c : Char} (h : c.isDigit = true) : Text.isBlank c = false := by
  simp only [Char.isDigit, Bool.and_eq_true, decide_eq_true_eq] at h
  have hlow : 48 ≤ c.toNat := h.1
  have hhigh : c.toNat ≤ 57 := h.2
  simp only [Text.isBlank, Bool.or_eq_false_iff, Bool.and_eq_false_iff, decide_eq_false_iff_not,
    beq_eq_false_iff_ne]
  omega

theorem trimStart_cons {c : Char} {cs : List Char} (h : Text.isBlank c = false) :
    Text.trimStart (c :: cs) = c :: cs := by
  simp [Text.trimStart, h]

theorem trimStart_padded (width n : Nat) (rest : List Char) :
    Text.trimStart (Numeral.padded width n ++ rest) = Numeral.padded width n ++ rest := by
  obtain ⟨d, ds, hds, hd⟩ := Numeral.exists_padded_cons width n
  rw [hds]
  exact trimStart_cons (isBlank_of_isDigit hd)

/-- A number of a fixed width is read up to that width, whatever follows it. -/
theorem shortNumber_padded (width n : Nat) (hwidth : 0 < width) (hn : n < Nat.pow 10 width)
    (rest : List Char) :
    shortNumber width (Numeral.padded width n ++ rest) = some (n, rest) := by
  have hlength := Numeral.length_padded hwidth hn
  have htake : (Numeral.padded width n ++ rest).take width = Numeral.padded width n := by
    rw [List.take_append_of_le_length (Nat.le_of_eq hlength.symm), List.take_of_length_le
      (Nat.le_of_eq hlength)]
  have hdigits : (Numeral.padded width n).takeWhile Char.isDigit = Numeral.padded width n := by
    have h := Numeral.takeWhile_isDigit_append []
      (fun c hc => Numeral.isDigit_of_mem_padded width n hc) (by simp)
    rwa [List.append_nil] at h
  simp only [shortNumber, trimStart_padded, htake, hdigits]
  rw [if_neg (by simp [Numeral.padded_ne_nil]), Numeral.ofDigits_padded,
    List.drop_append_of_le_length (Nat.le_refl _), List.drop_length, List.nil_append]

theorem longNumber_padded (width n : Nat) {rest : List Char} (hrest : Numeral.StopsDigits rest) :
    longNumber (Numeral.padded width n ++ rest) = some (n, rest) := by
  have hspan := Numeral.spanDigits_append
    (fun c hc => Numeral.isDigit_of_mem_padded width n hc) hrest
  rw [longNumber, hspan]
  split
  · rename_i hnone
    exact absurd (Prod.mk.inj hnone).1 (Numeral.padded_ne_nil width n)
  · rename_i hparts
    obtain ⟨rfl, rfl⟩ := Prod.mk.inj hparts
    rw [Numeral.ofDigits_padded]

theorem separator_cons {c : Char} (h : Text.isBlank c = false) (rest : List Char) :
    separator c (c :: rest) = some rest := by
  simp [separator, trimStart_cons h]

/-! ## Dates -/

/-- A year is read in front of the dash behind it. -/
theorem year_yearText (y : Int) (rest : List Char) :
    year (yearText y ++ '-' :: rest) = some (y, '-' :: rest) := by
  have hdash : Numeral.StopsDigits ('-' :: rest) := by simp
  unfold yearText
  -- Years of up to four digits are written without a sign, and others with one.
  split
  · rename_i hy
    have hfour : y.toNat < 10000 := by omega
    have hread := shortNumber_padded 4 y.toNat (by decide) hfour ('-' :: rest)
    obtain ⟨d, ds, hds, hd⟩ := Numeral.exists_padded_cons 4 y.toNat
    rw [year, trimStart_padded, hds]
    rw [hds] at hread
    split
    · rename_i hsign
      obtain ⟨rfl, -⟩ := List.cons.inj hsign
      exact absurd hd (by decide)
    · rename_i hsign
      obtain ⟨rfl, -⟩ := List.cons.inj hsign
      exact absurd hd (by decide)
    · rw [hread, Option.map_some, Int.toNat_of_nonneg hy.1]
  · rename_i hy
    have hread := longNumber_padded 4 y.natAbs hdash
    split
    · rename_i hneg
      rw [year, List.cons_append, trimStart_cons (by decide)]
      simp only [hread, Option.map_some, Option.some.injEq, Prod.mk.injEq, and_true]
      omega
    · rename_i hpos
      rw [year, List.cons_append, trimStart_cons (by decide)]
      simp only [hread, Option.map_some, Option.some.injEq, Prod.mk.injEq, and_true]
      omega

/-- The text of a date. -/
def dateText (d : Date) : List Char :=
  yearText d.year ++ '-' :: (Numeral.padded 2 d.month ++ '-' :: Numeral.padded 2 d.day)

theorem date_dateText {d : Date} (hmonth : d.month < 100) (hday : d.day < 100)
    (rest : List Char) : date (dateText d ++ rest) = some (d, rest) := by
  have hdash : Text.isBlank '-' = false := by decide
  simp [date, dateText, year_yearText, separator_cons hdash,
    shortNumber_padded 2 _ (by decide) hmonth,
    shortNumber_padded 2 _ (by decide) hday]

/-! ## Times of day -/

theorem fraction_point {width n : Nat} (hwidth : 0 < width) (hn : n < Nat.pow 10 width)
    (hnine : width ≤ 9) {rest : List Char} (hrest : Numeral.StopsDigits rest) :
    fraction ('.' :: (Numeral.padded width n ++ rest)) = some (n * Nat.pow 10 (9 - width), rest) := by
  have hlength := Numeral.length_padded hwidth hn
  have hspan := Numeral.spanDigits_append
    (fun c hc => Numeral.isDigit_of_mem_padded width n hc) hrest
  rw [fraction, hspan]
  split
  · rename_i hnone
    exact absurd (Prod.mk.inj hnone).1 (Numeral.padded_ne_nil width n)
  · rename_i hparts
    obtain ⟨rfl, rfl⟩ := Prod.mk.inj hparts
    rw [List.take_of_length_le (by omega)]
    simp only [Numeral.ofDigits_padded, hlength]

/-- The fewest digits that keep the nanoseconds give them back. -/
theorem fraction_fractionText (nanos : Nat) (hnanos : nanos < nanosPerSecond) (rest : List Char) :
    fraction (fractionText nanos ++ 'Z' :: rest) = some (nanos, 'Z' :: rest) := by
  have hstop : Numeral.StopsDigits ('Z' :: rest) := by simp
  rw [nanosPerSecond] at hnanos
  unfold fractionText
  split
  · subst nanos
    rfl
  split
  · have hthree : nanos / 1000000 < 1000 := by omega
    rw [List.cons_append, fraction_point (by decide) hthree (by decide) hstop]
    simp only [Option.some.injEq, Prod.mk.injEq, and_true]
    show nanos / 1000000 * 1000000 = nanos
    omega
  split
  · have hsix : nanos / 1000 < 1000000 := by omega
    rw [List.cons_append, fraction_point (by decide) hsix (by decide) hstop]
    simp only [Option.some.injEq, Prod.mk.injEq, and_true]
    show nanos / 1000 * 1000 = nanos
    omega
  · rw [List.cons_append, fraction_point (by decide) hnanos (by decide) hstop]
    simp only [Option.some.injEq, Prod.mk.injEq, and_true]
    show nanos * 1 = nanos
    omega

/-- The text of a time of day, a leap second as the sixtieth of its minute. -/
def timeText (second nanos : Nat) : List Char :=
  Numeral.padded 2 (second / 3600) ++ ':' ::
    (Numeral.padded 2 (second / 60 % 60) ++ ':' ::
      (Numeral.padded 2 (second % 60 + nanos / nanosPerSecond)
        ++ fractionText (nanos % nanosPerSecond)))

/-- Nanoseconds are those of the second itself, or those of the leap second behind it. -/
theorem nanos_cases {second nanos : Nat} (h : nanosAllowed second nanos = true) :
    (nanos / nanosPerSecond = 0 ∧ nanos % nanosPerSecond = nanos)
      ∨ (nanos / nanosPerSecond = 1 ∧ nanosPerSecond + nanos % nanosPerSecond = nanos
        ∧ second % 60 = 59) := by
  simp only [nanosAllowed, Bool.or_eq_true, Bool.and_eq_true, decide_eq_true_eq,
    beq_iff_eq] at h
  simp only [nanosPerSecond] at h ⊢
  omega

theorem timeOfDay_timeText {second nanos : Nat} (hsecond : second < 86400)
    (hnanos : nanosAllowed second nanos = true) (rest : List Char) :
    timeOfDay (timeText second nanos ++ 'Z' :: rest) = some (second, nanos, 'Z' :: rest) := by
  have hcolon : Text.isBlank ':' = false := by decide
  -- A leap second counts as the sixtieth, and its nanoseconds from there on.
  have hcases := nanos_cases hnanos
  have hfraction := fraction_fractionText (nanos % nanosPerSecond)
    (Nat.mod_lt _ (by decide)) rest
  have hhour := shortNumber_padded 2 (second / 3600) (by decide)
    (show second / 3600 < 100 by omega)
  have hminute := shortNumber_padded 2 (second / 60 % 60) (by decide)
    (show second / 60 % 60 < 100 by omega)
  have hrest := shortNumber_padded 2 (second % 60 + nanos / nanosPerSecond) (by decide)
    (show second % 60 + nanos / nanosPerSecond < 100 by omega)
  simp only [timeOfDay, timeText, List.append_assoc, List.cons_append, hhour, hminute, hrest,
    hfraction, separator_cons hcolon, Option.bind_eq_bind, Option.bind_some]
  rw [if_pos (by omega)]
  split
  · simp only [Option.pure_def, Option.some.injEq, Prod.mk.injEq, and_true]
    omega
  · simp only [Option.pure_def, Option.some.injEq, Prod.mk.injEq, and_true]
    omega

/-! ## Instants -/

theorem chars_eq (t : Instant) :
    t.chars = dateText (Date.ofDays t.day) ++ 'T' :: (timeText t.second t.nanos ++ ['Z']) := by
  simp [chars, dateText, timeText]

theorem ofParts?_self (t : Instant) : ofParts? t.day t.second t.nanos = some t := by
  rw [ofParts?, dif_pos ⟨t.day_ge, t.day_le, t.second_lt, t.nanos_allowed⟩]

/-- Every instant is read back from its text. -/
theorem ofChars?_chars (t : Instant) : ofChars? t.chars = some t := by
  have hvalid := Date.isValid_ofDays t.day_ge t.day_le
  obtain ⟨-, hmonth, hday⟩ := Date.isValid_iff.1 hvalid
  have hlength := Date.monthLength_le (Date.ofDays t.day).year (Date.ofDays t.day).month
  have hdate := date_dateText (d := Date.ofDays t.day) (by omega) (by omega)
  have htime := timeOfDay_timeText t.second_lt t.nanos_allowed []
  have hoffset : offset ['Z'] = some (0, []) := by decide
  -- The offset is none, so that days and seconds can be told apart again.
  have htotal : (Date.ofDays t.day).toDays * (secondsPerDay : Int) + t.second - 0
      = t.day * 86400 + t.second := by
    rw [Date.toDays_ofDays, secondsPerDay]
    omega
  have hsecond := t.second_lt
  have hquot : (t.day * 86400 + (t.second : Int)) / (secondsPerDay : Int) = t.day := by
    rw [secondsPerDay]
    omega
  have hrem : ((t.day * 86400 + (t.second : Int)) % (secondsPerDay : Int)).toNat = t.second := by
    rw [secondsPerDay]
    omega
  rw [chars_eq, ofChars?, hdate]
  simp only [htime, hoffset]
  rw [if_pos (by decide), if_pos (by simp [hvalid, Text.trimStart]; decide), htotal, hquot, hrem,
    ofParts?_self]

theorem faithful (t : Instant) : Codec.Faithful t where
  plain := trivial
  read := by
    show ofChars? (String.ofList t.chars).toList = some t
    rw [String.toList_ofList, ofChars?_chars]

end Backrun.Instant
