import Backrun.Json.Reader
import Backrun.Json.Writer
import Backrun.Proofs.Text.Numeral

/-!
# JSON read back

The reader gives back every value that records are written as.  `ofText?_render` is
for whole documents; `value_render` is its inductive form, with text behind the value
and with any fuel that covers the characters of the value.

Fractions, negative numbers and numbers beyond a 64-bit word are left out: no record
is written with them.
-/

namespace Backrun.Json

/-! ## What records are written as -/

mutual

/-- Whether a value holds no numbers but those of a 64-bit word. -/
def Plain : Json → Prop
  | .null | .bool _ | .text _ => True
  | .number (.integer (.ofNat n)) => n < UInt64.size
  | .number _ | .unreadable => False
  | .array vs => PlainItems vs
  | .object ms => PlainMembers ms

/-- Whether all items are plain. -/
def PlainItems : List Json → Prop
  | [] => True
  | v :: vs => Plain v ∧ PlainItems vs

/-- Whether the values of all members are plain. -/
def PlainMembers : List (String × Json) → Prop
  | [] => True
  | (_, v) :: ms => Plain v ∧ PlainMembers ms

end

/-- Whether a value is complete in front of these characters. -/
def Closes (rest : List Char) : Prop := ∀ c ∈ rest.head?, c = ',' ∨ c = ']' ∨ c = '}'

@[simp]
theorem closes_nil : Closes [] := by simp [Closes]

@[simp]
theorem closes_cons {c : Char} {rest : List Char} :
    Closes (c :: rest) ↔ c = ',' ∨ c = ']' ∨ c = '}' := by
  simp [Closes]

theorem Closes.stopsDigits {rest : List Char} (h : Closes rest) :
    Numeral.StopsDigits rest := by
  intro c hc
  rcases h c hc with rfl | rfl | rfl <;> rfl

/-! ## Strings -/

theorem hex4?_control {n : Nat} (h : n < 0x20) :
    hex4? '0' '0' (n / 16).digitChar (n % 16).digitChar = some n := by
  have hhigh := Numeral.digitIn?_digitChar 16 (n / 16) (by decide) (by omega)
  have hlow := Numeral.digitIn?_digitChar 16 (n % 16) (by decide) (by omega)
  have hzero : Numeral.digitIn? 16 '0' = some 0 := by decide
  simp only [hex4?, hhigh, hlow, hzero, Option.some.injEq]
  omega

/-- A control character is written with four digits, and the two that may follow in an
escape of their own make no surrogate pair of it. -/
theorem stringBody_control {c : Char} (hc : c.toNat < 0x20) (rest : List Char) :
    stringBody ('\\' :: 'u' :: '0' :: '0' :: (c.toNat / 16).digitChar
        :: (c.toNat % 16).digitChar :: rest) = consChar c (stringBody rest) := by
  have hhigh : isHigh c.toNat = false := by
    simp only [isHigh, Bool.and_eq_false_iff, decide_eq_false_iff_not]
    omega
  have hlow : isLow c.toNat = false := by
    simp only [isLow, Bool.and_eq_false_iff, decide_eq_false_iff_not]
    omega
  -- Only in front of another escape of this form does the reader look for a surrogate pair.
  by_cases hrest : ∃ a b d e tail, rest = '\\' :: 'u' :: a :: b :: d :: e :: tail
  · obtain ⟨a, b, d, e, tail, rfl⟩ := hrest
    simp [stringBody, hex4?_control hc, hhigh, hlow]
  · rw [stringBody.eq_4]
    · simp [hex4?_control hc, hhigh, hlow]
    · intro a b d e tail hrest'
      exact hrest ⟨a, b, d, e, tail, hrest'⟩

/-- A character without escape stands for itself. -/
theorem stringBody_plain {c : Char} (hquote : c ≠ '"') (hback : c ≠ '\\')
    (hcontrol : ¬ c.toNat < 0x20) (rest : List Char) :
    stringBody (c :: rest) = consChar c (stringBody rest) := by
  rw [stringBody.eq_6, if_neg hcontrol]
  all_goals simp_all

theorem stringBody_escape (c : Char) (rest : List Char) :
    stringBody (escape c ++ rest) = consChar c (stringBody rest) := by
  unfold escape
  split
  · subst_vars; simp [stringBody, escaped?]
  split
  · subst_vars; simp [stringBody, escaped?]
  split
  · subst_vars; simp [stringBody, escaped?]
  split
  · subst_vars; simp [stringBody, escaped?]
  split
  · subst_vars; simp [stringBody, escaped?]
  split
  · subst_vars; simp [stringBody, escaped?]
  split
  · subst_vars; simp [stringBody, escaped?]
  split
  · rename_i hcontrol
    exact stringBody_control hcontrol rest
  · rename_i hquote hback _ _ _ _ _ hcontrol
    exact stringBody_plain hquote hback hcontrol rest

/-- Every string is read back up to its closing quote. -/
theorem stringBody_escaped (cs rest : List Char) :
    stringBody (cs.flatMap escape ++ '"' :: rest) = some (some cs, rest) := by
  induction cs with
  | nil => simp [stringBody]
  | cons c cs ih =>
      rw [List.flatMap_cons, List.append_assoc, stringBody_escape, ih]
      rfl

/-! ## Numbers -/

theorem fractionPart_closes {rest : List Char} (h : Closes rest) :
    fractionPart rest = some (none, rest) := by
  cases rest with
  | nil => rfl
  | cons c rest => rcases closes_cons.1 h with rfl | rfl | rfl <;> simp [fractionPart]

theorem exponentPart_closes {rest : List Char} (h : Closes rest) :
    exponentPart rest = some (none, rest) := by
  cases rest with
  | nil => rfl
  | cons c rest => rcases closes_cons.1 h with rfl | rfl | rfl <;> simp [exponentPart]

/-- The digits of a number are its numeral, in front of whatever closes a value. -/
theorem numeral_toDigits (n : Nat) {rest : List Char} (h : Closes rest) :
    numeral (Nat.toDigits 10 n ++ rest)
      = some (⟨false, Nat.toDigits 10 n, none, none⟩, rest) := by
  have hdigits : ∀ c ∈ Nat.toDigits 10 n, c.isDigit = true :=
    fun c hc => Numeral.isDigit_of_mem_toDigits hc
  have hspan := Numeral.spanDigits_append hdigits h.stopsDigits
  obtain ⟨d, ds, hds, hd⟩ := Numeral.exists_toDigits_cons n
  have hsign : d ≠ '-' := by
    rintro rfl
    exact absurd hd (by decide)
  have hzero : ∀ e es, d :: ds ≠ '0' :: e :: es := by
    intro e es heq
    rw [heq] at hds
    exact absurd (Numeral.toDigits_head_ne_zero hds) (List.cons_ne_nil e es)
  rw [hds, List.cons_append] at hspan
  rw [hds, List.cons_append, numeral.eq_2 _ (by simpa using hsign), unsignedNumeral, hspan]
  -- The reader turns away a numeral without digits and one with a zero too many in front.
  split
  · rename_i hnone
    exact absurd (Prod.mk.inj hnone).1 (List.cons_ne_nil d ds)
  · rename_i hlead
    exact absurd (Prod.mk.inj hlead).1 (hzero _ _)
  · rename_i hparts
    obtain ⟨rfl, rfl⟩ := Prod.mk.inj hparts
    simp only [fractionPart_closes h, exponentPart_closes h]

theorem value_plainNumber {n : Nat} (h : n < UInt64.size) :
    (Numeral.mk false (Nat.toDigits 10 n) none none).value = .number (.integer (.ofNat n)) := by
  simp [Numeral.value, h]

/-! ## Values -/

theorem skipSpace_cons {c : Char} {cs : List Char} (h : isSpace c = false) :
    skipSpace (c :: cs) = c :: cs := by
  simp [skipSpace, h]

theorem space_comma : isSpace ',' = false := by decide

/-- A plain value does not begin with a blank or a closing bracket. -/
theorem render_head {j : Json} (hj : Plain j) :
    ∃ c cs, render j = c :: cs ∧ isSpace c = false ∧ c ≠ ']' := by
  cases j with
  | bool b => cases b <;> exact ⟨_, _, rfl, rfl, by decide⟩
  | number n =>
      cases n with
      | real negative x => exact hj.elim
      | integer z =>
          cases z with
          | negSucc n => exact hj.elim
          | ofNat n =>
              obtain ⟨d, ds, hds, hd⟩ := Numeral.exists_toDigits_cons n
              refine ⟨d, ds, hds, ?_, ?_⟩
              · simp only [isSpace, Bool.or_eq_false_iff, beq_eq_false_iff_ne]
                refine ⟨⟨⟨?_, ?_⟩, ?_⟩, ?_⟩ <;> rintro rfl <;> exact absurd hd (by decide)
              · rintro rfl
                exact absurd hd (by decide)
  | unreadable => exact hj.elim
  | _ => exact ⟨_, _, rfl, rfl, by decide⟩

theorem skipSpace_render {j : Json} (hj : Plain j) (rest : List Char) :
    skipSpace (render j ++ rest) = render j ++ rest := by
  obtain ⟨c, cs, hc, hspace, -⟩ := render_head hj
  rw [hc, List.cons_append, skipSpace_cons hspace]

theorem render_length_pos {j : Json} (hj : Plain j) : 0 < (render j).length := by
  obtain ⟨c, cs, hc, -⟩ := render_head hj
  simp [hc]

/-- Digits are no other value than a number. -/
theorem value_toDigits (fuel n : Nat) (hn : n < UInt64.size) {rest : List Char}
    (hrest : Closes rest) :
    value (fuel + 1) (Nat.toDigits 10 n ++ rest) = some (.number (.integer (.ofNat n)), rest) := by
  have hread := numeral_toDigits n hrest
  obtain ⟨d, ds, hds, hd⟩ := Numeral.exists_toDigits_cons n
  have hskip := skipSpace_render (j := .number (.integer (.ofNat n))) hn rest
  rw [show render (.number (.integer (.ofNat n))) = Nat.toDigits 10 n from rfl, hds] at hskip
  rw [hds, value, hskip]
  -- Every other value begins with a character that is no digit.
  split
  case h_7 => rw [← hds, hread]; simp [value_plainNumber hn]
  all_goals
    rename_i hhead
    obtain ⟨rfl, -⟩ := List.cons.inj hhead
    exact absurd hd (by decide)

theorem value_array {fuel : Nat} {cs rest : List Char} {vs : List Json}
    (hskip : skipSpace cs = cs) (hclose : ∀ tail, cs ≠ ']' :: tail)
    (h : items fuel cs = some (vs, rest)) :
    value (fuel + 1) ('[' :: cs) = some (.array vs, rest) := by
  rw [value, skipSpace_cons (by decide)]
  simp only [hskip, h]

theorem value_object {fuel : Nat} {cs rest : List Char}
    {ms : List (Option (List Char) × Json)} (hskip : skipSpace cs = cs)
    (hclose : ∀ tail, cs ≠ '}' :: tail) (h : members fuel cs = some (ms, rest)) :
    value (fuel + 1) ('{' :: cs) = some (ofMembers ms, rest) := by
  rw [value, skipSpace_cons (by decide)]
  simp only [hskip, h]

/-- Names that can be read make an object. -/
theorem ofMembers_named (ms : List (String × Json)) :
    ofMembers (ms.map fun m => (some m.1.toList, m.2)) = .object ms := by
  simp [ofMembers, Function.comp_def]

mutual

/-- A plain value is read back in front of whatever closes it. -/
theorem value_render (j : Json) (hj : Plain j) (fuel : Nat) (rest : List Char)
    (hfuel : (render j).length ≤ fuel) (hrest : Closes rest) :
    value fuel (render j ++ rest) = some (j, rest) := by
  have hpos := render_length_pos hj
  -- The first character pays for the value itself, the others for its parts.
  cases fuel with
  | zero => omega
  | succ fuel =>
      cases j with
      | null => simp [render, value, skipSpace, isSpace]
      | bool b => cases b <;> simp [render, value, skipSpace, isSpace]
      | number n =>
          cases n with
          | real negative x => exact hj.elim
          | integer z =>
              cases z with
              | negSucc n => exact hj.elim
              | ofNat n => exact value_toDigits fuel n hj hrest
      | text s =>
          simp [render, renderString, value, skipSpace, isSpace, stringBody_escaped, ofChars]
      | array vs =>
          cases vs with
          | nil => simp [render, renderItems, value, skipSpace, isSpace]
          | cons v vs =>
              have hv : Plain v := hj.1
              have hitems := items_render v vs hv hj.2 fuel rest (by
                simpa [render, renderItems] using hfuel)
              obtain ⟨c, cs, hc, hspace, hclose⟩ := render_head hv
              rw [render, renderItems, List.cons_append]
              refine value_array ?_ ?_ hitems
              · rw [List.append_assoc, skipSpace_render hv]
              · intro tail htail
                rw [hc] at htail
                exact hclose (List.cons.inj htail).1
      | object ms =>
          cases ms with
          | nil => simp [render, renderMembers, value, skipSpace, isSpace]
          | cons m ms =>
              obtain ⟨name, v⟩ := m
              have hmembers := members_render name v ms hj.1 hj.2 fuel rest (by
                simpa [render, renderMembers] using hfuel)
              rw [render, renderMembers, List.cons_append, ← ofMembers_named]
              refine value_object ?_ ?_ hmembers
              · rfl
              · intro tail htail
                exact absurd (List.cons.inj htail).1 (by decide)
      | unreadable => exact hj.elim
termination_by fuel

/-- Items are read back up to the closing bracket. -/
theorem items_render (v : Json) (vs : List Json) (hv : Plain v) (hvs : PlainItems vs) (fuel : Nat)
    (rest : List Char) (hfuel : (render v ++ renderMoreItems vs).length ≤ fuel) :
    items fuel (render v ++ renderMoreItems vs ++ rest) = some (v :: vs, rest) := by
  have hpos := render_length_pos hv
  rw [List.length_append] at hfuel
  cases fuel with
  | zero => omega
  | succ fuel =>
      -- Behind the last item is the bracket, behind any other one a comma.
      cases vs with
      | nil =>
          rw [renderMoreItems, List.length_singleton] at hfuel
          rw [renderMoreItems, List.append_assoc, List.singleton_append, items,
            value_render v hv fuel (']' :: rest) (by omega) (by simp)]
          simp [skipSpace, isSpace]
      | cons w ws =>
          rw [renderMoreItems, List.length_cons] at hfuel
          have hw := items_render w ws hvs.1 hvs.2 fuel rest (by omega)
          rw [renderMoreItems, List.append_assoc, List.cons_append, items,
            value_render v hv fuel _ (by omega) (by simp)]
          simp only [skipSpace_cons space_comma, hw]
termination_by fuel

/-- Members are read back up to the closing brace. -/
theorem members_render (name : String) (v : Json) (ms : List (String × Json)) (hv : Plain v)
    (hms : PlainMembers ms) (fuel : Nat) (rest : List Char)
    (hfuel : (renderString name ++ ':' :: (render v ++ renderMoreMembers ms)).length ≤ fuel) :
    members fuel (renderString name ++ ':' :: (render v ++ renderMoreMembers ms) ++ rest)
      = some (((name, v) :: ms).map fun m => (some m.1.toList, m.2), rest) := by
  have hpos := render_length_pos hv
  simp only [renderString, List.length_append, List.length_cons] at hfuel
  cases fuel with
  | zero => omega
  | succ fuel =>
      simp only [renderString, List.append_assoc, List.cons_append, List.nil_append]
      cases ms with
      | nil =>
          simp only [renderMoreMembers, List.length_singleton, List.singleton_append] at hfuel ⊢
          rw [members, skipSpace_cons (by decide)]
          simp only [stringBody_escaped]
          rw [skipSpace_cons (by decide)]
          simp only []
          rw [value_render v hv fuel ('}' :: rest) (by omega) (by simp)]
          simp [skipSpace, isSpace]
      | cons m ms =>
          obtain ⟨name', w⟩ := m
          simp only [renderMoreMembers, List.length_cons, List.cons_append] at hfuel ⊢
          have hw := members_render name' w ms hms.1 hms.2 fuel rest (by omega)
          rw [members, skipSpace_cons (by decide)]
          simp only [stringBody_escaped]
          rw [skipSpace_cons (by decide)]
          simp only []
          rw [value_render v hv fuel _ (by omega) (by simp)]
          simp only [skipSpace_cons space_comma, hw, List.map_cons]
termination_by fuel

end

/-- A document that was written is read back. -/
theorem ofText?_render {j : Json} (hj : Plain j) : ofText? (render j) = some j := by
  have h := value_render j hj (2 * (render j).length + 2) [] (by omega) (by simp)
  rw [List.append_nil] at h
  simp [ofText?, h, skipSpace]

end Backrun.Json
