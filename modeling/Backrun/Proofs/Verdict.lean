import Backrun.Error
import Mathlib.Data.List.Nodup

/-!
# Checks in sequence

A verdict accepts or names a fault.  The lemmas here say what an accepting sequence of
checks has checked, so that validators can be stated by what they accept.
-/

namespace Backrun.Verdict

variable {ε φ α β : Type}

@[simp]
theorem bind_ok {x : Except ε α} {f : α → Except ε β} {b : β} :
    (x >>= f) = .ok b ↔ ∃ a, x = .ok a ∧ f a = .ok b := by
  cases x with
  | error e => simp [bind, Except.bind]
  | ok a => simp [bind, Except.bind]

/-- A check behind another one is made if that one accepts. -/
theorem then_ok {x : Except ε Unit} {f : Unit → Except ε β} {b : β} :
    (x >>= f) = .ok b ↔ x = .ok () ∧ f () = .ok b := by
  rw [bind_ok]
  exact ⟨fun ⟨_, hx, h⟩ => ⟨hx, h⟩, fun ⟨hx, h⟩ => ⟨(), hx, h⟩⟩

@[simp]
theorem pure_ok {a b : α} : (pure a : Except ε α) = .ok b ↔ a = b := by simp [pure, Except.pure]

@[simp]
theorem throw_ok {e : ε} {a : α} : (throw e : Except ε α) = .ok a ↔ False := by
  simp [throw, throwThe, MonadExceptOf.throw]

@[simp]
theorem mapError_ok {x : Except ε α} {f : ε → φ} {a : α} :
    x.mapError f = .ok a ↔ x = .ok a := by
  cases x with
  | error e => exact ⟨nofun, nofun⟩
  | ok b =>
      exact ⟨fun h => congrArg Except.ok (Except.ok.inj h),
        fun h => congrArg Except.ok (Except.ok.inj h)⟩

theorem mapError_error {x : Except ε α} {f : ε → φ} {fault : φ} :
    x.mapError f = .error fault ↔ ∃ e, x = .error e ∧ fault = f e := by
  cases x with
  | error e =>
      constructor
      · exact fun h => ⟨e, rfl, (Except.error.inj h).symm⟩
      · rintro ⟨_, he, rfl⟩
        rw [Except.error.inj he]
        rfl
  | ok b => exact ⟨nofun, fun ⟨_, h, _⟩ => absurd h nofun⟩

/-- There is one way to accept without an answer. -/
@[simp]
theorem exists_ok {x : Except ε Unit} : (∃ u, x = .ok u) ↔ x = .ok () :=
  ⟨fun ⟨_, h⟩ => h, fun h => ⟨(), h⟩⟩

/-- A rejection accepts exactly where its condition fails. -/
@[simp]
theorem reject_ok {c : Prop} [Decidable c] {e : ε} {rest : Except ε α} {a : α} :
    (if c then .error e else rest) = .ok a ↔ ¬ c ∧ rest = .ok a := by
  by_cases h : c <;> simp [h]

@[simp]
theorem throw_else_ok {c : Prop} [Decidable c] {e : ε} {rest : Except ε α} {a : α} :
    (if c then throw e else rest) = .ok a ↔ ¬ c ∧ rest = .ok a := by
  by_cases h : c <;> simp [h]

@[simp]
theorem throw_bind {e : ε} {f : α → Except ε β} : (throw e >>= f : Except ε β) = throw e := rfl

/-- A list is accepted if each of its members is. -/
@[simp]
theorem forM_ok {xs : List α} {g : α → Except ε Unit} :
    xs.forM g = .ok () ↔ ∀ x ∈ xs, g x = .ok () := by
  induction xs with
  | nil => simp [pure, Except.pure]
  | cons x xs ih =>
      have hcons : (x :: xs).forM g = g x >>= fun _ => xs.forM g := rfl
      rw [hcons, bind_ok, List.forall_mem_cons, ← ih]
      constructor
      · rintro ⟨_, hx, hxs⟩
        exact ⟨hx, hxs⟩
      · rintro ⟨hx, hxs⟩
        exact ⟨(), hx, hxs⟩

/-! ## Walks that remember what they have seen -/

/-- The members of a list have different keys, none of which was seen before. -/
def Unseen (key : α → β) (seen : List β) (xs : List α) : Prop :=
  (∀ x ∈ xs, key x ∉ seen) ∧ (xs.map key).Nodup

theorem unseen_nil (key : α → β) (seen : List β) : Unseen key seen [] := ⟨nofun, List.nodup_nil⟩

/-- A walk looks at one key at a time and has seen it from then on. -/
theorem unseen_cons {key : α → β} {seen : List β} {x : α} {xs : List α} :
    Unseen key seen (x :: xs) ↔ key x ∉ seen ∧ Unseen key (key x :: seen) xs := by
  rw [Unseen, Unseen, List.forall_mem_cons, List.map_cons, List.nodup_cons]
  constructor
  · rintro ⟨⟨hx, hxs⟩, hnew, hnodup⟩
    refine ⟨hx, fun y hy hmem => ?_, hnodup⟩
    rcases List.mem_cons.1 hmem with heq | hseen
    · exact hnew (List.mem_map.2 ⟨y, hy, heq⟩)
    · exact hxs y hy hseen
  · rintro ⟨hx, hxs, hnodup⟩
    refine ⟨⟨hx, fun y hy hseen => hxs y hy (List.mem_cons_of_mem (key x) hseen)⟩, ?_, hnodup⟩
    intro hmem
    obtain ⟨y, hy, heq⟩ := List.mem_map.1 hmem
    exact hxs y hy (List.mem_cons.2 (.inl heq))

theorem unseen_nothing {key : α → β} {xs : List α} : Unseen key [] xs ↔ (xs.map key).Nodup :=
  ⟨fun h => h.2, fun h => ⟨fun _ _ => List.not_mem_nil, h⟩⟩

end Backrun.Verdict
