import Mathlib.Data.List.Basic

/-! Fallible computations in `Except`, written as a sequence of checks, and the inversion of such a
sequence: a computation succeeds exactly when each of its steps does. -/

namespace KeyReader.Checked

variable {ε α β : Type}

/-- Goes on when `condition` holds, and otherwise fails with `error`. -/
def ensure (condition : Prop) [Decidable condition] (error : ε) : Except ε Unit :=
  if condition then .ok () else .error error

/-- `Option::ok_or`. -/
def okOr (value : Option α) (error : ε) : Except ε α :=
  match value with
  | some a => .ok a
  | none => .error error

variable {condition : Prop} {error : ε}

@[simp] theorem ensure_eq_ok [Decidable condition] {u : Unit} :
    ensure condition error = .ok u ↔ condition := by
  unfold ensure
  split <;> simp_all

@[simp] theorem ensure_eq_error [Decidable condition] {error' : ε} :
    ensure condition error = .error error' ↔ ¬condition ∧ error = error' := by
  unfold ensure
  split <;> simp_all

@[simp] theorem okOr_eq_ok {value : Option α} {a : α} :
    okOr value error = .ok a ↔ value = some a := by
  cases value <;> simp [okOr]

variable {b : β} {x : Except ε α}

theorem exists_of_isOk (h : x.isOk = true) : ∃ a, x = .ok a := by
  cases x with
  | error e => cases h
  | ok a => exact ⟨a, rfl⟩

theorem bind_eq_ok {f : α → Except ε β} : (x >>= f) = .ok b ↔ ∃ a, x = .ok a ∧ f a = .ok b := by
  cases x <;> simp [bind, Except.bind]

theorem bind_eq_error {f : α → Except ε β} {e : ε} :
    (x >>= f) = .error e ↔ x = .error e ∨ ∃ a, x = .ok a ∧ f a = .error e := by
  cases x <;> simp [bind, Except.bind]

@[simp] theorem ok_bind (a : α) (f : α → Except ε β) : (Except.ok a >>= f) = f a := rfl

@[simp] theorem error_bind (e : ε) (f : α → Except ε β) :
    ((Except.error e : Except ε α) >>= f) = .error e := rfl

@[simp] theorem mapError_eq_ok {ε' : Type} {f : ε → ε'} {a : α} :
    x.mapError f = .ok a ↔ x = .ok a := by
  cases x with
  | error e => constructor <;> intro h <;> cases h
  | ok b => constructor <;> exact fun h => congrArg Except.ok (Except.ok.inj h)

theorem unit_bind_eq_ok {x : Except ε Unit} {f : Unit → Except ε β} :
    (x >>= f) = .ok b ↔ x = .ok () ∧ f () = .ok b := by
  rw [bind_eq_ok]
  exact ⟨fun ⟨(), hx, hf⟩ => ⟨hx, hf⟩, fun ⟨hx, hf⟩ => ⟨(), hx, hf⟩⟩

theorem ensure_bind_eq_ok [Decidable condition] {f : Unit → Except ε β} :
    (ensure condition error >>= f) = .ok b ↔ condition ∧ f () = .ok b := by
  rw [unit_bind_eq_ok, ensure_eq_ok]

end KeyReader.Checked

/-! Folds of fallible steps. -/

namespace KeyReader.Checked

variable {ε α σ : Type}

theorem foldlM_adds {f : σ → α → Except ε σ} {holds : σ → Prop} {adds : α → Prop}
    (hstep : ∀ s s' a, f s a = .ok s' → (holds s' ↔ holds s ∨ adds a)) {items : List α}
    {start final : σ} (h : items.foldlM f start = .ok final) :
    holds final ↔ holds start ∨ ∃ a ∈ items, adds a := by
  induction items generalizing start with
  | nil =>
    cases h
    simp
  | cons a items ih =>
    obtain ⟨middle, hfirst, h⟩ := bind_eq_ok.mp h
    rw [ih h, hstep _ _ _ hfirst]
    simp only [List.mem_cons, exists_eq_or_imp, or_assoc]

end KeyReader.Checked
