/-! # Values and errors

When a computation that may fail comes to a value, and when to an error.
-/
namespace CallFlow
variable {ε δ α β : Type} {x : Except ε α} {e : ε} {a : α} {b : β}

/-! ## Values -/

theorem bind_eq_ok {f : α → Except ε β} : (x >>= f) = .ok b ↔ ∃ a, x = .ok a ∧ f a = .ok b := by
  cases x with
  | error e =>
    constructor
    · intro h
      cases h
    · rintro ⟨_, h, -⟩
      cases h
  | ok a =>
    constructor
    · exact fun h => ⟨a, rfl, h⟩
    · rintro ⟨_, h, hf⟩
      cases h
      exact hf

theorem mapError_eq_ok {f : ε → δ} : x.mapError f = .ok a ↔ x = .ok a := by
  cases x with
  | error e =>
    constructor
    · intro h
      cases h
    · intro h
      cases h
  | ok a' => exact ⟨fun h => congrArg _ (Except.ok.inj h), fun h => congrArg _ (Except.ok.inj h)⟩

theorem map_eq_ok {f : α → β} : x.map f = .ok b ↔ ∃ a, x = .ok a ∧ f a = b := by
  cases x <;> simp [Except.map]

theorem check_eq_ok {x : Except ε Unit} {y : Except ε β} :
    (x >>= fun _ => y) = .ok b ↔ x = .ok () ∧ y = .ok b := by
  rw [bind_eq_ok]
  exact ⟨fun ⟨(), h⟩ => h, fun h => ⟨(), h⟩⟩

theorem forM_eq_ok {f : α → Except ε Unit} {xs : List α} :
    forM xs f = .ok () ↔ ∀ x ∈ xs, f x = .ok () := by
  induction xs with
  | nil => simp [pure, Except.pure]
  | cons x rest ih => rw [List.forM_cons, check_eq_ok, ih, List.forall_mem_cons]

theorem mapM_option_eq_ok {f : α → Except ε β} {x : Option α} :
    (∃ y, x.mapM f = .ok y) ↔ ∀ a, x = some a → ∃ b, f a = .ok b := by
  cases x with
  | none => simp [pure, Except.pure]
  | some a =>
    cases hf : f a <;> simp [Option.mapM_some, hf, Functor.map, Except.map]

/-! ## Errors -/

theorem bind_eq_error {f : α → Except ε β} :
    (x >>= f) = .error e ↔ x = .error e ∨ ∃ a, x = .ok a ∧ f a = .error e := by
  cases x <;> simp [bind, Except.bind]

theorem exists_of_forM_eq_error {f : α → Except ε Unit} {xs : List α}
    (h : forM xs f = .error e) : ∃ x ∈ xs, f x = .error e := by
  induction xs with
  | nil => cases h
  | cons x rest ih =>
    rw [List.forM_cons] at h
    rcases bind_eq_error.mp h with hx | ⟨-, -, hrest⟩
    · exact ⟨x, List.mem_cons_self, hx⟩
    · obtain ⟨y, hy, hfy⟩ := ih hrest
      exact ⟨y, List.mem_cons_of_mem x hy, hfy⟩

theorem mapM_option_eq_error {f : α → Except ε β} {x : Option α} :
    x.mapM f = .error e ↔ ∃ a, x = some a ∧ f a = .error e := by
  cases x with
  | none => simp [pure, Except.pure]
  | some a => cases hf : f a <;> simp [Option.mapM_some, hf, Functor.map, Except.map]

end CallFlow
