/-! # Computations over a state

An effect starts from a state and ends with a value or an error, and with a state in either
case: what a failing computation has done before it failed is not undone. Programs open by
the laws `run_pure`, `run_bind` and their like.
-/
namespace CallFlow

structure Effect (σ ε α : Type) where
  run : σ → Except ε α × σ

namespace Effect
variable {σ ε δ α β : Type}

@[ext] theorem ext {x y : Effect σ ε α} (h : ∀ s, x.run s = y.run s) : x = y := by
  cases x; cases y; cases funext h; rfl

instance : Monad (Effect σ ε) where
  pure a := ⟨fun s => (.ok a, s)⟩
  bind x f := ⟨fun s =>
    match x.run s with
    | (.ok a, s) => (f a).run s
    | (.error e, s) => (.error e, s)⟩

instance : MonadExceptOf ε (Effect σ ε) where
  throw e := ⟨fun s => (.error e, s)⟩
  tryCatch x handle := ⟨fun s =>
    match x.run s with
    | (.ok a, s) => (.ok a, s)
    | (.error e, s) => (handle e).run s⟩

instance : MonadStateOf σ (Effect σ ε) where
  get := ⟨fun s => (.ok s, s)⟩
  set s := ⟨fun _ => (.ok (), s)⟩
  modifyGet f := ⟨fun s => let (a, s) := f s; (.ok a, s)⟩

def ofExcept (x : Except ε α) : Effect σ ε α := ⟨fun s => (x, s)⟩

def ask (f : σ → Except ε α) : Effect σ ε α := ⟨fun s => (f s, s)⟩

/-- Looks at the outcome instead of failing with it. -/
def outcome (x : Effect σ ε α) : Effect σ δ (Except ε α) := ⟨fun s =>
  let (r, s) := x.run s
  (.ok r, s)⟩

def mapError (f : ε → δ) (x : Effect σ ε α) : Effect σ δ α := ⟨fun s =>
  let (r, s) := x.run s
  (r.mapError f, s)⟩

@[simp] theorem run_pure (a : α) (s : σ) : (pure a : Effect σ ε α).run s = (.ok a, s) := rfl

@[simp] theorem run_bind (x : Effect σ ε α) (f : α → Effect σ ε β) (s : σ) :
    (x >>= f).run s = match x.run s with
      | (.ok a, s) => (f a).run s
      | (.error e, s) => (.error e, s) := rfl

@[simp] theorem run_throw (e : ε) (s : σ) :
    (throw e : Effect σ ε α).run s = (.error e, s) := rfl

@[simp] theorem run_get (s : σ) : (get : Effect σ ε σ).run s = (.ok s, s) := rfl

@[simp] theorem run_set (s t : σ) : (set t : Effect σ ε Unit).run s = (.ok (), t) := rfl

@[simp] theorem run_ofExcept (x : Except ε α) (s : σ) :
    (ofExcept x : Effect σ ε α).run s = (x, s) := rfl

@[simp] theorem run_ask (f : σ → Except ε α) (s : σ) : (ask f).run s = (f s, s) := rfl

@[simp] theorem run_outcome (x : Effect σ ε α) (s : σ) :
    (outcome x : Effect σ δ (Except ε α)).run s = (.ok (x.run s).1, (x.run s).2) := rfl

@[simp] theorem run_mapError (f : ε → δ) (x : Effect σ ε α) (s : σ) :
    (mapError f x).run s = ((x.run s).1.mapError f, (x.run s).2) := rfl

instance : LawfulMonad (Effect σ ε) := by
  refine LawfulMonad.mk' _ ?_ ?_ ?_
  · intro α x
    refine Effect.ext fun s => ?_
    show (match x.run s with | (.ok a, s) => _ | (.error e, s) => _) = x.run s
    rcases x.run s with ⟨_ | _, _⟩ <;> rfl
  · exact fun _ _ => rfl
  · intro α β γ x f g
    refine Effect.ext fun s => ?_
    simp only [run_bind]
    rcases x.run s with ⟨_ | _, _⟩ <;> rfl

end Effect
end CallFlow
