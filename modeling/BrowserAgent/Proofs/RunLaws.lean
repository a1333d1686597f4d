import BrowserAgent.Run

/-!
# Laws of runs

What a run does from a state, for each way in which runs are put together. Two runs are compared in
two ways: they are alike if from related states they end with the same in related states, and one
covers the other if it ends with a value wherever the other does.
-/

namespace BrowserAgent

/-- Both end with the same, in related states. -/
def Agree {α β γ : Type} (S : β → γ → Prop) (x : α × β) (y : α × γ) : Prop :=
  x.1 = y.1 ∧ S x.2 y.2

theorem Agree.split {α β γ : Type} {S : β → γ → Prop} {x : α × β} {y : α × γ} (h : Agree S x y) :
    ∃ result b c, x = (result, b) ∧ y = (result, c) ∧ S b c :=
  ⟨x.1, x.2, y.2, rfl, Prod.ext h.1.symm rfl, h.2⟩

section

variable {ε α β : Type} {x : Except ε α} {f : α → β}

theorem map_eq_ok_iff {b : β} : x.map f = .ok b ↔ ∃ a, x = .ok a ∧ f a = b := by
  cases x <;> simp [Except.map]

theorem map_eq_error_iff {e : ε} : x.map f = .error e ↔ x = .error e := by
  cases x <;> simp [Except.map]

theorem bind_eq_ok_iff {f : α → Except ε β} {b : β} :
    x >>= f = .ok b ↔ ∃ a, x = .ok a ∧ f a = .ok b := by
  cases x <;> simp [bind, Except.bind]

theorem bind_eq_error_iff {f : α → Except ε β} {e : ε} :
    x >>= f = .error e ↔ x = .error e ∨ ∃ a, x = .ok a ∧ f a = .error e := by
  cases x <;> simp [bind, Except.bind]

end

namespace Run

variable {σ τ ε ε' ε'' α β γ δ : Type}

/-! ## From a state -/

theorem run_bind (x : Run σ ε α) (f : α → Run σ ε β) (s : σ) :
    (x >>= f).run s =
      match x.run s with
      | (.ok value, after) => (f value).run after
      | (.error e, after) => (.error e, after) := by
  show ExceptT.bindCont f (x.run s).1 (x.run s).2 = _
  rcases x.run s with ⟨_ | _, after⟩ <;> rfl

theorem run_adapt (x : Run σ ε α) (f : ε → ε') (s : σ) :
    (x.adapt f).run s = ((x.run s).1.mapError f, (x.run s).2) := rfl

theorem run_get_bind (f : σ → Run σ ε α) (s : σ) : (get >>= f).run s = (f s).run s := rfl

theorem run_liftM_bind (x : Except ε α) (f : α → Run σ ε β) (s : σ) :
    ((liftM x : Run σ ε α) >>= f).run s =
      match x with
      | .ok value => (f value).run s
      | .error e => (.error e, s) := by
  cases x <;> rfl

/-- A run of two parts ends with a value if both parts do. -/
theorem run_bind_ok_iff {x : Run σ ε α} {f : α → Run σ ε β} {s after : σ} {value : β} :
    (x >>= f).run s = (.ok value, after) ↔
      ∃ first between, x.run s = (.ok first, between) ∧
        (f first).run between = (.ok value, after) := by
  rw [run_bind]
  constructor
  · intro h
    rcases hx : x.run s with ⟨e | first, between⟩
    · rw [hx] at h
      cases h
    · rw [hx] at h
      exact ⟨first, between, rfl, h⟩
  · rintro ⟨first, between, hx, h⟩
    rw [hx]
    exact h

/-- It ends with an error if the first part does, or if the second does after the first. -/
theorem run_bind_error_iff {x : Run σ ε α} {f : α → Run σ ε β} {s after : σ} {e : ε} :
    (x >>= f).run s = (.error e, after) ↔
      x.run s = (.error e, after) ∨
        ∃ first between, x.run s = (.ok first, between) ∧
          (f first).run between = (.error e, after) := by
  rw [run_bind]
  rcases hx : x.run s with ⟨e' | first, between⟩
  · constructor
    · rintro ⟨⟩
      exact .inl rfl
    · rintro (⟨⟨⟩⟩ | ⟨_, _, ⟨⟩, _⟩)
      rfl
  · constructor
    · intro h
      exact .inr ⟨first, between, rfl, h⟩
    · rintro (⟨⟨⟩⟩ | ⟨_, _, ⟨⟩, h⟩)
      exact h

theorem run_adapt_ok_iff {x : Run σ ε α} {f : ε → ε'} {s after : σ} {value : α} :
    (x.adapt f).run s = (.ok value, after) ↔ x.run s = (.ok value, after) := by
  rw [run_adapt]
  rcases x.run s with ⟨cause | found, between⟩
  · constructor <;> rintro ⟨⟩
  · constructor <;> (rintro ⟨⟩; rfl)

theorem run_adapt_error_iff {x : Run σ ε α} {f : ε → ε'} {s after : σ} {e : ε'} :
    (x.adapt f).run s = (.error e, after) ↔
      ∃ cause, x.run s = (.error cause, after) ∧ e = f cause := by
  rw [run_adapt]
  rcases x.run s with ⟨cause | value, between⟩
  · constructor
    · rintro ⟨⟩
      exact ⟨cause, rfl, rfl⟩
    · rintro ⟨_, ⟨⟩, rfl⟩
      rfl
  · constructor
    · rintro ⟨⟩
    · rintro ⟨_, ⟨⟩, _⟩

theorem run_ofExcept_ok_iff {x : Except ε α} {s after : σ} {value : α} :
    (Run.ofExcept x : Run σ ε α).run s = (.ok value, after) ↔ x = .ok value ∧ after = s := by
  constructor
  · rintro ⟨⟩
    exact ⟨rfl, rfl⟩
  · rintro ⟨rfl, rfl⟩
    rfl

theorem run_ofExcept_error_iff {x : Except ε α} {s after : σ} {e : ε} :
    (Run.ofExcept x : Run σ ε α).run s = (.error e, after) ↔ x = .error e ∧ after = s := by
  constructor
  · rintro ⟨⟩
    exact ⟨rfl, rfl⟩
  · rintro ⟨rfl, rfl⟩
    rfl

theorem run_bind_pure_error_iff {x : Run σ ε α} {f : α → β} {s after : σ} {e : ε} :
    (x >>= fun value => pure (f value)).run s = (.error e, after) ↔
      x.run s = (.error e, after) := by
  rw [run_bind_error_iff]
  constructor
  · rintro (h | ⟨_, _, _, ⟨⟩⟩)
    exact h
  · exact .inl

theorem run_discard_ok_iff {x : Run σ ε α} {s after : σ} :
    (discard x : Run σ ε Unit).run s = (.ok (), after) ↔ ∃ value, x.run s = (.ok value, after) := by
  constructor
  · intro h
    obtain ⟨value, _, ran, ⟨⟩⟩ := run_bind_ok_iff.mp h
    exact ⟨value, ran⟩
  · rintro ⟨value, ran⟩
    exact run_bind_ok_iff.mpr ⟨value, after, ran, rfl⟩

theorem run_discard_error_iff {x : Run σ ε α} {s after : σ} {e : ε} :
    (discard x : Run σ ε Unit).run s = (.error e, after) ↔ x.run s = (.error e, after) :=
  run_bind_pure_error_iff

/-! ## Runs that are alike -/

def Alike (Q : σ → τ → Prop) (x : Run σ ε α) (y : Run τ ε α) : Prop :=
  ∀ s t, Q s t → Agree Q (x.run s) (y.run t)

section

variable {Q : σ → τ → Prop}

theorem Alike.ofExcept (result : Except ε α) :
    Alike Q (Run.ofExcept result : Run σ ε α) (Run.ofExcept result) := fun _ _ h => ⟨rfl, h⟩

theorem Alike.pure (value : α) : Alike Q (Pure.pure value : Run σ ε α) (Pure.pure value) :=
  Alike.ofExcept (.ok value)

theorem Alike.throw (e : ε) :
    Alike Q (MonadExcept.throw e : Run σ ε α) (MonadExcept.throw e : Run τ ε α) :=
  Alike.ofExcept (.error e)

theorem Alike.adapt {x : Run σ ε α} {y : Run τ ε α} (h : x.Alike Q y) (f : ε → ε') :
    Alike Q (x.adapt f) (y.adapt f) := by
  intro s t hst
  obtain ⟨result, after⟩ := h s t hst
  exact ⟨congrArg (Except.mapError f) result, after⟩

theorem Alike.bind {x : Run σ ε α} {y : Run τ ε α} {f : α → Run σ ε β} {g : α → Run τ ε β}
    (h : x.Alike Q y) (hf : ∀ value, (f value).Alike Q (g value)) :
    Alike Q (x >>= f) (y >>= g) := by
  intro s t hst
  obtain ⟨result, u, v, hx, hy, after⟩ := (h s t hst).split
  rw [run_bind, run_bind, hx, hy]
  cases result with
  | error e => exact ⟨rfl, after⟩
  | ok value => exact hf value u v after

end

/-! ## Runs that cover others -/

/-- Where the first run ends with a value, the second ends in the same state with a related one. -/
def Covered (V : α → β → Prop) (x : Run σ ε α) (y : Run σ ε' β) : Prop :=
  ∀ s value after, x.run s = (.ok value, after) →
    ∃ other, y.run s = (.ok other, after) ∧ V value other

theorem Covered.refl (x : Run σ ε α) : x.Covered Eq x :=
  fun _ value _ h => ⟨value, h, rfl⟩

theorem Covered.ofExcept {V : α → β → Prop} {x : Except ε α} {y : Except ε' β}
    (h : ∀ value, x = .ok value → ∃ other, y = .ok other ∧ V value other) :
    Covered V (Run.ofExcept x : Run σ ε α) (Run.ofExcept y : Run σ ε' β) := by
  rintro s value _ ⟨⟩
  obtain ⟨other, rfl, hv⟩ := h value rfl
  exact ⟨other, rfl, hv⟩

theorem Covered.pure {V : α → β → Prop} {value : α} {other : β} (h : V value other) :
    Covered V (Pure.pure value : Run σ ε α) (Pure.pure other : Run σ ε' β) := by
  rintro s _ _ ⟨⟩
  exact ⟨other, rfl, h⟩

theorem Covered.throw {V : α → β → Prop} (e : ε) (y : Run σ ε' β) :
    Covered V (MonadExcept.throw e : Run σ ε α) y := by
  rintro s _ _ ⟨⟩

theorem Covered.adapt {V : α → β → Prop} {x : Run σ ε α} {y : Run σ ε' β} (h : x.Covered V y)
    {ε₁ ε₂ : Type} (f : ε → ε₁) (g : ε' → ε₂) : Covered V (x.adapt f) (y.adapt g) := by
  intro s value after hx
  rw [run_adapt] at hx
  obtain ⟨result, rfl⟩ := Prod.mk.inj hx
  cases hr : (x.run s).1 with
  | error e =>
    rw [hr] at result
    cases result
  | ok found =>
    rw [hr] at result
    obtain ⟨other, hy, hv⟩ := h s found (x.run s).2 (Prod.ext hr rfl)
    exact ⟨other, by rw [run_adapt, hy]; rfl, Except.ok.inj result ▸ hv⟩

theorem Covered.bind {V : α → β → Prop} {W : γ → δ → Prop} {x : Run σ ε α} {y : Run σ ε' β}
    {f : α → Run σ ε γ} {g : β → Run σ ε' δ} (h : x.Covered V y)
    (hf : ∀ value other, V value other → (f value).Covered W (g other)) :
    Covered W (x >>= f) (y >>= g) := by
  intro s value after hx
  obtain ⟨first, between, hfirst, hrest⟩ := run_bind_ok_iff.mp hx
  obtain ⟨second, hsecond, hv⟩ := h s first between hfirst
  obtain ⟨other, hother, hw⟩ := hf first second hv between value after hrest
  exact ⟨other, run_bind_ok_iff.mpr ⟨second, between, hsecond, hother⟩, hw⟩

end Run

end BrowserAgent
