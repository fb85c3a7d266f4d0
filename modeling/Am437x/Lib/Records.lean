import Mathlib.Tactic

/-!
# Records in a buffer

A step reads the record at an offset of a buffer, and says how long it is. The walk goes from record to record
until it is at the end of the buffer, or a step fails.
-/

namespace Records

universe u

variable {σ ε : Type*} {α β : Type u}

/-! ## Steps that can fail -/

@[simp] theorem bind_eq_ok {x : Except ε α} {f : α → Except ε β} {b : β} :
    (x >>= f) = .ok b ↔ ∃ a, x = .ok a ∧ f a = .ok b := by
  cases x <;> simp [bind, Except.bind]

@[simp] theorem bind_eq_error {x : Except ε α} {f : α → Except ε β} {e : ε} :
    (x >>= f) = .error e ↔ x = .error e ∨ ∃ a, x = .ok a ∧ f a = .error e := by
  cases x <;> simp [bind, Except.bind]

@[simp] theorem pure_eq_ok {a b : α} : (pure a : Except ε α) = .ok b ↔ a = b := by
  simp [pure, Except.pure]

@[simp] theorem pure_ne_error {a : α} {e : ε} : (pure a : Except ε α) ≠ .error e := by
  simp [pure, Except.pure]

@[simp] theorem map_eq_ok {x : Except ε α} {f : α → β} {b : β} :
    f <$> x = .ok b ↔ ∃ a, x = .ok a ∧ f a = b := by
  cases x <;> simp [Functor.map, Except.map]

@[simp] theorem map_eq_error {x : Except ε α} {f : α → β} {e : ε} : f <$> x = .error e ↔ x = .error e := by
  cases x <;> simp [Functor.map, Except.map]

/-- What holds of the result, when there is one. -/
def Ensures (x : Except ε α) (P : α → Prop) : Prop := ∀ a, x = .ok a → P a

theorem Ensures.bind {x : Except ε α} {f : α → Except ε β} {P : β → Prop}
    (h : ∀ a, x = .ok a → Ensures (f a) P) : Ensures (x >>= f) P := by
  intro b hb
  obtain ⟨a, ha, hfa⟩ := bind_eq_ok.mp hb
  exact h a ha b hfa

theorem Ensures.pure {a : α} {P : α → Prop} (h : P a) : Ensures (Pure.pure a : Except ε α) P := by
  intro b hb
  obtain rfl := pure_eq_ok.mp hb
  exact h

theorem Ensures.error {e : ε} {P : α → Prop} : Ensures (Except.error e) P := by
  intro a ha
  cases ha

/-- An error that is never the result. -/
def Avoids (e : ε) (x : Except ε α) : Prop := x ≠ .error e

theorem Avoids.bind {e : ε} {x : Except ε α} {f : α → Except ε β} (hx : Avoids e x) (hf : ∀ a, Avoids e (f a)) :
    Avoids e (x >>= f) := by
  intro h
  rcases bind_eq_error.mp h with h | ⟨a, -, h⟩
  · exact hx h
  · exact hf a h

theorem Avoids.pure {e : ε} {a : α} : Avoids e (Pure.pure a : Except ε α) := pure_ne_error

theorem Avoids.error {e e' : ε} (h : e' ≠ e) : Avoids e (Except.error e' : Except ε α) := by
  intro heq
  cases heq
  exact h rfl

/-- Two steps agree, except that the second one can have this error. -/
def UpTo (e : ε) (x y : Except ε α) : Prop := y = .error e ∨ x = y

theorem UpTo.refl (e : ε) (x : Except ε α) : UpTo e x x := .inr rfl

theorem UpTo.bind {e : ε} {x y : Except ε α} {f g : α → Except ε β} (h : UpTo e x y)
    (hf : ∀ a, UpTo e (f a) (g a)) : UpTo e (x >>= f) (y >>= g) := by
  rcases h with rfl | rfl
  · exact .inl rfl
  · cases x with
    | error e' => exact .refl e _
    | ok a => exact hf a

theorem UpTo.ite {e : ε} {c : Prop} [Decidable c] {x y x' y' : Except ε α} (h : UpTo e x y) (h' : UpTo e x' y') :
    UpTo e (if c then x else x') (if c then y else y') := by
  by_cases hc : c
  · simpa only [if_pos hc] using h
  · simpa only [if_neg hc] using h'

/-! ## The walk -/

variable (size : ℕ) (step : ℕ → σ → Except ε (ℕ × σ))

/-- The walk from an offset; `none` when the fuel does not last. -/
def walk : ℕ → ℕ → σ → Option (Except ε σ)
  | 0, _, _ => none
  | fuel + 1, o, s =>
    match step o s with
    | .error e => some (.error e)
    | .ok (n, t) => if o + n < size then walk fuel (o + n) t else some (.ok t)

/-- A walk that is at `o` in the state `s` comes to `o'` in the state `s'`. -/
inductive Reach : ℕ → σ → ℕ → σ → Prop
  | refl (o : ℕ) (s : σ) : Reach o s o s
  | next {o o' n : ℕ} {s t s' : σ} :
    o < size → step o s = .ok (n, t) → Reach (o + n) t o' s' → Reach o s o' s'

variable {size step}

theorem Reach.trans {o o' o'' : ℕ} {s s' s'' : σ} (h : Reach size step o s o' s')
    (h' : Reach size step o' s' o'' s'') : Reach size step o s o'' s'' := by
  induction h with
  | refl => exact h'
  | next hlt hstep _ ih => exact .next hlt hstep (ih h')

/-- The rule for walks: what every step keeps holds wherever a walk comes. -/
theorem Reach.inv {P : ℕ → σ → Prop} {o o' : ℕ} {s s' : σ} (h : Reach size step o s o' s')
    (hstep : ∀ o s n t, o < size → P o s → step o s = .ok (n, t) → P (o + n) t) (hs : P o s) : P o' s' := by
  induction h with
  | refl => exact hs
  | next hlt hok _ ih => exact ih (hstep _ _ _ _ hlt hs hok)

/-- A step that succeeds makes progress. -/
def Progress (step : ℕ → σ → Except ε (ℕ × σ)) : Prop := ∀ o s n t, step o s = .ok (n, t) → 0 < n

/-- With progress at every step, fuel for every byte lasts. -/
theorem walk_isSome (hprog : Progress step) {fuel o : ℕ} {s : σ} (ho : o < size) (hfuel : size ≤ o + fuel) :
    (walk size step fuel o s).isSome := by
  induction fuel generalizing o s with
  | zero => omega
  | succ fuel ih =>
    rw [walk]
    cases hstep : step o s with
    | error e => rfl
    | ok r =>
      obtain ⟨n, t⟩ := r
      have hn := hprog o s n t hstep
      dsimp only
      split
      case isTrue hlt => exact ih hlt (by omega)
      case isFalse => rfl

theorem reach_of_walk_ok {fuel o : ℕ} {s s' : σ} (ho : o < size) (h : walk size step fuel o s = some (.ok s')) :
    ∃ o', Reach size step o s o' s' ∧ size ≤ o' := by
  induction fuel generalizing o s with
  | zero => cases h
  | succ fuel ih =>
    rw [walk] at h
    cases hstep : step o s with
    | error e => rw [hstep] at h; cases h
    | ok r =>
      obtain ⟨n, t⟩ := r
      rw [hstep] at h
      dsimp only at h
      split at h
      case isTrue hlt =>
        obtain ⟨o', hreach, hend⟩ := ih hlt h
        exact ⟨o', .next ho hstep hreach, hend⟩
      case isFalse hend =>
        obtain rfl : t = s' := by simpa using h
        exact ⟨o + n, .next ho hstep (.refl _ _), by omega⟩

theorem reach_of_walk_error {fuel o : ℕ} {s : σ} {e : ε} (ho : o < size)
    (h : walk size step fuel o s = some (.error e)) :
    ∃ o' s', Reach size step o s o' s' ∧ o' < size ∧ step o' s' = .error e := by
  induction fuel generalizing o s with
  | zero => cases h
  | succ fuel ih =>
    rw [walk] at h
    cases hstep : step o s with
    | error e' =>
      rw [hstep] at h
      obtain rfl : e' = e := by simpa using h
      exact ⟨o, s, .refl _ _, ho, hstep⟩
    | ok r =>
      obtain ⟨n, t⟩ := r
      rw [hstep] at h
      dsimp only at h
      split at h
      case isTrue hlt =>
        obtain ⟨o', s', hreach, hlt', herr⟩ := ih hlt h
        exact ⟨o', s', .next ho hstep hreach, hlt', herr⟩
      case isFalse => exact absurd h (by simp)

/-- A walk has one end. -/
theorem Reach.end_unique {o p q : ℕ} {s t u : σ} (hp : Reach size step o s p t) (hq : Reach size step o s q u)
    (hpend : size ≤ p ∨ ∃ e, step p t = .error e) (hqend : size ≤ q ∨ ∃ e, step q u = .error e) :
    p = q ∧ t = u := by
  induction hp with
  | refl o s =>
    cases hq with
    | refl => exact ⟨rfl, rfl⟩
    | next hlt hstep _ =>
      rcases hpend with hend | ⟨e, herr⟩
      · omega
      · exact nomatch hstep.symm.trans herr
  | next hlt hstep _ ih =>
    cases hq with
    | refl =>
      rcases hqend with hend | ⟨e, herr⟩
      · omega
      · exact nomatch hstep.symm.trans herr
    | next _ hstep' hq =>
      obtain ⟨rfl, rfl⟩ : _ ∧ _ := by simpa using hstep.symm.trans hstep'
      exact ih hq hpend

variable {fuel o : ℕ} {s : σ}

/-- A walk succeeds exactly when it comes to the end of the buffer. -/
theorem walk_eq_ok_iff (hprog : Progress step) (ho : o < size) (hfuel : size ≤ o + fuel) {s' : σ} :
    walk size step fuel o s = some (.ok s') ↔ ∃ o', Reach size step o s o' s' ∧ size ≤ o' := by
  refine ⟨reach_of_walk_ok ho, fun ⟨o', hreach, hend⟩ => ?_⟩
  obtain ⟨r, hr⟩ := Option.isSome_iff_exists.mp (walk_isSome hprog ho hfuel (s := s))
  cases r with
  | ok t =>
    obtain ⟨p, hp, hpend⟩ := reach_of_walk_ok ho hr
    obtain ⟨-, rfl⟩ := hp.end_unique hreach (.inl hpend) (.inl hend)
    exact hr
  | error e =>
    obtain ⟨p, t, hp, hlt, herr⟩ := reach_of_walk_error ho hr
    obtain ⟨rfl, -⟩ := hp.end_unique hreach (.inr ⟨e, herr⟩) (.inl hend)
    omega

/-- A walk fails exactly when it comes to a record that a step fails at. -/
theorem walk_eq_error_iff (hprog : Progress step) (ho : o < size) (hfuel : size ≤ o + fuel) {e : ε} :
    walk size step fuel o s = some (.error e) ↔
      ∃ o' s', Reach size step o s o' s' ∧ o' < size ∧ step o' s' = .error e := by
  refine ⟨reach_of_walk_error ho, fun ⟨o', s', hreach, hlt, herr⟩ => ?_⟩
  obtain ⟨r, hr⟩ := Option.isSome_iff_exists.mp (walk_isSome hprog ho hfuel (s := s))
  cases r with
  | ok t =>
    obtain ⟨p, hp, hpend⟩ := reach_of_walk_ok ho hr
    obtain ⟨rfl, -⟩ := hp.end_unique hreach (.inl hpend) (.inr ⟨e, herr⟩)
    omega
  | error e' =>
    obtain ⟨p, t, hp, -, herr'⟩ := reach_of_walk_error ho hr
    obtain ⟨rfl, rfl⟩ := hp.end_unique hreach (.inr ⟨e', herr'⟩) (.inr ⟨e, herr⟩)
    obtain rfl : e' = e := by simpa using herr'.symm.trans herr
    exact hr

/-- Walks agree when their steps do. -/
theorem walk_upTo {e : ε} {step step' : ℕ → σ → Except ε (ℕ × σ)} (h : ∀ o s, UpTo e (step o s) (step' o s))
    (fuel o : ℕ) (s : σ) :
    walk size step' fuel o s = some (.error e) ∨ walk size step fuel o s = walk size step' fuel o s := by
  induction fuel generalizing o s with
  | zero => exact .inr rfl
  | succ fuel ih =>
    rw [walk, walk]
    rcases h o s with herr | heq
    · rw [herr]
      exact .inl rfl
    · rw [heq]
      cases step' o s with
      | error e' => exact .inr rfl
      | ok r =>
        dsimp only
        split
        · exact ih _ _
        · exact .inr rfl

end Records
