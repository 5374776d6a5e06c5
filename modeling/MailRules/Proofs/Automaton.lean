/-!
Automata that read a list from left to right and may refuse an item. What such a run comes to, and
what holds behind it when every step keeps an invariant on the items read so far.
-/

namespace MailRules

/-- A computation that succeeds has gone through its first part. -/
theorem bind_eq_ok {ε α β : Type} {x : Except ε α} {f : α → Except ε β} {b : β}
    (h : x >>= f = .ok b) : ∃ a, x = .ok a ∧ f a = .ok b := by
  cases x with
  | error e => cases h
  | ok a => exact ⟨a, rfl, h⟩

/-- A computation that fails does so in its first part, or behind it. -/
theorem bind_eq_error {ε α β : Type} {x : Except ε α} {f : α → Except ε β} {e : ε}
    (h : x >>= f = .error e) : x = .error e ∨ ∃ a, x = .ok a ∧ f a = .error e := by
  cases x with
  | error e' => exact .inl (congrArg Except.error (Except.error.inj h))
  | ok a => exact .inr ⟨a, rfl, h⟩

variable {ε σ α : Type} (step : σ → α → Except ε σ)

/-- The state behind the items. -/
def feed (s : σ) (xs : List α) : Except ε σ := xs.foldlM step s

variable {step}

theorem feed_cons (s : σ) (x : α) (xs : List α) :
    feed step s (x :: xs) = step s x >>= (feed step · xs) := List.foldlM_cons

theorem feed_singleton (s : σ) (x : α) : feed step s [x] = step s x := bind_pure _

theorem feed_append (s : σ) (xs ys : List α) :
    feed step s (xs ++ ys) = feed step s xs >>= (feed step · ys) := List.foldlM_append

theorem feed_of_step {s s' : σ} {x : α} {xs : List α} (h : step s x = .ok s') :
    feed step s (x :: xs) = feed step s' xs := by
  rw [feed_cons, h]; rfl

theorem feed_append_of_ok {s s' : σ} {xs : List α} (h : feed step s xs = .ok s') (ys : List α) :
    feed step s (xs ++ ys) = feed step s' ys := by
  rw [feed_append, h]; rfl

/-- A run that fails does so at one item, behind a run over the items in front of it. -/
theorem feed_eq_error {e : ε} (xs : List α) : ∀ {s : σ}, feed step s xs = .error e →
    ∃ ys x zs s', xs = ys ++ x :: zs ∧ feed step s ys = .ok s' ∧ step s' x = .error e := by
  induction xs with
  | nil => exact fun h => by cases h
  | cons x xs ih =>
    intro s h
    rw [feed_cons] at h
    obtain hx | ⟨s₁, hx, h⟩ := bind_eq_error h
    · exact ⟨[], x, xs, s, rfl, rfl, hx⟩
    · obtain ⟨ys, y, zs, s', rfl, hys, hy⟩ := ih h
      exact ⟨x :: ys, y, zs, s', rfl, (feed_of_step hx).trans hys, hy⟩

/-- An invariant that takes in each item holds of all of them behind the run. -/
theorem feed_invariant {Took : σ → List α → Prop}
    (hstep : ∀ {s s' : σ} {us : List α} {x : α}, Took s us → step s x = .ok s' →
      Took s' (us ++ [x])) (xs : List α) : ∀ {s s' : σ} {us : List α}, Took s us →
    feed step s xs = .ok s' → Took s' (us ++ xs) := by
  induction xs with
  | nil =>
    intro s s' us h hs
    cases hs
    rwa [List.append_nil]
  | cons x xs ih =>
    intro s s' us h hs
    rw [feed_cons] at hs
    obtain ⟨s₁, hx, hs⟩ := bind_eq_ok hs
    simpa using ih (hstep h hx) hs

end MailRules
