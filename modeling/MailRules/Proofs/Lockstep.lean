import Mathlib.Data.List.Forall2
import MailRules.Proofs.Automaton

/-!
Two runs side by side. Where corresponding items take corresponding states to corresponding
outcomes, whole runs do the same: both go through, or both fail.
-/

namespace MailRules

variable {ε ε' α α' β β' : Type} {E : ε → ε' → Prop} {S : α → α' → Prop} {T : β → β' → Prop}

/-- Two computations succeed with results that correspond, or fail with errors that do. -/
inductive Related (E : ε → ε' → Prop) (S : α → α' → Prop) : Except ε α → Except ε' α' → Prop
  | ok {a : α} {a' : α'} : S a a' → Related E S (.ok a) (.ok a')
  | error {e : ε} {e' : ε'} : E e e' → Related E S (.error e) (.error e')

namespace Related

theorem bind {x : Except ε α} {x' : Except ε' α'} {f : α → Except ε β} {f' : α' → Except ε' β'}
    (hx : Related E S x x') (hf : ∀ {a a'}, S a a' → Related E T (f a) (f' a')) :
    Related E T (x >>= f) (x' >>= f') := by
  cases hx with
  | ok ha => exact hf ha
  | error he => exact .error he

theorem imp {E' : ε → ε' → Prop} {S' : α → α' → Prop} {x : Except ε α} {x' : Except ε' α'}
    (hE : ∀ {e e'}, E e e' → E' e e') (hS : ∀ {a a'}, S a a' → S' a a') (h : Related E S x x') :
    Related E' S' x x' := by
  cases h with
  | ok ha => exact .ok (hS ha)
  | error he => exact .error (hE he)

theorem mapError {δ δ' : Type} {D : δ → δ' → Prop} {k : ε → δ} {k' : ε' → δ'} {x : Except ε α}
    {x' : Except ε' α'} (h : Related E S x x') (hk : ∀ {e e'}, E e e' → D (k e) (k' e')) :
    Related D S (x.mapError k) (x'.mapError k') := by
  cases h with
  | ok ha => exact .ok ha
  | error he => exact .error (hk he)

/-- Where outcomes correspond by functions, one computation gives the other. -/
theorem eq_map {k : ε → ε'} {g : α → α'} {x : Except ε α} {x' : Except ε' α'}
    (h : Related (fun e e' => e' = k e) (fun a a' => a' = g a) x x') :
    x' = (x.map g).mapError k := by
  cases h with
  | ok ha => exact congrArg Except.ok ha
  | error he => exact congrArg Except.error he

/-- Steps that correspond make up runs that do. -/
theorem feed {σ σ' : Type} {S : σ → σ' → Prop} {R : α → α' → Prop} {step : σ → α → Except ε σ}
    {step' : σ' → α' → Except ε' σ'}
    (hstep : ∀ {s s' x x'}, S s s' → R x x' → Related E S (step s x) (step' s' x'))
    {xs : List α} {xs' : List α'} (hxs : List.Forall₂ R xs xs') :
    ∀ {s s'}, S s s' → Related E S (MailRules.feed step s xs) (MailRules.feed step' s' xs') := by
  induction hxs with
  | nil => exact fun hs => .ok hs
  | cons hx _ ih =>
    intro s s' hs
    rw [feed_cons, feed_cons]
    exact (hstep hs hx).bind ih

end Related
end MailRules
