import Mathlib.Data.List.Basic

/-!
# Computations that return

A fallible computation is proved to return, with a postcondition of its value. The rules
follow the shape of the program: a bind returns when both parts do, and a fold when each
step keeps the invariant.
-/

namespace Transition

universe u v w

variable {ε : Type u} {α β σ : Type v}

/-- The computation returns, and its value satisfies `Q`. -/
def Returns (x : Except ε α) (Q : α → Prop) : Prop := ∃ a, x = .ok a ∧ Q a

namespace Returns

variable {x : Except ε α} {f : α → Except ε β} {P Q : α → Prop} {R : β → Prop}

theorem ok {a : α} (h : Q a) : Returns (.ok a : Except ε α) Q := ⟨a, rfl, h⟩

theorem pure {a : α} (h : Q a) : Returns (Pure.pure a : Except ε α) Q := ⟨a, rfl, h⟩

theorem mono (h : Returns x P) (weaker : ∀ a, P a → Q a) : Returns x Q := by
  obtain ⟨a, hx, ha⟩ := h
  exact ⟨a, hx, weaker a ha⟩

theorem bind (h : Returns x P) (rest : ∀ a, P a → Returns (f a) R) : Returns (x >>= f) R := by
  obtain ⟨a, rfl, ha⟩ := h
  exact rest a ha

theorem map {g : α → β} (h : Returns x P) (weaker : ∀ a, P a → R (g a)) :
    Returns (x.map g) R := by
  obtain ⟨a, rfl, ha⟩ := h
  exact ⟨g a, rfl, weaker a ha⟩

/-- A fold returns when each of its steps does, from the invariant to the invariant. -/
theorem foldlM {γ : Type w} {step : σ → γ → Except ε σ} {I : σ → Prop} {l : List γ} {s : σ}
    (start : I s) (kept : ∀ s, ∀ c ∈ l, I s → Returns (step s c) I) :
    Returns (l.foldlM step s) I := by
  induction l generalizing s with
  | nil => exact .pure start
  | cons c rest ih =>
      rw [List.foldlM_cons]
      exact (kept s c List.mem_cons_self start).bind fun t ht =>
        ih ht fun s d hd => kept s d (List.mem_cons_of_mem _ hd)

end Returns

end Transition
