import Mathlib.Logic.Basic

/-!
# Calls that may throw

A call leaves a state whether it returns or throws. The strong guarantee is about what
a view shows of that state: after a call that threw, it shows what it showed before.
-/

namespace Transition

universe u v w x

variable {ε : Type u} {α : Type v} {σ : Type w} {β : Type x}

/-- What a call throws or returns, and the state it leaves. -/
abbrev Called (ε : Type u) (α : Type v) (σ : Type w) := Except ε α × σ

def Throws (c : Called ε α σ) : Prop := ∃ e, c.1 = .error e

/-- The strong guarantee of a call made in `s`. -/
def Strong (view : σ → β) (s : σ) (c : Called ε α σ) : Prop := Throws c → view c.2 = view s

variable {c : Called ε α σ} {s : σ} {view : σ → β}

@[simp] theorem throws_error (e : ε) (s : σ) : Throws ((.error e, s) : Called ε α σ) :=
  ⟨e, rfl⟩

@[simp] theorem not_throws_ok (a : α) (s : σ) : ¬ Throws ((.ok a, s) : Called ε α σ) := by
  rintro ⟨e, h⟩
  cases h

theorem not_throws_iff : ¬ Throws c ↔ ∃ a, c.1 = .ok a := by
  obtain ⟨result, s⟩ := c
  cases result with
  | error e => simp
  | ok a => simp

/-- Another result for a call that returns. -/
@[simp] theorem throws_map {γ : Type*} (f : α → γ) :
    Throws ((c.1.map f, c.2) : Called ε γ σ) ↔ Throws c := by
  obtain ⟨result, s⟩ := c
  cases result with
  | error e => simp [Except.map]
  | ok a => simp [Except.map]

theorem Strong.of_same (h : c.2 = s) : Strong view s c := fun _ => by rw [h]

theorem Strong.of_returns (h : ¬ Throws c) : Strong view s c := fun hthrows => absurd hthrows h

end Transition
