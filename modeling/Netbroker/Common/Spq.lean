import Mathlib.Data.List.Basic

/-!
# `BDS::SPQ`

The queue of pointers under the two pools of items. Its source is not in the repository, so its
calls are parameters, and what the pools rely on is stated as laws over a view of the queue
as a list.
-/

namespace Netbroker

universe u v

/-- `INT_MAX`. -/
def intMax : Int := 2147483647

/-- A sum of two `int`s has no meaning beyond `INT_MAX`. -/
def checkedInt (n : Int) : Option Int := if n ≤ intMax then some n else none

/-- The calls. `SPQ_GetHead` writes into a variable of the caller; a result is `true` for
`SPQ_OK`. -/
structure Spq (σ : Type u) (α : Type v) where
  create : Int → Int → σ
  putTail : σ → α → Bool × σ
  getHead : σ → α → Bool × α × σ

namespace Spq

variable {σ : Type u} {α : Type v}

/-- A queue of the capacity that it was created with: first in, first out, a put succeeds while
there is room, and a get fails exactly when the queue is empty. -/
structure Fifo (spq : Spq σ α) (contents : σ → List α) (capacity : σ → Int) : Prop where
  create : ∀ n k, contents (spq.create n k) = [] ∧ capacity (spq.create n k) = n
  putTail : ∀ q x, ((contents q).length : Int) < capacity q →
    (spq.putTail q x).1 = true ∧ contents (spq.putTail q x).2 = contents q ++ [x] ∧
      capacity (spq.putTail q x).2 = capacity q
  getHead : ∀ q x rest dest, contents q = x :: rest →
    (spq.getHead q dest).1 = true ∧ (spq.getHead q dest).2.1 = x ∧
      contents (spq.getHead q dest).2.2 = rest ∧ capacity (spq.getHead q dest).2.2 = capacity q
  getHead_empty : ∀ q dest, contents q = [] →
    (spq.getHead q dest).1 = false ∧ contents (spq.getHead q dest).2.2 = [] ∧
      capacity (spq.getHead q dest).2.2 = capacity q

/-- Beyond that, a full queue takes nothing in, and a failing get leaves the caller's variable
alone. -/
structure Bounded (spq : Spq σ α) (contents : σ → List α) (capacity : σ → Int) : Prop
    extends Fifo spq contents capacity where
  putTail_full : ∀ q x, capacity q ≤ ((contents q).length : Int) →
    (spq.putTail q x).1 = false ∧ contents (spq.putTail q x).2 = contents q ∧
      capacity (spq.putTail q x).2 = capacity q
  getHead_untouched : ∀ q dest, contents q = [] → (spq.getHead q dest).2.1 = dest

/-- A queue that is a list beside its capacity. -/
def ofList (α : Type v) : Spq (Int × List α) α where
  create n _ := (n, [])
  putTail q x := if (q.2.length : Int) < q.1 then (true, (q.1, q.2 ++ [x])) else (false, q)
  getHead q dest :=
    match q.2 with
    | [] => (false, dest, q)
    | x :: rest => (true, x, (q.1, rest))

/-- The laws can be met. -/
theorem ofList_bounded (α : Type v) : (ofList α).Bounded Prod.snd Prod.fst where
  create _ _ := ⟨rfl, rfl⟩
  putTail q x hroom := by simp only [ofList, if_pos hroom, and_self]
  putTail_full q x hfull := by simp only [ofList, if_neg (Int.not_lt.mpr hfull), and_self]
  getHead q x rest dest hq := by simp only [ofList, hq, and_self]
  getHead_empty q dest hq := by simp only [ofList, hq, and_self]
  getHead_untouched q dest hq := by simp only [ofList, hq]

end Spq

end Netbroker
