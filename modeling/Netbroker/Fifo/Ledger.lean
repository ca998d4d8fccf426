import Mathlib.Data.List.DropRight
import Netbroker.Transition.Machine

/-!
# A first-in first-out channel as a ledger

The ledger says what a buffer between producers and consumers is for: everything
accepted is delivered once, in the same order, and what is not delivered yet is
still inside. Clearing discards the contents and starts a new account.

A ledger carries that balance as a field, so there is no unbalanced one. The
laws about histories are proved once for the machine of the three actions, and
an implementation inherits them by refining that machine.
-/

namespace Fifo

open Transition

universe u

variable {α : Type u}

/-- Values accepted and delivered since the last clearing, and the values inside. -/
@[ext] structure Ledger (α : Type u) where
  accepted : List α
  delivered : List α
  contents : List α
  balance : accepted = delivered ++ contents

/-- What a producer, a consumer or an administrator does to the channel. -/
inductive Act (α : Type u) where
  | put (value : α)
  | take
  | clear

/-- An action with the value it delivered, if any. -/
abbrev Entry (α : Type u) := Act α × Option α

namespace Act

def isClear : Act α → Bool
  | .clear => true
  | _ => false

def put? : Act α → Option α
  | .put value => some value
  | _ => none

end Act

/-- The values put in by a history, oldest first. -/
def puts (history : List (Entry α)) : List α := history.filterMap fun entry => entry.1.put?

/-- The values taken out by a history, oldest first. -/
def takes (history : List (Entry α)) : List α := history.filterMap Prod.snd

/-- The part of a history after its last clearing. -/
def sinceClear (history : List (Entry α)) : List (Entry α) :=
  history.rtakeWhile fun entry => !entry.1.isClear

@[simp] theorem puts_nil : puts ([] : List (Entry α)) = [] := rfl
@[simp] theorem takes_nil : takes ([] : List (Entry α)) = [] := rfl
@[simp] theorem sinceClear_nil : sinceClear ([] : List (Entry α)) = [] := rfl

@[simp] theorem puts_append (a b : List (Entry α)) : puts (a ++ b) = puts a ++ puts b :=
  List.filterMap_append

@[simp] theorem takes_append (a b : List (Entry α)) : takes (a ++ b) = takes a ++ takes b :=
  List.filterMap_append

theorem sinceClear_concat (a : List (Entry α)) (entry : Entry α) :
    sinceClear (a ++ [entry]) = if entry.1.isClear then [] else sinceClear a ++ [entry] := by
  cases h : entry.1.isClear <;> simp [sinceClear, h]

namespace Ledger

def empty : Ledger α := ⟨[], [], [], rfl⟩

def put (l : Ledger α) (value : α) : Ledger α where
  accepted := l.accepted ++ [value]
  delivered := l.delivered
  contents := l.contents ++ [value]
  balance := by rw [l.balance, List.append_assoc]

/-- Deliver the head of the contents. -/
def deliver (l : Ledger α) {value : α} {rest : List α} (h : l.contents = value :: rest) :
    Ledger α where
  accepted := l.accepted
  delivered := l.delivered ++ [value]
  contents := rest
  balance := by rw [l.balance, h, List.append_assoc, List.singleton_append]

/-- Only the oldest value can be taken; the empty ledger has none. -/
def step (l : Ledger α) : Act α → Option (Ledger α × Option α)
  | .put value => some (l.put value, none)
  | .take =>
      match h : l.contents with
      | [] => none
      | value :: _ => some (l.deliver h, some value)
  | .clear => some (empty, none)

/-- Everything one action can do to a ledger. -/
theorem step_cases {l m : Ledger α} {act : Act α} {out : Option α}
    (h : l.step act = some (m, out)) :
    (∃ value, act = .put value ∧ out = none ∧ m = l.put value) ∨
      (∃ value rest, ∃ hc : l.contents = value :: rest,
        act = .take ∧ out = some value ∧ m = l.deliver hc) ∨
      (act = .clear ∧ out = none ∧ m = empty) := by
  cases act with
  | put value =>
      obtain ⟨rfl, rfl⟩ := Prod.mk.inj (Option.some.inj h)
      exact .inl ⟨value, rfl, rfl, rfl⟩
  | take =>
      simp only [step] at h
      split at h
      · simp at h
      · rename_i value rest hc
        obtain ⟨rfl, rfl⟩ := Prod.mk.inj (Option.some.inj h)
        exact .inr (.inl ⟨value, rest, hc, rfl, rfl, rfl⟩)
  | clear =>
      obtain ⟨rfl, rfl⟩ := Prod.mk.inj (Option.some.inj h)
      exact .inr (.inr ⟨rfl, rfl, rfl⟩)

/-- A non-empty ledger gives up its head. -/
theorem step_take {l : Ledger α} {value : α} {rest : List α} (h : l.contents = value :: rest) :
    ∃ m, l.step .take = some (m, some value) ∧ m.contents = rest := by
  simp only [step]
  split
  · simp_all
  · rename_i head tail heq
    obtain ⟨rfl, rfl⟩ := List.cons.inj (heq.symm.trans h)
    exact ⟨_, rfl, rfl⟩

end Ledger

/-- The channel as a machine. -/
def channel (α : Type u) : Machine (Ledger α) (Act α) (Option α) where
  init l := l = .empty
  step := Ledger.step

section Laws

variable {legal : Ledger α → Act α → Prop} {l m : Ledger α} {history : List (Entry α)}

/-- The account of a ledger is its history since the last clearing. -/
theorem run_account (run : (channel α).Run legal .empty history m) :
    m.accepted = puts (sinceClear history) ∧ m.delivered = takes (sinceClear history) := by
  refine run.history (I := fun past l => l.accepted = puts (sinceClear past) ∧
    l.delivered = takes (sinceClear past)) ⟨rfl, rfl⟩ ?_
  rintro past a act b out ⟨haccepted, hdelivered⟩ _ move
  obtain ⟨value, rfl, rfl, rfl⟩ | ⟨value, rest, hc, rfl, rfl, rfl⟩ | ⟨rfl, rfl, rfl⟩ :=
    Ledger.step_cases move
  · simp [sinceClear_concat, Act.isClear, Ledger.put, haccepted, hdelivered, puts, takes, Act.put?]
  · simp [sinceClear_concat, Act.isClear, Ledger.deliver, haccepted, hdelivered, puts, takes,
      Act.put?]
  · simp [sinceClear_concat, Act.isClear, Ledger.empty]

/-- Since the last clearing, what went in is what came out and then what is inside. -/
theorem run_balance (run : (channel α).Run legal .empty history m) :
    puts (sinceClear history) = takes (sinceClear history) ++ m.contents := by
  obtain ⟨haccepted, hdelivered⟩ := run_account run
  rw [← haccepted, ← hdelivered]
  exact m.balance

/-- From any ledger on, only its contents and later values come out, in order,
at most once, whether or not the channel is cleared in between. -/
theorem run_takes_sublist (run : (channel α).Run legal l history m) :
    (takes history ++ m.contents).Sublist (l.contents ++ puts history) := by
  refine run.history (I := fun past m =>
    (takes past ++ m.contents).Sublist (l.contents ++ puts past)) (by simp) ?_
  rintro past a act b out ih _ move
  obtain ⟨value, rfl, rfl, rfl⟩ | ⟨value, rest, hc, rfl, rfl, rfl⟩ | ⟨rfl, rfl, rfl⟩ :=
    Ledger.step_cases move
  · have h := ih.append (List.Sublist.refl [value])
    simpa [Ledger.put, puts, takes, Act.put?] using h
  · simpa [Ledger.deliver, puts, takes, Act.put?, hc] using ih
  · have h := (List.sublist_append_left (takes past) a.contents).trans ih
    simpa [Ledger.empty, puts, takes, Act.put?] using h

/-- Nothing accepted before a clearing is delivered after it. -/
theorem run_takes_after_clear {before after : List (Entry α)} {out : Option α}
    (run : (channel α).Run legal .empty (before ++ (.clear, out) :: after) m) :
    (takes after).Sublist (puts after) := by
  obtain ⟨middle, _, later⟩ := Machine.Run.split run
  obtain ⟨cleared, _, move, rest⟩ := later.cons_inv
  obtain ⟨rfl, rfl⟩ := Prod.mk.inj (Option.some.inj move)
  have h := run_takes_sublist rest
  exact (List.sublist_append_left _ _).trans (by simpa [Ledger.empty] using h)

end Laws

end Fifo
