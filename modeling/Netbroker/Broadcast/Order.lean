import Mathlib.Data.List.Basic
import Mathlib.Logic.Function.Basic
import Netbroker.Transition.Machine

/-!
# Broadcast in one order

What a group of processes is for that multicast messages to each other. A message waits at
its sender until it gets its place in the order, each process receives the messages in that
order and delivers them in it, and a safe message is delivered only when all processes have
received it. How far a process is, is a number: the order is the same for all.

`Within` bounds what each process sees by the order, and a run keeps it. An implementation may
move by more than one place at a time: the last lemmas are the runs of one process to which
such a step corresponds.
-/

namespace Broadcast

open Transition

universe u v

variable {ι : Type u} {μ : Type v} [DecidableEq ι]

structure State (ι : Type u) (μ : Type v) where
  pending : ι → List μ
  order : List (ι × μ)
  received : ι → Nat
  delivered : ι → Nat

inductive Event (ι : Type u) (μ : Type v) where
  | submit (x : ι) (m : μ)
  | order (x : ι)
  | receive (x : ι)
  | deliver (x : ι)

/-- The message that an event hands in. -/
def Event.submitted : Event ι μ → Option (ι × μ)
  | .submit x m => some (x, m)
  | _ => none

/-- The message that `x` delivers next may be delivered. -/
structure State.Ready (safe : μ → Prop) (s : State ι μ) (x : ι) : Prop where
  received : s.delivered x < s.received x
  stable : ∀ p, s.order[s.delivered x]? = some p → safe p.2 → ∀ y, s.delivered x < s.received y

open Classical in
/-- A delivery shows the process, and the message with its sender. -/
noncomputable def State.step (safe : μ → Prop) (s : State ι μ) :
    Event ι μ → Option (State ι μ × Option (ι × ι × μ))
  | .submit x m =>
      some ({ s with pending := Function.update s.pending x (s.pending x ++ [m]) }, none)
  | .order x =>
      match s.pending x with
      | [] => none
      | m :: rest =>
          some ({ s with
            pending := Function.update s.pending x rest
            order := s.order ++ [(x, m)] }, none)
  | .receive x =>
      if s.received x < s.order.length then
        some ({ s with received := Function.update s.received x (s.received x + 1) }, none)
      else none
  | .deliver x =>
      if s.Ready safe x then
        some ({ s with delivered := Function.update s.delivered x (s.delivered x + 1) },
          s.order[s.delivered x]?.map fun p => (x, p))
      else none

structure Initial (s : State ι μ) : Prop where
  order : s.order = []
  received : ∀ x, s.received x = 0
  delivered : ∀ x, s.delivered x = 0

noncomputable def machine (safe : μ → Prop) :
    Machine (State ι μ) (Event ι μ) (Option (ι × ι × μ)) where
  init := Initial
  step := State.step safe

variable {safe : μ → Prop} {s s' : State ι μ} {x : ι}

abbrev Trace (ι : Type u) (μ : Type v) := List (Event ι μ × Option (ι × ι × μ))

/-- What has been handed in. -/
def submissions (trace : Trace ι μ) : List (ι × μ) := trace.filterMap fun e => e.1.submitted

/-- What a process has delivered. -/
def deliveries (x : ι) (trace : Trace ι μ) : List (ι × μ) :=
  trace.filterMap fun e => e.2.bind fun d => if d.1 = x then some d.2 else none

/-- No process is ahead of the order, and each sender's messages are in the order or still
wait, as they were handed in. -/
structure Within (start : ι → List μ) (trace : Trace ι μ) (s : State ι μ) : Prop where
  received : ∀ x, s.received x ≤ s.order.length
  delivered : ∀ x, s.delivered x ≤ s.received x
  shown : ∀ x, deliveries x trace = s.order.take (s.delivered x)
  fifo : ∀ x, (s.order.filter fun p => p.1 = x).map Prod.snd ++ s.pending x =
    start x ++ ((submissions trace).filter fun p => p.1 = x).map Prod.snd

theorem Within.initial (h : Initial s) : Within s.pending [] s where
  received x := by rw [h.received x]; exact Nat.zero_le _
  delivered x := by rw [h.delivered x]; exact Nat.zero_le _
  shown x := by rw [h.delivered x]; rfl
  fifo x := by simp [h.order, submissions]

omit [DecidableEq ι] in
theorem submissions_append (trace trace' : Trace ι μ) :
    submissions (trace ++ trace') = submissions trace ++ submissions trace' :=
  List.filterMap_append

omit [DecidableEq ι] in
theorem submissions_snoc (trace : Trace ι μ) (e : Event ι μ) (o : Option (ι × ι × μ)) :
    submissions (trace ++ [(e, o)]) = submissions trace ++ e.submitted.toList := by
  rw [submissions_append]
  cases h : e.submitted <;> simp [submissions, h]

theorem deliveries_snoc (x : ι) (trace : Trace ι μ) (e : Event ι μ) (o : Option (ι × ι × μ)) :
    deliveries x (trace ++ [(e, o)]) = deliveries x trace ++
      (o.bind fun d => if d.1 = x then some d.2 else none).toList := by
  rw [deliveries, List.filterMap_append]
  cases h : o.bind fun d => if d.1 = x then some d.2 else none <;> simp [deliveries, h]

omit [DecidableEq ι] in
theorem submissions_snoc_none {trace : Trace ι μ} {e : Event ι μ} {o : Option (ι × ι × μ)}
    (h : e.submitted = none) : submissions (trace ++ [(e, o)]) = submissions trace := by
  rw [submissions_snoc, h, Option.toList_none, List.append_nil]

theorem deliveries_snoc_none (x : ι) (trace : Trace ι μ) (e : Event ι μ) :
    deliveries x (trace ++ [(e, none)]) = deliveries x trace := by
  rw [deliveries_snoc, Option.bind_none, Option.toList_none, List.append_nil]

/-- The cases of a step. -/
theorem step_cases {e : Event ι μ} {o : Option (ι × ι × μ)}
    (h : s.step safe e = some (s', o)) :
    (∃ x m, e = .submit x m ∧ o = none ∧
      s' = { s with pending := Function.update s.pending x (s.pending x ++ [m]) }) ∨
    (∃ x m rest, e = .order x ∧ o = none ∧ s.pending x = m :: rest ∧
      s' = { s with
        pending := Function.update s.pending x rest, order := s.order ++ [(x, m)] }) ∨
    (∃ x, e = .receive x ∧ o = none ∧ s.received x < s.order.length ∧
      s' = { s with received := Function.update s.received x (s.received x + 1) }) ∨
    ∃ x, e = .deliver x ∧ s.Ready safe x ∧
      o = s.order[s.delivered x]?.map (fun p => (x, p)) ∧
      s' = { s with delivered := Function.update s.delivered x (s.delivered x + 1) } := by
  cases e with
  | submit x m =>
      obtain ⟨rfl, rfl⟩ := Prod.mk.inj (Option.some.inj h)
      exact .inl ⟨x, m, rfl, rfl, rfl⟩
  | order x =>
      simp only [State.step] at h
      split at h
      · cases h
      · rename_i m rest hpending
        obtain ⟨rfl, rfl⟩ := Prod.mk.inj (Option.some.inj h)
        exact .inr (.inl ⟨x, m, rest, rfl, rfl, hpending, rfl⟩)
  | receive x =>
      simp only [State.step] at h
      split at h
      · rename_i hlt
        obtain ⟨rfl, rfl⟩ := Prod.mk.inj (Option.some.inj h)
        exact .inr (.inr (.inl ⟨x, rfl, rfl, hlt, rfl⟩))
      · cases h
  | deliver x =>
      simp only [State.step] at h
      split at h
      · rename_i hready
        obtain ⟨rfl, rfl⟩ := Prod.mk.inj (Option.some.inj h)
        exact .inr (.inr (.inr ⟨x, rfl, hready, rfl, rfl⟩))
      · cases h

theorem Within.submit {start : ι → List μ} {trace : Trace ι μ} (h : Within start trace s)
    (y : ι) (m : μ) : Within start (trace ++ [(.submit y m, none)])
      { s with pending := Function.update s.pending y (s.pending y ++ [m]) } where
  received := h.received
  delivered := h.delivered
  shown x := by rw [deliveries_snoc_none]; exact h.shown x
  fifo x := by
    have hfifo := h.fifo x
    have hadded : (Event.submit y m).submitted = some (y, m) := rfl
    rw [submissions_snoc, hadded, Option.toList_some, List.filter_append, List.map_append,
      ← List.append_assoc, ← hfifo]
    by_cases hx : x = y
    · subst hx
      simp
    · have hne : ¬ y = x := fun heq => hx heq.symm
      simp [hx, hne]

theorem Within.order {start : ι → List μ} {trace : Trace ι μ} (h : Within start trace s)
    {y : ι} {m : μ} {rest : List μ} (hpending : s.pending y = m :: rest) :
    Within start (trace ++ [(.order y, none)])
      { s with
        pending := Function.update s.pending y rest, order := s.order ++ [(y, m)] } where
  received x := by
    have hlen : (s.order ++ [(y, m)]).length = s.order.length + 1 := List.length_append
    exact Nat.le_trans (h.received x) (by rw [hlen]; exact Nat.le_succ _)
  delivered := h.delivered
  shown x := by
    have hwithin := Nat.le_trans (h.delivered x) (h.received x)
    rw [deliveries_snoc_none, List.take_append_of_le_length hwithin]
    exact h.shown x
  fifo x := by
    have hfifo := h.fifo x
    rw [submissions_snoc_none rfl, ← hfifo, List.filter_append, List.map_append]
    by_cases hx : x = y
    · subst hx
      simp [hpending]
    · have hne : ¬ y = x := fun heq => hx heq.symm
      simp [hx, hne]

theorem Within.receive {start : ι → List μ} {trace : Trace ι μ} (h : Within start trace s)
    {y : ι} (hlt : s.received y < s.order.length) :
    Within start (trace ++ [(.receive y, none)])
      { s with received := Function.update s.received y (s.received y + 1) } where
  received x := by
    by_cases hx : x = y
    · subst hx
      simpa using Nat.succ_le_of_lt hlt
    · simpa [hx] using h.received x
  delivered x := by
    by_cases hx : x = y
    · subst hx
      simpa using Nat.le_succ_of_le (h.delivered x)
    · simpa [hx] using h.delivered x
  shown x := by rw [deliveries_snoc_none]; exact h.shown x
  fifo x := by rw [submissions_snoc_none rfl]; exact h.fifo x

/-- What is delivered is the next message of the order. -/
theorem Within.deliver {start : ι → List μ} {trace : Trace ι μ} (h : Within start trace s)
    {y : ι} (hlt : s.delivered y < s.received y) :
    Within start (trace ++ [(.deliver y, s.order[s.delivered y]?.map fun p => (y, p))])
      { s with delivered := Function.update s.delivered y (s.delivered y + 1) } where
  received := h.received
  delivered x := by
    by_cases hx : x = y
    · subst hx
      simpa using Nat.succ_le_of_lt hlt
    · simpa [hx] using h.delivered x
  shown x := by
    have hnext := Nat.lt_of_lt_of_le hlt (h.received y)
    have hsome := List.getElem?_eq_getElem hnext
    rw [deliveries_snoc, h.shown x, hsome]
    by_cases hx : x = y
    · subst hx
      simp only [Function.update_self, List.take_add_one, hsome]
      simp
    · have hne : ¬ y = x := fun heq => hx heq.symm
      simp [hx, hne]
  fifo x := by rw [submissions_snoc_none rfl]; exact h.fifo x

theorem Within.step {start : ι → List μ} {trace : Trace ι μ} {e : Event ι μ}
    {o : Option (ι × ι × μ)} (h : Within start trace s)
    (hstep : s.step safe e = some (s', o)) : Within start (trace ++ [(e, o)]) s' := by
  obtain ⟨y, m, rfl, rfl, rfl⟩ | ⟨y, m, rest, rfl, rfl, hpending, rfl⟩ | ⟨y, rfl, rfl, hlt, rfl⟩ |
    ⟨y, rfl, hready, rfl, rfl⟩ := step_cases hstep
  · exact h.submit y m
  · exact h.order hpending
  · exact h.receive hlt
  · exact h.deliver hready.received

/-- Each process delivers a beginning of the order, in which each sender's messages are as
they were handed in. -/
theorem run_within {trace : Trace ι μ} (hinit : Initial s)
    (run : (machine safe).Run (fun _ _ => True) s trace s') : Within s.pending trace s' :=
  run.history (Within.initial hinit) fun _ _ _ _ _ h _ hstep => h.step hstep

/-- The first messages that wait at a process get their places. -/
theorem run_order (safe : μ → Prop) {l rest : List μ} (h : s.pending x = l ++ rest) :
    ∃ trace, submissions trace = [] ∧ (machine safe).Run (fun _ _ => True) s trace
      { s with
        pending := Function.update s.pending x rest, order := s.order ++ l.map fun m => (x, m) } := by
  induction l generalizing s with
  | nil =>
      refine ⟨[], rfl, ?_⟩
      rw [List.nil_append] at h
      rw [← h, Function.update_eq_self, List.map_nil, List.append_nil]
      exact .nil
  | cons m l ih =>
      let next : State ι μ :=
        { s with pending := Function.update s.pending x (l ++ rest), order := s.order ++ [(x, m)] }
      have hnext : next.pending x = l ++ rest := Function.update_self ..
      obtain ⟨trace, hnone, run⟩ := ih hnext
      have hstep : (machine safe).step s (.order x) = some (next, none) := by
        simp only [machine, State.step, h, List.cons_append]
        rfl
      refine ⟨(.order x, none) :: trace, hnone, .cons trivial hstep ?_⟩
      simpa [next, Function.update_idem] using run

/-- A process receives what is in the order. -/
theorem run_receive (safe : μ → Prop) {k : Nat} (h : s.received x + k ≤ s.order.length) :
    ∃ trace, submissions trace = [] ∧ (machine safe).Run (fun _ _ => True) s trace
      { s with received := Function.update s.received x (s.received x + k) } := by
  induction k with
  | zero =>
      refine ⟨[], rfl, ?_⟩
      rw [Nat.add_zero, Function.update_eq_self]
      exact .nil
  | succ k ih =>
      obtain ⟨trace, hnone, run⟩ := ih (by omega)
      refine ⟨trace ++ [(.receive x, none)], ?_, run.snoc trivial ?_⟩
      · rw [submissions_snoc, hnone]
        rfl
      · simp only [machine, State.step, Function.update_self]
        rw [if_pos (by omega)]
        simp [Nat.add_assoc]

/-- A process delivers what it has received, the safe messages among it once all have them. -/
theorem run_deliver (safe : μ → Prop) {k : Nat} (h : s.delivered x + k ≤ s.received x)
    (hsafe : ∀ i, s.delivered x ≤ i → i < s.delivered x + k → ∀ p, s.order[i]? = some p →
      safe p.2 → ∀ y, i < s.received y) :
    ∃ trace, submissions trace = [] ∧ (machine safe).Run (fun _ _ => True) s trace
      { s with delivered := Function.update s.delivered x (s.delivered x + k) } := by
  induction k with
  | zero =>
      refine ⟨[], rfl, ?_⟩
      rw [Nat.add_zero, Function.update_eq_self]
      exact .nil
  | succ k ih =>
      obtain ⟨trace, hnone, run⟩ := ih (by omega) fun i hi hi' => hsafe i hi (by omega)
      refine ⟨trace ++ [(.deliver x, s.order[s.delivered x + k]?.map fun p => (x, p))], ?_,
        run.snoc trivial ?_⟩
      · rw [submissions_snoc, hnone]
        rfl
      · have hready : State.Ready safe
            { s with delivered := Function.update s.delivered x (s.delivered x + k) } x := by
          constructor
          · simp only [Function.update_self]
            omega
          · simp only [Function.update_self]
            exact hsafe (s.delivered x + k) (by omega) (by omega)
        simp only [machine, State.step]
        rw [if_pos hready]
        simp [Nat.add_assoc]

end Broadcast
