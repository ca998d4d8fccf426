import Mathlib.Data.List.Induction
import Mathlib.Data.Option.Basic

/-!
# Machines with events, their runs, and what runs preserve

A machine takes one atomic step for an event, which names the moving party and
every choice of the environment, so the step itself is a function and a concrete
schedule can be evaluated. A disabled event is `none`: a blocked party does not move.

A run keeps the whole trace of events and observations. Its steps satisfy a
condition `legal`, which states an assumption on the environment or excludes a
kind of step; `fun _ _ => True` gives all runs. The rules below package the
induction over a run once, with and without the trace.

A schedule is evaluated by `exec`, and an evaluation that gets through is a run. A log beside
the state, `recording`, turns what happened earlier into a part of the state without acting on
the steps. `Refines` and `Simulates` carry runs of one machine over to another, the one with a
trace that is read off the steps, the other with equal observations.
-/

namespace Transition

universe u v w

/-- Initial states and the deterministic effect of one event, with what an
observer of that step sees. -/
structure Machine (σ : Type u) (ε : Type v) (ο : Type w) where
  init : σ → Prop
  step : σ → ε → Option (σ × ο)

namespace Machine

variable {σ : Type u} {ε : Type v} {ο : Type w}
variable {M : Machine σ ε ο} {legal legal' : σ → ε → Prop}

/-- Runs from `s` whose steps are all legal, extended at the end. -/
inductive Run (M : Machine σ ε ο) (legal : σ → ε → Prop) (s : σ) :
    List (ε × ο) → σ → Prop
  | nil : Run M legal s [] s
  | snoc {trace : List (ε × ο)} {t u : σ} {e : ε} {o : ο}
      (run : Run M legal s trace t) (allowed : legal t e)
      (move : M.step t e = some (u, o)) : Run M legal s (trace ++ [(e, o)]) u

/-- States that some legal run reaches from an initial state. -/
def Reachable (M : Machine σ ε ο) (legal : σ → ε → Prop) (t : σ) : Prop :=
  ∃ s trace, M.init s ∧ M.Run legal s trace t

namespace Run

variable {s t u : σ} {trace trace' : List (ε × ο)}

theorem single {e : ε} {o : ο} (allowed : legal s e) (move : M.step s e = some (t, o)) :
    M.Run legal s [(e, o)] t :=
  .snoc .nil allowed move

theorem trans (first : M.Run legal s trace t) (second : M.Run legal t trace' u) :
    M.Run legal s (trace ++ trace') u := by
  induction second with
  | nil => simpa using first
  | snoc _ allowed move ih =>
      rw [← List.append_assoc]
      exact .snoc ih allowed move

theorem cons {e : ε} {o : ο} (allowed : legal s e) (move : M.step s e = some (t, o))
    (rest : M.Run legal t trace u) : M.Run legal s ((e, o) :: trace) u :=
  (single allowed move).trans rest

theorem mono (h : M.Run legal s trace t) (weaker : ∀ a e, legal a e → legal' a e) :
    M.Run legal' s trace t := by
  induction h with
  | nil => exact .nil
  | snoc _ allowed move ih => exact .snoc ih (weaker _ _ allowed) move

/-- The last step of a run, by inversion. -/
theorem snoc_inv {e : ε} {o : ο} (h : M.Run legal s (trace ++ [(e, o)]) u) :
    ∃ t, M.Run legal s trace t ∧ legal t e ∧ M.step t e = some (u, o) := by
  generalize htrace : trace ++ [(e, o)] = whole at h
  cases h with
  | nil => simp at htrace
  | snoc run allowed move =>
      obtain ⟨rfl, hlast⟩ := List.append_inj' htrace rfl
      obtain ⟨rfl, rfl⟩ := Prod.mk.inj (List.singleton_inj.mp hlast)
      exact ⟨_, run, allowed, move⟩

theorem nil_inv (h : M.Run legal s [] u) : u = s := by
  generalize htrace : ([] : List (ε × ο)) = whole at h
  cases h with
  | nil => rfl
  | snoc => simp at htrace

/-- The state between two parts of a trace. -/
theorem split (h : M.Run legal s (trace ++ trace') u) :
    ∃ t, M.Run legal s trace t ∧ M.Run legal t trace' u := by
  induction trace' using List.reverseRecOn generalizing u with
  | nil => exact ⟨u, by simpa using h, .nil⟩
  | append_singleton rest last ih =>
      rw [← List.append_assoc] at h
      obtain ⟨t, run, allowed, move⟩ := h.snoc_inv
      obtain ⟨middle, first, second⟩ := ih run
      exact ⟨middle, first, .snoc second allowed move⟩

/-- The first step of a run, by inversion. -/
theorem cons_inv {e : ε} {o : ο} (h : M.Run legal s ((e, o) :: trace) u) :
    ∃ t, legal s e ∧ M.step s e = some (t, o) ∧ M.Run legal t trace u := by
  have hsplit : M.Run legal s ([(e, o)] ++ trace) u := h
  obtain ⟨t, first, rest⟩ := hsplit.split
  have hlast : M.Run legal s ([] ++ [(e, o)]) t := first
  obtain ⟨s', hnil, allowed, move⟩ := hlast.snoc_inv
  obtain rfl := hnil.nil_inv
  exact ⟨t, allowed, move, rest⟩

/-- What every legal step preserves holds at the end of a run. -/
theorem invariant {I : σ → Prop} (h : M.Run legal s trace t) (start : I s)
    (preserved : ∀ a e b o, I a → legal a e → M.step a e = some (b, o) → I b) : I t := by
  induction h with
  | nil => exact start
  | snoc _ allowed move ih => exact preserved _ _ _ _ ih allowed move

/-- The same rule for an assertion about the state and the trace that led to it. -/
theorem history {I : List (ε × ο) → σ → Prop} (h : M.Run legal s trace t) (start : I [] s)
    (preserved : ∀ past a e b o, I past a → legal a e → M.step a e = some (b, o) →
      I (past ++ [(e, o)]) b) : I trace t := by
  induction h with
  | nil => exact start
  | snoc _ allowed move ih => exact preserved _ _ _ _ _ ih allowed move

/-- Strengthen the step condition by an invariant of the states it is read in. -/
theorem strengthen {I : σ → Prop} (h : M.Run legal s trace t) (start : I s)
    (preserved : ∀ a e b o, I a → legal a e → M.step a e = some (b, o) → I b) :
    M.Run (fun a e => I a ∧ legal a e) s trace t := by
  induction h with
  | nil => exact .nil
  | snoc run allowed move ih =>
      exact .snoc ih ⟨run.invariant start preserved, allowed⟩ move

/-- The step is a function, so a trace leads to one state. -/
theorem deterministic (h : M.Run legal s trace t) (h' : M.Run legal' s trace u) : t = u := by
  induction h generalizing u with
  | nil => exact h'.nil_inv.symm
  | snoc _ _ move ih =>
      obtain ⟨middle, first, -, last⟩ := h'.snoc_inv
      rw [ih first, last] at move
      exact (Prod.mk.inj (Option.some.inj move)).1.symm

/-- An assertion that each step keeps or loses for good, by a condition on the step, holds
at the end exactly when all steps met the condition. -/
theorem legal_iff {F I : σ → Prop} (run : M.Run (fun _ _ => True) s trace t) (start : I s)
    (holds : F s) (kept : ∀ a e b o, I a → M.step a e = some (b, o) → I b)
    (exact : ∀ a e b o, I a → M.step a e = some (b, o) → (F b ↔ F a ∧ legal a e)) :
    F t ↔ M.Run legal s trace t := by
  induction run with
  | nil => exact iff_of_true holds .nil
  | snoc run _ move ih =>
      have hinv := run.invariant start fun a e b o ha _ => kept a e b o ha
      rw [exact _ _ _ _ hinv move, ih]
      constructor
      · rintro ⟨past, allowed⟩
        exact past.snoc allowed move
      · intro h
        obtain ⟨middle, past, allowed, -⟩ := h.snoc_inv
        obtain rfl := past.deterministic run
        exact ⟨past, allowed⟩

end Run

/-- Every step that the trace takes satisfies a relation. -/
def EveryStep (M : Machine σ ε ο) (s : σ) (trace : List (ε × ο)) (Q : σ → ε → σ → ο → Prop) :
    Prop :=
  ∀ past e o rest a b, trace = past ++ (e, o) :: rest → M.Run (fun _ _ => True) s past a →
    M.step a e = some (b, o) → Q a e b o

section EveryStep

variable {s t u : σ} {trace : List (ε × ο)} {Q : σ → ε → σ → ο → Prop}

theorem everyStep_nil : M.EveryStep s [] Q := by
  intro past e o rest a b h
  simp at h

theorem everyStep_snoc {e : ε} {o : ο} (run : M.Run (fun _ _ => True) s trace t)
    (move : M.step t e = some (u, o)) :
    M.EveryStep s (trace ++ [(e, o)]) Q ↔ M.EveryStep s trace Q ∧ Q t e u o := by
  constructor
  · intro h
    refine ⟨fun past e' o' rest a b htrace first step => ?_, h trace e o [] t u rfl run move⟩
    exact h past e' o' (rest ++ [(e, o)]) a b (by simp [htrace]) first step
  · rintro ⟨h, hlast⟩ past e' o' rest a b htrace first step
    rcases rest.eq_nil_or_concat with rfl | ⟨rest, last, rfl⟩
    · obtain ⟨rfl, hlast'⟩ := List.append_inj' htrace rfl
      obtain ⟨rfl, rfl⟩ := Prod.mk.inj (List.singleton_inj.mp hlast')
      obtain rfl := run.deterministic first
      obtain ⟨rfl, -⟩ := Prod.mk.inj (Option.some.inj (move.symm.trans step))
      exact hlast
    · have hinit : trace = past ++ (e', o') :: rest := by
        have hsplit : trace ++ [(e, o)] = (past ++ (e', o') :: rest) ++ [last] := by
          simpa using htrace
        exact (List.append_inj' hsplit rfl).1
      exact h past e' o' rest a b hinit first step

/-- Where a condition on a step is exactly what the relation asks of it, the condition
on all steps of a run is exactly what the relation asks of the run. -/
theorem Run.everyStep_iff {I : σ → Prop} (run : M.Run (fun _ _ => True) s trace t) (start : I s)
    (kept : ∀ a e b o, I a → M.step a e = some (b, o) → Q a e b o → I b)
    (exact : ∀ a e b o, I a → M.step a e = some (b, o) → (Q a e b o ↔ legal a e)) :
    M.EveryStep s trace Q ↔ M.Run legal s trace t := by
  have hboth : (M.EveryStep s trace Q ↔ M.Run legal s trace t) ∧
      (M.EveryStep s trace Q → I t) := by
    induction run with
    | nil => exact ⟨⟨fun _ => .nil, fun _ => everyStep_nil⟩, fun _ => start⟩
    | snoc run _ move ih =>
        obtain ⟨hiff, hinv⟩ := ih
        rw [everyStep_snoc run move]
        refine ⟨⟨fun h => ?_, fun h => ?_⟩, fun h => kept _ _ _ _ (hinv h.1) move h.2⟩
        · exact .snoc (hiff.mp h.1) ((exact _ _ _ _ (hinv h.1) move).mp h.2) move
        · obtain ⟨middle, first, allowed, last⟩ := h.snoc_inv
          obtain rfl := first.deterministic run
          have hbefore := hiff.mpr first
          exact ⟨hbefore, (exact _ _ _ _ (hinv hbefore) move).mpr allowed⟩
  exact hboth.1

end EveryStep

theorem Reachable.invariant {I : σ → Prop} {t : σ} (h : M.Reachable legal t)
    (start : ∀ s, M.init s → I s)
    (preserved : ∀ a e b o, I a → legal a e → M.step a e = some (b, o) → I b) : I t := by
  obtain ⟨s, trace, hinit, run⟩ := h
  exact run.invariant (start s hinit) preserved

theorem Reachable.mono {t : σ} (h : M.Reachable legal t)
    (weaker : ∀ a e, legal a e → legal' a e) : M.Reachable legal' t := by
  obtain ⟨s, trace, hinit, run⟩ := h
  exact ⟨s, trace, hinit, run.mono weaker⟩

theorem Reachable.next {t u : σ} {e : ε} {o : ο} (h : M.Reachable legal t)
    (allowed : legal t e) (move : M.step t e = some (u, o)) : M.Reachable legal u := by
  obtain ⟨s, trace, hinit, run⟩ := h
  exact ⟨s, _, hinit, run.snoc allowed move⟩

section Exec

variable [∀ s e, Decidable (legal s e)]

/-- Execute a list of events, checking each step's condition on the way. -/
def exec (M : Machine σ ε ο) (legal : σ → ε → Prop) [∀ s e, Decidable (legal s e)] :
    σ → List ε → Option (List (ε × ο) × σ)
  | s, [] => some ([], s)
  | s, e :: rest =>
      if legal s e then
        match M.step s e with
        | none => none
        | some (t, o) => (exec M legal t rest).map fun r => ((e, o) :: r.1, r.2)
      else none

theorem Run.of_exec {s t : σ} {events : List ε} {trace : List (ε × ο)}
    (h : M.exec legal s events = some (trace, t)) : M.Run legal s trace t := by
  induction events generalizing s trace with
  | nil =>
      simp only [exec, Option.some.injEq, Prod.mk.injEq] at h
      obtain ⟨rfl, rfl⟩ := h
      exact .nil
  | cons e rest ih =>
      simp only [exec] at h
      split at h
      · rename_i allowed
        split at h
        · simp at h
        · rename_i middle o move
          obtain ⟨⟨trace', last⟩, hrest, heq⟩ := Option.map_eq_some_iff.mp h
          obtain ⟨rfl, rfl⟩ := Prod.mk.injEq .. ▸ heq
          exact .cons allowed move (ih hrest)
      · simp at h

/-- A schedule that runs gives a run to the state it ends in. -/
theorem Run.exists_of_exec (M : Machine σ ε ο) (legal : σ → ε → Prop)
    [∀ s e, Decidable (legal s e)] (s : σ) (events : List ε) (P : List (ε × ο) → σ → Prop)
    [∀ trace t, Decidable (P trace t)]
    (h : (M.exec legal s events).any (fun r => P r.1 r.2) = true) :
    ∃ trace t, M.Run legal s trace t ∧ P trace t := by
  cases hexec : M.exec legal s events with
  | none => simp [hexec] at h
  | some r => exact ⟨r.1, r.2, .of_exec hexec, by simpa [hexec] using h⟩

theorem Reachable.exists_of_exec (legal : σ → ε → Prop) [∀ s e, Decidable (legal s e)] {s : σ}
    (hinit : M.init s) (events : List ε) (P : σ → Prop) [∀ t, Decidable (P t)]
    (h : (M.exec legal s events).any (fun r => P r.2) = true) :
    ∃ t, M.Reachable legal t ∧ P t := by
  obtain ⟨trace, t, run, ht⟩ := Run.exists_of_exec M legal s events (fun _ t => P t) h
  exact ⟨t, ⟨s, trace, hinit, run⟩, ht⟩

end Exec

/-- The machine with a log beside its state: `record` reads the state ahead of the
step, the event and the observation. The log does not act on the steps. -/
def recording {η : Type*} (M : Machine σ ε ο) (empty : η) (record : η → σ → ε → ο → η) :
    Machine (σ × η) ε ο where
  init x := M.init x.1 ∧ x.2 = empty
  step x e := (M.step x.1 e).map fun (s, o) => ((s, record x.2 x.1 e o), o)

theorem recording_step {η : Type*} {empty : η} {record : η → σ → ε → ο → η} {x y : σ × η}
    {e : ε} {o : ο} (h : (M.recording empty record).step x e = some (y, o)) :
    M.step x.1 e = some (y.1, o) ∧ y.2 = record x.2 x.1 e o := by
  obtain ⟨⟨s, o'⟩, hstep, heq⟩ := Option.map_eq_some_iff.mp h
  obtain ⟨rfl, rfl⟩ := Prod.mk.inj heq
  exact ⟨hstep, rfl⟩

/-- `M` refines `A` through `R`: each step of `M` is answered by a run of `A`,
whose trace is read off the step by `project` (empty for a silent step). -/
structure Refines {σ' : Type u} {ε' : Type v} {ο' : Type w} (M : Machine σ ε ο)
    (legal : σ → ε → Prop) (A : Machine σ' ε' ο') (R : σ → σ' → Prop)
    (project : ε × ο → List (ε' × ο')) : Prop where
  start : ∀ s, M.init s → ∃ a, A.init a ∧ R s a
  move : ∀ s a e t o, R s a → legal s e → M.step s e = some (t, o) →
    ∃ b, A.Run (fun _ _ => True) a (project (e, o)) b ∧ R t b

/-- A refinement lifts from steps to runs, with the projected trace. -/
theorem Refines.run {σ' : Type u} {ε' : Type v} {ο' : Type w} {A : Machine σ' ε' ο'}
    {R : σ → σ' → Prop} {project : ε × ο → List (ε' × ο')} (h : Refines M legal A R project)
    {s t : σ} {a : σ'} {trace : List (ε × ο)} (run : M.Run legal s trace t) (hR : R s a) :
    ∃ b, A.Run (fun _ _ => True) a (trace.flatMap project) b ∧ R t b := by
  induction run with
  | nil => exact ⟨a, .nil, hR⟩
  | snoc _ allowed move ih =>
      obtain ⟨b, past, hb⟩ := ih
      obtain ⟨c, last, hc⟩ := h.move _ _ _ _ _ hb allowed move
      exact ⟨c, by simpa using past.trans last, hc⟩

/-- `A` simulates `M` through `R`: each step of `M` is answered by a run of `A` that shows the
same. Which run it is may depend on the states. -/
structure Simulates {σ' : Type u} {ε' : Type v} {ο' : Type w} {κ : Type*} (A : Machine σ' ε' ο')
    (shows' : ο' → Option κ) (M : Machine σ ε ο) (legal : σ → ε → Prop) (shows : ο → Option κ)
    (R : σ → σ' → Prop) : Prop where
  move : ∀ s a e t o, R s a → legal s e → M.step s e = some (t, o) →
    ∃ trace b, A.Run (fun _ _ => True) a trace b ∧
      trace.filterMap (fun x => shows' x.2) = (shows o).toList ∧ R t b

/-- A simulation lifts from steps to runs. -/
theorem Simulates.run {σ' : Type u} {ε' : Type v} {ο' : Type w} {κ : Type*}
    {A : Machine σ' ε' ο'} {shows' : ο' → Option κ} {shows : ο → Option κ} {R : σ → σ' → Prop}
    (h : A.Simulates shows' M legal shows R) {s t : σ} {a : σ'} {trace : List (ε × ο)}
    (run : M.Run legal s trace t) (hR : R s a) :
    ∃ trace' b, A.Run (fun _ _ => True) a trace' b ∧
      trace'.filterMap (fun x => shows' x.2) = trace.filterMap (fun x => shows x.2) ∧ R t b := by
  induction run with
  | nil => exact ⟨[], a, .nil, rfl, hR⟩
  | snoc _ allowed move ih =>
      obtain ⟨past', b, past, hpast, hb⟩ := ih
      obtain ⟨last', c, last, hlast, hc⟩ := h.move _ _ _ _ _ hb allowed move
      refine ⟨past' ++ last', c, past.trans last, ?_, hc⟩
      rw [List.filterMap_append, List.filterMap_append, hpast, hlast]
      rfl

end Machine

end Transition
