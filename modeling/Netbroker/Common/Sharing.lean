import Netbroker.Common.AutoDeleter

/-!
# Handles over whole runs

Each call either keeps the promise that handles make or breaks it, and which one is decided by
the handles the call is about. What breaks it is a call that uses the counter of a handle
that has none, and a fresh object that is put under a counter others share.

Each constructor, assignment and destructor is taken by itself, from a heap that is `Paired`.
Over a run the promise holds throughout exactly if no call is of the second kind.
-/

namespace Netbroker

open Transition

namespace AutoHeap

variable {x x' : AutoHeap} {h h' : HandleId} {a b : AutoDeleter} {c : CounterId}

/-- The step had a meaning, and the handles have kept their promise. -/
def Keeps (_ : AutoHeap) (_ : AutoEvent) (y : AutoHeap) (result : AutoResult) : Prop :=
  result = .done ∧ Counted y

/-- A handle that gets a fresh object and a new counter has been dropped before. -/
theorem own_setHandle (x : AutoHeap) (h : HandleId) (w : Option AutoDeleter) :
    (x.setHandle h w).own h = x.own h := by
  simp only [own, setHandle, setCounter, Function.update_idem]

theorem ownUnder_setHandle (x : AutoHeap) (h : HandleId) (w : Option AutoDeleter)
    (pCnt : CounterPointer) : (x.setHandle h w).ownUnder h pCnt = x.ownUnder h pCnt := by
  simp only [ownUnder, setHandle, Function.update_idem]

theorem hasCounter_iff (hx : Paired x) (ha : x.handles h = some a) :
    x.hasCounter h = true ↔ ∃ c, a.pCnt = .cell c := by
  rw [hasCounter, ha, Option.any_some]
  constructor
  · intro hsome
    cases hc : a.pCnt with
    | cell c => exact ⟨c, rfl⟩
    | null | wild =>
        rw [hc] at hsome
        cases hsome
  · rintro ⟨c, hc⟩
    obtain ⟨k, hk, -⟩ := hx.counter_of ha hc
    rw [hc, deref, hk]
    rfl

/-- Without a counter there is nothing to count up. -/
theorem copyFrom_eq_none {r : AutoDeleter} (hr : ∀ c, r.pCnt ≠ .cell c) :
    x.copyFrom h r = none := by
  rw [copyFrom, increment]
  cases hc : r.pCnt with
  | cell c => exact absurd hc (hr c)
  | null | wild => rfl

theorem isShared_iff (ha : x.handles h = some a) (hc : a.pCnt = .cell c) {k : ℕ}
    (hk : x.counters c = some ((k + 1 : ℕ) : Int)) : x.isShared h = true ↔ k ≠ 0 := by
  rw [isShared, ha, Option.any_some, hc, deref, hk, Option.map_some, Option.any_some,
    decide_eq_true_eq]
  omega

/-- A call whose condition decides whether it comes to a heap that is counted. -/
theorem ending_keeps {y : AutoHeap} {e : AutoEvent} {result : AutoResult} {op : Option AutoHeap}
    {P : Prop} (hgood : P → ∃ y, op = some y ∧ Paired y)
    (hbad : ¬ P → ∀ y, op = some y → ¬ Counted y) (hstep : x.ending op = (y, result)) :
    (Keeps x e y result → Paired y) ∧ (Keeps x e y result ↔ P) := by
  by_cases hP : P
  · obtain ⟨z, rfl, hz⟩ := hgood hP
    obtain ⟨rfl, rfl⟩ := Prod.mk.inj hstep
    exact ⟨fun _ => hz, fun _ => hP, fun _ => ⟨rfl, hz.toCounted⟩⟩
  · have hnot : ¬ Keeps x e y result := by
      rintro ⟨rfl, hcounted⟩
      cases op with
      | none => cases (Prod.mk.inj hstep).2
      | some z =>
          obtain ⟨rfl, -⟩ := Prod.mk.inj hstep
          exact hbad hP z rfl hcounted
    exact ⟨fun h => absurd h hnot, fun h => absurd h hnot, fun h => absurd h hP⟩

/-- A default handle with the address of a counter is one handle too many. -/
theorem not_counted_default (hx : Paired x) (hfree : x.handles h = none) :
    ¬ Counted (x.setHandle h (some { pObject := none, pCnt := .cell c })) := by
  intro hcounted
  obtain ⟨n, hn⟩ := Option.isSome_iff_exists.mp (hcounted.live h _ c (setHandle_self ..) rfl)
  obtain ⟨k, hk, hshare⟩ := hcounted.count c n hn
  obtain ⟨k', hk', hshare'⟩ := hx.count c n hn
  rw [sharers_setHandle_cell hfree rfl, Set.encard_insert_of_notMem (not_mem_sharers hfree),
    hshare'] at hshare
  have heq : k' + 1 = k := by exact_mod_cast hshare
  omega

/-- A fresh object under a shared counter. -/
theorem not_counted_assignFresh {k : ℕ} (ha : x.handles h = some a) (hc : a.pCnt = .cell c)
    (hencard : (x.sharers c).encard = (k + 1 : ℕ)) :
    ¬ Counted ((x.setCounter c (some (k : Int))).ownUnder h a.pCnt) := by
  intro hcounted
  obtain ⟨m, hm, hshare⟩ := hcounted.count c k (Function.update_self ..)
  have hsame : ((x.setCounter c (some (k : Int))).ownUnder h a.pCnt).sharers c = x.sharers c := by
    ext h'
    constructor
    · rintro ⟨b, hb, hbc⟩
      obtain ⟨rfl, -⟩ | hb := setHandle_some_inv (x := x.setCounter c (some (k : Int))) hb
      · exact ⟨a, ha, hc⟩
      · exact ⟨b, hb, hbc⟩
    · rintro ⟨b, hb, hbc⟩
      by_cases hh : h' = h
      · subst hh
        exact ⟨_, Function.update_self .., hc⟩
      · exact ⟨b, (Function.update_of_ne hh ..).trans hb, hbc⟩
  rw [hsame, hencard] at hshare
  have heq : k + 1 = m := by exact_mod_cast hshare
  omega

/-- A handle that shares with nobody is dropped, and the fresh object gets a counter, or lies
under the wild pointer. -/
theorem assignFresh_paired (hx : Paired x) (ha : x.handles h = some a)
    (hlegal : Sharing x (.assignFresh h)) : ∃ y, x.assignFresh h a = some y ∧ Paired y := by
  obtain ⟨hsees, hsole⟩ := hlegal
  obtain ⟨y, hdrop, hy, hhandles⟩ := hx.drop ha hsees
  have hfree : y.handles h = none := by
    rw [hhandles]
    exact setHandle_self ..
  obtain ⟨-, hcell, hrelease⟩ | ⟨hblind, -⟩ | ⟨o, c, k, -, hc, hk, -, hrelease⟩ :=
    hx.release_cases ha
  · rw [drop_eq hrelease] at hdrop
    obtain rfl := Option.some.inj hdrop
    rw [assignFresh_eq hrelease]
    by_cases hnull : a.pCnt = .null
    · refine ⟨_, rfl, ?_⟩
      rw [if_pos hnull, ← own_setHandle x h none]
      exact hy.own hfree
    · refine ⟨_, rfl, ?_⟩
      rw [if_neg hnull, ← ownUnder_setHandle x h none]
      have hwild : a.pCnt = .wild := by
        cases hc : a.pCnt with
        | null => exact absurd hc hnull
        | cell c => exact absurd hc (hcell c)
        | wild => rfl
      exact hy.uncounted hfree (w := { pObject := some x.nextObject, pCnt := a.pCnt }) hcell
        (.inr ⟨rfl, hwild⟩) rfl
  · rw [hsees] at hblind
    cases hblind
  · have hzero : k = 0 := by
      by_contra hne
      rw [(isShared_iff ha hc hk).mpr hne] at hsole
      cases hsole
    rw [if_pos hzero] at hrelease
    rw [drop_eq hrelease] at hdrop
    obtain rfl := Option.some.inj hdrop
    refine ⟨_, assignFresh_eq hrelease, ?_⟩
    rw [if_pos rfl, ← own_setHandle _ h none]
    exact hy.own hfree

theorem assignFresh_not_counted {y : AutoHeap} (hx : Paired x) (ha : x.handles h = some a)
    (hillegal : ¬ Sharing x (.assignFresh h)) (hy : x.assignFresh h a = some y) :
    ¬ Counted y := by
  obtain ⟨hnone, hcell, -⟩ | ⟨-, hrelease⟩ | ⟨o, c, k, ho, hc, hk, hencard, hrelease⟩ :=
    hx.release_cases ha
  · exfalso
    apply hillegal
    constructor
    · rw [isBlind, ha, Option.any_some, hnone]
      rfl
    · rw [isShared, ha, Option.any_some]
      cases hc : a.pCnt with
      | cell c => exact absurd hc (hcell c)
      | null | wild => rfl
  · rw [assignFresh, hrelease] at hy
    cases hy
  · have hsees : x.isBlind h = false := by
      rw [isBlind, ha, Option.any_some, ho, hc]
      rfl
    have hshared : k ≠ 0 := by
      intro hzero
      apply hillegal
      refine ⟨hsees, ?_⟩
      rw [Bool.eq_false_iff, Ne, isShared_iff ha hc hk]
      exact not_not.mpr hzero
    rw [if_neg hshared] at hrelease
    rw [assignFresh_eq hrelease, if_neg (by rw [hc]; simp)] at hy
    obtain rfl := Option.some.inj hy
    exact not_counted_assignFresh ha hc hencard

/-- A shared handle that is assigned to itself counts down and up again. -/
theorem assign_self {k : ℕ} (ha : x.handles h = some a) (hc : a.pCnt = .cell c)
    (hk : x.counters c = some ((k + 1 : ℕ) : Int))
    (hrelease : x.release a = some (x.setCounter c (some (k : Int)), a)) :
    x.assign h h a = some x := by
  rw [assign, hrelease]
  simp only [copyFrom, increment, hc, deref, setHandle, setCounter,
    Function.update_self, Option.map_some, Function.update_idem]
  have hcounter : Function.update x.counters c (some ((k : Int) + 1)) = x.counters := by
    rw [Function.update_eq_self_iff, hk]
    push_cast
    rfl
  have hhandle : Function.update x.handles h (some a) = x.handles := by
    rw [Function.update_eq_self_iff, ha]
  rw [hcounter, hhandle]

/-- An assignment of another handle is the destruction and a copy. -/
theorem assign_of_ne {right : HandleId} {r a' : AutoDeleter} (hne : right ≠ h)
    (hrelease : x.release a = some (x', a')) (hr : x'.handles right = some r) :
    x.assign h right a = (x'.setHandle h none).copyFrom h r := by
  rw [assign, hrelease]
  simp only [setHandle_of_ne _ hne, hr]
  exact copyFrom_setHandle ..

theorem Paired.release_handles (hx : Paired x) (ha : x.handles h = some a) {a' : AutoDeleter}
    (hrelease : x.release a = some (x', a')) : x'.handles = x.handles := by
  obtain ⟨-, -, heq⟩ | ⟨-, heq⟩ | ⟨o, c, k, -, -, -, -, heq⟩ := hx.release_cases ha
  · obtain ⟨rfl, -⟩ := Prod.mk.inj (Option.some.inj (heq.symm.trans hrelease))
    rfl
  · rw [hrelease] at heq
    cases heq
  · rw [hrelease] at heq
    split at heq
    · obtain ⟨rfl, -⟩ := Prod.mk.inj (Option.some.inj heq)
      rfl
    · obtain ⟨rfl, -⟩ := Prod.mk.inj (Option.some.inj heq)
      rfl

/-- Only a handle with an object under a wild pointer cannot be released. -/
theorem Paired.release_sees (hx : Paired x) (ha : x.handles h = some a) {a' : AutoDeleter}
    (hrelease : x.release a = some (x', a')) : x.isBlind h = false := by
  obtain ⟨hnone, -⟩ | ⟨-, hundefined⟩ | ⟨o, c, k, ho, hc, -⟩ := hx.release_cases ha
  · rw [isBlind, ha, Option.any_some, hnone]
    rfl
  · rw [hrelease] at hundefined
    cases hundefined
  · rw [isBlind, ha, Option.any_some, ho, hc]
    rfl

theorem assign_self_keeps {y : AutoHeap} {result : AutoResult} (hx : Paired x)
    (ha : x.handles h = some a) (hstep : x.ending (x.assign h h a) = (y, result)) :
    (Keeps x (.assign h h) y result → Paired y) ∧
      (Keeps x (.assign h h) y result ↔ Sharing x (.assign h h)) := by
  refine ending_keeps (fun hlegal => ?_) (fun hillegal y hy => ?_) hstep
  · obtain ⟨hsees, hcounter, hshared⟩ := hlegal
    obtain ⟨-, hcell, -⟩ | ⟨hblind, -⟩ | ⟨o, c, k, -, hc, hk, -, hrelease⟩ :=
      hx.release_cases ha
    · obtain ⟨c, hc⟩ := (hasCounter_iff hx ha).mp hcounter
      exact absurd hc (hcell c)
    · rw [hsees] at hblind
      cases hblind
    · rw [if_neg ((isShared_iff ha hc hk).mp (hshared rfl))] at hrelease
      exact ⟨x, assign_self ha hc hk hrelease, hx⟩
  · -- the counter that is to be counted up has gone, or was never there
    exfalso
    obtain ⟨-, hcell, hrelease⟩ | ⟨-, hrelease⟩ | ⟨o, c, k, ho, hc, hk, -, hrelease⟩ :=
      hx.release_cases ha
    · simp only [assign, hrelease, setHandle_self] at hy
      rw [copyFrom_eq_none hcell] at hy
      cases hy
    · rw [assign, hrelease] at hy
      cases hy
    · by_cases hzero : k = 0
      · rw [if_pos hzero] at hrelease
        simp only [assign, hrelease, setHandle_self] at hy
        rw [copyFrom_eq_none (by simp)] at hy
        cases hy
      · apply hillegal
        refine ⟨?_, (hasCounter_iff hx ha).mpr ⟨c, hc⟩,
          fun _ => (isShared_iff ha hc hk).mpr hzero⟩
        rw [isBlind, ha, Option.any_some, ho, hc]
        rfl

theorem assign_other_keeps {y : AutoHeap} {result : AutoResult} {right : HandleId}
    {r : AutoDeleter} (hself : right ≠ h) (hx : Paired x) (ha : x.handles h = some a)
    (hr : x.handles right = some r) (hstep : x.ending (x.assign h right a) = (y, result)) :
    (Keeps x (.assign h right) y result → Paired y) ∧
      (Keeps x (.assign h right) y result ↔ Sharing x (.assign h right)) := by
  refine ending_keeps (fun hlegal => ?_) (fun hillegal y hy => ?_) hstep
  · obtain ⟨hsees, hcounter, -⟩ := hlegal
    obtain ⟨c, hc⟩ := (hasCounter_iff hx hr).mp hcounter
    obtain ⟨y, hdrop, hy, hhandles⟩ := hx.drop ha hsees
    obtain ⟨⟨x', a'⟩, hrelease, hy'⟩ := Option.map_eq_some_iff.mp hdrop
    have hy' : x'.setHandle h none = y := hy'
    have hr' : x'.handles right = some r := by
      rw [hx.release_handles ha hrelease]
      exact hr
    have hfree : y.handles h = none := by
      rw [hhandles]
      exact setHandle_self ..
    have hkept : y.handles right = some r := by
      rw [hhandles]
      exact (setHandle_of_ne x hself none).trans hr
    rw [assign_of_ne hself hrelease hr', hy']
    exact hy.copyFrom hfree hkept hc
  · cases hrelease : x.release a with
    | none =>
        rw [assign, hrelease] at hy
        cases hy
    | some p =>
        obtain ⟨x', a'⟩ := p
        have hr' : x'.handles right = some r := by
          rw [hx.release_handles ha hrelease]
          exact hr
        have hsees := hx.release_sees ha hrelease
        have hcell : ∀ c, r.pCnt ≠ .cell c := by
          intro c hc
          apply hillegal
          exact ⟨hsees, (hasCounter_iff hx hr).mpr ⟨c, hc⟩,
            fun heq => absurd heq.symm hself⟩
        rw [assign_of_ne hself hrelease hr', copyFrom_eq_none hcell] at hy
        cases hy

theorem default_keeps {y : AutoHeap} {memory : CounterPointer} {result : AutoResult}
    (hx : Paired x) (hstep : x.step (.default h memory) = some (y, result)) :
    (Keeps x (.default h memory) y result → Paired y) ∧
      (Keeps x (.default h memory) y result ↔ Sharing x (.default h memory)) := by
  cases hfree : x.handles h with
  | some a =>
      simp only [step, hfree] at hstep
      cases hstep
  | none =>
      cases memory with
      | cell c =>
          simp only [step, hfree] at hstep
          split at hstep
          · obtain ⟨rfl, rfl⟩ := Prod.mk.inj (Option.some.inj hstep)
            have hnot := not_counted_default (c := c) hx hfree
            refine ⟨fun hkeeps => absurd hkeeps.2 hnot, fun hkeeps => absurd hkeeps.2 hnot,
              fun hlegal => ?_⟩
            obtain hnull | hwild := hlegal
            · cases hnull
            · cases hwild
          · cases hstep
      | null =>
          simp only [step, hfree] at hstep
          obtain ⟨rfl, rfl⟩ := Prod.mk.inj (Option.some.inj hstep)
          have hpaired := hx.uncounted hfree (w := { pObject := none, pCnt := .null })
            (by simp) (.inl rfl) rfl
          exact ⟨fun _ => hpaired, fun _ => .inl rfl, fun _ => ⟨rfl, hpaired.toCounted⟩⟩
      | wild =>
          simp only [step, hfree] at hstep
          obtain ⟨rfl, rfl⟩ := Prod.mk.inj (Option.some.inj hstep)
          have hpaired := hx.uncounted hfree (w := { pObject := none, pCnt := .wild })
            (by simp) (.inl rfl) rfl
          exact ⟨fun _ => hpaired, fun _ => .inr rfl, fun _ => ⟨rfl, hpaired.toCounted⟩⟩

theorem step_keeps {y : AutoHeap} {e : AutoEvent} {result : AutoResult} (hx : Paired x)
    (hstep : x.step e = some (y, result)) :
    (Keeps x e y result → Paired y) ∧ (Keeps x e y result ↔ Sharing x e) := by
  cases e with
  | default h memory => exact default_keeps hx hstep
  | fresh h =>
      simp only [step] at hstep
      split at hstep
      · cases hstep
      · rename_i hfree
        obtain ⟨rfl, rfl⟩ := Prod.mk.inj (Option.some.inj hstep)
        have hpaired := hx.own hfree
        exact ⟨fun _ => hpaired, fun _ => trivial, fun _ => ⟨rfl, hpaired.toCounted⟩⟩
  | copy h right =>
      simp only [step] at hstep
      split at hstep
      · rename_i r hfree hr
        refine ending_keeps (fun hlegal => ?_) (fun hillegal y hy => ?_) (Option.some.inj hstep)
        · obtain ⟨c, hc⟩ := (hasCounter_iff hx hr).mp hlegal
          exact hx.copyFrom hfree hr hc
        · rw [copyFrom_eq_none fun c hc => hillegal ((hasCounter_iff hx hr).mpr ⟨c, hc⟩)] at hy
          cases hy
      · cases hstep
  | assignFresh h =>
      obtain ⟨a, ha, hending⟩ := Option.map_eq_some_iff.mp hstep
      exact ending_keeps (assignFresh_paired hx ha)
        (fun hillegal _ => assignFresh_not_counted hx ha hillegal) hending
  | assign h right =>
      simp only [step] at hstep
      split at hstep
      · rename_i a r ha hr
        by_cases hself : right = h
        · subst hself
          obtain rfl := Option.some.inj (hr.symm.trans ha)
          exact assign_self_keeps hx hr (Option.some.inj hstep)
        · exact assign_other_keeps hself hx ha hr (Option.some.inj hstep)
      · cases hstep
  | destroy h =>
      obtain ⟨a, ha, hending⟩ := Option.map_eq_some_iff.mp hstep
      refine ending_keeps (fun hlegal => ?_) (fun hillegal y hy => ?_) hending
      · obtain ⟨y, hdrop, hy, -⟩ := hx.drop ha hlegal
        exact ⟨y, hdrop, hy⟩
      · obtain ⟨⟨x', a'⟩, hrelease, -⟩ := Option.map_eq_some_iff.mp hy
        exact absurd (hx.release_sees ha hrelease) hillegal

theorem empty_paired : Paired empty := by
  have hnone : ∀ h a, empty.handles h ≠ some a := by
    intro h a ha
    cases ha
  exact
    { owned := fun o ho => absurd ho (Nat.not_lt_zero o)
      deleted := fun o ho => absurd ho (Nat.not_lt_zero o)
      live := fun h a c ha => absurd ha (hnone h a)
      count := fun c n hn => by cases hn
      object := fun h a h' a' c ha => absurd ha (hnone h a)
      counter := fun h a h' a' o ha => absurd ha (hnone h a)
      owner := fun h a c ha => absurd ha (hnone h a)
      notNull := fun h a ha => absurd ha (hnone h a)
      objectBound := fun h a o ha => absurd ha (hnone h a)
      counterBound := fun c hc => by cases hc
      undeleted := fun o _ => rfl }

/-- **Reference counting.** In every run, each step has a meaning and leaves objects and counters
that agree with the live handles exactly when the handles are used for sharing only: see
`Sharing`. -/
theorem keeps_iff_sharing {trace : List (AutoEvent × AutoResult)}
    (run : machine.Run (fun _ _ => True) empty trace x) :
    machine.EveryStep empty trace Keeps ↔ machine.Run Sharing empty trace x := by
  apply run.everyStep_iff empty_paired
  · intro a e b result ha move hkeeps
    exact (step_keeps ha move).1 hkeeps
  · intro a e b result ha move
    exact (step_keeps ha move).2

/-- Two handles on one object, a third one that comes and goes, and a default handle. -/
def sharingRun : List AutoEvent :=
  [.fresh 0, .copy 1 0, .default 2 .wild, .assign 2 1, .assign 0 0, .destroy 0, .destroy 1,
    .assignFresh 2, .destroy 2]

theorem keeps_sharingRun : ∃ trace x, machine.Run (fun _ _ => True) empty trace x ∧
    (trace.map Prod.fst = sharingRun ∧ x.deletions 0 = 1 ∧ x.deletions 1 = 1) ∧
    machine.EveryStep empty trace Keeps := by
  obtain ⟨trace, x, run, hevents⟩ := Machine.Run.exists_of_exec machine Sharing empty sharingRun
    (fun trace x => trace.map Prod.fst = sharingRun ∧ x.deletions 0 = 1 ∧ x.deletions 1 = 1)
    (by decide)
  have free : machine.Run (fun _ _ => True) empty trace x := run.mono fun _ _ _ => trivial
  exact ⟨trace, x, free, hevents, (keeps_iff_sharing free).mpr run⟩

/-- A shared handle is given a fresh object, and takes the counter with it when it goes. -/
theorem shared_assignFresh : ∃ trace x, machine.Run (fun _ _ => True) empty trace x ∧
    ¬ machine.EveryStep empty trace Keeps := by
  obtain ⟨past, a, run, hlast⟩ := Machine.Run.exists_of_exec machine (fun _ _ => True) empty
    [.fresh 0, .copy 1 0, .assignFresh 0]
    (fun _ a => (a.step (.destroy 0)).any (fun r => r.1.counters 0 = none &&
      r.1.handles 1 = some { pObject := some 0, pCnt := .cell 0 }) = true) (by decide)
  obtain ⟨⟨b, result⟩, move, hleft⟩ := (Option.any_eq_true _ _).mp hlast
  simp only [Bool.and_eq_true, decide_eq_true_eq] at hleft
  obtain ⟨hcounter, hhandle⟩ := hleft
  have move : machine.step a (.destroy 0) = some (b, result) := move
  refine ⟨_, b, run.snoc trivial move, fun h => ?_⟩
  obtain ⟨-, hcounted⟩ := h past (.destroy 0) result [] a b rfl run move
  have hlive := hcounted.live 1 _ 0 hhandle rfl
  rw [hcounter] at hlive
  cases hlive

end AutoHeap

end Netbroker
