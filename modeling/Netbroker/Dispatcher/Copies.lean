import Mathlib.Data.Set.Card
import Mathlib.Logic.Relation
import Netbroker.Buffer
import Netbroker.Transition.Machine

/-!
# Copies of a dispatcher

A copy points to the dispatcher it was copied from, and `m_instances` should count a
dispatcher and its copies. The copy constructor gives its own counter no value before
it counts: what the memory held decides whether the parent is told and how long the
copy's client name gets. An assignment counts once more in the object assigned to.

These dispatchers are never connected, so nothing has to be stopped before an assignment
or a destruction.

`Balanced` is what the counters should say. A run that makes no copy keeps every dispatcher
`Single`. The first step that makes one leaves some counter wrong: where the copy's counter
comes to 1 the parent has not been told, and where it comes to anything else the copy counts
copies that it does not have.
-/

namespace Netbroker

open Transition

/-- The name of a dispatcher object; it is not used again. -/
abbrev ObjectId := Nat

/-- A dispatcher as far as its copies go. -/
structure Instance where
  /-- `m_instances`, an `unsigned long`. -/
  instances : BitVec 32
  parentCpy : Option ObjectId
  /-- The client name of the connector; an assignment that throws leaves no connector. -/
  connector : Option Str
  address : Str
  dropEchoMessages : Bool
  dropMembershipMessages : Bool
  deriving DecidableEq, Repr

/-- The live dispatchers of the process. -/
structure Heap where
  objects : ObjectId → Option Instance
  next : ObjectId

/-- The digits that an output stream writes for a number. -/
def decimal (n : Nat) : Str := (Nat.toDigits 10 n).map fun c => UInt8.ofNat c.toNat

/-- The client name of a copy: `_cpy_` and the copy's own counter behind that of the original. -/
def copyName (clientName : Str) (instances : BitVec 32) : Str :=
  clientName ++ [95, 99, 112, 121, 95] ++ decimal instances.toNat

/-- The message of the exception. -/
def clientNameExceeded : String := "Client name size exceeds SPREAD specifications"

inductive CopyEvent where
  | construct (clientName address : Str) (dropEcho dropMembership : Bool)
  /-- `memory` is what the new object's counter held before. -/
  | copy (ref : ObjectId) (memory : BitVec 32)
  | assign (id ref : ObjectId)
  | destroy (id : ObjectId)
  deriving DecidableEq, Repr

inductive CopyResult where
  | done
  | threw (message : String)
  deriving DecidableEq, Repr

namespace Heap

def empty : Heap := { objects := fun _ => none, next := 0 }

def set (h : Heap) (id : ObjectId) (o : Option Instance) : Heap :=
  { h with objects := Function.update h.objects id o }

@[simp] theorem set_next (h : Heap) (id : ObjectId) (o : Option Instance) :
    (h.set id o).next = h.next := rfl

@[simp] theorem set_objects_self (h : Heap) (id : ObjectId) (o : Option Instance) :
    (h.set id o).objects id = o := Function.update_self ..

theorem set_objects_of_ne (h : Heap) {id other : ObjectId} (hne : other ≠ id)
    (o : Option Instance) : (h.set id o).objects other = h.objects other :=
  Function.update_of_ne hne ..

/-- Count by `step`, here and on up the chain of parents until a counter is 1. The stack has
room for `n` calls; a deeper recursion does not return. -/
def notify (step : BitVec 32) : Nat → Heap → ObjectId → Option Heap
  | 0, _, _ => none
  | n + 1, h, id =>
      match h.objects id with
      | none => none
      | some o =>
          let h := h.set id (some { o with instances := o.instances + step })
          match o.parentCpy with
          | none => some h
          | some parent => if o.instances + step ≠ 1 then notify step n h parent else some h

def notifyNewInstance (stack : Nat) (h : Heap) (id : ObjectId) : Option Heap :=
  h.notify 1 stack id

def notifyDeleteInstance (stack : Nat) (h : Heap) (id : ObjectId) : Option Heap :=
  h.notify (-1) stack id

/-- The body that the copy constructor and the assignment share: count, and make a connector
under the copy's name unless that is too long. -/
def finishCopy (stack : Nat) (h : Heap) (id : ObjectId) (clientName : Str) :
    Option (Heap × CopyResult) :=
  match h.notifyNewInstance stack id with
  | none => none
  | some h =>
      match h.objects id with
      | none => none
      | some o =>
          let name := copyName clientName o.instances
          if 10 < name.length then some (h, .threw clientNameExceeded)
          else some (h.set id (some { o with connector := some name }), .done)

/-- The copy constructor. There is no object where it throws. -/
def copyConstruct (stack : Nat) (h : Heap) (ref : ObjectId) (memory : BitVec 32) :
    Option (Heap × CopyResult) :=
  match h.objects ref with
  | none => none
  | some r =>
      match r.connector with
      | none => none
      | some clientName =>
          let copy : Instance :=
            { instances := memory, parentCpy := some ref, connector := none, address := r.address
              dropEchoMessages := r.dropEchoMessages
              dropMembershipMessages := r.dropMembershipMessages }
          let made : Heap := { h.set h.next (some copy) with next := h.next + 1 }
          match made.finishCopy stack h.next clientName with
          | none => none
          | some (h', .done) => some (h', .done)
          | some (h', .threw message) => some (h'.set h.next none, .threw message)

/-- `operator=`, which keeps the two flags. -/
def assign (stack : Nat) (h : Heap) (id ref : ObjectId) : Option (Heap × CopyResult) :=
  if id = ref then none
  else
    match h.objects id, h.objects ref with
    | some o, some r =>
        match r.connector with
        | none => none
        | some clientName =>
            (h.set id (some { o with
              connector := none, address := r.address, parentCpy := some ref })).finishCopy
                stack id clientName
    | _, _ => none

/-- Some live dispatcher was copied from the object. -/
def hasCopies (h : Heap) (id : ObjectId) : Bool :=
  (List.range h.next).any fun c => (h.objects c).any (·.parentCpy = some id)

/-- Copies are destroyed first. -/
def destroy (stack : Nat) (h : Heap) (id : ObjectId) : Option Heap :=
  if h.hasCopies id then none
  else (h.notifyDeleteInstance stack id).map fun h => h.set id none

def step (stack : Nat) (h : Heap) : CopyEvent → Option (Heap × CopyResult)
  | .construct clientName address dropEcho dropMembership =>
      let o : Instance :=
        { instances := 1, parentCpy := none, connector := some clientName, address
          dropEchoMessages := dropEcho, dropMembershipMessages := dropMembership }
      some ({ h.set h.next (some o) with next := h.next + 1 }, .done)
  | .copy ref memory => h.copyConstruct stack ref memory
  | .assign id ref => h.assign stack id ref
  | .destroy id => (h.destroy stack id).map fun h => (h, .done)

/-- The process, with a stack of any size. -/
def machine (stack : Nat) : Machine Heap CopyEvent CopyResult where
  init h := h = empty
  step := step stack

/-- The live `c` was copied from `d`. -/
def CopiedFrom (h : Heap) (c d : ObjectId) : Prop :=
  ∃ o, h.objects c = some o ∧ o.parentCpy = some d

/-- The live dispatchers copied from `d`, directly or through others. -/
def copies (h : Heap) (d : ObjectId) : Set ObjectId := {c | Relation.TransGen h.CopiedFrom c d}

/-- Every counter counts its dispatcher and the copies. -/
def Balanced (h : Heap) : Prop :=
  ∀ d o, h.objects d = some o → (o.instances.toNat : ℕ∞) = 1 + (h.copies d).encard

/-- The counters as they stand. -/
def counter (h : Heap) (d : ObjectId) : Option (BitVec 32) := (h.objects d).map (·.instances)

/-- The counters are right after the step, and as before it if it has thrown. -/
def Accounts (a : Heap) (_ : CopyEvent) (b : Heap) (result : CopyResult) : Prop :=
  b.Balanced ∧ ∀ message, result = .threw message → ∀ d, b.counter d = a.counter d

/-- The step makes no copy: a copy constructor that finds 0 in its counter, and throws. -/
def sparesCopies (h : Heap) : CopyEvent → Bool
  | .copy ref memory =>
      memory = 0 && (h.objects ref).any fun o =>
        o.connector.any fun clientName => decide (10 < (copyName clientName 1).length)
  | .assign _ _ => false
  | _ => true

/-- Nobody is a copy, and every counter is 1. -/
structure Single (h : Heap) : Prop where
  alone : ∀ d o, h.objects d = some o → o.instances = 1 ∧ o.parentCpy = none
  fresh : ∀ d, h.next ≤ d → h.objects d = none

variable {h h' : Heap} {stack : Nat}

theorem copies_eq_empty {d : ObjectId}
    (hnone : ∀ c o, h.objects c = some o → o.parentCpy ≠ some d) : h.copies d = ∅ := by
  apply Set.eq_empty_of_forall_notMem
  intro c hc
  obtain ⟨b, -, o, ho, hparent⟩ := Relation.TransGen.tail'_iff.mp hc
  exact hnone b o ho hparent

theorem Single.balanced (hs : h.Single) : h.Balanced := by
  intro d o ho
  have hempty : h.copies d = ∅ := by
    apply copies_eq_empty
    intro c o' ho'
    rw [(hs.alone c o' ho').2]
    simp
  rw [(hs.alone d o ho).1, hempty, Set.encard_empty]
  rfl

/-- A dispatcher with a copy has counted it. -/
theorem Balanced.counter_ne_one (hb : h.Balanced) {c d : ObjectId} {o : Instance}
    (ho : h.objects d = some o) (hc : c ∈ h.copies d) : o.instances ≠ 1 := by
  intro hone
  have hcount := hb d o ho
  have hpos : 1 ≤ (h.copies d).encard := Set.one_le_encard_iff_nonempty.mpr ⟨c, hc⟩
  have htwo : (1 : ℕ∞) + 1 ≤ 1 + (h.copies d).encard := add_le_add_right hpos 1
  rw [← hcount, hone] at htwo
  exact absurd htwo (by decide)

/-- A counter other than 1 in a dispatcher that nobody is a copy of. -/
theorem not_balanced {d : ObjectId} {o : Instance} (ho : h.objects d = some o)
    (hnone : ∀ c o, h.objects c = some o → o.parentCpy ≠ some d) (hcount : o.instances ≠ 1) :
    ¬ h.Balanced := by
  intro hbalanced
  have hone := hbalanced d o ho
  rw [copies_eq_empty hnone, Set.encard_empty, add_zero] at hone
  apply hcount
  apply BitVec.eq_of_toNat_eq
  exact_mod_cast hone

/-- What the counting does not touch. -/
def identity (o : Instance) : Option Str × Option ObjectId := (o.connector, o.parentCpy)

theorem notify_identity {step : BitVec 32} {n : Nat} {id : ObjectId}
    (hnotify : h.notify step n id = some h') :
    h'.next = h.next ∧ ∀ d, (h'.objects d).map identity = (h.objects d).map identity := by
  induction n generalizing h id with
  | zero => cases hnotify
  | succ n ih =>
      simp only [notify] at hnotify
      split at hnotify
      · cases hnotify
      · rename_i o ho
        have hcounted : ∀ d, ((h.set id (some { o with instances := o.instances + step })).objects
            d).map identity = (h.objects d).map identity := by
          intro d
          by_cases hd : d = id
          · subst hd
            rw [set_objects_self, ho]
            rfl
          · rw [set_objects_of_ne _ hd]
        split at hnotify
        · obtain rfl := Option.some.inj hnotify
          exact ⟨rfl, hcounted⟩
        · split at hnotify
          · obtain ⟨hnext, hidentity⟩ := ih hnotify
            exact ⟨hnext, fun d => (hidentity d).trans (hcounted d)⟩
          · obtain rfl := Option.some.inj hnotify
            exact ⟨rfl, hcounted⟩

/-- What the copying of a dispatcher without a parent of its own does. -/
structure Finished (h : Heap) (id parent : ObjectId) (o q : Instance) (clientName : Str)
    (h' : Heap) (result : CopyResult) : Prop where
  own : ∃ connector, h'.objects id = some { o with instances := o.instances + 1, connector }
  told : h'.objects parent =
    some (if o.instances + 1 = 1 then q else { q with instances := q.instances + 1 })
  others : ∀ d, d ≠ id → d ≠ parent → h'.objects d = h.objects d
  next : h'.next = h.next
  result : (result = .threw clientNameExceeded ∧
      10 < (copyName clientName (o.instances + 1)).length) ∨
    (result = .done ∧ (copyName clientName (o.instances + 1)).length ≤ 10)

theorem notify_root {id : ObjectId} {o : Instance} (step : BitVec 32) (n : Nat)
    (ho : h.objects id = some o) (hroot : o.parentCpy = none) :
    h.notify step (n + 1) id =
      some (h.set id (some { o with instances := o.instances + step })) := by
  simp only [notify, ho, hroot]

/-- The parent is told unless the copy's counter has come to 1. -/
theorem notifyNewInstance_copy {id parent : ObjectId} {o q : Instance}
    (ho : h.objects id = some o) (hparent : o.parentCpy = some parent) (hne : parent ≠ id)
    (hq : h.objects parent = some q) (hroot : q.parentCpy = none)
    (hnotify : h.notifyNewInstance stack id = some h') :
    h'.objects id = some { o with instances := o.instances + 1 } ∧
      h'.objects parent =
        some (if o.instances + 1 = 1 then q else { q with instances := q.instances + 1 }) ∧
      (∀ d, d ≠ id → d ≠ parent → h'.objects d = h.objects d) ∧ h'.next = h.next := by
  obtain ⟨instances, _, connector, address, dropEcho, dropMembership⟩ := o
  obtain rfl := hparent
  cases stack with
  | zero => cases hnotify
  | succ n =>
      simp only [notifyNewInstance, notify, ho] at hnotify
      by_cases hone : instances + 1 = 1
      · rw [if_neg (not_not.mpr hone)] at hnotify
        obtain rfl := Option.some.inj hnotify
        refine ⟨set_objects_self .., ?_, fun d hd _ => set_objects_of_ne _ hd _, rfl⟩
        rw [set_objects_of_ne _ hne, if_pos hone]
        exact hq
      · rw [if_pos hone] at hnotify
        cases n with
        | zero => cases hnotify
        | succ n =>
            rw [notify_root 1 n ((set_objects_of_ne _ hne _).trans hq) hroot] at hnotify
            obtain rfl := Option.some.inj hnotify
            refine ⟨?_, ?_, fun d hd hd' => ?_, rfl⟩
            · rw [set_objects_of_ne _ hne.symm, set_objects_self]
            · rw [set_objects_self, if_neg hone]
            · rw [set_objects_of_ne _ hd', set_objects_of_ne _ hd]

/-- The body that the copy constructor and the assignment share, taken apart. -/
theorem finishCopy_inv {id : ObjectId} {clientName : Str} {result : CopyResult}
    (hfinish : h.finishCopy stack id clientName = some (h', result)) :
    ∃ counted o, h.notifyNewInstance stack id = some counted ∧ counted.objects id = some o ∧
      ((result = .threw clientNameExceeded ∧ 10 < (copyName clientName o.instances).length ∧
          h' = counted) ∨
        (result = .done ∧ (copyName clientName o.instances).length ≤ 10 ∧
          h' = counted.set id
            (some { o with connector := some (copyName clientName o.instances) }))) := by
  rw [finishCopy] at hfinish
  split at hfinish
  · cases hfinish
  · rename_i counted hnotify
    split at hfinish
    · cases hfinish
    · rename_i o ho
      refine ⟨counted, o, hnotify, ho, ?_⟩
      dsimp only at hfinish
      split at hfinish
      · rename_i hlong
        obtain ⟨rfl, rfl⟩ := Prod.mk.inj (Option.some.inj hfinish)
        exact .inl ⟨rfl, hlong, rfl⟩
      · rename_i hshort
        obtain ⟨rfl, rfl⟩ := Prod.mk.inj (Option.some.inj hfinish)
        exact .inr ⟨rfl, Nat.not_lt.mp hshort, rfl⟩

/-- What a copy of `r` begins as. -/
structure Made (h : Heap) (ref : ObjectId) (r : Instance) (memory : BitVec 32) (copy : Instance)
    (made : Heap) : Prop where
  source : h.objects ref = some r
  instances : copy.instances = memory
  parent : copy.parentCpy = some ref
  connector : copy.connector = none
  next : made.next = h.next + 1
  own : made.objects h.next = some copy
  others : ∀ d, d ≠ h.next → made.objects d = h.objects d

/-- The copy constructor, taken apart. -/
theorem copyConstruct_inv {ref : ObjectId} {memory : BitVec 32} {result : CopyResult}
    (hcopy : h.copyConstruct stack ref memory = some (h', result)) :
    ∃ r clientName copy made finished, r.connector = some clientName ∧
      made.finishCopy stack h.next clientName = some (finished, result) ∧
      Made h ref r memory copy made ∧
      h' = if result = .done then finished else finished.set h.next none := by
  rw [copyConstruct] at hcopy
  split at hcopy
  · cases hcopy
  · rename_i r hr
    split at hcopy
    · cases hcopy
    · rename_i clientName hclient
      dsimp only at hcopy
      have hmade : ∀ copy : Instance, copy.instances = memory → copy.parentCpy = some ref →
          copy.connector = none →
          Made h ref r memory copy { h.set h.next (some copy) with next := h.next + 1 } :=
        fun copy hmemory hparent hnone => ⟨hr, hmemory, hparent, hnone, rfl, set_objects_self ..,
          fun d hd => set_objects_of_ne _ hd _⟩
      split at hcopy
      · cases hcopy
      · rename_i finished hfinish
        obtain ⟨rfl, rfl⟩ := Prod.mk.inj (Option.some.inj hcopy)
        exact ⟨r, clientName, _, _, finished, hclient, hfinish, hmade _ rfl rfl rfl, rfl⟩
      · rename_i finished message hfinish
        obtain ⟨rfl, rfl⟩ := Prod.mk.inj (Option.some.inj hcopy)
        exact ⟨r, clientName, _, _, finished, hclient, hfinish, hmade _ rfl rfl rfl, rfl⟩

/-- The assignment, taken apart. -/
theorem assign_inv {id ref : ObjectId} {result : CopyResult}
    (hassign : h.assign stack id ref = some (h', result)) :
    ∃ o r clientName, ref ≠ id ∧ h.objects id = some o ∧ h.objects ref = some r ∧
      r.connector = some clientName ∧
      (h.set id (some { o with connector := none, address := r.address, parentCpy := some ref
        })).finishCopy stack id clientName = some (h', result) := by
  rw [assign] at hassign
  split at hassign
  · cases hassign
  · rename_i hne
    split at hassign
    · rename_i o r ho hr
      split at hassign
      · cases hassign
      · rename_i clientName hclient
        exact ⟨o, r, clientName, Ne.symm hne, ho, hr, hclient, hassign⟩
    · cases hassign

/-- The destruction, taken apart. -/
theorem destroy_inv {id : ObjectId} (hdestroy : h.destroy stack id = some h') :
    ∃ counted, h.notifyDeleteInstance stack id = some counted ∧ h' = counted.set id none := by
  rw [destroy] at hdestroy
  split at hdestroy
  · cases hdestroy
  · obtain ⟨counted, hnotify, rfl⟩ := Option.map_eq_some_iff.mp hdestroy
    exact ⟨counted, hnotify, rfl⟩

theorem finishCopy_finished {id parent : ObjectId} {o q : Instance} {clientName : Str}
    {result : CopyResult} (ho : h.objects id = some o) (hparent : o.parentCpy = some parent)
    (hne : parent ≠ id) (hq : h.objects parent = some q) (hroot : q.parentCpy = none)
    (hfinish : h.finishCopy stack id clientName = some (h', result)) :
    Finished h id parent o q clientName h' result := by
  obtain ⟨counted, own, hnotify, hown, hresult⟩ := finishCopy_inv hfinish
  obtain ⟨hcounted, htold, hothers, hnext⟩ :=
    notifyNewInstance_copy ho hparent hne hq hroot hnotify
  obtain rfl := Option.some.inj (hcounted.symm.trans hown)
  obtain ⟨hthrew, hlong, rfl⟩ | ⟨hdone, hshort, rfl⟩ := hresult
  · exact ⟨⟨o.connector, hown⟩, htold, hothers, hnext, .inl ⟨hthrew, hlong⟩⟩
  · refine ⟨⟨_, set_objects_self ..⟩, ?_, fun d hd hd' => ?_, hnext, .inr ⟨hdone, hshort⟩⟩
    · rw [set_objects_of_ne _ hne]
      exact htold
    · rw [set_objects_of_ne _ hd]
      exact hothers d hd hd'

/-- Where there were no copies, finishing one leaves nobody with `id` for a parent. -/
theorem Finished.not_balanced {id parent : ObjectId} {o q : Instance} {clientName : Str}
    {result : CopyResult} (hf : Finished h id parent o q clientName h' result)
    (hparent : o.parentCpy = some parent) (hne : parent ≠ id) (hroot : q.parentCpy = none)
    (halone : ∀ d, d ≠ id → ∀ p, h.objects d = some p → p.parentCpy = none)
    (hcount : o.instances + 1 ≠ 1) : ¬ h'.Balanced := by
  obtain ⟨connector, hown⟩ := hf.own
  refine Heap.not_balanced hown (fun c p hp => ?_) hcount
  by_cases hc : c = id
  · subst hc
    obtain rfl := Option.some.inj (hown.symm.trans hp)
    show o.parentCpy ≠ some c
    rw [hparent]
    exact fun hsame => hne (Option.some.inj hsame)
  · by_cases hc' : c = parent
    · subst hc'
      obtain rfl := Option.some.inj (hf.told.symm.trans hp)
      split <;> simp [hroot]
    · rw [hf.others c hc hc'] at hp
      rw [halone c hc p hp]
      simp

/-- The copy constructor on a dispatcher that is no copy itself: it throws, and nothing of
the copy stays, or the copy is there. -/
theorem copyConstruct_cases {ref : ObjectId} {memory : BitVec 32} {result : CopyResult}
    (hs : h.Single) (hcopy : h.copyConstruct stack ref memory = some (h', result)) :
    ∃ r clientName copy made finished, Made h ref r memory copy made ∧
      r.connector = some clientName ∧ ref < h.next ∧
      Finished made h.next ref copy r clientName finished result ∧
      h' = if result = .done then finished else finished.set h.next none := by
  obtain ⟨r, clientName, copy, made, finished, hclient, hfinish, hmade, hleft⟩ :=
    copyConstruct_inv hcopy
  have hlt : ref < h.next := by
    by_contra hge
    have hgone := hs.fresh ref (Nat.not_lt.mp hge)
    rw [hmade.source] at hgone
    cases hgone
  have hne : ref ≠ h.next := Nat.ne_of_lt hlt
  have hf := finishCopy_finished hmade.own hmade.parent hne
    ((hmade.others ref hne).trans hmade.source) (hs.alone ref r hmade.source).2 hfinish
  exact ⟨r, clientName, copy, made, finished, hmade, hclient, hlt, hf, hleft⟩

/-- An assignment counts in the object assigned to, which nobody is a copy of. -/
theorem assign_not_accounts {id ref : ObjectId} {result : CopyResult} (hs : h.Single)
    (hassign : h.assign stack id ref = some (h', result)) :
    ¬ h.Accounts (.assign id ref) h' result := by
  obtain ⟨o, r, clientName, hne, ho, hr, -, hfinish⟩ := assign_inv hassign
  obtain ⟨hone, -⟩ := hs.alone id o ho
  have hroot := (hs.alone ref r hr).2
  have hf := finishCopy_finished (set_objects_self ..) rfl hne
    ((set_objects_of_ne h hne _).trans hr) hroot hfinish
  have htwo : o.instances + 1 ≠ 1 := by
    rw [hone]
    decide
  rintro ⟨hbalanced, hsame⟩
  obtain ⟨hthrew, -⟩ | ⟨-, -⟩ := hf.result
  · have hcounter := hsame clientNameExceeded hthrew id
    obtain ⟨connector, hown⟩ := hf.own
    rw [counter, counter, hown, ho] at hcounter
    have hcount : o.instances + 1 = o.instances := Option.some.inj hcounter
    rw [hone] at hcount
    exact absurd hcount (by decide)
  · refine hf.not_balanced rfl hne hroot (fun d hd p hp => ?_) htwo hbalanced
    rw [set_objects_of_ne _ hd] at hp
    exact (hs.alone d p hp).2

/-- The counters are right only after a step that makes no copy. -/
theorem accounts_spares {e : CopyEvent} {result : CopyResult} (hs : h.Single)
    (hstep : h.step stack e = some (h', result)) (hq : h.Accounts e h' result) :
    h.sparesCopies e = true := by
  cases e with
  | construct => rfl
  | destroy => rfl
  | assign id ref => exact absurd hq (assign_not_accounts hs hstep)
  | copy ref memory =>
      obtain ⟨r, clientName, copy, made, finished, ⟨hr, hmemory, hparent, -, -, -, hothers⟩,
        hclient, hlt, hf, hleft⟩ := copyConstruct_cases hs hstep
      have hne : ref ≠ h.next := Nat.ne_of_lt hlt
      obtain ⟨hone, hroot⟩ := hs.alone ref r hr
      obtain ⟨hbalanced, hsame⟩ := hq
      simp only [sparesCopies, hr, hclient, Option.any_some, Bool.and_eq_true, decide_eq_true_eq]
      subst hmemory
      by_cases hzero : copy.instances + 1 = 1
      · obtain hzero : copy.instances = 0 := by simpa using hzero
        refine ⟨hzero, ?_⟩
        obtain ⟨-, hlong⟩ | ⟨hdone, -⟩ := hf.result
        · rwa [hzero] at hlong
        · rw [if_pos hdone] at hleft
          subst hleft
          -- the parent has not been told of the copy that is there
          have htold : h'.objects ref = some r := by rw [hf.told, if_pos (by rw [hzero]; rfl)]
          obtain ⟨connector, hown⟩ := hf.own
          exact absurd hone (hbalanced.counter_ne_one htold (.single ⟨_, hown, hparent⟩))
      · exfalso
        obtain ⟨hthrew, -⟩ | ⟨hdone, -⟩ := hf.result
        · have hcounter := hsame clientNameExceeded hthrew ref
          rw [if_neg (by rw [hthrew]; simp)] at hleft
          rw [hleft, counter, counter, set_objects_of_ne _ hne, hf.told, if_neg hzero, hr]
            at hcounter
          have hcount : r.instances + 1 = r.instances := Option.some.inj hcounter
          rw [hone] at hcount
          exact absurd hcount (by decide)
        · rw [if_pos hdone] at hleft
          subst hleft
          refine hf.not_balanced hparent hne hroot (fun d hd p hp => ?_) hzero hbalanced
          rw [hothers d hd] at hp
          exact (hs.alone d p hp).2

/-- Single dispatchers of which at most some have gone. -/
theorem Single.fewer (hs : h.Single) (hnext : h.next ≤ h'.next)
    (hleft : ∀ d, h'.objects d = none ∨ h'.objects d = h.objects d) : h'.Single := by
  constructor
  · intro d o ho
    obtain hgone | hsame := hleft d
    · rw [hgone] at ho
      cases ho
    · exact hs.alone d o (hsame.symm.trans ho)
  · intro d hd
    obtain hgone | hsame := hleft d
    · exact hgone
    · exact hsame.trans (hs.fresh d (Nat.le_trans hnext hd))

theorem Single.construct (hs : h.Single) {o : Instance} (hone : o.instances = 1)
    (hroot : o.parentCpy = none) :
    ({ h.set h.next (some o) with next := h.next + 1 } : Heap).Single := by
  constructor
  · intro d p hp
    by_cases hd : d = h.next
    · subst hd
      obtain rfl := Option.some.inj ((set_objects_self ..).symm.trans hp)
      exact ⟨hone, hroot⟩
    · exact hs.alone d p ((set_objects_of_ne _ hd _).symm.trans hp)
  · intro d hd
    have hlt : h.next < d := hd
    exact (set_objects_of_ne _ (Nat.ne_of_gt hlt) _).trans (hs.fresh d (Nat.le_of_lt hlt))

/-- A copy that finds 0 in its counter and throws leaves no trace. -/
theorem copyConstruct_spares {ref : ObjectId} {memory : BitVec 32} {result : CopyResult}
    (hs : h.Single) (hcopy : h.copyConstruct stack ref memory = some (h', result))
    (hspares : h.sparesCopies (.copy ref memory) = true) :
    h'.objects = h.objects ∧ h'.next = h.next + 1 := by
  obtain ⟨r, clientName, copy, made, finished, ⟨hr, hmemory, -, -, hnext, -, hothers⟩,
    hclient, -, hf, hleft⟩ := copyConstruct_cases hs hcopy
  simp only [sparesCopies, hr, hclient, Option.any_some, Bool.and_eq_true,
    decide_eq_true_eq] at hspares
  obtain ⟨hzero, hlong⟩ := hspares
  rw [← hmemory] at hzero
  have hone : copy.instances + 1 = 1 := by
    rw [hzero]
    rfl
  obtain ⟨hthrew, -⟩ | ⟨-, hshort⟩ := hf.result
  · rw [if_neg (by rw [hthrew]; simp)] at hleft
    rw [hleft]
    refine ⟨?_, hf.next.trans hnext⟩
    funext d
    by_cases hd : d = h.next
    · subst hd
      rw [set_objects_self, hs.fresh _ (Nat.le_refl _)]
    · rw [set_objects_of_ne _ hd]
      by_cases hd' : d = ref
      · subst hd'
        rw [hf.told, if_pos hone, hr]
      · rw [hf.others d hd hd', hothers d hd]
  · rw [hone] at hshort
    exact absurd hlong (Nat.not_lt.mpr hshort)

theorem destroy_single {id : ObjectId} (hs : h.Single) (hdestroy : h.destroy stack id = some h') :
    h'.next = h.next ∧ ∀ d, h'.objects d = none ∨ h'.objects d = h.objects d := by
  obtain ⟨counted, hnotify, rfl⟩ := destroy_inv hdestroy
  cases stack with
  | zero => cases hnotify
  | succ n =>
      cases ho : h.objects id with
      | none =>
          simp only [notifyDeleteInstance, notify, ho] at hnotify
          cases hnotify
      | some o =>
          rw [notifyDeleteInstance, notify_root _ _ ho (hs.alone id o ho).2] at hnotify
          obtain rfl := Option.some.inj hnotify
          refine ⟨rfl, fun d => ?_⟩
          by_cases hd : d = id
          · subst hd
            exact .inl (set_objects_self ..)
          · rw [set_objects_of_ne _ hd, set_objects_of_ne _ hd]
            exact .inr rfl

/-- A step that makes no copy leaves single dispatchers, and their counters. -/
theorem step_single {e : CopyEvent} {result : CopyResult} (hs : h.Single)
    (hstep : h.step stack e = some (h', result)) (hspares : h.sparesCopies e = true) :
    h'.Single ∧ ∀ message, result = .threw message → ∀ d, h'.counter d = h.counter d := by
  cases e with
  | construct clientName address dropEcho dropMembership =>
      obtain ⟨rfl, rfl⟩ := Prod.mk.inj (Option.some.inj hstep)
      exact ⟨hs.construct rfl rfl, fun message hthrew => by cases hthrew⟩
  | assign id ref => cases hspares
  | copy ref memory =>
      obtain ⟨hobjects, hnext⟩ := copyConstruct_spares hs hstep hspares
      have hle : h.next ≤ h'.next := Nat.le_of_succ_le hnext.ge
      refine ⟨hs.fewer hle fun d => .inr (congrFun hobjects d), fun _ _ d => ?_⟩
      rw [counter, counter, hobjects]
  | destroy id =>
      obtain ⟨b, hdestroy, hb⟩ := Option.map_eq_some_iff.mp hstep
      obtain ⟨rfl, rfl⟩ := Prod.mk.inj hb
      obtain ⟨hnext, hleft⟩ := destroy_single hs hdestroy
      exact ⟨hs.fewer hnext.ge hleft, fun message hthrew => by cases hthrew⟩

theorem empty_single : empty.Single := by
  constructor
  · intro d o ho
    cases ho
  · intro d _
    rfl

/-- **Instance accounting.** The counters are right after every step of a run, and left alone
by the copies that throw, exactly when the run makes no copy. -/
theorem accounts_iff (stack : Nat) {trace : List (CopyEvent × CopyResult)}
    (run : (machine stack).Run (fun _ _ => True) empty trace h) :
    (machine stack).EveryStep empty trace Accounts ↔
      (machine stack).Run (fun a e => a.sparesCopies e = true) empty trace h := by
  apply run.everyStep_iff empty_single
  · intro a e b result ha move hq
    exact (step_single ha move (accounts_spares ha move hq)).1
  · intro a e b result ha move
    constructor
    · exact accounts_spares ha move
    · intro hspares
      obtain ⟨hb, hsame⟩ := step_single ha move hspares
      exact ⟨hb.balanced, hsame⟩

/-- A client with a name of five bytes: the copy's name would be too long. -/
theorem accounts_refused : ∃ trace h,
    (machine 1).Run (fun _ _ => True) empty trace h ∧
      trace.map Prod.snd = [.done, .threw clientNameExceeded, .done] ∧
      (machine 1).EveryStep empty trace Accounts := by
  obtain ⟨trace, h, run, hresults⟩ := Machine.Run.exists_of_exec (machine 1)
    (fun a e => a.sparesCopies e = true) empty
    [.construct [97, 98, 99, 100, 101] [] false false, .copy 0 0, .destroy 0]
    (fun trace _ => trace.map Prod.snd = [.done, .threw clientNameExceeded, .done]) (by decide)
  have free : (machine 1).Run (fun _ _ => True) empty trace h := run.mono fun _ _ _ => trivial
  exact ⟨trace, h, free, hresults, (accounts_iff 1 free).mpr run⟩

/-- One copy, of a dispatcher that is not told of it. -/
theorem copy_unaccounted : ¬ ∀ (stack : Nat) (h : Heap) (trace : List (CopyEvent × CopyResult)),
    (machine stack).Run (fun _ _ => True) empty trace h →
      (machine stack).EveryStep empty trace Accounts := by
  intro hall
  obtain ⟨past, a, run, hcopy⟩ := Machine.Run.exists_of_exec (machine 4) (fun _ _ => True) empty
    [.construct [97] [] false false]
    (fun _ a => (a.step 4 (.copy 0 0)).any (fun r => r.1.counter 0 = some 1 &&
      (r.1.objects 1).any (·.parentCpy = some 0)) = true) (by decide)
  obtain ⟨⟨b, result⟩, move, hleft⟩ := (Option.any_eq_true _ _).mp hcopy
  simp only [Bool.and_eq_true, decide_eq_true_eq, Option.any_eq_true] at hleft
  obtain ⟨hcounter, copy, hown, hparent⟩ := hleft
  have move : (machine 4).step a (.copy 0 0) = some (b, result) := move
  obtain ⟨hbalanced, -⟩ := hall 4 b _ (run.snoc trivial move) past (.copy 0 0) result [] a b rfl
    run move
  obtain ⟨o, ho, hone⟩ := Option.map_eq_some_iff.mp hcounter
  exact hbalanced.counter_ne_one ho (.single ⟨copy, hown, hparent⟩) hone

end Heap

end Netbroker
