import Netbroker.Dispatcher.Copies

/-!
# The client names of copies

A copy is called after the client it was copied from and its own counter. A name behind
which another `_cpy_` would have to go is too long to be accepted, so only a dispatcher that
is no copy itself has copies with a connector, and they differ in their counters only.
What is in a new copy's counter is left to chance.

Which dispatchers are derived from the first one is kept beside the heap: a copy is if the
one it was copied from is, and an assignment moves a dispatcher in or out. The first one always
stays in.

The lengths of names are what keeps names apart: a number behind a name is at least one digit,
and a name that ends in one leaves no room for another. `Renames` says what naming a
dispatcher does, whether a copy or an assignment asks for it, and every step is one such
naming, or none.
-/

namespace Netbroker

open Transition

/-- Which dispatchers are derived from the first one. -/
abbrev Lineage := ObjectId → Bool

/-- The dispatcher that a run starts with. -/
def original : ObjectId := 0

namespace Heap

/-- The client name of the connector of a live dispatcher. -/
def clientName (h : Heap) (d : ObjectId) : Option Str := (h.objects d).bind (·.connector)

/-- Who is derived after a step. -/
def descend (derived : Lineage) (h : Heap) : CopyEvent → CopyResult → Lineage
  | .copy ref _, .done => Function.update derived h.next (derived ref)
  | .copy _ _, .threw _ => derived
  | .assign id ref, _ => Function.update derived id (decide (id = original) || derived ref)
  | .construct .., _ | .destroy _, _ => derived

/-- The heap with the lineage beside it. -/
def lineageMachine (stack : Nat) : Machine (Heap × Lineage) CopyEvent CopyResult :=
  (machine stack).recording (fun d => decide (d = original)) descend

/-- One dispatcher, the original. -/
def start (clientName address : Str) (dropEcho dropMembership : Bool) : Heap × Lineage :=
  let o : Instance :=
    { instances := 1, parentCpy := none, connector := some clientName, address
      dropEchoMessages := dropEcho, dropMembershipMessages := dropMembership }
  ({ empty.set original (some o) with next := original + 1 }, fun d => decide (d = original))

/-- No two derived dispatchers have one client name. -/
def Distinct (x : Heap × Lineage) : Prop :=
  ∀ c d name, x.2 c = true → x.2 d = true → x.1.clientName c = some name →
    x.1.clientName d = some name → c = d

/-- Nobody derived, `t` apart, is called after a client by a number already. -/
def Vacant (x : Heap × Lineage) (t : ObjectId) (clientName : Str) (number : BitVec 32) : Prop :=
  ∀ d < x.1.next, d ≠ t → x.2 d = true → x.1.clientName d ≠ some (copyName clientName number)

/-- A copy or an assignment of a derived dispatcher, or to the original, whose name is
accepted finds a counter that no derived dispatcher is called by yet. -/
def Unused (x : Heap × Lineage) : CopyEvent → Prop
  | .copy ref memory =>
      x.2 ref = true → ∀ clientName ∈ x.1.clientName ref,
        (copyName clientName (memory + 1)).length ≤ 10 →
          Vacant x x.1.next clientName (memory + 1)
  | .assign id ref =>
      (id = original ∨ x.2 ref = true) → ∀ clientName ∈ x.1.clientName ref, ∀ o ∈ x.1.objects id,
        (copyName clientName (o.instances + 1)).length ≤ 10 →
          Vacant x id clientName (o.instances + 1)
  | .construct .. | .destroy _ => True

instance (x : Heap × Lineage) (t : ObjectId) (clientName : Str) (number : BitVec 32) :
    Decidable (Vacant x t clientName number) :=
  inferInstanceAs (Decidable (∀ d < x.1.next, _ → _ → _ ≠ _))

instance (x : Heap × Lineage) (e : CopyEvent) : Decidable (Unused x e) :=
  match e with
  | .copy _ _ => inferInstanceAs (Decidable (_ → ∀ clientName ∈ _, _ → Vacant ..))
  | .assign _ _ =>
      inferInstanceAs (Decidable (_ ∨ _ → ∀ clientName ∈ _, ∀ o ∈ _, _ → Vacant ..))
  | .construct .. | .destroy _ => inferInstanceAs (Decidable True)

variable {h h' : Heap} {stack : Nat}

theorem decimal_length_pos (n : Nat) : 0 < (decimal n).length := by
  rw [decimal, List.length_map]
  exact Nat.length_toDigits_pos

/-- A name of a copy takes six bytes more at least. -/
theorem length_copyName (clientName : Str) (number : BitVec 32) :
    clientName.length + 6 ≤ (copyName clientName number).length := by
  have hdigits := decimal_length_pos number.toNat
  simp only [copyName, List.length_append, List.length_cons, List.length_nil]
  omega

theorem clientName_eq (h : Heap) (d : ObjectId) :
    h.clientName d = ((h.objects d).map identity).bind Prod.fst := by
  rw [clientName]
  cases h.objects d <;> rfl

theorem clientName_congr {d : ObjectId}
    (hidentity : (h'.objects d).map identity = (h.objects d).map identity) :
    h'.clientName d = h.clientName d := by
  rw [clientName_eq, clientName_eq, hidentity]

/-- A dispatcher with a parent has no connector, or a name with a number behind it. -/
structure Suffixed (h : Heap) : Prop where
  long : ∀ d clientName parent,
    (h.objects d).map identity = some (some clientName, some parent) → 6 ≤ clientName.length
  fresh : ∀ d, h.next ≤ d → h.objects d = none

/-- The step calls `t` by a number behind a client name if that is short enough, and
takes its connector if not. -/
structure Renames (h : Heap) (t : ObjectId) (clientName : Str) (number : BitVec 32) (h' : Heap)
    (result : CopyResult) : Prop where
  next : h.next ≤ h'.next
  bound : t < h'.next
  others : ∀ d, d ≠ t → (h'.objects d).map identity = (h.objects d).map identity
  own : (result = .done ∧ (copyName clientName number).length ≤ 10 ∧
      ∃ parent, (h'.objects t).map identity = some (some (copyName clientName number), parent)) ∨
    ((∃ message, result = .threw message) ∧ 10 < (copyName clientName number).length ∧
      h'.clientName t = none)

theorem Suffixed.bound (hs : h.Suffixed) {d : ObjectId} {o : Instance}
    (ho : h.objects d = some o) : d < h.next := by
  by_contra hge
  rw [hs.fresh d (Nat.not_lt.mp hge)] at ho
  cases ho

/-- A dispatcher that has just got its parent is called by its own counter, one further on. If
the parent has one itself, no number is short enough. -/
theorem finishCopy_renames {id ref : ObjectId} {o r : Instance} {clientName : Str}
    {result : CopyResult} (ho : h.objects id = some o) (hparent : o.parentCpy = some ref)
    (hconnector : o.connector = none) (hne : ref ≠ id) (hr : h.objects ref = some r)
    (hlong : r.parentCpy ≠ none → 6 ≤ clientName.length) (hbound : id < h.next)
    (hfinish : h.finishCopy stack id clientName = some (h', result)) :
    Renames h id clientName (o.instances + 1) h' result ∧ h'.next = h.next := by
  obtain ⟨counted, q, hnotify, hq, hresult⟩ := finishCopy_inv hfinish
  obtain ⟨hnext, hidentity⟩ := notify_identity hnotify
  have hown : identity q = (none, some ref) := by
    have hkept := hidentity id
    rw [hq, ho, Option.map_some, Option.map_some, Option.some.injEq] at hkept
    rw [hkept, identity, hconnector, hparent]
  have hnumber : r.parentCpy = none → q.instances = o.instances + 1 := by
    intro hroot
    have hcounted := (notifyNewInstance_copy ho hparent hne hr hroot hnotify).1
    obtain rfl := Option.some.inj (hcounted.symm.trans hq)
    rfl
  have hgrows := length_copyName clientName (o.instances + 1)
  have hgrows' := length_copyName clientName q.instances
  obtain ⟨rfl, hrefused, rfl⟩ | ⟨rfl, haccepted, rfl⟩ := hresult
  · refine ⟨⟨hnext.ge, hnext.symm ▸ hbound, fun d _ => hidentity d, .inr ⟨⟨_, rfl⟩, ?_, ?_⟩⟩, hnext⟩
    · by_cases hroot : r.parentCpy = none
      · rw [← hnumber hroot]
        exact hrefused
      · have hlength := hlong hroot
        omega
    · rw [clientName_eq, hq, Option.map_some, hown]
      rfl
  · have hroot : r.parentCpy = none := by
      by_contra hparented
      have hlength := hlong hparented
      omega
    rw [← hnumber hroot]
    refine ⟨⟨hnext.ge, hnext.symm ▸ hbound, fun d hd => ?_,
      .inl ⟨rfl, haccepted, q.parentCpy, ?_⟩⟩, hnext⟩
    · rw [set_objects_of_ne _ hd]
      exact hidentity d
    · rw [set_objects_self]
      rfl

/-- The name that a copy starts from. -/
theorem Suffixed.source_long (hs : h.Suffixed) {ref : ObjectId} {r : Instance} {clientName : Str}
    (hr : h.objects ref = some r) (hclient : r.connector = some clientName)
    (hparented : r.parentCpy ≠ none) : 6 ≤ clientName.length := by
  obtain ⟨parent, hparent⟩ := Option.ne_none_iff_exists'.mp hparented
  apply hs.long ref clientName parent
  rw [hr, Option.map_some, identity, hclient, hparent]

theorem copyConstruct_renames {ref : ObjectId} {memory : BitVec 32} {result : CopyResult}
    (hs : h.Suffixed) (hcopy : h.copyConstruct stack ref memory = some (h', result)) :
    ∃ clientName, h.clientName ref = some clientName ∧
      Renames h h.next clientName (memory + 1) h' result := by
  obtain ⟨r, clientName, copy, made, finished, hclient, hfinish, hmade, rfl⟩ :=
    copyConstruct_inv hcopy
  have hne : ref ≠ h.next := Nat.ne_of_lt (hs.bound hmade.source)
  have hbound : h.next < made.next := by
    rw [hmade.next]
    exact Nat.lt_succ_self _
  obtain ⟨hf, -⟩ := finishCopy_renames hmade.own hmade.parent hmade.connector hne
    ((hmade.others ref hne).trans hmade.source) (hs.source_long hmade.source hclient) hbound hfinish
  rw [hmade.instances] at hf
  refine ⟨clientName, by rw [Heap.clientName, hmade.source, Option.bind_some, hclient], ?_⟩
  cases result with
  | done =>
      refine ⟨Nat.le_of_lt hf.bound, hf.bound, fun d hd => ?_, hf.own⟩
      rw [if_pos rfl, hf.others d hd, hmade.others d hd]
  | threw message =>
      refine ⟨Nat.le_of_lt hf.bound, hf.bound, fun d hd => ?_, ?_⟩
      · rw [if_neg nofun, set_objects_of_ne _ hd, hf.others d hd, hmade.others d hd]
      · obtain ⟨hdone, -⟩ | ⟨hthrew, hrefused, -⟩ := hf.own
        · cases hdone
        · refine .inr ⟨hthrew, hrefused, ?_⟩
          rw [if_neg nofun, Heap.clientName, set_objects_self]
          rfl

theorem assign_renames {id ref : ObjectId} {result : CopyResult} (hs : h.Suffixed)
    (hassign : h.assign stack id ref = some (h', result)) :
    ∃ clientName o, h.clientName ref = some clientName ∧ h.objects id = some o ∧
      Renames h id clientName (o.instances + 1) h' result := by
  obtain ⟨o, r, clientName, hne, ho, hr, hclient, hfinish⟩ := assign_inv hassign
  have hname : h.clientName ref = some clientName := by
    rw [Heap.clientName, hr, Option.bind_some, hclient]
  refine ⟨clientName, o, hname, ho, ?_⟩
  obtain ⟨hf, hfnext⟩ := finishCopy_renames (set_objects_self ..) rfl rfl hne
    ((set_objects_of_ne _ hne _).trans hr) (hs.source_long hr hclient) (hs.bound ho) hfinish
  refine ⟨hfnext.ge, hf.bound, fun d hd => ?_, hf.own⟩
  rw [hf.others d hd, set_objects_of_ne _ hd]

theorem Renames.suffixed {t : ObjectId} {clientName : Str} {number : BitVec 32}
    {result : CopyResult} (hs : h.Suffixed) (hr : Renames h t clientName number h' result) :
    h'.Suffixed := by
  constructor
  · intro d name parent hidentity
    by_cases hd : d = t
    · subst hd
      obtain ⟨-, -, parent', hown⟩ | ⟨-, -, hnone⟩ := hr.own
      · obtain ⟨hname, -⟩ := Prod.mk.inj (Option.some.inj (hown.symm.trans hidentity))
        obtain rfl := Option.some.inj hname
        have hlength := length_copyName clientName number
        omega
      · rw [clientName_eq, hidentity] at hnone
        cases hnone
    · exact hs.long d name parent ((hr.others d hd).symm.trans hidentity)
  · intro d hd
    have hne : d ≠ t := Nat.ne_of_gt (Nat.lt_of_lt_of_le hr.bound hd)
    have hothers := hr.others d hne
    rw [hs.fresh d (Nat.le_trans hr.next hd), Option.map_none, Option.map_eq_none_iff] at hothers
    exact hothers

theorem Suffixed.named (hs : h.Suffixed) {d : ObjectId} {name : Str}
    (hname : h.clientName d = some name) : d < h.next := by
  obtain ⟨o, ho, -⟩ := Option.bind_eq_some_iff.mp hname
  exact hs.bound ho

/-- Giving one dispatcher a new name. -/
theorem Renames.distinct_iff {x : Heap × Lineage} {t : ObjectId} {clientName : Str}
    {number : BitVec 32} {result : CopyResult} {derived : Lineage} (hs : x.1.Suffixed)
    (hx : Distinct x) (hr : Renames x.1 t clientName number h' result)
    (hkept : ∀ d, d ≠ t → derived d = x.2 d) :
    Distinct (h', derived) ↔
      (result = .done → derived t = true → Vacant x t clientName number) := by
  have hothers : ∀ d, d ≠ t → h'.clientName d = x.1.clientName d :=
    fun d hd => clientName_congr (hr.others d hd)
  have hown : ∀ name, h'.clientName t = some name →
      result = .done ∧ name = copyName clientName number := by
    intro name hname
    obtain ⟨hdone, -, parent, hidentity⟩ | ⟨-, -, hnone⟩ := hr.own
    · rw [clientName_eq, hidentity] at hname
      exact ⟨hdone, (Option.some.inj hname).symm⟩
    · rw [hnone] at hname
      cases hname
  constructor
  · intro hdistinct hdone hderived d _ hne hd hname
    obtain ⟨-, -, parent, hidentity⟩ | ⟨⟨message, hthrew⟩, -⟩ := hr.own
    · have hnew : h'.clientName t = some (copyName clientName number) := by
        rw [clientName_eq, hidentity]
        rfl
      exact hne (hdistinct t d _ hderived ((hkept d hne).trans hd) hnew
        ((hothers d hne).trans hname)).symm
    · rw [hdone] at hthrew
      cases hthrew
  · intro hvacant
    -- nobody else has the new name
    have halone : ∀ d name, d ≠ t → derived t = true → derived d = true →
        h'.clientName t = some name → h'.clientName d ≠ some name := by
      intro d name hne ht hd hname hsame
      obtain ⟨hdone, rfl⟩ := hown name hname
      rw [hothers d hne] at hsame
      exact hvacant hdone ht d (hs.named hsame) hne ((hkept d hne).symm.trans hd) hsame
    intro c d name hc hd hcname hdname
    by_cases hct : c = t
    · subst hct
      by_contra hne
      exact halone d name (Ne.symm hne) hc hd hcname hdname
    · by_cases hdt : d = t
      · subst hdt
        exact absurd hcname (halone c name hct hd hc hdname)
      · exact hx c d name ((hkept c hct).symm.trans hc) ((hkept d hdt).symm.trans hd)
          ((hothers c hct).symm.trans hcname) ((hothers d hdt).symm.trans hdname)

/-- What is known of a heap and its lineage. -/
structure Traced (x : Heap × Lineage) : Prop where
  suffixed : x.1.Suffixed
  bound : ∀ d, x.2 d = true → d < x.1.next
  distinct : Distinct x

/-- A construction is none of the derived dispatchers. -/
theorem construct_traced {x : Heap × Lineage} (hx : Traced x) {o : Instance}
    (hroot : o.parentCpy = none) :
    Traced ({ x.1.set x.1.next (some o) with next := x.1.next + 1 }, x.2) := by
  have hothers : ∀ d, d ≠ x.1.next → (x.1.set x.1.next (some o)).objects d = x.1.objects d :=
    fun d hd => set_objects_of_ne _ hd _
  have hnames : ∀ d, d ≠ x.1.next →
      (x.1.set x.1.next (some o)).clientName d = x.1.clientName d := by
    intro d hd
    rw [clientName, hothers d hd, clientName]
  refine ⟨⟨fun d name parent hidentity => ?_, fun d hd => ?_⟩, fun d hd => ?_,
    fun c d name hc hd hcname hdname => ?_⟩
  · by_cases hd : d = x.1.next
    · subst hd
      have hown : identity o = (some name, some parent) := by
        apply Option.some.inj
        rw [← hidentity]
        show some (identity o) = Option.map identity ((x.1.set x.1.next (some o)).objects _)
        rw [set_objects_self]
        rfl
      rw [identity, hroot] at hown
      cases (Prod.mk.inj hown).2
    · apply hx.suffixed.long d name parent
      rw [← hidentity]
      exact congrArg (Option.map identity) (hothers d hd).symm
  · have hlt : x.1.next < d := hd
    exact (hothers d (Nat.ne_of_gt hlt)).trans (hx.suffixed.fresh d (Nat.le_of_lt hlt))
  · exact Nat.lt_succ_of_lt (hx.bound d hd)
  · have hcname : (x.1.set x.1.next (some o)).clientName c = some name := hcname
    have hdname : (x.1.set x.1.next (some o)).clientName d = some name := hdname
    rw [hnames c (Nat.ne_of_lt (hx.bound c hc))] at hcname
    rw [hnames d (Nat.ne_of_lt (hx.bound d hd))] at hdname
    exact hx.distinct c d name hc hd hcname hdname

/-- A destruction takes one away. -/
theorem destroy_traced {x : Heap × Lineage} (hx : Traced x) {id : ObjectId}
    (hdestroy : x.1.destroy stack id = some h') : Traced (h', x.2) := by
  obtain ⟨counted, hnotify, rfl⟩ := destroy_inv hdestroy
  obtain ⟨hnext, hidentity⟩ := notify_identity hnotify
  have hleft : ∀ d, (counted.set id none).objects d = none ∨
      ((counted.set id none).objects d).map identity = (x.1.objects d).map identity := by
    intro d
    by_cases hd : d = id
    · subst hd
      exact .inl (set_objects_self ..)
    · right
      rw [set_objects_of_ne _ hd]
      exact hidentity d
  have hnames : ∀ d name, (counted.set id none).clientName d = some name →
      x.1.clientName d = some name := by
    intro d name hname
    obtain hgone | hsame := hleft d
    · rw [clientName, hgone] at hname
      cases hname
    · exact (clientName_congr hsame).symm.trans hname
  refine ⟨⟨fun d name parent hd => ?_, fun d hd => ?_⟩, fun d hd => ?_,
    fun c d name hc hd hcname hdname => ?_⟩
  · obtain hgone | hsame := hleft d
    · rw [hgone] at hd
      cases hd
    · exact hx.suffixed.long d name parent (hsame.symm.trans hd)
  · obtain hgone | hsame := hleft d
    · exact hgone
    · rw [hx.suffixed.fresh d (hnext ▸ hd), Option.map_none, Option.map_eq_none_iff] at hsame
      exact hsame
  · exact hnext ▸ hx.bound d hd
  · exact hx.distinct c d name hc hd (hnames c name hcname) (hnames d name hdname)

/-- A step that gives one dispatcher a new name. -/
theorem Renames.traced {x : Heap × Lineage} {t : ObjectId} {clientName : Str}
    {number : BitVec 32} {result : CopyResult} {derived : Lineage} (hx : Traced x)
    (hr : Renames x.1 t clientName number h' result)
    (hkept : ∀ d, d ≠ t → derived d = x.2 d) :
    (Distinct (h', derived) → Traced (h', derived)) ∧
      (Distinct (h', derived) ↔
        (result = .done → derived t = true → (copyName clientName number).length ≤ 10 →
          Vacant x t clientName number)) := by
  constructor
  · intro hdistinct
    refine ⟨hr.suffixed hx.suffixed, fun d hd => ?_, hdistinct⟩
    by_cases hdt : d = t
    · exact hdt ▸ hr.bound
    · exact Nat.lt_of_lt_of_le (hx.bound d ((hkept d hdt).symm.trans hd)) hr.next
  · rw [hr.distinct_iff hx.suffixed hx.distinct hkept]
    constructor
    · intro h hdone ht _
      exact h hdone ht
    · intro h hdone ht
      obtain ⟨-, hshort, -⟩ | ⟨⟨message, hthrew⟩, -⟩ := hr.own
      · exact h hdone ht hshort
      · rw [hdone] at hthrew
        cases hthrew

/-- The names stay distinct if the counter is unused. -/
theorem step_traced {x y : Heap × Lineage} {e : CopyEvent} {result : CopyResult} (hx : Traced x)
    (hstep : (lineageMachine stack).step x e = some (y, result)) :
    (Distinct y → Traced y) ∧ (Distinct y ↔ Unused x e) := by
  obtain ⟨hmove, hlineage⟩ := Machine.recording_step hstep
  obtain ⟨h', derived⟩ := y
  obtain rfl := hlineage
  cases e with
  | construct clientName address dropEcho dropMembership =>
      have hmove : x.1.step stack (.construct clientName address dropEcho dropMembership) =
        some (h', result) := hmove
      obtain ⟨rfl, -⟩ := Prod.mk.inj (Option.some.inj hmove)
      have htraced := construct_traced hx (o :=
        { instances := 1, parentCpy := none, connector := some clientName, address
          dropEchoMessages := dropEcho, dropMembershipMessages := dropMembership }) rfl
      exact ⟨fun _ => htraced, fun _ => trivial, fun _ => htraced.distinct⟩
  | destroy id =>
      obtain ⟨b, hdestroy, hb⟩ := Option.map_eq_some_iff.mp hmove
      obtain ⟨rfl, -⟩ := Prod.mk.inj hb
      have htraced := destroy_traced hx hdestroy
      exact ⟨fun _ => htraced, fun _ => trivial, fun _ => htraced.distinct⟩
  | copy ref memory =>
      have hmove : x.1.copyConstruct stack ref memory = some (h', result) := hmove
      obtain ⟨clientName, hclient, hr⟩ := copyConstruct_renames hx.suffixed hmove
      have hkept : ∀ d, d ≠ x.1.next → descend x.2 x.1 (.copy ref memory) result d = x.2 d := by
        intro d hd
        cases result with
        | done => exact Function.update_of_ne hd ..
        | threw message => rfl
      obtain ⟨htraced, hiff⟩ := hr.traced hx hkept
      refine ⟨htraced, hiff.trans ?_⟩
      constructor
      · intro h href clientName' hclient' hshort
        obtain rfl := Option.some.inj (hclient.symm.trans hclient')
        obtain ⟨rfl, -⟩ | ⟨-, hlong, -⟩ := hr.own
        · exact h rfl ((Function.update_self ..).trans href) hshort
        · exact absurd hshort (Nat.not_le.mpr hlong)
      · rintro h rfl hnew hshort
        exact h ((Function.update_self ..).symm.trans hnew) clientName hclient hshort
  | assign id ref =>
      have hmove : x.1.assign stack id ref = some (h', result) := hmove
      obtain ⟨clientName, o, hclient, ho, hr⟩ := assign_renames hx.suffixed hmove
      have hkept : ∀ d, d ≠ id → descend x.2 x.1 (.assign id ref) result d = x.2 d := by
        intro d hd
        exact Function.update_of_ne hd ..
      have hown : descend x.2 x.1 (.assign id ref) result id = true ↔
          id = original ∨ x.2 ref = true := by
        rw [descend, Function.update_self, Bool.or_eq_true, decide_eq_true_eq]
      obtain ⟨htraced, hiff⟩ := hr.traced hx hkept
      refine ⟨htraced, hiff.trans ?_⟩
      rw [hown]
      constructor
      · intro h hderived clientName' hclient' o' ho' hshort
        obtain rfl := Option.some.inj (hclient.symm.trans hclient')
        obtain rfl := Option.some.inj (ho.symm.trans ho')
        obtain ⟨hdone, -⟩ | ⟨-, hlong, -⟩ := hr.own
        · exact h hdone hderived hshort
        · exact absurd hshort (Nat.not_le.mpr hlong)
      · intro h _ hderived hshort
        exact h hderived clientName hclient o ho hshort

theorem start_traced (clientName address : Str) (dropEcho dropMembership : Bool) :
    Traced (start clientName address dropEcho dropMembership) := by
  have hgone : ∀ d, d ≠ original →
      (start clientName address dropEcho dropMembership).1.objects d = none :=
    fun d hd => set_objects_of_ne _ hd _
  refine ⟨⟨fun d name parent hidentity => ?_, fun d hd => ?_⟩, fun d hd => ?_,
    fun c d name hc hd _ _ => ?_⟩
  · by_cases hd : d = original
    · subst hd
      cases hidentity
    · rw [hgone d hd] at hidentity
      cases hidentity
  · exact hgone d (Nat.ne_of_gt hd)
  · have hd : d = original := of_decide_eq_true hd
    subst hd
    exact Nat.lt_succ_self _
  · have hc : c = original := of_decide_eq_true hc
    have hd : d = original := of_decide_eq_true hd
    rw [hc, hd]

/-- **Client names.** In every run that starts with one dispatcher, the derived dispatchers
have distinct client names after each step exactly when every copy and assignment of theirs
that is accepted finds a counter that none of them is called by. -/
theorem distinct_iff_unused (stack : Nat) (clientName address : Str)
    (dropEcho dropMembership : Bool) {trace : List (CopyEvent × CopyResult)} {x : Heap × Lineage}
    (run : (lineageMachine stack).Run (fun _ _ => True)
      (start clientName address dropEcho dropMembership) trace x) :
    (lineageMachine stack).EveryStep (start clientName address dropEcho dropMembership) trace
        (fun _ _ y _ => Distinct y) ↔
      (lineageMachine stack).Run Unused (start clientName address dropEcho dropMembership)
        trace x := by
  apply run.everyStep_iff (start_traced clientName address dropEcho dropMembership)
  · intro a e b result ha move hb
    exact (step_traced ha move).1 hb
  · intro a e b result ha move
    exact (step_traced ha move).2

/-- Two copies of a client, a third one that is assigned to, and one that is a copy twice. -/
def familyRun : List CopyEvent :=
  [.copy 0 0, .construct [122] [] true false, .copy 0 6, .assign 2 0, .copy 1 0, .destroy 3]

theorem distinct_familyRun : ∃ trace x,
    (lineageMachine 4).Run (fun _ _ => True) (start [97, 98] [] false false) trace x ∧
      trace.map Prod.snd = [.done, .done, .done, .done, .threw clientNameExceeded, .done] ∧
      (lineageMachine 4).EveryStep (start [97, 98] [] false false) trace
        (fun _ _ y _ => Distinct y) := by
  obtain ⟨trace, x, run, hresults⟩ := Machine.Run.exists_of_exec (lineageMachine 4) Unused
    (start [97, 98] [] false false) familyRun
    (fun trace _ => trace.map Prod.snd =
      [.done, .done, .done, .done, .threw clientNameExceeded, .done]) (by decide)
  have free : (lineageMachine 4).Run (fun _ _ => True) (start [97, 98] [] false false) trace x :=
    run.mono fun _ _ _ => trivial
  exact ⟨trace, x, free, hresults, (distinct_iff_unused 4 [97, 98] [] false false free).mpr run⟩

/-- Two copies that find the same in their counters. -/
theorem twins_share_name : ∃ trace x,
    (lineageMachine 4).Run (fun _ _ => True) (start [97] [] false false) trace x ∧
      ¬ Distinct x := by
  obtain ⟨trace, x, run, hx⟩ := Machine.Run.exists_of_exec (lineageMachine 4) (fun _ _ => True)
    (start [97] [] false false) [.copy 0 0, .copy 0 0]
    (fun _ x => x.2 1 = true ∧ x.2 2 = true ∧ (x.1.clientName 1).isSome = true ∧
      x.1.clientName 1 = x.1.clientName 2) (by decide)
  obtain ⟨hfirst, hsecond, hsome, hsame⟩ := hx
  obtain ⟨name, hname⟩ := Option.isSome_iff_exists.mp hsome
  refine ⟨trace, x, run, fun hdistinct => ?_⟩
  have htwins := hdistinct 1 2 name hfirst hsecond hname (hsame.symm.trans hname)
  cases htwins

end Heap

end Netbroker
