import Netbroker.Dispatcher.Store
import Netbroker.Transition.Exception

/-!
# The two registries of group names

A name is registered in `m_sendOnlyGroups`, in `m_group_buffer_map`, or in both:
`registerGroup` looks into the map for every registration, but into the list for a
send-only one only. The specification that `makeMessage` applies is the first of
those under which the name is registered, and the list goes first.

A registration adds one specification to those of its name and leaves all other names alone,
and every other operation adds none. `sparesSendOnly` is the condition on a call, in the state
it finds, under which names stay unique.
-/

namespace Netbroker

open Spread Transition

/-- The operations that take no name off a registry. -/
def Operation.keepsNames : Operation → Bool
  | .unregisterGroup _ | .disconnect => false
  | _ => true

namespace Dispatcher

/-- The specifications under which the name is registered, in the order in which
`makeMessage` looks for one. -/
def specifications (d : Dispatcher) (name : Str) : List Group :=
  d.sendOnlyGroups.filter (·.name = name) ++ ((d.groups.lookup name).map (·.group)).toList

def findGroup (d : Dispatcher) (group : Str) : Bool :=
  d.sendOnlyGroups.any (·.name = group) || group ∈ d.groups

/-- The name stands in `m_sendOnlyGroups`. -/
def isSendOnly (d : Dispatcher) (name : Str) : Bool := d.sendOnlyGroups.any (·.name = name)

variable {d d' : Dispatcher} {name : Str}

theorem filter_eq_nil_iff_isSendOnly :
    d.sendOnlyGroups.filter (·.name = name) = [] ↔ d.isSendOnly name = false := by
  simp [isSendOnly]

theorem specifications_eq_nil_iff :
    d.specifications name = [] ↔ d.isSendOnly name = false ∧ name ∉ d.groups := by
  simp only [specifications, List.append_eq_nil_iff, filter_eq_nil_iff_isSendOnly,
    Option.toList_eq_nil_iff, Option.map_eq_none_iff, AList.lookup_eq_none]

theorem specifications_congr (hsendOnly : d'.sendOnlyGroups = d.sendOnlyGroups)
    (hgroups : d'.groups = d.groups) (name : Str) :
    d'.specifications name = d.specifications name := by
  rw [specifications, specifications, hsendOnly, hgroups]

/-- The message under a specification. -/
def makeUnder (g : Group) (groupName : Str) (data : List UInt8) (opCode : BitVec 16) :
    Except DispatcherException Buffer :=
  match g.createBuffer data opCode with
  | some b => .ok b
  | none => .error (.messageSizeRefused groupName)

/-- `makeMessage` applies the first specification of the name. -/
theorem makeMessage_eq (d : Dispatcher) (name : Str) (data : List UInt8) (opCode : BitVec 16)
    (callerFuncName : String) (honline : d.connStatus = .online)
    (hopCode : callerFuncName = stopName ∨ opCode ≠ sigHaltMsg) :
    d.makeMessage name data opCode callerFuncName =
      (d.specifications name).head?.elim (.error .groupNotRegistered)
        fun g => makeUnder g name data opCode := by
  have hallowed : ¬ (callerFuncName ≠ stopName ∧ opCode = sigHaltMsg) := by
    rintro ⟨hcaller, hhalt⟩
    exact hopCode.elim hcaller fun h => h hhalt
  have hhead : (d.specifications name).head? =
      (d.sendOnlyGroups.find? (·.name = name)).or ((d.groups.lookup name).map (·.group)) := by
    rw [specifications, List.head?_append, List.head?_filter]
    cases (d.groups.lookup name).map (·.group) <;> rfl
  rw [hhead, makeMessage, if_neg (by simp [honline]), if_neg hallowed]
  cases d.sendOnlyGroups.find? (·.name = name) with
  | some g => rfl
  | none =>
      cases d.groups.lookup name with
      | none => rfl
      | some r => rfl

/-- A message that `makeMessage` returns passed the first specification of its group. -/
theorem makeMessage_ok {data : List UInt8} {opCode : BitVec 16} {callerFuncName : String}
    {b : Buffer} (h : d.makeMessage name data opCode callerFuncName = .ok b) :
    d.connStatus = .online ∧ ∃ g, (d.specifications name).head? = some g ∧
      data.length ≤ g.maxBufferSize ∧ b.data = data := by
  have honline : d.connStatus = .online := by
    obtain honline | hoffline := d.connStatus.online_or_offline
    · exact honline
    · rw [makeMessage, if_pos hoffline] at h
      cases h
  have hopCode : callerFuncName = stopName ∨ opCode ≠ sigHaltMsg := by
    by_contra hreserved
    rw [not_or, not_not] at hreserved
    rw [makeMessage, if_neg (by simp [honline]), if_pos hreserved] at h
    cases h
  refine ⟨honline, ?_⟩
  rw [makeMessage_eq d name data opCode callerFuncName honline hopCode] at h
  cases hhead : (d.specifications name).head? with
  | none => simp [hhead] at h
  | some g =>
      rw [hhead] at h
      simp only [Option.elim_some, makeUnder] at h
      split at h
      · rename_i hcreated
        obtain ⟨hsize, rfl⟩ := Group.createBuffer_eq_some.mp hcreated
        cases h
        exact ⟨g, rfl, hsize, rfl⟩
      · cases h

/-- `registerGroup` comes past its checks. -/
def admits (d : Dispatcher) (groupName : Str) (bufferSize : Int) (sendOnly : Bool) : Bool :=
  bufferSize ≤ 92160 && decide (groupName.length < maxGroupName) && groupName ∉ d.groups
    && !(sendOnly && d.isSendOnly groupName)

theorem admits_iff {bufferSize : Int} {sendOnly : Bool} :
    d.admits name bufferSize sendOnly = true ↔ bufferSize ≤ 92160 ∧ name.length < maxGroupName ∧
      name ∉ d.groups ∧ (sendOnly = true → d.isSendOnly name = false) := by
  cases sendOnly <;> simp [admits, and_assoc]

section Register

variable {bufferSize : Int} {queueSize : Nat} {sent : Bool}

theorem registerGroup_refuses (queueSize : Nat) {sendOnly : Bool} (sent : Bool)
    (h : d.admits name bufferSize sendOnly = false) :
    ∃ e, d.registerGroup name bufferSize queueSize sendOnly sent = (.error e, d) := by
  have hnot : ¬ d.admits name bufferSize sendOnly = true := by simp [h]
  rw [admits_iff] at hnot
  by_cases hsize : 92160 < bufferSize
  · exact ⟨.bufferSizeExceeded, by simp [registerGroup, hsize]⟩
  by_cases hlength : maxGroupName ≤ name.length
  · exact ⟨.groupNameExceeded, by simp [registerGroup, hsize, hlength]⟩
  by_cases hmem : name ∈ d.groups
  · exact ⟨.groupRegistered name, by simp [registerGroup, hsize, hlength, hmem]⟩
  cases sendOnly with
  | false => exact absurd ⟨by omega, by omega, hmem, by simp⟩ hnot
  | true =>
      have hknown : d.sendOnlyGroups.any (·.name = name) = true := by
        by_contra hunknown
        exact hnot ⟨by omega, by omega, hmem, fun _ => by simpa [isSendOnly] using hunknown⟩
      refine ⟨.sendOnlyGroupRegistered name, ?_⟩
      simp only [registerGroup, hsize, hlength, hmem, hknown, if_true, if_false]

theorem registerGroup_sendOnly (h : d.admits name bufferSize true = true) :
    d.registerGroup name bufferSize queueSize true sent =
      (.ok (), { d with
        sendOnlyGroups := d.sendOnlyGroups ++ [Group.new name bufferSize queueSize] }) := by
  obtain ⟨hsize, hlength, hmem, hunknown⟩ := admits_iff.mp h
  have hunknown : d.sendOnlyGroups.any (·.name = name) = false := hunknown rfl
  simp only [registerGroup, Int.not_lt.mpr hsize, Nat.not_le.mpr hlength, hmem, hunknown,
    if_true, if_false, Bool.false_eq_true]

/-- A receiving group is inserted ahead of the look at the status. -/
theorem registerGroup_online (h : d.admits name bufferSize false = true)
    (honline : d.connStatus = .online) : d.registerGroup name bufferSize queueSize false sent =
      (.ok (), { d.insertGroup (Group.new name bufferSize queueSize) queueSize with
        connection := (d.connection.joinGroup sent name).2 }) := by
  obtain ⟨hsize, hlength, hmem, -⟩ := admits_iff.mp h
  have hinserted : (d.insertGroup (Group.new name bufferSize queueSize) queueSize).connStatus =
      .online := honline
  simp only [registerGroup, Int.not_lt.mpr hsize, Nat.not_le.mpr hlength, hmem, if_false,
    Bool.false_eq_true, hinserted]
  rfl

theorem registerGroup_offline (h : d.admits name bufferSize false = true)
    (hoffline : d.connStatus = .offline) : d.registerGroup name bufferSize queueSize false sent =
      (.error .networkNotConnected,
        d.insertGroup (Group.new name bufferSize queueSize) queueSize) := by
  obtain ⟨hsize, hlength, hmem, -⟩ := admits_iff.mp h
  have hinserted : (d.insertGroup (Group.new name bufferSize queueSize) queueSize).connStatus =
      .offline := hoffline
  simp only [registerGroup, Int.not_lt.mpr hsize, Nat.not_le.mpr hlength, hmem, if_false,
    Bool.false_eq_true, hinserted]

end Register

/-- Every name is registered at most once, in the two registries taken together. -/
def Unique (d : Dispatcher) : Prop := ∀ name, (d.specifications name).length ≤ 1

theorem Unique.specifications_eq (h : d.Unique) {g : Group} (hg : g ∈ d.specifications name) :
    d.specifications name = [g] := by
  have hone : (d.specifications name).length = 1 :=
    Nat.le_antisymm (h name) (List.length_pos_of_mem hg)
  obtain ⟨g', hsingle⟩ := List.length_eq_one_iff.mp hone
  rw [hsingle] at hg ⊢
  rw [List.mem_singleton.mp hg]

/-- The name that the operation registers, in either role, and the buffer size. -/
def registration (d : Dispatcher) : Operation → Option (Str × Int)
  | .registerGroup groupName bufferSize _ sendOnly =>
      if d.admits groupName bufferSize sendOnly then some (groupName, bufferSize) else none
  | .connect (.accepted _) =>
      if d.connStatus = .offline ∧ d.activity = .stopped ∧ d.admits d.controlGroup 1 false then
        some (d.controlGroup, 1)
      else none
  | _ => none

theorem registration_admits {op : Operation} {r : Str × Int} (h : d.registration op = some r) :
    ∃ sendOnly, d.admits r.1 r.2 sendOnly = true := by
  unfold registration at h
  split at h
  · obtain ⟨hadmits, hr⟩ := Option.ite_none_right_eq_some.mp h
    obtain rfl := Option.some.inj hr
    exact ⟨_, hadmits⟩
  · obtain ⟨⟨-, -, hadmits⟩, hr⟩ := Option.ite_none_right_eq_some.mp h
    obtain rfl := Option.some.inj hr
    exact ⟨_, hadmits⟩
  · cases h

/-- `d'` has a specification of the name behind those of `d`. -/
def Adds (d d' : Dispatcher) (r : Str × Int) : Prop :=
  ∃ queueSize, ∀ name, d'.specifications name =
    d.specifications name ++ if name = r.1 then [Group.new r.1 r.2 queueSize] else []

theorem specifications_insertGroup (d : Dispatcher) {g : Group} (hnew : g.name ∉ d.groups)
    (n : Nat) (name : Str) : (d.insertGroup g n).specifications name =
      d.specifications name ++ if name = g.name then [g] else [] := by
  rw [specifications, specifications, insertGroup_lookup, List.append_assoc]
  have hsame : (d.insertGroup g n).sendOnlyGroups = d.sendOnlyGroups := rfl
  rw [hsame]
  by_cases hname : name = g.name
  · subst hname
    simp [AList.lookup_eq_none.mpr hnew]
  · simp [hname]

theorem specifications_append_sendOnly {g : Group} (hnew : d.specifications g.name = [])
    (name : Str) :
    ({ d with sendOnlyGroups := d.sendOnlyGroups ++ [g] } : Dispatcher).specifications name =
      d.specifications name ++ if name = g.name then [g] else [] := by
  by_cases hname : name = g.name
  · obtain ⟨hunknown, hmem⟩ := specifications_eq_nil_iff.mp hnew
    subst hname
    rw [hnew, specifications, List.filter_append]
    simp [filter_eq_nil_iff_isSendOnly.mpr hunknown, AList.lookup_eq_none.mpr hmem]
  · have hne : ¬ g.name = name := fun h => hname h.symm
    simp [specifications, hname, hne]

/-- An admitted registration adds its specification, also where it throws. -/
theorem registerGroup_adds {bufferSize : Int} {queueSize : Nat} {sendOnly sent : Bool}
    (h : d.admits name bufferSize sendOnly = true) :
    Adds d (d.registerGroup name bufferSize queueSize sendOnly sent).2 (name, bufferSize) := by
  refine ⟨queueSize, fun other => ?_⟩
  obtain ⟨-, -, hmem, hunknown⟩ := admits_iff.mp h
  cases sendOnly with
  | true =>
      rw [registerGroup_sendOnly h]
      exact specifications_append_sendOnly
        (specifications_eq_nil_iff.mpr ⟨hunknown rfl, hmem⟩) other
  | false =>
      have hinserted := specifications_insertGroup d
        (g := Group.new name bufferSize queueSize) hmem queueSize other
      obtain honline | hoffline := d.connStatus.online_or_offline
      · rw [registerGroup_online h honline]
        exact hinserted
      · rw [registerGroup_offline h hoffline]
        exact hinserted

theorem unregisterGroup_specifications (d : Dispatcher) (name : Str) (sent : Bool) (other : Str) :
    ((d.unregisterGroup name sent).2.specifications other).Sublist (d.specifications other) := by
  obtain ⟨e, h⟩ | ⟨first, rest, hfirst, -, h⟩ | ⟨-, -, -, -, h⟩ :=
    d.unregisterGroup_cases name sent
  · rw [h]
  · rw [h]
    dsimp only
    split
    · rw [specifications, specifications, hfirst]
      exact ((List.sublist_cons_self first rest).filter _).append_right _
    · exact List.Sublist.refl _
  · rw [h]
    refine List.Sublist.append_left ?_ _
    by_cases hother : other = name
    · subst hother
      simp [AList.lookup_erase]
    · simp [AList.lookup_erase_ne hother]

theorem disconnect_specifications (d : Dispatcher) (sent : Bool) (other : Str) :
    ((d.disconnect sent).2.specifications other).Sublist (d.specifications other) := by
  obtain ⟨e, h⟩ | ⟨-, -, h⟩ | ⟨-, -, d', hunregister, h⟩ := d.disconnect_cases sent
  · rw [h]
  · rw [h]
  · have hsublist := unregisterGroup_specifications d d.controlGroup sent other
    rw [hunregister] at hsublist
    rw [h]
    exact hsublist

@[simp] theorem connected_admits (d : Dispatcher) (privateGroup : Str) (bufferSize : Int)
    (sendOnly : Bool) : (d.connected privateGroup).admits name bufferSize sendOnly =
      d.admits name bufferSize sendOnly := rfl

theorem connect_refuses (h : ¬ (d.connStatus = .offline ∧ d.activity = .stopped))
    (answer : Answer) (sent : Bool) : ∃ e, d.connect answer sent = (.error e, d) := by
  obtain honline | hoffline := d.connStatus.online_or_offline
  · exact ⟨.stillConnected, by simp [connect, honline]⟩
  · obtain hstarted | hstopped := d.activity.started_or_stopped
    · exact ⟨.stillRunning, by simp [connect, hoffline, hstarted]⟩
    · exact absurd ⟨hoffline, hstopped⟩ h

theorem connect_refused (hoffline : d.connStatus = .offline) (hstopped : d.activity = .stopped)
    (code : { c : Int // c < 0 }) (sent : Bool) :
    d.connect (.refused code) sent = (.ok false, d) := by
  rw [connect, if_neg (by simp [hoffline]), if_neg (by simp [hstopped])]
  exact if_neg (Int.not_le.mpr code.property)

theorem perform_adds {op : Operation} {r : Str × Int} (h : d.registration op = some r)
    (sent : Bool) : Adds d (World.perform d sent op).2 r := by
  cases op with
  | registerGroup groupName bufferSize queueSize sendOnly =>
      obtain ⟨hadmits, hr⟩ := Option.ite_none_right_eq_some.mp h
      obtain rfl := Option.some.inj hr
      exact registerGroup_adds hadmits
  | connect answer =>
      cases answer with
      | refused code => cases h
      | accepted privateGroup =>
          obtain ⟨⟨hoffline, hstopped, hadmits⟩, hr⟩ := Option.ite_none_right_eq_some.mp h
          obtain rfl := Option.some.inj hr
          simp only [World.perform, connect_accepted hoffline hstopped]
          exact registerGroup_adds (d := d.connected privateGroup) hadmits
  | unregisterGroup | sendMessageToGroup | disconnect => cases h

/-- Without a registration an operation takes names away at most. -/
theorem perform_sublist {op : Operation} (h : d.registration op = none) (sent : Bool)
    (name : Str) :
    ((World.perform d sent op).2.specifications name).Sublist (d.specifications name) ∧
      (op.keepsNames = true →
        (World.perform d sent op).2.specifications name = d.specifications name) := by
  have hkeeps : ∀ {d' : Dispatcher}, d'.specifications name = d.specifications name →
      (d'.specifications name).Sublist (d.specifications name) ∧
        (op.keepsNames = true → d'.specifications name = d.specifications name) :=
    fun hsame => ⟨hsame ▸ List.Sublist.refl _, fun _ => hsame⟩
  cases op with
  | registerGroup groupName bufferSize queueSize sendOnly =>
      have hadmits : d.admits groupName bufferSize sendOnly = false := by
        by_contra hadmits
        rw [Bool.not_eq_false] at hadmits
        simp [registration, hadmits] at h
      obtain ⟨e, hrefuses⟩ := registerGroup_refuses queueSize sent hadmits
      refine hkeeps ?_
      simp only [World.perform, hrefuses]
  | connect answer =>
      refine hkeeps ?_
      by_cases hopens : d.connStatus = .offline ∧ d.activity = .stopped
      · obtain ⟨hoffline, hstopped⟩ := hopens
        cases answer with
        | refused code => simp only [World.perform, connect_refused hoffline hstopped]
        | accepted privateGroup =>
            have hadmits : d.admits d.controlGroup 1 false = false := by
              by_contra hadmits
              rw [Bool.not_eq_false] at hadmits
              simp [registration, hoffline, hstopped, hadmits] at h
            obtain ⟨e, hrefuses⟩ := registerGroup_refuses (d := d.connected privateGroup) 1 sent
              hadmits
            simp only [World.perform, connect_accepted hoffline hstopped, hrefuses]
            exact specifications_congr rfl rfl name
      · obtain ⟨e, hrefuses⟩ := connect_refuses hopens answer sent
        simp only [World.perform, hrefuses]
  | sendMessageToGroup b =>
      have traffic := sendMessageToGroup_traffic d b sent
      exact hkeeps (specifications_congr traffic.sendOnlyGroups traffic.groups name)
  | unregisterGroup groupName =>
      refine ⟨unregisterGroup_specifications d groupName sent name, fun hnot => ?_⟩
      cases hnot
  | disconnect =>
      refine ⟨disconnect_specifications d sent name, fun hnot => ?_⟩
      cases hnot

/-- No name that stands in the send-only list is registered. -/
def sparesSendOnly (d : Dispatcher) (op : Operation) : Bool :=
  (d.registration op).all fun r => !d.isSendOnly r.1

theorem sparesSendOnly_iff {op : Operation} : d.sparesSendOnly op = true ↔
    ∀ r, d.registration op = some r → d.specifications r.1 = [] := by
  rw [sparesSendOnly, Option.all_eq_true]
  refine forall₂_congr fun r hr => ?_
  obtain ⟨sendOnly, hadmits⟩ := registration_admits hr
  have hmem : r.1 ∉ d.groups := (admits_iff.mp hadmits).2.2.1
  rw [Bool.not_eq_true', specifications_eq_nil_iff, and_iff_left hmem]

theorem perform_unique_iff (h : d.Unique) (sent : Bool) (op : Operation) :
    (World.perform d sent op).2.Unique ↔ d.sparesSendOnly op = true := by
  rw [sparesSendOnly_iff]
  cases hr : d.registration op with
  | none =>
      refine iff_of_true (fun name => ?_) (by simp)
      exact (perform_sublist hr sent name).1.length_le.trans (h name)
  | some r =>
      obtain ⟨queueSize, hadds⟩ := perform_adds hr sent
      constructor
      · intro hunique r' hr'
        obtain rfl := Option.some.inj hr'
        have hlength := hunique r.1
        rw [hadds, if_pos rfl, List.length_append, List.length_singleton] at hlength
        exact List.length_eq_zero_iff.mp (by omega)
      · intro hspares name
        rw [hadds]
        split
        · rename_i hname
          rw [hname, hspares r rfl]
          exact Nat.le_refl 1
        · rw [List.append_nil]
          exact h name

/-- What a caller can expect of a call where a name is registered at most once. -/
structure RegistersOnce (d : Dispatcher) (op : Operation) (d' : Dispatcher)
    (result : Except DispatcherException Bool) : Prop where
  unique : d'.Unique
  refused : ∀ groupName bufferSize queueSize sendOnly,
    op = .registerGroup groupName bufferSize queueSize sendOnly →
      d.specifications groupName ≠ [] → Throws (result, d')
  /-- `makeMessage` applies whatever specification the name is registered under. -/
  applied : ∀ name, ∀ g ∈ d'.specifications name, ∀ data opCode callerFuncName,
    d'.connStatus = .online → (callerFuncName = stopName ∨ opCode ≠ sigHaltMsg) →
      d'.makeMessage name data opCode callerFuncName = makeUnder g name data opCode

theorem perform_registersOnce_iff (h : d.Unique) (sent : Bool) (op : Operation) :
    RegistersOnce d op (World.perform d sent op).2 (World.perform d sent op).1 ↔
      d.sparesSendOnly op = true := by
  constructor
  · exact fun hcall => (perform_unique_iff h sent op).mp hcall.unique
  · intro hspares
    have hunique := (perform_unique_iff h sent op).mpr hspares
    refine ⟨hunique, ?_, ?_⟩
    · rintro groupName bufferSize queueSize sendOnly rfl hregistered
      cases hadmits : d.admits groupName bufferSize sendOnly with
      | false =>
          obtain ⟨e, hthrows⟩ := registerGroup_refuses queueSize sent hadmits
          exact ⟨e, by simp only [World.perform, hthrows]; rfl⟩
      | true =>
          -- an admitted name is not registered at all
          refine absurd ?_ hregistered
          cases sendOnly with
          | true =>
              obtain ⟨-, -, hmem, hunknown⟩ := admits_iff.mp hadmits
              exact specifications_eq_nil_iff.mpr ⟨hunknown rfl, hmem⟩
          | false => exact sparesSendOnly_iff.mp hspares (groupName, bufferSize) (if_pos hadmits)
    · intro name g hg data opCode callerFuncName honline hopCode
      rw [makeMessage_eq _ _ _ _ _ honline hopCode, hunique.specifications_eq hg]
      rfl

/-- One caller's calls on a new dispatcher, each with the fate of what it sends. -/
def calls (clientName : Str) :
    Machine Dispatcher (Operation × Bool) (Except DispatcherException Bool) where
  init d := ∃ address dropEcho dropMembership mbox,
    d = .initial clientName address dropEcho dropMembership mbox
  step d e := some (World.perform d e.2 e.1).swap

/-- **One registration a name.** In every sequence of calls each name is registered at most
once, a second registration throws and `makeMessage` applies the one specification, exactly
when no call registers a name that stands in the send-only list. -/
theorem registersOnce_iff (clientName : Str) {d₀ d : Dispatcher}
    {trace : List ((Operation × Bool) × Except DispatcherException Bool)}
    (start : (calls clientName).init d₀)
    (run : (calls clientName).Run (fun _ _ => True) d₀ trace d) :
    (calls clientName).EveryStep d₀ trace (fun d e d' result => RegistersOnce d e.1 d' result) ↔
      (calls clientName).Run (fun d e => d.sparesSendOnly e.1 = true) d₀ trace d := by
  have hunique : d₀.Unique := by
    obtain ⟨address, dropEcho, dropMembership, mbox, rfl⟩ := start
    intro name
    exact Nat.zero_le 1
  refine run.everyStep_iff hunique (fun _ _ _ _ _ _ hcall => hcall.unique) ?_
  intro a e b o ha move
  obtain ⟨rfl, rfl⟩ := Prod.mk.inj (Option.some.inj move)
  exact perform_registersOnce_iff ha e.2 e.1

/-- A caller that registers one name in either role, and takes the second one back. -/
def orderlyCalls : List (Operation × Bool) :=
  [(.connect (.accepted [35, 97, 98]), true), (.registerGroup World.demoGroup 8 2 false, true),
    (.registerGroup World.demoGroup 2 1 true, true), (.registerGroup [104] 2 1 true, true),
    (.registerGroup [104] 2 1 true, true), (.unregisterGroup [104], true)]

theorem registersOnce_orderly : ∃ (d : Dispatcher)
    (trace : List ((Operation × Bool) × Except DispatcherException Bool)),
    (calls World.demoClient).Run (fun d e => d.sparesSendOnly e.1 = true) World.demo.dispatcher
      trace d ∧
    trace.map Prod.snd = [.ok true, .ok true, .error (.groupRegistered World.demoGroup), .ok true,
      .error (.sendOnlyGroupRegistered [104]), .ok true] ∧
    (calls World.demoClient).EveryStep World.demo.dispatcher trace
      fun d e d' result => RegistersOnce d e.1 d' result := by
  obtain ⟨trace, d, run, hresults⟩ := Machine.Run.exists_of_exec (calls World.demoClient)
    (fun d e => d.sparesSendOnly e.1 = true) World.demo.dispatcher orderlyCalls
    (fun trace _ => trace.map Prod.snd = [.ok true, .ok true,
      .error (.groupRegistered World.demoGroup), .ok true,
      .error (.sendOnlyGroupRegistered [104]), .ok true]) (by decide)
  exact ⟨d, trace, run, hresults, (registersOnce_iff World.demoClient ⟨[], false, true, 0, rfl⟩
    (run.mono fun _ _ _ => trivial)).mpr run⟩

/-- A send-only group is registered again as a receiving one, with another buffer size. -/
theorem registered_twice : ∃ (d₀ d : Dispatcher)
    (trace : List ((Operation × Bool) × Except DispatcherException Bool)),
    (calls World.demoClient).init d₀ ∧
      (calls World.demoClient).Run (fun _ _ => True) d₀ trace d ∧
      ¬ (calls World.demoClient).EveryStep d₀ trace
        fun d e d' result => RegistersOnce d e.1 d' result := by
  let online := World.demoOnline.dispatcher
  let sendOnly := (World.perform online true (.registerGroup World.demoGroup 2 1 true)).2
  let both := (World.perform sendOnly true (.registerGroup World.demoGroup 8 1 false)).2
  have first : (calls World.demoClient).step World.demo.dispatcher
      (.connect (.accepted [35, 97, 98]), true) = some (online, .ok true) := rfl
  have second : (calls World.demoClient).step online
      (.registerGroup World.demoGroup 2 1 true, true) = some (sendOnly, .ok true) := rfl
  have third : (calls World.demoClient).step sendOnly
      (.registerGroup World.demoGroup 8 1 false, true) = some (both, .ok true) := rfl
  have past : (calls World.demoClient).Run (fun _ _ => True) World.demo.dispatcher _ sendOnly :=
    .cons trivial first (.single trivial second)
  refine ⟨_, both, _, ⟨[], false, true, 0, rfl⟩, past.snoc trivial third, fun h => ?_⟩
  have hcall := h _ _ _ [] _ _ rfl past third
  have htwice : ¬ (both.specifications World.demoGroup).length ≤ 1 := by decide
  exact htwice (hcall.unique World.demoGroup)

end Dispatcher

end Netbroker
