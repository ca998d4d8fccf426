import Netbroker.Dispatcher.Registry

/-!
# The size limit of a group

The buffer size is compared as a signed number when the group is registered, stored
as an unsigned one, and compared as such when a message is made. A negative size is
below the first limit and far above the second. A group that is registered as
send-only first keeps the send-only limit for its messages.
-/

namespace Netbroker

open Spread Transition

theorem unsignedLong_of_nonneg {n : Int} (hnonneg : 0 ≤ n) (hsmall : n ≤ 92160) :
    (unsignedLong n : Int) = n := by
  rw [unsignedLong]
  omega

namespace Dispatcher

/-- A sequence of calls that take no name off a registry, with the registrations it has
made so far: name and buffer size. -/
def registering :
    Machine (Dispatcher × List (Str × Int)) (Operation × Bool)
      (Except DispatcherException Bool) where
  init x := x.2 = []
  step x e :=
    if e.1.keepsNames then
      let (result, d) := World.perform x.1 e.2 e.1
      some ((d, x.2 ++ (x.1.registration e.1).toList), result)
    else none

/-- Every message for the group keeps to both limits and is the front part of the
caller's bytes. -/
def Bounded (d : Dispatcher) (r : Str × Int) : Prop :=
  ∀ (bytes : List UInt8) (size : Nat) opCode callerFuncName b,
    d.makeMessage r.1 (bytes.take size) opCode callerFuncName = .ok b →
      b.size ≤ 92160 ∧ (b.size : Int) ≤ r.2 ∧ b.data = bytes.take b.size

/-- A registration has a size that is none below zero and no smaller than that of the
specification which stays ahead of it. -/
def fits (d : Dispatcher) (op : Operation) : Bool :=
  (d.registration op).all fun r =>
    0 ≤ r.2 && (d.specifications r.1).head?.all fun g => (g.maxBufferSize : Int) ≤ r.2

/-- The specification that `makeMessage` applies is no larger than the registered size. -/
def Fitting (d : Dispatcher) (r : Str × Int) : Prop :=
  0 ≤ r.2 ∧ ∃ g, (d.specifications r.1).head? = some g ∧ (g.maxBufferSize : Int) ≤ r.2

variable {d d' : Dispatcher} {r r' : Str × Int}

theorem bounded_iff_fitting (honline : d.connStatus = .online) (hsize : r.2 ≤ 92160)
    (hregistered : d.specifications r.1 ≠ []) : d.Bounded r ↔ d.Fitting r := by
  obtain ⟨g, rest, hspecs⟩ := List.exists_cons_of_ne_nil hregistered
  have hhead : (d.specifications r.1).head? = some g := by rw [hspecs]; rfl
  constructor
  · intro h
    -- the largest message that the specification lets through
    have hmade : d.makeMessage r.1 ((List.replicate g.maxBufferSize 0).take g.maxBufferSize) 0 "" =
        .ok { data := List.replicate g.maxBufferSize 0, opCode := 0, groupName := g.name
              sender := [], type := .regular } := by
      rw [makeMessage_eq d r.1 _ 0 "" honline (.inr (by decide)), hhead, List.take_of_length_le
        (by simp)]
      simp [makeUnder, Group.createBuffer]
    obtain ⟨-, hlimit, -⟩ := h _ _ _ _ _ hmade
    have hlimit : (g.maxBufferSize : Int) ≤ r.2 := by simpa [Buffer.size] using hlimit
    exact ⟨by omega, g, hhead, hlimit⟩
  · rintro ⟨-, g', hhead', hlimit⟩ bytes size opCode callerFuncName b hmade
    obtain ⟨-, g'', hhead'', hlength, hdata⟩ := makeMessage_ok hmade
    obtain rfl : g' = g'' := Option.some.inj (hhead'.symm.trans hhead'')
    have hsame : b.size = (bytes.take size).length := by rw [Buffer.size, hdata]
    refine ⟨by omega, by omega, ?_⟩
    rw [hdata, hsame, List.length_take]
    exact List.take_eq_take_min

/-- What a registration adds stands behind what was there. -/
theorem Adds.fitting (h : Adds d d' r') (hregistered : d.specifications r.1 ≠ []) :
    d'.Fitting r ↔ d.Fitting r := by
  obtain ⟨queueSize, hspecs⟩ := h
  obtain ⟨g, rest, hcons⟩ := List.exists_cons_of_ne_nil hregistered
  have hhead : (d'.specifications r.1).head? = (d.specifications r.1).head? := by
    rw [hspecs, hcons]
    rfl
  rw [Fitting, Fitting, hhead]

/-- A registration fits where its size is the largest for a message. -/
theorem Adds.fitting_self (h : Adds d d' r) (hsize : r.2 ≤ 92160) : d'.Fitting r ↔
    0 ≤ r.2 ∧ ∀ g ∈ (d.specifications r.1).head?, (g.maxBufferSize : Int) ≤ r.2 := by
  obtain ⟨queueSize, hspecs⟩ := h
  rw [Fitting, hspecs, if_pos rfl]
  refine and_congr_right fun hnonneg => ?_
  cases d.specifications r.1 with
  | nil =>
      have hown := unsignedLong_of_nonneg hnonneg hsize
      simp [Group.new, hown]
  | cons g rest => simp

/-- What a run of registrations knows of them. -/
def Known (x : Dispatcher × List (Str × Int)) : Prop :=
  ∀ r ∈ x.2, r.2 ≤ 92160 ∧ x.1.specifications r.1 ≠ []

variable {x y : Dispatcher × List (Str × Int)} {e : Operation × Bool}
variable {o : Except DispatcherException Bool}

/-- A step of a sequence of registrations makes one, or changes no specification. -/
theorem registering_step (move : registering.step x e = some (y, o)) :
    (x.1.registration e.1 = none ∧ y.2 = x.2 ∧
        ∀ name, y.1.specifications name = x.1.specifications name) ∨
      ∃ r, x.1.registration e.1 = some r ∧ y.2 = x.2 ++ [r] ∧ Adds x.1 y.1 r := by
  obtain ⟨hkeeps, hstep⟩ := Option.ite_none_right_eq_some.mp move
  obtain ⟨rfl, -⟩ := Prod.mk.inj (Option.some.inj hstep)
  cases hr : x.1.registration e.1 with
  | none =>
      refine .inl ⟨rfl, by simp, fun name => ?_⟩
      exact (perform_sublist hr e.2 name).2 hkeeps
  | some r => exact .inr ⟨r, rfl, rfl, perform_adds hr e.2⟩

theorem registration_size {op : Operation} (h : d.registration op = some r) : r.2 ≤ 92160 := by
  obtain ⟨sendOnly, hadmits⟩ := registration_admits h
  exact (admits_iff.mp hadmits).1

theorem registering_known (hx : Known x) (move : registering.step x e = some (y, o)) :
    Known y := by
  obtain ⟨-, hlog, hspecs⟩ | ⟨r, hr, hlog, queueSize, hspecs⟩ := registering_step move
  · intro r hmem
    rw [hspecs]
    exact hx r (hlog ▸ hmem)
  · intro r' hmem
    rw [hlog, List.mem_append, List.mem_singleton] at hmem
    rcases hmem with hmem | rfl
    · refine ⟨(hx r' hmem).1, ?_⟩
      rw [hspecs]
      exact List.append_ne_nil_of_left_ne_nil (hx r' hmem).2 _
    · refine ⟨registration_size hr, ?_⟩
      rw [hspecs, if_pos rfl]
      exact List.append_ne_nil_of_right_ne_nil _ (List.cons_ne_nil _ _)

theorem registering_fitting (hx : Known x) (move : registering.step x e = some (y, o)) :
    (∀ r ∈ y.2, y.1.Fitting r) ↔ (∀ r ∈ x.2, x.1.Fitting r) ∧ x.1.fits e.1 = true := by
  obtain ⟨hnone, hlog, hspecs⟩ | ⟨r, hr, hlog, hadds⟩ := registering_step move
  · have hfits : x.1.fits e.1 = true := by rw [fits, hnone]; rfl
    rw [hlog, and_iff_left hfits]
    refine forall₂_congr fun r _ => ?_
    rw [Fitting, Fitting, hspecs]
  · have hfits : x.1.fits e.1 = true ↔ y.1.Fitting r := by
      rw [hadds.fitting_self (registration_size hr), fits, hr]
      simp [Option.all_eq_true]
    rw [hlog, hfits]
    simp only [List.forall_mem_append, List.forall_mem_singleton]
    refine and_congr_left fun _ => forall₂_congr fun r' hmem => ?_
    exact hadds.fitting (hx r' hmem).2

/-- **The size limit.** After every sequence of registrations, wherever it starts, the
messages for each group keep to the size it was registered with, exactly when the
dispatcher is offline or every registration had a size that fits. -/
theorem bounded_iff_fits {trace : List ((Operation × Bool) × Except DispatcherException Bool)}
    (start : registering.init x) (run : registering.Run (fun _ _ => True) x trace y) :
    (∀ r ∈ y.2, y.1.Bounded r) ↔ y.1.connStatus = .offline ∨
      registering.Run (fun x e => x.1.fits e.1 = true) x trace y := by
  have hempty : x.2 = [] := start
  have hknown : Known x := by simp [Known, hempty]
  have hrun := run.legal_iff (F := fun x => ∀ r ∈ x.2, x.1.Fitting r) hknown (by simp [hempty])
    (fun a e b o ha move => registering_known ha move)
    (fun a e b o ha move => registering_fitting ha move)
  have hlast := run.invariant hknown fun a e b o ha _ move => registering_known ha move
  obtain honline | hoffline := y.1.connStatus.online_or_offline
  · have hstatus : ¬ y.1.connStatus = .offline := by simp [honline]
    rw [or_iff_right hstatus, ← hrun]
    refine forall₂_congr fun r hmem => ?_
    exact bounded_iff_fitting honline (hlast r hmem).1 (hlast r hmem).2
  · refine iff_of_true (fun r _ => ?_) (.inl hoffline)
    intro bytes size opCode callerFuncName b hmade
    have honline := (makeMessage_ok hmade).1
    rw [hoffline] at honline
    cases honline

/-- Three registrations, and a message of two bytes that the receiving group lets through. -/
def fittingCalls : List (Operation × Bool) :=
  [(.registerGroup World.demoGroup 2 1 true, true), (.connect (.accepted [35, 97, 98]), true),
    (.registerGroup World.demoGroup 3 1 false, true)]

theorem bounded_fitting : ∃ y : Dispatcher × List (Str × Int),
    y.2 = [(World.demoGroup, 2), ([97, 98, 95, 104, 108, 116, 100], 1), (World.demoGroup, 3)] ∧
    (y.1.makeMessage World.demoGroup ([1, 2, 3].take 2) 0 "").isOk = true ∧
    ∀ r ∈ y.2, y.1.Bounded r := by
  obtain ⟨trace, y, run, hlog, hmade⟩ := Machine.Run.exists_of_exec registering
    (fun x e => x.1.fits e.1 = true) (World.demo.dispatcher, []) fittingCalls
    (fun _ y => y.2 = [(World.demoGroup, 2), ([97, 98, 95, 104, 108, 116, 100], 1),
        (World.demoGroup, 3)] ∧
      (y.1.makeMessage World.demoGroup ([1, 2, 3].take 2) 0 "").isOk = true) (by decide)
  have start : registering.init (World.demo.dispatcher, []) := rfl
  exact ⟨y, hlog, hmade, (bounded_iff_fits start (run.mono fun _ _ _ => trivial)).mpr (.inr run)⟩

/-- A group with the buffer size -1 takes a message of 92161 bytes. -/
theorem limit_bypassed : ∃ (x y : Dispatcher × List (Str × Int))
    (trace : List ((Operation × Bool) × Except DispatcherException Bool)),
    registering.init x ∧ registering.Run (fun _ _ => True) x trace y ∧
      ¬ ∀ r ∈ y.2, y.1.Bounded r := by
  obtain ⟨trace, y, run, hlog, honline, hhead⟩ := Machine.Run.exists_of_exec registering
    (fun _ _ => True) (World.demoOnline.dispatcher, [])
    [(.registerGroup World.demoGroup (-1) 1 true, true)]
    (fun _ y => y.2 = [(World.demoGroup, -1)] ∧ y.1.connStatus = .online ∧
      (y.1.specifications World.demoGroup).head? = some (Group.new World.demoGroup (-1) 1))
    (by decide)
  refine ⟨(World.demoOnline.dispatcher, []), y, trace, rfl, run, fun h => ?_⟩
  have hbounded := h (World.demoGroup, -1) (by simp [hlog])
  obtain ⟨bytes, hlength⟩ : ∃ bytes : List UInt8, bytes.length = 92161 :=
    ⟨List.replicate 92161 0, List.length_replicate⟩
  have hlimit : (Group.new World.demoGroup (-1) 1).maxBufferSize = 4294967295 := by decide
  have hfits : ¬ (Group.new World.demoGroup (-1) 1).maxBufferSize < bytes.length := by omega
  have hmade : y.1.makeMessage World.demoGroup (bytes.take 92161) 0 "" =
      .ok { data := bytes, opCode := 0, groupName := World.demoGroup, sender := []
            type := .regular } := by
    rw [makeMessage_eq _ _ _ 0 "" honline (.inr (by decide)), hhead,
      List.take_of_length_le hlength.le, Option.elim_some, makeUnder, Group.createBuffer,
      if_neg hfits]
    rfl
  obtain ⟨hsize, -, -⟩ := hbounded _ _ _ _ _ hmade
  rw [Buffer.size, hlength] at hsize
  omega

end Dispatcher

end Netbroker
