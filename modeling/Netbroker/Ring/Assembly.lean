import Mathlib.Data.List.Basic
import Mathlib.Data.List.Induction
import Netbroker.Ring.Deliver

/-!
# Putting messages together

The packets of a sender follow each other in its entry of `Up_queue`, and a reliable
message of one packet has an entry of its own. So what becomes of the other packets does
not depend on when the reliable ones are delivered: `Agree` relates a daemon's queues to
those of a daemon that has had the other packets only.

`assemble` is what the packets of a log make, by themselves and in their order. What has been
delivered is then a beginning of what they make, and of two daemons one has delivered a
beginning of what the other has.
-/

namespace Netbroker.Ring

/-- A packet that is delivered in the order of the numbers. -/
def Packet.ordered (p : Packet) : Bool := !decide p.single

theorem Packet.ordered_iff {p : Packet} : p.ordered = true ↔ ¬ p.single := by
  simp [Packet.ordered]

theorem Packet.queue_of_single {p : Packet} (h : p.single) : p.queue = maxProcsRing :=
  if_pos h

theorem Packet.queue_of_not_single {p : Packet} (h : ¬ p.single) : p.queue = p.procId :=
  if_neg h

/-- A delivery in the order of the numbers. -/
def Delivery.ordered (m : Delivery) : Bool := m.procIndex ≠ maxProcsRing

/-- The message of a reliable single packet. -/
def Packet.message (p : Packet) : Delivery :=
  { procIndex := maxProcsRing, type := .reliable, mess := [p.body] }

namespace UpQueue

/-- The entry that a packet is chained to, and the message that it completes. -/
theorem push_cases {up up' : UpQueue} {p : Packet} (h : up.push p = .ok up') :
    ((up.parts p.queue).getD []).length + 1 = p.packetIndex.natAbs ∧
      ((p.packetIndex < 0 ∧ up'.parts = Function.update up.parts p.queue none ∧
          up'.delivered = up.delivered ++ [⟨p.queue, p.type, (up.parts p.queue).getD [] ++
            [p.body]⟩]) ∨
        (¬ p.packetIndex < 0 ∧ up'.parts = Function.update up.parts p.queue
            (some ((up.parts p.queue).getD [] ++ [p.body])) ∧
          up'.delivered = up.delivered)) := by
  simp only [push] at h
  split at h
  · cases h
  · rename_i hindex
    rw [not_not] at hindex
    refine ⟨hindex, ?_⟩
    split at h
    · rename_i hlast
      cases h
      exact .inl ⟨hlast, rfl, rfl⟩
    · rename_i hmore
      cases h
      exact .inr ⟨hmore, rfl, rfl⟩

/-- Whether a packet fits depends on its entry only. -/
theorem push_ok {up : UpQueue} {p : Packet}
    (hindex : ((up.parts p.queue).getD []).length + 1 = p.packetIndex.natAbs) :
    ∃ up', up.push p = .ok up' := by
  simp only [push]
  rw [if_neg (not_not.mpr hindex)]
  split
  · exact ⟨_, rfl⟩
  · exact ⟨_, rfl⟩

end UpQueue

/-- The queues after packets that arrive in their order. -/
def assemble (packets : List Packet) : Except Exit UpQueue :=
  packets.foldlM UpQueue.push .empty

theorem assemble_append (a b : List Packet) :
    assemble (a ++ b) = assemble a >>= fun up => b.foldlM UpQueue.push up := by
  simp only [assemble, List.foldlM_append]

theorem assemble_snoc {a : List Packet} {p : Packet} {up next : UpQueue}
    (ha : assemble a = .ok up) (hp : up.push p = .ok next) : assemble (a ++ [p]) = .ok next := by
  rw [assemble_append, ha]
  change (up.push p >>= fun up => List.foldlM UpQueue.push up []) = .ok next
  rw [hp]
  rfl

/-- Packets whose messages come together do so at each point on the way. -/
theorem assemble_prefix {a b : List Packet} {up : UpQueue} (h : assemble (a ++ b) = .ok up) :
    ∃ first, assemble a = .ok first ∧ b.foldlM UpQueue.push first = .ok up := by
  rw [assemble_append] at h
  cases ha : assemble a with
  | error e => rw [ha] at h; cases h
  | ok first =>
      rw [ha] at h
      exact ⟨first, rfl, h⟩

/-- More packets only add messages. -/
theorem delivered_prefix {b : List Packet} {first up : UpQueue}
    (h : b.foldlM UpQueue.push first = .ok up) : first.delivered <+: up.delivered := by
  induction b generalizing first with
  | nil =>
      cases h
      exact List.prefix_rfl
  | cons p rest ih =>
      rw [List.foldlM_cons] at h
      cases hp : first.push p with
      | error e => rw [hp] at h; cases h
      | ok second =>
          rw [hp] at h
          have hrest := ih h
          obtain ⟨-, ⟨-, -, hsecond⟩ | ⟨-, -, hsecond⟩⟩ := UpQueue.push_cases hp
          · rw [hsecond] at hrest
            exact (List.prefix_append ..).trans hrest
          · rwa [hsecond] at hrest

/-- Of two beginnings of a log one has the other's messages. -/
theorem delivered_comparable {log : List Packet} {j k : Nat} {up up' : UpQueue}
    (h : assemble ((log.take j).filter Packet.ordered) = .ok up)
    (h' : assemble ((log.take k).filter Packet.ordered) = .ok up') (hle : j ≤ k) :
    up.delivered <+: up'.delivered := by
  have hsplit : log.take k = log.take j ++ (log.take k).drop j := by
    have hparts := List.take_append_drop j (log.take k)
    rw [List.take_take, Nat.min_eq_left hle] at hparts
    exact hparts.symm
  rw [hsplit, List.filter_append] at h'
  obtain ⟨first, hfirst, hrest⟩ := assemble_prefix h'
  obtain rfl : first = up := Except.ok.inj (hfirst.symm.trans h)
  exact delivered_prefix hrest

/-- Each message is completed by a packet of its sender and its type, and has then all
messages ahead of it before it. -/
theorem completed {log : List Packet} {up : UpQueue}
    (h : assemble (log.filter Packet.ordered) = .ok up) {i : Nat} {m : Delivery}
    (hm : up.delivered[i]? = some m) :
    ∃ a p b first, log = a ++ p :: b ∧ p.ordered = true ∧ p.queue = m.procIndex ∧
      p.type = m.type ∧ assemble ((a ++ [p]).filter Packet.ordered) = .ok first ∧
      first.delivered = up.delivered.take (i + 1) := by
  induction log using List.reverseRecOn generalizing up with
  | nil =>
      obtain rfl : UpQueue.empty = up := Except.ok.inj h
      cases hm
  | append_singleton log p ih =>
      have hwhole := h
      rw [List.filter_append] at h
      obtain ⟨old, hold, hlast⟩ := assemble_prefix h
      have hgrows := delivered_prefix hlast
      -- a message that was there ahead of the last packet
      have hshorter : old.delivered[i]? = some m → ∃ a q b first,
          log ++ [p] = a ++ q :: b ∧ q.ordered = true ∧ q.queue = m.procIndex ∧
          q.type = m.type ∧ assemble ((a ++ [q]).filter Packet.ordered) = .ok first ∧
          first.delivered = up.delivered.take (i + 1) := by
        intro hi
        obtain ⟨a, q, b, first, rfl, hq, hqueue, htype, hfirst, htake⟩ := ih hold hi
        refine ⟨a, q, b ++ [p], first, by simp, hq, hqueue, htype, hfirst, ?_⟩
        obtain ⟨hlt, -⟩ := List.getElem?_eq_some_iff.mp hi
        obtain ⟨rest, hrest⟩ := hgrows
        rw [htake, ← hrest, List.take_append_of_le_length hlt]
      by_cases hp : p.ordered = true
      · rw [List.filter_cons_of_pos hp, List.filter_nil, List.foldlM_cons] at hlast
        cases hpush : old.push p with
        | error e => rw [hpush] at hlast; cases hlast
        | ok next =>
            rw [hpush] at hlast
            obtain rfl : next = up := Except.ok.inj hlast
            by_cases hi : i < old.delivered.length
            · obtain ⟨rest, hrest⟩ := hgrows
              rw [← hrest, List.getElem?_append_left hi] at hm
              exact hshorter hm
            · obtain ⟨hlt, -⟩ := List.getElem?_eq_some_iff.mp hm
              obtain ⟨-, ⟨-, -, hdelivered⟩ | ⟨-, -, hdelivered⟩⟩ := UpQueue.push_cases hpush
              · -- the last packet completes the message
                rw [hdelivered, List.length_append, List.length_singleton] at hlt
                have hindex : i = old.delivered.length := by omega
                rw [hdelivered, hindex, List.getElem?_concat_length, Option.some.injEq] at hm
                refine ⟨log, p, [], next, rfl, hp, by rw [← hm], by rw [← hm], hwhole, ?_⟩
                rw [List.take_of_length_le]
                rw [hdelivered, List.length_append, List.length_singleton]
                omega
              · rw [hdelivered] at hlt
                exact absurd hlt hi
      · rw [List.filter_cons_of_neg hp, List.filter_nil] at hlast
        obtain rfl : old = up := Except.ok.inj hlast
        exact hshorter hm

/-- The queues of a daemon that has delivered the reliable single packets `early` as well,
and those of one that has had the ordered packets only. -/
structure Agree (up ordered : UpQueue) (early : List Packet) : Prop where
  parts : ∀ i, i ≠ maxProcsRing → up.parts i = ordered.parts i
  single : up.parts maxProcsRing = none
  delivered : up.delivered.filter Delivery.ordered = ordered.delivered
  messages : up.delivered.filter (fun m => !m.ordered) = early.map Packet.message

variable {up ordered : UpQueue} {early : List Packet} {p : Packet}

theorem Agree.empty : Agree .empty .empty [] where
  parts _ _ := rfl
  single := rfl
  delivered := rfl
  messages := rfl

/-- An ordered packet that fits in the one fits in the other. -/
theorem Agree.push (h : Agree up ordered early) (hp : p.ordered = true)
    (hproc : p.procId < maxProcsRing) {ordered' : UpQueue} (hpush : ordered.push p = .ok ordered') :
    ∃ up', up.push p = .ok up' ∧ Agree up' ordered' early := by
  have hsingle := Packet.ordered_iff.mp hp
  have hqueue : p.queue ≠ maxProcsRing := by
    rw [Packet.queue_of_not_single hsingle]
    omega
  have hparts := h.parts p.queue hqueue
  have hkept : ∀ x : Option (List Body),
      (∀ i, i ≠ maxProcsRing → Function.update up.parts p.queue x i =
        Function.update ordered.parts p.queue x i) ∧
      Function.update up.parts p.queue x maxProcsRing = none := by
    intro x
    refine ⟨fun i hi => ?_, ?_⟩
    · by_cases hiq : i = p.queue
      · rw [hiq, Function.update_self, Function.update_self]
      · rw [Function.update_of_ne hiq, Function.update_of_ne hiq]
        exact h.parts i hi
    · rw [Function.update_of_ne hqueue.symm]
      exact h.single
  obtain ⟨hindex, hresult⟩ := UpQueue.push_cases hpush
  rw [← hparts] at hindex hresult
  obtain ⟨up', hup⟩ := UpQueue.push_ok hindex
  refine ⟨up', hup, ?_⟩
  obtain ⟨-, hown⟩ := UpQueue.push_cases hup
  rcases hresult with ⟨hlast, hnew, hdelivered⟩ | ⟨hmore, hnew, hdelivered⟩
  · obtain ⟨-, hnew', hdelivered'⟩ | ⟨hmore, -⟩ := hown
    · have hmessage : Delivery.ordered
          ⟨p.queue, p.type, (up.parts p.queue).getD [] ++ [p.body]⟩ = true := by
        simpa [Delivery.ordered] using hqueue
      constructor
      case parts => rw [hnew, hnew']; exact (hkept _).1
      case single => rw [hnew']; exact (hkept _).2
      case delivered =>
        rw [hdelivered, hdelivered', List.filter_append, h.delivered]
        simp [hmessage]
      case messages =>
        rw [hdelivered', List.filter_append, h.messages]
        simp [hmessage]
    · exact absurd hlast hmore
  · obtain ⟨hlast, -⟩ | ⟨-, hnew', hdelivered'⟩ := hown
    · exact absurd hlast hmore
    · constructor
      case parts => rw [hnew, hnew']; exact (hkept _).1
      case single => rw [hnew']; exact (hkept _).2
      case delivered => rw [hdelivered, hdelivered']; exact h.delivered
      case messages => rw [hdelivered']; exact h.messages

/-- A reliable single packet is pushed up at once. -/
theorem Agree.push_single (h : Agree up ordered early) (hp : p.single) :
    ∃ up', up.push p = .ok up' ∧ Agree up' ordered (early ++ [p]) := by
  have hqueue := Packet.queue_of_single hp
  have hindex : ((up.parts p.queue).getD []).length + 1 = p.packetIndex.natAbs := by
    rw [hqueue, h.single, hp.2]
    rfl
  obtain ⟨up', hup⟩ := UpQueue.push_ok hindex
  refine ⟨up', hup, ?_⟩
  obtain ⟨-, ⟨-, hnew, hdelivered⟩ | ⟨hmore, -⟩⟩ := UpQueue.push_cases hup
  · have hmessage : (⟨p.queue, p.type, (up.parts p.queue).getD [] ++ [p.body]⟩ : Delivery) =
        p.message := by
      rw [hqueue, h.single, hp.1]
      rfl
    have hkind : p.message.ordered = false := by simp [Packet.message, Delivery.ordered]
    rw [hmessage] at hdelivered
    constructor
    case parts =>
      intro i hi
      rw [hnew, hqueue, Function.update_of_ne hi]
      exact h.parts i hi
    case single => rw [hnew, hqueue, Function.update_self]
    case delivered =>
      rw [hdelivered, List.filter_append, h.delivered]
      simp [hkind]
    case messages =>
      rw [hdelivered, List.filter_append, h.messages]
      simp [hkind]
  · rw [hp.2] at hmore
    exact absurd (by omega) hmore

end Netbroker.Ring
