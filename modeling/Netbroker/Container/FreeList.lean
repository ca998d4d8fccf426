import Mathlib.Data.List.Nodup
import Mathlib.Data.List.Perm.Basic

/-!
# Free lists that are rebuilt

Items go from a free list to holders and back, or on from a holder into a queue and to another
holder. A rebuilding makes the free list all the items, whoever holds some of them: those
are stale from then on, and in two places. The tally below counts the places of each item,
and the head of the free list turns out to be elsewhere exactly if it is stale.

Each change of place has a lemma that gives the tally behind it. A user of the free list goes
from one tally to the next along its calls, and reads `head_iff` where an item is handed out.
-/

namespace FreeList

universe u

variable {α : Type u} [DecidableEq α]

/-- Each item is counted once over all the places, and a stale one twice. What is given back to a
full free list is lost; if it is not stale, the free list must hold another item twice. -/
structure Tally (items free queued held stale lost : List α) : Prop where
  count : ∀ x, free.count x + queued.count x + held.count x + lost.count x =
    items.count x + stale.count x
  distinct : items.Nodup
  single : stale.Nodup
  rebuilt : ∀ x ∈ stale, x ∈ items ∧ x ∈ free ∧ x ∉ lost
  repeats : lost ≠ [] → ¬ free.Nodup
  fits : free.length ≤ items.length

namespace Tally

variable {items free queued held stale lost rest : List α} {x : α}

theorem count_items (h : Tally items free queued held stale lost) (x : α) :
    items.count x ≤ 1 ∧ stale.count x ≤ 1 :=
  ⟨List.nodup_iff_count_le_one.mp h.distinct x, List.nodup_iff_count_le_one.mp h.single x⟩

/-- What is anywhere is an item. -/
theorem mem_items (h : Tally items free queued held stale lost)
    (hx : 0 < free.count x + held.count x) : x ∈ items := by
  by_contra hnot
  have hcount := h.count x
  rw [List.count_eq_zero_of_not_mem hnot,
    List.count_eq_zero_of_not_mem fun hstale => hnot (h.rebuilt x hstale).1] at hcount
  omega

/-- A full free list without repetitions is all the items. -/
theorem mem_of_full (h : Tally items free queued held stale lost) (hnodup : free.Nodup)
    (hfull : items.length ≤ free.length) (hx : x ∈ items) : x ∈ free := by
  have hsub : free ⊆ items := by
    intro y hy
    apply h.mem_items
    have hpos := List.count_pos_iff.mpr hy
    omega
  exact ((List.subperm_of_subset hnodup hsub).perm_of_length_le hfull).mem_iff.mpr hx

/-- Nothing is held twice, until a stale item is handed out. -/
theorem held_nodup (h : Tally items free queued held stale lost) : held.Nodup := by
  apply List.nodup_iff_count_le_one.mpr
  intro x
  have hcount := h.count x
  obtain ⟨hitems, hstale⟩ := h.count_items x
  by_cases hx : x ∈ stale
  · have hpos := List.count_pos_iff.mpr (h.rebuilt x hx).2.1
    omega
  · rw [List.count_eq_zero_of_not_mem hx] at hcount
    omega

/-- With nothing in the free list nothing is lost: every item is held or queued. -/
theorem owned_of_empty (h : Tally items [] queued held stale lost) (hx : x ∈ items) :
    x ∈ held ∨ x ∈ queued := by
  have hlost : lost = [] := by
    by_contra hne
    exact h.repeats hne .nil
  have hcount := h.count x
  have hpos := List.count_pos_iff.mpr hx
  rw [hlost, List.count_nil] at hcount
  by_contra hnot
  obtain ⟨hheld, hqueued⟩ := not_or.mp hnot
  rw [List.count_eq_zero_of_not_mem hheld, List.count_eq_zero_of_not_mem hqueued] at hcount
  omega

/-- The head of the free list is nowhere else exactly if it is not stale. -/
theorem head_iff (h : Tally items (x :: rest) queued held stale lost) :
    (x ∉ held ∧ x ∉ queued ∧ x ∉ rest) ↔ x ∉ stale := by
  have hcount := h.count x
  obtain ⟨hitems, hstale⟩ := h.count_items x
  rw [List.count_cons_self] at hcount
  constructor
  · rintro ⟨hheld, hqueued, hrest⟩ hmem
    have hone := List.count_pos_iff.mpr hmem
    have hitem := List.count_pos_iff.mpr (h.rebuilt x hmem).1
    rw [List.count_eq_zero_of_not_mem hheld, List.count_eq_zero_of_not_mem hqueued,
      List.count_eq_zero_of_not_mem hrest,
      List.count_eq_zero_of_not_mem (h.rebuilt x hmem).2.2] at hcount
    omega
  · intro hnot
    rw [List.count_eq_zero_of_not_mem hnot] at hcount
    refine ⟨fun hmem => ?_, fun hmem => ?_, fun hmem => ?_⟩ <;>
    · have hpos := List.count_pos_iff.mpr hmem
      omega

/-- Items that change places outside the free list. -/
theorem move (h : Tally items free queued held stale lost) {queued' held' : List α}
    (hmove : ∀ x, queued'.count x + held'.count x = queued.count x + held.count x) :
    Tally items free queued' held' stale lost :=
  { h with
    count := by
      intro x
      have hbefore := h.count x
      have hsame := hmove x
      omega }

/-- A held item goes into the queue. -/
theorem enqueue (h : Tally items free queued held stale lost) (hx : x ∈ held) :
    Tally items free (queued ++ [x]) (held.erase x) stale lost := by
  apply h.move
  intro y
  have herase := (List.perm_cons_erase hx).count_eq y
  rw [List.count_append, List.count_singleton, herase, List.count_cons]
  omega

/-- A queued item gets a holder. -/
theorem dequeue (h : Tally items free (x :: queued) held stale lost) :
    Tally items free queued (x :: held) stale lost := by
  apply h.move
  intro y
  rw [List.count_cons, List.count_cons]
  omega

/-- An item that is not stale leaves the free list for its holder. -/
theorem take (h : Tally items (x :: rest) queued held stale lost) (hx : x ∉ stale) :
    Tally items rest queued (x :: held) stale lost where
  count y := by
    have hbefore := h.count y
    rw [List.count_cons] at hbefore
    rw [List.count_cons]
    omega
  distinct := h.distinct
  single := h.single
  rebuilt y hy := by
    obtain ⟨hitem, hmem, hlost⟩ := h.rebuilt y hy
    exact ⟨hitem, (List.mem_cons.mp hmem).resolve_left fun heq => hx (heq ▸ hy), hlost⟩
  repeats hne hnodup := by
    apply h.repeats hne
    rw [List.nodup_cons]
    exact ⟨(h.head_iff.mpr hx).2.2, hnodup⟩
  fits := by
    have hlength := h.fits
    rw [List.length_cons] at hlength
    omega

/-- A held item goes back to the tail of the free list. -/
theorem giveBack (h : Tally items free queued held stale lost) (hx : x ∈ held)
    (hroom : free.length < items.length) :
    Tally items (free ++ [x]) queued (held.erase x) stale lost where
  count y := by
    have hbefore := h.count y
    have herase := (List.perm_cons_erase hx).count_eq y
    rw [List.count_cons] at herase
    rw [List.count_append, List.count_singleton]
    omega
  distinct := h.distinct
  single := h.single
  rebuilt y hy := by
    obtain ⟨hitem, hmem, hlost⟩ := h.rebuilt y hy
    exact ⟨hitem, List.mem_append_left _ hmem, hlost⟩
  repeats hne hnodup := h.repeats hne (List.nodup_append.mp hnodup).1
  fits := by
    rw [List.length_append, List.length_singleton]
    omega

/-- A full free list takes nothing: a stale item ceases to be one, any other is lost. -/
theorem giveInVain (h : Tally items free queued held stale lost) (hx : x ∈ held)
    (hfull : items.length ≤ free.length) :
    ∃ lost', Tally items free queued (held.erase x) (stale.erase x) lost' := by
  have herase : ∀ y, held.count y = (held.erase x).count y + if x == y then 1 else 0 := by
    intro y
    rw [(List.perm_cons_erase hx).count_eq y, List.count_cons]
  by_cases hstale : x ∈ stale
  · refine ⟨lost, ?_, h.distinct, h.single.erase x, fun y hy => ?_, h.repeats, h.fits⟩
    · intro y
      have hbefore := h.count y
      have hheld := herase y
      have hstale' := (List.perm_cons_erase hstale).count_eq y
      rw [List.count_cons] at hstale'
      omega
    · exact h.rebuilt y (List.mem_of_mem_erase hy)
  · have hheld := List.count_pos_iff.mpr hx
    have hitem : x ∈ items := h.mem_items (by omega)
    -- otherwise the free list would be all the items, and the held one be counted twice
    have htwice : ¬ free.Nodup := by
      intro hnodup
      have hfree := List.count_pos_iff.mpr (h.mem_of_full hnodup hfull hitem)
      have hcount := h.count x
      obtain ⟨hone, -⟩ := h.count_items x
      rw [List.count_eq_zero_of_not_mem hstale] at hcount
      omega
    rw [List.erase_of_not_mem hstale]
    refine ⟨x :: lost, ?_, h.distinct, h.single, fun y hy => ?_, fun _ => htwice, h.fits⟩
    · intro y
      have hbefore := h.count y
      have hheld := herase y
      rw [List.count_cons]
      omega
    · obtain ⟨hitem', hmem, hlost⟩ := h.rebuilt y hy
      refine ⟨hitem', hmem, ?_⟩
      intro hlost'
      obtain rfl | hmem' := List.mem_cons.mp hlost'
      · exact hstale hy
      · exact hlost hmem'

/-- A rebuilding makes stale what is held, and lets the queue go. -/
theorem rebuild (h : Tally items free queued held stale lost) :
    Tally items items [] held held [] where
  count y := by
    rw [List.count_nil]
    omega
  distinct := h.distinct
  single := h.held_nodup
  rebuilt y hy := by
    have hpos := List.count_pos_iff.mpr hy
    have hitem : y ∈ items := h.mem_items (by omega)
    exact ⟨hitem, hitem, List.not_mem_nil⟩
  repeats hne := absurd rfl hne
  fits := Nat.le_refl _

/-- Before anything is held. -/
theorem start (hitems : items.Nodup) : Tally items items [] [] [] [] where
  count y := by rw [List.count_nil]
  distinct := hitems
  single := .nil
  rebuilt y hy := absurd hy List.not_mem_nil
  repeats hne := absurd rfl hne
  fits := Nat.le_refl _

end Tally

end FreeList
