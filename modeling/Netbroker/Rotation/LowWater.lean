import Mathlib.Data.Option.Basic
import Mathlib.Logic.Function.Basic
import Mathlib.Order.Lattice
import Mathlib.Order.Nat

/-!
# A low-water mark on a rotating token

The parties of a ring receive numbered items, each up to a mark of its own that only
grows. A token goes round and carries a low-water mark: a party lowers it to its own
mark, and the party that lowered it last raises it again on its next turn. A party takes
as safe the smaller of the values it sent on its last two turns.

The party whose turn it is has waited longest, and that is all that is used of the
ring: `stamp` orders the parties by their last turns. What a party takes as safe is
then below the mark of every party, although the token's own value goes up and down.

A party may also remember, as its `pledge`, the value it lowered the token to, and raise
the token when it finds that value again. A turn is `informed` when it does not rest on
the pledge alone: somebody else may have lowered the token to the same value.
-/

namespace Rotation

universe u v

variable {ι : Type u} {τ : Type v}

/-- The marks of the parties, what they last saw on the token, and the token. -/
@[ext] structure LowWater (ι : Type u) (τ : Type v) where
  mark : ι → Nat
  seen : ι → Nat
  safe : ι → Nat
  pledge : ι → Option Nat
  stamp : ι → τ
  low : Nat
  holder : Option ι
  top : Nat

namespace LowWater

/-- The party sets the token to its own mark whatever that is. -/
def Raises (s : LowWater ι τ) (p : ι) : Prop :=
  s.pledge p = some s.low ∨ s.holder = some p ∨ s.low = s.top

/-- The raise, if there is one, does not rest on the pledge alone. -/
def Informed (s : LowWater ι τ) (p : ι) : Prop :=
  s.pledge p = some s.low → s.holder = some p ∨ s.low = s.top

section Turn

variable [DecidableEq ι]

/-- A party's mark grows between its turns. -/
def advance (s : LowWater ι τ) (p : ι) (m : Nat) : LowWater ι τ :=
  { s with mark := Function.update s.mark p m }

instance (s : LowWater ι τ) (p : ι) : Decidable (s.Raises p) :=
  inferInstanceAs (Decidable (_ ∨ _ ∨ _))

instance (s : LowWater ι τ) (p : ι) : Decidable (s.Informed p) :=
  inferInstanceAs (Decidable (_ → _))

/-- The value that a party with mark `m` leaves on the token. -/
def lowered (s : LowWater ι τ) (p : ι) (m : Nat) : Nat :=
  if s.Raises p then m else min s.low m

def nextHolder (s : LowWater ι τ) (p : ι) (m : Nat) : Option ι :=
  if s.Raises p ∨ m < s.low then some p else s.holder

/-- What the party remembers: with nothing missing below the top, nothing. -/
def nextPledge (s : LowWater ι τ) (p : ι) (m t : Nat) : Option Nat :=
  if s.Raises p then (if m < t then some m else none)
  else if m < s.low then some m else none

/-- The turn of `p`, which has received everything up to `m` when the top is `t`. -/
def turn (s : LowWater ι τ) (p : ι) (m t : Nat) (now : τ) : LowWater ι τ where
  mark := Function.update s.mark p m
  seen := Function.update s.seen p (s.lowered p m)
  safe := Function.update s.safe p (min (s.seen p) (s.lowered p m))
  pledge := Function.update s.pledge p (s.nextPledge p m t)
  stamp := Function.update s.stamp p now
  low := s.lowered p m
  holder := s.nextHolder p m
  top := t

theorem lowered_le_mark (s : LowWater ι τ) (p : ι) (m : Nat) : s.lowered p m ≤ m := by
  rw [lowered]
  split <;> omega

/-- Another party holds the token's value after the turn only where the turn left the
value alone, and then nothing is pledged. -/
theorem of_nextHolder {s : LowWater ι τ} {p e : ι} {m : Nat} (t : Nat)
    (h : s.nextHolder p m = some e) (he : e ≠ p) :
    s.holder = some e ∧ s.lowered p m = s.low ∧ s.nextPledge p m t = none := by
  have hkept : ¬ (s.Raises p ∨ m < s.low) := by
    intro hset
    rw [nextHolder, if_pos hset, Option.some.injEq] at h
    exact he h.symm
  rw [nextHolder, if_neg hkept] at h
  rw [not_or] at hkept
  refine ⟨h, ?_, ?_⟩
  · rw [lowered, if_neg hkept.1]
    omega
  · rw [nextPledge, if_neg hkept.1, if_neg hkept.2]

end Turn

section Order

variable [LinearOrder τ]

/-- What a turn assumes: the party waited longest and no mark goes back. -/
structure Due (s : LowWater ι τ) (p : ι) (m t : Nat) (now : τ) : Prop where
  oldest : ∀ e, s.stamp p ≤ s.stamp e
  newest : ∀ e, s.stamp e < now
  grows : s.mark p ≤ m
  below : m ≤ t
  top : s.top ≤ t

/-- The invariant. What `d` saw holds good for every party that had a turn since, until
the token is lowered; what is safe for one party is safe for all. -/
structure Sound (s : LowWater ι τ) : Prop where
  seen_top : ∀ d, s.seen d ≤ s.top
  seen_low : ∀ e, s.holder = some e → ∀ d, s.stamp e ≤ s.stamp d → s.seen d ≤ s.low
  low_mark : ∀ d e, s.stamp d ≤ s.stamp e → min (s.seen d) s.low ≤ s.mark e
  low_seen : ∀ d e, s.stamp d ≤ s.stamp e → min (s.seen d) s.low ≤ s.seen e
  safe_low : ∀ d, s.safe d ≤ s.low
  safe_seen : ∀ d e, s.safe d ≤ s.seen e
  safe_mark : ∀ d e, s.safe d ≤ s.mark e
  safe_order : ∀ d e, s.stamp d ≤ s.stamp e → s.safe d ≤ s.safe e

variable {s : LowWater ι τ} {p : ι} {m t : Nat} {now : τ}

/-- A raise goes beyond everything that anybody has seen. -/
theorem seen_le_of_raises (h : s.Sound) (hdue : s.Due p m t now) (hinf : s.Informed p)
    (hraise : s.Raises p) (d : ι) : s.seen d ≤ s.low := by
  have hreason : s.holder = some p ∨ s.low = s.top := by
    rcases hraise with hpledge | hreason
    · exact hinf hpledge
    · exact hreason
  rcases hreason with hholder | htop
  · exact h.seen_low p hholder d (hdue.oldest d)
  · have hseen := h.seen_top d
    omega

/-- The pledges of all parties but `x` are good: the token is not above them, and it is
at a pledge only where the party that made it holds the token's value. -/
structure Pledged (s : LowWater ι τ) (x : Option ι) : Prop where
  low_top : s.low ≤ s.top
  alone : ∀ e, s.holder = some e → ∀ d, d ≠ e → s.stamp e ≤ s.stamp d → s.pledge d = none
  good : ∀ e v, x ≠ some e → s.pledge e = some v →
    s.low ≤ v ∧ v < s.top ∧ (s.low = v → s.holder = some e)

theorem Pledged.informed {x : Option ι} (h : s.Pledged x) (hx : x ≠ some p) : s.Informed p :=
  fun hpledge => .inl ((h.good p s.low hx hpledge).2.2 rfl)

theorem Pledged.advance [DecidableEq ι] {x : Option ι} (h : s.Pledged x) :
    (s.advance p m).Pledged x :=
  ⟨h.low_top, h.alone, h.good⟩

/-- A party that raises the token finds the other pledges gone. -/
theorem Pledged.none_of_raises {x : Option ι} {e : ι} {v : Nat} (h : s.Pledged x)
    (hdue : s.Due p m t now) (hinf : s.Informed p) (hraise : s.Raises p) (hx : x ≠ some e)
    (he : e ≠ p) : s.pledge e ≠ some v := by
  intro hpledge
  have hreason : s.holder = some p ∨ s.low = s.top := by
    rcases hraise with hown | hreason
    · exact hinf hown
    · exact hreason
  rcases hreason with hholder | htop
  · rw [h.alone p hholder e he (hdue.oldest e)] at hpledge
    cases hpledge
  · obtain ⟨hlow, hbelow, -⟩ := h.good e v hx hpledge
    omega

section Turn

variable [DecidableEq ι]

/-- So a turn keeps, of what anybody has seen, at least the part below the old value. -/
theorem min_lowered_le (h : s.Sound) (hdue : s.Due p m t now) (hinf : s.Informed p) (d : ι) :
    min (s.seen d) (s.lowered p m) ≤ min (s.seen d) s.low := by
  by_cases hraise : s.Raises p
  · have hseen := seen_le_of_raises h hdue hinf hraise d
    omega
  · rw [lowered, if_neg hraise]
    omega

theorem Sound.advance (h : s.Sound) (hm : s.mark p ≤ m) : (s.advance p m).Sound := by
  have hmark : ∀ e, s.mark e ≤ Function.update s.mark p m e := by
    intro e
    by_cases he : e = p
    · subst he
      rwa [Function.update_self]
    · rw [Function.update_of_ne he]
  exact
    { h with
      low_mark := fun d e hde => (h.low_mark d e hde).trans (hmark e)
      safe_mark := fun d e => (h.safe_mark d e).trans (hmark e) }

/-- What the party takes as safe on its turn is below all marks and all that was seen. -/
theorem nextSafe_le (h : s.Sound) (hdue : s.Due p m t now) (hinf : s.Informed p) (e : ι) :
    min (s.seen p) (s.lowered p m) ≤ s.mark e ∧
      min (s.seen p) (s.lowered p m) ≤ s.seen e := by
  have hmin := min_lowered_le h hdue hinf p
  have hmark := h.low_mark p e (hdue.oldest e)
  have hseen := h.low_seen p e (hdue.oldest e)
  omega

/-- And it is not below what any party has taken as safe before. -/
theorem safe_le_nextSafe (h : s.Sound) (hdue : s.Due p m t now) (d : ι) :
    s.safe d ≤ min (s.seen p) (s.lowered p m) := by
  have hseen := h.safe_seen d p
  have hmark := h.safe_mark d p
  have hlow := h.safe_low d
  have hgrows := hdue.grows
  rw [lowered]
  split <;> omega

theorem Sound.turn (h : s.Sound) (hdue : s.Due p m t now) (hinf : s.Informed p) :
    (s.turn p m t now).Sound := by
  have hlast : ∀ e, e ≠ p → ¬ now ≤ s.stamp e := fun e _ => not_le.mpr (hdue.newest e)
  have hlow := lowered_le_mark s p m
  have hnext := safe_le_nextSafe h hdue
  constructor
  case seen_top =>
    intro d
    have hbelow := hdue.below
    have hold := h.seen_top d
    have htop := hdue.top
    by_cases hd : d = p
    · subst hd
      simp only [LowWater.turn, Function.update_self]
      omega
    · simp only [LowWater.turn, Function.update_of_ne hd]
      omega
  case seen_low =>
    intro e he d hed
    by_cases hd : d = p
    · subst hd
      simp only [LowWater.turn, Function.update_self, le_refl]
    · simp only [LowWater.turn, Function.update_of_ne hd] at hed ⊢
      by_cases hep : e = p
      · subst hep
        rw [Function.update_self] at hed
        exact absurd hed (hlast d hd)
      · -- somebody else's value stayed on the token
        rw [Function.update_of_ne hep] at hed
        obtain ⟨hholder, hlowered, -⟩ := of_nextHolder t he hep
        rw [hlowered]
        exact h.seen_low e hholder d hed
  case low_mark =>
    intro d e hde
    by_cases he : e = p
    · subst he
      simp only [LowWater.turn, Function.update_self]
      omega
    · simp only [LowWater.turn, Function.update_of_ne he] at hde ⊢
      by_cases hd : d = p
      · subst hd
        rw [Function.update_self] at hde
        exact absurd hde (hlast e he)
      · rw [Function.update_of_ne hd] at hde ⊢
        exact (min_lowered_le h hdue hinf d).trans (h.low_mark d e hde)
  case low_seen =>
    intro d e hde
    by_cases he : e = p
    · subst he
      simp only [LowWater.turn, Function.update_self]
      omega
    · simp only [LowWater.turn, Function.update_of_ne he] at hde ⊢
      by_cases hd : d = p
      · subst hd
        rw [Function.update_self] at hde
        exact absurd hde (hlast e he)
      · rw [Function.update_of_ne hd] at hde ⊢
        exact (min_lowered_le h hdue hinf d).trans (h.low_seen d e hde)
  case safe_low =>
    intro d
    by_cases hd : d = p
    · subst hd
      simp only [LowWater.turn, Function.update_self]
      omega
    · simp only [LowWater.turn, Function.update_of_ne hd]
      exact (hnext d).trans (min_le_right ..)
  case safe_seen =>
    intro d e
    by_cases hd : d = p
    · subst hd
      by_cases he : e = d
      · subst he
        simp only [LowWater.turn, Function.update_self]
        omega
      · simp only [LowWater.turn, Function.update_self, Function.update_of_ne he]
        exact (nextSafe_le h hdue hinf e).2
    · by_cases he : e = p
      · subst he
        simp only [LowWater.turn, Function.update_self, Function.update_of_ne hd]
        exact (hnext d).trans (min_le_right ..)
      · simp only [LowWater.turn, Function.update_of_ne hd, Function.update_of_ne he]
        exact h.safe_seen d e
  case safe_mark =>
    intro d e
    have hgrows := hdue.grows
    by_cases hd : d = p
    · subst hd
      by_cases he : e = d
      · subst he
        simp only [LowWater.turn, Function.update_self]
        omega
      · simp only [LowWater.turn, Function.update_self, Function.update_of_ne he]
        exact (nextSafe_le h hdue hinf e).1
    · have hold := h.safe_mark d e
      by_cases he : e = p
      · subst he
        simp only [LowWater.turn, Function.update_self, Function.update_of_ne hd]
        omega
      · simp only [LowWater.turn, Function.update_of_ne hd, Function.update_of_ne he]
        exact hold
  case safe_order =>
    intro d e hde
    by_cases he : e = p
    · subst he
      by_cases hd : d = e
      · subst hd
        exact le_rfl
      · simp only [LowWater.turn, Function.update_self, Function.update_of_ne hd]
        exact hnext d
    · by_cases hd : d = p
      · subst hd
        simp only [LowWater.turn, Function.update_self, Function.update_of_ne he] at hde
        exact absurd hde (hlast e he)
      · simp only [LowWater.turn, Function.update_of_ne hd, Function.update_of_ne he] at hde ⊢
        exact h.safe_order d e hde

/-- The top is at most `width` beyond what any party takes as safe. -/
def Within (s : LowWater ι τ) (width : Nat) : Prop := ∀ d, s.top ≤ s.safe d + width

/-- It is enough that each party looks at its own safe value before it moves the top:
the party whose turn it is has the smallest one. -/
theorem Within.turn {width : Nat} (hwithin : s.Within width) (h : s.Sound)
    (hdue : s.Due p m t now) (ht : t = s.top ∨ t ≤ s.safe p + width) :
    (s.turn p m t now).Within width := by
  intro d
  have hleast := h.safe_order p d (hdue.oldest d)
  have hold := hwithin d
  have hnext := safe_le_nextSafe h hdue d
  by_cases hd : d = p
  · subst hd
    simp only [LowWater.turn, Function.update_self]
    omega
  · simp only [LowWater.turn, Function.update_of_ne hd]
    omega

/-- After a first turn the only pledge that can mislead is the one made in it. -/
theorem Pledged.first (hnone : ∀ e, s.pledge e = none) (hdue : s.Due p m t now) :
    (s.turn p m t now).Pledged (some p) := by
  constructor
  case low_top => exact (lowered_le_mark s p m).trans hdue.below
  case alone =>
    intro e he d hde _
    by_cases hd : d = p
    · subst hd
      simp only [LowWater.turn, Function.update_self]
      exact (of_nextHolder t he hde.symm).2.2
    · simp only [LowWater.turn, Function.update_of_ne hd]
      exact hnone d
  case good =>
    intro e v hx hpledge
    have he : e ≠ p := fun he => hx (congrArg some he.symm)
    simp only [LowWater.turn, Function.update_of_ne he, hnone e] at hpledge
    cases hpledge

/-- What a turn pledges is what it leaves on the token in its own name. -/
theorem of_nextPledge {v : Nat} (h : s.nextPledge p m t = some v) (hlow : s.low ≤ s.top)
    (hdue : s.Due p m t now) :
    s.lowered p m = v ∧ v < t ∧ s.nextHolder p m = some p := by
  have htop := hdue.top
  rw [nextPledge] at h
  rw [lowered, nextHolder]
  split at h
  · rename_i hraise
    rw [if_pos hraise, if_pos (.inl hraise)]
    split at h
    · rename_i hbelow
      obtain rfl := Option.some.inj h
      exact ⟨rfl, hbelow, rfl⟩
    · cases h
  · rename_i hraise
    rw [if_neg hraise]
    split at h
    · rename_i hbelow
      obtain rfl := Option.some.inj h
      rw [if_pos (.inr hbelow)]
      exact ⟨by omega, by omega, rfl⟩
    · cases h

/-- An informed turn keeps the good pledges, and its own is good from now on. -/
theorem Pledged.turn {x : Option ι} (h : s.Pledged x) (hdue : s.Due p m t now)
    (hinf : s.Informed p) :
    (s.turn p m t now).Pledged (if x = some p then none else x) := by
  constructor
  case low_top => exact (lowered_le_mark s p m).trans hdue.below
  case alone =>
    intro e he d hde hstamp
    by_cases hep : e = p
    · subst hep
      simp only [LowWater.turn, Function.update_self, Function.update_of_ne hde] at hstamp
      exact absurd hstamp (not_le.mpr (hdue.newest d))
    · obtain ⟨hholder, -, hpledge⟩ := of_nextHolder t he hep
      by_cases hd : d = p
      · subst hd
        simp only [LowWater.turn, Function.update_self]
        exact hpledge
      · simp only [LowWater.turn, Function.update_of_ne hep, Function.update_of_ne hd] at hstamp ⊢
        exact h.alone e hholder d hde hstamp
  case good =>
    intro e v hx hpledge
    have htop := hdue.top
    by_cases he : e = p
    · subst he
      simp only [LowWater.turn, Function.update_self] at hpledge ⊢
      obtain ⟨hlow, hbelow, hholder⟩ := of_nextPledge hpledge h.low_top hdue
      exact ⟨hlow.le, hbelow, fun _ => hholder⟩
    · simp only [LowWater.turn, Function.update_of_ne he] at hpledge ⊢
      have hxe : x ≠ some e := by
        intro hxe
        rw [hxe, if_neg (fun h => he (Option.some.inj h))] at hx
        exact hx rfl
      have hraise : ¬ s.Raises p := fun hraise =>
        h.none_of_raises hdue hinf hraise hxe he hpledge
      obtain ⟨hlow, hbelow, hholder⟩ := h.good e v hxe hpledge
      have hmin : s.lowered p m = min s.low m := by rw [lowered, if_neg hraise]
      have hkept : s.lowered p m = v → ¬ (s.Raises p ∨ m < s.low) := by
        intro heq hset
        rcases hset with hset | hset
        · exact hraise hset
        · omega
      refine ⟨by omega, by omega, fun heq => ?_⟩
      rw [nextHolder, if_neg (hkept heq)]
      exact hholder (by omega)

end Turn

end Order

end LowWater

end Rotation
