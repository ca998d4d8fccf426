import Mathlib.Order.Lattice
import Netbroker.Container.OrderedUnique

/-!
# Couples in a bidirectional map

`bidirectional_not_unique_values_unique_couple` keeps couples in an ordered index that
should hold each of them once. Its order calls a couple less than another if one of
the components is: two couples that cross are each less than the other.
-/

namespace Netbroker

open OrderedUnique

universe u v

/-- `value_type` of the map. -/
structure Couple (α : Type u) (β : Type v) where
  first : α
  second : β
  deriving DecidableEq, Repr

namespace Couple

variable {α : Type u} {β : Type v} [LinearOrder α] [LinearOrder β]

/-- `operator<`. -/
def Less (p q : Couple α β) : Prop := p.first < q.first ∨ p.second < q.second

instance : DecidableRel (Less : Couple α β → Couple α β → Prop) :=
  fun _ _ => inferInstanceAs (Decidable (_ ∨ _))

/-- The unique index of the map after a sequence of insertions. The other two indices accept
everything. -/
def insertions (couples : List (Couple α β)) : RedBlackTree (Couple α β) :=
  insertAll (fun p q => decide (Less p q)) couples

/-- Crossing couples are less than each other. -/
theorem less_crossed {a a' : α} {b b' : β} (ha : a < a') (hb : b < b') :
    Less ⟨a, b'⟩ ⟨a', b⟩ ∧ Less ⟨a', b⟩ ⟨a, b'⟩ :=
  ⟨.inl ha, .inr hb⟩

/-- Equal couples are the only equivalent ones, whatever the order. -/
theorem equivalent_iff (p q : Couple α β) : (¬ Less p q ∧ ¬ Less q p) ↔ p = q := by
  obtain ⟨a, b⟩ := p
  obtain ⟨c, d⟩ := q
  simp only [Less, not_or, not_lt, mk.injEq]
  constructor
  · rintro ⟨⟨hca, hdb⟩, hac, hbd⟩
    exact ⟨le_antisymm hac hca, le_antisymm hbd hdb⟩
  · rintro ⟨rfl, rfl⟩
    exact ⟨⟨le_refl a, le_refl b⟩, le_refl a, le_refl b⟩

/-- Where one component has a single value, the other one orders the couples. -/
theorem strictWeakOrdering (h : Subsingleton α ∨ Subsingleton β) :
    StrictWeakOrdering (Less : Couple α β → Couple α β → Prop) := by
  have hirrefl : ∀ p : Couple α β, ¬ Less p p :=
    fun p => not_or.mpr ⟨lt_irrefl _, lt_irrefl _⟩
  have htrans : ∀ p q r : Couple α β, Less p q → Less q r → Less p r := by
    obtain _ | _ := h
    · intro p q r hpq hqr
      have hpq' := hpq.resolve_left (fun hlt => hlt.ne (Subsingleton.elim _ _))
      have hqr' := hqr.resolve_left (fun hlt => hlt.ne (Subsingleton.elim _ _))
      exact .inr (hpq'.trans hqr')
    · intro p q r hpq hqr
      have hpq' := hpq.resolve_right (fun hlt => hlt.ne (Subsingleton.elim _ _))
      have hqr' := hqr.resolve_right (fun hlt => hlt.ne (Subsingleton.elim _ _))
      exact .inl (hpq'.trans hqr')
  exact
    { irrefl := hirrefl
      asymm := fun p q hpq hqp => hirrefl p (htrans p q p hpq hqp)
      trans := htrans
      incomparable := fun p q r hpq hqp hqr hrq => by
        obtain rfl := (equivalent_iff p q).mp ⟨hpq, hqp⟩
        exact ⟨hqr, hrq⟩
      equivalent := equivalent_iff }

/-- After three couples the tree is rotated, and the second one is not found again. -/
theorem insertions_twice {a a' : α} {b b' : β} (ha : a < a') (hb : b < b') :
    (insertions [⟨a, b⟩, ⟨a, b'⟩, ⟨a', b⟩, ⟨a, b'⟩]).toList =
      [⟨a, b⟩, ⟨a, b'⟩, ⟨a', b⟩, ⟨a, b'⟩] := by
  simp [insertions, insertAll, OrderedUnique.insert, descend, Less, link, rebalance, rebuild,
    Frame.fill, Frame.fillAs, rotateLeft, rotateRight, RedBlackTree.blacken, RedBlackTree.isRed,
    ha, hb, ha.not_gt, hb.not_gt]

/-- Without a component of a single value there are crossing couples. -/
theorem exists_crossed (h : ¬ (Subsingleton α ∨ Subsingleton β)) :
    ∃ (a a' : α) (b b' : β), a < a' ∧ b < b' := by
  obtain ⟨hα, hβ⟩ := not_or.mp h
  obtain ⟨x, x', hx⟩ := not_subsingleton_iff_nontrivial.mp hα
  obtain ⟨y, y', hy⟩ := not_subsingleton_iff_nontrivial.mp hβ
  have ordered : ∃ a a' : α, a < a' := by
    rcases lt_or_gt_of_ne hx with hlt | hlt
    · exact ⟨x, x', hlt⟩
    · exact ⟨x', x, hlt⟩
  have ordered' : ∃ b b' : β, b < b' := by
    rcases lt_or_gt_of_ne hy with hlt | hlt
    · exact ⟨y, y', hlt⟩
    · exact ⟨y', y, hlt⟩
  obtain ⟨a, a', ha⟩ := ordered
  obtain ⟨b, b', hb⟩ := ordered'
  exact ⟨a, a', b, b', ha, hb⟩

/-- **Couples.** The order is a strict weak one exactly where one of the components has a
single value at most, and exactly there every sequence of insertions leaves each couple
once. -/
theorem unique_iff_subsingleton :
    (StrictWeakOrdering (Less : Couple α β → Couple α β → Prop) ↔
      Subsingleton α ∨ Subsingleton β) ∧
    ((∀ couples : List (Couple α β), HoldsOnce (insertions couples) couples) ↔
      Subsingleton α ∨ Subsingleton β) := by
  refine ⟨⟨fun order => ?_, strictWeakOrdering⟩, fun once => ?_, fun h couples => ?_⟩
  · by_contra hne
    obtain ⟨a, a', b, b', ha, hb⟩ := exists_crossed hne
    obtain ⟨hless, hless'⟩ := less_crossed ha hb
    exact order.asymm _ _ hless hless'
  · by_contra hne
    obtain ⟨a, a', b, b', ha, hb⟩ := exists_crossed hne
    obtain ⟨hnodup, -⟩ := once [⟨a, b⟩, ⟨a, b'⟩, ⟨a', b⟩, ⟨a, b'⟩]
    rw [insertions_twice ha hb] at hnodup
    simp at hnodup
  · apply insertAll_holdsOnce
    exact strictWeakOrdering h

/-- Couples of two numbers: crossing ones break the order, and the last insertion is not
rejected. -/
theorem crossed_inserted_twice :
    ¬ (StrictWeakOrdering (Less : Couple Nat Nat → Couple Nat Nat → Prop) ∧
      ∀ couples : List (Couple Nat Nat), HoldsOnce (insertions couples) couples) ∧
    (Less (⟨0, 1⟩ : Couple Nat Nat) ⟨1, 0⟩ ∧ Less (⟨1, 0⟩ : Couple Nat Nat) ⟨0, 1⟩) ∧
    (insertions [⟨0, 0⟩, ⟨0, 1⟩, ⟨1, 0⟩, (⟨0, 1⟩ : Couple Nat Nat)]).toList =
      [⟨0, 0⟩, ⟨0, 1⟩, ⟨1, 0⟩, ⟨0, 1⟩] := by
  have crossed := less_crossed (show (0 : Nat) < 1 by decide) (show (0 : Nat) < 1 by decide)
  have twice := insertions_twice (show (0 : Nat) < 1 by decide) (show (0 : Nat) < 1 by decide)
  refine ⟨?_, crossed, twice⟩
  rintro ⟨order, -⟩
  exact order.asymm _ _ crossed.1 crossed.2

end Couple

end Netbroker
