import Mathlib.Data.List.Induction
import Mathlib.Data.List.Pairwise
import Mathlib.Tactic.Tauto

/-!
# An ordered index without duplicates

A red-black tree over any comparison. An insertion goes down to a free place, left where
the new key is less and right otherwise, and compares the key once more: with the last element at
which it went right, its neighbour in the order of the tree. It is rejected if that one is
not less than the key. A new node is red, and the way up is recoloured and rotated as far as
needed.

The path from a place up to the root is a list of frames, the parent's first.

Neither recolouring nor rotating changes the order of the elements, `toList`, and an insertion
puts the new key next to its neighbour there. Under a strict weak order the neighbour is
equivalent to the key exactly if any element is, so that the tree holds each element once.
-/

namespace OrderedUnique

universe u

inductive Color where
  | red
  | black
  deriving DecidableEq, Repr

inductive Side where
  | left
  | right
  deriving DecidableEq, Repr

inductive RedBlackTree (α : Type u) where
  | leaf
  | node (color : Color) (left : RedBlackTree α) (value : α) (right : RedBlackTree α)
  deriving DecidableEq, Repr

/-- A node with a place free on one side. -/
structure Frame (α : Type u) where
  color : Color
  side : Side
  value : α
  sibling : RedBlackTree α

variable {α : Type u}

namespace RedBlackTree

def toList : RedBlackTree α → List α
  | .leaf => []
  | .node _ l v r => l.toList ++ v :: r.toList

/-- Paint the root black. -/
def blacken : RedBlackTree α → RedBlackTree α
  | .leaf => .leaf
  | .node _ l v r => .node .black l v r

def isRed : RedBlackTree α → Bool
  | .node .red _ _ _ => true
  | _ => false

@[simp] theorem toList_leaf : (leaf : RedBlackTree α).toList = [] := rfl

@[simp] theorem toList_node (c : Color) (l : RedBlackTree α) (v : α) (r : RedBlackTree α) :
    (node c l v r).toList = l.toList ++ v :: r.toList := rfl

@[simp] theorem toList_blacken (t : RedBlackTree α) : t.blacken.toList = t.toList := by
  cases t <;> rfl

end RedBlackTree

open RedBlackTree

/-- Put a tree into the free place, under a node of the given colour. -/
def Frame.fillAs (f : Frame α) (color : Color) (t : RedBlackTree α) : RedBlackTree α :=
  match f.side with
  | .left => .node color t f.value f.sibling
  | .right => .node color f.sibling f.value t

def Frame.fill (f : Frame α) (t : RedBlackTree α) : RedBlackTree α := f.fillAs f.color t

def rebuild (t : RedBlackTree α) (path : List (Frame α)) : RedBlackTree α :=
  path.foldl (fun t f => f.fill t) t

/-- `rotate_left`. -/
def rotateLeft : RedBlackTree α → RedBlackTree α
  | .node c l v (.node c' l' v' r') => .node c' (.node c l v l') v' r'
  | t => t

/-- `rotate_right`. -/
def rotateRight : RedBlackTree α → RedBlackTree α
  | .node c (.node c' l' v' r') v r => .node c' l' v' (.node c r' v r)
  | t => t

/-- The loop of `rebalance`, at a red node. Red uncles move it two nodes up; a black one
ends it with a rotation at the grandparent, ahead of which a node on the inner side is rotated
out. -/
def rebalance (x : RedBlackTree α) : List (Frame α) → RedBlackTree α
  | [] => x
  | [p] => p.fill x
  | p :: g :: rest =>
      if p.color = .red then
        if g.sibling.isRed then
          rebalance ({ g with sibling := g.sibling.blacken }.fillAs .red (p.fillAs .black x)) rest
        else
          match g.side with
          | .left =>
              let parent := if p.side = .right then rotateLeft (p.fill x) else p.fill x
              rebuild (rotateRight (g.fillAs .red parent.blacken)) rest
          | .right =>
              let parent := if p.side = .left then rotateRight (p.fill x) else p.fill x
              rebuild (rotateLeft (g.fillAs .red parent.blacken)) rest
      else rebuild x (p :: g :: rest)

/-- The way down to a free place: the path back, and the last element at which it went
right. -/
def descend (comp : α → α → Bool) (k : α) :
    RedBlackTree α → List (Frame α) → Option α → List (Frame α) × Option α
  | .leaf, path, below => (path, below)
  | .node c l v r, path, below =>
      if comp k v then
        descend comp k l ({ color := c, side := .left, value := v, sibling := r } :: path) below
      else
        descend comp k r ({ color := c, side := .right, value := v, sibling := l } :: path) (some v)

/-- The tree with a new node at the end of the path. -/
def link (k : α) (path : List (Frame α)) : RedBlackTree α :=
  (rebalance (.node .red .leaf k .leaf) path).blacken

/-- An insertion, and whether it was accepted. -/
def insert (comp : α → α → Bool) (t : RedBlackTree α) (k : α) : RedBlackTree α × Bool :=
  match descend comp k t [] none with
  | (path, none) => (link k path, true)
  | (path, some v) => if comp v k then (link k path, true) else (t, false)

/-- The tree after a sequence of insertions. -/
def insertAll (comp : α → α → Bool) (ks : List α) : RedBlackTree α :=
  ks.foldl (fun t k => (insert comp t k).1) .leaf

/-- What stands ahead of a free place. -/
def before : List (Frame α) → List α
  | [] => []
  | f :: path =>
      match f.side with
      | .left => before path
      | .right => before path ++ f.sibling.toList ++ [f.value]

/-- What stands behind it. -/
def behind : List (Frame α) → List α
  | [] => []
  | f :: path =>
      match f.side with
      | .left => f.value :: f.sibling.toList ++ behind path
      | .right => behind path

theorem toList_rebuild (t : RedBlackTree α) (path : List (Frame α)) :
    (rebuild t path).toList = before path ++ t.toList ++ behind path := by
  induction path generalizing t with
  | nil => simp [rebuild, before, behind]
  | cons f path ih =>
      have hstep : rebuild t (f :: path) = rebuild (f.fill t) path := rfl
      rw [hstep, ih]
      obtain ⟨color, side, value, sibling⟩ := f
      cases side <;> simp [Frame.fill, Frame.fillAs, before, behind]

theorem toList_rotateLeft (t : RedBlackTree α) : (rotateLeft t).toList = t.toList := by
  unfold rotateLeft
  split <;> simp

theorem toList_rotateRight (t : RedBlackTree α) : (rotateRight t).toList = t.toList := by
  unfold rotateRight
  split <;> simp

/-- Colours do not matter to the order, nor does rebalancing. -/
theorem toList_rebalance (x : RedBlackTree α) (path : List (Frame α)) :
    (rebalance x path).toList = before path ++ x.toList ++ behind path := by
  induction x, path using rebalance.induct with
  | case1 x => simp [rebalance, before, behind]
  | case2 x p =>
      obtain ⟨color, side, value, sibling⟩ := p
      cases side <;> simp [rebalance, Frame.fill, Frame.fillAs, before, behind]
  | case3 x p g rest hp hred ih =>
      rw [rebalance, if_pos hp, if_pos hred, ih]
      obtain ⟨pcolor, pside, pvalue, psibling⟩ := p
      obtain ⟨gcolor, gside, gvalue, gsibling⟩ := g
      cases pside <;> cases gside <;> simp [Frame.fillAs, before, behind]
  | case4 x p g rest hp hblack hg =>
      rw [rebalance, if_pos hp, if_neg hblack]
      obtain ⟨pcolor, pside, pvalue, psibling⟩ := p
      obtain ⟨gcolor, gside, gvalue, gsibling⟩ := g
      obtain rfl := hg
      cases pside <;>
        simp [toList_rebuild, toList_rotateRight, toList_rotateLeft, Frame.fill, Frame.fillAs,
          before, behind]
  | case5 x p g rest hp hblack hg =>
      rw [rebalance, if_pos hp, if_neg hblack]
      obtain ⟨pcolor, pside, pvalue, psibling⟩ := p
      obtain ⟨gcolor, gside, gvalue, gsibling⟩ := g
      obtain rfl := hg
      cases pside <;>
        simp [toList_rebuild, toList_rotateRight, toList_rotateLeft, Frame.fill, Frame.fillAs,
          before, behind]
  | case6 x p g rest hp =>
      rw [rebalance, if_neg hp, toList_rebuild]

theorem toList_link (k : α) (path : List (Frame α)) :
    (link k path).toList = before path ++ k :: behind path := by
  rw [link, toList_blacken, toList_rebalance]
  simp

/-- A strict weak ordering, of which equal elements are the only equivalent ones. -/
structure StrictWeakOrdering (lt : α → α → Prop) : Prop where
  irrefl : ∀ a, ¬ lt a a
  asymm : ∀ a b, lt a b → ¬ lt b a
  trans : ∀ a b c, lt a b → lt b c → lt a c
  incomparable : ∀ a b c, ¬ lt a b → ¬ lt b a → ¬ lt b c → ¬ lt c b → ¬ lt a c ∧ ¬ lt c a
  equivalent : ∀ a b, (¬ lt a b ∧ ¬ lt b a) ↔ a = b

/-- The tree holds each of the elements once, and no others. -/
def HoldsOnce (t : RedBlackTree α) (ks : List α) : Prop :=
  t.toList.Nodup ∧ ∀ x, x ∈ t.toList ↔ x ∈ ks

variable {lt : α → α → Prop} [DecidableRel lt] {t : RedBlackTree α} {k : α}

/-- The free place parts the elements that the key is less than from the others. -/
theorem descend_spec (order : StrictWeakOrdering lt) (sorted : t.toList.Pairwise lt)
    (path : List (Frame α)) (below : Option α) :
    ∃ front back, t.toList = front ++ back ∧
      before (descend (fun a b => decide (lt a b)) k t path below).1 = before path ++ front ∧
      behind (descend (fun a b => decide (lt a b)) k t path below).1 = back ++ behind path ∧
      (descend (fun a b => decide (lt a b)) k t path below).2 = front.getLast?.or below ∧
      (∀ v ∈ front, ¬ lt k v) ∧ ∀ v ∈ back, lt k v := by
  induction t generalizing path below with
  | leaf => exact ⟨[], [], rfl, by simp [descend], by simp [descend], by simp [descend], by simp⟩
  | node c l v r ihl ihr =>
      rw [toList_node, List.pairwise_append, List.pairwise_cons] at sorted
      obtain ⟨hl, ⟨hv, hr⟩, hcross⟩ := sorted
      by_cases hlt : lt k v
      · obtain ⟨front, back, hlist, hbefore, hbehind, hbelow, hfront, hback⟩ :=
          ihl hl ({ color := c, side := .left, value := v, sibling := r } :: path) below
        refine ⟨front, back ++ v :: r.toList, by simp [hlist], ?_, ?_, ?_, hfront, ?_⟩
        · simp [descend, hlt, hbefore, before]
        · simp [descend, hlt, hbehind, behind]
        · simp [descend, hlt, hbelow]
        · intro w hw
          obtain hw | hw := List.mem_append.mp hw
          · exact hback w hw
          · obtain rfl | hw := List.mem_cons.mp hw
            · exact hlt
            · exact order.trans k v w hlt (hv w hw)
      · obtain ⟨front, back, hlist, hbefore, hbehind, hbelow, hfront, hback⟩ :=
          ihr hr ({ color := c, side := .right, value := v, sibling := l } :: path) (some v)
        refine ⟨l.toList ++ v :: front, back, by simp [hlist], ?_, ?_, ?_, ?_, hback⟩
        · simp [descend, hlt, hbefore, before]
        · simp [descend, hlt, hbehind, behind]
        · simp [descend, hlt, hbelow, List.getLast?_append, List.getLast?_cons]
        · intro w hw
          obtain hw | hw := List.mem_append.mp hw
          · exact fun hkw => hlt (order.trans k w v hkw (hcross w hw v (List.mem_cons_self ..)))
          · obtain rfl | hw := List.mem_cons.mp hw
            · exact hlt
            · exact hfront w hw

/-- An insertion into a sorted tree adds the key unless it is there. -/
theorem insert_spec (order : StrictWeakOrdering lt) (sorted : t.toList.Pairwise lt) (k : α) :
    (insert (fun a b => decide (lt a b)) t k).1.toList.Pairwise lt ∧
      (∀ x, x ∈ (insert (fun a b => decide (lt a b)) t k).1.toList ↔ x = k ∨ x ∈ t.toList) ∧
      ((insert (fun a b => decide (lt a b)) t k).2 = true ↔ k ∉ t.toList) := by
  obtain ⟨front, back, hlist, hbefore, hbehind, hbelow, hfront, hback⟩ :=
    descend_spec (k := k) order sorted [] none
  generalize hdescend : descend (fun a b => decide (lt a b)) k t [] none = place at *
  obtain ⟨path, below⟩ := place
  simp only [before, behind, List.nil_append, List.append_nil, Option.or_none]
    at hbefore hbehind hbelow
  -- the tree with the new key, where the key is above its neighbour
  have hlink : (∀ v ∈ front, lt v k) → (link k path).toList.Pairwise lt ∧
      (∀ x, x ∈ (link k path).toList ↔ x = k ∨ x ∈ t.toList) ∧ k ∉ t.toList := by
    intro hbelow'
    rw [toList_link, hbefore, hbehind, hlist]
    rw [hlist, List.pairwise_append] at sorted
    obtain ⟨hsortedFront, hsortedBack, hcross⟩ := sorted
    refine ⟨?_, fun x => ?_, fun hmem => ?_⟩
    · rw [List.pairwise_append, List.pairwise_cons]
      refine ⟨hsortedFront, ⟨hback, hsortedBack⟩, fun v hv w hw => ?_⟩
      obtain rfl | hw := List.mem_cons.mp hw
      · exact hbelow' v hv
      · exact hcross v hv w hw
    · simp only [List.mem_append, List.mem_cons]
      tauto
    · obtain hmem | hmem := List.mem_append.mp hmem
      · exact order.irrefl k (hbelow' k hmem)
      · exact order.irrefl k (hback k hmem)
  rw [insert, hdescend, hbelow]
  cases hlast : front.getLast? with
  | none =>
      have hempty := List.getLast?_eq_none_iff.mp hlast
      obtain ⟨hsorted, hmem, hnew⟩ := hlink (by simp [hempty])
      exact ⟨hsorted, hmem, by simpa using hnew⟩
  | some v =>
      obtain ⟨init, hinit⟩ := List.getLast?_eq_some_iff.mp hlast
      have hv : ¬ lt k v := hfront v (by simp [hinit])
      dsimp only
      by_cases hlt : lt v k
      · have hbelow' : ∀ w ∈ front, lt w k := by
          intro w hw
          rw [hinit, List.mem_append, List.mem_singleton] at hw
          obtain hw | rfl := hw
          · rw [hlist, hinit, List.append_assoc, List.pairwise_append] at sorted
            exact order.trans w v k (sorted.2.2 w hw v (by simp)) hlt
          · exact hlt
        obtain ⟨hsorted, hmem, hnew⟩ := hlink hbelow'
        rw [if_pos (by simpa using hlt)]
        exact ⟨hsorted, hmem, by simpa using hnew⟩
      · obtain rfl := (order.equivalent k v).mp ⟨hv, hlt⟩
        have hthere : k ∈ t.toList := by simp [hlist, hinit]
        rw [if_neg (by simpa using hlt)]
        refine ⟨sorted, fun x => ?_, by simpa using hthere⟩
        constructor
        · exact .inr
        · rintro (rfl | hx)
          · exact hthere
          · exact hx

/-- Under a strict order the index has no duplicates, and misses nothing. -/
theorem insertAll_holdsOnce (order : StrictWeakOrdering lt) (ks : List α) :
    HoldsOnce (insertAll (fun a b => decide (lt a b)) ks) ks := by
  have hall : (insertAll (fun a b => decide (lt a b)) ks).toList.Pairwise lt ∧
      ∀ x, x ∈ (insertAll (fun a b => decide (lt a b)) ks).toList ↔ x ∈ ks := by
    induction ks using List.reverseRecOn with
    | nil => exact ⟨.nil, fun x => Iff.rfl⟩
    | append_singleton ks k ih =>
        obtain ⟨hsorted, hmem⟩ := ih
        obtain ⟨hsorted', hmem', -⟩ := insert_spec order hsorted k
        have hlast : insertAll (fun a b => decide (lt a b)) (ks ++ [k]) =
            (insert (fun a b => decide (lt a b))
              (insertAll (fun a b => decide (lt a b)) ks) k).1 := by
          simp only [insertAll, List.foldl_append, List.foldl_cons, List.foldl_nil]
        rw [hlast]
        refine ⟨hsorted', fun x => ?_⟩
        rw [hmem', hmem, List.mem_append, List.mem_singleton, or_comm]
  refine ⟨?_, hall.2⟩
  refine List.Pairwise.imp (S := (· ≠ ·)) ?_ hall.1
  rintro a b hlt rfl
  exact order.irrefl a hlt

end OrderedUnique
