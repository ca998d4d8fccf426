import Mathlib.Algebra.Order.Ring.Nat

/-!
# Little-endian words and blocks in memory

Words are lists of bytes, lowest first. A block of memory is read through `window` and
compared through `Holds`, which splits over appended parts, so a layout is checked part
by part. A block is filled by `patches`, one copy after the other at a running offset
that is kept in a word of its own; where each copy stays inside the block the offset
never wraps, and the block ends up as the parts in a row.

Reading and writing are independent of each other. A reader is followed through its offsets,
by `Holds` and by the list of what it has read; a writer is described by what its patches
leave.
-/

namespace Codec

/-- The `k` low bytes of a number, lowest first. -/
def toBytes : Nat → Nat → List UInt8
  | 0, _ => []
  | k + 1, n => UInt8.ofNat n :: toBytes k (n / 256)

/-- The number of a little-endian word. -/
def ofBytes : List UInt8 → Nat
  | [] => 0
  | b :: rest => b.toNat + 256 * ofBytes rest

@[simp] theorem length_toBytes (k n : Nat) : (toBytes k n).length = k := by
  induction k generalizing n with
  | zero => rfl
  | succ k ih => rw [toBytes, List.length_cons, ih]

theorem ofBytes_toBytes (k n : Nat) : ofBytes (toBytes k n) = n % 256 ^ k := by
  induction k generalizing n with
  | zero => simp [toBytes, ofBytes, Nat.mod_one]
  | succ k ih =>
      rw [toBytes, ofBytes, ih, Nat.pow_succ', Nat.mod_mul]
      rfl

theorem toBytes_ofBytes (bytes : List UInt8) : toBytes bytes.length (ofBytes bytes) = bytes := by
  induction bytes with
  | nil => rfl
  | cons b rest ih =>
      have hb : b.toNat < 256 := b.toNat_lt
      have hdiv : (b.toNat + 256 * ofBytes rest) / 256 = ofBytes rest := by omega
      rw [List.length_cons, toBytes, ofBytes, hdiv, ih]
      refine congrArg (· :: rest) (UInt8.toNat_inj.mp ?_)
      rw [UInt8.toNat_ofNat']
      omega

theorem ofBytes_lt (bytes : List UInt8) : ofBytes bytes < 256 ^ bytes.length := by
  induction bytes with
  | nil => exact Nat.one_pos
  | cons b rest ih =>
      have hb : b.toNat < 256 := b.toNat_lt
      rw [ofBytes, List.length_cons, Nat.pow_succ']
      omega

/-- What a reader finds at each offset from its pointer on. -/
abbrev Memory := Nat → UInt8

/-- `len` bytes from an offset on. -/
def window (mem : Memory) (off : Nat) : Nat → List UInt8
  | 0 => []
  | len + 1 => mem off :: window mem (off + 1) len

/-- A block, and what lies beyond it. -/
def block (bytes : List UInt8) (beyond : Memory) : Memory := fun i => bytes.getD i (beyond i)

/-- The bytes are what the memory has from the offset on. -/
def Holds (mem : Memory) (off : Nat) (bytes : List UInt8) : Prop :=
  window mem off bytes.length = bytes

variable {mem : Memory} {off : Nat}

@[simp] theorem length_window (mem : Memory) (off len : Nat) :
    (window mem off len).length = len := by
  induction len generalizing off with
  | zero => rfl
  | succ len ih => rw [window, List.length_cons, ih]

theorem window_append (mem : Memory) (off m n : Nat) :
    window mem off (m + n) = window mem off m ++ window mem (off + m) n := by
  induction m generalizing off with
  | zero => simp [window]
  | succ m ih =>
      have hnext : off + 1 + m = off + (m + 1) := by omega
      rw [Nat.add_right_comm, window, ih, window, List.cons_append, hnext]

/-- A layout is held part by part. -/
theorem holds_append {a b : List UInt8} :
    Holds mem off (a ++ b) ↔ Holds mem off a ∧ Holds mem (off + a.length) b := by
  rw [Holds]
  rw [List.length_append, window_append]
  constructor
  · intro h
    exact List.append_inj h (length_window ..)
  · rintro ⟨ha, hb⟩
    rw [ha, hb]

theorem holds_window (mem : Memory) (off len : Nat) : Holds mem off (window mem off len) := by
  rw [Holds, length_window]

theorem holds_block (bytes : List UInt8) (beyond : Memory) :
    Holds (block bytes beyond) 0 bytes := by
  have hfrom : ∀ before after : List UInt8,
      Holds (block (before ++ after) beyond) before.length after := by
    intro before after
    induction after generalizing before with
    | nil => rfl
    | cons b rest ih =>
        have hrest := ih (before ++ [b])
        rw [List.append_assoc, List.length_append] at hrest
        have hhead : block (before ++ b :: rest) beyond before.length = b := by
          simp [block]
        rw [Holds] at hrest ⊢
        rw [List.length_cons, window, hhead]
        exact congrArg (b :: ·) hrest
  exact hfrom [] bytes

/-- Inside of a block its reader finds its bytes. -/
theorem window_block {bytes : List UInt8} {len : Nat} (beyond : Memory)
    (h : off + len ≤ bytes.length) :
    window (block bytes beyond) off len = (bytes.drop off).take len := by
  have hwhole := holds_block bytes beyond
  rw [← List.take_append_drop off bytes, holds_append] at hwhole
  have hrest := hwhole.2
  rw [← List.take_append_drop len (bytes.drop off), holds_append] at hrest
  have hhere := hrest.1
  rw [List.take_append_drop, List.take_append_drop, Holds, List.length_take, List.length_take,
    List.length_drop, Nat.min_eq_left (by omega), Nat.min_eq_left (by omega), Nat.zero_add] at hhere
  exact hhere

/-- Bytes read, by offset and number, in order. -/
abbrev Reads := List (Nat × Nat)

/-- Each read begins where the one before it has ended. -/
def Consecutive : Nat → Reads → Nat → Prop
  | off, [], last => off = last
  | off, x :: rest, last => x.1 = off ∧ Consecutive (off + x.2) rest last

theorem Consecutive.le {reads : Reads} {last : Nat} (h : Consecutive off reads last) :
    off ≤ last := by
  induction reads generalizing off with
  | nil => exact Nat.le_of_eq h
  | cons x rest ih =>
      have hrest := ih h.2
      omega

/-- Consecutive reads touch each byte between their ends once. -/
theorem Consecutive.flatMap_range' {reads : Reads} {last : Nat} (h : Consecutive off reads last) :
    reads.flatMap (fun x => List.range' x.1 x.2) = List.range' off (last - off) := by
  induction reads generalizing off with
  | nil =>
      have hlast : off = last := h
      rw [hlast, Nat.sub_self]
      rfl
  | cons x rest ih =>
      obtain ⟨hoff, hrest⟩ := h
      have hle := hrest.le
      have hlen : last - off = x.2 + (last - (off + x.2)) := by omega
      rw [List.flatMap_cons, ih hrest, hoff, List.range'_append_1, hlen]

/-- Consecutive reads stay below their end. -/
theorem Consecutive.inside {reads : Reads} {last : Nat} (h : Consecutive off reads last)
    {x : Nat × Nat} (hx : x ∈ reads) : x.1 + x.2 ≤ last := by
  induction reads generalizing off with
  | nil => exact absurd hx List.not_mem_nil
  | cons y rest ih =>
      obtain rfl | hx := List.mem_cons.mp hx
      · rw [h.1]
        exact h.2.le
      · exact ih h.2 hx

/-- Copy a part into a block; outside of the block there is nothing to copy to. -/
def patch (buffer : List UInt8) (off : Nat) (part : List UInt8) : Option (List UInt8) :=
  if off + part.length ≤ buffer.length then
    some (buffer.take off ++ part ++ buffer.drop (off + part.length))
  else none

/-- Copy parts one after the other, with the offset kept modulo `modulus`. -/
def patches (modulus : Nat) : List UInt8 → Nat → List (List UInt8) → Option (List UInt8)
  | buffer, _, [] => some buffer
  | buffer, off, part :: rest =>
      (patch buffer off part).bind fun buffer =>
        patches modulus buffer ((off + part.length) % modulus) rest

/-- Inside a block smaller than the modulus the offset is exact. -/
theorem patches_append {modulus : Nat} (done rest : List UInt8) (parts : List (List UInt8))
    (hsmall : (done ++ rest).length < modulus) :
    patches modulus (done ++ rest) done.length parts =
      if parts.flatten.length ≤ rest.length then
        some (done ++ parts.flatten ++ rest.drop parts.flatten.length)
      else none := by
  induction parts generalizing done rest with
  | nil => simp [patches]
  | cons part parts ih =>
      rw [List.length_append] at hsmall
      by_cases hfits : part.length ≤ rest.length
      · have hpatch : patch (done ++ rest) done.length part =
            some ((done ++ part) ++ rest.drop part.length) := by
          rw [patch, List.length_append, if_pos (by omega)]
          simp
        have hoff : (done.length + part.length) % modulus = (done ++ part).length := by
          rw [List.length_append, Nat.mod_eq_of_lt (by omega)]
        have hlength : ((done ++ part) ++ rest.drop part.length).length < modulus := by
          simp only [List.length_append, List.length_drop]
          omega
        rw [patches, hpatch, Option.bind_some, hoff, ih _ _ hlength]
        simp only [List.flatten_cons, List.length_append, List.length_drop, List.drop_drop,
          List.append_assoc]
        grind
      · have hpatch : patch (done ++ rest) done.length part = none := by
          rw [patch, List.length_append, if_neg (by omega)]
        rw [patches, hpatch, Option.bind_none, if_neg]
        rw [List.flatten_cons, List.length_append]
        omega

/-- Parts copied into a block that has been sized for them, in the same arithmetic. -/
theorem patches_sized {modulus : Nat} (hpos : 0 < modulus) (parts : List (List UInt8)) :
    patches modulus (List.replicate (parts.flatten.length % modulus) 0) 0 parts =
      if parts.flatten.length < modulus then some parts.flatten else none := by
  have hmod := Nat.mod_lt parts.flatten.length hpos
  have h := patches_append [] (List.replicate (parts.flatten.length % modulus) 0) parts
    (by simpa using hmod)
  rw [List.nil_append, List.length_nil] at h
  rw [h, List.length_replicate]
  by_cases hsmall : parts.flatten.length < modulus
  · rw [if_pos hsmall, Nat.mod_eq_of_lt hsmall, if_pos (Nat.le_refl _)]
    simp
  · rw [if_neg hsmall, if_neg (by omega)]

end Codec
