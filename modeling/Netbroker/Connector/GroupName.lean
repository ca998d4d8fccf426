import Netbroker.Connector.Basic

/-!
# The way of a group's name to the daemon

`sendToGroup` copies the name with its terminator into an array on its stack, and
`SP_multicast` copies the string it finds there into an array of its own. The
connector's check admits names of up to `MAX_GROUP_NAME` bytes and does not count
the terminator; Spread's copy keeps one byte less. Both copies are over memory that
goes on behind the array, so that a byte written past the end has a place to go to.

A string in memory is the bytes ahead of the first NUL, `cstr`. With that each copy is a
function on arrays, and what the library reads in the end is compared with the name that was
passed.
-/

namespace Netbroker

open Spread

/-- `memcpy` of some bytes to the start of a piece of memory. -/
def memcpy (memory bytes : List UInt8) : List UInt8 := bytes ++ memory.drop bytes.length

/-- `strncpy` of `n` bytes: a shorter string is filled up with zeros. -/
def strncpy (memory : List UInt8) (source : Str) (n : Nat) : List UInt8 :=
  memcpy memory ((cstr source).take n ++ List.replicate (n - (cstr source).length) 0)

/-- A local `char[MAX_GROUP_NAME]`. -/
structure GroupArray where
  bytes : List UInt8
  size : bytes.length = maxGroupName

/-- What `sendToGroup` does before it calls the library: it returns, or it calls
`SP_multicast` with the address of its array, `written` bytes from there on being
overwritten in `memory`. -/
inductive GroupCall where
  | returned (ret : Int)
  | multicast (written : Nat) (memory : List UInt8)
  deriving DecidableEq

/-- `sendToGroup` up to the call, over the array as the stack holds it and what lies
behind the array. -/
def groupCall (array : GroupArray) (behind : List UInt8) (b : Buffer) : GroupCall :=
  if maxGroupName < b.groupName.length then .returned wrongGroupNameSize
  else
    let cleared := memcpy (array.bytes ++ behind) (List.replicate maxGroupName 0)
    let terminated := b.groupName ++ [0]
    .multicast terminated.length (memcpy cleared terminated)

/-- `send_group` in `SP_multicast`, an array of the library's stack. -/
def sendGroup (array : GroupArray) (group : Str) : List UInt8 :=
  strncpy (array.bytes.set (maxGroupName - 1) 0) group (maxGroupName - 1)

/-- The call refuses the name, or keeps to its array and has the library send the very
bytes of the name. -/
def GroupCall.Exact (call : GroupCall) (name : Str) (library : GroupArray) : Prop :=
  match call with
  | .returned ret => ret = wrongGroupNameSize
  | .multicast written memory =>
      written ≤ maxGroupName ∧ (0 : UInt8) ∈ memory.take maxGroupName ∧
        cstr (sendGroup library memory) = name

theorem cstr_append_zero (s rest : Str) : cstr (s ++ 0 :: rest) = cstr s := by
  induction s with
  | nil => rfl
  | cons byte s ih =>
      by_cases hbyte : byte = 0
      · subst hbyte
        rfl
      · simp only [cstr, List.cons_append] at ih ⊢
        rw [List.takeWhile_cons_of_pos (by simpa using hbyte),
          List.takeWhile_cons_of_pos (by simpa using hbyte), ih]

theorem not_mem_cstr (s : Str) : (0 : UInt8) ∉ cstr s := by
  intro hzero
  have hne := List.mem_takeWhile_imp hzero
  simp at hne

theorem cstr_eq_self_iff {s : Str} : cstr s = s ↔ (0 : UInt8) ∉ s := by
  constructor
  · intro h
    exact h ▸ not_mem_cstr s
  · exact cstr_of_not_mem

/-- The library's array holds the first bytes of the string, with a zero behind them. -/
theorem cstr_sendGroup (array : GroupArray) (group : Str) :
    cstr (sendGroup array group) = (cstr group).take (maxGroupName - 1) := by
  have hclean : (0 : UInt8) ∉ (cstr group).take (maxGroupName - 1) := by
    intro hzero
    exact not_mem_cstr group (List.mem_of_mem_take hzero)
  have hwritten : ((cstr group).take (maxGroupName - 1) ++
      List.replicate (maxGroupName - 1 - (cstr group).length) (0 : UInt8)).length =
        maxGroupName - 1 := by
    simp only [List.length_append, List.length_take, List.length_replicate]
    omega
  -- the last byte of the array is the zero that the copy does not reach
  have hlast : (array.bytes.set (maxGroupName - 1) 0).drop (maxGroupName - 1) = [0] := by
    have hsize := array.size
    apply List.ext_getElem
    · simp only [List.length_drop, List.length_set, hsize, List.length_singleton]
      decide
    · intro i hi _
      have hi : i = 0 := by
        simp only [List.length_drop, List.length_set, hsize] at hi
        omega
      subst hi
      simp
  rw [sendGroup, strncpy, memcpy]
  rw [hwritten, hlast]
  rcases Nat.eq_zero_or_pos (maxGroupName - 1 - (cstr group).length) with hlong | hshort
  · rw [hlong, List.replicate_zero, List.append_nil, cstr_append_zero, cstr_of_not_mem hclean]
  · obtain ⟨k, hk⟩ := Nat.exists_eq_succ_of_ne_zero (Nat.ne_of_gt hshort)
    rw [hk, List.replicate_succ, List.append_assoc, List.cons_append, cstr_append_zero,
      cstr_of_not_mem hclean]

section Call

variable {array library : GroupArray} {behind : List UInt8} {b : Buffer}

theorem groupCall_of_long (h : maxGroupName < b.groupName.length) :
    groupCall array behind b = .returned wrongGroupNameSize := if_pos h

/-- What an admitted name leaves in memory: itself, its terminator, and the rest. -/
theorem groupCall_of_admitted (array : GroupArray) (behind : List UInt8)
    (h : b.groupName.length ≤ maxGroupName) :
    ∃ rest, groupCall array behind b =
      .multicast (b.groupName.length + 1) (b.groupName ++ 0 :: rest) := by
  refine ⟨(memcpy (array.bytes ++ behind) (List.replicate maxGroupName 0)).drop
    (b.groupName ++ [0]).length, ?_⟩
  simp [groupCall, memcpy, Nat.not_lt.mpr h]

end Call

/-- The connector's model sends what the copies leave of the name. -/
theorem Connection.sendToGroup_groupCall (c : Connection) (sent : Bool) (b : Buffer)
    (array : GroupArray) (behind : List UInt8) :
    c.sendToGroup sent b =
      match groupCall array behind b with
      | .returned ret => (ret, c)
      | .multicast _ memory =>
          let (ret, spread) :=
            Spread.multicast c.spread c.connector.spreadMbox sent safeMess memory b.opCode b.data
          (ret, { c with spread }) := by
  by_cases hlong : maxGroupName < b.groupName.length
  · simp [Connection.sendToGroup, groupCall_of_long hlong, hlong]
  · obtain ⟨rest, hcall⟩ := groupCall_of_admitted array behind (Nat.not_lt.mp hlong)
    simp [Connection.sendToGroup, hcall, hlong, Spread.multicast, cstr_append_zero]

/-- A name is refused or sent as it is when it is longer than the check admits, or
shorter than the array and free of zeros. -/
theorem groupCall_exact_iff (array library : GroupArray) (behind : List UInt8) (b : Buffer) :
    (groupCall array behind b).Exact b.groupName library ↔
      maxGroupName < b.groupName.length ∨
        b.groupName.length < maxGroupName ∧ (0 : UInt8) ∉ b.groupName := by
  by_cases hlong : maxGroupName < b.groupName.length
  · simp [groupCall_of_long hlong, GroupCall.Exact, hlong]
  obtain ⟨rest, hcall⟩ := groupCall_of_admitted array behind (Nat.not_lt.mp hlong)
  rw [hcall]
  simp only [GroupCall.Exact, cstr_sendGroup, cstr_append_zero, hlong, false_or]
  constructor
  · rintro ⟨hwritten, -, hname⟩
    have hlength : b.groupName.length ≤ (cstr b.groupName).length := by
      conv_lhs => rw [← hname]
      exact List.length_take_le' ..
    have hself : cstr b.groupName = b.groupName :=
      (List.takeWhile_prefix _).eq_of_length_le hlength
    exact ⟨hwritten, cstr_eq_self_iff.mp hself⟩
  · rintro ⟨hshort, hclean⟩
    refine ⟨hshort, ?_, ?_⟩
    · have hlength : (b.groupName ++ [0]).length ≤ maxGroupName := by
        simp only [List.length_append, List.length_singleton]
        exact hshort
      have hprefix : b.groupName ++ [0] <+: (b.groupName ++ 0 :: rest).take maxGroupName := by
        apply List.prefix_take_iff.mpr
        exact ⟨⟨rest, by simp⟩, hlength⟩
      exact hprefix.subset (by simp)
    · rw [cstr_of_not_mem hclean]
      apply List.take_of_length_le
      omega

/-- A name of 32 bytes: its terminator is written behind the array, and the library
sends 31 bytes of it. -/
theorem groupCall_full_name :
    ¬ (groupCall ⟨List.replicate maxGroupName 7, by decide⟩ [5, 5]
        (Buffer.new [] (List.replicate maxGroupName 97) 0)).Exact
      (List.replicate maxGroupName 97) ⟨List.replicate maxGroupName 7, by decide⟩ := by
  rintro ⟨hwritten, -⟩
  exact absurd hwritten (by decide)

end Netbroker
