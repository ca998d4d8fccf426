import Mathlib.Algebra.Ring.Int.Defs
import Mathlib.Data.List.TakeWhile

/-!
# Strings, buffers and groups

A `std::string` is its list of bytes, NUL included; a C function that gets its
`c_str` sees the bytes before the first NUL. `m_data` points to a block of
`m_size` bytes in the buffers the code builds, so a buffer holds the block and
its size is the block's length. The one exception, a null pointer with the size
-1 behind an empty message in the other byte order, has no bytes here.
-/

namespace Netbroker

/-- A `std::string`. -/
abbrev Str := List UInt8

/-- What a C function reads through `c_str()`. -/
def cstr (s : Str) : Str := s.takeWhile (· ≠ 0)

theorem cstr_of_not_mem {s : Str} (h : (0 : UInt8) ∉ s) : cstr s = s := by
  apply List.takeWhile_eq_self_iff.mpr
  intro byte hbyte
  have hne : byte ≠ 0 := fun hzero => h (hzero ▸ hbyte)
  simpa using hne

/-- `CONN_MAX_GROUP_NAME` of the connector, `MAX_GROUP_NAME` of Spread. -/
abbrev maxGroupName : Nat := 32

/-- The reserved opcode `SIG_HALT_MSG`. -/
def sigHaltMsg : BitVec 16 := 1212

inductive MsgType where
  | default
  | regular
  | membership
  deriving DecidableEq, Repr

structure Buffer where
  data : List UInt8
  opCode : BitVec 16
  groupName : Str
  sender : Str
  type : MsgType
  deriving DecidableEq, Repr

namespace Buffer

/-- `m_size`. -/
def size (b : Buffer) : Nat := b.data.length

/-- The default constructor, and what `erase` leaves behind. -/
def erased : Buffer :=
  { data := [], opCode := 0, groupName := [], sender := [], type := .default }

/-- The constructor from a block of data, open to every user. -/
def new (data : List UInt8) (groupName : Str) (opCode : BitVec 16) : Buffer :=
  { data, opCode, groupName, sender := [], type := .default }

/-- The copy constructor and the assignment: both leave `m_sender` empty. -/
def copy (b : Buffer) : Buffer := { b with sender := [] }

@[simp] theorem copy_data (b : Buffer) : b.copy.data = b.data := rfl
@[simp] theorem copy_opCode (b : Buffer) : b.copy.opCode = b.opCode := rfl
@[simp] theorem copy_groupName (b : Buffer) : b.copy.groupName = b.groupName := rfl
@[simp] theorem copy_size (b : Buffer) : b.copy.size = b.size := rfl
end Buffer

/-- `unsigned long` of a `long`, 32 bits wide on the library's platform. -/
def unsignedLong (n : Int) : Nat := (n % 2 ^ 32).toNat

structure Group where
  name : Str
  maxBufferSize : Nat
  queueSize : Nat
  deriving DecidableEq, Repr

namespace Group

/-- The constructor, which stores its signed arguments as unsigned. -/
def new (name : Str) (maxBufferSize queueSize : Int) : Group :=
  { name, maxBufferSize := unsignedLong maxBufferSize, queueSize := unsignedLong queueSize }

/-- A message for the group, unless it exceeds the group's buffer size. -/
def createBuffer (g : Group) (data : List UInt8) (opCode : BitVec 16) : Option Buffer :=
  if g.maxBufferSize < data.length then none
  else some { data, opCode, groupName := g.name, sender := [], type := .regular }

theorem createBuffer_eq_some {g : Group} {data : List UInt8} {opCode : BitVec 16} {b : Buffer} :
    g.createBuffer data opCode = some b ↔ data.length ≤ g.maxBufferSize ∧
      b = { data, opCode, groupName := g.name, sender := [], type := .regular } := by
  rw [createBuffer]
  split <;> grind

end Group

end Netbroker
