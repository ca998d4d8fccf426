import Netbroker.Buffer
import Netbroker.Codec.Bytes

/-!
# Log reports

`serialize` copies the fields of a report into a block it has sized for them, each
string behind its length. `unserialize` walks over the block with an offset of its own
and believes the lengths it finds; the size that comes with the block is not looked at.

`unsigned` is 32 bits wide and holds the offsets and the sizes, while the sums that
index the block are wider, so an offset wraps only when it is stored.

The layout of a block is `encoding`, the parts of a report in a row. `serialize` makes it and
`unserialize` finds it again; what `unserialize` makes of any other block depends on the three
lengths it meets, `Framed`.
-/

namespace Netbroker

open Codec

/-- The enumerators of `LogReport::LogType`. -/
inductive LogType where
  | debug
  | info
  | notice
  | warning
  | error
  | critical
  | alert
  | emergency
  deriving DecidableEq, Repr

/-- The four bytes of an enumerator. -/
def LogType.code (type : LogType) : BitVec 32 := BitVec.ofNat 32 type.ctorIdx

/-- A report. A variable of type `LogType` holds whatever is copied into it. -/
structure LogReport where
  logType : BitVec 32
  topic : Str
  date : BitVec 64
  procID : BitVec 32
  source : Str
  details : Str
  deriving DecidableEq, Repr

/-- The bytes of a literal of the source. -/
def literal (s : String) : Str := s.toUTF8.data.toList

/-- The range of `unsigned`. -/
abbrev unsignedMod : Nat := 2 ^ 32

namespace LogReport

/-- A string behind its length, which is cut to `unsigned` like the number of bytes copied. -/
def stringParts (s : Str) : List (List UInt8) :=
  [toBytes 4 (s.length % unsignedMod), s.take (s.length % unsignedMod)]

/-- What `serialize` copies, in order. -/
def parts (r : LogReport) : List (List UInt8) :=
  [toBytes 4 r.logType.toNat, toBytes 8 r.date.toNat, toBytes 4 r.procID.toNat] ++
    stringParts r.source ++ stringParts r.topic ++ stringParts r.details

/-- `__rReturnedSize`. -/
def bufSize (r : LogReport) : Nat :=
  (4 + 8 + 4 + (r.source.length + 4) + (r.topic.length + 4) + (r.details.length + 4)) % unsignedMod

/-- `serialize`: the block it returns, unless a copy would leave the block. -/
def serialize (r : LogReport) : Option (List UInt8) :=
  patches unsignedMod (List.replicate r.bufSize 0) 0 r.parts

/-- A string behind its length, with the offset behind it and what has been read. -/
def readString (mem : Memory) (bufferIterator : Nat) : Str × Nat × Reads :=
  let currentDataSize := ofBytes (window mem bufferIterator 4)
  (window mem (bufferIterator + 4) currentDataSize,
    (bufferIterator + (currentDataSize + 4)) % unsignedMod,
    [(bufferIterator, 4), (bufferIterator + 4, currentDataSize)])

/-- How `unserialize` ends. -/
structure Unserialized where
  returned : Bool
  /-- `__rpReturnedLog`, null or pointing to a report. -/
  result : Option LogReport
  reads : Reads

/-- `unserialize` of the block at the pointer. -/
def unserialize (mem : Memory) (_inBufferSize : Nat) (result : Option LogReport) : Unserialized :=
  if result.isSome then { returned := false, result, reads := [] }
  else
    let logType := BitVec.ofNat 32 (ofBytes (window mem 0 4))
    let date := BitVec.ofNat 64 (ofBytes (window mem 4 8))
    let procID := BitVec.ofNat 32 (ofBytes (window mem 12 4))
    let (source, afterSource, sourceReads) := readString mem 16
    let (topic, afterTopic, topicReads) := readString mem afterSource
    let (details, _, detailsReads) := readString mem afterTopic
    { returned := true
      result := some { logType, topic, date, procID, source, details }
      reads := [(0, 4), (4, 8), (12, 4)] ++ sourceReads ++ topicReads ++ detailsReads }

/-- `getFormattedReport` under a given `asctime` of `localtime`, which may have none for a date. -/
def getFormattedReport (r : LogReport) (asctime : BitVec 64 → Option Str) (severityMsg : Str) :
    Option Str :=
  (asctime r.date).map fun generatedOn =>
    literal "\n********* Incoming " ++ severityMsg ++ literal " Log Report *********" ++
      literal "\n* Generated on:\t" ++ generatedOn ++
      literal "* From Source:\t" ++ r.source ++
      literal "\n* Process ID:\t" ++ literal (toString r.procID.toInt) ++
      literal "\n* Title:\t" ++ r.topic ++
      literal "\n* Body:\n" ++ r.details ++
      literal "\n*********************************************\n"

/-- The size of a report in bytes. -/
def encodedSize (r : LogReport) : Nat :=
  28 + r.source.length + r.topic.length + r.details.length

/-- The layout that writer and reader have in common. -/
def encoding (r : LogReport) : List UInt8 :=
  toBytes 4 r.logType.toNat ++ (toBytes 8 r.date.toNat ++ (toBytes 4 r.procID.toNat ++
    ((toBytes 4 r.source.length ++ r.source) ++ ((toBytes 4 r.topic.length ++ r.topic) ++
      (toBytes 4 r.details.length ++ r.details)))))

variable {r : LogReport}

/-- Where each field of a report is found. -/
theorem holds_encoding {mem : Memory} : Holds mem 0 r.encoding ↔
    Holds mem 0 (toBytes 4 r.logType.toNat) ∧ Holds mem 4 (toBytes 8 r.date.toNat) ∧
      Holds mem 12 (toBytes 4 r.procID.toNat) ∧
      Holds mem 16 (toBytes 4 r.source.length ++ r.source) ∧
      Holds mem (16 + (4 + r.source.length)) (toBytes 4 r.topic.length ++ r.topic) ∧
      Holds mem (16 + (4 + r.source.length) + (4 + r.topic.length))
        (toBytes 4 r.details.length ++ r.details) := by
  have hparts : ∀ a b c d e f : List UInt8, Holds mem 0 (a ++ (b ++ (c ++ (d ++ (e ++ f))))) ↔
      Holds mem 0 a ∧ Holds mem a.length b ∧ Holds mem (a.length + b.length) c ∧
        Holds mem (a.length + b.length + c.length) d ∧
        Holds mem (a.length + b.length + c.length + d.length) e ∧
        Holds mem (a.length + b.length + c.length + d.length + e.length) f := by
    intro a b c d e f
    simp only [holds_append, Nat.zero_add]
  rw [encoding, hparts]
  simp only [List.length_append, length_toBytes, Nat.reduceAdd]

@[simp] theorem length_encoding (r : LogReport) : r.encoding.length = r.encodedSize := by
  simp only [encoding, encodedSize, List.length_append, length_toBytes]
  omega

theorem stringParts_flatten {s : Str} (h : s.length < unsignedMod) :
    (stringParts s).flatten = toBytes 4 s.length ++ s := by
  simp [stringParts, Nat.mod_eq_of_lt h]

theorem length_parts (r : LogReport) : r.parts.flatten.length =
    28 + r.source.length % unsignedMod + r.topic.length % unsignedMod +
      r.details.length % unsignedMod := by
  have hstring : ∀ s : Str, (stringParts s).flatten.length = 4 + s.length % unsignedMod := by
    intro s
    have hle := Nat.mod_le s.length unsignedMod
    simp only [stringParts, List.flatten_cons, List.flatten_nil, List.append_nil,
      List.length_append, length_toBytes, List.length_take]
    omega
  simp only [parts, List.flatten_append, List.length_append, hstring, List.flatten_cons,
    List.flatten_nil, List.length_nil, length_toBytes]
  omega

/-- The block has the size of the parts, in the arithmetic of `unsigned`. -/
theorem bufSize_eq (r : LogReport) : r.bufSize = r.parts.flatten.length % unsignedMod := by
  rw [length_parts, bufSize, unsignedMod]
  omega

theorem serialize_eq (r : LogReport) : r.serialize =
    if r.parts.flatten.length < unsignedMod then some r.parts.flatten else none := by
  rw [serialize, bufSize_eq]
  exact patches_sized (by decide) r.parts

/-- Strings that `unsigned` can measure are laid out whole. -/
theorem parts_flatten (hs : r.source.length < unsignedMod) (ht : r.topic.length < unsignedMod)
    (hd : r.details.length < unsignedMod) : r.parts.flatten = r.encoding := by
  simp only [parts, List.flatten_append, stringParts_flatten hs, stringParts_flatten ht,
    stringParts_flatten hd]
  simp [encoding]

theorem serialize_small (small : r.encodedSize < unsignedMod) : r.serialize = some r.encoding := by
  have hparts : r.parts.flatten = r.encoding := by
    rw [encodedSize] at small
    exact parts_flatten (by omega) (by omega) (by omega)
  rw [serialize_eq, hparts, length_encoding, if_pos small]

theorem bufSize_small (small : r.encodedSize < unsignedMod) : r.bufSize = r.encodedSize := by
  rw [encodedSize] at small ⊢
  rw [bufSize, Nat.mod_eq_of_lt (by omega)]
  omega

theorem ofNat_word {k : Nat} (word : BitVec (8 * k)) :
    BitVec.ofNat (8 * k) (ofBytes (toBytes k word.toNat)) = word := by
  have hpow : 256 ^ k = 2 ^ (8 * k) := by rw [Nat.pow_mul]
  rw [ofBytes_toBytes, hpow, Nat.mod_eq_of_lt word.isLt, BitVec.ofNat_toNat, BitVec.setWidth_eq]

theorem readString_holds {mem : Memory} {off : Nat} {s : Str} (hs : s.length < unsignedMod)
    (held : Holds mem off (toBytes 4 s.length ++ s)) : readString mem off =
      (s, (off + (s.length + 4)) % unsignedMod, [(off, 4), (off + 4, s.length)]) := by
  obtain ⟨hlength, hs'⟩ := holds_append.mp held
  rw [Holds, length_toBytes] at hlength
  rw [Holds, length_toBytes] at hs'
  have hsize : ofBytes (window mem off 4) = s.length := by
    rw [hlength, ofBytes_toBytes]
    exact Nat.mod_eq_of_lt hs
  simp only [readString, hsize, hs']

/-- A length that has been read is one of `unsigned`. -/
theorem readString_short (mem : Memory) (off : Nat) :
    (readString mem off).1.length < unsignedMod := by
  have hlt := ofBytes_lt (window mem off 4)
  rw [length_window] at hlt
  simpa [readString, unsignedMod] using hlt

theorem unserialize_short {mem : Memory} {size : Nat}
    (h : (unserialize mem size none).result = some r) :
    r.source.length < unsignedMod ∧ r.topic.length < unsignedMod ∧
      r.details.length < unsignedMod := by
  obtain rfl := Option.some.inj h
  exact ⟨readString_short .., readString_short .., readString_short ..⟩

/-- The reads of the encoding of a report. -/
def sequentialReads (r : LogReport) : Reads :=
  let topicAt := 16 + (4 + r.source.length)
  let detailsAt := topicAt + (4 + r.topic.length)
  [(0, 4), (4, 8), (12, 4), (16, 4), (16 + 4, r.source.length), (topicAt, 4),
    (topicAt + 4, r.topic.length), (detailsAt, 4), (detailsAt + 4, r.details.length)]

theorem consecutive_sequentialReads (r : LogReport) :
    Consecutive 0 r.sequentialReads r.encodedSize := by
  simp only [sequentialReads, Consecutive, encodedSize]
  grind

/-- A reader that starts on the encoding of a report finds the report. -/
theorem unserialize_holds {mem : Memory} {size : Nat} (small : r.encodedSize < unsignedMod)
    (held : Holds mem 0 r.encoding) :
    unserialize mem size none =
      { returned := true
        result := some r
        reads := r.sequentialReads } := by
  rw [encodedSize, unsignedMod] at small
  obtain ⟨htype, hdate, hproc, hsource, htopic, hdetails⟩ := holds_encoding.mp held
  rw [Holds, length_toBytes] at htype hdate hproc
  have hafterSource : (16 + (r.source.length + 4)) % unsignedMod = 16 + (4 + r.source.length) := by
    rw [unsignedMod]
    omega
  have hafterTopic : (16 + (4 + r.source.length) + (r.topic.length + 4)) % unsignedMod =
      16 + (4 + r.source.length) + (4 + r.topic.length) := by
    rw [unsignedMod]
    omega
  have hreadSource := readString_holds (by unfold unsignedMod; omega) hsource
  have hreadTopic := readString_holds (by unfold unsignedMod; omega) htopic
  have hreadDetails := readString_holds (by unfold unsignedMod; omega) hdetails
  rw [hafterSource] at hreadSource
  rw [hafterTopic] at hreadTopic
  have htypeWord := ofNat_word (k := 4) r.logType
  have hdateWord := ofNat_word (k := 8) r.date
  have hprocWord := ofNat_word (k := 4) r.procID
  simp only [Nat.reduceMul] at htypeWord hdateWord hprocWord
  simp only [unserialize, htype, hdate, hproc, hreadSource, hreadTopic, hreadDetails, htypeWord,
    hdateWord, hprocWord]
  rfl

/-- **Round trip.** A report whose encoding `unsigned` can measure is what `unserialize`
makes of the block and the size that `serialize` returns, whatever lies beyond the block,
and it reads each byte of the block once, in order, and no other. -/
theorem unserialize_serialize (r : LogReport) (small : r.encodedSize < unsignedMod) :
    ∃ bytes, r.serialize = some bytes ∧ bytes.length = r.bufSize ∧ ∀ beyond,
      (unserialize (block bytes beyond) r.bufSize none).returned = true ∧
        (unserialize (block bytes beyond) r.bufSize none).result = some r ∧
        (unserialize (block bytes beyond) r.bufSize none).reads.flatMap
          (fun x => List.range' x.1 x.2) = List.range bytes.length := by
  refine ⟨r.encoding, serialize_small small, by simp [bufSize_small small], fun beyond => ?_⟩
  rw [unserialize_holds small (holds_block r.encoding beyond)]
  refine ⟨rfl, rfl, ?_⟩
  rw [(consecutive_sequentialReads r).flatMap_range', length_encoding, List.range_eq_range',
    Nat.sub_zero]

/-- A report on a full disk, with a NUL in its source. -/
def fullDisk : LogReport where
  logType := LogType.alert.code
  topic := [68, 105, 115, 107]
  date := 1316131200
  procID := 4711
  source := [115, 0, 49]
  details := []

theorem unserialize_serialize_fullDisk : fullDisk.encodedSize < unsignedMod ∧
    ∃ bytes, fullDisk.serialize = some bytes ∧ bytes.length = fullDisk.bufSize ∧ ∀ beyond,
      (unserialize (block bytes beyond) fullDisk.bufSize none).returned = true ∧
        (unserialize (block bytes beyond) fullDisk.bufSize none).result = some fullDisk ∧
        (unserialize (block bytes beyond) fullDisk.bufSize none).reads.flatMap
          (fun x => List.range' x.1 x.2) = List.range bytes.length :=
  ⟨by decide, unserialize_serialize fullDisk (by decide)⟩

/-- The offset behind a string, where it and the length before it are inside the block. -/
def skipString (bytes : List UInt8) (off : Nat) : Option Nat :=
  let next := off + (4 + ofBytes ((bytes.drop off).take 4))
  if off + 4 ≤ bytes.length ∧ next ≤ bytes.length then some next else none

/-- Three strings from offset 16 on, the last of which ends with the block. -/
def Framed (bytes : List UInt8) : Prop :=
  bytes.length < unsignedMod ∧
    ((skipString bytes 16).bind fun topicAt =>
      (skipString bytes topicAt).bind fun detailsAt => skipString bytes detailsAt) =
        some bytes.length

instance (bytes : List UInt8) : Decidable (Framed bytes) :=
  inferInstanceAs (Decidable (_ ∧ _))

/-- What is asked of an `unserialize` of untrusted bytes. -/
structure Rejects (bytes : List UInt8) (u : Unserialized) : Prop where
  inside : ∀ x ∈ u.reads, ∀ i < x.2, x.1 + i < bytes.length
  exact : u.returned = true → ∃ r, u.result = some r ∧ r.serialize = some bytes
  rejected : u.returned = false → u.result = none

variable {bytes : List UInt8}

theorem skipString_iff (beyond : Memory) {off next : Nat} : skipString bytes off = some next ↔
    ∃ s : Str, s.length < unsignedMod ∧ Holds (block bytes beyond) off (toBytes 4 s.length ++ s) ∧
      next = off + (4 + s.length) ∧ next ≤ bytes.length := by
  constructor
  · intro h
    simp only [skipString, Option.ite_none_right_eq_some, Option.some.injEq] at h
    obtain ⟨⟨hword, hnext⟩, rfl⟩ := h
    rw [← window_block beyond hword] at hnext ⊢
    have hsize := ofBytes_lt (window (block bytes beyond) off 4)
    rw [length_window] at hsize
    refine ⟨window (block bytes beyond) (off + 4) (ofBytes (window (block bytes beyond) off 4)),
      by rwa [length_window], ?_, by rw [length_window], hnext⟩
    rw [holds_append, length_window, length_toBytes]
    refine ⟨?_, holds_window ..⟩
    have hback := toBytes_ofBytes (window (block bytes beyond) off 4)
    rw [length_window] at hback
    rw [hback]
    exact holds_window ..
  · rintro ⟨s, hs, held, rfl, hnext⟩
    obtain ⟨hlength, -⟩ := holds_append.mp held
    have hword : off + 4 ≤ bytes.length := by omega
    rw [Holds, length_toBytes, window_block beyond hword] at hlength
    have hsize : ofBytes ((bytes.drop off).take 4) = s.length := by
      rw [hlength, ofBytes_toBytes]
      exact Nat.mod_eq_of_lt hs
    rw [skipString, hsize, if_pos ⟨hword, hnext⟩]

/-- A word in memory is the encoding of some word. -/
theorem exists_word (mem : Memory) (off k : Nat) :
    ∃ word : BitVec (8 * k), Holds mem off (toBytes k word.toNat) := by
  refine ⟨BitVec.ofNat (8 * k) (ofBytes (window mem off k)), ?_⟩
  have hlt := ofBytes_lt (window mem off k)
  have hback := toBytes_ofBytes (window mem off k)
  rw [length_window] at hlt hback
  have hpow : 256 ^ k = 2 ^ (8 * k) := by rw [Nat.pow_mul]
  rw [BitVec.toNat_ofNat, Nat.mod_eq_of_lt (by omega), hback]
  exact holds_window ..

/-- The blocks that are framed are the encodings. -/
theorem framed_iff : Framed bytes ↔
    ∃ r : LogReport, bytes = r.encoding ∧ r.encodedSize < unsignedMod := by
  constructor
  · intro framed
    have hwhole := holds_block bytes fun _ => 0
    obtain ⟨hlt, h⟩ := framed
    simp only [Option.bind_eq_some_iff, skipString_iff fun _ => 0] at h
    generalize block bytes (fun _ => 0) = mem at h hwhole
    obtain ⟨_, ⟨source, -, hsource, rfl, -⟩, _, ⟨topic, -, htopic, rfl, -⟩, details, -, hdetails,
      hlength, -⟩ := h
    obtain ⟨logType, hlogType⟩ := exists_word mem 0 4
    obtain ⟨date, hdate⟩ := exists_word mem 4 8
    obtain ⟨procID, hprocID⟩ := exists_word mem 12 4
    let r : LogReport := { logType, topic, date, procID, source, details }
    have hr : Holds mem 0 r.encoding :=
      holds_encoding.mpr ⟨hlogType, hdate, hprocID, hsource, htopic, hdetails⟩
    have hsize : r.encodedSize = bytes.length := by
      rw [hlength]
      simp only [encodedSize, r]
      omega
    rw [Holds, length_encoding, hsize] at hr
    rw [Holds, hr] at hwhole
    exact ⟨r, hwhole.symm, hsize ▸ hlt⟩
  · rintro ⟨r, rfl, small⟩
    obtain ⟨-, -, -, hsource, htopic, hdetails⟩ :=
      holds_encoding.mp (holds_block r.encoding fun _ => 0)
    have hlength : r.encoding.length = r.encodedSize := length_encoding r
    have hbounds : r.source.length < unsignedMod ∧ r.topic.length < unsignedMod ∧
        r.details.length < unsignedMod := by
      rw [encodedSize] at small
      omega
    obtain ⟨hs, ht, hd⟩ := hbounds
    rw [encodedSize] at hlength
    refine ⟨by rwa [length_encoding], ?_⟩
    simp only [Option.bind_eq_some_iff, skipString_iff fun _ => 0]
    refine ⟨_, ⟨_, hs, hsource, rfl, by omega⟩, _, ⟨_, ht, htopic, rfl, by omega⟩, _, hd, hdetails,
      by omega, Nat.le_refl _⟩

/-- **Malformed blocks.** `unserialize` never looks at the size it is given. It stays in the
block, and tells an encoding from anything else, exactly where the three lengths it meets
happen to fill the block. -/
theorem rejects_iff_framed (bytes : List UInt8) (beyond : Memory) :
    Rejects bytes (unserialize (block bytes beyond) bytes.length none) ↔ Framed bytes := by
  constructor
  · intro h
    obtain ⟨r, hresult, hserialize⟩ := h.exact rfl
    obtain ⟨hs, ht, hd⟩ := unserialize_short hresult
    rw [serialize_eq, parts_flatten hs ht hd, Option.ite_none_right_eq_some,
      length_encoding] at hserialize
    exact framed_iff.mpr ⟨r, (Option.some.inj hserialize.2).symm, hserialize.1⟩
  · intro framed
    obtain ⟨r, rfl, small⟩ := framed_iff.mp framed
    rw [unserialize_holds small (holds_block r.encoding beyond)]
    constructor
    · intro x hx i hi
      have hinside := (consecutive_sequentialReads r).inside hx
      rw [length_encoding]
      omega
    · intro _
      exact ⟨r, rfl, serialize_small small⟩
    · intro h
      simp at h

/-- A byte more than the last length says. -/
example : Framed fullDisk.encoding ∧ ¬ Framed (fullDisk.encoding ++ [0]) := by decide

/-- An empty block, of which every read is outside, is returned as a report. -/
theorem empty_accepted :
    (unserialize (block [] fun _ => 0) 0 none).returned = true ∧
      ¬ Rejects [] (unserialize (block [] fun _ => 0) 0 none) := by
  constructor
  · rfl
  · intro h
    exact Nat.not_lt_zero 0 (h.inside (0, 4) (List.mem_cons_self ..) 0 (by decide))

end LogReport

end Netbroker
