import Mathlib.Data.List.AList
import Mathlib.Logic.Function.Basic
import Netbroker.Transition.Machine

/-!
# The table of database records

`CDBTable` caches records by a number. A record that is inserted gets a number of its own, -1,
-2 and so on, a record that is loaded the one in its `ID_REC`, and callers use whatever number
`InsertItem` has returned to them or the database knows.

`numInsertedElement` and `NumRows` are 32 bits wide, and they are integers here. No call takes
an entry out of `TableRows`, so an insertion leaves an entry under a number of its own, and a
row is counted for such an insertion or for a record that the database's manager has made and
that nobody frees. The code is for an address space of 32 bits, in which there is no room for
2³¹ entries or records: neither number comes to its end.
-/

namespace Netbroker

open Transition

/-- Where a record is. -/
abbrev RecordAddress := ℕ

/-- The values of `RecordStatus` that the calls below give. -/
inductive RecordStatus where
  | original
  | inserted
  | deleted
  deriving DecidableEq, Repr

/-- What the database manager reads. -/
structure DatabaseRow where
  idRec : Int
  deriving DecidableEq, Repr

/-- The members that the calls use. The status is inside the records. -/
structure CDBTable where
  tableRows : AList fun _ : Int => RecordAddress
  numRows : Int
  numInsertedElement : Int
  recordStatus : RecordAddress → RecordStatus

namespace CDBTable

/-- The number of entries in `TableRows`. -/
def size (t : CDBTable) : ℕ := t.tableRows.entries.length

/-- `std::map::insert`, which leaves an entry of the same key alone. -/
def insertNew (rows : AList fun _ : Int => RecordAddress) (key : Int) (record : RecordAddress) :
    AList fun _ : Int => RecordAddress :=
  if key ∈ rows then rows else rows.insert key record

def insert (t : CDBTable) (key : Int) (record : RecordAddress) : CDBTable :=
  { t with tableRows := insertNew t.tableRows key record }

def setStatus (t : CDBTable) (record : RecordAddress) (status : RecordStatus) : CDBTable :=
  { t with recordStatus := Function.update t.recordStatus record status }

def countRow (t : CDBTable) : CDBTable := { t with numRows := t.numRows + 1 }

def insertRow (t : CDBTable) (row : RecordAddress) : Bool × CDBTable :=
  let t := t.setStatus row .inserted
  let key := t.numInsertedElement
  (true, (insert { t with numInsertedElement := key - 1 } key row).countRow)

/-- `idRec` is what the row's `ID_REC` is at the call. -/
def insertItem (t : CDBTable) (row : RecordAddress) (idRec : Int) : Int × CDBTable :=
  let (inserted, t) := t.insertRow row
  if inserted then (idRec, t) else (0, t)

/-- The record found is assigned to a local pointer only. There is no meaning where none is
found: an end iterator is dereferenced. -/
def updateRow (t : CDBTable) (_row : RecordAddress) (index : Int) : Option (Bool × CDBTable) :=
  (t.tableRows.lookup index).map fun _ => (true, t)

def updateItem (t : CDBTable) (row : RecordAddress) (idRow : Int) : Option (Bool × CDBTable) :=
  t.updateRow row idRow

variable (getRow : Int → Option DatabaseRow)

/-- `GetRow`, `none` being `NULL`. A number that the table does not hold is looked up in the
database, by its manager's `GetRow`; `fresh` is where the record is made then. -/
def readRow (t : CDBTable) (index : Int) (fresh : RecordAddress) :
    Option RecordAddress × CDBTable :=
  match t.tableRows.lookup index with
  | some record => (some record, t)
  | none =>
      match getRow index with
      | none => (none, t)
      | some row => (some fresh, ((t.setStatus fresh .original).insert row.idRec fresh).countRow)

def getItem (t : CDBTable) (idRow : Int) (fresh : RecordAddress) :
    Option RecordAddress × CDBTable :=
  t.readRow getRow idRow fresh

def deleteRow (t : CDBTable) (row : RecordAddress) : Bool × CDBTable :=
  (true, t.setStatus row .deleted)

def deleteItem (t : CDBTable) (idRow : Int) (fresh : RecordAddress) : Bool × CDBTable :=
  match t.getItem getRow idRow fresh with
  | (some element, t) => t.deleteRow element
  | (none, t) => (false, t)

section Effects

variable {t t' : CDBTable} {key j : Int} {record : RecordAddress}

theorem lookup_insertNew {rows : AList fun _ : Int => RecordAddress} (h : key ∉ rows) (j : Int) :
    (insertNew rows key record).lookup j = if j = key then some record else rows.lookup j := by
  rw [insertNew, if_neg h]
  by_cases hj : j = key
  · subst hj
    rw [if_pos rfl]
    exact AList.lookup_insert _
  · rw [if_neg hj]
    exact AList.lookup_insert_ne hj

theorem length_insertNew (rows : AList fun _ : Int => RecordAddress) (key : Int)
    (record : RecordAddress) :
    (insertNew rows key record).entries.length =
      if key ∈ rows then rows.entries.length else rows.entries.length + 1 := by
  by_cases h : key ∈ rows
  · rw [insertNew, if_pos h, if_pos h]
  · rw [insertNew, if_neg h, if_neg h, AList.entries_insert_of_notMem h, List.length_cons]

/-- The cached record, or else a new one if the database has the row. -/
theorem getItem_fst (j : Int) (fresh : RecordAddress) :
    (t.getItem getRow j fresh).1 =
      (t.tableRows.lookup j).or ((getRow j).map fun _ => fresh) := by
  rw [getItem, readRow]
  cases t.tableRows.lookup j with
  | some record => rfl
  | none =>
      cases getRow j with
      | none => rfl
      | some row => rfl

/-- Two tables that answer alike, wherever a new record is made, cache alike. -/
theorem getItem_fst_iff :
    (∀ fresh, (t'.getItem getRow j fresh).1 = (t.getItem getRow j fresh).1) ↔
      t'.tableRows.lookup j = t.tableRows.lookup j := by
  simp only [getItem_fst]
  constructor
  · intro h
    -- a new record can be made elsewhere than a cached one is
    have hnot : ∀ record : RecordAddress, ¬ ∀ fresh : RecordAddress,
        some record = (getRow j).map fun _ => fresh := by
      intro record hall
      have hzero := hall record
      have hone := hall (record + 1)
      cases hrow : getRow j with
      | none =>
          rw [hrow] at hzero
          cases hzero
      | some row =>
          rw [hrow] at hone
          exact absurd (Option.some.inj hone) (Nat.ne_of_lt (Nat.lt_succ_self record))
    cases hl' : t'.tableRows.lookup j with
    | some record' =>
        cases hl : t.tableRows.lookup j with
        | some record =>
            have hsame := h 0
            rw [hl', hl] at hsame
            exact hsame
        | none =>
            refine absurd (fun fresh => ?_) (hnot record')
            have hsame := h fresh
            rw [hl', hl] at hsame
            exact hsame
    | none =>
        cases hl : t.tableRows.lookup j with
        | some record =>
            refine absurd (fun fresh => ?_) (hnot record)
            have hsame := h fresh
            rw [hl', hl] at hsame
            exact hsame.symm
        | none => rfl
  · intro h fresh
    rw [h]

/-- What `GetItem` leaves behind: a table as before, or one with the row that was read. -/
theorem getItem_cases (t : CDBTable) (j : Int) (fresh : RecordAddress) :
    ((j ∈ t.tableRows ∨ getRow j = none) ∧ (t.getItem getRow j fresh).2 = t) ∨
      ∃ row, j ∉ t.tableRows ∧ getRow j = some row ∧
        (t.getItem getRow j fresh).2 =
          ((t.setStatus fresh .original).insert row.idRec fresh).countRow := by
  rw [getItem, readRow]
  cases hl : t.tableRows.lookup j with
  | some record =>
      left
      exact ⟨.inl (AList.lookup_isSome.mp (by rw [hl]; rfl)), rfl⟩
  | none =>
      have hnot : j ∉ t.tableRows := AList.lookup_eq_none.mp hl
      cases hrow : getRow j with
      | none => exact .inl ⟨.inr rfl, rfl⟩
      | some row => exact .inr ⟨row, hnot, rfl, rfl⟩

/-- `DeleteItem` marks the record, and does to the rows what `GetItem` does. -/
theorem deleteItem_eq (t : CDBTable) (j : Int) (fresh : RecordAddress) :
    (t.deleteItem getRow j fresh).2.tableRows = (t.getItem getRow j fresh).2.tableRows ∧
      (t.deleteItem getRow j fresh).2.numRows = (t.getItem getRow j fresh).2.numRows := by
  rw [deleteItem]
  rcases t.getItem getRow j fresh with ⟨_ | element, t'⟩
  · exact ⟨rfl, rfl⟩
  · exact ⟨rfl, rfl⟩

end Effects

end CDBTable

/-- A table. Beside it, the record that `UpdateItem` was last called with for a number, unless
another call has changed what it stands for since. -/
structure TableUse where
  table : CDBTable
  updated : Int → Option RecordAddress

inductive TableCall where
  | insertItem (row : RecordAddress) (idRec : Int)
  | updateItem (row : RecordAddress) (idRow : Int)
  | deleteItem (idRow : Int) (fresh : RecordAddress)
  | getItem (idRow : Int) (fresh : RecordAddress)
  deriving DecidableEq, Repr

inductive TableAnswer where
  | inserted (idRow : Int)
  | updated (done : Bool)
  | deleted (done : Bool)
  | item (record : Option RecordAddress)
  /-- The call had no meaning. -/
  | undefined
  deriving DecidableEq, Repr

/-- The number that a call is about: an insertion is about the one it returns. -/
def TableCall.idRow : TableCall → Int
  | .insertItem _ idRec => idRec
  | .updateItem _ idRow | .deleteItem idRow _ | .getItem idRow _ => idRow

namespace TableUse

variable (getRow : Int → Option DatabaseRow)

def call (s : TableUse) : TableCall → TableUse × TableAnswer
  | .insertItem row idRec =>
      let (idRow, t) := s.table.insertItem row idRec
      ({ table := t, updated := Function.update s.updated idRow none }, .inserted idRow)
  | .updateItem row idRow =>
      match s.table.updateItem row idRow with
      | none => (s, .undefined)
      | some (done, t) =>
          let record := if done then some row else none
          ({ table := t, updated := Function.update s.updated idRow record }, .updated done)
  | .deleteItem idRow fresh =>
      let (done, t) := s.table.deleteItem getRow idRow fresh
      ({ table := t, updated := Function.update s.updated idRow none }, .deleted done)
  | .getItem idRow fresh =>
      let (record, t) := s.table.getItem getRow idRow fresh
      ({ s with table := t }, .item record)

/-- Calls on a table from its construction on. -/
def machine : Machine TableUse TableCall TableAnswer where
  init s := s.table.tableRows = ∅ ∧ s.table.numRows = 0 ∧ s.table.numInsertedElement = -1 ∧
    s.updated = fun _ => none
  step s e := some (s.call getRow e)

/-- `GetItem` returns the record, wherever a new one would be made. -/
def Returns (t : CDBTable) (idRow : Int) (record : Option RecordAddress) : Prop :=
  ∀ fresh, (t.getItem getRow idRow fresh).1 = record

/-- What a table promises with each call: what was inserted or updated is read back, other numbers
are left alone, and rows are counted. -/
structure ReadsBack (s : TableUse) (e : TableCall) (s' : TableUse) (answer : TableAnswer) :
    Prop where
  inserted : ∀ row idRec idRow, e = .insertItem row idRec → answer = .inserted idRow →
    Returns getRow s'.table idRow (some row)
  absent : ∀ row idRow, e = .updateItem row idRow → idRow ∉ s.table.tableRows →
    answer = .updated false
  updated : ∀ idRow row, s'.updated idRow = some row → Returns getRow s'.table idRow (some row)
  others : ∀ idRow fresh, idRow ≠ e.idRow →
    (s'.table.getItem getRow idRow fresh).1 = (s.table.getItem getRow idRow fresh).1
  count : s'.table.numRows = s'.table.size

/-- A record is inserted with the number that it is about to get, an update is with the record
that the table has already, and the database knows its rows by their `ID_REC`. -/
def Agrees (s : TableUse) : TableCall → Prop
  | .insertItem _ idRec =>
      idRec = s.table.numInsertedElement ∧ s.table.numInsertedElement ∉ s.table.tableRows
  | .updateItem row idRow => s.table.tableRows.lookup idRow = some row
  | .deleteItem idRow _ | .getItem idRow _ =>
      idRow ∉ s.table.tableRows → ∀ row ∈ getRow idRow, row.idRec = idRow

instance (s : TableUse) : ∀ e, Decidable (Agrees getRow s e)
  | .insertItem _ _ => inferInstanceAs (Decidable (_ ∧ _))
  | .updateItem _ _ => inferInstanceAs (Decidable (_ = _))
  | .deleteItem _ _ | .getItem _ _ => inferInstanceAs (Decidable (_ → _))

section Steps

variable {s s' : TableUse} {e : TableCall} {answer : TableAnswer} {key idRow : Int}
  {record row fresh : RecordAddress}

/-- The rows are counted, and what was updated is cached. -/
structure Cached (s : TableUse) : Prop where
  count : s.table.numRows = s.table.size
  updated : ∀ idRow row, s.updated idRow = some row → s.table.tableRows.lookup idRow = some row

theorem returns_iff {t : CDBTable} :
    Returns getRow t idRow (some record) ↔ t.tableRows.lookup idRow = some record := by
  constructor
  · intro h
    cases hl : t.tableRows.lookup idRow with
    | some record' =>
        have hsame := h 0
        rw [CDBTable.getItem_fst, hl] at hsame
        exact hsame
    | none =>
        have hsame := h (record + 1)
        rw [CDBTable.getItem_fst, hl] at hsame
        obtain ⟨_, -, heq⟩ := Option.map_eq_some_iff.mp hsame
        exact absurd heq (Nat.succ_ne_self record)
  · intro h fresh
    rw [CDBTable.getItem_fst, h]
    rfl

theorem ReadsBack.cached (h : ReadsBack getRow s e s' answer) : Cached s' where
  count := h.count
  updated idRow row hupdated := (returns_iff getRow).mp (h.updated idRow row hupdated)

theorem ReadsBack.lookup (h : ReadsBack getRow s e s' answer) (hj : key ≠ e.idRow) :
    s'.table.tableRows.lookup key = s.table.tableRows.lookup key :=
  (CDBTable.getItem_fst_iff getRow).mp fun fresh => h.others key fresh hj

/-- A further row is counted and seen under one number only, exactly if that is the number it gets
and is free. -/
theorem grown_iff (hs : Cached s)
    (hrows : s'.table.tableRows = CDBTable.insertNew s.table.tableRows key record)
    (hnum : s'.table.numRows = s.table.numRows + 1) :
    ((∀ j, j ≠ idRow → s'.table.tableRows.lookup j = s.table.tableRows.lookup j) ∧
      s'.table.numRows = s'.table.size) ↔ idRow = key ∧ key ∉ s.table.tableRows := by
  have hsize : s'.table.size =
      if key ∈ s.table.tableRows then s.table.size else s.table.size + 1 := by
    rw [CDBTable.size, hrows, CDBTable.length_insertNew]
    rfl
  rw [hnum, hs.count, hsize]
  constructor
  · rintro ⟨hothers, hcount⟩
    have hnot : key ∉ s.table.tableRows := by
      intro hmem
      rw [if_pos hmem] at hcount
      omega
    refine ⟨?_, hnot⟩
    by_contra hne
    have hkey := hothers key fun heq => hne heq.symm
    rw [hrows, CDBTable.lookup_insertNew hnot, if_pos rfl, AList.lookup_eq_none.mpr hnot] at hkey
    cases hkey
  · rintro ⟨rfl, hnot⟩
    refine ⟨fun j hj => ?_, ?_⟩
    · rw [hrows, CDBTable.lookup_insertNew hnot, if_neg hj]
    · rw [if_neg hnot]
      omega

/-- A call that adds nothing to the rows. -/
theorem readsBack_of_same (hs : Cached s) (hrows : s'.table.tableRows = s.table.tableRows)
    (hnum : s'.table.numRows = s.table.numRows)
    (hinserted : ∀ idRow, answer ≠ .inserted idRow)
    (habsent : ∀ row idRow, e = .updateItem row idRow → idRow ∉ s.table.tableRows →
      answer = .updated false)
    (hupdated : ∀ idRow row, s'.updated idRow = some row →
      s.table.tableRows.lookup idRow = some row) : ReadsBack getRow s e s' answer where
  inserted _ _ idRow _ h := absurd h (hinserted idRow)
  absent := habsent
  updated idRow row h := (returns_iff getRow).mpr (hrows ▸ hupdated idRow row h)
  others idRow fresh _ := by rw [CDBTable.getItem_fst, CDBTable.getItem_fst, hrows]
  count := by
    rw [hnum, hs.count, CDBTable.size, CDBTable.size, hrows]

/-- What is forgotten about one number leaves the others cached. -/
theorem Cached.forget (hs : Cached s) {j : Int} {r : RecordAddress}
    (h : Function.update s.updated idRow none j = some r) :
    j ≠ idRow ∧ s.table.tableRows.lookup j = some r := by
  have hj : j ≠ idRow := by
    rintro rfl
    rw [Function.update_self] at h
    cases h
  rw [Function.update_of_ne hj] at h
  exact ⟨hj, hs.updated j r h⟩

theorem insertItem_readsBack (hs : Cached s) {idRec : Int}
    (hcall : s.call getRow (.insertItem row idRec) = (s', answer)) :
    ReadsBack getRow s (.insertItem row idRec) s' answer ↔
      Agrees getRow s (.insertItem row idRec) := by
  have hrows : s'.table.tableRows =
      CDBTable.insertNew s.table.tableRows s.table.numInsertedElement row := by
    rw [← (Prod.mk.inj hcall).1]
    rfl
  have hnum : s'.table.numRows = s.table.numRows + 1 := by
    rw [← (Prod.mk.inj hcall).1]
    rfl
  have hforget : s'.updated = Function.update s.updated idRec none := by
    rw [← (Prod.mk.inj hcall).1]
  constructor
  · intro h
    exact (grown_iff hs hrows hnum).mp ⟨fun j hj => h.lookup getRow hj, h.count⟩
  · intro h
    obtain ⟨hothers, hcount⟩ := (grown_iff hs hrows hnum).mpr h
    obtain ⟨hidRec, hnot⟩ := h
    refine
      { inserted := ?_
        absent := nofun
        updated := ?_
        others := fun j fresh hj => (CDBTable.getItem_fst_iff getRow).mpr (hothers j hj) fresh
        count := hcount }
    · rintro row' idRec' idRow hinsert hanswer
      obtain ⟨rfl, rfl⟩ := TableCall.insertItem.inj hinsert
      obtain rfl := TableAnswer.inserted.inj (((Prod.mk.inj hcall).2).trans hanswer)
      apply (returns_iff getRow).mpr
      rw [hrows, CDBTable.lookup_insertNew hnot]
      exact if_pos hidRec
    · intro j r hj
      rw [hforget] at hj
      obtain ⟨hne, hcached⟩ := hs.forget hj
      apply (returns_iff getRow).mpr
      rw [hothers j hne]
      exact hcached

theorem updateItem_readsBack (hs : Cached s)
    (hcall : s.call getRow (.updateItem row idRow) = (s', answer)) :
    ReadsBack getRow s (.updateItem row idRow) s' answer ↔
      Agrees getRow s (.updateItem row idRow) := by
  cases hl : s.table.tableRows.lookup idRow with
  | none =>
      have hundefined : s.call getRow (.updateItem row idRow) = (s, .undefined) := by
        rw [call, CDBTable.updateItem, CDBTable.updateRow, hl]
        rfl
      obtain ⟨rfl, rfl⟩ := Prod.mk.inj (hundefined.symm.trans hcall)
      constructor
      · intro h
        cases h.absent row idRow rfl (AList.lookup_eq_none.mp hl)
      · intro h
        rw [Agrees, hl] at h
        cases h
  | some cached =>
      have hupdated : s.call getRow (.updateItem row idRow) =
          ({ s with updated := Function.update s.updated idRow (some row) }, .updated true) := by
        rw [call, CDBTable.updateItem, CDBTable.updateRow, hl]
        rfl
      obtain ⟨rfl, rfl⟩ := Prod.mk.inj (hupdated.symm.trans hcall)
      constructor
      · intro h
        apply (returns_iff getRow).mp
        exact h.updated idRow row (Function.update_self ..)
      · intro h
        refine readsBack_of_same getRow hs rfl rfl nofun ?_ ?_
        · rintro row' idRow' hupdate hnot
          obtain ⟨rfl, rfl⟩ := TableCall.updateItem.inj hupdate
          rw [AList.lookup_eq_none.mpr hnot] at hl
          cases hl
        · intro j r hj
          have hsome : Function.update s.updated idRow (some row) j = some r := hj
          by_cases heq : j = idRow
          · subst heq
            rw [Function.update_self] at hsome
            exact hsome ▸ h
          · rw [Function.update_of_ne heq] at hsome
            exact hs.updated j r hsome

/-- A number is read, by `GetItem` or on the way of `DeleteItem`. -/
theorem read_readsBack (hs : Cached s)
    (hrows : s'.table.tableRows = (s.table.getItem getRow idRow fresh).2.tableRows)
    (hnum : s'.table.numRows = (s.table.getItem getRow idRow fresh).2.numRows)
    (hinserted : ∀ idRow, answer ≠ .inserted idRow)
    (hcall : e = .deleteItem idRow fresh ∨ e = .getItem idRow fresh)
    (hupdated : ∀ j r, s'.updated j = some r → s.table.tableRows.lookup j = some r) :
    ReadsBack getRow s e s' answer ↔ Agrees getRow s e := by
  have hidRow : e.idRow = idRow := by
    obtain rfl | rfl := hcall
    · rfl
    · rfl
  have habsent : ∀ row idRow, e = .updateItem row idRow → idRow ∉ s.table.tableRows →
      answer = .updated false := by
    intro row idRow hupdate
    obtain rfl | rfl := hcall
    · cases hupdate
    · cases hupdate
  have hagrees : Agrees getRow s e ↔
      (idRow ∉ s.table.tableRows → ∀ row ∈ getRow idRow, row.idRec = idRow) := by
    obtain rfl | rfl := hcall
    · rfl
    · rfl
  rw [hagrees]
  obtain ⟨hno, hsame⟩ | ⟨read, hnot, hread, hadded⟩ :=
    CDBTable.getItem_cases getRow s.table idRow fresh
  · rw [hsame] at hrows hnum
    apply iff_of_true (readsBack_of_same getRow hs hrows hnum hinserted habsent hupdated)
    intro hnot row hrow
    obtain hmem | hnone := hno
    · exact absurd hmem hnot
    · rw [hnone] at hrow
      cases hrow
  · rw [hadded] at hrows hnum
    constructor
    · intro h _ row hrow
      rw [hread] at hrow
      obtain rfl := Option.some.inj hrow
      obtain ⟨heq, -⟩ := (grown_iff hs hrows hnum).mp
        ⟨fun j hj => h.lookup getRow (hidRow.symm ▸ hj), h.count⟩
      exact heq.symm
    · intro h
      have heq : read.idRec = idRow := h hnot read hread
      obtain ⟨hothers, hcount⟩ := (grown_iff hs hrows hnum).mpr ⟨heq.symm, heq.symm ▸ hnot⟩
      refine
        { inserted := fun _ _ idRow _ hanswer => absurd hanswer (hinserted idRow)
          absent := habsent
          updated := ?_
          others := fun j fresh hj =>
            (CDBTable.getItem_fst_iff getRow).mpr (hothers j (hidRow ▸ hj)) fresh
          count := hcount }
      intro j r hj
      have hcached := hupdated j r hj
      have hne : j ≠ idRow := by
        rintro rfl
        rw [AList.lookup_eq_none.mpr hnot] at hcached
        cases hcached
      apply (returns_iff getRow).mpr
      rw [hothers j hne]
      exact hcached

theorem call_readsBack (hs : Cached s) (hcall : s.call getRow e = (s', answer)) :
    ReadsBack getRow s e s' answer ↔ Agrees getRow s e := by
  cases e with
  | insertItem row idRec => exact insertItem_readsBack getRow hs hcall
  | updateItem row idRow => exact updateItem_readsBack getRow hs hcall
  | deleteItem idRow fresh =>
      obtain ⟨rfl, rfl⟩ := Prod.mk.inj hcall
      obtain ⟨hrows, hnum⟩ := CDBTable.deleteItem_eq getRow s.table idRow fresh
      refine read_readsBack getRow hs hrows hnum nofun (.inl rfl) ?_
      intro j r hj
      exact (hs.forget hj).2
  | getItem idRow fresh =>
      obtain ⟨rfl, rfl⟩ := Prod.mk.inj hcall
      exact read_readsBack getRow hs rfl rfl nofun (.inr rfl) hs.updated

/-- **Reading back.** A table reads back its own writes over a run exactly if every call in it
agrees about the numbers: see `Agrees`. -/
theorem readsBack_iff_agrees {s₀ : TableUse} (start : (machine getRow).init s₀)
    {trace : List (TableCall × TableAnswer)}
    (run : (machine getRow).Run (fun _ _ => True) s₀ trace s) :
    (machine getRow).EveryStep s₀ trace (ReadsBack getRow) ↔
      (machine getRow).Run (Agrees getRow) s₀ trace s := by
  apply run.everyStep_iff (I := Cached)
  · obtain ⟨hrows, hnum, -, hupdated⟩ := start
    refine ⟨?_, fun j r hj => ?_⟩
    · rw [hnum, CDBTable.size, hrows]
      rfl
    · rw [hupdated] at hj
      cases hj
  · intro a e b answer _ _ h
    exact h.cached getRow
  · intro a e b answer ha move
    exact call_readsBack getRow ha (Option.some.inj move)

end Steps

/-- A table after its construction. -/
def new : TableUse := ⟨⟨∅, 0, -1, fun _ => .original⟩, fun _ => none⟩

/-- A database of one row. -/
def oneRow : Int → Option DatabaseRow := fun n => if n = 7 then some ⟨7⟩ else none

/-- A row is inserted as number -1, updated with itself and deleted, and another is loaded. -/
theorem readsBack_of_agrees : ∃ trace s,
    (machine oneRow).Run (fun _ _ => True) new trace s ∧
    trace.map Prod.snd = [.inserted (-1), .item (some 40), .updated true, .deleted true,
      .item (some 41), .item none] ∧
    (machine oneRow).EveryStep new trace (ReadsBack oneRow) := by
  obtain ⟨trace, s, run, hanswers⟩ := Machine.Run.exists_of_exec (machine oneRow) (Agrees oneRow)
    new [.insertItem 40 (-1), .getItem (-1) 41, .updateItem 40 (-1), .deleteItem (-1) 41,
      .getItem 7 41, .getItem 8 42]
    (fun trace _ => trace.map Prod.snd = [.inserted (-1), .item (some 40), .updated true,
      .deleted true, .item (some 41), .item none]) (by decide)
  have free : (machine oneRow).Run (fun _ _ => True) new trace s := run.mono fun _ _ _ => trivial
  exact ⟨trace, s, free, hanswers,
    (readsBack_iff_agrees oneRow ⟨rfl, rfl, rfl, rfl⟩ free).mpr run⟩

/-- A record with the number 5 is inserted into an empty table, and not found under the number
that is returned; an update of a number that is not in the table has no meaning. -/
theorem inserted_not_returned :
    ((machine fun _ => none).Run (fun _ _ => True) new [(.insertItem 40 5, .inserted 5)]
        (new.call (fun _ => none) (.insertItem 40 5)).1 ∧
      ¬ (machine fun _ => none).EveryStep new [(.insertItem 40 5, .inserted 5)]
        (ReadsBack fun _ => none)) ∧
    ((machine fun _ => none).Run (fun _ _ => True) new [(.updateItem 40 5, .undefined)] new ∧
      ¬ (machine fun _ => none).EveryStep new [(.updateItem 40 5, .undefined)]
        (ReadsBack fun _ => none)) := by
  have move : (machine fun _ => none).step new (.insertItem 40 5) =
      some ((new.call (fun _ => none) (.insertItem 40 5)).1, .inserted 5) := rfl
  have move' : (machine fun _ => none).step new (.updateItem 40 5) = some (new, .undefined) := rfl
  refine ⟨⟨.single trivial move, fun h => ?_⟩, ⟨.single trivial move', fun h => ?_⟩⟩
  · have hreads := h [] _ _ [] _ _ rfl .nil move
    have hreturns := hreads.inserted 40 5 5 rfl rfl 0
    exact absurd hreturns (by decide)
  · have hreads := h [] _ _ [] _ _ rfl .nil move'
    cases hreads.absent 40 5 rfl (by decide)

end TableUse

end Netbroker
