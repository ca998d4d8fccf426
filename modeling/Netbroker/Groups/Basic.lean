import Netbroker.Container.SkipList
import Netbroker.Spread.Library

/-!
# Process groups

A daemon keeps for each group the daemons that have members of it, and for each of these
its members, all of them in skip lists. The members are private groups, `#name#daemon`.

The groups of a daemon change with the messages that it delivers and with the memberships of
the daemons. While a daemon gathers what other daemons know of the groups it keeps their
messages.

Names, daemons, groups, messages and the daemon's own state follow each other, each with the
comparisons by which its lists are kept. An alarm of the daemon is an `Exit`, and carries the
text that it is reported with.
-/

namespace Netbroker.Groups

open Spread

/-- `strncmp` of two strings that are shorter than its bound. -/
def strncmp : Str → Str → Int
  | [], [] => 0
  | [], _ :: _ => -1
  | _ :: _, [] => 1
  | a :: as, b :: bs => if a < b then -1 else if b < a then 1 else strncmp as bs

theorem strncmp_total : SkipList.Total strncmp := by
  constructor
  case eq_iff =>
    intro a
    induction a with
    | nil => intro b; cases b <;> simp [strncmp]
    | cons x xs ih =>
        intro b
        cases b with
        | nil => simp [strncmp]
        | cons y ys =>
            rw [strncmp]
            split
            · rename_i hlt
              have hne : x ≠ y := fun heq => UInt8.lt_irrefl y (heq ▸ hlt)
              simp [hne]
            · split
              · rename_i hlt
                have hne : x ≠ y := fun heq => UInt8.lt_irrefl y (heq ▸ hlt)
                simp [hne]
              · rename_i hlt hlt'
                rw [UInt8.lt_iff_toNat_lt] at hlt hlt'
                have heq : x = y := UInt8.toNat_inj.mp (by omega)
                rw [ih, heq]
                simp
  case swap =>
    intro a
    induction a with
    | nil => intro b; cases b <;> simp [strncmp]
    | cons x xs ih =>
        intro b
        cases b with
        | nil => simp [strncmp]
        | cons y ys =>
            rw [strncmp, strncmp]
            simp only [UInt8.lt_iff_toNat_lt]
            split
            · rw [if_neg (by omega)]
              simp
            · split
              · simp
              · exact ih ys
  case trans =>
    intro a
    induction a with
    | nil =>
        intro b c hab hbc
        cases c with
        | nil => cases b <;> simp [strncmp] at hab hbc
        | cons z zs => simp [strncmp]
    | cons x xs ih =>
        intro b c hab hbc
        cases b with
        | nil => simp [strncmp] at hab
        | cons y ys =>
            cases c with
            | nil => simp [strncmp] at hbc
            | cons z zs =>
                rw [strncmp] at hab hbc ⊢
                simp only [UInt8.lt_iff_toNat_lt] at hab hbc ⊢
                split at hab
                · split at hbc
                  · rw [if_pos (by omega)]
                    decide
                  · split at hbc
                    · cases hbc
                    · rw [if_pos (by omega)]
                      decide
                · split at hab
                  · cases hab
                  · split at hbc
                    · rw [if_pos (by omega)]
                      decide
                    · split at hbc
                      · cases hbc
                      · rw [if_neg (by omega), if_neg (by omega)]
                        exact ih ys zs hab hbc

def maxPrivateName : Nat := 10
def maxProcName : Nat := 20

/-- A character that names may have: beyond `#`, up to `~`. -/
def legalChar (c : UInt8) : Bool := 35 < c && c ≤ 126

/-- `G_private_to_names`: the name of the session, and that of its daemon. -/
def privateToNames : Str → Option (Str × Str)
  | [] => none
  | first :: rest =>
      let privateName := rest.takeWhile (· ≠ 35)
      match rest.dropWhile (· ≠ 35) with
      | [] => none
      | _ :: procName =>
          if first ≠ 35 || maxPrivateName < privateName.length || privateName.length < 1 ||
              maxProcName ≤ procName.length || procName.length < 1 then none
          else if privateName.all legalChar && procName.all legalChar then
            some (privateName, procName)
          else none

/-- The private group of a session. -/
def privateGroup (name procName : Str) : Str := ((35 :: name) ++ 35 :: procName).take (maxGroupName - 1)

abbrev ProcId := BitVec 32

structure Proc where
  name : Str
  id : ProcId
  deriving DecidableEq

/-- The configuration, in which each daemon has one address. -/
structure Conf where
  procs : List Proc

namespace Conf

/-- `Conf_proc_by_id`, the index only. -/
def index (conf : Conf) (id : ProcId) : Int :=
  match conf.procs.findIdx? fun p => p.id = id with
  | some i => i
  | none => -1

def procByName (conf : Conf) (name : Str) : Option Proc := conf.procs.find? fun p => p.name = name

end Conf

/-- `G_compare_proc_ids_by_conf`. -/
def compareProcIds (conf : Conf) (a b : ProcId) : Int :=
  let ia := conf.index a
  let ib := conf.index b
  if -1 < ia ∧ -1 < ib then ia - ib
  else if ia < 0 ∧ ib < 0 then
    if a = b then 0 else if a < b then -1 else 1
  else if ia < 0 then 1
  else if ib < 0 then -1
  else ia - ib

theorem Conf.index_inj {conf : Conf} {a b : ProcId} (h : 0 ≤ conf.index a)
    (heq : conf.index a = conf.index b) : a = b := by
  have hfound : ∀ {id : ProcId}, 0 ≤ conf.index id →
      ∃ i, conf.index id = (i : Nat) ∧ conf.procs[i]?.map Proc.id = some id := by
    intro id hid
    rw [index] at hid ⊢
    split at hid
    · rename_i i hi
      obtain ⟨hlt, hp, -⟩ := List.findIdx?_eq_some_iff_getElem.mp hi
      refine ⟨i, rfl, ?_⟩
      rw [List.getElem?_eq_getElem hlt]
      simpa using hp
    · cases hid
  obtain ⟨i, hi, ha⟩ := hfound h
  obtain ⟨j, hj, hb⟩ := hfound (heq ▸ h)
  obtain rfl : i = j := by omega
  exact Option.some.inj (ha.symm.trans hb)

theorem Conf.neg_one_le_index (conf : Conf) (id : ProcId) : -1 ≤ conf.index id := by
  rw [index]
  split <;> omega

theorem compareProcIds_total (conf : Conf) : SkipList.Total (compareProcIds conf) := by
  have hlow := conf.neg_one_le_index
  constructor
  case eq_iff =>
    intro a b
    have ha := hlow a
    have hb := hlow b
    constructor
    · intro h
      by_cases hin : -1 < conf.index a
      · refine conf.index_inj (by omega) ?_
        grind [compareProcIds]
      · grind [compareProcIds]
    · rintro rfl
      grind [compareProcIds]
  case swap =>
    intro a b
    have ha := hlow a
    have hb := hlow b
    simp only [compareProcIds, BitVec.lt_def]
    have hne : ∀ h : a.toNat = b.toNat, a = b := fun h => BitVec.eq_of_toNat_eq h
    grind
  case trans =>
    intro a b c hab hbc
    have ha := hlow a
    have hb := hlow b
    have hc := hlow c
    simp only [compareProcIds, BitVec.lt_def] at hab hbc ⊢
    grind

/-- What all handlers of a daemon read and none of them changes. -/
structure Site where
  conf : Conf
  my : Proc

structure MembershipId where
  procId : ProcId
  time : BitVec 32
  deriving DecidableEq

/-- The membership of a daemon that is partitioned. -/
def unknownMembId : MembershipId := { procId := -1, time := -1 }

def MembershipId.isUnknown (m : MembershipId) : Bool := m.procId = -1

/-- `G_compare_memb_ids`; the differences are those of the words. -/
def compareMembIds (a b : MembershipId) : Int :=
  match a.isUnknown, b.isUnknown with
  | true, true => 0
  | true, false => 1
  | false, true => -1
  | false, false =>
      if a.procId ≠ b.procId then (a.procId - b.procId).toInt
      else if a.time ≠ b.time then (a.time - b.time).toInt
      else 0

structure GroupId where
  membId : MembershipId
  index : BitVec 32
  deriving DecidableEq

structure DaemonMembers where
  procId : ProcId
  membId : MembershipId
  members : List Str
  deriving DecidableEq

def DaemonMembers.isPartitioned (dmn : DaemonMembers) : Bool := dmn.membId.isUnknown

/-- `G_compare_daemon_vs_set`. -/
def compareDaemonVsSet (conf : Conf) (a b : DaemonMembers) : Int :=
  let cmp := compareMembIds a.membId b.membId
  if cmp = 0 then compareProcIds conf a.procId b.procId else cmp

structure Group where
  name : Str
  grpId : GroupId
  changed : Bool
  numMembers : Int
  daemons : List DaemonMembers
  /-- The sessions of this daemon that have joined. -/
  mboxes : List Mailbox
  deriving DecidableEq

/-- The members of a group, by daemons and names. -/
def Group.members (g : Group) : List Str := g.daemons.flatMap DaemonMembers.members

/-- A client of the daemon. Its entry stays until the message that kills it is delivered. -/
structure Session where
  name : Str
  mbox : Mailbox
  memb : Bool
  op : Bool
  deriving DecidableEq

inductive Caused where
  | join
  | leave
  | disconnect
  | network
  deriving DecidableEq

/-- A regular membership message. `offset` leads to the set of the member it is sent to. -/
structure MembMess where
  caused : Caused
  group : Str
  members : List Str
  grpId : GroupId
  vsSets : List (List Str)
  offset : Nat
  deriving DecidableEq

inductive Notice where
  | membership (m : MembMess)
  | transition (group : Str) (grpId : GroupId)
  | selfLeave (group : Str)
  deriving DecidableEq

/-- What a GROUPS message says about a group. -/
structure GroupInfo where
  name : Str
  grpId : GroupId
  changed : Bool
  daemons : List DaemonMembers
  deriving DecidableEq

/-- The body of a GROUPS message. The first one of a synced set names its daemons. -/
structure GroupsBuf where
  membId : MembershipId
  first : Option (List ProcId)
  groups : List GroupInfo
  deriving DecidableEq

/-- A GROUPS message. `represented` stands in the last bytes of the sender's name. -/
structure GroupsMess where
  sender : Str
  represented : Nat
  agreed : Bool
  buf : GroupsBuf
  deriving DecidableEq

/-- The messages of a representative, the last one first. -/
structure GroupsMessageLink where
  repProcId : ProcId
  complete : Bool
  messages : List GroupsMess
  deriving DecidableEq

inductive Gstate where
  | gop
  | gtrans
  | ggather
  | ggt
  deriving DecidableEq, Repr

structure Daemon where
  gstate : Gstate
  groups : List Group
  transMemb : List ProcId
  transMembId : MembershipId
  regMemb : List ProcId
  regMembId : MembershipId
  mySyncedSet : List ProcId
  /-- The messages of the own synced set are complete. -/
  complete : Bool
  gathered : List GroupsMessageLink
  numDaemonsGathered : Nat
  groupsBufs : List GroupsBuf
  groupsBufsFresh : Bool
  sessions : List Session

/-- What a handler has done: messages to sessions, and messages to all daemons. -/
structure Outcome where
  daemon : Daemon
  notices : List (Str × Notice)
  sent : List GroupsMess

def Outcome.quiet (d : Daemon) : Outcome := { daemon := d, notices := [], sent := [] }

/-- The alarms and assertions that end a daemon. -/
inductive Exit where
  | regMembIn (s : Gstate)
  | transMembIn (s : Gstate)
  | joinIn (s : Gstate)
  | leaveIn (s : Gstate)
  | killIn (s : Gstate)
  | groupsIn (s : Gstate)
  | analizeIn (s : Gstate)
  | joinNoSession
  | leaveNoSession (privateName group : Str)
  | killNoSession
  | killIllegal
  | killUnkilled
  | noMailbox (mbox : Mailbox) (group : Str)
  | removeNonempty (group : Str)
  | vsSetTwice (group : Str)
  | joinerNotFound (joiner : Str)
  | notInConf (procId : ProcId)
  | syncedSetsMeet (a b : ProcId)
  | buildsForever
  | noSyncedSet
  deriving DecidableEq

def Gstate.text : Gstate → String
  | .gop => "GOP"
  | .gtrans => "GTRANS"
  | .ggather => "GGATHER"
  | .ggt => "GGT"

/-- The formats of the alarms. What has none reads memory that nothing has written. -/
def Exit.text : Exit → String
  | .regMembIn s => "G_handle_reg_memb in " ++ s.text ++ "\n"
  | .transMembIn s => "G_handle_trans_memb in " ++ s.text ++ "\n"
  | .joinIn s => "G_handle_join in " ++ s.text ++ "\n"
  | .leaveIn s => "G_handle_leave in " ++ s.text ++ "\n"
  | .killIn s => "G_handle_kill in " ++ s.text ++ "\n"
  | .groupsIn s => "G_handle_groups in " ++ s.text ++ "\n"
  | .analizeIn _ => "G_analize_groups: Gstate is %d\n"
  | .joinNoSession => "G_handle_join: local session does not exist\n"
  | .leaveNoSession _ _ => "G_handle_leave: member '%s' has no local session in group '%s'\n"
  | .killNoSession => ""
  | .killIllegal => "Sess_handle_kill: Illegal private name to kill %s\n"
  | .killUnkilled => "Sess_handle_kill: killing unkilled session bug!\n"
  | .noMailbox _ _ => "G_remove_mailbox: didn't find local mailbox %d in group '%s'\n"
  | .removeNonempty _ => "stdskl_empty(&grp->DaemonsList), stdarr_empty(&grp->mboxes)"
  | .vsSetTwice _ => "G_build_memb_vs_buf: Found my vs set twice for group %s\n"
  | .joinerNotFound _ => "G_build_memb_vs_buf: Expected to find joining member %s.\n"
  | .notInConf _ => "G_add_to_synced_set: proc_id %u not in conf\n"
  | .syncedSetsMeet _ _ =>
      "G_add_to_synced_set: intersection isn't empty -- equal procs %u and %u\n"
  | .buildsForever => ""
  | .noSyncedSet => ""

end Netbroker.Groups
