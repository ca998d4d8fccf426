import Netbroker.Groups.Basic

/-!
# Membership notices

A change of a group is told to the local sessions that have joined it. A regular membership
lists the members and, in sets, those that have come to the membership together.

Looking up a group, a daemon, a member or a session comes first, then the notices that list no
sets, and then the one that does, which walks through the daemons of the group set by set.
-/

namespace Netbroker.Groups

open Spread

def Daemon.getGroup (d : Daemon) (name : Str) : Option Group :=
  SkipList.find strncmp Group.name name d.groups

def Group.getDaemon (site : Site) (g : Group) (id : ProcId) : Option DaemonMembers :=
  SkipList.find (compareProcIds site.conf) DaemonMembers.procId id g.daemons

def DaemonMembers.getMember (dmn : DaemonMembers) (name : Str) : Option Str :=
  SkipList.find strncmp id name dmn.members

/-- `Sess_get_session`. -/
def getSession (sessions : List Session) (name : Str) : Option Session :=
  sessions.find? fun s => s.name = name

/-- `Sess_get_session_index`: of the sessions with a mailbox the newest one is found. -/
def getSessionIndex (sessions : List Session) (mbox : Mailbox) : Option Session :=
  sessions.find? fun s => s.mbox = mbox

/-- `Sess_write` to a session that takes memberships. -/
def Session.write (s : Session) (n : Notice) : List (Str × Notice) :=
  if s.memb && s.op then [(s.name, n)] else []

/-- A notice to the local members. -/
def sendAll (sessions : List Session) (mboxes : List Mailbox) (n : Notice) : List (Str × Notice) :=
  mboxes.flatMap fun mbox => ((getSessionIndex sessions mbox).map fun s => s.write n).getD []

/-- `G_build_memb_buf`, with the sets that follow. -/
def Group.buildMemb (g : Group) (caused : Caused) (vsSets : List (List Str)) (offset : Nat) :
    MembMess :=
  { caused, group := g.name, members := g.members, grpId := g.grpId, vsSets, offset }

/-- `G_send_lightweight_memb`: one member has joined or left. -/
def sendLightweightMemb (sessions : List Session) (g : Group) (caused : Caused) (name : Str) :
    List (Str × Notice) :=
  sendAll sessions g.mboxes (.membership (g.buildMemb caused [[name]] 0))

/-- `G_send_self_leave`. -/
def sendSelfLeave (g : Group) (s : Session) : List (Str × Notice) := s.write (.selfLeave g.name)

/-- `G_send_trans_memb`. -/
def sendTransMemb (sessions : List Session) (g : Group) : List (Str × Notice) :=
  sendAll sessions g.mboxes (.transition g.name g.grpId)

/-- The bytes of sets: a number of members, and their names. -/
def vsBytes (sets : List (List Str)) : Nat :=
  (sets.map fun set => 4 + maxGroupName * set.length).sum

/-- The sets as far as they are built, the last one being the current one. -/
structure VsSets where
  sets : List (List Str)
  membId : MembershipId
  offset : Nat
  foundJoiner : Bool

/-- What the loop of `G_build_memb_vs_buf` does for a daemon. -/
def VsSets.addDaemon (site : Site) (g : Group) (joiner : Option Str) (b : VsSets)
    (dmn : DaemonMembers) : Except Exit VsSets :=
  let needed := b.membId.isUnknown || b.membId ≠ dmn.membId
  let sets := if needed then b.sets ++ [[]] else b.sets
  let membId := if needed then dmn.membId else b.membId
  if dmn.procId = site.my.id ∧ b.offset ≠ 0 then .error (.vsSetTwice g.name)
  else
    let offset := if dmn.procId = site.my.id then vsBytes sets.dropLast else b.offset
    -- the joiner is not with the other members of its daemon
    let names := match joiner with
      | some j => if b.foundJoiner then dmn.members else dmn.members.erase j
      | none => dmn.members
    let foundJoiner := b.foundJoiner || joiner.any fun j => dmn.members.contains j
    .ok { sets := sets.dropLast ++ [sets.getLastD [] ++ names], membId, offset, foundJoiner }

/-- The daemons of a group in the order of their sets. -/
def Group.bySet (site : Site) (g : Group) : List DaemonMembers :=
  g.daemons.foldl (fun l dmn => SkipList.put (compareDaemonVsSet site.conf) id dmn l) []

/-- `G_build_memb_vs_buf`. -/
def Group.buildMembVs (site : Site) (g : Group) (joiner : Option Str) : Except Exit MembMess := do
  let start : VsSets := { sets := [], membId := unknownMembId, offset := 0, foundJoiner := false }
  let b ← (g.bySet site).foldlM (VsSets.addDaemon site g joiner) start
  let sets ← match joiner with
    | none => pure b.sets
    | some j => if b.foundJoiner then pure (b.sets ++ [[j]]) else .error (.joinerNotFound j)
  pure (g.buildMemb .network sets b.offset)

/-- `G_send_heavyweight_join`. A joiner that is local gets the offset of its own set. -/
def sendHeavyweightJoin (site : Site) (sessions : List Session) (g : Group) (joiner : Option Str)
    (newMbox : Option Mailbox) : Except Exit (List (Str × Notice)) := do
  let m ← g.buildMembVs site joiner
  let others := g.mboxes.filter fun mbox => !(joiner.isSome && newMbox = some mbox)
  let toJoiner := match newMbox with
    | none => []
    | some mbox =>
        let own := { m with offset := vsBytes m.vsSets - (4 + maxGroupName) }
        sendAll sessions [mbox] (.membership own)
  pure (sendAll sessions others (.membership m) ++ toJoiner)

/-- `G_send_heavyweight_memb`. -/
def sendHeavyweightMemb (site : Site) (sessions : List Session) (g : Group) :
    Except Exit (List (Str × Notice)) :=
  sendHeavyweightJoin site sessions g none none

end Netbroker.Groups
