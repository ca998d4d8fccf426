import Netbroker.Groups.Notices

/-!
# What a daemon does with its groups

`G_handle_join`, `G_handle_leave` and `G_handle_kill` are for the messages of clients.
`G_handle_trans_memb` and `G_handle_reg_memb` are for the memberships of the daemons, and
`G_handle_groups` is for what the daemons tell each other about their groups after these.

The parts come in the order in which the handlers need them: changes of one group, the
messages of clients, the buffers in which groups are told, the synced sets, and the handlers
of memberships and of groups messages, which go through all groups.
-/

namespace Netbroker.Groups

open Spread

/-- `G_remove_mailbox`: the last entry takes the place of the removed one. -/
def removeMailbox (g : Group) (mbox : Mailbox) : Except Exit Group :=
  match g.mboxes.findIdx? fun m => m = mbox with
  | none => .error (.noMailbox mbox g.name)
  | some i => .ok { g with mboxes := (g.mboxes.set i (g.mboxes.getLastD 0)).dropLast }

/-- `G_remove_group`: `none`, as the group is not in the list any more. -/
def removeGroup (g : Group) : Except Exit (Option Group) :=
  if g.daemons ≠ [] ∨ g.mboxes ≠ [] then .error (.removeNonempty g.name) else .ok none

/-- `G_remove_daemon`. -/
def Group.removeDaemon (site : Site) (g : Group) (dmn : DaemonMembers) : Group :=
  { g with
    daemons := SkipList.erase (compareProcIds site.conf) DaemonMembers.procId dmn.procId g.daemons
    numMembers := g.numMembers - dmn.members.length }

def Group.putDaemon (site : Site) (g : Group) (dmn : DaemonMembers) : Group :=
  { g with
    daemons := SkipList.put (compareProcIds site.conf) DaemonMembers.procId dmn g.daemons }

/-- A member leaves, and with the last member of a daemon the daemon. -/
def Group.removeMember (site : Site) (g : Group) (dmn : DaemonMembers) (name : Str) : Group :=
  let dmn := { dmn with members := SkipList.erase strncmp id name dmn.members }
  let g := { g.putDaemon site dmn with numMembers := g.numMembers - 1 }
  if dmn.members = [] then g.removeDaemon site dmn else g

def Daemon.putGroup (d : Daemon) (g : Group) : Daemon :=
  { d with groups := SkipList.put strncmp Group.name g d.groups }

def Daemon.eraseGroup (d : Daemon) (name : Str) : Daemon :=
  { d with groups := SkipList.erase strncmp Group.name name d.groups }

/-- A group that is left is in the list, or is removed from it. -/
def Daemon.setGroup (d : Daemon) (name : Str) : Option Group → Daemon
  | none => d.eraseGroup name
  | some g => d.putGroup g

/-- The notices after a member has joined or left: `heavy` if the group has changed. -/
def Group.tell (sessions : List Session) (g : Group) (heavy : Except Exit (List (Str × Notice)))
    (light : List (Str × Notice)) : Except Exit (List (Str × Notice)) :=
  if g.mboxes = [] then .ok []
  else if g.changed then heavy.map fun notices => notices ++ sendTransMemb sessions g
  else .ok light

/-- The group that somebody joins; its index will be incremented. -/
def Daemon.groupToJoin (d : Daemon) (name : Str) : Group :=
  (d.getGroup name).getD
    { name
      grpId := { membId := if d.gstate = .gop then d.regMembId else d.transMembId, index := 0 }
      changed := false
      numMembers := 0
      daemons := []
      mboxes := [] }

/-- The daemon of somebody who joins. -/
def Daemon.daemonToJoin (site : Site) (d : Daemon) (g : Group) (id : ProcId) : DaemonMembers :=
  (g.getDaemon site id).getD
    { procId := id
      membId := if d.gstate = .gop ∨ id ∈ d.transMemb then g.grpId.membId else unknownMembId
      members := [] }

/-- `G_handle_join`. -/
def handleJoin (site : Site) (d : Daemon) (privateGroupName groupName : Str) :
    Except Exit Outcome :=
  if d.gstate = .ggather ∨ d.gstate = .ggt then .error (.joinIn d.gstate)
  else match privateToNames privateGroupName with
  | none => .ok (.quiet d)
  | some (privateName, procName) =>
    match site.conf.procByName procName with
    | none => .ok (.quiet d)
    | some p =>
      let g := d.groupToJoin groupName
      let dmn := d.daemonToJoin site g p.id
      if (dmn.getMember privateGroupName).isSome then .ok (.quiet d)
      else do
        let members := SkipList.put strncmp id privateGroupName dmn.members
        let g :=
          { g.putDaemon site { dmn with members } with
            numMembers := g.numMembers + 1
            grpId := { g.grpId with index := g.grpId.index + 1 } }
        let newMbox ←
          if p.id = site.my.id then
            match getSession d.sessions privateName with
            | none => .error .joinNoSession
            | some s => pure (some s.mbox)
          else pure none
        let g :=
          { g with
            mboxes := g.mboxes ++ newMbox.toList
            changed := g.changed || dmn.isPartitioned }
        let notices ← g.tell d.sessions
          (sendHeavyweightJoin site d.sessions g (some privateGroupName) newMbox)
          (sendLightweightMemb d.sessions g .join privateGroupName)
        pure { daemon := d.putGroup g, notices, sent := [] }

/-- What becomes of a group after a member has left, and the notices. -/
def Group.afterLeave (site : Site) (sessions : List Session) (g : Group) (caused : Caused)
    (name : Str) : Except Exit (Option Group × List (Str × Notice)) :=
  if g.numMembers = 0 then (removeGroup g).map fun g => (g, [])
  else do
    let g := { g with grpId := { g.grpId with index := g.grpId.index + 1 } }
    let notices ← g.tell sessions (sendHeavyweightMemb site sessions g)
      (sendLightweightMemb sessions g caused name)
    pure (some g, notices)

/-- `G_handle_leave`. -/
def handleLeave (site : Site) (d : Daemon) (privateGroupName groupName : Str) :
    Except Exit Outcome :=
  if d.gstate = .ggather ∨ d.gstate = .ggt then .error (.leaveIn d.gstate)
  else match privateToNames privateGroupName with
  | none => .ok (.quiet d)
  | some (privateName, procName) =>
    match site.conf.procByName procName, d.getGroup groupName with
    | some p, some g =>
      match g.getDaemon site p.id with
      | none => .ok (.quiet d)
      | some dmn =>
        if (dmn.getMember privateGroupName).isNone then .ok (.quiet d)
        else do
          let (g, self) ←
            if p.id = site.my.id then
              match getSession d.sessions privateName with
              | none => .error (.leaveNoSession privateName g.name)
              | some s => (removeMailbox g s.mbox).map fun g => (g, sendSelfLeave g s)
            else pure (g, [])
          let (g?, notices) ←
            (g.removeMember site dmn privateGroupName).afterLeave site d.sessions .leave
              privateGroupName
          pure { daemon := d.setGroup groupName g?, notices := self ++ notices, sent := [] }
    | _, _ => .ok (.quiet d)

/-- What `G_handle_kill` does with a group. -/
def killInGroup (site : Site) (sessions : List Session) (p : Proc)
    (privateName privateGroupName : Str) (g : Group) :
    Except Exit (Option Group × List (Str × Notice)) :=
  match g.getDaemon site p.id with
  | none => .ok (some g, [])
  | some dmn =>
    if (dmn.getMember privateGroupName).isNone then .ok (some g, [])
    else do
      let g ←
        if p.id = site.my.id then
          match getSession sessions privateName with
          | none => .error .killNoSession
          | some s => removeMailbox g s.mbox
        else pure g
      (g.removeMember site dmn privateGroupName).afterLeave site sessions .disconnect
        privateGroupName

/-- A loop over the groups that may remove the group it is at. -/
def overGroups (f : Group → Except Exit (Option Group × List (Str × Notice))) :
    List Group → Except Exit (List Group × List (Str × Notice))
  | [] => .ok ([], [])
  | g :: rest => do
      let (g?, notices) ← f g
      let (rest, more) ← overGroups f rest
      pure (g?.toList ++ rest, notices ++ more)

/-- `G_handle_kill`. -/
def handleKill (site : Site) (d : Daemon) (privateGroupName : Str) : Except Exit Outcome :=
  if d.gstate = .ggather ∨ d.gstate = .ggt then .error (.killIn d.gstate)
  else match privateToNames privateGroupName with
  | none => .ok (.quiet d)
  | some (privateName, procName) =>
    match site.conf.procByName procName with
    | none => .ok (.quiet d)
    | some p => do
        let (groups, notices) ←
          overGroups (killInGroup site d.sessions p privateName privateGroupName) d.groups
        pure { daemon := { d with groups }, notices, sent := [] }

/-- `Sess_handle_kill`: the session of the client leaves the table. -/
def sessHandleKill (site : Site) (d : Daemon) (privateGroupName : Str) : Except Exit Outcome :=
  match privateToNames privateGroupName with
  | none => .error .killIllegal
  | some (privateName, procName) => do
      let o ← handleKill site d privateGroupName
      if procName ≠ site.my.name then pure o
      else match getSession o.daemon.sessions privateName with
      | none => pure o
      | some s =>
          if s.op then .error .killUnkilled
          else pure { o with daemon := { o.daemon with sessions := o.daemon.sessions.erase s } }

def groupsBufSize : Nat := 100000
def dataHeaderSize : Nat := 48
def preambleSize : Nat := 9
def groupInfoSize : Nat := 48
def daemonInfoSize : Nat := 14

/-- The daemons of a group that fit behind `numBytes` bytes, and those left. What goes along
is the membership of the group. -/
def takeDaemons (membId : MembershipId) : Nat → List DaemonMembers →
    List DaemonMembers × List DaemonMembers × Nat
  | numBytes, [] => ([], [], numBytes)
  | numBytes, dmn :: rest =>
      let size := daemonInfoSize + dmn.members.length * maxGroupName
      if groupsBufSize - numBytes < size + dataHeaderSize then ([], dmn :: rest, numBytes)
      else
        let (taken, left, numBytes) := takeDaemons membId (numBytes + size) rest
        ({ dmn with membId } :: taken, left, numBytes)

/-- The groups that fit behind `numBytes` bytes, and those left, of which the first one may
have lost daemons. -/
def takeGroups : Nat → List Group → List GroupInfo × List Group
  | _, [] => ([], [])
  | numBytes, g :: rest =>
      if groupsBufSize - numBytes < groupInfoSize + dataHeaderSize then ([], g :: rest)
      else
        let (taken, left, numBytes) :=
          takeDaemons g.grpId.membId (numBytes + groupInfoSize) g.daemons
        let info : GroupInfo :=
          { name := g.name, grpId := g.grpId, changed := g.changed, daemons := taken }
        if left ≠ [] then ([info], { g with daemons := left } :: rest)
        else
          let (infos, rest) := takeGroups numBytes rest
          (info :: infos, rest)

/-- `G_build_groups_buf`. -/
def Daemon.buildGroupsBuf (d : Daemon) (firstTime : Bool) (groups : List Group) :
    GroupsBuf × List Group :=
  let numBytes := preambleSize + if firstTime then 4 + 4 * d.mySyncedSet.length else 0
  let (infos, rest) := takeGroups numBytes groups
  ({ membId := d.regMembId, first := if firstTime then some d.mySyncedSet else none, groups := infos },
    rest)

/-- The loop of `G_build_new_groups_bufs`; the last buffer comes first. Where a daemon fits
into no buffer the loop goes on without end. -/
def Daemon.buildLoop (d : Daemon) : Nat → Bool → List Group → List GroupsBuf →
    Option (List GroupsBuf)
  | 0, _, _, _ => none
  | fuel + 1, firstTime, groups, bufs =>
      let (buf, rest) := d.buildGroupsBuf firstTime groups
      if rest = [] then some (buf :: bufs) else d.buildLoop fuel false rest (buf :: bufs)

/-- Every buffer but the first takes a daemon or a group. -/
def buildFuel (groups : List Group) : Nat :=
  2 + (groups.map fun g => 1 + g.daemons.length).sum

/-- `G_build_new_groups_bufs`. -/
def Daemon.buildNewGroupsBufs (d : Daemon) : Except Exit Daemon :=
  match d.buildLoop (buildFuel d.groups) true d.groups d.groupsBufs with
  | none => .error .buildsForever
  | some groupsBufs => .ok { d with groupsBufs }

/-- `G_stamp_groups_bufs`. -/
def Daemon.stampGroupsBufs (d : Daemon) : Daemon :=
  { d with groupsBufs := d.groupsBufs.map fun buf => { buf with membId := d.regMembId } }

/-- `G_send_groups_messages`: the first buffer that was built goes last, and agreed. -/
def Daemon.groupsMessages (site : Site) (d : Daemon) : List GroupsBuf → List GroupsMess
  | [] => []
  | buf :: rest =>
      { sender := site.my.name, represented := d.mySyncedSet.length, agreed := rest.isEmpty, buf } ::
        d.groupsMessages site rest

/-- `Is_synced_set_leader`. -/
def Daemon.isSyncedSetLeader (d : Daemon) (id : ProcId) : Bool := d.mySyncedSet.head? = some id

/-- A daemon of a message is put into the group, in place of the one that may be there. -/
def Group.addDaemon (site : Site) (g : Group) (dmn : DaemonMembers) : Group :=
  { g.putDaemon site dmn with
    changed := g.changed || dmn.membId ≠ g.grpId.membId
    numMembers := g.numMembers + dmn.members.length }

/-- What `G_mess_to_groups` does for a group of a message. -/
def addGroupInfo (site : Site) (groups : List Group) (info : GroupInfo) : List Group :=
  let g := (SkipList.find strncmp Group.name info.name groups).getD
    { name := info.name
      grpId := info.grpId
      changed := false
      numMembers := 0
      daemons := []
      mboxes := [] }
  let g := info.daemons.foldl (Group.addDaemon site) { g with changed := g.changed || info.changed }
  SkipList.put strncmp Group.name g groups

/-- `G_mess_to_groups`. -/
def messToGroups (site : Site) (groups : List Group) (m : GroupsMess) : List Group :=
  m.buf.groups.foldl (addGroupInfo site) groups

/-- The synced set that the messages of a representative name. -/
def GroupsMessageLink.syncedSet (link : GroupsMessageLink) : Option (List ProcId) :=
  link.messages.reverse.findSome? fun m => m.buf.first

/-- `G_add_to_synced_set`: both sets are in the order of the configuration. -/
def addToSyncedSet (conf : Conf) : List ProcId → List ProcId → Except Exit (List ProcId)
  | [], [] => .ok []
  | x :: xs, [] =>
      if conf.index x = -1 then .error (.notInConf x)
      else (addToSyncedSet conf xs []).map (x :: ·)
  | [], y :: ys =>
      if conf.index y = -1 then .error (.notInConf y)
      else (addToSyncedSet conf [] ys).map (y :: ·)
  | x :: xs, y :: ys =>
      if conf.index x = -1 then .error (.notInConf x)
      else if conf.index y = -1 then .error (.notInConf y)
      else if conf.index x < conf.index y then (addToSyncedSet conf xs (y :: ys)).map (x :: ·)
      else if conf.index y < conf.index x then (addToSyncedSet conf (x :: xs) ys).map (y :: ·)
      else .error (.syncedSetsMeet x y)
  termination_by xs ys => xs.length + ys.length

/-- The groups and the synced set after the messages of a representative. -/
def Daemon.addLink (site : Site) (d : Daemon) (link : GroupsMessageLink) : Except Exit Daemon :=
  match link.syncedSet with
  | none => .error .noSyncedSet
  | some set => do
      let mySyncedSet ← addToSyncedSet site.conf d.mySyncedSet set
      pure { d with groups := link.messages.foldl (messToGroups site) d.groups, mySyncedSet }

/-- `G_update_synced_set_status`: the set without the daemons that are gone. -/
def Daemon.updateSyncedSet (d : Daemon) : Daemon :=
  { d with mySyncedSet := d.mySyncedSet.filter fun id => id ∈ d.transMemb }

/-- `G_update_daemon_memb_ids`. -/
def Group.updateDaemonMembIds (g : Group) : Group :=
  { g with
    daemons := g.daemons.map fun dmn =>
      if dmn.isPartitioned then dmn else { dmn with membId := g.grpId.membId } }

/-- `G_eliminate_partitioned_daemons_status`, with the condition of the state. -/
def Group.eliminate (g : Group) (gone : DaemonMembers → Bool) : Group :=
  { g with
    daemons := g.daemons.filter fun dmn => !gone dmn
    numMembers := g.numMembers - ((g.daemons.filter gone).map fun dmn => dmn.members.length).sum }

/-- The daemon is not in the transitional membership. -/
def Daemon.lost (d : Daemon) (dmn : DaemonMembers) : Bool := dmn.procId ∉ d.transMemb

/-- What `G_handle_trans_memb` does with a group in `GOP`. -/
def Daemon.partitionGroup (d : Daemon) (g : Group) : Group × List (Str × Notice) :=
  if g.daemons.any d.lost then
    let marked := g.daemons.map fun dmn =>
      if d.lost dmn then { dmn with membId := unknownMembId } else dmn
    let notices := if g.mboxes = [] then [] else sendTransMemb d.sessions g
    let changed : Group :=
      { g with daemons := marked, grpId := { membId := d.transMembId, index := 1 }, changed := true }
    (changed.updateDaemonMembIds, notices)
  else (g, [])

/-- `G_handle_trans_memb`. -/
def handleTransMemb (d : Daemon) (transMemb : List ProcId) (transMembId : MembershipId) :
    Except Exit Outcome :=
  let d := { d with transMemb, transMembId }
  match d.gstate with
  | .gop =>
      let groups := d.groups.map d.partitionGroup
      let d := { d with groups := groups.map Prod.fst, gstate := .gtrans }
      .ok { daemon := d.updateSyncedSet, notices := groups.flatMap Prod.snd, sent := [] }
  | .ggather =>
      let groups := d.groups.map fun g => { g with changed := g.changed || g.daemons.any d.lost }
      .ok (.quiet { d with groups, gstate := .ggt })
  | .gtrans => .error (.transMembIn .gtrans)
  | .ggt => .error (.transMembIn .ggt)

/-- The group has its own regular membership again. -/
def Group.settle (g : Group) (membId : MembershipId) : Group :=
  { g with grpId := { membId, index := 1 }, changed := false }

/-- What `G_handle_reg_memb` does with a group when daemons have only left. -/
def Daemon.subtractGroup (site : Site) (d : Daemon) (g : Group) :
    Except Exit (Option Group × List (Str × Notice)) :=
  if !g.changed then .ok (some g, [])
  else
    let g := g.eliminate DaemonMembers.isPartitioned
    if g.numMembers = 0 then (removeGroup g).map fun g => (g, [])
    else do
      let g := (g.settle d.regMembId).updateDaemonMembIds
      let notices ← if g.mboxes = [] then pure [] else sendHeavyweightMemb site d.sessions g
      pure (some g, notices)

/-- What it does with a group ahead of a state transfer. -/
def dropPartitioned (g : Group) : Except Exit (Option Group × List (Str × Notice)) :=
  if !g.changed then .ok (some g, [])
  else
    let g := g.eliminate DaemonMembers.isPartitioned
    if g.numMembers = 0 then (removeGroup g).map fun g => (g, []) else .ok (some g, [])

/-- What it does with a group after a cascading transitional membership. -/
def Daemon.dropLost (d : Daemon) (g : Group) : Except Exit (Option Group × List (Str × Notice)) :=
  if g.daemons.any d.lost then
    let g := g.eliminate d.lost
    if g.numMembers = 0 then (removeGroup g).map fun g => (g, [])
    else .ok (some { g with changed := true }, [])
  else .ok (some g, [])

/-- The leader of a synced set sends the messages that it has built. -/
def Daemon.sendGroups (site : Site) (d : Daemon) : Outcome :=
  { daemon := d, notices := [], sent := d.groupsMessages site d.groupsBufs }

/-- The leader builds its messages. -/
def Daemon.sendNewGroups (site : Site) (d : Daemon) : Except Exit Outcome :=
  if d.isSyncedSetLeader site.my.id then do
    let d ← d.buildNewGroupsBufs
    pure ({ d with groupsBufsFresh := true }.sendGroups site)
  else pure (.quiet d)

/-- The leader builds its messages anew, unless those that it has built are fresh. -/
def Daemon.sendGroupsAgain (site : Site) (d : Daemon) : Except Exit Outcome :=
  if d.isSyncedSetLeader site.my.id ∧ d.groupsBufsFresh then pure (d.stampGroupsBufs.sendGroups site)
  else { d with groupsBufs := if d.isSyncedSetLeader site.my.id then [] else d.groupsBufs }.sendNewGroups
    site

/-- `G_handle_reg_memb`. -/
def handleRegMemb (site : Site) (d : Daemon) (regMemb : List ProcId) (regMembId : MembershipId) :
    Except Exit Outcome :=
  match d.gstate with
  | .gop => .error (.regMembIn .gop)
  | .ggather => .error (.regMembIn .ggather)
  | .gtrans => do
      let d := { d with regMemb, regMembId }
      if d.transMemb.length = d.regMemb.length then
        let (groups, notices) ← overGroups (d.subtractGroup site) d.groups
        pure { daemon := { d with groups, gstate := .gop }, notices, sent := [] }
      else
        let (groups, _) ← overGroups dropPartitioned d.groups
        { d with groups, gstate := .ggather }.sendNewGroups site
  | .ggt => do
      let d := { d with regMemb, regMembId }
      -- with the own messages complete, those of the others that are complete count
      let complete := d.gathered.filter fun link => d.complete && link.complete
      let fresh := d.groupsBufsFresh && complete.isEmpty
      let d ← complete.foldlM (Daemon.addLink site) d
      let (groups, _) ← overGroups d.dropLost d.groups
      let fresh := fresh && !(d.groups.any fun g => g.daemons.any d.lost) &&
        d.mySyncedSet.all fun id => id ∈ d.transMemb
      let d := { d with
        groups
        gathered := []
        complete := false
        numDaemonsGathered := 0
        groupsBufsFresh := fresh
        gstate := .ggather }
      d.updateSyncedSet.sendGroupsAgain site

/-- The group after the state transfer. -/
def Daemon.settleGroup (site : Site) (d : Daemon) (g : Group) :
    Except Exit (Option Group × List (Str × Notice)) :=
  if !g.changed then .ok (some g, [])
  else do
    let g := g.settle d.regMembId
    let notices ← if g.mboxes = [] then pure [] else sendHeavyweightMemb site d.sessions g
    pure (some g.updateDaemonMembIds, notices)

/-- `G_compute_and_notify`. -/
def Daemon.computeAndNotify (site : Site) (d : Daemon) : Except Exit Outcome := do
  let d ← d.gathered.foldlM (Daemon.addLink site) d
  let (groups, notices) ← overGroups (d.settleGroup site) d.groups
  let d := { d with
    groups
    gathered := []
    complete := false
    numDaemonsGathered := 0
    groupsBufs := []
    groupsBufsFresh := false }
  pure { daemon := d, notices, sent := [] }

/-- A message joins those of its representative. -/
def addMessage (id : ProcId) (m : GroupsMess) : List GroupsMessageLink → List GroupsMessageLink
  | [] => []
  | link :: rest =>
      if link.repProcId = id then
        { link with messages := m :: link.messages, complete := link.complete || m.agreed } :: rest
      else link :: addMessage id m rest

/-- A message of another representative is kept. -/
def Daemon.keepMessage (d : Daemon) (id : ProcId) (m : GroupsMess) : Daemon :=
  if d.gathered.any fun link => link.repProcId = id then
    { d with gathered := addMessage id m d.gathered }
  else
    { d with gathered := { repProcId := id, complete := m.agreed, messages := [m] } :: d.gathered }

/-- `G_handle_groups`. -/
def handleGroups (site : Site) (d : Daemon) (m : GroupsMess) : Except Exit Outcome :=
  if d.gstate = .gop ∨ d.gstate = .gtrans then .error (.groupsIn d.gstate)
  else if m.buf.membId ≠ d.regMembId then .ok (.quiet d)
  else match site.conf.procByName m.sender with
  | none => .ok (.quiet d)
  | some p => do
      -- the messages of the own representative are only counted
      let d :=
        if d.isSyncedSetLeader p.id then { d with complete := d.complete || m.agreed }
        else d.keepMessage p.id m
      let d := { d with
        numDaemonsGathered := d.numDaemonsGathered + if m.agreed then m.represented else 0 }
      if d.numDaemonsGathered ≠ d.regMemb.length then pure (.quiet d)
      else
        let o ← d.computeAndNotify site
        let next := { o.daemon with gstate := .gop }
        if d.gstate = .ggather then pure { o with daemon := next }
        else do
          -- the groups have not seen the cascading membership yet
          let o' ← handleTransMemb next next.transMemb next.transMembId
          pure { o' with notices := o.notices ++ o'.notices }

end Netbroker.Groups
