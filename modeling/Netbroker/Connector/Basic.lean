import Netbroker.Spread.Library

/-!
# The Spread connector

`SpreadConnector` and the library it calls. The connector never forgets a mailbox:
after `disconnectNetwork` it still holds the number of a session that is gone.

The calls here deal with one session, and `sent` tells whether the socket carries what the
library writes. What each of them does to the session under the stored number is stated beside
it, for those who look at that session only.
-/

namespace Netbroker

open Spread

abbrev connJoinSuccess : Int := 1
abbrev connMembershipMessage : Int := 11111
abbrev connEchoMessage : Int := 111111
abbrev wrongGroupNameSize : Int := -11111
abbrev connDisconnected : Int := -111111

/-- `MAX_GROUP_ARRAY_SIZE`. -/
abbrev maxGroupArraySize : Nat := 100

structure SpreadConnector where
  spreadMbox : Mailbox
  clientName : Str
  daemonResource : Str
  connectionName : Str
  connectionStatus : Int

/-- A connector and the Spread library of its process. -/
structure Connection where
  connector : SpreadConnector
  spread : Library

namespace Connection

/-- A new connector: `m_spreadMbox` is uninitialised, and no session is open. -/
def initial (clientName : Str) (spreadMbox : Mailbox) : Connection :=
  { connector :=
      { spreadMbox, clientName, daemonResource := [], connectionName := [],
        connectionStatus := connDisconnected }
    spread := .initial }

/-- The session the connector's mailbox stands for. -/
def session (c : Connection) : Option Session := c.spread.sessions c.connector.spreadMbox

def connectNetwork (c : Connection) (address : Str) (answer : Answer) : Int × Connection :=
  match Spread.connect c.spread answer with
  | (status, some (mailbox, connectionName), spread) =>
      if status = connJoinSuccess then
        (status,
          { connector :=
              { c.connector with
                spreadMbox := mailbox, connectionStatus := status, daemonResource := address,
                connectionName }
            spread })
      else (status, { c with spread })
  | (status, none, spread) => (status, { c with spread })

def joinGroup (c : Connection) (sent : Bool) (group : Str) : Int × Connection :=
  let (ret, spread) := Spread.join c.spread c.connector.spreadMbox sent group
  (ret, { c with spread })

def leaveGroup (c : Connection) (sent : Bool) (group : Str) : Int × Connection :=
  let (ret, spread) := Spread.leave c.spread c.connector.spreadMbox sent group
  (ret, { c with spread })

/-- `sendToGroup`. A name of 32 bytes passes the check and has its last byte cut off. -/
def sendToGroup (c : Connection) (sent : Bool) (b : Buffer) : Int × Connection :=
  if maxGroupName < b.groupName.length then (wrongGroupNameSize, c)
  else
    let (ret, spread) :=
      Spread.multicast c.spread c.connector.spreadMbox sent safeMess b.groupName b.opCode b.data
    (ret, { c with spread })

def disconnectNetwork (c : Connection) : Int × Connection :=
  if c.connector.connectionStatus = connJoinSuccess then
    let (ret, spread) := Spread.disconnect c.spread c.connector.spreadMbox
    (ret, { c with spread })
  else (connDisconnected, c)

section Session

variable {c : Connection} {s : Session} {sent : Bool} {group : Str}

theorem joinGroup_session (hs : c.session = some s) (hret : (c.joinGroup sent group).1 = 0) :
    (c.joinGroup sent group).2.session =
      some { s with joined := insert (cstr group) s.joined } := by
  have hok := join_ok hs hret.ge
  simp only [session, joinGroup, hok, Library.set_sessions_self]

theorem leaveGroup_session (hs : c.session = some s) (hret : (c.leaveGroup sent group).1 = 0) :
    (c.leaveGroup sent group).2.session =
      some { s with joined := s.joined.erase (cstr group) } := by
  have hok := leave_ok hs hret.ge
  simp only [session, leaveGroup, hok, Library.set_sessions_self]

theorem joinGroup_isSome (c : Connection) (sent : Bool) (group : Str) :
    (c.joinGroup sent group).2.session.isSome = c.session.isSome := by
  simp only [session, joinGroup, Spread.join]
  split
  · rfl
  · exact internalMulticast_isSome ..

theorem leaveGroup_isSome (c : Connection) (sent : Bool) (group : Str) :
    (c.leaveGroup sent group).2.session.isSome = c.session.isSome := by
  simp only [session, leaveGroup, Spread.leave]
  split
  · rfl
  · exact internalMulticast_isSome ..

/-- An accepted connection has a new session, in no group. -/
theorem connectNetwork_session (c : Connection) (address privateGroup : Str) :
    (c.connectNetwork address (.accepted privateGroup)).2.session =
      some { privateGroup, active := true, pending := [], unordered := [], closed := false, joined := ∅ } :=
  Library.set_sessions_self ..

end Session

end Connection

end Netbroker
