import Mathlib.Tactic

/-!
# `8_sockets/src/inet/server.c`

The loop of `main`, for what the calls of the system return.  The server keeps
the calls it makes, with their results; from them `view` tells which descriptors
are open.  The zero behind a message is written down with its index and does
nothing else here: one that lies behind the buffer is left to the statements about
the log.
-/

namespace OsStuff
namespace Sockets

/-- What an `fd_set` holds. -/
abbrev FdSet := Finset Int

/-- `FD_SETSIZE` -/
def fdSetsize : Int := 1024

/-- `FD_SET`, which has no meaning for a descriptor outside the set. -/
def fdSet (fd : Int) (set : FdSet) : Option FdSet :=
  if 0 ≤ fd ∧ fd < fdSetsize then some (insert fd set) else none

/-- A value of type `ssize_t` as `size_t`. -/
def sizeT (value : Int) : Nat :=
  (value % 2 ^ 64).toNat

namespace Inet

def maxClients : Nat := 10
def bufSize : Nat := 256

/-- A call of the server, or the store of the zero behind a message. -/
inductive Call
  | pselect (nfds : Int) (readfds : FdSet) (ready : Option FdSet)
  | accept (fd : Int)
  | recv (fd : Int) (result : Int)
  | store (index : Nat)
  | send (fd : Int) (result : Int)
  | close (fd : Int)
  deriving DecidableEq

/-- What the calls of one round of the loop return.  `ready` is what `pselect`
leaves in the set, or nothing when it fails; `recv` and `send` are given for
every slot of the table. -/
structure Round where
  ready : Option FdSet
  accepted : Int
  recv : Nat → Int
  send : Nat → Int

inductive Status
  | running
  | exited
  /-- A descriptor was put into a set that cannot hold it. -/
  | undefined
  deriving DecidableEq, Repr

structure Server where
  clients : List Int
  readfds : FdSet
  status : Status
  log : List Call

/-- The server before the loop. -/
def start : Server where
  clients := List.replicate maxClients 0
  readfds := ∅
  status := .running
  log := []

namespace Server

def record (calls : List Call) (server : Server) : Server :=
  { server with log := server.log ++ calls }

/-- The loop that puts the clients into the set and finds the largest
descriptor. -/
def setClients : List Int → FdSet → Int → Option (FdSet × Int)
  | [], set, maxSd => some (set, maxSd)
  | fd :: clients, set, maxSd =>
      (if 0 < fd then fdSet fd set else some set).bind fun set =>
        setClients clients set (if maxSd < fd then fd else maxSd)

/-- The set for `pselect` and the largest descriptor in it. -/
def prepare (sfd : Int) (server : Server) : Option (FdSet × Int) :=
  (fdSet sfd server.readfds).bind fun set => setClients server.clients set sfd

/-- The loop that looks for a free slot. -/
def insertClient (fd : Int) : List Int → Option (List Int)
  | [] => none
  | client :: clients =>
      if client = 0 then some (fd :: clients)
      else (insertClient fd clients).map (client :: ·)

/-- A new connection. -/
def acceptClient (sfd clientFd : Int) (server : Server) : Server :=
  let server := server.record [.accept clientFd]
  if clientFd = -1 then
    { server.record [.close sfd] with status := .exited }
  else
    match insertClient clientFd server.clients with
    | some clients => { server with clients := clients }
    | none => { server.record [.close sfd] with status := .exited }

/-- A round of the loop over the slots. -/
def serveClient (round : Round) (i : Nat) (server : Server) : Server :=
  let fd := server.clients.getD i 0
  if fd ≠ 0 ∧ fd ∈ server.readfds then
    let bytes := sizeT (round.recv i)
    let server := server.record [.recv fd (round.recv i)]
    if bytes = 0 then
      { server.record [.close fd] with
        readfds := server.readfds.erase fd
        clients := server.clients.set i 0 }
    else
      let server := server.record [.store bytes, .send fd (round.send i)]
      if round.send i < 0 then { server with status := .exited } else server
  else server

/-- The loop over the slots, `count` rounds from `i` on. -/
def serveLoop (round : Round) : Nat → Nat → Server → Server
  | 0, _, server => server
  | count + 1, i, server =>
      let server := serveClient round i server
      if server.status = .running then serveLoop round count (i + 1) server
      else server

/-- What a round does after `pselect` has returned. -/
def handle (sfd : Int) (round : Round) (server : Server) : Server :=
  let server :=
    if sfd ∈ server.readfds then acceptClient sfd round.accepted server else server
  if server.status = .running then serveLoop round maxClients 0 server else server

/-- A round of the loop of `main`. -/
def iterate (sfd : Int) (server : Server) (round : Round) : Server :=
  if server.status ≠ .running then server
  else
    match prepare sfd server with
    | none => { server with status := .undefined }
    | some (set, maxSd) =>
        let server := server.record [.pselect (maxSd + 1) set round.ready]
        match round.ready with
        | none => { server.record [.close sfd] with status := .exited }
        | some ready => handle sfd round { server with readfds := ready }

/-- The server after some rounds. -/
def run (sfd : Int) (rounds : List Round) : Server :=
  rounds.foldl (iterate sfd) start

end Server

/-! ## The descriptors -/

/-- What the calls so far say about the descriptors: whether the listening
socket is open, the accepted descriptors that are open, and what the last
`pselect` reported. -/
structure View where
  listening : Bool
  opened : Finset Int
  ready : FdSet

namespace View

def call (sfd : Int) (view : View) : Call → View
  | .pselect _ _ ready => { view with ready := ready.getD ∅ }
  | .accept fd => if fd = -1 then view else { view with opened := insert fd view.opened }
  | .close fd =>
      if fd = sfd then { view with listening := false }
      else { view with opened := view.opened.erase fd }
  | _ => view

end View

def view (sfd : Int) (log : List Call) : View :=
  log.foldl (View.call sfd) ⟨true, ∅, ∅⟩

@[simp] theorem view_nil (sfd : Int) : view sfd [] = ⟨true, ∅, ∅⟩ := rfl

@[simp] theorem view_concat (sfd : Int) (log : List Call) (call : Call) :
    view sfd (log ++ [call]) = (view sfd log).call sfd call := by
  simp [view]

end Inet
end Sockets
end OsStuff
