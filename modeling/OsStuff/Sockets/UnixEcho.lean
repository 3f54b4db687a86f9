import Mathlib.Data.List.TakeWhile
import Mathlib.Data.Nat.Digits.Lemmas
import OsStuff.Library.Processes
import OsStuff.Library.Run
import OsStuff.Sockets.UnixServer

/-!
# `8_sockets/src/unix`: the clients and the server

Any number of clients send their process id to the server, which sends it back
to the address it came from.  A client binds its socket to the name it is given,
sends once, receives once and removes the name again.

An address is copied without its zero into memory that has not been initialised,
so that it goes on with what happens to be there (`address`).

`echoes_own_iff` says when a client can only get its own message back.
-/

namespace OsStuff
namespace Sockets
namespace UnixEcho

open Library Library.Processes

abbrev Bytes := List UInt8

/-- `serv_sock_name` -/
def servSockName : Bytes := "server.soc".toUTF8.data.toList

/-- `buf_size` of the client. -/
def bufSize : Nat := 64

/-- The string at the start of some memory. -/
def cString (memory : Bytes) : Bytes := memory.takeWhile (· ≠ 0)

/-- `strncpy` of a name without its zero, as the kernel reads the path; the name is
shorter than the 108 bytes of `sun_path`. -/
def address (name memory : Bytes) : Bytes := cString (name ++ memory.drop name.length)

/-- An invocation of the client, with what is in the two addresses before. -/
structure Client where
  name : Bytes
  pid : Nat
  clientAddress : Bytes
  serverAddress : Bytes
  positive : 0 < pid
  int : pid < 2 ^ 31

/-- The memory is zero behind the names, and the client has a name of its own. -/
structure Client.Clean (client : Client) : Prop where
  own : address client.name client.clientAddress = client.name
  server : address servSockName client.serverAddress = servSockName
  other : client.name ≠ servSockName

/-- `%d` of a positive number. -/
def decimal (n : Nat) : Bytes := (Nat.digits 10 n).reverse.map fun d => .ofNat (48 + d)

/-- `[PID] %d` -/
def Client.message (client : Client) : Bytes :=
  "[PID] ".toUTF8.data.toList ++ decimal client.pid

/-- The address that the client binds its socket to. -/
def Client.path (client : Client) : Bytes := address client.name client.clientAddress

def replyText : Bytes := "Сервер отправил обратно: \"".toUTF8.data.toList

/-- What the server makes of its buffer. -/
def response (buffer : Bytes) : Bytes :=
  (replyText ++ cString buffer ++ [34]).take (2 * Unix.recvBufLen - 1)

inductive Pc
  | started
  | bound
  | waiting
  /-- It has printed a reply and removed its name. -/
  | done (reply : Bytes)
  /-- It has ended in another way. -/
  | failed
  deriving DecidableEq, Repr

/-- Its socket is open and has an address. -/
def Pc.alive : Pc → Bool
  | .bound | .waiting => true
  | _ => false

/-- Where a datagram comes from and what is in it. -/
abbrev Datagram := Bytes × Bytes

structure Process where
  pc : Pc
  inbox : List Datagram
  deriving DecidableEq, Repr

inductive Server
  | receiving
  /-- It has printed a message and answers it. -/
  | replying (datagram : Datagram)
  /-- It has removed its name and ended. -/
  | stopped
  deriving DecidableEq, Repr

/-- The socket that a name in the directory stands for. -/
inductive Owner
  | server
  | client (i : Nat)
  deriving DecidableEq, Repr

structure State where
  server : Server
  queue : List Datagram
  files : Bytes → Option Owner
  processes : List Process

inductive Event
  | bind (i : Nat)
  | send (i : Nat)
  | receive (i : Nat)
  /-- `recvfrom` of a client fails. -/
  | receiveFails (i : Nat)
  /-- A client is killed. -/
  | kill (i : Nat)
  /-- The server receives. -/
  | serve
  /-- It answers; the system may not be able to send. -/
  | reply (sent : Bool)
  /-- A signal, or `recvfrom` of the server fails. -/
  | stop
  deriving DecidableEq, Repr

/-- The state with process `i` replaced. -/
def State.set (state : State) (i : Nat) (process : Process) : State :=
  { state with processes := state.processes.set i process }

/-- The name that `bind` creates. -/
def State.link (state : State) (path : Bytes) (owner : Owner) : State :=
  { state with files := Function.update state.files path (some owner) }

/-- `unlink` -/
def State.unlink (state : State) (path : Bytes) : State :=
  { state with files := Function.update state.files path none }

/-- `sendto`: the datagram goes to the socket with this address, if it is open. -/
def deliver (state : State) (path : Bytes) (datagram : Datagram) : Option State :=
  match state.files path with
  | some .server =>
      if state.server ≠ .stopped then
        some { state with queue := state.queue ++ [datagram] }
      else none
  | some (.client j) => state.processes[j]?.bind fun process =>
      if process.pc.alive then
        some (state.set j { process with inbox := process.inbox ++ [datagram] })
      else none
  | none => none

section Step

variable (clients : List Client)

/-- The next step of client `i`. -/
def advance (state : State) (i : Nat) (client : Client) (process : Process) :
    Event → Option State
  | .bind _ =>
      if process.pc = .started then
        match state.files client.path with
        | none =>
            some ((state.set i { process with pc := .bound }).link client.path (.client i))
        | some _ => some (state.set i { process with pc := .failed })
      else none
  | .send _ =>
      if process.pc = .bound then
        match deliver state (address servSockName client.serverAddress)
            (client.path, client.message) with
        | some state => some (state.set i { process with pc := .waiting })
        | none => some (state.set i { process with pc := .failed })
      else none
  | .receive _ =>
      if process.pc = .waiting then
        match process.inbox with
        | [] => none
        | datagram :: inbox =>
            some ((state.set i ⟨.done (datagram.2.take bufSize), inbox⟩).unlink client.name)
      else none
  | .receiveFails _ =>
      if process.pc = .waiting then
        some ((state.set i { process with pc := .failed }).unlink client.name)
      else none
  | .kill _ =>
      if process.pc = .started ∨ process.pc.alive = true then
        some (state.set i { process with pc := .failed })
      else none
  | _ => none

def serve (state : State) : Option State :=
  match state.server, state.queue with
  | .receiving, (path, bytes) :: queue =>
      some { state with
        server := .replying (path, bytes.take Unix.recvBufLen), queue := queue }
  | _, _ => none

def reply (state : State) (sent : Bool) : Option State :=
  match state.server with
  | .replying (path, buffer) =>
      let state := { state with server := .receiving }
      if sent then
        some ((deliver state path (servSockName, response buffer)).getD state)
      else some state
  | _ => none

def step (state : State) (event : Event) : Option State :=
  match event with
  | .serve => serve state
  | .reply sent => reply state sent
  | .stop =>
      if state.server ≠ .stopped then
        some { state.unlink servSockName with server := .stopped, queue := [] }
      else none
  | .bind i | .send i | .receive i | .receiveFails i | .kill i =>
      clients[i]?.bind fun client => state.processes[i]?.bind fun process =>
        advance state i client process event

/-- The server has bound its socket. -/
def State.initial : State where
  server := .receiving
  queue := []
  files := Function.update (fun _ => none) servSockName (some .server)
  processes := clients.map fun _ => ⟨.started, []⟩

end Step

/-- What a client prints when it gets its own message back. -/
def Client.echo (client : Client) : Bytes := (response client.message).take bufSize

/-! ## Texts -/

theorem decimal_injective {n m : Nat} (h : decimal n = decimal m) : n = m := by
  have hchar : ∀ {l l' : List Nat}, (∀ d ∈ l, d < 10) → (∀ d ∈ l', d < 10) →
      l.map (fun d => UInt8.ofNat (48 + d)) = l'.map (fun d => UInt8.ofNat (48 + d)) →
      l = l' := by
    intro l
    induction l with
    | nil =>
        intro l' _ _ hmap
        exact (List.map_eq_nil_iff.mp hmap.symm).symm
    | cons d l ih =>
        intro l' hl hl' hmap
        cases l' with
        | nil => simp at hmap
        | cons d' l' =>
            obtain ⟨hhead, htail⟩ := List.cons.inj hmap
            have hd := hl d List.mem_cons_self
            have hd' := hl' d' List.mem_cons_self
            have hvalue := congrArg UInt8.toNat hhead
            simp only [UInt8.toNat_ofNat'] at hvalue
            have heq : d = d' := by omega
            rw [heq, ih (fun x hx => hl x (List.mem_cons_of_mem _ hx))
              (fun x hx => hl' x (List.mem_cons_of_mem _ hx)) htail]
  have hdigits : ∀ k, ∀ d ∈ (Nat.digits 10 k).reverse, d < 10 := by
    intro k d hd
    exact Nat.digits_lt_base (by decide) (List.mem_reverse.mp hd)
  have hreverse := hchar (hdigits n) (hdigits m) h
  exact Nat.digits_inj_iff.mp (List.reverse_injective hreverse)

theorem decimal_length {n : Nat} (hn : n < 2 ^ 31) : (decimal n).length ≤ 10 := by
  rw [decimal, List.length_map, List.length_reverse, Nat.digits_length_le_iff (by decide)]
  omega

theorem decimal_ne_zero {n : Nat} {byte : UInt8} (h : byte ∈ decimal n) : byte ≠ 0 := by
  obtain ⟨d, hd, rfl⟩ := List.mem_map.mp h
  have hlt := Nat.digits_lt_base (by decide) (List.mem_reverse.mp hd)
  intro hzero
  have hvalue := congrArg UInt8.toNat hzero
  rw [UInt8.toNat_ofNat'] at hvalue
  have : (0 : UInt8).toNat = 0 := rfl
  omega

variable {client other : Client}

theorem message_length : client.message.length ≤ 16 := by
  have hlength := decimal_length client.int
  have htext : "[PID] ".toUTF8.data.toList.length = 6 := by decide +kernel
  rw [Client.message, List.length_append, htext]
  omega

theorem cString_message : cString client.message = client.message := by
  unfold cString
  rw [List.takeWhile_eq_self_iff]
  intro byte hbyte
  have htext : ∀ byte ∈ "[PID] ".toUTF8.data.toList, byte ≠ 0 := by decide +kernel
  rcases List.mem_append.mp hbyte with h | h
  · exact decide_eq_true (htext byte h)
  · exact decide_eq_true (decimal_ne_zero h)

theorem replyText_length : replyText.length = 47 := by decide +kernel

theorem response_message :
    response client.message = replyText ++ client.message ++ [34] := by
  unfold response
  rw [cString_message]
  apply List.take_of_length_le
  have hlength := @message_length client
  rw [List.length_append, List.length_append, replyText_length]
  show 47 + client.message.length + 1 ≤ 127
  omega

theorem echo_eq : client.echo = replyText ++ client.message ++ [34] := by
  unfold Client.echo
  rw [response_message]
  apply List.take_of_length_le
  have hlength := @message_length client
  rw [List.length_append, List.length_append, replyText_length]
  show 47 + client.message.length + 1 ≤ 64
  omega

/-- Two clients have the same reply exactly if they have the same process id. -/
theorem echo_inj : client.echo = other.echo ↔ client.pid = other.pid := by
  constructor
  · intro h
    rw [echo_eq, echo_eq] at h
    have hmessage := List.append_cancel_left (List.append_cancel_right h)
    exact decimal_injective (List.append_cancel_left hmessage)
  · intro h
    unfold Client.echo Client.message
    rw [h]

/-! ## Whose message comes back -/

variable {clients : List Client} {state next : State} {event : Event} {events : List Event}
  {i j : Nat} {process after : Process} {path : Bytes} {datagram : Datagram}

@[simp] theorem set_server : (state.set i after).server = state.server := rfl
@[simp] theorem set_queue : (state.set i after).queue = state.queue := rfl
@[simp] theorem set_files : (state.set i after).files = state.files := rfl
@[simp] theorem set_processes :
    (state.set i after).processes = state.processes.set i after := rfl
@[simp] theorem link_server {owner : Owner} :
    (state.link path owner).server = state.server := rfl
@[simp] theorem link_queue {owner : Owner} :
    (state.link path owner).queue = state.queue := rfl
@[simp] theorem link_processes {owner : Owner} :
    (state.link path owner).processes = state.processes := rfl
@[simp] theorem link_files {owner : Owner} :
    (state.link path owner).files = Function.update state.files path (some owner) := rfl
@[simp] theorem unlink_files :
    (state.unlink path).files = Function.update state.files path none := rfl
@[simp] theorem unlink_server : (state.unlink path).server = state.server := rfl
@[simp] theorem unlink_queue : (state.unlink path).queue = state.queue := rfl
@[simp] theorem unlink_processes : (state.unlink path).processes = state.processes := rfl

/-- The messages that the server has still to answer. -/
def State.inflight (state : State) : List Datagram :=
  match state.server with
  | .replying datagram => datagram :: state.queue
  | .receiving | .stopped => state.queue

/-- What a client can have received: replies to clients with its address. -/
structure ProcessOk (clients : List Client) (own : Client) (process : Process) : Prop where
  inbox : ∀ datagram ∈ process.inbox, ∃ client ∈ clients, client.path = own.path ∧
    datagram.2 = response client.message
  done : ∀ text, process.pc = .done text → ∃ client ∈ clients, client.path = own.path ∧
    text = client.echo

structure Inv (clients : List Client) (state : State) : Prop where
  length : state.processes.length = clients.length
  server : state.files servSockName = some .server ∨ state.files servSockName = none
  owner : ∀ path i, state.files path = some (.client i) →
    ∃ client, clients[i]? = some client ∧ client.path = path
  onlyServer : ∀ path, state.files path = some .server → path = servSockName
  inflight : ∀ datagram ∈ state.inflight, ∃ client ∈ clients, client.path = datagram.1 ∧
    datagram.2 = client.message
  process : ∀ (i : Nat) (own : Client) (process : Process), clients[i]? = some own →
    state.processes[i]? = some process → ProcessOk clients own process

theorem path_ne (hclean : client.Clean) : client.path ≠ servSockName := by
  unfold Client.path
  rw [hclean.own]
  exact hclean.other

theorem Inv.initial : Inv clients (.initial clients) where
  length := List.length_map _
  server := Or.inl (by simp [State.initial])
  owner := by
    intro path i hfile
    simp only [State.initial, Function.update_apply] at hfile
    split at hfile <;> simp at hfile
  onlyServer := by
    intro path hfile
    by_contra hne
    simp [State.initial, Function.update_of_ne hne] at hfile
  inflight := by
    intro datagram hmem
    exact absurd hmem List.not_mem_nil
  process := by
    intro i own process _ hprocess
    rw [State.initial, List.getElem?_map, Option.map_eq_some_iff] at hprocess
    obtain ⟨_, _, rfl⟩ := hprocess
    exact ⟨fun _ h => absurd h List.not_mem_nil, fun _ h => absurd h (by simp)⟩

theorem Inv.set (hinv : Inv clients state) (hi : clients[i]? = some client)
    (hafter : ProcessOk clients client after) : Inv clients (state.set i after) where
  length := by
    rw [set_processes, List.length_set]
    exact hinv.length
  server := hinv.server
  owner := hinv.owner
  onlyServer := hinv.onlyServer
  inflight := hinv.inflight
  process := by
    intro k own process hown hprocess
    rcases set_cases hprocess with ⟨rfl, rfl⟩ | ⟨_, hprocess⟩
    · rw [hi, Option.some.injEq] at hown
      exact hown ▸ hafter
    · exact hinv.process k own process hown hprocess

theorem Inv.unlink (hinv : Inv clients state) (path : Bytes) :
    Inv clients (state.unlink path) where
  length := hinv.length
  server := by
    simp only [State.unlink, Function.update_apply]
    split
    · exact Or.inr rfl
    · exact hinv.server
  owner := by
    intro other i hfile
    simp only [State.unlink, Function.update_apply] at hfile
    split at hfile
    · exact absurd hfile (by simp)
    · exact hinv.owner other i hfile
  onlyServer := by
    intro other hfile
    simp only [State.unlink, Function.update_apply] at hfile
    split at hfile
    · exact absurd hfile (by simp)
    · exact hinv.onlyServer other hfile
  inflight := hinv.inflight
  process := hinv.process

theorem Inv.link (hinv : Inv clients state) (hi : clients[i]? = some client)
    (hclean : client.Clean) : Inv clients (state.link client.path (.client i)) where
  length := hinv.length
  server := by
    rw [link_files, Function.update_of_ne (path_ne hclean).symm]
    exact hinv.server
  owner := by
    intro path k hfile
    rw [link_files, Function.update_apply] at hfile
    split at hfile
    · rename_i hpath
      rw [Option.some.injEq, Owner.client.injEq] at hfile
      exact ⟨client, hfile ▸ hi, hpath.symm⟩
    · exact hinv.owner path k hfile
  onlyServer := by
    intro path hfile
    rw [link_files, Function.update_apply] at hfile
    split at hfile
    · exact absurd hfile (by simp)
    · exact hinv.onlyServer path hfile
  inflight := hinv.inflight
  process := hinv.process

/-- A message of a client can only get to the server. -/
theorem deliver_message (hinv : Inv clients state)
    (hdeliver : deliver state servSockName datagram = some next) :
    state.server ≠ .stopped ∧ next = { state with queue := state.queue ++ [datagram] } := by
  unfold deliver at hdeliver
  rcases hinv.server with hserver | hserver
  · rw [hserver] at hdeliver
    obtain ⟨hup, hnext⟩ := Option.ite_none_right_eq_some.mp hdeliver
    exact ⟨hup, (Option.some.inj hnext).symm⟩
  · rw [hserver] at hdeliver
    exact absurd hdeliver (by simp)

theorem Inv.message (hinv : Inv clients state) (hclient : client ∈ clients) :
    Inv clients { state with queue := state.queue ++ [(client.path, client.message)] } :=
  { hinv with
    inflight := by
      intro datagram hmem
      have hcases : datagram ∈ state.inflight ∨ datagram = (client.path, client.message) := by
        unfold State.inflight at hmem ⊢
        cases hserver : state.server with
        | replying first =>
            simp only [hserver, List.mem_cons, List.mem_append, List.not_mem_nil,
              or_false] at hmem ⊢
            tauto
        | receiving | stopped =>
            simp only [hserver, List.mem_append, List.mem_cons, List.not_mem_nil,
              or_false] at hmem ⊢
            exact hmem
      rcases hcases with h | rfl
      · exact hinv.inflight datagram h
      · exact ⟨client, hclient, rfl, rfl⟩ }

theorem Inv.deliver (hinv : Inv clients state) (hclient : client ∈ clients)
    (hclean : client.Clean) (hpath : client.path = path)
    (hdeliver : deliver state path (servSockName, response client.message) = some next) :
    Inv clients next := by
  unfold UnixEcho.deliver at hdeliver
  cases hfile : state.files path with
  | none => simp [hfile] at hdeliver
  | some owner =>
      cases owner with
      | server =>
          have hserver := hinv.onlyServer path hfile
          exact absurd (hpath.trans hserver) (path_ne hclean)
      | client k =>
          simp only [hfile, Option.bind_eq_some_iff] at hdeliver
          obtain ⟨process, hprocess, hdeliver⟩ := hdeliver
          obtain ⟨_, hnext⟩ := Option.ite_none_right_eq_some.mp hdeliver
          obtain ⟨own, hown, hownPath⟩ := hinv.owner path k hfile
          have hok := hinv.process k own process hown hprocess
          rw [← Option.some.inj hnext]
          refine hinv.set hown ⟨?_, hok.done⟩
          intro datagram hmem
          rcases List.mem_append.mp hmem with h | h
          · exact hok.inbox datagram h
          · rw [List.mem_singleton.mp h]
            exact ⟨client, hclient, hpath.trans hownPath.symm, rfl⟩

theorem Inv.serve (hinv : Inv clients state) (hserve : serve state = some next) :
    Inv clients next := by
  unfold UnixEcho.serve at hserve
  split at hserve
  · rename_i path bytes queue hserver hqueue
    rw [Option.some.injEq] at hserve
    rw [← hserve]
    refine { hinv with inflight := ?_ }
    have hinflight : state.inflight = (path, bytes) :: queue := by
      simp only [State.inflight, hserver, hqueue]
    have hold := hinv.inflight
    rw [hinflight] at hold
    intro datagram hmem
    rcases List.mem_cons.mp hmem with rfl | h
    · obtain ⟨client, hclient, hpath, hmessage⟩ := hold _ List.mem_cons_self
      refine ⟨client, hclient, hpath, ?_⟩
      show bytes.take Unix.recvBufLen = client.message
      rw [← hmessage]
      apply List.take_of_length_le
      have hlength := @message_length client
      rw [← hmessage] at hlength
      exact hlength.trans (by decide)
    · exact hold datagram (List.mem_cons_of_mem _ h)
  · exact absurd hserve (by simp)

theorem Inv.reply (hinv : Inv clients state) (hclean : ∀ client ∈ clients, client.Clean)
    {sent : Bool} (hreply : reply state sent = some next) : Inv clients next := by
  unfold UnixEcho.reply at hreply
  split at hreply
  · rename_i path buffer hserver
    have hinflight : state.inflight = (path, buffer) :: state.queue := by
      simp only [State.inflight, hserver]
    have hold := hinv.inflight
    rw [hinflight] at hold
    obtain ⟨client, hclient, hpath, hmessage⟩ := hold _ List.mem_cons_self
    have hanswered : Inv clients { state with server := .receiving } :=
      { hinv with inflight := fun datagram h => hold datagram (List.mem_cons_of_mem _ h) }
    simp only at hreply
    split at hreply
    · rw [Option.some.injEq] at hreply
      rw [← hreply]
      cases hdeliver : UnixEcho.deliver { state with server := .receiving } path
          (servSockName, response buffer) with
      | none => exact hanswered
      | some delivered =>
          have hbuffer : buffer = client.message := hmessage
          rw [hbuffer] at hdeliver
          exact hanswered.deliver hclient (hclean client hclient) hpath hdeliver
    · exact Option.some.inj hreply ▸ hanswered
  · exact absurd hreply (by simp)

theorem ProcessOk.mono {own : Client} (hok : ProcessOk clients own process)
    (hinbox : ∀ datagram ∈ after.inbox, datagram ∈ process.inbox)
    (hdone : ∀ text, after.pc ≠ .done text) : ProcessOk clients own after :=
  ⟨fun datagram h => hok.inbox datagram (hinbox datagram h),
    fun text h => absurd h (hdone text)⟩

theorem Inv.advance (hinv : Inv clients state) (hi : clients[i]? = some client)
    (hclean : client.Clean) (hprocess : state.processes[i]? = some process)
    (hadvance : advance state i client process event = some next) : Inv clients next := by
  have hok := hinv.process i client process hi hprocess
  have hkeep : ∀ pc, (∀ text, pc ≠ .done text) →
      ProcessOk clients client { process with pc := pc } :=
    fun pc hpc => hok.mono (fun _ h => h) hpc
  unfold UnixEcho.advance at hadvance
  cases event with
  | bind k =>
      obtain ⟨_, hadvance⟩ := Option.ite_none_right_eq_some.mp hadvance
      split at hadvance
      · exact Option.some.inj hadvance ▸ (hinv.set hi (hkeep _ (by simp))).link hi hclean
      · exact Option.some.inj hadvance ▸ hinv.set hi (hkeep _ (by simp))
  | send k =>
      obtain ⟨_, hadvance⟩ := Option.ite_none_right_eq_some.mp hadvance
      rw [hclean.server] at hadvance
      split at hadvance
      · rename_i delivered hdeliver
        obtain ⟨_, rfl⟩ := deliver_message hinv hdeliver
        have hmessage := hinv.message (List.mem_of_getElem? hi)
        exact Option.some.inj hadvance ▸ hmessage.set hi (hkeep _ (by simp))
      · exact Option.some.inj hadvance ▸ hinv.set hi (hkeep _ (by simp))
  | receive k =>
      obtain ⟨_, hadvance⟩ := Option.ite_none_right_eq_some.mp hadvance
      split at hadvance
      · exact absurd hadvance (by simp)
      · rename_i datagram inbox hinbox
        have hmem : datagram ∈ process.inbox := hinbox ▸ List.mem_cons_self
        have hdone : ProcessOk clients client ⟨.done (datagram.2.take bufSize), inbox⟩ := by
          constructor
          · intro other h
            exact hok.inbox other (hinbox ▸ List.mem_cons_of_mem _ h)
          · intro text htext
            obtain ⟨sender, hsender, hpath, hresponse⟩ := hok.inbox datagram hmem
            refine ⟨sender, hsender, hpath, ?_⟩
            rw [← Pc.done.inj htext, hresponse]
            rfl
        exact Option.some.inj hadvance ▸ (hinv.set hi hdone).unlink _
  | receiveFails k =>
      obtain ⟨_, hadvance⟩ := Option.ite_none_right_eq_some.mp hadvance
      exact Option.some.inj hadvance ▸ (hinv.set hi (hkeep _ (by simp))).unlink _
  | kill k =>
      obtain ⟨_, hadvance⟩ := Option.ite_none_right_eq_some.mp hadvance
      exact Option.some.inj hadvance ▸ hinv.set hi (hkeep _ (by simp))
  | serve | reply sent | stop => simp at hadvance

theorem Inv.step (hinv : Inv clients state) (hclean : ∀ client ∈ clients, client.Clean)
    (hstep : step clients state event = some next) : Inv clients next := by
  cases event with
  | serve => exact hinv.serve hstep
  | reply sent => exact hinv.reply hclean hstep
  | stop =>
      obtain ⟨_, hnext⟩ := Option.ite_none_right_eq_some.mp hstep
      rw [← Option.some.inj hnext]
      exact { hinv.unlink servSockName with
        inflight := fun _ h => absurd h List.not_mem_nil }
  | bind k | send k | receive k | receiveFails k | kill k =>
      simp only [UnixEcho.step, Option.bind_eq_some_iff] at hstep
      obtain ⟨client, hi, process, hprocess, hadvance⟩ := hstep
      exact hinv.advance hi (hclean client (List.mem_of_getElem? hi)) hprocess hadvance

/-! ## Runs -/

variable {inbox : List Datagram}

theorem step_bind (hi : clients[i]? = some client)
    (hprocess : state.processes[i]? = some ⟨.started, inbox⟩)
    (hfree : state.files client.path = none) :
    step clients state (.bind i) =
      some ((state.set i ⟨.bound, inbox⟩).link client.path (.client i)) := by
  simp [step, hi, hprocess, advance, hfree]

theorem step_send (hi : clients[i]? = some client) (hclean : client.Clean)
    (hprocess : state.processes[i]? = some ⟨.bound, inbox⟩)
    (hserver : state.files servSockName = some .server) (hup : state.server ≠ .stopped) :
    step clients state (.send i) =
      some (State.set { state with queue := state.queue ++ [(client.path, client.message)] } i
        ⟨.waiting, inbox⟩) := by
  simp [step, hi, hprocess, advance, hclean.server, deliver, hserver, hup]

theorem step_receive (hi : clients[i]? = some client)
    (hprocess : state.processes[i]? = some ⟨.waiting, datagram :: inbox⟩) :
    step clients state (.receive i) =
      some ((state.set i ⟨.done (datagram.2.take bufSize), inbox⟩).unlink client.name) := by
  simp [step, hi, hprocess, advance]

theorem step_receiveFails (hi : clients[i]? = some client)
    (hprocess : state.processes[i]? = some ⟨.waiting, inbox⟩) :
    step clients state (.receiveFails i) =
      some ((state.set i ⟨.failed, inbox⟩).unlink client.name) := by
  simp [step, hi, hprocess, advance]

theorem step_serve {queue : List Datagram} (hserver : state.server = .receiving)
    (hqueue : state.queue = datagram :: queue) :
    step clients state .serve =
      some { state with
        server := .replying (datagram.1, datagram.2.take Unix.recvBufLen)
        queue := queue } := by
  simp [step, serve, hserver, hqueue]

theorem step_reply {buffer : Bytes} (hserver : state.server = .replying (path, buffer))
    (hfile : state.files path = some (.client j))
    (hprocess : state.processes[j]? = some process) (halive : process.pc.alive = true) :
    step clients state (.reply true) =
      some (State.set { state with server := .receiving } j
        { process with inbox := process.inbox ++ [(servSockName, response buffer)] }) := by
  simp [step, reply, hserver, deliver, hfile, hprocess, halive]

/-- A client whose name is free can send its message. -/
theorem exists_request (hi : clients[i]? = some client) (hclean : client.Clean)
    (hprocess : state.processes[i]? = some ⟨.started, []⟩)
    (hfree : state.files client.path = none)
    (hserver : state.files servSockName = some .server) (hup : state.server ≠ .stopped) :
    ∃ final, run (step clients) state [.bind i, .send i] = some final ∧
      final.server = state.server ∧
      final.queue = state.queue ++ [(client.path, client.message)] ∧
      final.files = Function.update state.files client.path (some (.client i)) ∧
      final.processes[i]? = some ⟨.waiting, []⟩ ∧
      ∀ k, k ≠ i → final.processes[k]? = state.processes[k]? := by
  have hbind := step_bind hi hprocess hfree
  have hbound : ((state.set i ⟨.bound, []⟩).link client.path (.client i)).processes[i]? =
      some ⟨.bound, []⟩ := set_self hprocess
  have hname : ((state.set i ⟨.bound, []⟩).link client.path (.client i)).files servSockName =
      some .server := by
    rw [link_files, Function.update_of_ne (path_ne hclean).symm]
    exact hserver
  have hsend := step_send hi hclean hbound hname hup
  refine ⟨_, run_cons.mpr ⟨_, hbind, run_cons.mpr ⟨_, hsend, run_nil _⟩⟩, rfl, rfl, rfl, ?_, ?_⟩
  · exact set_self hbound
  · intro k hk
    exact (set_other hk.symm).trans (set_other hk.symm)

/-- A client gives up after it has sent, and another one with its name gets the
reply. -/
theorem exists_foreign (hclean : ∀ client ∈ clients, client.Clean)
    (hi : clients[i]? = some client) (hj : clients[j]? = some other) (hij : i ≠ j)
    (hname : client.name = other.name) :
    ∃ events state process, run (step clients) (.initial clients) events = some state ∧
      state.processes[j]? = some process ∧ process.pc = .done client.echo := by
  have hclient := hclean client (List.mem_of_getElem? hi)
  have hother := hclean other (List.mem_of_getElem? hj)
  have hpath : client.path = other.path := by
    unfold Client.path
    rw [hclient.own, hother.own, hname]
  have hstarted : ∀ (k : Nat) (c : Client), clients[k]? = some c →
      (State.initial clients).processes[k]? = some (Process.mk .started []) := by
    intro k c hk
    rw [State.initial, List.getElem?_map, hk]
    rfl
  have hfree : (State.initial clients).files client.path = none := by
    simp [State.initial, Function.update_of_ne (path_ne hclient)]
  obtain ⟨s₁, hrun₁, hserver₁, hqueue₁, hfiles₁, hsent₁, hothers₁⟩ :=
    exists_request hi hclient (hstarted i client hi) hfree
      (by simp [State.initial]) (by simp [State.initial])
  -- The client gives up.
  have hfails := step_receiveFails hi hsent₁
  have hremoved : client.name = client.path := hclient.own.symm
  have hfree₂ : ((s₁.set i ⟨.failed, []⟩).unlink client.name).files other.path = none := by
    rw [unlink_files, hremoved, hpath]
    exact Function.update_self _ _ _
  have hserverFile₂ : ((s₁.set i ⟨.failed, []⟩).unlink client.name).files servSockName =
      some .server := by
    rw [unlink_files, hremoved, Function.update_of_ne (path_ne hclient).symm, set_files, hfiles₁,
      Function.update_of_ne (path_ne hclient).symm]
    simp [State.initial]
  have hstarted₂ : ((s₁.set i ⟨.failed, []⟩).unlink client.name).processes[j]? =
      some ⟨.started, []⟩ := by
    show (s₁.processes.set i ⟨.failed, []⟩)[j]? = _
    rw [set_other hij, hothers₁ j hij.symm, hstarted j other hj]
  obtain ⟨s₃, hrun₃, hserver₃, hqueue₃, hfiles₃, hsent₃, _⟩ :=
    exists_request hj hother hstarted₂ hfree₂ hserverFile₂ (by
      rw [unlink_server, set_server, hserver₁]
      simp [State.initial])
  -- The server answers the first message.
  have hreceiving₃ : s₃.server = .receiving := by
    rw [hserver₃, unlink_server, set_server, hserver₁]
    rfl
  have hfirst : s₃.queue = (client.path, client.message) :: [(other.path, other.message)] := by
    rw [hqueue₃, unlink_queue, set_queue, hqueue₁]
    rfl
  have hserve : step clients s₃ .serve = some _ := step_serve hreceiving₃ hfirst
  have hfile₃ : s₃.files client.path = some (.client j) := by
    rw [hfiles₃, hpath]
    exact Function.update_self _ _ _
  have hbuffer : client.message.take Unix.recvBufLen = client.message :=
    List.take_of_length_le ((@message_length client).trans (by decide))
  rw [hbuffer] at hserve
  have hreply := @step_reply clients
    { s₃ with
      server := .replying (client.path, client.message)
      queue := [(other.path, other.message)] }
    j ⟨.waiting, []⟩ client.path client.message rfl hfile₃ hsent₃ rfl
  have hanswered : (State.set { s₃ with
      server := .receiving
      queue := [(other.path, other.message)] } j
        ⟨.waiting, [] ++ [(servSockName, response client.message)]⟩).processes[j]? =
      some ⟨.waiting, [(servSockName, response client.message)]⟩ := set_self hsent₃
  have hreceived := step_receive hj hanswered
  refine ⟨_, _, _, run_append.mpr ⟨s₁, hrun₁, run_cons.mpr ⟨_, hfails, run_append.mpr
    ⟨s₃, hrun₃, run_cons.mpr ⟨_, hserve, run_cons.mpr ⟨_, hreply, run_cons.mpr
      ⟨_, hreceived, run_nil _⟩⟩⟩⟩⟩⟩, set_self hanswered, rfl⟩

/-- A client can only get its own message back, exactly if no two clients with
the same name have different process ids: one that gives up leaves its name, and
the reply, to the next. -/
theorem echoes_own_iff (hclean : ∀ client ∈ clients, client.Clean) :
    (∀ events state (i : Nat) (client : Client) (process : Process) (text : Bytes),
      run (step clients) (.initial clients) events = some state →
        clients[i]? = some client → state.processes[i]? = some process →
          process.pc = .done text → text = client.echo) ↔
      ∀ client ∈ clients, ∀ other ∈ clients, client.name = other.name →
        client.pid = other.pid := by
  constructor
  · intro hown client hclient other hother hname
    obtain ⟨i, hi⟩ := List.mem_iff_getElem?.mp hclient
    obtain ⟨j, hj⟩ := List.mem_iff_getElem?.mp hother
    by_cases hij : i = j
    · subst hij
      rw [hi, Option.some.injEq] at hj
      rw [hj]
    · obtain ⟨events, state, process, hrun, hprocess, hdone⟩ :=
        exists_foreign hclean hi hj hij hname
      exact echo_inj.mp (hown events state j other process _ hrun hj hprocess hdone)
  · intro hpids events state i client process text hrun hi hprocess hdone
    have hinv : Inv clients state :=
      run_invariant (fun _ _ _ hinv hstep => hinv.step hclean hstep) Inv.initial hrun
    obtain ⟨sender, hsender, hpath, htext⟩ :=
      (hinv.process i client process hi hprocess).done text hdone
    have hclient := List.mem_of_getElem? hi
    have hname : sender.name = client.name := by
      unfold Client.path at hpath
      rwa [(hclean sender hsender).own, (hclean client hclient).own] at hpath
    rw [htext]
    exact echo_inj.mpr (hpids sender hsender client hclient hname)

/-- A client of this name and number, in memory that is zero. -/
def plainClient (name : Bytes) (pid : Fin 32768) (hpid : 0 < pid.val) : Client where
  name := name
  pid := pid.val
  clientAddress := List.replicate 108 0
  serverAddress := List.replicate 108 0
  positive := hpid
  int := pid.isLt.trans (by decide)

/-- Two clients that are both called `a`. -/
def namesakes : List Client :=
  [plainClient [97] 500 (by decide), plainClient [97] 501 (by decide)]

theorem namesakes_clean : ∀ client ∈ namesakes, client.Clean := by
  intro client hclient
  simp only [namesakes, List.mem_cons, List.not_mem_nil, or_false] at hclient
  rcases hclient with rfl | rfl <;>
  exact ⟨by decide +kernel, by decide +kernel, by decide +kernel⟩

theorem echoes_own_iff_namesakes :
    ¬ ∀ events state (i : Nat) (client : Client) (process : Process) (text : Bytes),
      run (step namesakes) (.initial namesakes) events = some state →
        namesakes[i]? = some client → state.processes[i]? = some process →
          process.pc = .done text → text = client.echo := by
  intro hown
  have hpid := (echoes_own_iff namesakes_clean).mp hown _ List.mem_cons_self _
    (List.mem_cons_of_mem _ List.mem_cons_self) rfl
  exact absurd hpid (by decide)

end UnixEcho
end Sockets
end OsStuff
