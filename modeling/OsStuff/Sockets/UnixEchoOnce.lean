import OsStuff.Sockets.UnixEcho

/-!
# Every reply once

As long as no client gives up before its reply, a name belongs to one client from
its `bind` to its `unlink`, and at most one message with this address is on its
way (`Once`).
-/

namespace OsStuff
namespace Sockets
namespace UnixEcho

open Library Library.Processes

variable {clients : List Client} {state next : State} {event : Event} {events : List Event}
  {i j : Nat} {client other : Client} {process after : Process} {path : Bytes}
  {datagram : Datagram}

/-- The messages with an address that the server has still to answer. -/
def State.pending (state : State) (path : Bytes) : Nat :=
  state.inflight.countP fun datagram => datagram.1 = path

theorem pending_eq_zero : state.pending path = 0 ↔
    ∀ datagram ∈ state.inflight, datagram.1 ≠ path := by
  simp [State.pending]

@[simp] theorem set_inflight : (state.set i after).inflight = state.inflight := rfl

theorem queue_inflight :
    ({ state with queue := state.queue ++ [datagram] } : State).inflight =
    state.inflight ++ [datagram] := by
  unfold State.inflight
  cases state.server <;> rfl

/-- A client with its process. -/
structure At (clients : List Client) (processes : List Process) (i : Nat)
    (client : Client) (process : Process) : Prop where
  client : clients[i]? = some client
  process : processes[i]? = some process

/-- What a process has, depending on where it is. -/
structure Local (client : Client) (process : Process) : Prop where
  fresh : process.pc = .started ∨ process.pc = .bound → process.inbox = []
  inbox : ∀ datagram ∈ process.inbox, datagram.2 = response client.message
  done : ∀ text, process.pc = .done text → text = client.echo ∧ process.inbox = []

structure Once (clients : List Client) (state : State) : Prop where
  server : state.files servSockName = some .server ∨ state.files servSockName = none
  onlyServer : ∀ path, state.files path = some .server → path = servSockName
  held : ∀ i client process, At clients state.processes i client process →
    process.pc.alive = true → state.files client.path = some (.client i)
  owner : ∀ path i, state.files path = some (.client i) → ∃ client process,
    At clients state.processes i client process ∧ client.path = path ∧
      (process.pc.alive = true ∨ process.pc = .failed)
  inflight : ∀ datagram ∈ state.inflight, ∃ i client process,
    At clients state.processes i client process ∧ state.files datagram.1 = some (.client i) ∧
      datagram.2 = client.message ∧ (process.pc = .waiting ∨ process.pc = .failed)
  once : ∀ i client process, At clients state.processes i client process →
    state.files client.path = some (.client i) →
      state.pending client.path + process.inbox.length ≤ 1
  process : ∀ i client process, At clients state.processes i client process → Local client process

section At

variable {processes : List Process}

theorem At.unique (hat : At clients processes i client process) {client' : Client}
    {process' : Process} (hat' : At clients processes i client' process') :
    client' = client ∧ process' = process :=
  ⟨Option.some.inj (hat'.client.symm.trans hat.client),
    Option.some.inj (hat'.process.symm.trans hat.process)⟩

theorem At.cases {k : Nat} {process' : Process}
    (hat : At clients processes i client process)
    {client' : Client} (hset : At clients (processes.set i after) k client' process') :
    (k = i ∧ client' = client ∧ process' = after) ∨
      (k ≠ i ∧ At clients processes k client' process') := by
  rcases set_cases hset.process with ⟨rfl, rfl⟩ | ⟨hne, hprocess⟩
  · exact Or.inl ⟨rfl, Option.some.inj (hset.client.symm.trans hat.client), rfl⟩
  · exact Or.inr ⟨hne, hset.client, hprocess⟩

theorem At.self (hat : At clients processes i client process) :
    At clients (processes.set i after) i client after :=
  ⟨hat.client, set_self hat.process⟩

theorem At.others {k : Nat} {client' : Client} {process' : Process}
    (hat : At clients processes k client' process') (hne : k ≠ i) :
    At clients (processes.set i after) k client' process' :=
  ⟨hat.client, (set_other hne.symm).trans hat.process⟩

end At

/-- Nothing is on its way from a client that has not sent. -/
theorem Once.unsent (honce : Once clients state)
    (hat : At clients state.processes i client process)
    (hfile : state.files client.path = some (.client i) ∨ state.files client.path = none)
    (hwaiting : process.pc ≠ .waiting) (hfailed : process.pc ≠ .failed) :
    state.pending client.path = 0 := by
  rw [pending_eq_zero]
  intro datagram hmem hpath
  obtain ⟨k, client', process', hat', hfile', _, hpc⟩ := honce.inflight datagram hmem
  rw [hpath] at hfile'
  rcases hfile with hfile | hfile
  · rw [hfile, Option.some.injEq, Owner.client.injEq] at hfile'
    subst hfile'
    obtain ⟨_, rfl⟩ := hat.unique hat'
    exact hpc.elim hwaiting hfailed
  · rw [hfile] at hfile'
    exact absurd hfile' (by simp)

theorem initial_at (hat : At clients (State.initial clients).processes i client process) :
    process = ⟨.started, []⟩ := by
  have hprocess := hat.process
  rw [State.initial, List.getElem?_map, Option.map_eq_some_iff] at hprocess
  obtain ⟨_, _, rfl⟩ := hprocess
  rfl

/-- At first no client has a name. -/
theorem initial_files {k : Nat} :
    (State.initial clients).files path ≠ some (Owner.client k) := by
  simp only [State.initial, Function.update_apply]
  split <;> simp

theorem Once.initial : Once clients (.initial clients) where
  server := Or.inl (by simp [State.initial])
  onlyServer := (@Inv.initial clients).onlyServer
  held := by
    intro i client process hat halive
    rw [initial_at hat] at halive
    exact absurd halive (by simp [Pc.alive])
  owner := fun _ _ hfile => absurd hfile initial_files
  inflight := fun _ hmem => absurd hmem List.not_mem_nil
  once := fun _ _ _ _ hfile => absurd hfile initial_files
  process := by
    intro i client process hat
    rw [initial_at hat]
    exact ⟨fun _ => rfl, fun _ h => absurd h List.not_mem_nil, fun _ h => absurd h (by simp)⟩

/-! ## One client moves -/

theorem Once.held_set (honce : Once clients state)
    (hat : At clients state.processes i client process)
    (hafter : after.pc.alive = true → state.files client.path = some (.client i)) :
    ∀ k other process', At clients (state.processes.set i after) k other process' →
      process'.pc.alive = true → state.files other.path = some (.client k) := by
  intro k other process' hset halive
  rcases hat.cases hset with ⟨rfl, rfl, rfl⟩ | ⟨_, hold⟩
  · exact hafter halive
  · exact honce.held k other process' hold halive

theorem Once.owner_set (honce : Once clients state)
    (hat : At clients state.processes i client process)
    (hafter : after.pc.alive = true ∨ after.pc = .failed) :
    ∀ path k, state.files path = some (.client k) → ∃ other process',
      At clients (state.processes.set i after) k other process' ∧ other.path = path ∧
        (process'.pc.alive = true ∨ process'.pc = .failed) := by
  intro path k hfile
  obtain ⟨other, process', hold, hpath, hpc⟩ := honce.owner path k hfile
  by_cases hne : k = i
  · subst hne
    obtain ⟨rfl, _⟩ := hat.unique hold
    exact ⟨other, after, hat.self, hpath, hafter⟩
  · exact ⟨other, process', hold.others hne, hpath, hpc⟩

/-- A client that has a message on its way does not go back. -/
theorem Once.inflight_set (honce : Once clients state)
    (hat : At clients state.processes i client process)
    (hafter : process.pc = .waiting ∨ process.pc = .failed →
      after.pc = .waiting ∨ after.pc = .failed) :
    ∀ datagram ∈ state.inflight, ∃ k other process',
      At clients (state.processes.set i after) k other process' ∧
        state.files datagram.1 = some (.client k) ∧ datagram.2 = other.message ∧
          (process'.pc = .waiting ∨ process'.pc = .failed) := by
  intro datagram hmem
  obtain ⟨k, other, process', hold, hfile, hmessage, hpc⟩ := honce.inflight datagram hmem
  by_cases hne : k = i
  · subst hne
    obtain ⟨rfl, rfl⟩ := hat.unique hold
    exact ⟨k, other, after, hat.self, hfile, hmessage, hafter hpc⟩
  · exact ⟨k, other, process', hold.others hne, hfile, hmessage, hpc⟩

theorem Once.process_set (honce : Once clients state)
    (hat : At clients state.processes i client process) (hafter : Local client after) :
    ∀ k other process', At clients (state.processes.set i after) k other process' →
      Local other process' := by
  intro k other process' hset
  rcases hat.cases hset with ⟨rfl, rfl, rfl⟩ | ⟨_, hold⟩
  · exact hafter
  · exact honce.process k other process' hold

/-! ## The steps of a client -/

/-- A client ends without removing its name. -/
theorem Once.fail (honce : Once clients state)
    (hat : At clients state.processes i client process) :
    Once clients (state.set i { process with pc := .failed }) where
  server := honce.server
  onlyServer := honce.onlyServer
  held := honce.held_set hat (by simp [Pc.alive])
  owner := honce.owner_set hat (Or.inr rfl)
  inflight := honce.inflight_set hat (fun _ => Or.inr rfl)
  once := by
    intro k client' process' hat' hfile
    rcases hat.cases hat' with ⟨rfl, rfl, rfl⟩ | ⟨_, hold⟩
    · exact honce.once k client' process hat hfile
    · exact honce.once k client' process' hold hfile
  process := honce.process_set hat
    ⟨by simp, (honce.process i client process hat).inbox, by simp⟩

theorem Once.bind (honce : Once clients state)
    (hat : At clients state.processes i client process)
    (hclean : client.Clean) (hstarted : process.pc = .started)
    (hfree : state.files client.path = none) :
    Once clients ((state.set i { process with pc := .bound }).link client.path (.client i)) := by
  have hunsent := honce.unsent hat (Or.inr hfree) (by simp [hstarted]) (by simp [hstarted])
  have hlocal := honce.process i client process hat
  have hfiles : ∀ {path k}, path ≠ client.path →
      ((state.set i { process with pc := .bound }).link client.path (.client i)).files path =
        some (Owner.client k) → state.files path = some (.client k) := by
    intro path k hne hfile
    rwa [link_files, Function.update_of_ne hne] at hfile
  exact
    { server := by
        rw [link_files, Function.update_of_ne (path_ne hclean).symm]
        exact honce.server
      onlyServer := by
        intro path hfile
        rw [link_files, Function.update_apply] at hfile
        split at hfile
        · exact absurd hfile (by simp)
        · exact honce.onlyServer path hfile
      held := by
        intro k client' process' hat' halive
        rcases hat.cases hat' with ⟨rfl, rfl, _⟩ | ⟨_, hold⟩
        · exact Function.update_self _ _ _
        · have hfile := honce.held k client' process' hold halive
          rw [link_files, Function.update_of_ne (by rintro h; simp [h, hfree] at hfile)]
          exact hfile
      owner := by
        intro path k hfile
        by_cases hpath : path = client.path
        · rw [hpath, link_files, Function.update_self, Option.some.injEq,
            Owner.client.injEq] at hfile
          subst hfile
          exact ⟨client, _, hat.self, hpath.symm, Or.inl rfl⟩
        · obtain ⟨client', process', hold, hown, hpc⟩ := honce.owner path k (hfiles hpath hfile)
          have hne : k ≠ i := by
            rintro rfl
            obtain ⟨_, rfl⟩ := hat.unique hold
            simp [hstarted, Pc.alive] at hpc
          exact ⟨client', process', hold.others hne, hown, hpc⟩
      inflight := by
        intro datagram hmem
        obtain ⟨k, client', process', hold, hfile, hmessage, hpc⟩ :=
          honce.inflight_set hat (by simp [hstarted]) datagram hmem
        refine ⟨k, client', process', hold, ?_, hmessage, hpc⟩
        rw [link_files, Function.update_of_ne (pending_eq_zero.mp hunsent datagram hmem)]
        exact hfile
      once := by
        intro k client' process' hat' hfile
        rcases hat.cases hat' with ⟨rfl, rfl, rfl⟩ | ⟨hne, hold⟩
        · show state.pending client'.path + process.inbox.length ≤ 1
          rw [hunsent, hlocal.fresh (Or.inl hstarted)]
          exact Nat.zero_le 1
        · have hpath : client'.path ≠ client.path := by
            intro h
            rw [h, link_files, Function.update_self, Option.some.injEq,
              Owner.client.injEq] at hfile
            exact hne hfile.symm
          exact honce.once k client' process' hold (hfiles hpath hfile)
      process := honce.process_set hat
        ⟨fun _ => hlocal.fresh (Or.inl hstarted), hlocal.inbox, by simp⟩ }

theorem pending_queue :
    ({ state with queue := state.queue ++ [datagram] } : State).pending path =
      state.pending path + if datagram.1 = path then 1 else 0 := by
  unfold State.pending
  rw [queue_inflight, List.countP_append, List.countP_singleton]
  simp only [decide_eq_true_eq]

theorem Once.send (honce : Once clients state)
    (hat : At clients state.processes i client process)
    (hbound : process.pc = .bound) :
    Once clients (State.set { state with
      queue := state.queue ++ [(client.path, client.message)] } i
        { process with pc := .waiting }) := by
  have hheld := honce.held i client process hat (by simp [hbound, Pc.alive])
  have hunsent := honce.unsent hat (Or.inl hheld) (by simp [hbound]) (by simp [hbound])
  have hlocal := honce.process i client process hat
  exact
    { server := honce.server
      onlyServer := honce.onlyServer
      held := honce.held_set hat (fun _ => hheld)
      owner := honce.owner_set hat (Or.inl rfl)
      inflight := by
        intro datagram hmem
        rw [set_inflight, queue_inflight] at hmem
        rcases List.mem_append.mp hmem with hmem | hmem
        · exact honce.inflight_set hat (fun _ => Or.inl rfl) datagram hmem
        · rw [List.mem_singleton.mp hmem]
          exact ⟨i, client, _, hat.self, hheld, rfl, Or.inl rfl⟩
      once := by
        intro k other process' hset hfile
        rcases hat.cases hset with ⟨rfl, rfl, rfl⟩ | ⟨hne, hold⟩
        · show State.pending _ _ + process.inbox.length ≤ 1
          rw [hlocal.fresh (Or.inr hbound)]
          show State.pending { state with
            queue := state.queue ++ [(other.path, other.message)] } other.path + 0 ≤ 1
          rw [pending_queue, hunsent, if_pos rfl]
        · have hpath : client.path ≠ other.path := by
            intro h
            have hother : state.files other.path = some (.client k) := hfile
            rw [← h, hheld, Option.some.injEq, Owner.client.injEq] at hother
            exact hne hother.symm
          have hle := honce.once k other process' hold hfile
          show State.pending { state with
            queue := state.queue ++ [(client.path, client.message)] } other.path + _ ≤ 1
          rw [pending_queue, if_neg hpath]
          exact hle
      process := honce.process_set hat ⟨by simp, hlocal.inbox, by simp⟩ }

/-- The reply of a client is the only message with its address. -/
theorem Once.received (honce : Once clients state)
    (hat : At clients state.processes i client process)
    (hwaiting : process.pc = .waiting) {inbox : List Datagram}
    (hinbox : process.inbox = datagram :: inbox) :
    inbox = [] ∧ state.pending client.path = 0 := by
  have hheld := honce.held i client process hat (by simp [hwaiting, Pc.alive])
  have hle := honce.once i client process hat hheld
  rw [hinbox, List.length_cons] at hle
  exact ⟨List.length_eq_zero_iff.mp (by omega), by omega⟩

theorem Once.receive (honce : Once clients state)
    (hat : At clients state.processes i client process)
    (hclean : client.Clean) (hwaiting : process.pc = .waiting) {inbox : List Datagram}
    (hinbox : process.inbox = datagram :: inbox) :
    Once clients ((state.set i ⟨.done (datagram.2.take bufSize), inbox⟩).unlink
      client.path) := by
  have hheld := honce.held i client process hat (by simp [hwaiting, Pc.alive])
  obtain ⟨hlast, hnone⟩ := honce.received hat hwaiting hinbox
  have hlocal := honce.process i client process hat
  have hfiles : ∀ {path owner}, (Function.update state.files client.path none) path =
      some owner → path ≠ client.path ∧ state.files path = some owner := by
    intro path owner hfile
    rw [Function.update_apply] at hfile
    split at hfile
    · exact absurd hfile (by simp)
    · rename_i hne
      exact ⟨hne, hfile⟩
  exact
    { server := by
        rw [unlink_files, Function.update_of_ne (path_ne hclean).symm]
        exact honce.server
      onlyServer := fun path hfile => honce.onlyServer path (hfiles hfile).2
      held := by
        intro k other process' hset halive
        rcases hat.cases hset with ⟨_, _, rfl⟩ | ⟨hne, hold⟩
        · exact absurd halive (by simp [Pc.alive])
        · have hfile := honce.held k other process' hold halive
          rw [unlink_files, Function.update_of_ne]
          · exact hfile
          · intro h
            rw [h, hheld, Option.some.injEq, Owner.client.injEq] at hfile
            exact hne hfile.symm
      owner := by
        intro path k hfile
        obtain ⟨hpath, hfile⟩ := hfiles hfile
        obtain ⟨other, process', hold, hown, hpc⟩ := honce.owner path k hfile
        have hne : k ≠ i := by
          rintro rfl
          obtain ⟨rfl, _⟩ := hat.unique hold
          exact hpath hown.symm
        exact ⟨other, process', hold.others hne, hown, hpc⟩
      inflight := by
        intro datagram hmem
        obtain ⟨k, other, process', hold, hfile, hmessage, hpc⟩ := honce.inflight datagram hmem
        have hpath := pending_eq_zero.mp hnone datagram hmem
        have hne : k ≠ i := by
          rintro rfl
          obtain ⟨owner, _, hown, hownPath, _⟩ := honce.owner _ _ hfile
          obtain ⟨rfl, _⟩ := hat.unique hown
          exact hpath hownPath.symm
        refine ⟨k, other, process', hold.others hne, ?_, hmessage, hpc⟩
        rw [unlink_files, Function.update_of_ne hpath]
        exact hfile
      once := by
        intro k other process' hset hfile
        obtain ⟨hpath, hfile⟩ := hfiles hfile
        rcases hat.cases hset with ⟨_, rfl, _⟩ | ⟨_, hold⟩
        · exact absurd rfl hpath
        · exact honce.once k other process' hold hfile
      process := by
        refine honce.process_set hat
          ⟨by simp, fun _ h => absurd (hlast ▸ h) List.not_mem_nil, ?_⟩
        intro text htext
        refine ⟨?_, hlast⟩
        have hresponse := hlocal.inbox datagram (hinbox ▸ List.mem_cons_self)
        rw [← Pc.done.inj htext, hresponse]
        rfl }

/-! ## The steps of the server -/

/-- The server goes on without a new message. -/
theorem Once.of_inflight (honce : Once clients state) (hfiles : next.files = state.files)
    (hprocesses : next.processes = state.processes)
    (hinflight : next.inflight.Sublist state.inflight) : Once clients next where
  server := hfiles ▸ honce.server
  onlyServer := hfiles ▸ honce.onlyServer
  held := by
    rw [hfiles, hprocesses]
    exact honce.held
  owner := by
    rw [hfiles, hprocesses]
    exact honce.owner
  inflight := by
    rw [hfiles, hprocesses]
    exact fun datagram hmem => honce.inflight datagram (hinflight.subset hmem)
  once := by
    rw [hfiles, hprocesses]
    intro i client process hat hfile
    have hle : next.pending client.path ≤ state.pending client.path := hinflight.countP_le
    exact (Nat.add_le_add_right hle _).trans (honce.once i client process hat hfile)
  process := by
    rw [hprocesses]
    exact honce.process

theorem Once.stop (honce : Once clients state) :
    Once clients { state.unlink servSockName with server := .stopped, queue := [] } := by
  have hfiles : ∀ {path k}, (Function.update state.files servSockName none) path =
      some (Owner.client k) → state.files path = some (.client k) := by
    intro path k hfile
    rw [Function.update_apply] at hfile
    split at hfile
    · exact absurd hfile (by simp)
    · exact hfile
  have hkeep : ∀ {path k}, state.files path = some (Owner.client k) →
      (Function.update state.files servSockName none) path = some (Owner.client k) := by
    intro path k hfile
    rw [Function.update_of_ne]
    · exact hfile
    · rintro rfl
      rcases honce.server with h | h <;> rw [h] at hfile <;> exact absurd hfile (by simp)
  exact
    { server := by
        show Function.update state.files servSockName none servSockName = _ ∨
          Function.update state.files servSockName none servSockName = none
        exact Or.inr (Function.update_self _ _ _)
      onlyServer := by
        intro path hfile
        replace hfile : Function.update state.files servSockName none path = some .server := hfile
        rw [Function.update_apply] at hfile
        split at hfile
        · exact absurd hfile (by simp)
        · exact honce.onlyServer path hfile
      held := fun k other process' hat halive => hkeep (honce.held k other process' hat halive)
      owner := fun path k hfile => honce.owner path k (hfiles hfile)
      inflight := fun _ hmem => absurd hmem List.not_mem_nil
      once := by
        intro k other process' hat hfile
        have hle := honce.once k other process' hat (hfiles hfile)
        show 0 + process'.inbox.length ≤ 1
        omega
      process := honce.process }

/-- The message that the server answers belongs to a client that waits or is
gone. -/
theorem Once.answering (honce : Once clients state)
    (hserver : state.server = .replying datagram) :
    ∃ k client process, At clients state.processes k client process ∧
      state.files client.path = some (.client k) ∧
      datagram = (client.path, client.message) ∧
      (process.pc = .waiting ∨ process.pc = .failed) := by
  have hmem : datagram ∈ state.inflight := by
    rw [State.inflight, hserver]
    exact List.mem_cons_self
  obtain ⟨k, client, process, hat, hfile, hmessage, hpc⟩ := honce.inflight datagram hmem
  obtain ⟨owner, _, hown, hpath, _⟩ := honce.owner _ _ hfile
  obtain ⟨rfl, _⟩ := hat.unique hown
  exact ⟨k, owner, process, hat, hpath ▸ hfile, Prod.ext hpath.symm hmessage, hpc⟩

theorem reply_failed (hserver : state.server = .replying (client.path, client.message))
    (hat : At clients state.processes i client process)
    (hfile : state.files client.path = some (.client i)) (hfailed : process.pc = .failed)
    {sent : Bool} : reply state sent = some { state with server := .receiving } := by
  cases sent with
  | false => simp [reply, hserver]
  | true => simp [reply, hserver, deliver, hfile, hat.process, hfailed, Pc.alive]

/-- The client with the reply in its queue. -/
def Process.answered (client : Client) (process : Process) : Process :=
  { process with inbox := process.inbox ++ [(servSockName, response client.message)] }

theorem reply_waiting (hserver : state.server = .replying (client.path, client.message))
    (hat : At clients state.processes i client process)
    (hfile : state.files client.path = some (.client i)) (hwaiting : process.pc = .waiting) :
    reply state true =
      some (State.set { state with server := .receiving } i (process.answered client)) := by
  simp [reply, hserver, deliver, hfile, hat.process, hwaiting, Pc.alive, Process.answered]

theorem pending_replying (hserver : state.server = .replying datagram) :
    state.pending path = ({ state with server := .receiving } : State).pending path +
      if datagram.1 = path then 1 else 0 := by
  simp only [State.pending, State.inflight, hserver, List.countP_cons, decide_eq_true_eq]

theorem Once.answered (honce : Once clients state)
    (hserver : state.server = .replying (client.path, client.message))
    (hat : At clients state.processes i client process)
    (hfile : state.files client.path = some (.client i)) (hwaiting : process.pc = .waiting) :
    Once clients (State.set { state with server := .receiving } i
      (process.answered client)) := by
  have hlocal := honce.process i client process hat
  have hwaits : (process.answered client).pc = .waiting := hwaiting
  exact
    { server := honce.server
      onlyServer := honce.onlyServer
      held := honce.held_set hat (fun _ => hfile)
      owner := honce.owner_set hat (Or.inl (by simp [hwaits, Pc.alive]))
      inflight := by
        intro datagram hmem
        refine honce.inflight_set hat (fun _ => Or.inl hwaits) datagram ?_
        rw [State.inflight, hserver]
        exact List.mem_cons_of_mem _ hmem
      once := by
        intro k other process' hset hown
        have hpending := @pending_replying state other.path (client.path, client.message) hserver
        rcases hat.cases hset with ⟨rfl, rfl, rfl⟩ | ⟨_, hold⟩
        · have hle := honce.once k other process hat hown
          rw [hpending, if_pos rfl] at hle
          show State.pending { state with server := .receiving } other.path +
            (process.inbox ++ [_]).length ≤ 1
          rw [List.length_append, List.length_singleton]
          omega
        · have hle := honce.once k other process' hold hown
          show State.pending { state with server := .receiving } other.path +
            process'.inbox.length ≤ 1
          omega
      process := by
        refine honce.process_set hat
          ⟨by simp [hwaits], ?_, by simp [hwaits]⟩
        intro datagram hmem
        rcases List.mem_append.mp hmem with h | h
        · exact hlocal.inbox datagram h
        · rw [List.mem_singleton.mp h] }

theorem Once.reply (honce : Once clients state) {sent : Bool}
    (hreply : reply state sent = some next) : Once clients next := by
  have hdrop : Once clients { state with server := .receiving } := by
    refine @Once.of_inflight clients state { state with server := .receiving } honce rfl rfl ?_
    unfold State.inflight
    cases state.server with
    | replying datagram => exact List.sublist_cons_self _ _
    | receiving | stopped => exact List.Sublist.refl _
  cases hserver : state.server with
  | receiving | stopped => simp [UnixEcho.reply, hserver] at hreply
  | replying datagram =>
      obtain ⟨k, client, process, hat, hfile, rfl, hpc⟩ := honce.answering hserver
      rcases hpc with hwaiting | hfailed
      · cases sent with
        | false =>
            simp only [UnixEcho.reply, hserver, Bool.false_eq_true, if_false,
              Option.some.injEq] at hreply
            exact hreply ▸ hdrop
        | true =>
            rw [reply_waiting hserver hat hfile hwaiting, Option.some.injEq] at hreply
            exact hreply ▸ honce.answered hserver hat hfile hwaiting
      · rw [reply_failed hserver hat hfile hfailed, Option.some.injEq] at hreply
        exact hreply ▸ hdrop

theorem serve_cases (hserve : serve state = some next) :
    ∃ datagram queue, state.server = .receiving ∧ state.queue = datagram :: queue ∧
      next = { state with
        server := .replying (datagram.1, datagram.2.take Unix.recvBufLen), queue := queue } := by
  unfold serve at hserve
  split at hserve
  · rename_i path bytes queue hserver hqueue
    exact ⟨_, _, hserver, hqueue, (Option.some.inj hserve).symm⟩
  · exact absurd hserve (by simp)

/-- A message is shorter than the buffer of the server. -/
theorem Once.serve (honce : Once clients state) (hserve : serve state = some next) :
    Once clients next ∧ next.files = state.files ∧ next.processes = state.processes ∧
      next.inflight = state.inflight := by
  obtain ⟨⟨path, bytes⟩, queue, hserver, hqueue, rfl⟩ := serve_cases hserve
  have hold : state.inflight = (path, bytes) :: queue := by
    rw [State.inflight, hserver]
    exact hqueue
  obtain ⟨_, client, _, _, _, hmessage, _⟩ :=
    honce.inflight (path, bytes) (hold ▸ List.mem_cons_self)
  have htake : bytes.take Unix.recvBufLen = bytes := by
    apply List.take_of_length_le
    have hlength := @message_length client
    rw [← hmessage] at hlength
    exact hlength.trans (by decide)
  have hinflight : State.inflight { state with
      server := .replying (path, bytes.take Unix.recvBufLen), queue := queue } =
      state.inflight := by
    rw [hold, htake]
    rfl
  exact ⟨honce.of_inflight rfl rfl (hinflight ▸ List.Sublist.refl _), rfl, rfl, hinflight⟩

/-! ## All steps -/

theorem bind_cases (hstep : step clients state (.bind i) = some next) :
    ∃ client process, At clients state.processes i client process ∧ process.pc = .started ∧
      ((state.files client.path = none ∧
          next = (state.set i { process with pc := .bound }).link client.path (.client i)) ∨
        (state.files client.path ≠ none ∧
          next = state.set i { process with pc := .failed })) := by
  simp only [step, Option.bind_eq_some_iff] at hstep
  obtain ⟨client, hi, process, hprocess, hadvance⟩ := hstep
  obtain ⟨hstarted, hadvance⟩ := Option.ite_none_right_eq_some.mp hadvance
  refine ⟨client, process, ⟨hi, hprocess⟩, hstarted, ?_⟩
  cases hfile : state.files client.path with
  | none =>
      rw [hfile] at hadvance
      exact Or.inl ⟨rfl, (Option.some.inj hadvance).symm⟩
  | some owner =>
      rw [hfile] at hadvance
      exact Or.inr ⟨by simp, (Option.some.inj hadvance).symm⟩

theorem send_cases (hserver : state.files servSockName = some .server ∨
      state.files servSockName = none)
    (hclean : ∀ client ∈ clients, client.Clean)
    (hstep : step clients state (.send i) = some next) :
    ∃ client process, At clients state.processes i client process ∧ process.pc = .bound ∧
      (next = State.set { state with
          queue := state.queue ++ [(client.path, client.message)] } i
            { process with pc := .waiting } ∨
        ((state.files servSockName = none ∨ state.server = .stopped) ∧
          next = state.set i { process with pc := .failed })) := by
  simp only [step, Option.bind_eq_some_iff] at hstep
  obtain ⟨client, hi, process, hprocess, hadvance⟩ := hstep
  obtain ⟨hbound, hadvance⟩ := Option.ite_none_right_eq_some.mp hadvance
  refine ⟨client, process, ⟨hi, hprocess⟩, hbound, ?_⟩
  rw [(hclean client (List.mem_of_getElem? hi)).server] at hadvance
  unfold deliver at hadvance
  rcases hserver with hfile | hfile
  · rw [hfile] at hadvance
    by_cases hstopped : state.server = .stopped
    · simp only [hstopped, ne_eq, not_true_eq_false, if_false] at hadvance
      exact Or.inr ⟨Or.inr hstopped, (Option.some.inj hadvance).symm⟩
    · simp only [hstopped, ne_eq, not_false_eq_true, if_true] at hadvance
      exact Or.inl (Option.some.inj hadvance).symm
  · rw [hfile] at hadvance
    exact Or.inr ⟨Or.inl hfile, (Option.some.inj hadvance).symm⟩

theorem receive_cases (hclean : ∀ client ∈ clients, client.Clean)
    (hstep : step clients state (.receive i) = some next) :
    ∃ client process datagram inbox, At clients state.processes i client process ∧
      client.Clean ∧ process.pc = .waiting ∧ process.inbox = datagram :: inbox ∧
      next = (state.set i ⟨.done (datagram.2.take bufSize), inbox⟩).unlink client.path := by
  simp only [step, Option.bind_eq_some_iff] at hstep
  obtain ⟨client, hi, process, hprocess, hadvance⟩ := hstep
  obtain ⟨hwaiting, hadvance⟩ := Option.ite_none_right_eq_some.mp hadvance
  have hown := hclean client (List.mem_of_getElem? hi)
  cases hinbox : process.inbox with
  | nil => simp [hinbox] at hadvance
  | cons datagram inbox =>
      rw [hinbox] at hadvance
      refine ⟨client, process, datagram, inbox, ⟨hi, hprocess⟩, hown, hwaiting, hinbox, ?_⟩
      have hname : client.path = client.name := hown.own
      rw [hname]
      exact (Option.some.inj hadvance).symm

/-- No client gives up. -/
def Event.calm : Event → Bool
  | .receiveFails _ => false
  | _ => true

theorem Once.step (honce : Once clients state) (hclean : ∀ client ∈ clients, client.Clean)
    (hcalm : event.calm = true) (hstep : step clients state event = some next) :
    Once clients next := by
  cases event with
  | bind i =>
      obtain ⟨client, process, hat, hstarted, ⟨hfree, rfl⟩ | ⟨_, rfl⟩⟩ := bind_cases hstep
      · exact honce.bind hat (hclean client (List.mem_of_getElem? hat.client)) hstarted hfree
      · exact honce.fail hat
  | send i =>
      obtain ⟨client, process, hat, hbound, rfl | ⟨_, rfl⟩⟩ :=
        send_cases honce.server hclean hstep
      · exact honce.send hat hbound
      · exact honce.fail hat
  | receive i =>
      obtain ⟨client, process, datagram, inbox, hat, hown, hwaiting, hinbox, rfl⟩ :=
        receive_cases hclean hstep
      exact honce.receive hat hown hwaiting hinbox
  | receiveFails i => exact absurd hcalm (by simp [Event.calm])
  | kill i =>
      simp only [UnixEcho.step, Option.bind_eq_some_iff] at hstep
      obtain ⟨client, hi, process, hprocess, hadvance⟩ := hstep
      obtain ⟨_, hadvance⟩ := Option.ite_none_right_eq_some.mp hadvance
      exact Option.some.inj hadvance ▸ honce.fail ⟨hi, hprocess⟩
  | serve => exact (honce.serve hstep).1
  | reply sent => exact honce.reply hstep
  | stop =>
      obtain ⟨_, hnext⟩ := Option.ite_none_right_eq_some.mp hstep
      exact Option.some.inj hnext ▸ honce.stop

end UnixEcho
end Sockets
end OsStuff
