import OsStuff.Sockets.UnixEchoOnce

/-!
# Every reply arrives

As long as no client gives up, nobody is killed or stopped and the replies can be
sent, exactly one message or reply is on its way for a client that waits
(`Quiet`), every step brings the clients closer to their end, and some step is
possible until all have ended.
-/

namespace OsStuff
namespace Sockets
namespace UnixEcho

open Library Library.Processes

variable {clients : List Client} {state next : State} {event : Event} {events : List Event}
  {i j : Nat} {client other : Client} {process after : Process} {path : Bytes}
  {datagram : Datagram}

/-! ## Quiet runs -/

/-- Nobody gives up, is killed or stopped, and the reply can be sent. -/
def Event.quiet : Event → Bool
  | .bind _ | .send _ | .receive _ | .serve => true
  | .reply sent => sent
  | .receiveFails _ | .kill _ | .stop => false

/-- Another client has the name. -/
def Taken (clients : List Client) (i : Nat) (client : Client) : Prop :=
  ∃ (k : Nat) (other : Client), k ≠ i ∧ clients[k]? = some other ∧ other.name = client.name

structure Quiet (clients : List Client) (state : State) : Prop where
  once : Once clients state
  length : state.processes.length = clients.length
  up : state.server ≠ .stopped
  file : state.files servSockName = some .server
  answered : ∀ i client process, At clients state.processes i client process →
    process.pc = .waiting → state.pending client.path + process.inbox.length = 1
  alive : ∀ i client process, At clients state.processes i client process →
    state.files client.path = some (.client i) → process.pc.alive = true
  taken : ∀ i client process, At clients state.processes i client process →
    process.pc = .failed → Taken clients i client

theorem Quiet.initial : Quiet clients (.initial clients) where
  once := Once.initial
  length := List.length_map _
  up := by simp [State.initial]
  file := by simp [State.initial]
  answered := by
    intro i client process hat hwaiting
    rw [initial_at hat] at hwaiting
    exact absurd hwaiting (by simp)
  alive := fun _ _ _ _ hfile => absurd hfile initial_files
  taken := by
    intro i client process hat hfailed
    rw [initial_at hat] at hfailed
    exact absurd hfailed (by simp)

theorem length_set (hlength : state.processes.length = clients.length) :
    (state.processes.set i after).length = clients.length := by
  rw [List.length_set]
  exact hlength

theorem Quiet.answered_set (hquiet : Quiet clients state)
    (hat : At clients state.processes i client process) (hafter : after.pc ≠ .waiting) :
    ∀ k other process', At clients (state.processes.set i after) k other process' →
      process'.pc = .waiting → state.pending other.path + process'.inbox.length = 1 := by
  intro k other process' hset hwaiting
  rcases hat.cases hset with ⟨_, _, rfl⟩ | ⟨_, hold⟩
  · exact absurd hwaiting hafter
  · exact hquiet.answered k other process' hold hwaiting

theorem Quiet.taken_set (hquiet : Quiet clients state)
    (hat : At clients state.processes i client process)
    (hafter : after.pc = .failed → Taken clients i client) :
    ∀ k other process', At clients (state.processes.set i after) k other process' →
      process'.pc = .failed → Taken clients k other := by
  intro k other process' hset hfailed
  rcases hat.cases hset with ⟨rfl, rfl, rfl⟩ | ⟨_, hold⟩
  · exact hafter hfailed
  · exact hquiet.taken k other process' hold hfailed

theorem Quiet.bind (hquiet : Quiet clients state)
    (hat : At clients state.processes i client process)
    (hclean : client.Clean) (hstarted : process.pc = .started)
    (hfree : state.files client.path = none) :
    Quiet clients
      ((state.set i { process with pc := .bound }).link client.path (.client i)) where
  once := hquiet.once.bind hat hclean hstarted hfree
  length := length_set hquiet.length
  up := hquiet.up
  file := by
    rw [link_files, Function.update_of_ne (path_ne hclean).symm]
    exact hquiet.file
  answered := hquiet.answered_set hat (by simp)
  alive := by
    intro k other process' hset hfile
    rcases hat.cases hset with ⟨_, _, rfl⟩ | ⟨hne, hold⟩
    · rfl
    · rw [link_files, Function.update_apply] at hfile
      split at hfile
      · rw [Option.some.injEq, Owner.client.injEq] at hfile
        exact absurd hfile.symm hne
      · exact hquiet.alive k other process' hold hfile
  taken := hquiet.taken_set hat (by simp)

/-- The name of a client that has not started is that of another one. -/
theorem Quiet.name_taken (hquiet : Quiet clients state)
    (hclean : ∀ client ∈ clients, client.Clean)
    (hat : At clients state.processes i client process) (hstarted : process.pc = .started)
    (hused : state.files client.path ≠ none) :
    Taken clients i client ∧ state.files client.path ≠ some (.client i) := by
  have hown := hclean client (List.mem_of_getElem? hat.client)
  obtain ⟨owner, hfile⟩ := Option.ne_none_iff_exists'.mp hused
  cases owner with
  | server => exact absurd (hquiet.once.onlyServer _ hfile) (path_ne hown)
  | client k =>
      obtain ⟨other, process', hother, hpath, hpc⟩ := hquiet.once.owner _ k hfile
      have hne : k ≠ i := by
        rintro rfl
        obtain ⟨_, rfl⟩ := hat.unique hother
        simp [hstarted, Pc.alive] at hpc
      refine ⟨⟨k, other, hne, hother.client, ?_⟩, ?_⟩
      · unfold Client.path at hpath
        rwa [hown.own, (hclean other (List.mem_of_getElem? hother.client)).own] at hpath
      · rw [hfile]
        simpa using hne

theorem Quiet.fail (hquiet : Quiet clients state)
    (hat : At clients state.processes i client process)
    (htaken : Taken clients i client) (hfile : state.files client.path ≠ some (.client i)) :
    Quiet clients (state.set i { process with pc := .failed }) where
  once := hquiet.once.fail hat
  length := length_set hquiet.length
  up := hquiet.up
  file := hquiet.file
  answered := hquiet.answered_set hat (by simp)
  alive := by
    intro k other process' hset hown
    rcases hat.cases hset with ⟨rfl, rfl, _⟩ | ⟨_, hold⟩
    · exact absurd hown hfile
    · exact hquiet.alive k other process' hold hown
  taken := hquiet.taken_set hat (fun _ => htaken)

/-- Two clients that hold their names have different ones. -/
theorem Once.path_ne (honce : Once clients state)
    (hfile : state.files client.path = some (.client i)) {k : Nat} (hne : k ≠ i)
    (hat : At clients state.processes k other process) (halive : process.pc.alive = true) :
    client.path ≠ other.path := by
  intro h
  have hother := honce.held k other process hat halive
  rw [← h, hfile, Option.some.injEq, Owner.client.injEq] at hother
  exact hne hother.symm

theorem Quiet.send (hquiet : Quiet clients state)
    (hat : At clients state.processes i client process) (hbound : process.pc = .bound) :
    Quiet clients (State.set { state with
      queue := state.queue ++ [(client.path, client.message)] } i
        { process with pc := .waiting }) where
  once := hquiet.once.send hat hbound
  length := length_set hquiet.length
  up := hquiet.up
  file := hquiet.file
  answered := by
    have hheld := hquiet.once.held i client process hat (by simp [hbound, Pc.alive])
    intro k other process' hset hwaiting
    rcases hat.cases hset with ⟨rfl, rfl, rfl⟩ | ⟨hne, hold⟩
    · have hunsent := hquiet.once.unsent hat (Or.inl hheld) (by simp [hbound]) (by simp [hbound])
      have hfresh := (hquiet.once.process k other process hat).fresh (Or.inr hbound)
      show State.pending { state with
        queue := state.queue ++ [(other.path, other.message)] } other.path +
          process.inbox.length = 1
      rw [pending_queue, hunsent, hfresh, if_pos rfl]
      rfl
    · have hpath := hquiet.once.path_ne hheld hne hold (by simp [hwaiting, Pc.alive])
      show State.pending { state with
        queue := state.queue ++ [(client.path, client.message)] } other.path +
          process'.inbox.length = 1
      rw [pending_queue, if_neg hpath]
      exact hquiet.answered k other process' hold hwaiting
  alive := by
    intro k other process' hset hfile
    rcases hat.cases hset with ⟨_, _, rfl⟩ | ⟨_, hold⟩
    · rfl
    · exact hquiet.alive k other process' hold hfile
  taken := hquiet.taken_set hat (by simp)

theorem Quiet.receive (hquiet : Quiet clients state)
    (hat : At clients state.processes i client process)
    (hclean : client.Clean) (hwaiting : process.pc = .waiting) {inbox : List Datagram}
    (hinbox : process.inbox = datagram :: inbox) :
    Quiet clients ((state.set i ⟨.done (datagram.2.take bufSize), inbox⟩).unlink
      client.path) where
  once := hquiet.once.receive hat hclean hwaiting hinbox
  length := length_set hquiet.length
  up := hquiet.up
  file := by
    rw [unlink_files, Function.update_of_ne (UnixEcho.path_ne hclean).symm]
    exact hquiet.file
  answered := hquiet.answered_set hat (by simp)
  alive := by
    intro k other process' hset hfile
    rw [unlink_files, Function.update_apply] at hfile
    split at hfile
    · exact absurd hfile (by simp)
    · rename_i hpath
      rcases hat.cases hset with ⟨_, rfl, _⟩ | ⟨_, hold⟩
      · exact absurd rfl hpath
      · exact hquiet.alive k other process' hold hfile
  taken := hquiet.taken_set hat (by simp)

theorem Quiet.serve (hquiet : Quiet clients state) (hserve : serve state = some next) :
    Quiet clients next := by
  obtain ⟨honce, hfiles, hprocesses, hinflight⟩ := hquiet.once.serve hserve
  have hup : next.server ≠ .stopped := by
    obtain ⟨_, _, _, _, rfl⟩ := serve_cases hserve
    simp
  refine ⟨honce, hprocesses ▸ hquiet.length, hup, hfiles ▸ hquiet.file, ?_, ?_, ?_⟩
  · unfold State.pending
    rw [hprocesses, hinflight]
    exact hquiet.answered
  · rw [hprocesses, hfiles]
    exact hquiet.alive
  · rw [hprocesses]
    exact hquiet.taken

/-- The client whose message the server answers is still waiting. -/
theorem Quiet.answering (hquiet : Quiet clients state)
    (hserver : state.server = .replying datagram) :
    ∃ k client process, At clients state.processes k client process ∧
      state.files client.path = some (.client k) ∧
      datagram = (client.path, client.message) ∧ process.pc = .waiting := by
  obtain ⟨k, client, process, hat, hfile, hdatagram, hpc⟩ := hquiet.once.answering hserver
  refine ⟨k, client, process, hat, hfile, hdatagram, hpc.resolve_right ?_⟩
  intro hfailed
  have halive := hquiet.alive k client process hat hfile
  rw [hfailed] at halive
  exact absurd halive (by simp [Pc.alive])

theorem Quiet.answers (hquiet : Quiet clients state)
    (hserver : state.server = .replying (client.path, client.message))
    (hat : At clients state.processes i client process)
    (hfile : state.files client.path = some (.client i)) (hwaiting : process.pc = .waiting) :
    Quiet clients (State.set { state with server := .receiving } i
      (process.answered client)) where
  once := hquiet.once.answered hserver hat hfile hwaiting
  length := length_set hquiet.length
  up := by simp
  file := hquiet.file
  answered := by
    intro k other process' hset hwaits
    have hpending := @pending_replying state other.path (client.path, client.message) hserver
    rcases hat.cases hset with ⟨rfl, rfl, rfl⟩ | ⟨hne, hold⟩
    · have hone := hquiet.answered k other process hat hwaiting
      rw [hpending, if_pos rfl] at hone
      show State.pending { state with server := .receiving } other.path +
        (process.inbox ++ [_]).length = 1
      rw [List.length_append, List.length_singleton]
      omega
    · have hpath := hquiet.once.path_ne hfile hne hold (by simp [hwaits, Pc.alive])
      have hone := hquiet.answered k other process' hold hwaits
      rw [hpending, if_neg hpath] at hone
      exact hone
  alive := by
    intro k other process' hset hown
    rcases hat.cases hset with ⟨_, _, rfl⟩ | ⟨_, hold⟩
    · simp [Process.answered, hwaiting, Pc.alive]
    · exact hquiet.alive k other process' hold hown
  taken := hquiet.taken_set hat (by simp [Process.answered, hwaiting])

/-! ## How far the clients are from their end -/

def Pc.rank : Pc → Nat
  | .started => 5
  | .bound => 4
  | .waiting => 1
  | .done _ | .failed => 0

def Server.rank : Server → Nat
  | .replying _ => 1
  | .receiving | .stopped => 0

def ranks (processes : List Process) : Nat :=
  (processes.map fun process => process.pc.rank).sum

def State.remaining (state : State) : Nat :=
  ranks state.processes + 2 * state.queue.length + state.server.rank

theorem ranks_set {processes : List Process} (hat : At clients processes i client process) :
    ranks (processes.set i after) + process.pc.rank = ranks processes + after.pc.rank :=
  sum_map_set hat.process

theorem Quiet.step (hquiet : Quiet clients state)
    (hclean : ∀ client ∈ clients, client.Clean)
    (hevent : event.quiet = true) (hstep : step clients state event = some next) :
    Quiet clients next ∧ next.remaining < state.remaining := by
  cases event with
  | bind i =>
      obtain ⟨client, process, hat, hstarted, ⟨hfree, rfl⟩ | ⟨hused, rfl⟩⟩ := bind_cases hstep
      · refine ⟨hquiet.bind hat (hclean client (List.mem_of_getElem? hat.client)) hstarted hfree,
          ?_⟩
        have hsum := @ranks_set _ _ _ _ { process with pc := .bound } _ hat
        simp only [hstarted, Pc.rank] at hsum
        simp only [State.remaining, link_processes, link_queue, link_server, set_processes,
          set_queue, set_server]
        omega
      · obtain ⟨htaken, hfile⟩ := hquiet.name_taken hclean hat hstarted hused
        refine ⟨hquiet.fail hat htaken hfile, ?_⟩
        have hsum := @ranks_set _ _ _ _ { process with pc := .failed } _ hat
        simp only [hstarted, Pc.rank] at hsum
        simp only [State.remaining, set_processes, set_queue, set_server]
        omega
  | send i =>
      obtain ⟨client, process, hat, hbound, rfl | ⟨hdown, rfl⟩⟩ :=
        send_cases hquiet.once.server hclean hstep
      · refine ⟨hquiet.send hat hbound, ?_⟩
        have hsum := @ranks_set _ _ _ _ { process with pc := .waiting } _ hat
        simp only [hbound, Pc.rank] at hsum
        simp only [State.remaining, set_processes, set_queue, set_server, List.length_append,
          List.length_singleton]
        omega
      · rcases hdown with h | h
        · exact absurd (hquiet.file.symm.trans h) (by simp)
        · exact absurd h hquiet.up
  | receive i =>
      obtain ⟨client, process, datagram, inbox, hat, hown, hwaiting, hinbox, rfl⟩ :=
        receive_cases hclean hstep
      refine ⟨hquiet.receive hat hown hwaiting hinbox, ?_⟩
      have hsum := @ranks_set _ _ _ _ ⟨.done (datagram.2.take bufSize), inbox⟩ _ hat
      simp only [hwaiting, Pc.rank] at hsum
      simp only [State.remaining, unlink_processes, unlink_queue, unlink_server, set_processes,
        set_queue, set_server]
      omega
  | serve =>
      refine ⟨hquiet.serve hstep, ?_⟩
      obtain ⟨datagram, queue, hserver, hqueue, rfl⟩ := serve_cases hstep
      simp only [State.remaining, hserver, hqueue, Server.rank, List.length_cons]
      omega
  | reply sent =>
      cases hserver : state.server with
      | receiving | stopped => simp [UnixEcho.step, UnixEcho.reply, hserver] at hstep
      | replying datagram =>
          obtain ⟨k, client, process, hat, hfile, rfl, hwaiting⟩ := hquiet.answering hserver
          obtain rfl : sent = true := hevent
          replace hstep : UnixEcho.reply state true = some next := hstep
          rw [reply_waiting hserver hat hfile hwaiting, Option.some.injEq] at hstep
          rw [← hstep]
          refine ⟨hquiet.answers hserver hat hfile hwaiting, ?_⟩
          have hsum := @ranks_set _ _ _ _ (process.answered client) _ hat
          have hsame : (process.answered client).pc.rank = process.pc.rank := rfl
          rw [hsame] at hsum
          simp only [State.remaining, set_processes, set_queue, set_server, hserver, Server.rank]
          omega
  | receiveFails i | kill i | stop => exact absurd hevent (by simp [Event.quiet])

/-- Every client has ended. -/
def State.Ended (state : State) : Prop :=
  ∀ process ∈ state.processes, process.pc.rank = 0

/-- Something can happen as long as a client has not ended. -/
theorem Quiet.progress (hquiet : Quiet clients state)
    (hclean : ∀ client ∈ clients, client.Clean) (hunended : ¬ state.Ended) :
    ∃ (event : Event) (next : State), event.quiet = true ∧
      UnixEcho.step clients state event = some next := by
  unfold State.Ended at hunended
  push Not at hunended
  obtain ⟨process, hmem, hrank⟩ := hunended
  obtain ⟨i, hprocess⟩ := List.mem_iff_getElem?.mp hmem
  have hlt : i < clients.length := hquiet.length ▸ lt_length hprocess
  have hi : clients[i]? = some clients[i] := List.getElem?_eq_getElem hlt
  have hown := hclean clients[i] (List.getElem_mem hlt)
  obtain ⟨pc, inbox⟩ := process
  cases pc with
  | started =>
      cases hfile : state.files clients[i].path with
      | none => exact ⟨.bind i, _, rfl, step_bind hi hprocess hfile⟩
      | some owner =>
          refine ⟨.bind i, state.set i ⟨.failed, inbox⟩, rfl, ?_⟩
          simp [UnixEcho.step, hi, hprocess, advance, hfile]
  | bound => exact ⟨.send i, _, rfl, step_send hi hown hprocess hquiet.file hquiet.up⟩
  | done text => exact absurd rfl hrank
  | failed => exact absurd rfl hrank
  | waiting =>
      cases hserver : state.server with
      | stopped => exact absurd hserver hquiet.up
      | replying datagram =>
          obtain ⟨k, client, process, hat, hfile, rfl, hwaiting⟩ := hquiet.answering hserver
          exact ⟨.reply true, _, rfl, reply_waiting hserver hat hfile hwaiting⟩
      | receiving =>
          cases hqueue : state.queue with
          | cons datagram queue => exact ⟨.serve, _, rfl, step_serve hserver hqueue⟩
          | nil =>
              -- Its reply has come.
              have hone := hquiet.answered i clients[i] ⟨.waiting, inbox⟩ ⟨hi, hprocess⟩ rfl
              have hnone : state.pending clients[i].path = 0 := by
                rw [State.pending, State.inflight, hserver, hqueue]
                rfl
              rw [hnone, Nat.zero_add] at hone
              obtain ⟨datagram, rfl⟩ := List.length_eq_one_iff.mp hone
              exact ⟨.receive i, _, rfl, step_receive hi hprocess⟩

/-- How the clients have ended, and what is left of them. -/
structure Delivered (clients : List Client) (state : State) : Prop where
  client : ∀ (i : Nat) (client : Client), clients[i]? = some client →
    ∃ process, state.processes[i]? = some process ∧
      (process.pc = .done client.echo ∨ process.pc = .failed ∧ Taken clients i client)
  inflight : state.inflight = []
  files : ∀ path, path ≠ servSockName → state.files path = none

theorem Quiet.delivered (hquiet : Quiet clients state) (hended : state.Ended) :
    Delivered clients state := by
  have hdead : ∀ {i client process}, At clients state.processes i client process →
      process.pc.rank = 0 := fun hat => hended _ (List.mem_of_getElem? hat.process)
  have hnobody : ∀ path k, state.files path ≠ some (Owner.client k) := by
    intro path k hfile
    obtain ⟨client, process, hat, rfl, _⟩ := hquiet.once.owner path k hfile
    have halive := hquiet.alive k client process hat hfile
    have hrank := hdead hat
    cases hpc : process.pc <;> simp [hpc, Pc.alive, Pc.rank] at halive hrank
  constructor
  · intro i client hi
    have hlt : i < state.processes.length := hquiet.length ▸ lt_length hi
    have hprocess : state.processes[i]? = some state.processes[i] :=
      List.getElem?_eq_getElem hlt
    have hat : At clients state.processes i client state.processes[i] := ⟨hi, hprocess⟩
    refine ⟨_, hprocess, ?_⟩
    have hrank := hdead hat
    cases hpc : state.processes[i].pc with
    | started | bound | waiting => simp [hpc, Pc.rank] at hrank
    | done text =>
        rw [((hquiet.once.process i client _ hat).done text hpc).1]
        exact Or.inl rfl
    | failed => exact Or.inr ⟨rfl, hquiet.taken i client _ hat hpc⟩
  · apply List.eq_nil_iff_forall_not_mem.mpr
    intro datagram hmem
    obtain ⟨k, _, _, _, hfile, _⟩ := hquiet.once.inflight datagram hmem
    exact hnobody _ k hfile
  · intro path hpath
    cases hfile : state.files path with
    | none => rfl
    | some owner =>
        cases owner with
        | server => exact absurd (hquiet.once.onlyServer path hfile) hpath
        | client k => exact absurd hfile (hnobody path k)

theorem remaining_initial : (State.initial clients).remaining = 5 * clients.length := by
  have hsum : ranks (clients.map fun _ => Process.mk .started []) = 5 * clients.length := by
    unfold ranks
    rw [List.map_map]
    show (clients.map fun _ => 5).sum = 5 * clients.length
    rw [List.map_const', List.sum_replicate, smul_eq_mul, Nat.mul_comm]
  simp only [State.remaining, State.initial, hsum, Server.rank, List.length_nil]
  omega

/-- As long as no client gives up, each prints the reply to its own message, and
nothing else comes for it.  If nobody is killed or stopped either and the replies
can be sent, a run has at most five steps a client, and it can be continued until
every client has printed its reply or found its name taken; then no message is on
its way and the only name left is that of the server. -/
theorem echoes_delivered (hclean : ∀ client ∈ clients, client.Clean)
    (hrun : run (step clients) (.initial clients) events = some state) :
    ((∀ event ∈ events, event.calm = true) →
      ∀ (i : Nat) (client : Client) (process : Process) (text : Bytes),
        clients[i]? = some client → state.processes[i]? = some process →
          process.pc = .done text → text = client.echo ∧ process.inbox = []) ∧
    ((∀ event ∈ events, event.quiet = true) →
      events.length ≤ 5 * clients.length ∧
      ∃ more final, (∀ event ∈ more, event.quiet = true) ∧
        run (step clients) state more = some final ∧ Delivered clients final) := by
  constructor
  · intro hcalm i client process text hi hprocess hdone
    have honce : Once clients state :=
      (GuardedRun.of_run hrun hcalm).invariant
        (fun _ _ _ honce hstep hguard => honce.step hclean hguard hstep) Once.initial
    exact (honce.process i client process ⟨hi, hprocess⟩).done text hdone
  · intro hevents
    have hkeep : ∀ state event next, Quiet clients state →
        (if event.quiet then step clients state event else none) = some next →
          Quiet clients next ∧ next.remaining < state.remaining := by
      intro state event next hquiet hstep
      obtain ⟨hevent, hstep⟩ := Option.ite_none_right_eq_some.mp hstep
      exact hquiet.step hclean hevent hstep
    have hquietRun := run_restrict.mpr ⟨hevents, hrun⟩
    have hbound := run_length hkeep Quiet.initial hquietRun
    rw [remaining_initial] at hbound
    have hquiet : Quiet clients state :=
      run_invariant (fun _ _ _ hquiet hstep => (hkeep _ _ _ hquiet hstep).1) Quiet.initial
        hquietRun
    obtain ⟨more, final, hmore, hquiet', hended⟩ :=
      @run_complete _ _ _ (Quiet clients)
        (fun state => Quiet clients state ∧ state.Ended) State.remaining hkeep (by
          intro state hquiet hunended
          obtain ⟨event, next, hevent, hnext⟩ :=
            hquiet.progress hclean fun h => hunended ⟨hquiet, h⟩
          exact ⟨event, next, by rw [if_pos hevent]; exact hnext⟩)
        _ hquiet
    obtain ⟨hmoreQuiet, hmoreRun⟩ := run_restrict.mp hmore
    exact ⟨by omega, more, final, hmoreQuiet, hmoreRun, hquiet'.delivered hended⟩

/-- The second one starts while the first one waits. -/
def overlap : List Event := [.bind 0, .send 0, .bind 1, .serve]

theorem echoes_delivered_overlap :
    ∃ state more final, run (step namesakes) (.initial namesakes) overlap = some state ∧
      run (step namesakes) state more = some final ∧ Delivered namesakes final := by
  have hsome : (run (step namesakes) (.initial namesakes) overlap).isSome = true := by
    decide +kernel
  obtain ⟨state, hrun⟩ := Option.isSome_iff_exists.mp hsome
  obtain ⟨_, more, final, _, hmore, hdelivered⟩ :=
    (echoes_delivered namesakes_clean hrun).2 (by decide)
  exact ⟨state, more, final, hrun, hmore, hdelivered⟩

end UnixEcho
end Sockets
end OsStuff
