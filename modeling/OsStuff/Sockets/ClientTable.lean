import OsStuff.Library.Trace
import OsStuff.Sockets.InetServer

/-!
# The client table of the server

Between two rounds the table holds every accepted descriptor that is still open,
once.  The set that the last `pselect` left behind holds nothing else, so putting
the table into it again gives the listening socket and the clients.
-/

namespace OsStuff
namespace Sockets
namespace Inet

open Library Server

variable {sfd : Int} {server : Server} {round : Round} {log : List Call}

/-- What is said about a call, by what was open before it. -/
def CallOk (sfd : Int) (before : View) : Call → Prop
  | .pselect nfds readfds _ =>
      (∀ fd, fd ∈ readfds ↔ fd = sfd ∨ fd ∈ before.opened) ∧ ∀ fd ∈ readfds, fd < nfds
  | .recv fd _ => fd ∈ before.opened ∧ fd ∈ before.ready
  | .close fd => fd ∈ before.opened ∨ fd = sfd ∧ before.listening = true
  | _ => True

/-- It holds of every call. -/
def CallsOk (sfd : Int) (log : List Call) : Prop :=
  EachEntry (fun front call => CallOk sfd (view sfd front) call) log

/-- The non-zero entries are the accepted descriptors that are still open, each
in one slot. -/
structure TableExact (sfd : Int) (server : Server) : Prop where
  distinct : ∀ (i j : Nat) fd, server.clients[i]? = some fd →
    server.clients[j]? = some fd → fd ≠ 0 → i = j
  exact : ∀ fd, fd ∈ server.clients ∧ fd ≠ 0 ↔ fd ∈ (view sfd server.log).opened

/-- The round has a new connection. -/
def Accepts (sfd : Int) (round : Round) : Prop :=
  ∃ ready, round.ready = some ready ∧ sfd ∈ ready

/-- What a round may bring: `pselect` reports descriptors of the set it was
given, `accept` a positive descriptor that is not open, and `recv` does not fail
and leaves room in the buffer for the zero that is put behind the message. -/
structure Legal (sfd : Int) (server : Server) (round : Round) : Prop where
  ready : ∃ ready, round.ready = some ready ∧
    ∀ set maxSd, prepare sfd server = some (set, maxSd) → ready ⊆ set
  accepted : Accepts sfd round → 0 < round.accepted ∧ round.accepted ≠ sfd ∧
    round.accepted ∉ (view sfd server.log).opened
  recv : ∀ i, 0 ≤ round.recv i ∧ round.recv i < bufSize

/-- All rounds are legal in their turn. -/
def Legals (sfd : Int) : Server → List Round → Prop
  | _, [] => True
  | server, round :: rounds =>
      Legal sfd server round ∧ Legals sfd (iterate sfd server round) rounds

theorem CallsOk.concat (hlog : CallsOk sfd log) {call : Call}
    (hcall : CallOk sfd (view sfd log) call) : CallsOk sfd (log ++ [call]) :=
  EachEntry.concat hlog hcall

/-! ## The set for `pselect` -/

/-- Clients within the bound are put into the set. -/
theorem setClients_spec {clients : List Int} {set : FdSet} {maxSd : Int}
    (hclients : ∀ fd ∈ clients, fd ≠ 0 → 0 < fd ∧ fd < fdSetsize) :
    ∃ set' maxSd', setClients clients set maxSd = some (set', maxSd') ∧
      (∀ fd, fd ∈ set' ↔ fd ∈ set ∨ fd ∈ clients ∧ fd ≠ 0) ∧
      maxSd ≤ maxSd' ∧ ∀ fd ∈ clients, fd ≤ maxSd' := by
  induction clients generalizing set maxSd with
  | nil => exact ⟨set, maxSd, rfl, by simp, le_refl _, by simp⟩
  | cons client clients ih =>
      have hrest : ∀ fd ∈ clients, fd ≠ 0 → 0 < fd ∧ fd < fdSetsize :=
        fun fd hfd => hclients fd (List.mem_cons_of_mem _ hfd)
      have hmax : maxSd ≤ (if maxSd < client then client else maxSd) ∧
          client ≤ (if maxSd < client then client else maxSd) := by
        split <;> omega
      -- A slot with 0 is empty and is passed over.
      by_cases hzero : client = 0
      · obtain ⟨set', maxSd', hset, hmem, hle, hall⟩ := ih hrest
        refine ⟨set', maxSd', ?_, fun fd => ?_, hmax.1.trans hle, fun fd hfd => ?_⟩
        · simp only [setClients, hzero] at hset ⊢
          simpa using hset
        · rw [hmem, hzero]
          simp only [List.mem_cons]
          tauto
        · rcases List.mem_cons.mp hfd with rfl | hfd
          · exact hmax.2.trans hle
          · exact hall fd hfd
      · obtain ⟨hpos, hlt⟩ := hclients client (by simp) hzero
        obtain ⟨set', maxSd', hset, hmem, hle, hall⟩ := ih hrest
        refine ⟨set', maxSd', ?_, fun fd => ?_, hmax.1.trans hle, fun fd hfd => ?_⟩
        · simp only [setClients, if_pos hpos, fdSet, if_pos (And.intro hpos.le hlt),
            Option.bind_some]
          exact hset
        · rw [hmem, Finset.mem_insert]
          simp only [List.mem_cons]
          constructor
          · rintro ((rfl | hfd) | hfd)
            · exact Or.inr ⟨Or.inl rfl, hzero⟩
            · exact Or.inl hfd
            · exact Or.inr ⟨Or.inr hfd.1, hfd.2⟩
          · tauto
        · rcases List.mem_cons.mp hfd with rfl | hfd
          · exact hmax.2.trans hle
          · exact hall fd hfd

/-! ## The slots -/

/-- A new client goes to a free slot. -/
theorem insertClient_spec {fd : Int} {clients clients' : List Int}
    (hinsert : insertClient fd clients = some clients') :
    ∃ i, clients[i]? = some 0 ∧ clients' = clients.set i fd := by
  induction clients generalizing clients' with
  | nil => exact absurd hinsert (by simp [insertClient])
  | cons client clients ih =>
      rw [insertClient] at hinsert
      split at hinsert
      · rename_i hzero
        refine ⟨0, by simp [hzero], ?_⟩
        simpa using hinsert.symm
      · obtain ⟨rest, hrest, rfl⟩ := Option.map_eq_some_iff.mp hinsert
        obtain ⟨i, hi, rfl⟩ := ih hrest
        exact ⟨i + 1, by simpa using hi, by simp⟩

/-- The entries after a slot has changed. -/
theorem getElem?_set_cases {clients : List Int} {i j : Nat} {fd fd' : Int}
    (hj : (clients.set i fd)[j]? = some fd') :
    i = j ∧ fd' = fd ∨ i ≠ j ∧ clients[j]? = some fd' := by
  rw [List.getElem?_set] at hj
  split at hj
  · rename_i hij
    split at hj
    · exact Or.inl ⟨hij, (Option.some.inj hj).symm⟩
    · exact absurd hj (by simp)
  · rename_i hij
    exact Or.inr ⟨hij, hj⟩

theorem getElem?_set_of {clients : List Int} {i j : Nat} {fd fd' : Int}
    (hij : i ≠ j) (hj : clients[j]? = some fd') :
    (clients.set i fd)[j]? = some fd' := by
  rw [List.getElem?_set_ne hij]
  exact hj

/-! ## The invariant -/

/-- What holds while the server runs. -/
structure Inv (sfd : Int) (server : Server) : Prop where
  table : TableExact sfd server
  listening : (view sfd server.log).listening = true
  /-- The set of the last round holds nothing that is closed. -/
  passed : ∀ fd ∈ server.readfds, fd = sfd ∨ fd ∈ (view sfd server.log).opened
  small : ∀ fd ∈ (view sfd server.log).opened, 0 < fd ∧ fd < fdSetsize
  apart : sfd ∉ (view sfd server.log).opened
  calls : CallsOk sfd server.log

/-- The server runs with the invariant, or has come to an end in order. -/
def Kept (sfd : Int) (server : Server) : Prop :=
  server.status ≠ .undefined ∧ CallsOk sfd server.log ∧
    (server.status = .running → Inv sfd server)

theorem Inv.start : Inv sfd start := by
  have hzero : ∀ (i : Nat) fd, Inet.start.clients[i]? = some fd → fd = 0 := by
    intro i fd hi
    exact List.eq_of_mem_replicate (List.mem_of_getElem? hi)
  refine ⟨⟨?_, ?_⟩, rfl, ?_, ?_, ?_, eachEntry_nil⟩
  · intro i j fd hi _ hne
    exact absurd (hzero i fd hi) hne
  · intro fd
    constructor
    · rintro ⟨hmem, hne⟩
      exact absurd (List.eq_of_mem_replicate hmem) hne
    · exact fun hmem => absurd hmem (by simp [Inet.start])
  · simp [Inet.start]
  · simp [Inet.start]
  · simp [Inet.start]

/-- The set that is passed to `pselect`, and the bound of its descriptors. -/
theorem Inv.prepare (hinv : Inv sfd server) (hsfd : 0 ≤ sfd ∧ sfd < fdSetsize) :
    ∃ set maxSd, prepare sfd server = some (set, maxSd) ∧
      (∀ fd, fd ∈ set ↔ fd = sfd ∨ fd ∈ (view sfd server.log).opened) ∧
      ∀ fd ∈ set, fd < maxSd + 1 := by
  have hsmall : ∀ fd ∈ server.clients, fd ≠ 0 → 0 < fd ∧ fd < fdSetsize :=
    fun fd hfd hne => hinv.small fd ((hinv.table.exact fd).mp ⟨hfd, hne⟩)
  obtain ⟨set, maxSd, hset, hmem, hle, hall⟩ :=
    setClients_spec hsmall
  have hset' : ∀ fd, fd ∈ set ↔ fd = sfd ∨ fd ∈ (view sfd server.log).opened := by
    intro fd
    rw [hmem, Finset.mem_insert, hinv.table.exact]
    have hpassed := hinv.passed fd
    tauto
  refine ⟨set, maxSd, ?_, hset', fun fd hfd => ?_⟩
  · rw [Server.prepare, fdSet, if_pos hsfd, Option.bind_some]
    exact hset
  · rcases (hset' fd).mp hfd with rfl | hopen
    · omega
    · have := hall fd ((hinv.table.exact fd).mpr hopen).1
      omega

/-! ## The parts of a round -/

/-- What holds while the slots are looked through: the set only holds
descriptors that were reported in this round. -/
structure Serving (sfd : Int) (server : Server) : Prop where
  running : server.status = .running
  inv : Inv sfd server
  ready : server.readfds ⊆ (view sfd server.log).ready

/-- The server is still looking through the slots, or has come to an end in
order. -/
def Served (sfd : Int) (server : Server) : Prop :=
  Serving sfd server ∨ server.status = .exited ∧ CallsOk sfd server.log

theorem Served.kept (hserved : Served sfd server) : Kept sfd server := by
  rcases hserved with hserving | ⟨hexited, hcalls⟩
  · refine ⟨?_, hserving.inv.calls, fun _ => hserving.inv⟩
    rw [hserving.running]
    decide
  · rw [Kept, hexited]
    exact ⟨by decide, hcalls, by simp⟩

/-- A new client is put into a free slot. -/
theorem Serving.addClient (hserving : Serving sfd server) {fd : Int} {i : Nat}
    (hpos : 0 < fd) (hlt : fd < fdSetsize) (hne : fd ≠ sfd)
    (hnew : fd ∉ (view sfd server.log).opened) (hi : server.clients[i]? = some 0) :
    Serving sfd { server.record [.accept fd] with
      clients := server.clients.set i fd } := by
  obtain ⟨hrunning, hinv, hready⟩ := hserving
  have hfail : fd ≠ -1 := by omega
  have hview : view sfd (server.log ++ [.accept fd]) =
      { view sfd server.log with opened := insert fd (view sfd server.log).opened } := by
    rw [view_concat, View.call, if_neg hfail]
  -- A new descriptor is in no slot, since every slot holds an open one or zero.
  have hfresh : ∀ {j : Nat}, server.clients[j]? ≠ some fd := fun hj =>
    hnew ((hinv.table.exact fd).mp ⟨List.mem_of_getElem? hj, by omega⟩)
  refine ⟨hrunning, ⟨⟨?_, ?_⟩, ?_, ?_, ?_, ?_, hinv.calls.concat trivial⟩, ?_⟩
  · intro j k fd' hj hk hfd'
    rcases getElem?_set_cases hj with ⟨hij, rfl⟩ | ⟨-, hj'⟩
    · rcases getElem?_set_cases hk with ⟨hik, -⟩ | ⟨-, hk'⟩
      · exact hij.symm.trans hik
      · exact absurd hk' hfresh
    · rcases getElem?_set_cases hk with ⟨-, rfl⟩ | ⟨-, hk'⟩
      · exact absurd hj' hfresh
      · exact hinv.table.distinct j k fd' hj' hk' hfd'
  · intro fd'
    simp only [record, hview, Finset.mem_insert, ← hinv.table.exact]
    constructor
    · rintro ⟨hmem, hfd'⟩
      obtain ⟨j, hj⟩ := List.mem_iff_getElem?.mp hmem
      rcases getElem?_set_cases hj with ⟨-, rfl⟩ | ⟨-, hj'⟩
      · exact Or.inl rfl
      · exact Or.inr ⟨List.mem_of_getElem? hj', hfd'⟩
    · rintro (rfl | ⟨hmem, hfd'⟩)
      · refine ⟨?_, by omega⟩
        obtain ⟨hbound, -⟩ := List.getElem?_eq_some_iff.mp hi
        exact List.mem_iff_getElem?.mpr ⟨i, List.getElem?_set_self hbound⟩
      · obtain ⟨j, hj⟩ := List.mem_iff_getElem?.mp hmem
        -- The slot that is overwritten was free, so no client is lost.
        have hij : i ≠ j := by
          rintro rfl
          rw [hi] at hj
          exact hfd' (Option.some.inj hj).symm
        exact ⟨List.mem_of_getElem? (getElem?_set_of hij hj), hfd'⟩
  · simp only [record, hview]
    exact hinv.listening
  · intro fd' hfd'
    simp only [record, hview, Finset.mem_insert]
    rcases hinv.passed fd' hfd' with hsfd | hopen
    · exact Or.inl hsfd
    · exact Or.inr (Or.inr hopen)
  · intro fd' hfd'
    simp only [record, hview, Finset.mem_insert] at hfd'
    rcases hfd' with rfl | hopen
    · exact ⟨hpos, hlt⟩
    · exact hinv.small fd' hopen
  · simp only [record, hview, Finset.mem_insert, not_or]
    exact ⟨Ne.symm hne, hinv.apart⟩
  · simp only [record, hview]
    exact hready

theorem Serving.accept (hserving : Serving sfd server) {fd : Int}
    (hpos : 0 < fd) (hlt : fd < fdSetsize) (hne : fd ≠ sfd)
    (hnew : fd ∉ (view sfd server.log).opened) :
    Served sfd (acceptClient sfd fd server) := by
  have hfail : fd ≠ -1 := by omega
  unfold acceptClient
  simp only [if_neg hfail]
  split
  · rename_i clients hinsert
    obtain ⟨i, hi, rfl⟩ := insertClient_spec hinsert
    exact Or.inl (hserving.addClient hpos hlt hne hnew hi)
  · -- The table is full, and the server closes its socket.
    refine Or.inr ⟨rfl, ?_⟩
    have hcalls : CallsOk sfd (server.log ++ [.accept fd]) :=
      hserving.inv.calls.concat trivial
    refine hcalls.concat (Or.inr ⟨rfl, ?_⟩)
    rw [view_concat, View.call, if_neg hfail]
    exact hserving.inv.listening

/-- The client of a slot has gone. -/
theorem Serving.hangUp (hserving : Serving sfd server) {fd result : Int} {i : Nat}
    (hi : server.clients[i]? = some fd) (hne : fd ≠ 0) (hset : fd ∈ server.readfds) :
    Serving sfd { (server.record [.recv fd result]).record [.close fd] with
      readfds := server.readfds.erase fd
      clients := server.clients.set i 0 } := by
  obtain ⟨hrunning, hinv, hready⟩ := hserving
  have hopen : fd ∈ (view sfd server.log).opened :=
    (hinv.table.exact fd).mp ⟨List.mem_of_getElem? hi, hne⟩
  have hsfd : fd ≠ sfd := by
    rintro rfl
    exact hinv.apart hopen
  have hview : view sfd (server.log ++ [.recv fd result] ++ [.close fd]) =
      { view sfd server.log with opened := (view sfd server.log).opened.erase fd } := by
    rw [view_concat, view_concat, View.call, if_neg hsfd]
    rfl
  have hcalls : CallsOk sfd (server.log ++ [.recv fd result] ++ [.close fd]) := by
    have hrecv : CallsOk sfd (server.log ++ [.recv fd result]) :=
      hinv.calls.concat ⟨hopen, hready hset⟩
    refine hrecv.concat (Or.inl ?_)
    rw [view_concat]
    exact hopen
  refine ⟨hrunning, ⟨⟨?_, ?_⟩, ?_, ?_, ?_, ?_, hcalls⟩, ?_⟩
  · intro j k fd' hj hk hfd'
    rcases getElem?_set_cases hj with ⟨-, rfl⟩ | ⟨-, hj'⟩
    · exact absurd rfl hfd'
    · rcases getElem?_set_cases hk with ⟨-, rfl⟩ | ⟨-, hk'⟩
      · exact absurd rfl hfd'
      · exact hinv.table.distinct j k fd' hj' hk' hfd'
  · intro fd'
    simp only [record, hview, Finset.mem_erase, ← hinv.table.exact]
    constructor
    · rintro ⟨hmem, hfd'⟩
      obtain ⟨j, hj⟩ := List.mem_iff_getElem?.mp hmem
      rcases getElem?_set_cases hj with ⟨-, rfl⟩ | ⟨hij, hj'⟩
      · exact absurd rfl hfd'
      · refine ⟨?_, List.mem_of_getElem? hj', hfd'⟩
        -- The descriptor is in no other slot.
        rintro rfl
        exact hij (hinv.table.distinct i j fd' hi hj' hfd')
    · rintro ⟨hother, hmem, hfd'⟩
      obtain ⟨j, hj⟩ := List.mem_iff_getElem?.mp hmem
      have hij : i ≠ j := by
        rintro rfl
        rw [hi] at hj
        exact hother (Option.some.inj hj).symm
      exact ⟨List.mem_of_getElem? (getElem?_set_of hij hj), hfd'⟩
  · simp only [record, hview]
    exact hinv.listening
  · intro fd' hfd'
    obtain ⟨hother, hmem⟩ := Finset.mem_erase.mp hfd'
    simp only [record, hview, Finset.mem_erase]
    rcases hinv.passed fd' hmem with hlisten | hopen'
    · exact Or.inl hlisten
    · exact Or.inr ⟨hother, hopen'⟩
  · intro fd' hfd'
    simp only [record, hview, Finset.mem_erase] at hfd'
    exact hinv.small fd' hfd'.2
  · simp only [record, hview, Finset.mem_erase]
    exact fun h => hinv.apart h.2
  · simp only [record, hview]
    exact (Finset.erase_subset _ _).trans hready

/-- A round of the loop over the slots. -/
theorem Serving.serveClient (hserving : Serving sfd server) (round : Round) (i : Nat) :
    Served sfd (serveClient round i server) := by
  unfold Server.serveClient
  simp only
  split
  · rename_i hcond
    obtain ⟨hne, hset⟩ := hcond
    obtain ⟨fd, hi⟩ : ∃ fd, server.clients[i]? = some fd := by
      by_contra hnone
      rw [List.getD_eq_getElem?_getD, Option.eq_none_iff_forall_ne_some.mpr
        (fun fd hfd => hnone ⟨fd, hfd⟩)] at hne
      exact hne rfl
    have hfd : server.clients.getD i 0 = fd := by
      rw [List.getD_eq_getElem?_getD, hi, Option.getD_some]
    rw [hfd] at hne hset ⊢
    split
    · -- recv has returned 0: the client has hung up.
      exact Or.inl (hserving.hangUp hi hne hset)
    · have hopen : fd ∈ (view sfd server.log).opened :=
        (hserving.inv.table.exact fd).mp ⟨List.mem_of_getElem? hi, hne⟩
      -- Receiving and sending leave the open descriptors as they are.
      have hview : ∀ k result, view sfd (server.log ++ [.recv fd (round.recv i)] ++
          [.store k, .send fd result]) = view sfd server.log := by
        intro k result
        simp [view, View.call]
      have hcalls : ∀ k result, CallsOk sfd (server.log ++ [.recv fd (round.recv i)] ++
          [.store k, .send fd result]) := by
        intro k result
        have hrecv : CallsOk sfd (server.log ++ [.recv fd (round.recv i)]) :=
          hserving.inv.calls.concat ⟨hopen, hserving.ready hset⟩
        have hstore : CallsOk sfd
            (server.log ++ [.recv fd (round.recv i)] ++ [.store k]) :=
          hrecv.concat trivial
        have hsend : CallsOk sfd
            (server.log ++ [.recv fd (round.recv i)] ++ [.store k] ++ [.send fd result]) :=
          hstore.concat trivial
        simpa using hsend
      split
      · -- send has failed, and main returns.
        exact Or.inr ⟨rfl, hcalls _ _⟩
      · refine Or.inl ⟨hserving.running, ⟨⟨hserving.inv.table.distinct, ?_⟩, ?_, ?_, ?_,
          ?_, hcalls _ _⟩, ?_⟩
        all_goals simp only [record, hview]
        · exact hserving.inv.table.exact
        · exact hserving.inv.listening
        · exact hserving.inv.passed
        · exact hserving.inv.small
        · exact hserving.inv.apart
        · exact hserving.ready
  · exact Or.inl hserving

/-- The loop over the slots. -/
theorem Serving.serveLoop (round : Round) {count i : Nat}
    (hserving : Serving sfd server) : Served sfd (serveLoop round count i server) := by
  induction count generalizing i server with
  | zero => exact Or.inl hserving
  | succ count ih =>
      rw [Server.serveLoop]
      rcases hserving.serveClient round i with hnext | hexited
      · simp only [if_pos hnext.running]
        exact ih hnext
      · have hstop : (Server.serveClient round i server).status ≠ .running := by
          rw [hexited.1]
          decide
        simp only [if_neg hstop]
        exact Or.inr hexited

/-- What a round does after `pselect` has returned. -/
theorem Serving.handle (hserving : Serving sfd server)
    (haccepted : sfd ∈ server.readfds → 0 < round.accepted ∧
      round.accepted < fdSetsize ∧ round.accepted ≠ sfd ∧
      round.accepted ∉ (view sfd server.log).opened) :
    Served sfd (handle sfd round server) := by
  have hfirst : Served sfd
      (if sfd ∈ server.readfds then acceptClient sfd round.accepted server
        else server) := by
    split
    · rename_i hready
      obtain ⟨hpos, hlt, hne, hnew⟩ := haccepted hready
      exact hserving.accept hpos hlt hne hnew
    · exact Or.inl hserving
  unfold Server.handle
  simp only
  rcases hfirst with hnext | hexited
  · rw [if_pos hnext.running]
    exact hnext.serveLoop round
  · rw [if_neg (by rw [hexited.1]; decide)]
    exact Or.inr hexited

/-! ## Runs -/

theorem Kept.iterate (hkept : Kept sfd server) (hsfd : 0 ≤ sfd ∧ sfd < fdSetsize)
    (hlegal : Legal sfd server round)
    (hsmall : Accepts sfd round → round.accepted < fdSetsize) :
    Kept sfd (iterate sfd server round) := by
  unfold Server.iterate
  split
  · exact hkept
  · rename_i hrunning
    rw [not_not] at hrunning
    have hinv := hkept.2.2 hrunning
    obtain ⟨set, maxSd, hprepare, hset, hbound⟩ := hinv.prepare hsfd
    obtain ⟨⟨ready, hready, hsubset⟩, haccepted, -⟩ := hlegal
    simp only [hprepare, hready]
    have hview : view sfd (server.log ++ [.pselect (maxSd + 1) set (some ready)]) =
        { view sfd server.log with ready := ready } := by
      rw [view_concat]
      rfl
    apply Served.kept
    apply Serving.handle
    · refine ⟨hrunning, ⟨⟨hinv.table.distinct, ?_⟩, ?_, ?_, ?_, ?_,
        hinv.calls.concat ⟨hset, hbound⟩⟩, ?_⟩
      all_goals simp only [record, hview]
      · exact hinv.table.exact
      · exact hinv.listening
      · exact fun fd hfd => (hset fd).mp (hsubset set maxSd hprepare hfd)
      · exact hinv.small
      · exact hinv.apart
      · exact subset_refl ready
    · intro hsfd'
      obtain ⟨hpos, hne, hnew⟩ := haccepted ⟨ready, hready, hsfd'⟩
      refine ⟨hpos, hsmall ⟨ready, hready, hsfd'⟩, hne, ?_⟩
      simp only [record, hview]
      exact hnew

theorem kept_foldl {rounds : List Round} (hsfd : 0 ≤ sfd ∧ sfd < fdSetsize)
    (hkept : Kept sfd server) (hlegal : Legals sfd server rounds)
    (hsmall : ∀ round ∈ rounds, Accepts sfd round → round.accepted < fdSetsize) :
    Kept sfd (rounds.foldl (iterate sfd) server) := by
  induction rounds generalizing server with
  | nil => exact hkept
  | cons round rounds ih =>
      obtain ⟨hfirst, hrest⟩ := hlegal
      exact ih (hkept.iterate hsfd hfirst (hsmall round (by simp))) hrest
        fun round' hround' => hsmall round' (List.mem_cons_of_mem _ hround')

/-- What is said about a server and its calls. -/
structure Exact (sfd : Int) (server : Server) : Prop where
  defined : server.status ≠ .undefined
  table : server.status = .running → TableExact sfd server
  calls : CallsOk sfd server.log

/-- As long as the descriptors fit into an `fd_set`, the table is exact after
every sequence of rounds, and so are the calls made in them. -/
theorem client_table_exact {rounds : List Round} (hsfd : 0 ≤ sfd ∧ sfd < fdSetsize)
    (hlegal : Legals sfd Inet.start rounds)
    (hsmall : ∀ round ∈ rounds, Accepts sfd round → round.accepted < fdSetsize) :
    Exact sfd (run sfd rounds) := by
  have hstart : Kept sfd Inet.start :=
    ⟨by decide, eachEntry_nil, fun _ => Inv.start⟩
  obtain ⟨hdefined, hcalls, hinv⟩ := kept_foldl hsfd hstart hlegal hsmall
  exact ⟨hdefined, fun hrunning => (hinv hrunning).table, hcalls⟩

/-- A round in which `pselect` reports the set and every `recv` returns `bytes`. -/
def plainRound (ready : FdSet) (accepted bytes : Int) : Round where
  ready := some ready
  accepted := accepted
  recv _ := bytes
  send _ := 1

theorem legal_plainRound {ready : FdSet} {accepted bytes : Int}
    (hready : ∀ set maxSd, prepare sfd server = some (set, maxSd) → ready ⊆ set)
    (haccepted : 0 < accepted ∧ accepted ≠ sfd ∧
      accepted ∉ (view sfd server.log).opened)
    (hbytes : 0 ≤ bytes ∧ bytes < bufSize) :
    Legal sfd server (plainRound ready accepted bytes) :=
  ⟨⟨ready, rfl, hready⟩, fun _ => haccepted, fun _ => hbytes⟩

/-- A client connects and hangs up. -/
def visit : List Round :=
  [plainRound {3} 4 1, plainRound {4} 5 0]

theorem legals_visit : Legals 3 Inet.start visit := by
  have hfirst : prepare 3 Inet.start = some ({3}, 3) := by decide +kernel
  have hsecond : prepare 3 (iterate 3 Inet.start (plainRound {3} 4 1)) =
      some ({3, 4}, 4) := by decide +kernel
  refine ⟨legal_plainRound ?_ (by decide) (by decide),
    legal_plainRound ?_ (by decide +kernel) (by decide), trivial⟩
  · intro set maxSd hprepare
    rw [hfirst, Option.some.injEq, Prod.mk.injEq] at hprepare
    rw [← hprepare.1]
  · intro set maxSd hprepare
    rw [hsecond, Option.some.injEq, Prod.mk.injEq] at hprepare
    rw [← hprepare.1]
    decide

theorem client_table_exact_visit :
    Legals 3 Inet.start visit ∧ Exact 3 (run 3 visit) :=
  ⟨legals_visit, client_table_exact (by decide) legals_visit (by
    intro round hround _
    have hsmall : ∀ round ∈ visit, round.accepted < fdSetsize := by decide
    exact hsmall round hround)⟩

/-- A descriptor that does not fit into an `fd_set`. -/
theorem large_descriptor_leaves_set : ¬ ∀ rounds : List Round,
    Legals 3 Inet.start rounds → Exact 3 (run 3 rounds) := by
  intro hall
  have hfirst : prepare 3 Inet.start = some ({3}, 3) := by decide +kernel
  have hsecond : prepare 3 (iterate 3 Inet.start (plainRound {3} 1024 1)) = none := by
    decide +kernel
  have hlegal : Legals 3 Inet.start [plainRound {3} 1024 1, plainRound ∅ 5 1] := by
    refine ⟨legal_plainRound ?_ (by decide) (by decide),
      legal_plainRound ?_ (by decide +kernel) (by decide), trivial⟩
    · intro set maxSd hprepare
      rw [hfirst, Option.some.injEq, Prod.mk.injEq] at hprepare
      rw [← hprepare.1]
    · intro set maxSd hprepare
      rw [hsecond] at hprepare
      cases hprepare
  exact (hall _ hlegal).defined (by decide +kernel)

end Inet
end Sockets
end OsStuff
