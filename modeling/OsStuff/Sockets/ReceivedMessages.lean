import OsStuff.Sockets.InetServer
import OsStuff.Sockets.UnixServer

/-!
# Received messages

Both servers put a zero behind what they have received.  The Internet server
turns the result of `recv` into a `size_t` and asks only whether it is zero; the
datagram server looks for errors first.
-/

namespace OsStuff
namespace Sockets

open Library

namespace Inet

open Server

/-- The zero is stored within the buffer, and a reply comes right behind the
message that it answers. -/
def MessageOk (front : List Call) : Call → Prop
  | .store index => index < bufSize
  | .send fd _ => ∃ before result, 0 < result ∧
      front = before ++ [.recv fd result, .store (sizeT result)]
  | _ => True

/-- No `recv` failed, and none filled the buffer. -/
def ShortReads (log : List Call) : Prop :=
  ∀ fd result : Int, .recv fd result ∈ log → result ≠ -1 ∧ result ≠ bufSize

/-- The messages of the calls so far are all right exactly when the reads were
short. -/
def Matches (log : List Call) : Prop :=
  EachEntry MessageOk log ↔ ShortReads log

variable {sfd : Int} {server : Server} {round : Round} {log : List Call}

theorem shortReads_append {calls : List Call} :
    ShortReads (log ++ calls) ↔ ShortReads log ∧ ShortReads calls := by
  simp only [ShortReads, List.mem_append]
  constructor
  · exact fun hall => ⟨fun fd result hmem => hall fd result (Or.inl hmem),
      fun fd result hmem => hall fd result (Or.inr hmem)⟩
  · rintro ⟨hlog, hcalls⟩ fd result (hmem | hmem)
    · exact hlog fd result hmem
    · exact hcalls fd result hmem

/-- A call that neither receives nor answers. -/
theorem Matches.quiet (hlog : Matches log) {call : Call}
    (hok : ∀ front, MessageOk front call) (hrecv : ∀ fd result, call ≠ .recv fd result) :
    Matches (log ++ [call]) := by
  have hcall : ShortReads [call] := by
    intro fd result hmem
    exact absurd (List.mem_singleton.mp hmem).symm (hrecv fd result)
  unfold Matches at hlog ⊢
  rw [eachEntry_concat, shortReads_append, hlog]
  simp [hok, hcall]

theorem sizeT_of_nonneg {value : Int} (hle : 0 ≤ value) (hlt : value < 2 ^ 64) :
    sizeT value = value.toNat := by
  rw [sizeT, Int.emod_eq_of_lt hle hlt]

/-- A message and its reply. -/
theorem Matches.message (hlog : Matches log) {fd result sent : Int}
    (hresult : -1 ≤ result ∧ result ≤ bufSize) (hbytes : sizeT result ≠ 0) :
    Matches (log ++ [.recv fd result] ++ [.store (sizeT result), .send fd sent]) := by
  have hread : ShortReads [.recv fd result] ↔ result ≠ -1 ∧ result ≠ bufSize := by
    simp [ShortReads]
  have hreply : ShortReads [.store (sizeT result), .send fd sent] := by
    simp [ShortReads]
  unfold Matches at hlog ⊢
  rw [eachEntry_append_pair, eachEntry_concat, hlog, shortReads_append,
    shortReads_append, hread]
  simp only [MessageOk, and_true, hreply]
  have hstore : sizeT result < bufSize ↔ result ≠ -1 ∧ result ≠ bufSize := by
    by_cases hfailed : result = -1
    · subst hfailed
      simp [sizeT, bufSize]
    · rw [sizeT_of_nonneg (by omega) (by simp only [bufSize] at hresult; omega)]
      simp only [bufSize] at hresult ⊢
      omega
  constructor
  · rintro ⟨hshort, hindex, -⟩
    exact ⟨hshort, hstore.mp hindex⟩
  · rintro ⟨hshort, hres⟩
    refine ⟨hshort, hstore.mpr hres, log, result, ?_, by simp⟩
    -- The result is not zero, and not negative.
    have hpos : result ≠ 0 := by
      rintro rfl
      exact hbytes (by decide)
    omega

/-- The end of a connection. -/
theorem Matches.gone (hlog : Matches log) {fd result : Int}
    (hresult : -1 ≤ result ∧ result ≤ bufSize) (hbytes : sizeT result = 0) :
    Matches (log ++ [.recv fd result] ++ [.close fd]) := by
  have hzero : result = 0 := by
    by_cases hfailed : result = -1
    · subst hfailed
      exact absurd hbytes (by decide)
    · rw [sizeT_of_nonneg (by omega) (by simp only [bufSize] at hresult; omega)] at hbytes
      omega
  subst hzero
  apply Matches.quiet
  · unfold Matches at hlog ⊢
    rw [eachEntry_concat, shortReads_append, hlog]
    simp [MessageOk, ShortReads, bufSize]
  · exact fun _ => trivial
  · simp

/-! ## The parts of a round -/

theorem matches_acceptClient (hlog : Matches server.log) (fd : Int) :
    Matches (acceptClient sfd fd server).log := by
  have haccept : Matches (server.log ++ [.accept fd]) :=
    hlog.quiet (fun _ => trivial) (by simp)
  have hclose : Matches (server.log ++ [.accept fd] ++ [.close sfd]) :=
    haccept.quiet (fun _ => trivial) (by simp)
  unfold acceptClient
  simp only [record]
  split
  · exact hclose
  · split
    · exact haccept
    · exact hclose

theorem matches_serveClient (hlog : Matches server.log)
    (hround : ∀ i, -1 ≤ round.recv i ∧ round.recv i ≤ bufSize) (i : Nat) :
    Matches (serveClient round i server).log := by
  unfold serveClient
  simp only [record]
  split
  · split
    · rename_i hbytes
      exact hlog.gone (hround i) hbytes
    · rename_i hbytes
      split
      · exact hlog.message (hround i) hbytes
      · exact hlog.message (hround i) hbytes
  · exact hlog

theorem matches_serveLoop (hround : ∀ i, -1 ≤ round.recv i ∧ round.recv i ≤ bufSize)
    {count i : Nat} (hlog : Matches server.log) :
    Matches (serveLoop round count i server).log := by
  induction count generalizing i server with
  | zero => exact hlog
  | succ count ih =>
      have hnext := matches_serveClient hlog hround i
      rw [serveLoop]
      split
      · exact ih hnext
      · exact hnext

theorem matches_handle (hlog : Matches server.log)
    (hround : ∀ i, -1 ≤ round.recv i ∧ round.recv i ≤ bufSize) :
    Matches (handle sfd round server).log := by
  have hfirst : Matches
      (if sfd ∈ server.readfds then acceptClient sfd round.accepted server
        else server).log := by
    split
    · exact matches_acceptClient hlog _
    · exact hlog
  unfold handle
  generalize (if sfd ∈ server.readfds then acceptClient sfd round.accepted server
    else server) = next at hfirst
  change Matches (if next.status = .running then serveLoop round maxClients 0 next
    else next).log
  split
  · exact matches_serveLoop hround hfirst
  · exact hfirst

theorem matches_iterate (hlog : Matches server.log)
    (hround : ∀ i, -1 ≤ round.recv i ∧ round.recv i ≤ bufSize) :
    Matches (iterate sfd server round).log := by
  unfold iterate
  split
  · exact hlog
  · cases hprepare : prepare sfd server with
    | none => exact hlog
    | some prepared =>
        obtain ⟨set, maxSd⟩ := prepared
        have hselect : Matches (server.log ++ [.pselect (maxSd + 1) set round.ready]) :=
          hlog.quiet (fun _ => trivial) (by simp)
        cases hready : round.ready with
        | none =>
            rw [hready] at hselect
            exact hselect.quiet (fun _ => trivial) (by simp)
        | some ready =>
            rw [hready] at hselect
            exact matches_handle hselect hround

theorem matches_run {rounds : List Round}
    (hrounds : ∀ round ∈ rounds, ∀ i, -1 ≤ round.recv i ∧ round.recv i ≤ bufSize) :
    Matches (run sfd rounds).log := by
  have hall : ∀ server : Server, Matches server.log →
      Matches (rounds.foldl (iterate sfd) server).log := by
    induction rounds with
    | nil => exact fun server hlog => hlog
    | cons round rounds ih =>
        intro server hlog
        exact ih (fun r hr => hrounds r (List.mem_cons_of_mem _ hr)) _
          (matches_iterate hlog (hrounds round (by simp)))
  exact hall start (by simp [Matches, ShortReads, start])

end Inet

/-- In every run of the two servers the messages are terminated inside their
buffers and only messages are answered, exactly when no `recv` fails or fills the
buffer and no `recvfrom` fills it. -/
theorem messages_terminated_iff (sfd : Int) {rounds : List Inet.Round}
    {datagrams : List Unix.Round}
    (hrounds : ∀ round ∈ rounds, ∀ i, -1 ≤ round.recv i ∧ round.recv i ≤ Inet.bufSize)
    (hdatagrams : ∀ round ∈ datagrams,
      -1 ≤ round.received ∧ round.received ≤ Unix.recvBufLen) :
    (EachEntry Inet.MessageOk (Inet.Server.run sfd rounds).log ↔
      ∀ fd result : Int, .recv fd result ∈ (Inet.Server.run sfd rounds).log →
        result ≠ -1 ∧ result ≠ Inet.bufSize) ∧
    (EachEntry Unix.MessageOk (Unix.run datagrams).log ↔
      ∀ result : Int, .recvfrom result ∈ (Unix.run datagrams).log →
        result ≠ Unix.recvBufLen) :=
  ⟨Inet.matches_run hrounds,
    Unix.messagesOk_iff fun round hround => (hdatagrams round hround).2⟩

/-- A client that sends one byte, and one that sends a full buffer. -/
def sendBytes (bytes : Int) : List Inet.Round :=
  [⟨some {3}, 4, fun _ => bytes, fun _ => 1⟩, ⟨some {4}, 5, fun _ => bytes, fun _ => 1⟩]

theorem sendBytes_bounds {bytes : Int} (hbytes : -1 ≤ bytes ∧ bytes ≤ Inet.bufSize) :
    ∀ round ∈ sendBytes bytes, ∀ i, -1 ≤ round.recv i ∧ round.recv i ≤ Inet.bufSize := by
  intro round hround i
  simp only [sendBytes, List.mem_cons, List.not_mem_nil, or_false] at hround
  rcases hround with rfl | rfl
  · exact hbytes
  · exact hbytes

theorem messages_terminated_sample :
    (EachEntry Inet.MessageOk (Inet.Server.run 3 (sendBytes 1)).log ↔
      ∀ fd result : Int, .recv fd result ∈ (Inet.Server.run 3 (sendBytes 1)).log →
        result ≠ -1 ∧ result ≠ Inet.bufSize) ∧
    (EachEntry Unix.MessageOk (Unix.run [⟨1, 1⟩]).log ↔
      ∀ result : Int, .recvfrom result ∈ (Unix.run [⟨1, 1⟩]).log →
        result ≠ Unix.recvBufLen) :=
  messages_terminated_iff 3 (sendBytes_bounds (by decide)) (by decide)

/-- A message of 256 bytes from a client of the Internet server. -/
theorem full_message_leaves_buffer : ¬ ∀ (sfd : Int) (rounds : List Inet.Round)
    (datagrams : List Unix.Round),
    (∀ round ∈ rounds, ∀ i, -1 ≤ round.recv i ∧ round.recv i ≤ Inet.bufSize) →
    (∀ round ∈ datagrams, -1 ≤ round.received ∧ round.received ≤ Unix.recvBufLen) →
      EachEntry Inet.MessageOk (Inet.Server.run sfd rounds).log ∧
        EachEntry Unix.MessageOk (Unix.run datagrams).log := by
  intro hall
  have hbytes : -1 ≤ (256 : Int) ∧ (256 : Int) ≤ Inet.bufSize := by decide
  have hrounds := sendBytes_bounds hbytes
  obtain ⟨hinet, -⟩ := hall 3 (sendBytes 256) [] hrounds (by simp)
  have hshort := (Inet.matches_run hrounds).mp hinet
  exact (hshort 4 256 (by decide +kernel)).2 rfl

end Sockets
end OsStuff
