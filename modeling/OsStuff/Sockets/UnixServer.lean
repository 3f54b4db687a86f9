import OsStuff.Library.Trace

/-!
# `8_sockets/src/unix/server.c`

The loop of `main`, for what the calls of the system return.
-/

namespace OsStuff
namespace Sockets
namespace Unix

open Library

def recvBufLen : Nat := 64

/-- A call of the server, or the store of the zero behind a message. -/
inductive Call
  | recvfrom (result : Int)
  | store (index : Nat)
  | sendto (result : Int)
  | close
  | unlink
  deriving DecidableEq, Repr

/-- What the calls of one round of the loop return. -/
structure Round where
  received : Int
  sent : Int
  deriving DecidableEq, Repr

structure Server where
  serving : Bool
  log : List Call
  deriving DecidableEq, Repr

def start : Server where
  serving := true
  log := []

/-- `clean` -/
def clean (server : Server) : Server :=
  { server with log := server.log ++ [.close, .unlink] }

/-- A round of the loop of `main`.  The server goes on when the reply cannot be
sent. -/
def iterate (server : Server) (round : Round) : Server :=
  if server.serving then
    let server := { server with log := server.log ++ [.recvfrom round.received] }
    if round.received < 0 then { clean server with serving := false }
    else
      { server with
        log := server.log ++ [.store round.received.toNat, .sendto round.sent] }
  else server

/-- The server after some rounds. -/
def run (rounds : List Round) : Server :=
  rounds.foldl iterate start

/-- The zero is stored within the buffer, and a reply comes right behind the
message that it answers. -/
def MessageOk (front : List Call) : Call → Prop
  | .store index => index < recvBufLen
  | .sendto _ => ∃ before result, 0 ≤ result ∧
      front = before ++ [.recvfrom result, .store result.toNat]
  | _ => True

variable {server : Server} {round : Round}

/-- A round keeps it, unless the message fills the buffer. -/
theorem messagesOk_iterate
    (hround : round.received ≤ recvBufLen)
    (hiff : EachEntry MessageOk server.log ↔
      ∀ result : Int, .recvfrom result ∈ server.log → result ≠ recvBufLen) :
    EachEntry MessageOk (iterate server round).log ↔
      ∀ result : Int, .recvfrom result ∈ (iterate server round).log →
        result ≠ recvBufLen := by
  unfold iterate
  split
  · simp only
    split
    · -- A failed call leaves no message.
      rename_i hfailed
      simp only [clean, eachEntry_append_pair, eachEntry_concat, hiff, MessageOk,
        and_true, List.mem_append, List.mem_cons, List.not_mem_nil, or_false,
        reduceCtorEq, Call.recvfrom.injEq]
      constructor
      · rintro hall result (hmem | rfl)
        · exact hall result hmem
        · simp only [recvBufLen]
          omega
      · exact fun hall result hmem => hall result (Or.inl hmem)
    · rename_i hreceived
      have hbound : round.received.toNat < recvBufLen ↔
          round.received ≠ recvBufLen := by
        simp only [recvBufLen] at hround ⊢
        omega
      -- A reply stands behind a message that was received and terminated.
      have hreply : ∃ before result, 0 ≤ result ∧
          server.log ++ [.recvfrom round.received] ++ [.store round.received.toNat] =
            before ++ [.recvfrom result, .store result.toNat] :=
        ⟨server.log, round.received, by omega, by simp⟩
      simp only [eachEntry_append_pair, eachEntry_concat, hiff, MessageOk, hreply,
        hbound, and_true, List.mem_append, List.mem_cons, List.not_mem_nil, or_false,
        reduceCtorEq, Call.recvfrom.injEq]
      constructor
      · rintro ⟨hall, hshort⟩ result (hmem | rfl)
        · exact hall result hmem
        · exact hshort
      · exact fun hall => ⟨fun result hmem => hall result (Or.inl hmem),
          hall _ (Or.inr rfl)⟩
  · exact hiff

/-- The messages of a run are all right exactly when none fills the buffer. -/
theorem messagesOk_iff {rounds : List Round}
    (hrounds : ∀ round ∈ rounds, round.received ≤ recvBufLen) :
    EachEntry MessageOk (run rounds).log ↔
      ∀ result : Int, .recvfrom result ∈ (run rounds).log → result ≠ recvBufLen := by
  have hall : ∀ server : Server, (EachEntry MessageOk server.log ↔
      ∀ result : Int, .recvfrom result ∈ server.log → result ≠ recvBufLen) →
        (EachEntry MessageOk (rounds.foldl iterate server).log ↔
          ∀ result : Int, .recvfrom result ∈ (rounds.foldl iterate server).log →
            result ≠ recvBufLen) := by
    induction rounds with
    | nil => exact fun server hiff => hiff
    | cons round rounds ih =>
        intro server hiff
        exact ih (fun r hr => hrounds r (List.mem_cons_of_mem _ hr)) _
          (messagesOk_iterate (hrounds round (by simp)) hiff)
  exact hall start (by simp [start])

end Unix
end Sockets
end OsStuff
