import Keyleport.Lib.Except
import Keyleport.Lib.Polling
import Keyleport.Networking.Message

/-!
# The broadcast server

`networking/p2p/macos/udp_broadcast_server.cpp` and its Windows sibling: a socket that is polled
for at most eight datagrams at a time. The two read a datagram in different ways: one that does
not fit the buffer is cut short on macOS and is an error on Windows, and a source that has no text
is skipped on macOS and called `"remote"` on Windows. Both stop at an empty datagram, which is
gone then, as if nothing had been there.

* `UdpBroadcastServer.pollLoop_eq`: a poll handles what a bounded poll of the queue takes.
-/

namespace Keyleport

/-- What `recvfrom` finds at the front of the queue of a socket. -/
inductive Recv where
  /-- A datagram, with the text that `inet_ntop` gives of its source. -/
  | datagram (source : Option StdString) (data : StdString)
  /-- An error of the socket. -/
  | error
deriving DecidableEq, Repr

namespace UdpBroadcastServer

/-- `sizeof(buf)`. -/
def bufferSize : ℕ := 1500

/-- The bound of the loop in `poll_events`. -/
def maxPerPoll : ℕ := 8

/-- What an iteration of `poll_events` does with what `recvfrom` gives. -/
inductive Reading where
  /-- `n <= 0`: the loop ends. -/
  | stop
  /-- The datagram is dropped, and the loop goes on. -/
  | skip
  /-- `on_message.emit`. -/
  | emit (msg : Message)
deriving DecidableEq, Repr

/-- The text of a source: `inet_ntop` may fail. -/
def fromIp (source : Option StdString) : StdString := source.getD []

/-- A server's iteration on macOS: a longer datagram is cut to the size of the buffer. -/
def readMacos : Recv → Reading
  | .error => .stop
  | .datagram source data =>
      let payload := data.take bufferSize
      -- also an empty datagram ends the poll
      if payload = [] then .stop
      else if fromIp source = [] then .skip
      else .emit ⟨⟨fromIp source⟩, Peer.self, payload⟩

/-- A server's iteration on Windows: a longer datagram is an error. -/
def readWindows : Recv → Reading
  | .error => .stop
  | .datagram source data =>
      -- `recvfrom` fails on a datagram that does not fit
      if data = [] ∨ bufferSize < data.length then .stop
      else
        let ip := if fromIp source = [] then .ofString "remote" else fromIp source
        .emit ⟨⟨ip⟩, Peer.self, data⟩

/-- The two implementations of the server. -/
inductive Platform where
  | macos
  | windows
deriving DecidableEq, Repr

/-- A server's iteration. -/
def read : Platform → Recv → Reading
  | .macos => readMacos
  | .windows => readWindows

/-- The message that a reading is emitted as. -/
def Reading.message? : Reading → Option Message
  | .stop | .skip => none
  | .emit msg => some msg

/-- The message that is emitted for what `recvfrom` gives. -/
def message? (platform : Platform) (r : Recv) : Option Message := (read platform r).message?

/-- What an item of the queue does to a poll. A skipped datagram counts, as `i` is increased. -/
def turn (platform : Platform) (r : Recv) : Polling.Turn :=
  match read platform r with
  | .stop => .last
  | .skip | .emit _ => .counted

variable {σ ε : Type}

/-- The loop of `poll_events` over the queue of the socket, with what is left of its bound. The
call on an empty queue would block. -/
def pollLoop (platform : Platform) (onMessage : σ → Message → Except ε σ) :
    ℕ → σ → List Recv → Except ε (σ × List Recv)
  | 0, s, queue => .ok (s, queue)
  | _ + 1, s, [] => .ok (s, [])
  | n + 1, s, r :: queue =>
      match read platform r with
      | .stop => .ok (s, queue)
      | .skip => pollLoop platform onMessage n s queue
      | .emit msg => do
          let s ← onMessage s msg
          pollLoop platform onMessage n s queue

/-- `poll_events`, for a socket that is open. -/
def pollEvents (platform : Platform) (onMessage : σ → Message → Except ε σ) (s : σ)
    (queue : List Recv) : Except ε (σ × List Recv) :=
  pollLoop platform onMessage maxPerPoll s queue

/-- The items a poll takes, and those it leaves. -/
def poll (platform : Platform) (queue : List Recv) : List Recv × List Recv :=
  Polling.poll (turn platform) maxPerPoll queue

/-- A poll that returns has emitted, in order, the messages of the items it took, and left the
others. -/
theorem pollLoop_eq (platform : Platform) (onMessage : σ → Message → Except ε σ) (n : ℕ) (s : σ)
    (queue : List Recv) :
    pollLoop platform onMessage n s queue = (do
      let s ← ((Polling.poll (turn platform) n queue).1.filterMap (message? platform)).foldlM
        onMessage s
      return (s, (Polling.poll (turn platform) n queue).2)) := by
  -- induction on the queue: each item read is one turn of the loop
  induction queue generalizing n s with
  | nil => cases n <;> rfl
  | cons r queue ih =>
    cases n with
    | zero => rfl
    | succ n =>
      rw [pollLoop, Polling.poll, turn]
      cases hread : read platform r with
      | stop =>
        have hnone : message? platform r = none := by rw [message?, hread]; rfl
        simp only [List.filterMap_cons_none hnone]
        rfl
      | skip =>
        have hnone : message? platform r = none := by rw [message?, hread]; rfl
        simp only [List.filterMap_cons_none hnone]
        exact ih n s
      | emit msg =>
        have hsome : message? platform r = some msg := by rw [message?, hread]; rfl
        simp only [List.filterMap_cons_some hsome, List.foldlM_cons, bind_assoc]
        exact bind_congr fun t => ih n t

/-- Only what counts is emitted, so a poll emits at most eight messages. -/
theorem length_messages_le (platform : Platform) (queue : List Recv) :
    ((poll platform queue).1.filterMap (message? platform)).length ≤ maxPerPoll := by
  refine le_trans ?_ (Polling.counted_poll_le (turn platform) maxPerPoll queue)
  rw [List.length_filterMap_eq_countP, Polling.counted]
  -- what is emitted counts against the bound
  refine List.countP_mono_left fun r _ hr => ?_
  rw [message?] at hr
  rw [turn]
  cases hread : read platform r with
  | stop =>
    rw [hread] at hr
    cases hr
  | skip => rfl
  | emit msg => rfl

end UdpBroadcastServer

end Keyleport
