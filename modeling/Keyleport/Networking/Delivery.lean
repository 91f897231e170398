import Keyleport.Networking.Connection
import Mathlib.Data.List.Infix

/-!
# Delivery of reliable payloads

A send that finds no connection logs that it will retry, but no field of the client keeps its
payload. So a payload handed to `send_reliable` reaches `enet_peer_send` in that call or never.

* `UdpClient.deliverable`: when a send reaches the peer, from the state before it and the answers
  of ENet.
* `UdpClient.sendImpl_packets`: a send hands over its packet exactly then.
* `reliable_sends_kept_iff`: when a run discards no payload.
* `reliable_send_discarded`: a payload that is skipped, with a later one that is sent.
-/

namespace Keyleport

namespace UdpClient

variable {s s' t : UdpClient} {answers : SendAnswers} {p : ℕ}

/-! ## When a send is delivered -/

/-- The connection is there and survives the polling. -/
def stillConnected (s : UdpClient) (answers : SendAnswers) : Bool :=
  s.peer.isSome && (answers.polled.all fun e => e.1 ≠ .disconnect) && answers.idle = .connected

/-- The first connect or disconnect that is reported is a connect, of a connected peer. -/
def connectReported (rs : List Serviced) : Bool :=
  (rs.find? fun r => r.event = some .connect ∨ r.event = some .disconnect).any fun r =>
    r.event = some .connect ∧ r.state = .connected

/-- A new connection is due and succeeds: one of the ten answers within the timeout reports it. -/
def canConnect (s : UdpClient) (answers : SendAnswers) : Bool :=
  !s.tooSoon answers.now && s.ip ≠ [] && 0 < s.port && answers.resolved && answers.slot &&
    connectReported (answers.connecting.take 10)

/-- A send reaches the peer. -/
def deliverable (s : UdpClient) (answers : SendAnswers) : Bool :=
  (s.host || answers.hostCreated) && (s.stillConnected answers || s.canConnect answers)

/-! ## What the operations return -/

/-- Polling only services the host, and drops the peer at the first disconnect. -/
theorem pollLoop_eq (s : UdpClient) (polled : List (EnetEventType × EnetPeerState)) :
    ∃ state calls, s.pollLoop polled =
      { s with
        peer := if polled.all fun e => e.1 ≠ .disconnect then s.peer else none
        peerState := state
        calls := calls } := by
  induction polled generalizing s with
  | nil => exact ⟨s.peerState, s.calls, rfl⟩
  | cons e polled ih =>
    rw [pollLoop]
    split
    next hdisconnect =>
      -- once the peer is dropped, later events have nothing to drop
      obtain ⟨state, calls, heq⟩ := ih (s.hostService ⟨some e.1, e.2⟩).resetPeer
      have hnone : ∀ b : Bool, (if b then (none : Option ℕ) else none) = none := by simp
      refine ⟨state, calls, ?_⟩
      rw [heq, resetPeer_peer, hnone]
      cases hp : s.peer <;> simp [resetPeer, hostService, hp, hdisconnect]
    next hdisconnect =>
      obtain ⟨state, calls, heq⟩ := ih (s.hostService ⟨some e.1, e.2⟩)
      refine ⟨state, calls, ?_⟩
      rw [heq, List.all_cons, decide_eq_true hdisconnect, Bool.true_and]
      rfl

/-- Within the turns that are left, the loop returns a connected peer exactly when that is
reported first. -/
theorem connectLoop_connected {timeoutMs elapsed turns : ℕ} {rs : List Serviced} {q : Option ℕ}
    (hturns : elapsed + 50 * turns = timeoutMs)
    (h : connectLoop p timeoutMs elapsed s rs = some (q, s')) :
    (q.isSome && s'.peerState = .connected) = connectReported (rs.take turns) := by
  induction rs generalizing s elapsed turns with
  | nil =>
    rw [connectLoop] at h
    split at h
    · cases h
    · obtain ⟨rfl, rfl⟩ := Prod.mk.inj (Option.some.inj h)
      simp [connectReported]
  | cons r rs ih =>
    rw [connectLoop] at h
    split at h
    next hlt =>
      -- one turn is left at least
      obtain ⟨turns, rfl⟩ : ∃ n, turns = n + 1 := ⟨turns - 1, by omega⟩
      rw [List.take_succ_cons]
      split at h
      next hconnect =>
        obtain ⟨rfl, rfl⟩ := Prod.mk.inj (Option.some.inj h)
        simp [connectReported, hconnect, hostService]
      next hconnect =>
        split at h
        next hdisconnect =>
          obtain ⟨rfl, rfl⟩ := Prod.mk.inj (Option.some.inj h)
          simp [connectReported, hdisconnect]
        next hdisconnect =>
          have hrest : elapsed + 50 + 50 * turns = timeoutMs := by omega
          rw [ih hrest h]
          simp [connectReported, hconnect, hdisconnect]
    next hlt =>
      obtain rfl : turns = 0 := by omega
      obtain ⟨rfl, rfl⟩ := Prod.mk.inj (Option.some.inj h)
      simp [connectReported]

theorem connectPeer_connected {q : Option ℕ} (hhost : s.host = true) (hip : s.ip ≠ [])
    (hport : 0 < s.port) (h : s.connectPeer answers = some (q, s')) :
    (q.isSome && s'.peerState = .connected) =
      (answers.resolved && answers.slot && connectReported (answers.connecting.take 10)) := by
  have hport' : ¬ s.port ≤ 0 := Int32.not_le.2 hport
  simp only [connectPeer, hhost, hip, hport', decide_false, Bool.not_true, Bool.or_self,
    Bool.false_eq_true, if_false] at h
  split at h
  next hresolved =>
    obtain ⟨rfl, rfl⟩ := Prod.mk.inj (Option.some.inj h)
    have hresolved : answers.resolved = false := by simpa using hresolved
    simp [hresolved]
  next hresolved =>
    have hresolved : answers.resolved = true := by simpa using hresolved
    split at h
    next hslot =>
      obtain ⟨rfl, rfl⟩ := Prod.mk.inj (Option.some.inj h)
      have hslot : answers.slot = false := by simpa using hslot
      simp [hslot]
    next hslot =>
      have hslot : answers.slot = true := by simpa using hslot
      -- the timeout leaves ten turns of 50 ms
      rw [connectLoop_connected (show 0 + 50 * 10 = connectTimeoutMs from rfl) h, hresolved, hslot]
      rfl

theorem adoptPeer_connected {q : Option ℕ} {connected : Bool}
    (h : s.adoptPeer q = (connected, s')) :
    connected = (q.isSome && s.peerState = .connected) := by
  cases q with
  | none => exact (Prod.mk.inj h).1.symm
  | some p =>
    simp only [adoptPeer] at h
    split at h
    next hconnected =>
      have hconnected : s.peerState = .connected := hconnected
      rw [← (Prod.mk.inj h).1, hconnected]
      rfl
    next hconnected =>
      have hconnected : ¬ s.peerState = .connected := hconnected
      rw [← (Prod.mk.inj h).1, decide_eq_false hconnected]
      rfl

theorem tryConnect_connected {connected : Bool} (hhost : s.host = true)
    (h : s.tryConnect answers = some (connected, s')) : connected = s.canConnect answers := by
  simp only [tryConnect] at h
  -- the pace, the address, and only then what ENet answers
  split at h
  next hsoon =>
    have hsoon : s.tooSoon answers.now = true := hsoon
    rw [← (Prod.mk.inj (Option.some.inj h)).1, canConnect, hsoon]
    rfl
  next hdue =>
    have hdue : s.tooSoon answers.now = false := Bool.eq_false_iff.2 hdue
    split at h
    next hbad =>
      have hbad : s.ip = [] ∨ s.port ≤ 0 := by simpa [startAttempt, call] using hbad
      rw [← (Prod.mk.inj (Option.some.inj h)).1, canConnect, hdue]
      rcases hbad with hip | hport
      · simp [hip]
      · simp [hport]
    next hgood =>
      have hgood : s.ip ≠ [] ∧ ¬ s.port ≤ 0 := by simpa [startAttempt, call] using hgood
      have hport : 0 < s.port := Int32.not_le.1 hgood.2
      obtain ⟨⟨q, t⟩, hconnect, h⟩ := Option.bind_eq_some_iff.1 h
      have hstart : ((s.call (.nowMs answers.now)).startAttempt answers.now).host = true := hhost
      rw [adoptPeer_connected (Option.some.inj h),
        connectPeer_connected hstart hgood.1 hport hconnect, canConnect, hdue]
      simp [hgood.1, hport]

/-- The client is connected after `ensure_connected` if it was before, or if a connection is due
and succeeds. -/
theorem ensureConnected_connected {connected : Bool} (hhost : s.host = true)
    (h : s.ensureConnected answers = some (connected, s')) :
    connected = (s.peer.isSome && s.peerState = .connected || s.canConnect answers) := by
  rw [ensureConnected] at h
  split at h
  next p hp =>
    simp only at h
    split at h
    next hconnected =>
      have hconnected : s.peerState = .connected := hconnected
      rw [← (Prod.mk.inj (Option.some.inj h)).1, hp, hconnected]
      rfl
    next hconnected =>
      have hconnected : ¬ s.peerState = .connected := hconnected
      -- giving up the stale peer changes nothing that the attempt depends on
      have hreset : ((s.call (.readState p)).call (.readState p)).resetPeer =
          { s with peer := none,
                   calls := s.calls ++ [.readState p] ++ [.readState p] ++ [.peerReset p] } := by
        simp [resetPeer, call, hp]
      rw [hreset] at h
      have hhost' : UdpClient.host { s with
          peer := none
          calls := s.calls ++ [.readState p] ++ [.readState p] ++ [.peerReset p] } = true := hhost
      have htried := tryConnect_connected hhost' h
      rw [htried, decide_eq_false hconnected, Bool.and_false, Bool.false_or]
      rfl
  next hp =>
    rw [tryConnect_connected hhost h, hp]
    rfl

/-! ## What a send leaves behind -/

theorem ensureHost_eq (s : UdpClient) (created : Bool) : ∃ calls,
    s.ensureHost created = { s with host := s.host || created, calls := calls } := by
  obtain ⟨ip, port, host, peer, last, state, given, calls⟩ := s
  cases host with
  | true => exact ⟨calls, rfl⟩
  | false => exact ⟨_, rfl⟩

/-- Polling, then connecting if necessary: the client is connected when the send is deliverable. -/
private theorem connected_eq_deliverable {connected : Bool}
    (hhost : (s.ensureHost answers.hostCreated).host = true)
    (h : (((s.ensureHost answers.hostCreated).pollLoop answers.polled).hostService
      ⟨none, answers.idle⟩).ensureConnected answers = some (connected, s')) :
    connected = s.deliverable answers := by
  obtain ⟨calls, hensure⟩ := ensureHost_eq s answers.hostCreated
  obtain ⟨state, calls', hpoll⟩ := pollLoop_eq (s.ensureHost answers.hostCreated) answers.polled
  have hcreated : (s.host || answers.hostCreated) = true := by rwa [hensure] at hhost
  rw [hpoll, hensure] at h
  rw [ensureConnected_connected (by exact hcreated) h, deliverable, hcreated, Bool.true_and]
  congr 1
  -- the peer survives the polling if no disconnect is reported
  rw [stillConnected]
  cases answers.polled.all fun e => e.1 ≠ .disconnect <;> simp [hostService]

/-- A send hands over its packet exactly when it is deliverable. -/
theorem sendImpl_packets {msg : Message} {isReliable : Bool} (hs : s.Consistent)
    (hpayload : msg.payload ≠ []) (hcreated : answers.packetCreated = true)
    (h : s.sendImpl msg isReliable answers = some s') :
    s'.packets = if s.deliverable answers then s.packets ++ [packetOf isReliable msg.payload]
      else s.packets := by
  have hhost := hs.ensureHost answers.hostCreated
  have hquiet := quiet_ensureHost s answers.hostCreated
  simp only [sendImpl, if_neg hpayload] at h
  split at h
  next hnone =>
    -- no host can be created
    have hno : s.deliverable answers = false := by
      rw [ensureHost] at hnone
      cases hs : s.host <;> simp_all [deliverable]
    rw [hno, ← Option.some.inj h]
    exact hquiet.packets
  next hsome =>
    obtain ⟨⟨connected, t⟩, hensure, h⟩ := Option.bind_eq_some_iff.1 h
    obtain rfl := Option.some.inj h
    have hpolled := (hquiet.trans (quiet_pollLoop _ answers.polled)).trans
      (quiet_hostService _ ⟨none, answers.idle⟩)
    have ht := ensureConnected_spec ((hhost.pollLoop _).hostService _) hensure
    rw [← connected_eq_deliverable (by simpa using hsome) hensure]
    cases connected with
    | false => exact ht.packets.trans hpolled.packets
    | true =>
      obtain ⟨p, hp, hconnected⟩ := ht.peer rfl
      have hone := (sendPacket_spec ht.consistent hp hconnected msg.payload isReliable answers).2.2
      rw [if_pos rfl, if_pos rfl, hone, hcreated, if_pos rfl, ht.packets, hpolled.packets]

/-- A send that does not reach the peer leaves nothing of its payload. -/
theorem sendImpl_forgets {msg msg' : Message} {isReliable isReliable' : Bool}
    (hpayload : msg.payload ≠ []) (hpayload' : msg'.payload ≠ [])
    (hno : s.deliverable answers = false) :
    s.sendImpl msg isReliable answers = s.sendImpl msg' isReliable' answers := by
  simp only [sendImpl, if_neg hpayload, if_neg hpayload']
  split
  · rfl
  next hsome =>
    cases hensure : ((((s.ensureHost answers.hostCreated).pollLoop answers.polled).hostService
        ⟨none, answers.idle⟩).ensureConnected answers) with
    | none => rfl
    | some r =>
      obtain ⟨connected, t⟩ := r
      have hconnected : connected = false :=
        (connected_eq_deliverable (by simpa using hsome) hensure).trans hno
      rw [hconnected]
      rfl

/-! ## Runs -/

/-- The payloads handed to `enet_peer_send` on the reliable channel, oldest first. -/
def handed (s : UdpClient) : List StdString :=
  (s.packets.filter fun packet => packet.1 = kChannelReliable).map fun packet => packet.2.2

/-- The payload of a call of `send_reliable`, if it is not empty. -/
def Step.reliablePayload? : Step → Option StdString
  | sendReliable msg _ => if msg.payload = [] then none else some msg.payload
  | _ => none

/-- The answers that a send gets. -/
def Step.answers? : Step → Option SendAnswers
  | sendReliable _ answers => some answers
  | sendUnreliable _ answers => some answers
  | flushPendingMessages _ _ => none

/-- A call for which a packet is created if one is needed. -/
def Step.packetCreated (l : Step) : Bool := l.answers?.all SendAnswers.packetCreated

/-- The payloads passed to `send_reliable`, oldest first. -/
def passed (ls : List Step) : List StdString := ls.filterMap Step.reliablePayload?

/-- The payloads kept for a later send. No field of the client holds one, as `sendImpl_forgets`
shows. -/
def kept (_ : UdpClient) : List StdString := []

/-- A call hands over its reliable payload exactly when the send is deliverable; other calls hand
over none. -/
theorem handed_step {l : Step} (hs : s.Consistent) (hcreated : l.packetCreated = true)
    (h : step s l = some s') :
    (∃ msg answers, l = .sendReliable msg answers ∧ msg.payload ≠ [] ∧
      s'.handed = if s.deliverable answers then s.handed ++ [msg.payload] else s.handed) ∨
    (l.reliablePayload? = none ∧ s'.handed = s.handed) := by
  cases l with
  | sendReliable msg answers =>
    by_cases hpayload : msg.payload = []
    · -- an empty payload is refused
      have hsame : s' = s := by
        rw [step, sendReliable, sendImpl, if_pos hpayload] at h
        exact (Option.some.inj h).symm
      exact Or.inr ⟨if_pos hpayload, hsame ▸ rfl⟩
    · refine Or.inl ⟨msg, answers, rfl, hpayload, ?_⟩
      rw [handed, sendImpl_packets hs hpayload hcreated h]
      split
      · simp [handed, packetOf]
      · rfl
  | sendUnreliable msg answers =>
    refine Or.inr ⟨rfl, ?_⟩
    rcases (step_spec hs h).2.2 with hpackets | ⟨packet, hpacket, hpackets⟩
    · rw [handed, hpackets]
      rfl
    · obtain rfl := Option.some.inj hpacket
      rw [handed, hpackets]
      simp [handed, kChannelReliable]
  | flushPendingMessages polled idle =>
    refine Or.inr ⟨rfl, ?_⟩
    rcases (step_spec hs h).2.2 with hpackets | ⟨packet, hpacket, -⟩
    · rw [handed, hpackets]
      rfl
    · cases hpacket

theorem passed_concat (ls : List Step) (l : Step) :
    passed (ls ++ [l]) = passed ls ++ l.reliablePayload?.toList := by
  rw [passed, List.filterMap_append]
  cases h : l.reliablePayload? <;> simp [passed, h]

end UdpClient

open UdpClient in
/-- When no reliable payload is discarded. In a run, the payloads handed to `enet_peer_send` on the
reliable channel, followed by those kept for later, are the payloads passed to `send_reliable` in
every state, if and only if every `send_reliable` of the run was made when it could be delivered:
the connection was there and not reported broken, or a new one was due and succeeded at once. -/
theorem reliable_sends_kept_iff {ip : StdString} {port : Int32} {hostCreated : Bool}
    {ls : List Step} {s : UdpClient} (h : machine.run (init ip port hostCreated) ls = some s)
    (hcreated : ∀ l ∈ ls, l.packetCreated = true) :
    (∀ ls' t, ls' <+: ls → machine.run (init ip port hostCreated) ls' = some t →
      t.handed ++ t.kept = passed ls') ↔
    ∀ ls' msg answers t, ls' ++ [.sendReliable msg answers] <+: ls →
      machine.run (init ip port hostCreated) ls' = some t → msg.payload ≠ [] →
      t.deliverable answers = true := by
  have hkept : ∀ t : UdpClient, t.handed ++ t.kept = t.handed := fun t => List.append_nil _
  simp only [hkept]
  constructor
  · intro hall ls' msg answers t hpre ht hpayload
    obtain ⟨t', hstep, ht'⟩ := Machine.step_of_prefix h hpre ht
    have hbefore := hall ls' t ((List.prefix_append _ _).trans hpre) ht
    have hafter := hall _ t' hpre ht'
    have hl : (Step.sendReliable msg answers).packetCreated = true :=
      hcreated _ (hpre.subset (by simp))
    rcases handed_step (Consistent.run ht) hl hstep with ⟨_, _, heq, -, hhanded⟩ | ⟨hnone, -⟩
    · -- had it not been delivered, it would be missing from now on
      obtain ⟨rfl, rfl⟩ := Step.sendReliable.inj heq
      by_contra hno
      rw [hhanded, if_neg hno, hbefore, passed_concat] at hafter
      simp [Step.reliablePayload?, hpayload] at hafter
    · simp [Step.reliablePayload?, hpayload] at hnone
  · intro hdeliverable ls' t hpre ht
    revert hpre
    refine Machine.run_induction (M := machine)
      (motive := fun ls' t => ls' <+: ls → t.handed = passed ls') (fun _ => rfl) ?_ ht
    intro ls' t l t' ht ih hstep hpre
    have hbefore := ih ((List.prefix_append _ _).trans hpre)
    rcases handed_step (Consistent.run ht) (hcreated l (hpre.subset (by simp))) hstep with
      ⟨msg, answers, rfl, hpayload, hhanded⟩ | ⟨hnone, hhanded⟩
    · rw [hhanded, if_pos (hdeliverable ls' msg answers t hpre ht hpayload), hbefore,
        passed_concat]
      simp [Step.reliablePayload?, hpayload]
    · rw [hhanded, hbefore, passed_concat, hnone]
      exact (List.append_nil _).symm

namespace UdpClient

/-- Two sends of a client that connects at the first. -/
def delivering : List Step :=
  [.sendReliable (letter 97) (connects 1000), .sendReliable (letter 98) (answersIdle .connected 0)]

end UdpClient

open UdpClient in
/-- Both payloads of this run are handed over. -/
theorem reliable_sends_kept_iff_delivering : ∃ s, machine.run reliableClient delivering = some s ∧
    s.handed ++ s.kept = [[97], [98]] := by
  have hrun : ∃ s, machine.run reliableClient delivering = some s :=
    Option.isSome_iff_exists.1 (by decide +kernel)
  obtain ⟨s, hs⟩ := hrun
  -- the sends are the last steps of the two prefixes that are not empty
  have hlast : ∀ ls' ∈ delivering.inits, ∀ l ∈ ls'.getLast?,
      ∀ t ∈ machine.run reliableClient ls'.dropLast, ∀ answers ∈ l.answers?,
        t.deliverable answers = true := by
    decide +kernel
  refine ⟨s, hs, (reliable_sends_kept_iff hs (by decide)).2 ?_ _ s (List.prefix_refl _) hs⟩
  intro ls' msg answers t hpre ht hpayload
  refine hlast (ls' ++ [.sendReliable msg answers]) ((List.mem_inits _ _).2 hpre)
    (.sendReliable msg answers) (by simp) t ?_ answers rfl
  rw [List.dropLast_concat]
  exact ht

open UdpClient in
/-- A payload is skipped: no connection can be made at the first send, and the second one connects
and hands over its own payload only. -/
theorem reliable_send_discarded : ¬ ∀ (ip : StdString) (port : Int32) (hostCreated : Bool)
    (ls : List Step) (s : UdpClient), machine.run (init ip port hostCreated) ls = some s →
    (∀ l ∈ ls, ∃ answers ∈ l.answers?, answers.packetCreated = true ∧ answers.accepted = true) →
    s.handed <+: passed ls := by
  intro hpre
  have hrun : ∃ s ∈ machine.run reliableClient
      [.sendReliable (letter 97) { connects 1000 with connecting := [⟨some .disconnect,
        .disconnected⟩] }, .sendReliable (letter 98) (connects 2000)], s.handed = [[98]] := by
    decide +kernel
  obtain ⟨s, hs, hhanded⟩ := hrun
  have hpassed := hpre _ _ _ _ s hs (by decide)
  rw [hhanded] at hpassed
  revert hpassed
  decide

end Keyleport
