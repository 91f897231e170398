import Keyleport.Networking.UdpClient
import Mathlib.Data.Option.Basic

/-!
# The connection of the UDP client

The client drops its pointer to a peer in five places. Whatever the order of its calls and of the
events that ENet reports, it uses the one slot of its host as ENet demands, and its attempts to
connect keep their distance.

* `UdpClient.Consistent`: the calls made are an allowed use of a one-slot host, which ends with
  the peer that the client points to.
* `UdpClient.ensureConnected_spec`: what the calls of an attempt to connect are.
* `connection_state_machine`: the four rules of the connection, for every run.
-/

namespace Keyleport

namespace UdpClient

variable {s s' t : UdpClient} {held : Option ℕ} {p : ℕ} {answers : SendAnswers}

/-! ## The peer in use -/

/-- The calls are an allowed use of the host that leaves the peer `held` live. -/
def Uses (s : UdpClient) (held : Option ℕ) : Prop :=
  EnetHost.machine.run EnetHost.new s.calls =
    some ⟨s.given, held.map fun p => (p, s.peerState)⟩

/-- The live peer is the one the client points to. -/
def Consistent (s : UdpClient) : Prop := s.Uses s.peer

theorem Consistent.init (ip : StdString) (port : Int32) (hostCreated : Bool) :
    (init ip port hostCreated).Consistent := rfl

/-- One more call that the host allows. -/
theorem Uses.concat {held' : Option ℕ} {c : EnetCall} (h : s.Uses held)
    (hcalls : s'.calls = s.calls ++ [c])
    (hstep : EnetHost.step ⟨s.given, held.map fun p => (p, s.peerState)⟩ c =
      some ⟨s'.given, held'.map fun p => (p, s'.peerState)⟩) : s'.Uses held' := by
  rw [Uses, hcalls]
  exact Machine.run_concat_eq_some.2 ⟨_, h, hstep⟩

theorem Uses.hostService (h : s.Uses held) (r : Serviced) : (s.hostService r).Uses held := by
  refine h.concat rfl ?_
  cases held <;> rfl

theorem Uses.peerReset (h : s.Uses (some p)) : (s.call (.peerReset p)).Uses none :=
  h.concat rfl (if_pos rfl)

/-- The state of the peer in use may be read. -/
theorem Consistent.readState (h : s.Consistent) (hp : s.peer = some p) :
    (s.call (.readState p)).Consistent := by
  rw [Consistent, hp] at h
  rw [Consistent, show (s.call (.readState p)).peer = some p from hp]
  exact h.concat rfl (if_pos rfl)

@[simp]
theorem resetPeer_peer (s : UdpClient) : s.resetPeer.peer = none := by
  cases h : s.peer <;> simp [resetPeer, h]

/-- The pointer is dropped together with the peer. -/
theorem Consistent.resetPeer (h : s.Consistent) : s.resetPeer.Consistent := by
  rw [Consistent, resetPeer_peer]
  rw [Consistent] at h
  cases hp : s.peer with
  | none =>
    rw [hp] at h
    simpa [UdpClient.resetPeer, hp] using h
  | some p =>
    rw [hp] at h
    have hreset : s.resetPeer = { s with peer := none, calls := s.calls ++ [.peerReset p] } := by
      simp [UdpClient.resetPeer, hp]
    rw [hreset]
    exact h.concat rfl (if_pos rfl)

theorem Consistent.pollLoop (h : s.Consistent) (polled : List (EnetEventType × EnetPeerState)) :
    (s.pollLoop polled).Consistent := by
  induction polled generalizing s with
  | nil => exact h
  | cons e polled ih =>
    have hserviced : (s.hostService ⟨some e.1, e.2⟩).Consistent := h.hostService _
    rw [UdpClient.pollLoop]
    -- a disconnect drops the peer
    split
    · exact ih hserviced.resetPeer
    · exact ih hserviced

theorem Consistent.flushLoop (h : s.Consistent) (budget : ℕ)
    (polled : List (EnetEventType × EnetPeerState)) (idle : EnetPeerState) :
    (flushLoop budget s polled idle).Consistent := by
  induction budget generalizing s polled with
  | zero => exact h
  | succ budget ih =>
    cases polled with
    | nil => exact h.hostService _
    | cons e polled =>
      have hserviced : (s.hostService ⟨some e.1, e.2⟩).Consistent := h.hostService _
      rw [UdpClient.flushLoop]
      split
      · exact ih hserviced.resetPeer polled
      · exact ih hserviced polled

/-! ## Quiet operations -/

/-- From `s` to `s'` nothing was sent, no clock was read and no attempt was started. -/
structure Quiet (s s' : UdpClient) : Prop where
  lastConnectAttemptMs : s'.lastConnectAttemptMs = s.lastConnectAttemptMs
  calls : ∃ new, s'.calls = s.calls ++ new ∧
    ∀ c ∈ new, c.packet? = none ∧ c.reading? = none ∧ c.attempt? = none

theorem Quiet.refl (s : UdpClient) : Quiet s s :=
  ⟨rfl, [], (List.append_nil _).symm, by simp⟩

theorem Quiet.trans (h : Quiet s t) (h' : Quiet t s') : Quiet s s' := by
  obtain ⟨new, hnew, hquiet⟩ := h.calls
  obtain ⟨new', hnew', hquiet'⟩ := h'.calls
  refine ⟨h'.lastConnectAttemptMs.trans h.lastConnectAttemptMs, new ++ new', ?_, ?_⟩
  · rw [hnew', hnew, List.append_assoc]
  · intro c hc
    exact (List.mem_append.1 hc).elim (hquiet c) (hquiet' c)

/-- One quiet call. -/
theorem Quiet.concat {c : EnetCall} (hlast : s'.lastConnectAttemptMs = s.lastConnectAttemptMs)
    (hcalls : s'.calls = s.calls ++ [c])
    (hc : c.packet? = none ∧ c.reading? = none ∧ c.attempt? = none) : Quiet s s' := by
  refine ⟨hlast, [c], hcalls, fun c' hc' => ?_⟩
  obtain rfl := List.mem_singleton.1 hc'
  exact hc

theorem quiet_hostService (s : UdpClient) (r : Serviced) : Quiet s (s.hostService r) :=
  .concat rfl rfl ⟨rfl, rfl, rfl⟩

theorem quiet_readState (s : UdpClient) (p : ℕ) : Quiet s (s.call (.readState p)) :=
  .concat rfl rfl ⟨rfl, rfl, rfl⟩

theorem quiet_peerReset (s : UdpClient) (p : ℕ) : Quiet s (s.call (.peerReset p)) :=
  .concat rfl rfl ⟨rfl, rfl, rfl⟩

theorem quiet_resetPeer (s : UdpClient) : Quiet s s.resetPeer := by
  rw [resetPeer]
  split
  · exact .concat rfl rfl ⟨rfl, rfl, rfl⟩
  · exact .refl s

theorem quiet_pollLoop (s : UdpClient) (polled : List (EnetEventType × EnetPeerState)) :
    Quiet s (s.pollLoop polled) := by
  induction polled generalizing s with
  | nil => exact .refl s
  | cons e polled ih =>
    have hserviced := quiet_hostService s ⟨some e.1, e.2⟩
    rw [pollLoop]
    split
    · exact (hserviced.trans (quiet_resetPeer _)).trans (ih _)
    · exact hserviced.trans (ih _)

theorem quiet_flushLoop (budget : ℕ) (s : UdpClient)
    (polled : List (EnetEventType × EnetPeerState)) (idle : EnetPeerState) :
    Quiet s (flushLoop budget s polled idle) := by
  induction budget generalizing s polled with
  | zero => exact .refl s
  | succ budget ih =>
    cases polled with
    | nil => exact quiet_hostService s _
    | cons e polled =>
      have hserviced := quiet_hostService s ⟨some e.1, e.2⟩
      rw [flushLoop]
      split
      · exact (hserviced.trans (quiet_resetPeer _)).trans (ih _ _)
      · exact hserviced.trans (ih _ _)

/-! ## Connecting -/

/-- The loop returns the peer it services, or resets it. -/
theorem connectLoop_spec {timeoutMs elapsed : ℕ} {rs : List Serviced} {q : Option ℕ}
    (hs : s.Uses (some p)) (h : connectLoop p timeoutMs elapsed s rs = some (q, s')) :
    s'.Uses q ∧ Quiet s s' := by
  induction rs generalizing s elapsed with
  | nil =>
    rw [connectLoop] at h
    split at h
    · cases h
    · obtain ⟨rfl, rfl⟩ := Prod.mk.inj (Option.some.inj h)
      exact ⟨hs.peerReset, quiet_peerReset s p⟩
  | cons r rs ih =>
    have hserviced := hs.hostService r
    have hquiet := quiet_hostService s r
    rw [connectLoop] at h
    split at h
    · split at h
      · -- connected
        obtain ⟨rfl, rfl⟩ := Prod.mk.inj (Option.some.inj h)
        exact ⟨hserviced, hquiet⟩
      · split at h
        · -- refused
          obtain ⟨rfl, rfl⟩ := Prod.mk.inj (Option.some.inj h)
          exact ⟨hserviced.peerReset, hquiet.trans (quiet_peerReset _ p)⟩
        · obtain ⟨huses, hrest⟩ := ih hserviced h
          exact ⟨huses, hquiet.trans hrest⟩
    · -- out of time
      obtain ⟨rfl, rfl⟩ := Prod.mk.inj (Option.some.inj h)
      exact ⟨hs.peerReset, quiet_peerReset s p⟩

/-- A connection is started only while no peer is live. -/
theorem connectPeer_spec {q : Option ℕ} (hs : s.Uses none)
    (h : s.connectPeer answers = some (q, s')) : s'.Uses q ∧ Quiet s s' := by
  rw [connectPeer] at h
  split at h
  · obtain ⟨rfl, rfl⟩ := Prod.mk.inj (Option.some.inj h)
    exact ⟨hs, .refl s⟩
  · split at h
    · obtain ⟨rfl, rfl⟩ := Prod.mk.inj (Option.some.inj h)
      exact ⟨hs, .refl s⟩
    · split at h
      · -- no slot
        obtain ⟨rfl, rfl⟩ := Prod.mk.inj (Option.some.inj h)
        exact ⟨hs.concat rfl rfl, .concat rfl rfl ⟨rfl, rfl, rfl⟩⟩
      · have hgiven : (s.hostConnect s.port.toUInt32.toUInt16).Uses (some s.given) :=
          hs.concat rfl (if_pos ⟨rfl, rfl⟩)
        have hconnect : Quiet s (s.hostConnect s.port.toUInt32.toUInt16) :=
          .concat rfl rfl ⟨rfl, rfl, rfl⟩
        obtain ⟨huses, hquiet⟩ := connectLoop_spec hgiven h
        exact ⟨huses, hconnect.trans hquiet⟩

/-- The new peer is kept if it is connected, and reset otherwise. -/
theorem adoptPeer_spec {q : Option ℕ} {connected : Bool} (hs : s.Uses q)
    (h : s.adoptPeer q = (connected, s')) : s'.Consistent ∧ Quiet s s' ∧
      (connected = true → ∃ p, s'.peer = some p ∧ s'.peerState = .connected) := by
  have hassign : Quiet s { s with peer := q } :=
    ⟨rfl, [], (List.append_nil _).symm, by simp⟩
  cases q with
  | none =>
    obtain ⟨rfl, rfl⟩ := Prod.mk.inj h
    exact ⟨hs, hassign, nofun⟩
  | some p =>
    have hread : ({ s with peer := some p }.call (.readState p)).Consistent :=
      Consistent.readState hs rfl
    have hquiet := hassign.trans (quiet_readState { s with peer := some p } p)
    simp only [adoptPeer] at h
    split at h
    next hconnected =>
      obtain ⟨rfl, rfl⟩ := Prod.mk.inj h
      exact ⟨hread, hquiet, fun _ => ⟨p, rfl, hconnected⟩⟩
    next =>
      -- the timeout passed, or the peer disconnected again
      obtain ⟨rfl, rfl⟩ := Prod.mk.inj h
      exact ⟨(hread.readState rfl).resetPeer,
        (hquiet.trans (quiet_readState _ p)).trans (quiet_resetPeer _), nofun⟩

/-! ## The pace of attempts -/

/-- The packets handed to `enet_peer_send`, oldest first. -/
def packets (s : UdpClient) : List (UInt8 × EnetPacketFlag × StdString) :=
  s.calls.filterMap EnetCall.packet?

/-- The readings of the clock, oldest first. -/
def readings (s : UdpClient) : List UInt64 := s.calls.filterMap EnetCall.reading?

/-- The times of the attempts to connect, oldest first. -/
def attempts (s : UdpClient) : List UInt64 := s.calls.filterMap EnetCall.attempt?

theorem Quiet.packets (h : Quiet s s') : s'.packets = s.packets := by
  obtain ⟨new, hnew, hquiet⟩ := h.calls
  rw [UdpClient.packets, hnew, List.filterMap_append,
    List.filterMap_eq_nil_iff.2 fun c hc => (hquiet c hc).1, List.append_nil]
  rfl

theorem Quiet.readings (h : Quiet s s') : s'.readings = s.readings := by
  obtain ⟨new, hnew, hquiet⟩ := h.calls
  rw [UdpClient.readings, hnew, List.filterMap_append,
    List.filterMap_eq_nil_iff.2 fun c hc => (hquiet c hc).2.1, List.append_nil]
  rfl

theorem Quiet.attempts (h : Quiet s s') : s'.attempts = s.attempts := by
  obtain ⟨new, hnew, hquiet⟩ := h.calls
  rw [UdpClient.attempts, hnew, List.filterMap_append,
    List.filterMap_eq_nil_iff.2 fun c hc => (hquiet c hc).2.2, List.append_nil]
  rfl

/-- From `s` to `s'` the clock was not read and no attempt was started. -/
structure SameTime (s s' : UdpClient) : Prop where
  readings : s'.readings = s.readings
  attempts : s'.attempts = s.attempts
  lastConnectAttemptMs : s'.lastConnectAttemptMs = s.lastConnectAttemptMs

theorem Quiet.sameTime (h : Quiet s s') : SameTime s s' :=
  ⟨h.readings, h.attempts, h.lastConnectAttemptMs⟩

/-- From `s` to `s'` the clock was read at most once, and an attempt was started at most at that
reading and when it was not too soon. -/
inductive Paced (s s' : UdpClient) : Prop where
  | silent (h : SameTime s s')
  | soon (now : UInt64) (readings : s'.readings = s.readings ++ [now])
      (attempts : s'.attempts = s.attempts)
      (last : s'.lastConnectAttemptMs = s.lastConnectAttemptMs)
  | attempted (now : UInt64) (readings : s'.readings = s.readings ++ [now])
      (attempts : s'.attempts = s.attempts ++ [now]) (last : s'.lastConnectAttemptMs = now)
      (due : s.tooSoon now = false)

theorem Paced.trans_sameTime (h : Paced s t) (h' : SameTime t s') : Paced s s' := by
  cases h with
  | silent h =>
    exact .silent ⟨h'.readings.trans h.readings, h'.attempts.trans h.attempts,
      h'.lastConnectAttemptMs.trans h.lastConnectAttemptMs⟩
  | soon now hr ha hl =>
    exact .soon now (h'.readings.trans hr) (h'.attempts.trans ha) (h'.lastConnectAttemptMs.trans hl)
  | attempted now hr ha hl hdue =>
    exact .attempted now (h'.readings.trans hr) (h'.attempts.trans ha)
      (h'.lastConnectAttemptMs.trans hl) hdue

theorem SameTime.trans_paced (h : SameTime s t) (h' : Paced t s') : Paced s s' := by
  have hsoon : ∀ now, s.tooSoon now = t.tooSoon now := fun now => by
    rw [tooSoon, tooSoon, h.lastConnectAttemptMs]
  cases h' with
  | silent h' =>
    exact .silent ⟨h'.readings.trans h.readings, h'.attempts.trans h.attempts,
      h'.lastConnectAttemptMs.trans h.lastConnectAttemptMs⟩
  | soon now hr ha hl =>
    exact .soon now (h.readings ▸ hr) (ha.trans h.attempts) (hl.trans h.lastConnectAttemptMs)
  | attempted now hr ha hl hdue =>
    exact .attempted now (h.readings ▸ hr) (h.attempts ▸ ha) hl ((hsoon now).trans hdue)

/-- What an attempt to connect leaves: a peer that is connected, or none. -/
structure Ensured (s : UdpClient) (connected : Bool) (s' : UdpClient) : Prop where
  consistent : s'.Consistent
  paced : Paced s s'
  packets : s'.packets = s.packets
  peer : connected = true → ∃ p, s'.peer = some p ∧ s'.peerState = .connected

/-- Reading the clock is all that is done when it is too soon. -/
private theorem ensured_soon (hs : s.Uses none) (hpeer : s.peer = none) (now : UInt64) :
    Ensured s false (s.call (.nowMs now)) := by
  refine ⟨?_, .soon now ?_ ?_ rfl, ?_, nofun⟩
  · rw [Consistent, show (s.call (.nowMs now)).peer = none from hpeer]
    exact hs.concat rfl rfl
  · simp [readings, call, EnetCall.reading?]
  · simp [attempts, call, EnetCall.attempt?]
  · simp [packets, call, EnetCall.packet?]

/-- What follows the start of an attempt is quiet. -/
private theorem ensured_attempt {now : UInt64} {connected : Bool} (hdue : s.tooSoon now = false)
    (hquiet : Quiet ((s.call (.nowMs now)).startAttempt now) s') (hs : s'.Consistent)
    (hpeer : connected = true → ∃ p, s'.peer = some p ∧ s'.peerState = .connected) :
    Ensured s connected s' := by
  refine ⟨hs, .attempted now ?_ ?_ hquiet.lastConnectAttemptMs hdue, ?_, hpeer⟩
  · rw [hquiet.readings]
    simp [readings, startAttempt, call, EnetCall.reading?]
  · rw [hquiet.attempts]
    simp only [attempts, startAttempt, call, List.append_assoc, List.filterMap_append]
    rfl
  · rw [hquiet.packets]
    simp [packets, startAttempt, call, EnetCall.packet?]

theorem tryConnect_spec {connected : Bool} (hs : s.Consistent) (hpeer : s.peer = none)
    (h : s.tryConnect answers = some (connected, s')) : Ensured s connected s' := by
  rw [Consistent, hpeer] at hs
  have hstart : ((s.call (.nowMs answers.now)).startAttempt answers.now).Uses none :=
    (hs.concat rfl rfl : (s.call (.nowMs answers.now)).Uses none).concat rfl rfl
  simp only [tryConnect] at h
  split at h
  next =>
    obtain ⟨rfl, rfl⟩ := Prod.mk.inj (Option.some.inj h)
    exact ensured_soon hs hpeer answers.now
  next hdue =>
    have hdue : s.tooSoon answers.now = false := Bool.eq_false_iff.2 hdue
    split at h
    · -- no address to connect to
      obtain ⟨rfl, rfl⟩ := Prod.mk.inj (Option.some.inj h)
      refine ensured_attempt hdue (.refl _) ?_ nofun
      rw [Consistent]
      exact hpeer ▸ hstart
    · obtain ⟨⟨q, t⟩, hconnect, h⟩ := Option.bind_eq_some_iff.1 h
      obtain ⟨huses, hquiet⟩ := connectPeer_spec hstart hconnect
      obtain ⟨hadopted, hquiet', hpeer'⟩ := adoptPeer_spec huses (Option.some.inj h)
      exact ensured_attempt hdue (hquiet.trans hquiet') hadopted hpeer'

/-- `ensure_connected` ends with a connected peer, or fails. -/
theorem ensureConnected_spec {connected : Bool} (hs : s.Consistent)
    (h : s.ensureConnected answers = some (connected, s')) : Ensured s connected s' := by
  rw [ensureConnected] at h
  split at h
  next p hp =>
    have hread : (s.call (.readState p)).Consistent := hs.readState hp
    have hquiet := quiet_readState s p
    simp only at h
    split at h
    next hconnected =>
      obtain ⟨rfl, rfl⟩ := Prod.mk.inj (Option.some.inj h)
      exact ⟨hread, .silent hquiet.sameTime, hquiet.packets, fun _ => ⟨p, hp, hconnected⟩⟩
    next =>
      -- the stale peer is reset before the client tries again
      have hreset := (hquiet.trans (quiet_readState _ p)).trans (quiet_resetPeer _)
      have htried := tryConnect_spec (hread.readState hp).resetPeer (resetPeer_peer _) h
      exact ⟨htried.consistent, hreset.sameTime.trans_paced htried.paced,
        htried.packets.trans hreset.packets, htried.peer⟩
  next hp => exact tryConnect_spec hs hp h

/-! ## Calls of the client -/

/-- The packet of a send. -/
def packetOf (isReliable : Bool) (payload : StdString) : UInt8 × EnetPacketFlag × StdString :=
  if isReliable then (kChannelReliable, .reliable, payload)
  else (kChannelUnreliable, .unreliableFragment, payload)

theorem Consistent.ensureHost (h : s.Consistent) (created : Bool) :
    (s.ensureHost created).Consistent := by
  rw [UdpClient.ensureHost]
  split
  · exact h
  · exact h.concat rfl rfl

theorem quiet_ensureHost (s : UdpClient) (created : Bool) : Quiet s (s.ensureHost created) := by
  rw [ensureHost]
  split
  · exact .refl s
  · exact .concat rfl rfl ⟨rfl, rfl, rfl⟩

/-- A packet that is created is handed to the connected peer. -/
theorem sendPacket_spec (hs : s.Consistent) (hp : s.peer = some p)
    (hconnected : s.peerState = .connected) (payload : StdString) (isReliable : Bool)
    (answers : SendAnswers) :
    (s.sendPacket payload isReliable answers).Consistent ∧
    SameTime s (s.sendPacket payload isReliable answers) ∧
    (s.sendPacket payload isReliable answers).packets =
      if answers.packetCreated then s.packets ++ [packetOf isReliable payload]
      else s.packets := by
  simp only [sendPacket]
  split
  next hno =>
    have hno : answers.packetCreated = false := by simpa using hno
    rw [hno]
    exact ⟨hs, ⟨rfl, rfl, rfl⟩, rfl⟩
  next hcreated =>
    have hcreated : answers.packetCreated = true := by simpa using hcreated
    rw [hcreated, if_pos rfl]
    have hsend : ∀ channel flag, (s.call (.peerSend s.peer channel flag payload)).Consistent := by
      intro channel flag
      rw [Consistent, hp] at hs
      rw [hp, Consistent, show ∀ c, (s.call c).peer = some p from fun _ => hp]
      refine hs.concat rfl (if_pos ?_)
      rw [← hconnected]
      rfl
    -- a refused packet is destroyed, an accepted one flushed
    split
    · refine ⟨(hsend _ _).concat rfl rfl, ⟨?_, ?_, rfl⟩, ?_⟩
      · simp [readings, call, EnetCall.reading?]
      · simp [attempts, call, EnetCall.attempt?]
      · cases isReliable <;> simp [packets, call, EnetCall.packet?, packetOf]
    · refine ⟨(hsend _ _).concat rfl rfl, ⟨?_, ?_, rfl⟩, ?_⟩
      · simp [readings, call, EnetCall.reading?]
      · simp [attempts, call, EnetCall.attempt?]
      · cases isReliable <;> simp [packets, call, EnetCall.packet?, packetOf]

/-- What a send leaves: it sent its packet or nothing. -/
structure Sent (s : UdpClient) (packet : UInt8 × EnetPacketFlag × StdString) (s' : UdpClient) :
    Prop where
  consistent : s'.Consistent
  paced : Paced s s'
  packets : s'.packets = s.packets ∨ s'.packets = s.packets ++ [packet]

/-- A send polls the peer, connects if it has to, and sends its packet to a connected peer. -/
theorem sendImpl_spec {msg : Message} {isReliable : Bool} (hs : s.Consistent)
    (h : s.sendImpl msg isReliable answers = some s') :
    Sent s (packetOf isReliable msg.payload) s' := by
  simp only [sendImpl] at h
  split at h
  · exact Option.some.inj h ▸ ⟨hs, .silent (Quiet.refl s).sameTime, Or.inl rfl⟩
  · have hhost := hs.ensureHost answers.hostCreated
    have hquiet := quiet_ensureHost s answers.hostCreated
    split at h
    · exact Option.some.inj h ▸ ⟨hhost, .silent hquiet.sameTime, Or.inl hquiet.packets⟩
    · obtain ⟨⟨connected, t⟩, hensure, h⟩ := Option.bind_eq_some_iff.1 h
      obtain rfl := Option.some.inj h
      -- polling is quiet, so packets and attempts are those of `ensure_connected` and the send
      have hpolled := (hquiet.trans (quiet_pollLoop _ answers.polled)).trans
        (quiet_hostService _ ⟨none, answers.idle⟩)
      have ht := ensureConnected_spec ((hhost.pollLoop _).hostService _) hensure
      have hpaced := hpolled.sameTime.trans_paced ht.paced
      have hpackets := ht.packets.trans hpolled.packets
      cases connected with
      | false => exact ⟨ht.consistent, hpaced, Or.inl hpackets⟩
      | true =>
        obtain ⟨p, hp, hconnected⟩ := ht.peer rfl
        obtain ⟨hsent, htime, hone⟩ :=
          sendPacket_spec ht.consistent hp hconnected msg.payload isReliable answers
        refine ⟨hsent, hpaced.trans_sameTime htime, ?_⟩
        rw [if_pos rfl, hone, hpackets]
        split
        · exact Or.inr rfl
        · exact Or.inl rfl

/-! ## The invariants of a run -/

/-- The packet that a call of the client may send. -/
def Step.packet? : Step → Option (UInt8 × EnetPacketFlag × StdString)
  | sendReliable msg _ => some (1, .reliable, msg.payload)
  | sendUnreliable msg _ => some (0, .unreliableFragment, msg.payload)
  | flushPendingMessages _ _ => none

/-- Every call of the client keeps its pointer right, keeps its pace, and sends at most its own
packet. -/
theorem step_spec {l : Step} (hs : s.Consistent) (h : step s l = some s') :
    s'.Consistent ∧ Paced s s' ∧
      (s'.packets = s.packets ∨ ∃ packet ∈ l.packet?, s'.packets = s.packets ++ [packet]) := by
  cases l with
  | sendReliable msg answers =>
    have h : s.sendImpl msg true answers = some s' := h
    obtain ⟨hs', hpaced, hpackets⟩ := sendImpl_spec hs h
    exact ⟨hs', hpaced, hpackets.imp_right fun hone => ⟨_, rfl, hone⟩⟩
  | sendUnreliable msg answers =>
    have h : s.sendImpl msg false answers = some s' := h
    obtain ⟨hs', hpaced, hpackets⟩ := sendImpl_spec hs h
    exact ⟨hs', hpaced, hpackets.imp_right fun hone => ⟨_, rfl, hone⟩⟩
  | flushPendingMessages polled idle =>
    obtain rfl := Option.some.inj h
    rw [flushPendingMessages]
    split
    · exact ⟨hs, .silent (Quiet.refl s).sameTime, Or.inl rfl⟩
    · have hquiet : Quiet s ((s.flushServiceEvents polled idle).call .hostFlush) :=
        (quiet_flushLoop 16 s polled idle).trans (.concat rfl rfl ⟨rfl, rfl, rfl⟩)
      exact ⟨(hs.flushLoop 16 polled idle).concat rfl rfl, .silent hquiet.sameTime,
        Or.inl hquiet.packets⟩

theorem Consistent.run {ip : StdString} {port : Int32} {hostCreated : Bool} {ls : List Step}
    (h : machine.run (UdpClient.init ip port hostCreated) ls = some s) : s.Consistent :=
  Machine.run_invariant (M := machine) (I := Consistent)
    (fun _ _ _ hI hstep => (step_spec hI hstep).1) (.init ip port hostCreated) h

/-- The attempts so far are apart, and the client remembers the last of them. -/
structure Spaced (s : UdpClient) : Prop where
  apart : s.attempts.Pairwise fun t t' => t.toNat + 1000 ≤ t'.toNat
  last : ∀ t ∈ s.attempts, t ≤ s.lastConnectAttemptMs
  remembered : s.attempts ≠ [] →
    s.lastConnectAttemptMs ≠ 0 ∧ s.lastConnectAttemptMs ∈ s.readings

/-- A difference that is not too small as a signed number is not too small. -/
private theorem le_toNat_of_toInt64 {x : UInt64} (h : ¬ x.toInt64 < reconnectIntervalMs) :
    1000 ≤ x.toNat := by
  have hinterval : reconnectIntervalMs.toInt = 1000 := by decide
  have hcast : x.toInt64.toInt = if 2 * x.toNat < 2 ^ 64 then (x.toNat : ℤ) else x.toNat - 2 ^ 64 :=
    BitVec.toInt_eq_toNat_cond x.toBitVec
  have hlt := x.toNat_lt
  rw [Int64.lt_iff_toInt_lt, hinterval, hcast] at h
  split at h <;> omega

/-- An attempt that is due comes an interval after the last one. -/
theorem le_of_due {now : UInt64} (hlast : s.lastConnectAttemptMs ≠ 0)
    (hle : s.lastConnectAttemptMs ≤ now) (hdue : s.tooSoon now = false) :
    s.lastConnectAttemptMs.toNat + 1000 ≤ now.toNat := by
  have hdiff : ¬ (now - s.lastConnectAttemptMs).toInt64 < reconnectIntervalMs := by
    simpa [tooSoon, hlast] using hdue
  have hsub := UInt64.toNat_sub_of_le _ _ hle
  have := le_toNat_of_toInt64 hdiff
  omega

/-- Attempts stay apart while the clock does not step backward. -/
theorem Spaced.paced (h : s.Spaced) (hpaced : Paced s s')
    (hsorted : s'.readings.Pairwise (· ≤ ·)) (hpos : ∀ r ∈ s'.readings, 0 < r) : s'.Spaced := by
  cases hpaced with
  | silent hsame =>
    refine ⟨hsame.attempts ▸ h.apart, ?_, ?_⟩
    · rw [hsame.attempts, hsame.lastConnectAttemptMs]
      exact h.last
    · rw [hsame.attempts, hsame.lastConnectAttemptMs, hsame.readings]
      exact h.remembered
  | soon now hr ha hl =>
    refine ⟨ha ▸ h.apart, ?_, ?_⟩
    · rw [ha, hl]
      exact h.last
    · rw [ha, hl, hr]
      exact fun hne => ⟨(h.remembered hne).1, List.mem_append_left _ (h.remembered hne).2⟩
  | attempted now hr ha hl hdue =>
    rw [hr] at hsorted hpos
    have hle : ∀ r ∈ s.readings, r ≤ now := fun r hr' =>
      (List.pairwise_append.1 hsorted).2.2 r hr' now (List.mem_singleton_self _)
    have hnow : 0 < now := hpos now (List.mem_append_right _ (List.mem_singleton_self _))
    -- the attempts before were at most at the remembered time, which is an interval ago
    have hbefore : ∀ t ∈ s.attempts, t.toNat + 1000 ≤ now.toNat := by
      intro t ht
      obtain ⟨hne, hmem⟩ := h.remembered (List.ne_nil_of_mem ht)
      have hlast := UInt64.le_iff_toNat_le.1 (h.last t ht)
      have hgap := le_of_due hne (hle _ hmem) hdue
      omega
    refine ⟨?_, ?_, ?_⟩
    · rw [ha, List.pairwise_append]
      refine ⟨h.apart, List.pairwise_singleton _ _, fun t ht t' ht' => ?_⟩
      obtain rfl := List.mem_singleton.1 ht'
      exact hbefore t ht
    · rw [ha, hl]
      intro t ht
      rcases List.mem_append.1 ht with ht | ht
      · have := hbefore t ht
        rw [UInt64.le_iff_toNat_le]
        omega
      · obtain rfl := List.mem_singleton.1 ht
        exact UInt64.le_refl _
    · rw [hl, hr]
      exact fun _ => ⟨(UInt64.ne_of_lt hnow).symm, List.mem_append_right _ (by simp)⟩

/-- The readings so far are the first readings. -/
theorem Paced.readings_prefix (h : Paced s s') : s.readings <+: s'.readings := by
  cases h with
  | silent hsame => exact hsame.readings ▸ List.prefix_rfl
  | soon now hr => rw [hr]; exact List.prefix_append _ _
  | attempted now hr => rw [hr]; exact List.prefix_append _ _

theorem Spaced.run {ip : StdString} {port : Int32} {hostCreated : Bool} {ls : List Step}
    (h : machine.run (UdpClient.init ip port hostCreated) ls = some s) :
    s.readings.Pairwise (· ≤ ·) → (∀ r ∈ s.readings, 0 < r) → s.Spaced := by
  have hnone : (UdpClient.init ip port hostCreated).attempts = [] := rfl
  refine Machine.run_induction (M := machine)
    (motive := fun _ s => s.readings.Pairwise (· ≤ ·) → (∀ r ∈ s.readings, 0 < r) → s.Spaced)
    (fun _ _ => ⟨by simp [hnone], by simp [hnone], fun hne => absurd hnone hne⟩) ?_ h
  intro ls t l t' ht ih hstep hsorted hpos
  obtain ⟨-, hpaced, -⟩ := step_spec (Consistent.run ht) hstep
  have hreadings := hpaced.readings_prefix
  have hbefore := ih (hsorted.sublist hreadings.sublist) fun r hr => hpos r (hreadings.subset hr)
  exact hbefore.paced hpaced hsorted hpos

end UdpClient

open UdpClient in
/-- The connection of the client. In every state of every run, whatever ENet reports:
`enet_peer_send` was only called with the live peer, while it was connected, and each send hands
over at most its one packet; no call touches a peer that was reset, and the client does not point
to one; a connection is only started when no peer is live; and the attempts to connect start at
least 1000 ms apart, if the clock does not step backward and is not 0. -/
theorem connection_state_machine {ip : StdString} {port : Int32} {hostCreated : Bool}
    {ls : List Step} {s : UdpClient} (h : machine.run (init ip port hostCreated) ls = some s)
    (hsorted : s.readings.Pairwise (· ≤ ·)) (hpos : ∀ r ∈ s.readings, 0 < r) :
    (∀ pre q channel flag payload post,
      s.calls = pre ++ .peerSend q channel flag payload :: post →
      ∃ p given, q = some p ∧
        EnetHost.machine.run EnetHost.new pre = some ⟨given, some (p, .connected)⟩) ∧
    (∀ l s', step s l = some s' → s'.packets = s.packets ∨
      ∃ packet ∈ l.packet?, s'.packets = s.packets ++ [packet]) ∧
    (∀ pre p post, s.calls = pre ++ .peerReset p :: post → s.peer ≠ some p ∧
      ∀ c ∈ post, c.touches p = false) ∧
    (∀ pre address port q post, s.calls = pre ++ .hostConnect address port q :: post →
      ∃ given, EnetHost.machine.run EnetHost.new pre = some ⟨given, none⟩) ∧
    s.attempts.Pairwise fun t t' => t.toNat + 1000 ≤ t'.toNat := by
  -- the calls so far are an allowed use of the host, and end with the peer of the client
  have hs : s.Consistent := Consistent.run h
  have hcalls : EnetHost.machine.run EnetHost.new s.calls =
      some ⟨s.given, s.peer.map fun p => (p, s.peerState)⟩ := hs
  refine ⟨?_, fun l s' hstep => (step_spec hs hstep).2.2, ?_, ?_, (Spaced.run h hsorted hpos).apart⟩
  · intro pre q channel flag payload post heq
    exact EnetHost.live_of_peerSend (heq ▸ hcalls)
  · intro pre p post heq
    rw [heq] at hcalls
    refine ⟨fun hp => ?_, fun c hc => ?_⟩
    · have hdead := EnetHost.not_live_of_reset hcalls
      rw [hp] at hdead
      exact hdead rfl
    · obtain ⟨mid, rest, rfl⟩ := List.append_of_mem hc
      exact EnetHost.not_touches_of_reset hcalls
  · intro pre address port q post heq
    exact EnetHost.live_of_hostConnect (heq ▸ hcalls)

namespace UdpClient

/-- What ENet answers when a connection succeeds at the time `now`. -/
def connects (now : UInt64) : SendAnswers :=
  ⟨true, [], .disconnected, now, true, true, [⟨none, .connecting⟩, ⟨some .connect, .connected⟩],
    true, true⟩

/-- What ENet answers when no connection is needed or tried, while the peer is in a state. -/
def answersIdle (state : EnetPeerState) (now : UInt64) : SendAnswers :=
  ⟨true, [], state, now, true, true, [], true, true⟩

/-- A reliable client of the address 10.0.0.2. -/
def reliableClient : UdpClient := init (.ofString "10.0.0.2") 8800 true

/-- A message that holds one letter. -/
def letter (c : UInt8) : Message := ⟨.self, .self, [c]⟩

/-- The client connects and sends; the connection breaks; a send that comes too soon is dropped;
the client connects again and sends. -/
def reconnecting : List Step :=
  [.sendReliable (letter 97) (connects 1000),
    .sendUnreliable (letter 98) (answersIdle .connected 0),
    .flushPendingMessages [(.disconnect, .disconnected)] .disconnected,
    .sendReliable (letter 99) (answersIdle .disconnected 1500),
    .sendReliable (letter 100) (connects 2500)]

end UdpClient

open UdpClient in
/-- In this run there are two attempts, and the packet that came too soon is not sent. -/
theorem connection_state_machine_reconnecting : ∃ s,
    machine.run reliableClient reconnecting = some s ∧
    s.attempts = [1000, 2500] ∧
    s.packets = [(1, .reliable, [97]), (0, .unreliableFragment, [98]), (1, .reliable, [100])] ∧
    s.attempts.Pairwise fun t t' => t.toNat + 1000 ≤ t'.toNat := by
  have hrun : ∃ s ∈ machine.run reliableClient reconnecting, s.attempts = [1000, 2500] ∧
      s.packets = [(1, .reliable, [97]), (0, .unreliableFragment, [98]), (1, .reliable, [100])] ∧
      s.readings.Pairwise (· ≤ ·) ∧ s.readings.all (0 < ·) = true := by
    decide +kernel
  obtain ⟨s, hs, hattempts, hpackets, hsorted, hpos⟩ := hrun
  have hpos' : ∀ r ∈ s.readings, 0 < r := fun r hr =>
    of_decide_eq_true (List.all_eq_true.1 hpos r hr)
  have hspaced := (connection_state_machine hs hsorted hpos').2.2.2.2
  exact ⟨s, hs, hattempts, hpackets, hspaced⟩

end Keyleport
