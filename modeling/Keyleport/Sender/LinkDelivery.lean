import Keyleport.Networking.Delivery
import Keyleport.Sender.Link

/-!
# What a link loses

An event that the sender flow sends is lost in one of two ways: the UDP client does not get it to
ENet, as it is not connected and cannot connect at once, or ENet loses it on the way.

* `Link.wayOf_isSome`: when a packet takes a connection.
* `link_lossless_iff`: which runs lose nothing.
-/

namespace Keyleport

namespace UdpClient

variable {s s' : UdpClient} {answers : SendAnswers}

/-- A send that hands over a packet has created it, and leaves the client with a peer. -/
theorem sendImpl_cases {msg : Message} {isReliable : Bool} (hs : s.Consistent)
    (h : s.sendImpl msg isReliable answers = some s') :
    s'.packets = s.packets ∨ answers.packetCreated = true ∧ ∃ p, s'.peer = some p := by
  simp only [sendImpl] at h
  split at h
  · exact Or.inl (Option.some.inj h ▸ rfl)
  · have hhost := hs.ensureHost answers.hostCreated
    have hquiet := quiet_ensureHost s answers.hostCreated
    split at h
    · exact Or.inl (Option.some.inj h ▸ hquiet.packets)
    · obtain ⟨⟨connected, t⟩, hensure, h⟩ := Option.bind_eq_some_iff.1 h
      obtain rfl := Option.some.inj h
      have hpolled := (hquiet.trans (quiet_pollLoop _ answers.polled)).trans
        (quiet_hostService _ ⟨none, answers.idle⟩)
      have ht := ensureConnected_spec ((hhost.pollLoop _).hostService _) hensure
      cases connected with
      | false => exact Or.inl (ht.packets.trans hpolled.packets)
      | true =>
        obtain ⟨p, hp, -⟩ := ht.peer rfl
        rw [if_pos rfl]
        cases hcreated : answers.packetCreated with
        | false =>
          -- without a packet the send ends here
          refine Or.inl ?_
          rw [sendPacket, hcreated]
          exact ht.packets.trans hpolled.packets
        | true =>
          refine Or.inr ⟨rfl, p, ?_⟩
          rw [sendPacket, hcreated]
          cases answers.accepted <;> exact hp

end UdpClient

namespace Link

open UdpClient (Consistent)

variable {setup : Setup} {s s' : Link}

/-- A send gets its packet to ENet: it is deliverable, and ENet creates and accepts the packet. -/
def gets (client : UdpClient) (answers : SendAnswers) : Bool :=
  client.deliverable answers && answers.packetCreated && answers.accepted

/-- A packet takes a connection exactly when the send gets it to ENet. -/
theorem wayOf_isSome {client after : UdpClient} {msg : Message} {isReliable : Bool}
    {answers : SendAnswers} (hclient : client.Consistent) (hpayload : msg.payload ≠ [])
    (h : client.sendImpl msg isReliable answers = some after) :
    (wayOf client after answers).isSome = gets client answers := by
  rw [wayOf, gets]
  cases hcreated : answers.packetCreated with
  | false =>
    rcases UdpClient.sendImpl_cases hclient h with hsame | ⟨htrue, -⟩
    · simp [hsame]
    · rw [hcreated] at htrue
      cases htrue
  | true =>
    have hpackets := UdpClient.sendImpl_packets hclient hpayload hcreated h
    cases hdeliverable : client.deliverable answers with
    | false =>
      rw [hdeliverable, if_neg Bool.false_ne_true] at hpackets
      simp [hpackets]
    | true =>
      rw [hdeliverable, if_pos rfl] at hpackets
      rcases UdpClient.sendImpl_cases hclient h with hsame | ⟨-, p, hp⟩
      · rw [hpackets] at hsame
        simp at hsame
      · cases answers.accepted <;> simp [hpackets, hp]

/-- A step loses nothing: what it sends can be delivered, and it is no loss. -/
def Keeps (s : Link) : Step → Prop
  | .flow l answers => ∀ flow, SenderFlow.step s.flow l = some flow →
      flow.sent ≠ s.flow.sent → gets s.client answers = true
  | .loseReliable _ | .loseUnreliable _ => False
  | .flush _ _ | .arriveReliable _ | .arriveUnreliable _ | .session _ => True

/-- What was lost or given up. -/
def missing (s : Link) : ℕ :=
  s.reliable.lost.length + s.reliable.discarded.length +
    (s.unreliable.lost.length + s.unreliable.discarded.length)

/-- A text is not empty. -/
theorem text_ne_nil {lib : Nlohmann} (hlib : lib.Lawful) (hempty : lib.parse [] = none)
    (ev : InputEvent) : text lib ev ≠ [] := by
  intro hnil
  obtain ⟨-, package, hpackage, his, -⟩ := encodeEvent_eq hlib ev
  have hdefault : TypedPackage.decode lib [] = .ok default := by
    rw [TypedPackage.decode, Nlohmann.parseObject, hempty]
    rfl
  rw [hnil, hdefault] at hpackage
  obtain rfl := Except.ok.inj hpackage
  exact absurd his (by decide)

/-- A send loses its event exactly if it does not get the packet to ENet. -/
theorem missing_send (hlib : setup.lib.Lawful) (hempty : setup.lib.parse [] = none)
    (hclient : s.client.Consistent) {answers : SendAnswers} {e : SentEvent}
    (h : send setup answers s e = some s') : s'.client.Consistent ∧
      s'.missing = s.missing + if gets s.client answers then 0 else 1 := by
  rw [send, (encodeEvent_eq hlib e.event).1] at h
  obtain ⟨client, hsend, h⟩ := Option.bind_eq_some_iff.1 (show (s.client.sendImpl
    ⟨.self, setup.receiver, text setup.lib e.event⟩ e.reliable answers >>= _) = some s' from h)
  obtain rfl := Option.some.inj h
  have hafter := (UdpClient.sendImpl_spec hclient hsend).consistent
  have hway := wayOf_isSome hclient (text_ne_nil hlib hempty e.event) hsend
  have hlength : ∀ t : Transit ℕ StdString,
      (t.accept (wayOf s.client client answers) (text setup.lib e.event)).discarded.length =
        t.discarded.length + if gets s.client answers then 0 else 1 := by
    intro t
    rw [Transit.discarded_accept, List.length_append, ← hway]
    cases wayOf s.client client answers <;> rfl
  cases e.reliable with
  | true =>
    refine ⟨hafter, ?_⟩
    rw [if_pos rfl, missing, hlength, missing]
    simp only [Transit.accept]
    omega
  | false =>
    refine ⟨hafter, ?_⟩
    rw [if_neg Bool.false_ne_true, missing, hlength, missing]
    simp only [Transit.accept]
    omega

/-- A step that keeps everything leaves what is missing alone, another one adds to it. -/
theorem missing_step (hlib : setup.lib.Lawful) (hempty : setup.lib.parse [] = none)
    (hflow : SenderFlow.Invariant s.flow) (hclient : s.client.Consistent) {l : Step}
    (h : step setup s l = some s') :
    s'.client.Consistent ∧ s.missing ≤ s'.missing ∧ (s'.missing = s.missing ↔ s.Keeps l) := by
  cases l with
  | flow l answers =>
    obtain ⟨flow, hstep, h⟩ := Option.bind_eq_some_iff.1 h
    rcases RemoteInput.sent_concat hflow hstep with hsent | ⟨e, hsent⟩
    · -- nothing is sent
      rw [hsent, List.drop_length] at h
      obtain rfl := Option.some.inj h
      refine ⟨hclient, le_refl _, iff_of_true rfl ?_⟩
      intro flow' hstep' hne
      obtain rfl := Option.some.inj (hstep.symm.trans hstep')
      exact absurd hsent hne
    · rw [hsent, List.drop_left] at h
      obtain ⟨s'', hsend, h⟩ := Option.bind_eq_some_iff.1 h
      obtain rfl := Option.some.inj h
      obtain ⟨hafter, hmissing⟩ := missing_send hlib hempty (s := { s with flow := flow })
        hclient hsend
      have hmissing : s''.missing = s.missing + if gets s.client answers then 0 else 1 := hmissing
      have hkeeps : s.Keeps (.flow l answers) ↔ gets s.client answers = true := by
        constructor
        · exact fun hkeeps => hkeeps flow hstep (by simp [hsent])
        · exact fun hgets _ _ _ => hgets
      rw [hkeeps]
      refine ⟨hafter, by omega, ?_⟩
      cases hgets : gets s.client answers <;> simp [hgets, hmissing]
  | flush polled idle =>
    obtain rfl := Option.some.inj h
    have hafter := (UdpClient.step_spec (l := .flushPendingMessages polled idle) hclient rfl).1
    exact ⟨hafter, le_refl _, iff_of_true rfl trivial⟩
  | arriveReliable connection =>
    obtain ⟨⟨payload, reliable⟩, harrive, h⟩ := Option.bind_eq_some_iff.1 h
    obtain ⟨session, -, h⟩ := Option.bind_eq_some_iff.1 h
    obtain rfl := Option.some.inj h
    obtain ⟨c, before, after, -, -, -, rfl⟩ := Transit.arrive_cases harrive
    exact ⟨hclient, le_refl _, iff_of_true rfl trivial⟩
  | arriveUnreliable p =>
    obtain ⟨⟨payload, unreliable⟩, harrive, h⟩ := Option.bind_eq_some_iff.1 h
    obtain ⟨session, -, h⟩ := Option.bind_eq_some_iff.1 h
    obtain rfl := Option.some.inj h
    obtain ⟨c, before, after, -, -, -, rfl⟩ := Transit.arrive_cases harrive
    exact ⟨hclient, le_refl _, iff_of_true rfl trivial⟩
  | loseReliable p =>
    obtain ⟨reliable, hlose, h⟩ := Option.bind_eq_some_iff.1 h
    obtain rfl := Option.some.inj h
    obtain ⟨hlost, hdiscarded⟩ := Transit.length_lost_of_lose hlose
    have hmore : missing { s with reliable := reliable } = s.missing + 1 := by
      simp only [missing, hlost, hdiscarded]
      omega
    exact ⟨hclient, hmore ▸ Nat.le_succ _, iff_of_false (hmore ▸ Nat.succ_ne_self _) id⟩
  | loseUnreliable p =>
    obtain ⟨unreliable, hlose, h⟩ := Option.bind_eq_some_iff.1 h
    obtain rfl := Option.some.inj h
    obtain ⟨hlost, hdiscarded⟩ := Transit.length_lost_of_lose hlose
    have hmore : missing { s with unreliable := unreliable } = s.missing + 1 := by
      simp only [missing, hlost, hdiscarded]
      omega
    exact ⟨hclient, hmore ▸ Nat.le_succ _, iff_of_false (hmore ▸ Nat.succ_ne_self _) id⟩
  | session l =>
    obtain ⟨-, h⟩ := Option.ite_none_left_eq_some.1 h
    obtain ⟨session, -, h⟩ := Option.bind_eq_some_iff.1 h
    obtain rfl := Option.some.inj h
    exact ⟨hclient, le_refl _, iff_of_true rfl trivial⟩

end Link

open Link in
/-- When a link loses nothing. In every run from a new client, nothing was lost on a channel or
given up, if and only if no step of the run is a loss of ENet and every send of the flow was made
when it could be delivered: the client was connected and not reported disconnected, or a new
connection was due and succeeded at once, and ENet created and accepted the packet. -/
theorem link_lossless_iff {setup : Setup} (hlib : setup.lib.Lawful)
    (hempty : setup.lib.parse [] = none) {session : Session}
    (hsession : Receiving setup.sender session) {ip : StdString} {port : Int32}
    {hostCreated : Bool} {ls : List Link.Step} {s : Link}
    (h : (machine setup).run (start (.init ip port hostCreated) session) ls = some s) :
    (s.reliable.lost = [] ∧ s.reliable.discarded = [] ∧ s.unreliable.lost = [] ∧
      s.unreliable.discarded = []) ↔
    ∀ ls' l t, ls' ++ [l] <+: ls →
      (machine setup).run (start (.init ip port hostCreated) session) ls' = some t →
      t.Keeps l := by
  have hmissing : (s.reliable.lost = [] ∧ s.reliable.discarded = [] ∧ s.unreliable.lost = [] ∧
      s.unreliable.discarded = []) ↔ s.missing = 0 := by
    simp only [missing, Nat.add_eq_zero_iff, List.length_eq_zero_iff, and_assoc]
  rw [hmissing]
  refine (Machine.run_induction (M := machine setup) (motive := fun ls s =>
    s.client.Consistent ∧ (s.missing = 0 ↔ ∀ ls' l t, ls' ++ [l] <+: ls →
      (machine setup).run (start (.init ip port hostCreated) session) ls' = some t →
      t.Keeps l)) ?_ ?_ h).2
  · refine ⟨UdpClient.Consistent.init ip port hostCreated, iff_of_true rfl ?_⟩
    intro ls' l t hpre
    simp at hpre
  · intro ls s l s' hs hI hstep
    obtain ⟨hclient, hiff⟩ := hI
    obtain ⟨ls', t, ht, hst⟩ := Refines.run hlib hsession hs
    obtain ⟨ls'', hls''⟩ := (RemoteInput.Invariant.run ht).flow
    have hflow : SenderFlow.Invariant s.flow := hst.flow ▸ SenderFlow.Invariant.run hls''
    obtain ⟨hafter, hle, hkeeps⟩ := missing_step hlib hempty hflow hclient hstep
    refine ⟨hafter, ?_⟩
    rw [Machine.forall_steps_concat (P := fun t l => t.Keeps l) hs, ← hiff, ← hkeeps]
    omega

open Link in
/-- The run with a key and a move loses nothing. -/
theorem link_lossless_iff_pressAndMove : ∃ s,
    (machine exampleSetup).run (start exampleClient exampleSession) pressAndMove = some s ∧
    ∀ ls' l t, ls' ++ [l] <+: pressAndMove →
      (machine exampleSetup).run (start exampleClient exampleSession) ls' = some t →
      t.Keeps l := by
  have hrun : ∃ s ∈ (machine exampleSetup).run (start exampleClient exampleSession) pressAndMove,
      s.reliable.lost = [] ∧ s.reliable.discarded = [] ∧ s.unreliable.lost = [] ∧
        s.unreliable.discarded = [] := by
    decide +kernel
  obtain ⟨s, hs, hnone⟩ := hrun
  have hempty : exampleSetup.lib.parse [] = none := by decide +kernel
  exact ⟨s, hs, (link_lossless_iff JsonText.lawful hempty receiving_exampleSession hs).1 hnone⟩

end Keyleport
