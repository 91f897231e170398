import Keyleport.Discovery.Gossip
import Keyleport.Lib.Json.RoundTrip
import Mathlib.Data.Fintype.Basic

/-!
# Convergence of discovery

The two properties of gossip by announcements, for the network of discovery services: devices
that run long enough all know each other, and the broadcasts that answer broadcasts end. Both
rest on steady clocks; the first also on a network that loses nothing.

* `discovery_converges`: with nothing in flight, every running device has every other one.
* `no_broadcast_storm`: a device answers at most once for each other device, so the answers of
  an infinite run stop.
-/

namespace Keyleport

namespace Discovery

variable {D : Type} [DecidableEq D] {setup : Setup D} {ls : List (Step D)} {w w' : Discovery D}

/-- No step ever takes back an answer. -/
theorem answers_le_of_step {l : Step D} (h : step setup w l = some w') (d : D) :
    w.answers d ≤ w'.answers d := by
  cases l with
  | start e first second =>
    obtain ⟨-, s, -, rfl⟩ := start_eq_some h
    exact le_rfl
  | deliver e k clock =>
    obtain ⟨src, payload, s, s', -, -, -, rfl⟩ := deliver_eq_some h
    -- only the receiver answers, with what its callback broadcasts
    by_cases hd : d = e
    · subst hd
      simp only [Function.update_self]
      exact Nat.le_add_right _ _
    · simp only [Function.update_of_ne hd]
      exact le_rfl
  | tick e broadcast stale =>
    obtain ⟨s, s', -, -, rfl⟩ := tick_eq_some h
    exact le_rfl
  | leave e now => cases h
  | vanish e => cases h
  | duplicate k =>
    obtain ⟨F, -, rfl⟩ := Option.map_eq_some_iff.1 h
    exact le_rfl
  | lose k =>
    obtain ⟨F, -, rfl⟩ := Option.map_eq_some_iff.1 h
    exact le_rfl

variable [Fintype D]

/-- In a run with steady clocks the network does what gossip does, without loss if nothing is
lost and no device has the loopback address. -/
theorem gossip_of_run (loss : Bool) (hclock : ∀ d, Steady (readings d ls))
    (hloss : loss = false → (∀ k, .lose k ∉ ls) ∧
      ∀ e, setup.ip e ≠ DiscoveryService.selfIpAddress)
    (h : (machine setup).run empty ls = some w) :
    Invariant setup ls w ∧ Gossip.Invariant (toGossip setup w) ∧
      (loss = false → Gossip.Converging (toGossip setup w)) := by
  revert hclock hloss
  refine Machine.run_induction (motive := fun ls w => (∀ d, Steady (readings d ls)) →
    (loss = false → (∀ k, .lose k ∉ ls) ∧ ∀ e, setup.ip e ≠ DiscoveryService.selfIpAddress) →
    Invariant setup ls w ∧ Gossip.Invariant (toGossip setup w) ∧
      (loss = false → Gossip.Converging (toGossip setup w))) ?_ ?_ h
  · -- at the start nobody runs and nothing is in flight
    intro _ _
    have hquiet : (toGossip setup empty).inFlight = ∅ := by
      ext p
      simp [toGossip, flights, empty]
    have hknown (y : D) : (toGossip setup empty).known y = ∅ := by
      ext x
      rw [mem_known]
      simp [not_knows_of_not_running, empty]
    refine ⟨Invariant.empty setup, ⟨?_, ?_, ?_, ?_, ?_⟩, fun _ x hx => ?_⟩
    · simp [hquiet]
    · simp [hquiet]
    · simp [hknown]
    · simp [hknown]
    · intro y
      rw [hknown]
      rfl
    · cases hx
  · -- the conditions on a run hold of its prefixes
    intro ls w l w' _ ih hstep hclock hloss
    have hprefix : ∀ d, Steady (readings d ls) := fun d =>
      (readings_concat d ls l ▸ hclock d).of_append
    obtain ⟨hI, hG, hC⟩ := ih hprefix fun hl =>
      ⟨fun k hk => (hloss hl).1 k (List.mem_append_left _ hk), (hloss hl).2⟩
    have hlast : loss = false → (∀ k, l ≠ .lose k) ∧
        ∀ e, setup.ip e ≠ DiscoveryService.selfIpAddress := fun hl =>
      ⟨fun k hk => (hloss hl).1 k (List.mem_append_right _ (List.mem_singleton.2 hk.symm)),
        (hloss hl).2⟩
    obtain ⟨hI', hsame | hgossip⟩ := simulates hI hclock hlast hstep
    · rw [hsame]
      exact ⟨hI', hG, hC⟩
    · refine ⟨hI', hG.step hgossip, fun hl => ?_⟩
      subst hl
      exact (hC rfl).step hG hgossip

end Discovery

open Discovery in
/-- Mutual discovery converges. Any number of devices with distinct ids and addresses other than
the loopback address start at any time; no datagram is lost, and the clock of each device is
steady. Then in every reachable state with nothing in flight, every running device has every
other running device in its table, under its true address. -/
theorem discovery_converges {D : Type} [DecidableEq D] [Fintype D] {setup : Setup D}
    {ls : List (Step D)} {w : Discovery D}
    (hip : ∀ d, setup.ip d ≠ DiscoveryService.selfIpAddress)
    (h : (machine setup).run empty ls = some w) (hlossless : ∀ k, Step.lose k ∉ ls)
    (hclock : ∀ d, Steady (readings d ls)) (hquiet : w.inFlight = []) :
    ∀ d s, w.service d = some s → ∀ e, e ≠ d → w.service e ≠ none →
      ∃ p ∈ s.discoveredPeers, p.deviceId = setup.deviceId e ∧ p.ipAddress = setup.ip e := by
  intro d s hs e hne he
  obtain ⟨hI, -, hC⟩ := gossip_of_run false hclock (fun _ => ⟨hlossless, hip⟩) h
  have hflights : (toGossip setup w).inFlight = ∅ := by
    ext p
    simp [toGossip, flights, hquiet]
  have hd : d ∈ w.started := (hI.started d).2 (by simp [hs])
  have hknows : Knows setup w d e :=
    mem_known.1 (Gossip.converged (hC rfl) hflights hd ((hI.started e).2 he) hne.symm)
  -- the entry with the id of `e` holds what `e` says of itself
  obtain ⟨table, hrun⟩ := hI.running d s hs
  obtain ⟨entry, hentry, hid⟩ := (hrun.knows_iff hs).1 hknows
  obtain ⟨x, -, hx⟩ := hrun.peer entry hentry
  have hxe : x = e := setup.deviceId_injective (by rw [← hid, hx]; rfl)
  subst hxe
  refine ⟨entry.1, ?_, hid, ?_⟩
  · rw [hrun.represents.1]
    exact List.mem_map_of_mem hentry
  · rw [hx]
    rfl

/-- The two devices of a test. -/
def Discovery.twoDevices : Discovery.Setup Bool where
  lib := JsonText.nlohmann
  lawful := JsonText.lawful
  deviceId d := .ofString (if d then "a" else "b")
  deviceName _ := []
  platform _ := []
  ip d := .ofString (if d then "10.0.0.1" else "10.0.0.2")
  deviceId_injective := by
    have h : ∀ d e : Bool, StdString.ofString (if d then "a" else "b") =
        .ofString (if e then "a" else "b") → d = e := by
      decide
    exact fun d e => h d e

/-- Both devices start, and everything in flight is delivered, oldest first. -/
def Discovery.startAndDeliver : List (Discovery.Step Bool) :=
  [.start true 0 0, .start false 0 0] ++
    [true, true, false, true, false, true, false, true, false, true].map
      fun d => .deliver d 0 ⟨0, 0, 0⟩

/-- Every clock stands still in this run. -/
theorem Discovery.steady_startAndDeliver (d : Bool) : Steady (readings d startAndDeliver) := by
  have hzero : ∀ r ∈ readings d startAndDeliver, r = 0 := by
    have hall : ((readings d startAndDeliver).all fun r => r = 0) = true := by
      revert d
      decide
    simpa using hall
  refine ⟨List.pairwise_of_forall_mem_list fun r hr r' hr' => ?_, fun r hr r' hr' => ?_⟩
  · rw [hzero r hr, hzero r' hr']
    exact UInt64.le_refl 0
  · rw [hzero r hr, hzero r' hr']
    exact Nat.le_add_right _ _

/-- At the end of this run nothing is in flight, and each device has answered once. -/
theorem Discovery.run_startAndDeliver : ∃ w,
    (machine twoDevices).run empty startAndDeliver = some w ∧ w.inFlight = [] ∧
      (∀ d, w.service d ≠ none) ∧ ∀ d, w.answers d = 1 := by
  have hrun : ∃ w ∈ (machine twoDevices).run empty startAndDeliver,
      w.inFlight = [] ∧ (∀ d, w.service d ≠ none) ∧ ∀ d, w.answers d = 1 := by
    decide +kernel
  exact hrun

open Discovery in
/-- After this run the devices know each other. -/
theorem discovery_converges_two : ∃ w,
    (machine twoDevices).run empty startAndDeliver = some w ∧ ∃ s, w.service true = some s ∧
      ∃ p ∈ s.discoveredPeers, p.deviceId = .ofString "b" ∧ p.ipAddress = .ofString "10.0.0.2" := by
  obtain ⟨w, hw, hquiet, hrunning, -⟩ := run_startAndDeliver
  obtain ⟨s, hs⟩ := Option.ne_none_iff_exists'.1 (hrunning true)
  have hip : ∀ d, twoDevices.ip d ≠ DiscoveryService.selfIpAddress := by decide
  have hlossless : ∀ k, Step.lose k ∉ startAndDeliver := by simp [startAndDeliver]
  exact ⟨w, hw, s, hs, discovery_converges hip hw hlossless steady_startAndDeliver hquiet true s hs
    false (by decide) (hrunning false)⟩

open Discovery in
/-- No broadcast storm. With distinct ids and steady clocks, whatever is lost, delayed and
duplicated, each of `n` devices makes at most `n - 1` broadcasts while handling datagrams, hence
all of them at most `n * (n - 1)`; and in an infinite run they come to an end. -/
theorem no_broadcast_storm {D : Type} [DecidableEq D] [Fintype D] (setup : Setup D) :
    (∀ ls w, (machine setup).run empty ls = some w → (∀ d, Steady (readings d ls)) →
      (∀ d, w.answers d ≤ Fintype.card D - 1) ∧
        ∑ d, w.answers d ≤ Fintype.card D * (Fintype.card D - 1)) ∧
    ∀ (w : ℕ → Discovery D) (l : ℕ → Step D), w 0 = empty →
      (∀ n, step setup (w n) (l n) = some (w (n + 1))) →
      (∀ n d, Steady (readings d ((List.range n).map l))) →
      ∃ N, ∀ n, N ≤ n → (w n).answers = (w N).answers := by
  have hbound : ∀ ls w, (machine setup).run empty ls = some w →
      (∀ d, Steady (readings d ls)) → Gossip.Invariant (toGossip setup w) := fun ls w h hclock =>
    (gossip_of_run true hclock nofun h).2.1
  refine ⟨fun ls w h hclock => ?_, fun w l hzero hstep hclock => ?_⟩
  · exact ⟨Gossip.answers_le (hbound ls w h hclock), Gossip.sum_answers_le (hbound ls w h hclock)⟩
  · have hmono : ∀ d, Monotone fun n => (w n).answers d := fun d =>
      monotone_nat_of_le_succ fun n => answers_le_of_step (hstep n) d
    have hsum : ∀ n, ∑ d, (w n).answers d ≤ Fintype.card D * (Fintype.card D - 1) := fun n => by
      have hrun := Machine.run_prefix (M := machine setup) hstep n
      rw [hzero] at hrun
      exact Gossip.sum_answers_le (hbound _ _ hrun (hclock n))
    -- the total is bounded, so it stops, and with it each of the counters it sums
    obtain ⟨N, hN⟩ := eventually_const_of_bounded
      (fun m n hmn => Finset.sum_le_sum fun d _ => hmono d hmn) hsum
    refine ⟨N, fun n hn => funext fun d => ?_⟩
    have heq := (Finset.sum_eq_sum_iff_of_le fun d _ => hmono d hn).1 (hN n hn).symm
    exact (heq d (Finset.mem_univ d)).symm

open Discovery in
/-- In the run above each of the two devices answers the other once, as often as it may. -/
theorem no_broadcast_storm_two : ∃ w,
    (machine twoDevices).run empty startAndDeliver = some w ∧ w.answers true = 1 ∧
      w.answers false = 1 ∧ ∀ d, w.answers d ≤ Fintype.card Bool - 1 := by
  obtain ⟨w, hw, -, -, hanswers⟩ := run_startAndDeliver
  exact ⟨w, hw, hanswers true, hanswers false,
    ((no_broadcast_storm twoDevices).1 startAndDeliver w hw steady_startAndDeliver).1⟩

end Keyleport
