import Keyleport.Discovery.Table

/-!
# The sweep of stale peers

`remove_stale_peers` moves two iterators through its two vectors and erases at both. In the service
the vectors are the columns of one table; here they may have any lengths, as nothing in the loop
relies on the table.

* `DiscoveryService.isStale_iff`: what is stale, by the age of a peer as an integer.
* `stale_sweep`: the sweep keeps the fresh pairs, and what is longer.
-/

namespace Keyleport

namespace DiscoveryService

/-- The age of a peer that was last seen at `t`, as `now - t` computes it. -/
def age (now t : UInt64) : ℤ := (now.toNat - t.toNat) % 2 ^ 64

/-- A peer is stale when its age exceeds the timeout. -/
theorem isStale_iff {now t : UInt64} : isStale now t = true ↔ 15000 < age now t := by
  have hsub : ((now - t).toNat : ℤ) = age now t := by
    have ht := t.toNat_lt
    have hnow := now.toNat_lt
    rw [UInt64.toNat_sub, age]
    omega
  rw [isStale, decide_eq_true_iff, gt_iff_lt, UInt64.lt_iff_toNat_lt, ← hsub]
  exact Int.ofNat_lt.symm

end DiscoveryService

open DiscoveryService in
/-- The lockstep sweep is a filter. Over vectors of any lengths, the loop of `remove_stale_peers`
with its two iterators ends, and the sweep leaves, in their order and still paired, the pairs at
the indices below the smaller length whose age is at most 15000, and behind them what the longer
vector has from that length on. -/
theorem stale_sweep (s : DiscoveryService) (now : UInt64) :
    let n := min s.discoveredPeers.length s.peerLastSeenTimestamps.length
    let fresh := ((s.discoveredPeers.take n).zip (s.peerLastSeenTimestamps.take n)).filter
      fun e => age now e.2 ≤ 15000
    Lockstep.erase (isStale now) s.discoveredPeers s.peerLastSeenTimestamps =
        (fresh.map Prod.fst ++ s.discoveredPeers.drop n,
          fresh.map Prod.snd ++ s.peerLastSeenTimestamps.drop n) ∧
      s.removeStalePeers now = { s with
        discoveredPeers := fresh.map Prod.fst ++ s.discoveredPeers.drop n
        peerLastSeenTimestamps := fresh.map Prod.snd ++ s.peerLastSeenTimestamps.drop n } := by
  intro n fresh
  have hfresh : Lockstep.kept (isStale now) s.discoveredPeers s.peerLastSeenTimestamps = fresh := by
    rw [Lockstep.kept, List.zip_eq_zip_take_min]
    apply List.filter_congr
    intro e _
    rw [Bool.eq_iff_iff, Bool.not_eq_true', ← Bool.not_eq_true, isStale_iff, not_lt,
      decide_eq_true_iff]
  have hsweep : Lockstep.erase (isStale now) s.discoveredPeers s.peerLastSeenTimestamps = _ :=
    Lockstep.erase_eq _ _
  rw [hfresh] at hsweep
  refine ⟨hsweep, ?_⟩
  rw [removeStalePeers, removeStaleLoop_eq_erase, hsweep]

end Keyleport
