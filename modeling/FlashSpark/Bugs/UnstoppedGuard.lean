import FlashSpark.L6Operations.Guard

/-!
# The memory guard can fail and leave the cluster running

`scripts/memory-guard.py:53-56`. The handler saves its record before it stops the cluster,
and that save can raise as any other: on a full disk the sample that could not be appended
ends the monitoring, the record cannot be written either, and nothing is stopped.

Counterexample: one sample on a full disk.

* `guard_stops_iff`: exactly when a guard that fails stops the cluster.
-/
namespace FlashSpark.Bugs.UnstoppedGuard
open L6.Cluster L6.Guard

variable {V : Type} [LinearOrder V] [Zero V]

/-- A guard that raises has called `cluster.stop`; one that returns has called it too, or
found the stop file and published a record that says COMPLETE. -/
def StopsCluster (reserve : V) (env : L6.Guard.Env V) : Prop :=
  match guard reserve env Guarding.init with
  | .error _ s => .stop ∈ s.log
  | .ok _ s => .stop ∈ s.log ∨ .stopFile ∈ s.log ∧ ∃ r, s.record = some r ∧ r.status = .complete

/-- **When the guard stops the cluster.** Exactly when the record of the failure can be
saved whenever the monitoring fails. -/
theorem guard_stops_iff (reserve : V) (env : L6.Guard.Env V) :
    StopsCluster reserve env ↔ (env.Fails reserve → env.failed.Ok) := by
  have hends := @guard_ends V _ _ reserve env Guarding.init rfl
  unfold StopsCluster
  cases hr : guard reserve env Guarding.init with
  | ok a s =>
    rw [hr] at hends
    obtain ⟨hno, hlog, hrecord⟩ := hends
    exact ⟨fun _ hfails => absurd hfails hno, fun _ => Or.inr ⟨by simp [hlog], hrecord⟩⟩
  | error e s =>
    rw [hr] at hends
    obtain ⟨hfails, hstop⟩ := hends
    exact ⟨fun h _ => hstop.mp h, fun h => hstop.mpr (h hfails)⟩

/-! ## A run that goes wrong -/

def diskFull : Exc Nat := .osError 28

def fullDisk : Save Nat := ⟨some diskFull, none⟩

def fourRanks : List (Rank Nat) := [0, 1, 2, 3].map fun r => ⟨r, true, false, 0, 16, 0⟩

/-- The ranks are healthy; nothing can be written. -/
def oneSample : L6.Guard.Env Nat :=
  ⟨[⟨none, true, .ok fourRanks, some diskFull, fullDisk, none⟩], none, fullDisk, fullDisk, none⟩

theorem full_disk_unstopped : ¬StopsCluster 8 oneSample := by
  intro h
  have hstop : L6.Guard.Event.stop ∈ ([] : List L6.Guard.Event) := h
  cases hstop

end FlashSpark.Bugs.UnstoppedGuard
