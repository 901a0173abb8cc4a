import FlashSpark.L2Store.PackEngram
import FlashSpark.L2Store.Refines

/-!
# A range change slides an attached packed shard

`row_store_range` (adapter/row_store.cpp:404-417) refuses to move the range once the
scale shard is pinned, since that shard "is indexed off row_lo". The packed shard is
indexed off `row_lo` as well (`fetch_row`, adapter/row_store.cpp:128), but no guard
mentions `packed_fd`. With `DSV41_RESIDENT_SCALES=0`, which the adapter insists on
(adapter/engram_backend.py:104), nothing is pinned and the call succeeds: every later
miss reads the record `row_lo` has moved to (`readRow_drifted`).

Counterexample: attach the shard of `[0, 2)`, set the range to `[1, 2)`, look up
row 1: row 0 comes back.

The lookups are right in every session in which each lookup finds the shard's
header still at `row_lo` (`aligned_lookups_deliver`).
-/
namespace FlashSpark.Bugs.RangeAfterAttach
open FlashSpark.L2 FlashSpark.L2.RowStore

structure Session where
  store : Store
  cache : Cache

inductive Op where
  | range (lo hi : Nat)
  | attach (shard : Option Bytes)
  | lookup (out : Work)

/-- Calls on one opened store, none of which aborts. A shard offered for
attachment holds the rows its header names. `lookup out`: a lookup of `out.ids`,
with any schedule of its threads, returned with the buffers `out`. -/
def sessions (pool : Bool) : LTS Session Op where
  init σ := σ.cache = Cache.empty ∧
    ∃ oio file rows woff soff budget ram cacheWays,
      rowStoreOpen oio file rows woff soff budget ram cacheWays = .ok (some σ.store)
  step σ op σ' :=
    match op with
    | .range lo hi => ∃ residentScales pio,
        rowStoreRange σ.store lo hi residentScales pio = .ok σ'.store ∧ σ'.cache = σ.cache
    | .attach shard => (∀ sh, shard = some sh → PackedRows σ.store sh (shardLo sh) (shardHi sh)) ∧
        ∃ layerId got fstat r, rowStoreAttachPacked σ.store shard layerId got fstat = .ok r ∧
          σ' = ⟨r.getD σ.store, σ.cache⟩
    | .lookup out => ∃ weights scales ls τ,
        (lookups σ.store pool).Run
          (lookup pool ⟨σ.cache, [], [], none⟩ out.ids weights scales) ls τ ∧
        τ.failed = none ∧ Returned τ 0 ∧ τ.works[0]? = some out ∧ σ' = ⟨σ.store, τ.cache⟩

/-- Every lookup of a current owned id returns that id's row of the table. -/
def LookupsDeliver (M : LTS Session Op) : Prop :=
  ∀ σ, M.Reachable σ → ∀ out σ', M.step σ (.lookup out) σ' → ∀ i, i < out.ids.length →
    Owned σ.store (out.id i).toNat →
    (slice out.weights (i * kWeightBytes) kWeightBytes, slice out.scales (i * kScaleBytes) kScaleBytes) =
      (weightBytes σ.store (out.id i).toNat, scaleBytes σ.store (out.id i).toNat)

/-! ## When the shard still fits the range -/

/-- The attached shard starts at `row_lo`, and ends after `row_hi` or with its
last record (past which a read aborts). -/
def Aligned (s : Store) : Prop :=
  ∀ shard, s.packedFd = some shard → s.rowLo < s.rowHi →
    shardLo shard = s.rowLo ∧ (s.rowHi ≤ shardHi shard ∨
      shard.length = kPackedHeader + (shardHi shard - shardLo shard) * kRowBytes)

/-- The sessions that look up only through an aligned shard. -/
def alignedSessions (pool : Bool) : LTS Session Op where
  init := (sessions pool).init
  step σ op σ' := (sessions pool).step σ op σ' ∧ ∀ out, op = .lookup out → Aligned σ.store

/-- What the load-time calls establish, whatever their order. -/
structure SessionInv (σ : Session) : Prop where
  wf : σ.store.WF
  cache : CacheInv σ.store σ.cache
  shard : ∀ sh, σ.store.packedFd = some sh → PackedRows σ.store sh (shardLo sh) (shardHi sh)

theorem tableRow_congr {s s' : Store} (hfd : s'.fd = s.fd) (hw : s'.weightOffset = s.weightOffset)
    (hs : s'.scaleOffset = s.scaleOffset) : tableRow s' = tableRow s := by
  funext id
  rw [tableRow, tableRow, weightBytes, weightBytes, scaleBytes, scaleBytes, hfd, hw, hs]

/-- Under a shard that may have drifted, a miss on row `id` reads the record
`id - row_lo` of the shard. -/
theorem readRow_drifted {s : Store} {shard : Bytes} (hw : s.WF) (hp : s.packedFd = some shard)
    (hrows : PackedRows s shard (shardLo shard) (shardHi shard)) {id : Nat}
    (hin : shardLo shard + (id - s.rowLo) < shardHi shard) {got : Nat → Nat} {row : Bytes} {n : Nat}
    (h : readRow s id got = some (row, n)) : row = tableRow s (shardLo shard + (id - s.rowLo)) := by
  have hrec := hrows (shardLo shard + (id - s.rowLo)) (Nat.le_add_right _ _) hin
  rw [Nat.add_sub_cancel_left] at hrec
  unfold readRow at h
  rw [hp] at h
  rw [readFrom_spec hw.resident_eq h]
  exact hrec

theorem aligned_serves {s : Store} (hw : s.WF)
    (hshard : ∀ sh, s.packedFd = some sh → PackedRows s sh (shardLo sh) (shardHi sh))
    (ha : Aligned s) : Serves s := by
  cases hp : s.packedFd with
  | none => exact hw.serves hp
  | some shard =>
    intro id ⟨hlo, hhi⟩ got row n h
    obtain ⟨hstart, hstop⟩ := ha shard hp (by omega)
    -- the record read lies before the shard's last one
    have hin : id < shardHi shard := by
      rcases hstop with hstop | hlen
      · omega
      · have hr := h
        unfold readRow at hr
        rw [hp] at hr
        have hfits := readFrom_fits hr (by decide)
        simp only [kPackedHeader, kRowBytes] at *
        omega
    rw [readRow_drifted hw hp (hshard shard hp) (by omega) h, hstart, Nat.add_sub_cancel' hlo]

/-- A returned lookup has kept the lookup invariant. -/
theorem lookup_step {pool : Bool} {σ σ' : Session} {out : Work} (h : SessionInv σ)
    (ha : Aligned σ.store) (hstep : (sessions pool).step σ (.lookup out) σ') :
    SessionInv σ' ∧ ∀ i, i < out.ids.length → ServedAt σ.store out i := by
  obtain ⟨weights, scales, ls, τ, hrun, -, hret, hout, rfl⟩ := hstep
  have hserves := aligned_serves h.wf h.shard ha
  have h₀ : Inv σ.store ⟨σ.cache, [], [], none⟩ :=
    ⟨h.cache, by simp, by simp, by simp, by simp⟩
  have hτ : Inv σ.store τ :=
    hrun.keeps (fun _ _ _ hi hs => inv_step h.wf hserves hi hs)
      (lookup_inv h₀ pool out.ids weights scales rfl)
  exact ⟨⟨h.wf, hτ.cache, h.shard⟩, fun i hi => hτ.returned hout hret hi⟩

theorem range_step {pool : Bool} {σ σ' : Session} {lo hi : Nat} (h : SessionInv σ)
    (hstep : (sessions pool).step σ (.range lo hi) σ') : SessionInv σ' := by
  obtain ⟨residentScales, pio, hrange, hcache⟩ := hstep
  obtain ⟨hwf, -, -, hpk, -, hfd, hw, hs, hsets, hways, -⟩ := rowStoreRange_wf h.wf hrange
  have hrow := tableRow_congr hfd hw hs
  refine ⟨hwf, ?_, fun sh hsh => ?_⟩
  · unfold CacheInv
    rw [hcache, hrow, hsets, hways]
    exact h.cache
  · unfold PackedRows
    rw [hrow]
    exact h.shard sh (hpk ▸ hsh)

theorem attach_step {pool : Bool} {σ σ' : Session} {shard : Option Bytes} (h : SessionInv σ)
    (hstep : (sessions pool).step σ (.attach shard) σ') : SessionInv σ' := by
  obtain ⟨hrows, layerId, got, fstat, r, hattach, rfl⟩ := hstep
  cases r with
  | none => exact h
  | some s' =>
    obtain ⟨sh, hsh, rfl, -⟩ := attach_spec hattach
    refine ⟨h.wf.attach sh, h.cache, fun sh' hsh' => ?_⟩
    obtain rfl := Option.some.inj hsh'
    exact hrows sh hsh

theorem sessionInv_inductive (pool : Bool) : (alignedSessions pool).Inductive SessionInv where
  init σ hσ := by
    obtain ⟨hcache, oio, file, rows, woff, soff, budget, ram, cacheWays, hopen⟩ := hσ
    obtain ⟨hwf, hnone, -⟩ := rowStoreOpen_wf hopen
    exact ⟨hwf, by rw [hcache]; exact cacheInv_empty _, by simp [hnone]⟩
  step σ op σ' h hstep := by
    obtain ⟨hstep, ha⟩ := hstep
    cases op with
    | range lo hi => exact range_step h hstep
    | attach shard => exact attach_step h hstep
    | lookup out => exact (lookup_step h (ha out rfl) hstep).1

/-- **What does hold.** In every session whose lookups all find the shard aligned,
every lookup of an owned id returns that id's row. -/
theorem aligned_lookups_deliver (pool : Bool) : LookupsDeliver (alignedSessions pool) := by
  intro σ hσ out σ' ⟨hstep, ha⟩ i hi hown
  have h := (sessionInv_inductive pool).reachable σ hσ
  have hdel := ((lookup_step h (ha out rfl) hstep).2 i hi).2
  unfold Delivered at hdel
  rw [hdel]
  exact if_pos hown

/-! ## The drift -/

/-- Two rows: ones, and twos. -/
def driftFile : Bytes :=
  List.replicate 256 1 ++ List.replicate 256 2 ++ List.replicate 8 1 ++ List.replicate 8 2

def driftStore : Store :=
  { fd := driftFile, rows := 2, weightOffset := 0, scaleOffset := 512, slots := 0, rowLo := 0,
    rowHi := 2, sets := 0, ways := 4, resident := none, scales := none, scalesSize := 0,
    packedFd := none }

/-- The shard `pack_layer` writes for layer 1, rank 0 of 1. -/
def driftShard : Bytes :=
  match PackEngram.packHeader 1 0 2 2 with
  | .ok header => header ++ PackEngram.records driftFile 0 512 0 2
  | .error _ => []

def driftMoved : Store := { driftStore with rowLo := 1, packedFd := some driftShard }

/-- Row 1 looked up through the moved range. -/
def driftLookup : State :=
  lookup false ⟨Cache.empty, [], [], none⟩ [1] (fun _ => 0) (fun _ => 0)

theorem driftStore_opened :
    rowStoreOpen ⟨true, true, true, true⟩ (some driftFile) 2 0 512 0 false 4 = .ok (some driftStore) := by
  have hlen : driftFile.length = 528 := by simp only [driftFile, List.length_append, List.length_replicate]
  simp [rowStoreOpen, driftStore, hlen, kRowBytes]

theorem driftStore_rank : PackEngram.RankStore driftFile 2 0 512 0 1 driftStore where
  wf := (rowStoreOpen_wf driftStore_opened).1
  fd_eq := rfl
  rows_eq := rfl
  weightOffset_eq := rfl
  scaleOffset_eq := rfl
  rowLo_eq := rfl
  rowHi_eq := rfl

theorem driftShard_shardOf : PackEngram.ShardOf driftFile 2 0 512 1 0 1 driftShard :=
  ⟨_, rfl, rfl⟩

theorem driftMoved_reachable : (sessions false).Reachable ⟨driftMoved, Cache.empty⟩ := by
  have hrows := (driftShard_shardOf.layout driftStore_rank).2
  have hfields := driftShard_shardOf.fields
  have hinit : (sessions false).Reachable ⟨driftStore, Cache.empty⟩ :=
    ⟨_, [], ⟨rfl, _, _, _, _, _, _, _, _, driftStore_opened⟩, .nil _⟩
  have hattach : (sessions false).step ⟨driftStore, Cache.empty⟩ (.attach (some driftShard))
      ⟨{ driftStore with packedFd := some driftShard }, Cache.empty⟩ := by
    refine ⟨fun sh hsh => ?_, 1, 4096, true, _, driftShard_shardOf.accepted driftStore_rank (by decide), rfl⟩
    obtain rfl := Option.some.inj hsh
    rw [hfields.2.2.2.1, hfields.2.2.2.2.1]
    exact hrows
  have hrange : (sessions false).step ⟨{ driftStore with packedFd := some driftShard }, Cache.empty⟩
      (.range 1 2) ⟨driftMoved, Cache.empty⟩ := ⟨false, ⟨true, true, fun _ => 0⟩, rfl, rfl⟩
  exact (hinit.step hattach).step hrange

/-- **Counterexample**: a lookup of row 1 returns row 0. -/
theorem range_after_attach_drifts : ¬ LookupsDeliver (sessions false) := by
  intro hclaim
  obtain ⟨ls, hrun⟩ := soloRun_run driftMoved false driftLookup 4 (by decide +kernel)
  have hfailed : (soloRun driftMoved driftLookup 4).failed = none := by decide +kernel
  have hret : ((soloRun driftMoved driftLookup 4).servers.all fun sv => sv.pos == sv.call.stop) =
      true := by decide +kernel
  have hbytes : ((soloRun driftMoved driftLookup 4).works[0]?.map fun w =>
      (w.ids, slice w.weights 0 kWeightBytes)) = some ([1], List.replicate 256 1) := by decide +kernel
  have hrow : weightBytes driftMoved 1 = List.replicate 256 2 := by decide +kernel
  obtain ⟨out, hout, hpair⟩ := Option.map_eq_some_iff.mp hbytes
  obtain ⟨hids, hweights⟩ := Prod.mk.inj hpair
  have hone : (out.id 0).toNat = 1 := by rw [Work.id, hids]; rfl
  have hstep : (sessions false).step ⟨driftMoved, Cache.empty⟩ (.lookup out)
      ⟨driftMoved, (soloRun driftMoved driftLookup 4).cache⟩ := by
    refine ⟨fun _ => 0, fun _ => 0, ls, _, ?_, hfailed, fun sv hsv _ => ?_, hout, rfl⟩
    · rw [hids]; exact hrun
    · exact beq_iff_eq.mp (List.all_eq_true.mp hret sv hsv)
  have hdel := hclaim _ driftMoved_reachable out _ hstep 0 (by rw [hids]; decide)
    (by rw [hone]; exact ⟨by decide, by decide⟩)
  rw [hone] at hdel
  have hwrong := (Prod.mk.inj hdel).1
  rw [Nat.zero_mul, hweights, hrow] at hwrong
  exact absurd hwrong (by decide)

end FlashSpark.Bugs.RangeAfterAttach
