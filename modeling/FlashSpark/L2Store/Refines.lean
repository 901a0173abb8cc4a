import FlashSpark.L2Store.Lookup

/-!
# Lookups on a loaded store refine the plain table

A store is `Loaded` by `row_store_open`, one `row_store_range` and possibly one
`row_store_attach_packed` of a shard that holds the owned rows: the four ways
the adapter is run (`adapter/engram_backend.py:99-142`).

* `Loaded.serves`: a loaded store serves its range.
* `serveStep_todo`: every step of a thread brings the lookups nearer their end.
* `lookup_refines_table`: the refinement, in every reachable state.
-/
namespace FlashSpark.L2.RowStore

/-- The table of `rows` rows at `woff`, `soff` of `file`, loaded with the
ownership range `[lo, hi)`. -/
inductive Loaded (file : Bytes) (rows woff soff lo hi : Nat) : Store → Prop where
  | plain {oio : OpenIo} {budget cacheWays : Nat} {ram residentScales : Bool} {pio : PinIo}
      {s₀ s : Store}
      (opened : rowStoreOpen oio (some file) rows woff soff budget ram cacheWays = .ok (some s₀))
      (ranged : rowStoreRange s₀ lo hi residentScales pio = .ok s) :
      Loaded file rows woff soff lo hi s
  | packed {oio : OpenIo} {budget cacheWays : Nat} {ram residentScales fstat : Bool} {pio : PinIo}
      {s₀ s₁ s : Store} {shard : Bytes} {layerId got : Nat}
      (opened : rowStoreOpen oio (some file) rows woff soff budget ram cacheWays = .ok (some s₀))
      (ranged : rowStoreRange s₀ lo hi residentScales pio = .ok s₁)
      (attached : rowStoreAttachPacked s₁ (some shard) layerId got fstat = .ok (some s))
      (records : PackedRows s₁ shard lo hi) :
      Loaded file rows woff soff lo hi s

/-- The fields a lookup reads, whichever way the store was loaded. -/
structure LoadedSpec (file : Bytes) (rows woff soff lo hi : Nat) (s : Store) : Prop where
  wf : s.WF
  serves : Serves s
  fits : ∀ shard, s.packedFd = some shard →
    kPackedHeader + (s.rowHi - s.rowLo) * kRowBytes ≤ shard.length
  fd : s.fd = file
  rows : s.rows = rows
  weightOffset : s.weightOffset = woff
  scaleOffset : s.scaleOffset = soff
  rowLo : s.rowLo = lo
  rowHi : s.rowHi = hi

theorem Loaded.serves {file : Bytes} {rows woff soff lo hi : Nat} {s : Store}
    (h : Loaded file rows woff soff lo hi s) : LoadedSpec file rows woff soff lo hi s := by
  have ranged : ∀ {oio : OpenIo} {budget cacheWays : Nat} {ram residentScales : Bool} {pio : PinIo}
      {s₀ s₁ : Store},
      rowStoreOpen oio (some file) rows woff soff budget ram cacheWays = .ok (some s₀) →
      rowStoreRange s₀ lo hi residentScales pio = .ok s₁ →
      s₁.WF ∧ s₁.packedFd = none ∧ s₁.fd = file ∧ s₁.rows = rows ∧ s₁.weightOffset = woff ∧
        s₁.scaleOffset = soff ∧ s₁.rowLo = lo ∧ s₁.rowHi = hi := by
    intro oio budget cacheWays ram residentScales pio s₀ s₁ hopen hrange
    obtain ⟨hwf, hnone, -, hrows, hfile, hwoff, hsoff⟩ := rowStoreOpen_wf hopen
    obtain ⟨hwf', hlo, hhi, hpk, hrows', hfd, hw, hsc, -⟩ := rowStoreRange_wf hwf hrange
    exact ⟨hwf', hpk.trans hnone, hfd.trans (Option.some.inj hfile).symm, hrows'.trans hrows,
      hw.trans hwoff, hsc.trans hsoff, hlo, hhi⟩
  cases h with
  | plain opened hrange =>
    obtain ⟨hwf, hnone, hfd, hrows, hw, hsc, hlo, hhi⟩ := ranged opened hrange
    exact ⟨hwf, hwf.serves hnone, by rw [hnone]; simp, hfd, hrows, hw, hsc, hlo, hhi⟩
  | @packed _ _ _ _ _ _ _ _ s₁ _ shard _ _ opened hrange attached records =>
    obtain ⟨hwf, -, hfd, hrows, hw, hsc, hlo, hhi⟩ := ranged opened hrange
    obtain ⟨shard', hshard, rfl, -, -, hlen⟩ := attach_spec attached
    obtain rfl := Option.some.inj hshard
    have hwf' := hwf.attach shard
    refine ⟨hwf', serves_of_packed hwf' rfl ?_, fun sh hsh => ?_, hfd, hrows, hw, hsc, hlo, hhi⟩
    · intro id h₁ h₂
      dsimp only at h₁ h₂ ⊢
      rw [hlo] at h₁ ⊢
      rw [hhi] at h₂
      exact records id h₁ h₂
    · obtain rfl := Option.some.inj hsh
      exact hlen

/-! ## Every thread step is progress -/

/-- Steps thread `sv` has taken at its current index. -/
def Pc.ahead : Pc → Nat
  | .next => 0
  | .missed => 1
  | .filled _ => 2
  | .copy _ => 3

def Server.todo (sv : Server) : Nat := 4 * (sv.call.stop - sv.pos) - sv.pc.ahead

def State.todo (σ : State) : Nat := (σ.servers.map Server.todo).sum

theorem serveStep_todo {s : Store} {σ : State} {j : Nat} {sv : Server} {w : Work}
    {got : Nat → Nat} (hj : σ.servers[j]? = some sv) (hpos : sv.pos < sv.call.stop)
    (hf : (serveStep s σ j sv w got).failed = none) :
    (serveStep s σ j sv w got).todo < σ.todo := by
  obtain ⟨rest, hrest, hset⟩ := sum_map_set Server.todo hj
  have goto : ∀ pc, sv.pc.ahead < pc.ahead → pc.ahead ≤ 3 →
      ((σ.servers.set j { sv with pc := pc }).map Server.todo).sum < σ.todo := fun pc hlt hle => by
    rw [hset, State.todo, hrest]
    simp only [Server.todo]; omega
  have advance : ((σ.servers.set j { sv with pos := sv.pos + 1, pc := .next }).map Server.todo).sum <
      σ.todo := by
    rw [hset, State.todo, hrest]
    have : sv.pc.ahead ≤ 3 := by cases sv.pc <;> simp [Pc.ahead]
    simp only [Server.todo, show Pc.next.ahead = 0 from rfl]; omega
  revert hf
  unfold serveStep
  dsimp only
  split
  · rename_i hpc
    rw [hpc] at goto
    split
    · intro hf; cases hf
    split
    · exact fun _ => advance
    split
    · exact fun _ => goto _ (by simp [Pc.ahead]) (by simp [Pc.ahead])
    · exact fun _ => goto .missed (by simp [Pc.ahead]) (by simp [Pc.ahead])
  · rename_i hpc
    rw [hpc] at goto
    split
    · intro hf; cases hf
    · exact fun _ => goto _ (by simp [Pc.ahead]) (by simp [Pc.ahead])
  · rename_i hpc
    rw [hpc] at goto
    exact fun _ => goto _ (by simp [Pc.ahead]) (by simp [Pc.ahead])
  · exact fun _ => advance

/-! ## Reading the invariant -/

theorem Inv.returned {s : Store} {σ : State} (h : Inv s σ) {k : Nat} {w : Work}
    (hw : σ.works[k]? = some w) (hret : Returned σ k) {i : Nat} (hi : i < w.ids.length) :
    ServedAt s w i := by
  obtain ⟨c, hc, hk, hstart, hstop⟩ := h.cover k w hw i hi
  obtain ⟨sv, hsv, rfl⟩ := List.mem_map.mp hc
  obtain ⟨w', hw', hok⟩ := h.servers sv hsv
  rw [hk, hw] at hw'
  obtain rfl := Option.some.inj hw'
  exact hok.done i hstart (by rw [hret sv hsv hk]; exact hstop)

/-- A thread at a bad id can only abort, before it writes. -/
theorem Inv.bad_aborts {s : Store} {σ : State} (h : Inv s σ) {j : Nat} {sv : Server} {w : Work}
    (hj : σ.servers[j]? = some sv) (hw : σ.works[sv.call.work]? = some w)
    (hbad : BadId s.rows (w.id sv.pos)) (got : Nat → Nat) :
    (serveStep s σ j sv w got).failed = some "row ID out of bounds" ∧
      (serveStep s σ j sv w got).works = σ.works := by
  obtain ⟨w', hw', hok⟩ := h.servers sv (List.mem_of_getElem? hj)
  obtain rfl : w = w' := Option.some.inj (hw.symm.trans hw')
  have hpc : sv.pc = .next := by
    have hholds := hok.holds
    cases hcase : sv.pc with
    | next => rfl
    | missed => rw [hcase] at hholds; exact absurd hbad hholds.1
    | filled row => rw [hcase] at hholds; exact absurd hbad hholds.1
    | copy row => rw [hcase] at hholds; exact absurd hbad hholds.1
  unfold serveStep
  unfold BadId at hbad
  rw [hpc]
  dsimp only
  rw [if_pos hbad]
  exact ⟨rfl, rfl⟩

/-- Where the files deliver what they hold, a thread at a good id does not fail. -/
theorem Inv.good_steps {s : Store} (hwf : s.WF)
    (hfit : ∀ shard, s.packedFd = some shard →
      kPackedHeader + (s.rowHi - s.rowLo) * kRowBytes ≤ shard.length)
    {σ : State} (h : Inv s σ) (hf : σ.failed = none) {j : Nat} {sv : Server} {w : Work}
    (hj : σ.servers[j]? = some sv) (hw : σ.works[sv.call.work]? = some w)
    (hgood : ¬ BadId s.rows (w.id sv.pos)) {got : Nat → Nat} (hgot : ∀ i, 8192 ≤ got i) :
    (serveStep s σ j sv w got).failed = none := by
  obtain ⟨w', hw', hok⟩ := h.servers sv (List.mem_of_getElem? hj)
  obtain rfl : w = w' := Option.some.inj (hw.symm.trans hw')
  have hholds := hok.holds
  unfold serveStep
  unfold BadId at hgood
  dsimp only
  split
  · rw [if_neg hgood]
    split
    · exact hf
    · split <;> exact hf
  · rename_i hpc
    rw [hpc] at hholds
    obtain ⟨⟨row, n⟩, hrow⟩ := readRow_complete hwf hholds.2 hfit hgot
    rw [hrow]
    exact hf
  · exact hf
  · exact hf

/-- **Row-store lookup refines the plain table.** Whatever the backing mode, the
cache and the order in which the threads of any number of lookups probe, read
and insert: the cache holds only rows of the table in their own sets; outputs
already passed, and all outputs of a lookup that returned, are the table's (zeros
outside `[lo, hi)`); a bad id's output is never written, its thread aborts; the
process aborts for nothing but a bad id or a short read; and as long as the files
deliver, every unfinished thread at a good id can move, nearer the end. -/
theorem lookup_refines_table {file : Bytes} {rows woff soff lo hi : Nat} {s : Store}
    (hs : Loaded file rows woff soff lo hi s) {pool : Bool} {σ : State}
    (hσ : (lookups s pool).Reachable σ) :
    CacheInv s σ.cache ∧
    (∀ sv ∈ σ.servers, ∃ w, σ.works[sv.call.work]? = some w ∧
      ∀ i, sv.call.start ≤ i → i < sv.pos →
        ¬ BadId rows (w.id i) ∧ Delivered file woff soff lo hi w i) ∧
    (∀ (k : Nat) (w : Work), σ.works[k]? = some w → Returned σ k → ∀ i, i < w.ids.length →
      ¬ BadId rows (w.id i) ∧ Delivered file woff soff lo hi w i) ∧
    (∀ w ∈ σ.works, ∀ i, BadId rows (w.id i) → Untouched w i) ∧
    (∀ (j : Nat) (sv : Server) (w : Work), σ.servers[j]? = some sv →
      σ.works[sv.call.work]? = some w → BadId rows (w.id sv.pos) → ∀ got σ',
      (lookups s pool).step σ (.serve j got) σ' →
        σ'.failed = some "row ID out of bounds" ∧ σ'.works = σ.works) ∧
    (∀ reason, σ.failed = some reason → Blame s σ reason) ∧
    (σ.failed = none → ∀ (j : Nat) (sv : Server) (w : Work), σ.servers[j]? = some sv →
      σ.works[sv.call.work]? = some w → sv.pos < sv.call.stop → ¬ BadId rows (w.id sv.pos) →
      ∀ got : Nat → Nat, (∀ i, 8192 ≤ got i) → ∃ σ', (lookups s pool).step σ (.serve j got) σ' ∧
        σ'.failed = none ∧ σ'.todo < σ.todo) := by
  have hl := hs.serves
  have h := (inv_inductive hl.wf hl.serves pool).reachable σ hσ
  have served : ∀ {w i}, ServedAt s w i → ¬ BadId rows (w.id i) ∧ Delivered file woff soff lo hi w i := by
    intro w i hi
    obtain ⟨hgood, hdel⟩ := hi
    rw [hl.rows] at hgood
    rw [hl.fd, hl.weightOffset, hl.scaleOffset, hl.rowLo, hl.rowHi] at hdel
    exact ⟨hgood, hdel⟩
  refine ⟨h.cache, fun sv hsv => ?_, fun k w hk hret i hi => served (h.returned hk hret hi),
    fun w hw i hbad => h.works w hw i (by rw [hl.rows]; exact hbad), ?_, h.blame, ?_⟩
  · obtain ⟨w, hw, hok⟩ := h.servers sv hsv
    exact ⟨w, hw, fun i hi hlt => served (hok.done i hi hlt)⟩
  · intro j sv w hj hw hbad got σ' ⟨_, sv', w', hj', hw', _, heq⟩
    obtain rfl : sv = sv' := Option.some.inj (hj.symm.trans hj')
    obtain rfl : w = w' := Option.some.inj (hw.symm.trans hw')
    rw [heq]
    exact h.bad_aborts hj hw (by rw [hl.rows]; exact hbad) got
  · intro hf j sv w hj hw hpos hgood got hgot
    have hok := h.good_steps hl.wf hl.fits hf hj hw (by rw [hl.rows]; exact hgood) hgot
    exact ⟨_, ⟨hf, sv, w, hj, hw, hpos, rfl⟩, hok, serveStep_todo hj hpos hok⟩

/-! ## One thread on its own -/

/-- `σ` after `n` steps of thread 0, every read complete. -/
def soloRun (s : Store) (σ : State) : Nat → State
  | 0 => σ
  | n + 1 =>
    match (soloRun s σ n).servers[0]?, (soloRun s σ n).works[0]? with
    | some sv, some w => serveStep s (soloRun s σ n) 0 sv w fun _ => 8192
    | _, _ => soloRun s σ n

/-- Thread 0 of `σ` can move, on work 0. -/
def soloMoves (σ : State) : Bool :=
  σ.failed.isNone && σ.works[0]?.isSome &&
    σ.servers[0]?.any fun sv => sv.call.work == 0 && sv.pos < sv.call.stop

theorem soloRun_run (s : Store) (pool : Bool) (σ : State) (n : Nat)
    (h : ∀ m, m < n → soloMoves (soloRun s σ m) = true) :
    ∃ ls, (lookups s pool).Run σ ls (soloRun s σ n) := by
  induction n with
  | zero => exact ⟨[], .nil _⟩
  | succ n ih =>
    have hm := h n (Nat.lt_succ_self n)
    simp only [soloMoves, Bool.and_eq_true, Option.isNone_iff_eq_none, Option.isSome_iff_exists,
      Option.any_eq_true, beq_iff_eq, decide_eq_true_eq] at hm
    obtain ⟨⟨hf, w, hw⟩, sv, hsv, hwork, hpos⟩ := hm
    obtain ⟨ls, hrun⟩ := ih fun m hm => h m (by omega)
    have hstep : (lookups s pool).step (soloRun s σ n) (.serve 0 fun _ => 8192)
        (soloRun s σ (n + 1)) := by
      refine ⟨hf, sv, w, hsv, by rw [hwork]; exact hw, hpos, ?_⟩
      rw [soloRun, hsv, hw]
    exact ⟨_, hrun.snoc hstep⟩

/-- A two-row table of which row 0 is owned. -/
def demoFile : Bytes := List.replicate 528 7

def demoStore : Store :=
  { fd := demoFile, rows := 2, weightOffset := 0, scaleOffset := 512, slots := 4, rowLo := 0,
    rowHi := 1, sets := 1, ways := 4, resident := none, scales := none, scalesSize := 0,
    packedFd := none }

theorem demoStore_loaded : Loaded demoFile 2 0 512 0 1 demoStore := by
  have hopen : rowStoreOpen ⟨true, true, true, true⟩ (some demoFile) 2 0 512 1500 false 4 =
      .ok (some { demoStore with rowHi := 2 }) := by
    have hlen : demoFile.length = 528 := List.length_replicate
    simp [rowStoreOpen, demoStore, hlen, kRowBytes]
  have hrange : rowStoreRange { demoStore with rowHi := 2 } 0 1 false ⟨true, true, fun _ => 0⟩ =
      .ok demoStore := rfl
  exact .plain hopen hrange

/-- Ids 0 and 1 looked up serially into buffers of nines. -/
def demoLookup : State :=
  lookup false ⟨Cache.empty, [], [], none⟩ [0, 1] (fun _ => 9) (fun _ => 9)

theorem demo_lookup_delivered : ∃ σ w, (lookups demoStore false).Reachable σ ∧
    σ.works[0]? = some w ∧ w.ids = [0, 1] ∧ ∀ i, i < 2 →
      ¬ BadId 2 (w.id i) ∧ Delivered demoFile 0 512 0 1 w i := by
  obtain ⟨ls, hrun⟩ := soloRun_run demoStore false demoLookup 5 (by decide +kernel)
  have hreach : (lookups demoStore false).Reachable (soloRun demoStore demoLookup 5) :=
    ⟨_, .lookup [0, 1] (fun _ => 9) (fun _ => 9) :: ls, rfl, .cons ⟨rfl, rfl⟩ hrun⟩
  have hids : ((soloRun demoStore demoLookup 5).works[0]?.map Work.ids) = some [0, 1] := by
    decide +kernel
  have hret : ((soloRun demoStore demoLookup 5).servers.all fun sv => sv.pos == sv.call.stop) =
      true := by decide +kernel
  obtain ⟨w, hw, hwids⟩ := Option.map_eq_some_iff.mp hids
  refine ⟨_, w, hreach, hw, hwids, fun i hi => ?_⟩
  refine (lookup_refines_table demoStore_loaded hreach).2.2.1 0 w hw (fun sv hsv _ => ?_) i ?_
  · exact beq_iff_eq.mp (List.all_eq_true.mp hret sv hsv)
  · rw [hwids]; exact hi

end FlashSpark.L2.RowStore
