import FlashSpark.Core.Tensor
import FlashSpark.L2Store.Fetch

/-!
# The packed shard: written in Python, attached and read in C++

`scripts/pack_engram.py:23-97` writes the shard that `row_store_attach_packed`
accepts and `read_from` reads (`Store.lean`). The writer's constants are its own.
A file read answers `got` bytes at most; `rename` publishes only a complete file.

* `packRows_spec`, `packRows_complete`: the chunk loop writes the rank's rows, and
  fails only on a short read.
* `packLayer_spec`, `packLayer_complete`: what the published file holds.
* `ShardOf.accepted`, `ShardOf.fields`: the reader's view.
* `pack_attach_fetch`: the round trip.
-/
namespace FlashSpark.L2.PackEngram
open RowStore

/-- mirrors scripts/pack_engram.py:26-30 -/
def magic : Nat := 0x31344E4531565344
def headerBytes : Nat := 4096
def rowBytes : Nat := 264
def weightBytes : Nat := 256
def scaleBytes : Nat := 8

/-- How `pack_layer` ends without a shard: `struct.error` (a field of 2^64 or
more), `ValueError` (a zero `range` step), `ZeroDivisionError` (no ranks), or
the `SystemExit` of a short read at a row. -/
inductive PackError where
  | structError
  | rangeStep
  | zeroRanks
  | shortRead (row : Nat)

/-- `struct.pack_into('<6Q', header, 0, ...)` into a zeroed header.
mirrors scripts/pack_engram.py:67-68 -/
def packHeader (layerId lo hi rows : Nat) : Except PackError Bytes :=
  let fields := [magic, layerId, lo, hi, rows, rowBytes]
  if fields.all (· < 2 ^ 64) then
    .ok (fields.flatMap (toLe 8) ++ List.replicate (headerBytes - 48) 0)
  else .error .structError

/-- One chunk of `n` rows from row `start`.
mirrors scripts/pack_engram.py:77-88 (the body of the chunk loop) -/
def packChunk (file : Bytes) (weightOff scaleOff start n : Nat) (got : Nat × Nat) :
    Except PackError Bytes :=
  let weights := pread file (n * weightBytes) (weightOff + start * weightBytes) got.1
  let scales := pread file (n * scaleBytes) (scaleOff + start * scaleBytes) got.2
  if weights.length ≠ n * weightBytes ∨ scales.length ≠ n * scaleBytes then .error (.shortRead start)
  else .ok ((List.range n).flatMap fun r =>
    block weights (r * weightBytes) weightBytes ++ block scales (r * scaleBytes) scaleBytes)

/-- `for start in range(lo, hi, chunk_rows)`; `got start` answers that chunk's reads.
mirrors scripts/pack_engram.py:74-88 -/
def packRows (file : Bytes) (weightOff scaleOff hi : Nat) {chunkRows : Nat} (hc : 0 < chunkRows)
    (got : Nat → Nat × Nat) (start : Nat) : Except PackError Bytes :=
  if start < hi then
    let stop := min (start + chunkRows) hi
    match packChunk file weightOff scaleOff start (stop - start) (got start) with
    | .error e => .error e
    | .ok written =>
      match packRows file weightOff scaleOff hi hc got (start + chunkRows) with
      | .error e => .error e
      | .ok rest => .ok (written ++ rest)
  else .ok []
termination_by hi - start

/-- The contents of the shard file after `pack_layer`. `existing`: what the
target path held before.
mirrors scripts/pack_engram.py:53-97 (`pack_layer`) -/
def packLayer (existing : Option Bytes) (file : Bytes) (rows weightOff scaleOff layerId rank tp
    chunkRows : Nat) (got : Nat → Nat × Nat) : Except PackError Bytes :=
  if tp = 0 then .error .zeroRanks
  else
    let lo := rows * rank / tp
    let hi := rows * (rank + 1) / tp
    let expected := headerBytes + (hi - lo) * rowBytes
    match existing.filter fun target => target.length == expected with
    | some target => .ok target
    | none =>
      match packHeader layerId lo hi rows with
      | .error e => .error e
      | .ok header =>
        if hc : 0 < chunkRows then
          match packRows file weightOff scaleOff hi hc got lo with
          | .error e => .error e
          | .ok records => .ok (header ++ records)
        else .error .rangeStep

/-! ## The chunk loop -/

/-- Row `id` as the shard stores it. -/
def record (file : Bytes) (weightOff scaleOff id : Nat) : Bytes :=
  block file (weightOff + id * weightBytes) weightBytes ++
    block file (scaleOff + id * scaleBytes) scaleBytes

/-- The `n` rows from `start`, end to end. -/
def records (file : Bytes) (weightOff scaleOff start n : Nat) : Bytes :=
  (List.range n).flatMap fun r => record file weightOff scaleOff (start + r)

theorem packChunk_spec {file : Bytes} {weightOff scaleOff start n : Nat} {got : Nat × Nat}
    {out : Bytes} (h : packChunk file weightOff scaleOff start n got = .ok out) :
    out = records file weightOff scaleOff start n := by
  unfold packChunk at h
  dsimp only at h
  split at h
  · cases h
  · rename_i hlen
    rw [not_or, not_not, not_not] at hlen
    obtain rfl := Except.ok.inj h
    rw [pread_full (Nat.le_of_eq hlen.1.symm), pread_full (Nat.le_of_eq hlen.2.symm)]
    refine List.flatMap_congr fun r hr => ?_
    have hr := List.mem_range.mp hr
    have hw := Nat.mul_le_mul_right weightBytes (show r + 1 ≤ n from hr)
    have hs := Nat.mul_le_mul_right scaleBytes (show r + 1 ≤ n from hr)
    rw [Nat.succ_mul] at hw hs
    rw [block_block _ _ _ _ _ hw, block_block _ _ _ _ _ hs, record, Nat.add_mul, Nat.add_mul,
      Nat.add_assoc, Nat.add_assoc]

theorem packRows_spec {file : Bytes} {weightOff scaleOff hi chunkRows : Nat} (hc : 0 < chunkRows)
    (got : Nat → Nat × Nat) (start : Nat) :
    ∀ out, packRows file weightOff scaleOff hi hc got start = .ok out →
      out = records file weightOff scaleOff start (hi - start) := by
  fun_induction packRows file weightOff scaleOff hi hc got start with
  | case1 => intro out h; cases h
  | case2 => intro out h; cases h
  | case3 start hlt stop written hw rest hr ih =>
    intro out h
    obtain rfl := Except.ok.inj h
    rw [packChunk_spec hw, ih rest hr]
    by_cases hlast : start + chunkRows ≤ hi
    · rw [show stop - start = chunkRows by omega,
        show hi - start = chunkRows + (hi - (start + chunkRows)) by omega, records, records, records,
        range_flatMap_add]
      simp only [Nat.add_assoc]
    · rw [show stop = hi by omega, show hi - (start + chunkRows) = 0 by omega]
      simp [records]
  | case4 start hge =>
    intro out h
    obtain rfl := Except.ok.inj h
    rw [show hi - start = 0 by omega]; rfl

/-- Where every read is complete the loop does not fail. -/
theorem packRows_complete {file : Bytes} {weightOff scaleOff hi chunkRows : Nat} (hc : 0 < chunkRows)
    (hw : weightOff + hi * weightBytes ≤ file.length) (hs : scaleOff + hi * scaleBytes ≤ file.length)
    {got : Nat → Nat × Nat}
    (hgot : ∀ start, chunkRows * weightBytes ≤ (got start).1 ∧ chunkRows * scaleBytes ≤ (got start).2)
    (start : Nat) : ∃ out, packRows file weightOff scaleOff hi hc got start = .ok out := by
  fun_induction packRows file weightOff scaleOff hi hc got start with
  | case1 start hlt stop e he =>
    exfalso
    obtain ⟨hg₁, hg₂⟩ := hgot start
    unfold packChunk at he
    simp only [pread_length, weightBytes, scaleBytes] at *
    split at he
    · omega
    · cases he
  | case2 start hlt stop written hwr e he ih =>
    obtain ⟨out, hout⟩ := ih
    rw [he] at hout
    cases hout
  | case3 => exact ⟨_, rfl⟩
  | case4 => exact ⟨_, rfl⟩

/-! ## A rank's range -/

theorem rank_lo_le_hi (rows rank tp : Nat) : rows * rank / tp ≤ rows * (rank + 1) / tp :=
  Nat.div_le_div_right (Nat.mul_le_mul_left _ (Nat.le_succ _))

theorem rank_hi_le (rows : Nat) {rank tp : Nat} (h : rank < tp) : rows * (rank + 1) / tp ≤ rows := by
  have := Nat.div_le_div_right (c := tp) (Nat.mul_le_mul_left rows (show rank + 1 ≤ tp from h))
  rwa [Nat.mul_div_cancel _ (Nat.lt_of_le_of_lt (Nat.zero_le _) h)] at this

/-! ## The published file -/

theorem packHeader_spec {layerId lo hi rows : Nat} {header : Bytes}
    (h : packHeader layerId lo hi rows = .ok header) :
    header.length = headerBytes ∧ headerWord header 0 = magic ∧ headerWord header 1 = layerId ∧
      headerWord header 2 = lo ∧ headerWord header 3 = hi ∧ headerWord header 4 = rows ∧
      headerWord header 5 = rowBytes := by
  unfold packHeader at h
  dsimp only at h
  split at h
  · rename_i hfit
    obtain rfl := Except.ok.inj h
    rw [List.all_eq_true] at hfit
    set fields := [magic, layerId, lo, hi, rows, rowBytes] with hfields
    have hlen : (fields.flatMap (toLe 8)).length = 48 := by
      rw [flatMap_length_of_length fields fun a _ => toLe_length 8 a]; rfl
    have word : ∀ (i v : Nat), fields[i]? = some v →
        headerWord (fields.flatMap (toLe 8) ++ List.replicate (headerBytes - 48) 0) i = v := by
      intro i v hv
      have hi := (List.getElem?_eq_some_iff.mp hv).1
      have hmem := of_decide_eq_true (hfit v (List.mem_of_getElem? hv))
      rw [show fields.length = 6 from rfl] at hi
      rw [headerWord, Nat.mul_comm, block_append_left _ _ _ _ (by rw [hlen]; omega),
        block_flatMap fields (fun a _ => toLe_length 8 a) hv, ofLe_toLe 8 v hmem]
    refine ⟨?_, word 0 _ rfl, word 1 _ rfl, word 2 _ rfl, word 3 _ rfl, word 4 _ rfl, word 5 _ rfl⟩
    rw [List.length_append, hlen, List.length_replicate]; rfl
  · cases h

/-- A shard file of rank `rank` of `tp`: the header of its range, then its rows. -/
def ShardOf (file : Bytes) (rows weightOff scaleOff layerId rank tp : Nat) (shard : Bytes) : Prop :=
  ∃ header, packHeader layerId (rows * rank / tp) (rows * (rank + 1) / tp) rows = .ok header ∧
    shard = header ++ records file weightOff scaleOff (rows * rank / tp)
      (rows * (rank + 1) / tp - rows * rank / tp)

/-- What `pack_layer` publishes: a shard just written, or one left by an earlier
complete call. -/
theorem packLayer_spec {existing : Option Bytes} {file : Bytes} {rows weightOff scaleOff layerId rank tp
    chunkRows : Nat} {got : Nat → Nat × Nat} {shard : Bytes}
    (hold : ∀ target, existing = some target →
      target.length = headerBytes + (rows * (rank + 1) / tp - rows * rank / tp) * rowBytes →
      ShardOf file rows weightOff scaleOff layerId rank tp target)
    (h : packLayer existing file rows weightOff scaleOff layerId rank tp chunkRows got = .ok shard) :
    ShardOf file rows weightOff scaleOff layerId rank tp shard := by
  unfold packLayer at h
  split at h
  · cases h
  dsimp only at h
  split at h
  · rename_i target htarget
    obtain rfl := Except.ok.inj h
    rw [Option.filter_eq_some_iff, beq_iff_eq] at htarget
    exact hold target htarget.1 htarget.2
  split at h
  · cases h
  rename_i header hheader
  split at h
  · split at h
    · cases h
    rename_i out hrows
    obtain rfl := Except.ok.inj h
    exact ⟨header, hheader, by rw [packRows_spec _ _ _ _ hrows]⟩
  · cases h

theorem packLayer_complete {file : Bytes} {rows weightOff scaleOff layerId rank tp chunkRows : Nat}
    (htp : 0 < tp) (hrank : rank < tp) (hc : 0 < chunkRows)
    (hw : weightOff + rows * weightBytes ≤ file.length) (hs : scaleOff + rows * scaleBytes ≤ file.length)
    (hrows : rows < 2 ^ 64) (hlayer : layerId < 2 ^ 64) {got : Nat → Nat × Nat}
    (hgot : ∀ start, chunkRows * weightBytes ≤ (got start).1 ∧ chunkRows * scaleBytes ≤ (got start).2) :
    ∃ shard, packLayer none file rows weightOff scaleOff layerId rank tp chunkRows got = .ok shard := by
  have hhi := rank_hi_le rows hrank
  have hlo := Nat.le_trans (rank_lo_le_hi rows rank tp) hhi
  have hheader : ∃ header, packHeader layerId (rows * rank / tp) (rows * (rank + 1) / tp) rows =
      .ok header := by
    refine ⟨_, if_pos ?_⟩
    simp only [List.all_cons, List.all_nil, Bool.and_eq_true, decide_eq_true_eq, magic, rowBytes]
    exact ⟨by decide, hlayer, by omega, by omega, hrows, by decide, trivial⟩
  obtain ⟨header, hheader⟩ := hheader
  have hwhi : weightOff + rows * (rank + 1) / tp * weightBytes ≤ file.length :=
    Nat.le_trans (Nat.add_le_add_left (Nat.mul_le_mul_right _ hhi) _) hw
  have hshi : scaleOff + rows * (rank + 1) / tp * scaleBytes ≤ file.length :=
    Nat.le_trans (Nat.add_le_add_left (Nat.mul_le_mul_right _ hhi) _) hs
  obtain ⟨out, hout⟩ := packRows_complete hc hwhi hshi hgot (rows * rank / tp)
  unfold packLayer
  rw [if_neg (by omega)]
  dsimp only [Option.filter_none]
  rw [hheader]
  dsimp only
  rw [dif_pos hc, hout]
  exact ⟨_, rfl⟩

/-! ## The reader's side -/

/-- A store loaded from the table with rank `rank`'s range. -/
structure RankStore (file : Bytes) (rows weightOff scaleOff rank tp : Nat) (s : Store) : Prop where
  wf : s.WF
  fd_eq : s.fd = file
  rows_eq : s.rows = rows
  weightOffset_eq : s.weightOffset = weightOff
  scaleOffset_eq : s.scaleOffset = scaleOff
  rowLo_eq : s.rowLo = rows * rank / tp
  rowHi_eq : s.rowHi = rows * (rank + 1) / tp

theorem RankStore.record_eq {file : Bytes} {rows weightOff scaleOff rank tp : Nat} {s : Store}
    (hs : RankStore file rows weightOff scaleOff rank tp s) (id : Nat) :
    record file weightOff scaleOff id = tableRow s id := by
  rw [tableRow, RowStore.weightBytes, RowStore.scaleBytes, hs.fd_eq, hs.weightOffset_eq, hs.scaleOffset_eq]
  rfl

variable {file : Bytes} {rows weightOff scaleOff layerId rank tp : Nat} {s : Store} {shard : Bytes}

theorem RankStore.records_length (hs : RankStore file rows weightOff scaleOff rank tp s) :
    (records file weightOff scaleOff s.rowLo (s.rowHi - s.rowLo)).length =
      (s.rowHi - s.rowLo) * kRowBytes := by
  have hle := hs.wf.hi_le_rows
  rw [records, flatMap_length_of_length (k := kRowBytes), List.length_range]
  intro r hr
  have hr := List.mem_range.mp hr
  rw [hs.record_eq]
  exact tableRow_length hs.wf (by omega)

/-- The shard is as long as its header says, and its records are the owned rows. -/
theorem ShardOf.layout (h : ShardOf file rows weightOff scaleOff layerId rank tp shard)
    (hs : RankStore file rows weightOff scaleOff rank tp s) :
    shard.length = kPackedHeader + (s.rowHi - s.rowLo) * kRowBytes ∧
      PackedRows s shard s.rowLo s.rowHi := by
  obtain ⟨header, hheader, rfl⟩ := h
  have hlen : header.length = kPackedHeader := (packHeader_spec hheader).1
  rw [← hs.rowLo_eq, ← hs.rowHi_eq]
  refine ⟨by rw [List.length_append, hlen, hs.records_length], fun id hlo hhi => ?_⟩
  rw [← hlen, block_append_right, records, block_flatMap (k := kRowBytes) (a := id - s.rowLo),
    ← hs.record_eq, Nat.add_sub_cancel' hlo]
  · intro r hr
    have hr := List.mem_range.mp hr
    have hle := hs.wf.hi_le_rows
    rw [hs.record_eq]
    exact tableRow_length hs.wf (by omega)
  · rw [List.getElem?_range (by omega)]

theorem ShardOf.fields (h : ShardOf file rows weightOff scaleOff layerId rank tp shard) :
    kPage ≤ shard.length ∧ headerWord (block shard 0 kPage) 0 = kPackedMagic ∧
      headerWord (block shard 0 kPage) 1 = layerId ∧ shardLo shard = rows * rank / tp ∧
      shardHi shard = rows * (rank + 1) / tp ∧ headerWord (block shard 0 kPage) 4 = rows ∧
      headerWord (block shard 0 kPage) 5 = kRowBytes := by
  obtain ⟨header, hheader, rfl⟩ := h
  obtain ⟨hlen, h0, h1, h2, h3, h4, h5⟩ := packHeader_spec hheader
  have hblock : ∀ tail : Bytes, block (header ++ tail) 0 kPage = header := by
    intro tail
    rw [block, List.drop_zero, show kPage = header.length from hlen.symm, List.take_left]
  unfold shardLo shardHi
  rw [hblock]
  refine ⟨by rw [List.length_append, hlen]; exact Nat.le_add_right _ _, h0, h1, h2, h3, h4, h5⟩

theorem ShardOf.accepted (h : ShardOf file rows weightOff scaleOff layerId rank tp shard)
    (hs : RankStore file rows weightOff scaleOff rank tp s) {got : Nat} (hgot : kPage ≤ got) :
    rowStoreAttachPacked s (some shard) layerId got true =
      .ok (some { s with packedFd := some shard }) := by
  obtain ⟨hpage, h0, h1, h2, h3, h4, h5⟩ := h.fields
  exact attach_accepts hgot hpage h0 h1 (h2.trans hs.rowLo_eq.symm) (h3.trans hs.rowHi_eq.symm)
    (h4.trans hs.rows_eq.symm) h5 (Nat.le_of_eq (h.layout hs).1.symm)

/-- **Pack, attach, fetch.** Where every read is complete `pack_layer` produces a
shard. Any shard it produces is attached by a store of that rank, and for every
owned row the page-aligned read stays in its 8192-byte buffer, copies only bytes
that were read, returns the weight bytes and then the scale bytes, and does not
fail where the kernel returns what the file holds (the final page may be short).
A store of another layer, range or table rejects the shard. -/
theorem pack_attach_fetch {chunkRows : Nat} (htp : 1 ≤ tp) (hrank : rank < tp) (hc : 1 ≤ chunkRows)
    (hs : RankStore file rows weightOff scaleOff rank tp s) :
    (rows < 2 ^ 64 → layerId < 2 ^ 64 → ∀ got : Nat → Nat × Nat,
      (∀ start, chunkRows * weightBytes ≤ (got start).1 ∧ chunkRows * scaleBytes ≤ (got start).2) →
      ∃ shard, packLayer none file rows weightOff scaleOff layerId rank tp chunkRows got = .ok shard) ∧
    ∀ (existing : Option Bytes) (got : Nat → Nat × Nat) (shard : Bytes),
      (∀ target, existing = some target →
        target.length = headerBytes + (rows * (rank + 1) / tp - rows * rank / tp) * rowBytes →
        ∃ c g, packLayer none file rows weightOff scaleOff layerId rank tp c g = .ok target) →
      packLayer existing file rows weightOff scaleOff layerId rank tp chunkRows got = .ok shard →
      (∀ g, kPage ≤ g → rowStoreAttachPacked s (some shard) layerId g true =
        .ok (some { s with packedFd := some shard })) ∧
      (∀ id, Owned s id →
        let offset := kPackedHeader + (id - s.rowLo) * kRowBytes
        requested offset kRowBytes ≤ 8192 ∧
        (∀ g row n, readRow { s with packedFd := some shard } id g = some (row, n) →
          row = RowStore.weightBytes s id ++ RowStore.scaleBytes s id ∧
          offset - pageBase offset + kRowBytes ≤
            (pread shard (requested offset kRowBytes) (pageBase offset) (g 0)).length) ∧
        (∀ g : Nat → Nat, min (requested offset kRowBytes) (shard.length - pageBase offset) ≤ g 0 →
          readRow { s with packedFd := some shard } id g =
            some (RowStore.weightBytes s id ++ RowStore.scaleBytes s id, 1))) ∧
      (∀ (s' : Store) (layerId' g : Nat) (fstat : Bool),
        layerId' ≠ layerId ∨ s'.rowLo ≠ rows * rank / tp ∨ s'.rowHi ≠ rows * (rank + 1) / tp ∨
          s'.rows ≠ rows →
        ∃ reason, rowStoreAttachPacked s' (some shard) layerId' g fstat = .error reason) := by
  have hw : weightOff + rows * weightBytes ≤ file.length := by
    have := hs.wf.weights_fit
    rw [hs.weightOffset_eq, hs.rows_eq, hs.fd_eq] at this
    exact this
  have hsc : scaleOff + rows * scaleBytes ≤ file.length := by
    have := hs.wf.scales_fit
    rw [hs.scaleOffset_eq, hs.rows_eq, hs.fd_eq] at this
    exact this
  refine ⟨fun hrows hlayer got hgot => packLayer_complete htp hrank hc hw hsc hrows hlayer hgot,
    fun existing got shard hold hpack => ?_⟩
  have hshard : ShardOf file rows weightOff scaleOff layerId rank tp shard := by
    refine packLayer_spec (fun target htarget hlen => ?_) hpack
    obtain ⟨c, g, hg⟩ := hold target htarget hlen
    exact packLayer_spec (fun _ h => absurd h (by simp)) hg
  obtain ⟨hlen, hrows⟩ := hshard.layout hs
  obtain ⟨-, -, h1, h2, h3, h4, -⟩ := hshard.fields
  refine ⟨fun g hg => hshard.accepted hs hg, fun id hid => ?_, fun s' layerId' g fstat hne => ?_⟩
  · dsimp only
    have hread : ∀ (g : Nat → Nat) (row : Bytes) (n : Nat),
        readRow { s with packedFd := some shard } id g = some (row, n) → row = tableRow s id :=
      fun g row n hr =>
        serves_of_packed (s := { s with packedFd := some shard }) (hs.wf.attach shard) rfl hrows id hid
          g row n hr
    refine ⟨(requested_le _ _ (Nat.le_refl _)).2, fun g row n hr => ⟨hread g row n hr, ?_⟩,
      fun g hg => ?_⟩
    · exact (readFrom_packed hr).1
    · obtain ⟨hlo, hhi⟩ := hid
      have hfit : kPackedHeader + (id - s.rowLo) * kRowBytes + kRowBytes ≤
          (({ s with packedFd := some shard } : Store).contents (.packed shard)).length := by
        simp only [Store.contents, kRowBytes] at *
        omega
      obtain ⟨⟨row, n⟩, hr⟩ := readFrom_complete hfit (Nat.le_refl _) hg
      obtain rfl : row = tableRow s id := hread g row n hr
      obtain rfl : n = 1 := (readFrom_packed hr).2
      exact hr
  · refine attach_rejects g fstat ?_
    rw [h1, h2, h3, h4]
    tauto

/-- A three-row table, and rank 1 of 2 on it: rows 1 and 2. -/
def packDemo : Store :=
  { fd := List.replicate 792 5, rows := 3, weightOffset := 0, scaleOffset := 768, slots := 0,
    rowLo := 1, rowHi := 3, sets := 0, ways := 1, resident := none, scales := none, scalesSize := 0,
    packedFd := none }

theorem packDemo_rank : RankStore packDemo.fd 3 0 768 1 2 packDemo where
  wf := by
    have hlen : packDemo.fd.length = 792 := List.length_replicate
    refine ⟨?_, ?_, by decide, by decide, by decide, (fun _ h => by cases h),
      (fun _ h => by cases h)⟩ <;> rw [hlen] <;> decide
  fd_eq := rfl
  rows_eq := rfl
  weightOffset_eq := rfl
  scaleOffset_eq := rfl
  rowLo_eq := rfl
  rowHi_eq := rfl

theorem packDemo_round_trip :
    ∃ shard, packLayer none packDemo.fd 3 0 768 7 1 2 1 (fun _ => (256, 8)) = .ok shard ∧
      rowStoreAttachPacked packDemo (some shard) 7 4096 true =
        .ok (some { packDemo with packedFd := some shard }) ∧
      readRow { packDemo with packedFd := some shard } 2 (fun _ => 8192) =
        some (RowStore.weightBytes packDemo 2 ++ RowStore.scaleBytes packDemo 2, 1) := by
  obtain ⟨hmake, hall⟩ := @pack_attach_fetch packDemo.fd 3 0 768 7 1 2 packDemo 1 (by decide)
    (by decide) (by decide) packDemo_rank
  obtain ⟨shard, hshard⟩ := hmake (by decide) (by decide) (fun _ => (256, 8)) fun _ => by decide
  obtain ⟨haccept, hfetch, -⟩ := hall none _ shard (fun _ h => absurd h (by simp)) hshard
  obtain ⟨-, -, hread⟩ := hfetch 2 ⟨by decide, by decide⟩
  refine ⟨shard, hshard, haccept 4096 (by decide), hread _ ?_⟩
  exact Nat.le_trans (Nat.min_le_left _ _) (by decide)

end FlashSpark.L2.PackEngram
