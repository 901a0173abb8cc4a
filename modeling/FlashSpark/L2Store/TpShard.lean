import FlashSpark.Core.Split
import FlashSpark.L2Store.PackVerified
import FlashSpark.L2Store.Refines

/-!
# Tensor-parallel shards of an Engram table

Rank `r` of `tp` owns the rows from `rows * r // tp` up to `rows * (r + 1) // tp`. The
packer, the pack verifier, the NVMe backend and the in-memory `EngramEmbedding` each
compute that range for themselves; a lookup adds up what the ranks found, and a
rank finds zeros for the rows it does not own.

* `packLayer_range`, `verify_range`: the packer's and the verifier's range.
* `EngramEmbedding.ownedRow_eq`, `nvmeOwned_getD`: what one rank contributes.
* `allReduce_owned`: the sum over the ranks is the row of the full table.
* `tp_shards_reassemble`: the ranges are a partition, they agree, and both
  backends' lookups return the table.
-/
namespace FlashSpark.L2.TpShard
open RowStore

/-- The range the NVMe backend hands to `row_store_range`.
mirrors adapter/engram_backend.py:108-110,130 -/
def backendRange (numEmbeddings rank tpSize : Nat) : Nat × Nat :=
  let rowStart := numEmbeddings * rank / tpSize
  let stop := numEmbeddings * (rank + 1) / tpSize
  (rowStart, stop)

/-- A rank's rows of the weight and the scale table. -/
structure EngramEmbedding (W S : Type*) where
  rowStart : Nat
  rows : Nat
  weight : Fin rows → W
  scale : Fin rows → S

variable {W S M : Type*}

/-- Rank `tpRank`'s module after `_load_rows` of the checkpoint's tables.
mirrors compact-measured.patch:1031-1053,1080-1087 (`__init__`, `_load_rows`) -/
def EngramEmbedding.init {numEmbeddings tpRank tpSize : Nat} (h : tpRank < tpSize)
    (loadedWeight : Fin numEmbeddings → W) (loadedScale : Fin numEmbeddings → S) :
    EngramEmbedding W S :=
  let rowStart := numEmbeddings * tpRank / tpSize
  let rowEnd := numEmbeddings * (tpRank + 1) / tpSize
  have hend : rowEnd ≤ numEmbeddings := cut_le (Nat.zero_lt_of_lt h) h
  { rowStart := rowStart
    rows := rowEnd - rowStart
    weight := fun i => loadedWeight ⟨rowStart + i, by omega⟩
    scale := fun i => loadedScale ⟨rowStart + i, by omega⟩ }

/-- `engram_gather` of one id, compiled elsewhere: `gather weight scale id range`. -/
abbrev Gather (W S M : Type*) :=
  {n : Nat} → (Fin n → W) → (Fin n → S) → Int → Option (Nat × Nat) → M

/-- What its callers rely on: rows are dequantized by `deq`, and with a range
`[row_lo, row_hi)` the tables start at `row_lo` and other ids give zeros. -/
structure GatherSpec [Zero M] (deq : W → S → M) (gather : Gather W S M) : Prop where
  all : ∀ {n : Nat} (w : Fin n → W) (s : Fin n → S) (i : Fin n), gather w s i none = deq (w i) (s i)
  owned : ∀ {n : Nat} (w : Fin n → W) (s : Fin n → S) (lo : Nat) (i : Fin n),
    gather w s (lo + i : Nat) (some (lo, lo + n)) = deq (w i) (s i)
  unowned : ∀ {n : Nat} (w : Fin n → W) (s : Fin n → S) (lo hi : Nat) (id : Int),
    id < lo ∨ hi ≤ id → gather w s id (some (lo, hi)) = 0

section Zero
variable [Zero M] {rows : Nat} (deq : W → S → M) (gather : Gather W S M)

/-- Row `id` as `_owned_rows` returns it; `cpu`: the torch path.
mirrors compact-measured.patch:1145-1169 (`_owned_rows`) -/
def EngramEmbedding.ownedRow (e : EngramEmbedding W S) (cpu : Bool) (id : Int) : M :=
  if h : e.rows = 0 then 0
  else if cpu then
    let localId := id - e.rowStart
    let owned := 0 ≤ localId ∧ localId < e.rows
    let masked : Fin e.rows := if ho : owned then ⟨localId.toNat, by omega⟩ else ⟨0, by omega⟩
    let value := deq (e.weight masked) (e.scale masked)
    if owned then value else 0
  else gather e.weight e.scale id (some (e.rowStart, e.rowStart + e.rows))

/-- `_owned_rows` on rank `tpRank` of the in-memory modules of one table. -/
def memoryOwned (tpSize : Nat) (loadedWeight : Fin rows → W) (loadedScale : Fin rows → S)
    (cpu : Nat → Bool) (tpRank : Nat) (indices : List Int) : List M :=
  if h : tpRank < tpSize then
    indices.map ((EngramEmbedding.init h loadedWeight loadedScale).ownedRow deq gather (cpu tpRank))
  else []

/-- The NVMe backend's `_owned_rows`: the buffers of a finished lookup, dequantized.
mirrors adapter/engram_backend.py:171-201 (`owned`) -/
def nvmeOwned (gather : Gather Bytes Bytes M) (work : Work) : List M :=
  let weights (k : Fin work.ids.length) := slice work.weights (k * kWeightBytes) kWeightBytes
  let scales (k : Fin work.ids.length) := slice work.scales (k * kScaleBytes) kScaleBytes
  (List.finRange work.ids.length).map fun (i : Fin work.ids.length) =>
    gather weights scales (i : Nat) none

end Zero

/-- `tensor_model_parallel_all_reduce`: the elementwise sum over the ranks. -/
def allReduce [AddCommMonoid M] (tp count : Nat) (values : Nat → List M) : List M :=
  (List.range count).map fun i => ∑ r ∈ Finset.range tp, (values r).getD i 0

/-- What a lookup returns, the same on every rank; `owned r` is `_owned_rows` on rank `r`.
mirrors compact-measured.patch:1130-1138 (`_lookup`) -/
def lookup [AddCommMonoid M] (tpSize : Nat) (owned : Nat → List Int → List M) (indices : List Int) :
    List M :=
  if indices = [] then []
  else
    let values r := owned r indices
    if 1 < tpSize then allReduce tpSize indices.length values else values 0

/-! ## One rank's share -/

section Share
variable [Zero M] {deq : W → S → M} {gather : Gather W S M} (hg : GatherSpec deq gather)
include hg

theorem EngramEmbedding.ownedRow_mem (e : EngramEmbedding W S) (cpu : Bool) (i : Fin e.rows) :
    e.ownedRow deq gather cpu (e.rowStart + i : Nat) = deq (e.weight i) (e.scale i) := by
  have hi := i.isLt
  unfold EngramEmbedding.ownedRow
  rw [dif_neg (by omega)]
  cases cpu with
  | false => exact hg.owned e.weight e.scale e.rowStart i
  | true =>
    have hlocal : ((e.rowStart + i : Nat) : Int) - e.rowStart = (i : Nat) := by push_cast; ring
    simp only [if_true, hlocal]
    rw [if_pos ⟨by omega, by omega⟩, dif_pos ⟨by omega, by omega⟩]
    rfl

theorem EngramEmbedding.ownedRow_not_mem (e : EngramEmbedding W S) (cpu : Bool) {id : Int}
    (hout : id < e.rowStart ∨ (e.rowStart + e.rows : Nat) ≤ id) : e.ownedRow deq gather cpu id = 0 := by
  unfold EngramEmbedding.ownedRow
  split
  · rfl
  cases cpu with
  | false => exact hg.unowned e.weight e.scale _ _ _ hout
  | true =>
    simp only [if_true]
    exact if_neg fun hown => by omega

/-- The in-memory module gives the table's row for an id of its part, zeros otherwise. -/
theorem EngramEmbedding.ownedRow_eq {rows r tp : Nat} (h : r < tp) (weight : Fin rows → W)
    (scale : Fin rows → S) (cpu : Bool) (id : Fin rows) :
    (EngramEmbedding.init h weight scale).ownedRow deq gather cpu (id : Nat) =
      if InPart rows tp r id then deq (weight id) (scale id) else 0 := by
  have hle : cut rows tp r ≤ cut rows tp (r + 1) := cut_mono (Nat.le_succ r)
  split
  · rename_i hin
    obtain ⟨hge, hlt⟩ := hin
    -- the local row of an owned id
    let i : Fin (EngramEmbedding.init h weight scale).rows :=
      ⟨(id : Nat) - cut rows tp r, Nat.sub_lt_sub_right hge hlt⟩
    have hid : (EngramEmbedding.init h weight scale).rowStart + (i : Nat) = (id : Nat) :=
      Nat.add_sub_cancel' hge
    have hrow := (EngramEmbedding.init h weight scale).ownedRow_mem hg cpu i
    rw [hid] at hrow
    rw [hrow]
    have hback : (⟨(EngramEmbedding.init h weight scale).rowStart + (i : Nat), hid ▸ id.isLt⟩ :
        Fin rows) = id := Fin.ext hid
    exact congrArg₂ deq (congrArg weight hback) (congrArg scale hback)
  · rename_i hout
    refine EngramEmbedding.ownedRow_not_mem hg _ cpu ?_
    have hend : (EngramEmbedding.init h weight scale).rowStart +
        (EngramEmbedding.init h weight scale).rows = cut rows tp (r + 1) := Nat.add_sub_cancel' hle
    have hstart : (EngramEmbedding.init h weight scale).rowStart = cut rows tp r := rfl
    rw [hend, hstart]
    unfold InPart at hout
    omega

end Share

/-- The buffers of a lookup that returned, on a store loaded with rank `r`'s range. -/
theorem nvmeOwned_getD [Zero M] {deq : Bytes → Bytes → M} {gather : Gather Bytes Bytes M}
    (hg : GatherSpec deq gather)
    (hzero : deq (List.replicate kWeightBytes 0) (List.replicate kScaleBytes 0) = 0)
    {file : Bytes} {woff soff rows r tp : Nat} {w : Work} {i : Nat} (hi : i < w.ids.length)
    (hdel : Delivered file woff soff (backendRange rows r tp).1 (backendRange rows r tp).2 w i) :
    (nvmeOwned gather w).getD i 0 =
      if InPart rows tp r (w.id i).toNat then
        deq (block file (woff + (w.id i).toNat * kWeightBytes) kWeightBytes)
          (block file (soff + (w.id i).toNat * kScaleBytes) kScaleBytes)
      else 0 := by
  have hget : (nvmeOwned gather w).getD i 0 =
      deq (slice w.weights (i * kWeightBytes) kWeightBytes)
        (slice w.scales (i * kScaleBytes) kScaleBytes) := by
    rw [List.getD_eq_getElem?_getD, nvmeOwned, List.getElem?_map, List.getElem?_eq_getElem (by simpa),
      Option.map_some, Option.getD_some, List.getElem_finRange]
    exact hg.all _ _ ⟨i, hi⟩
  unfold Delivered at hdel
  dsimp only at hdel
  rw [hget]
  by_cases hin : InPart rows tp r (w.id i).toNat
  · rw [if_pos hin]
    have hin' : (backendRange rows r tp).1 ≤ (w.id i).toNat ∧
        (w.id i).toNat < (backendRange rows r tp).2 := hin
    rw [if_pos hin'] at hdel
    rw [(Prod.mk.inj hdel).1, (Prod.mk.inj hdel).2]
  · rw [if_neg hin]
    have hin' : ¬((backendRange rows r tp).1 ≤ (w.id i).toNat ∧
        (w.id i).toNat < (backendRange rows r tp).2) := hin
    rw [if_neg hin'] at hdel
    rw [(Prod.mk.inj hdel).1, (Prod.mk.inj hdel).2, hzero]

/-! ## The ranks together -/

/-- Where rank `r` finds the rows of its part and zeros elsewhere, the sum over the
ranks finds every row. -/
theorem allReduce_owned [AddCommMonoid M] {rows tp : Nat} (htp : 0 < tp) {count : Nat}
    {values : Nat → List M} {id : Nat → Nat} {row : Nat → M} (hid : ∀ i, i < count → id i < rows)
    (hvalues : ∀ r i, r < tp → i < count →
      (values r).getD i 0 = if InPart rows tp r (id i) then row (id i) else 0) :
    allReduce tp count values = (List.range count).map fun i => row (id i) := by
  refine List.map_congr_left fun i hi => ?_
  have hi := List.mem_range.mp hi
  rw [Finset.sum_congr rfl fun r hr => hvalues r i (Finset.mem_range.mp hr) hi]
  exact sum_part htp (hid i hi) _

/-! ## The ranges -/

section Range
open PackEngram PackWrite PackVerified

/-- A shard that the packer wrote says in its header what range it is of. -/
theorem packLayer_range {file shard : Bytes} {rows woff soff layerId r tp chunkRows : Nat}
    {got : Nat → Nat × Nat}
    (h : PackEngram.packLayer none file rows woff soff layerId r tp chunkRows got = .ok shard) :
    (shardLo shard, shardHi shard) = backendRange rows r tp := by
  obtain ⟨-, -, -, hlo, hhi, -⟩ := (packLayer_spec (fun _ hno => absurd hno (by simp)) h).fields
  rw [hlo, hhi]
  rfl

theorem verify_range {Dg : Type} {sha256 : Bytes → Dg} {ck : Checkpoint} {io : RunIo}
    {r tp layer : Nat} {s : Span} {killed : Nat → Bool} {k : Nat} {d : OutDir Dg} {rec : LayerRecord Dg}
    (hspan : ck.tensorSpan layer = some s)
    (h : (verify sha256 ck io r tp layer killed k d).1 = .returned rec) :
    (rec.rowStart, rec.rowEnd) = backendRange s.rows r tp := by
  have hmeets : Exit.Sat (fun rec d' => (∃ s b, Recorded sha256 ck r tp layer d rec s b) ∧ d' = d)
      (fun _ d' => d' = d) (fun d' => d' = d) (verify sha256 ck io r tp layer killed k d).1
      (verify sha256 ck io r tp layer killed k d).2.2 := verify_meets k d rfl
  rw [h] at hmeets
  obtain ⟨⟨s', b, hrec⟩, -⟩ := hmeets
  obtain rfl := Option.some.inj (hspan.symm.trans hrec.span)
  rw [hrec.rowStart, hrec.rowEnd]
  rfl

end Range

/-- The ranges of the ranks follow one another, cover the table and are as even as can be. -/
structure IsPartition (rows tp : Nat) (range : Nat → Nat × Nat) : Prop where
  covers : ∀ id, id < rows → ∃! r, r < tp ∧ (range r).1 ≤ id ∧ id < (range r).2
  within : ∀ r, r < tp → (range r).1 ≤ (range r).2 ∧ (range r).2 ≤ rows
  disjoint : ∀ r r', r < r' → (range r).2 ≤ (range r').1
  even : ∀ r r', (range r).2 - (range r).1 ≤ (range r').2 - (range r').1 + 1

theorem backendRange_isPartition {tp : Nat} (htp : 0 < tp) (rows : Nat) :
    IsPartition rows tp fun r => backendRange rows r tp where
  covers _ hid := existsUnique_part htp hid
  within r hr := ⟨cut_mono (Nat.le_succ r), cut_le htp hr⟩
  disjoint _ _ hlt := cut_mono hlt
  even r r' := (part_size htp r).2.trans (Nat.succ_le_succ (part_size htp r').1)

/-! ## Both backends -/

theorem lookup_owned [AddCommMonoid M] {rows tp : Nat} (htp : 0 < tp) {owned : Nat → List Int → List M}
    {indices : List Int} {id : Nat → Nat} {row : Nat → M} (hlen : (owned 0 indices).length = indices.length)
    (hid : ∀ i, i < indices.length → id i < rows)
    (hvalues : ∀ r i, r < tp → i < indices.length →
      (owned r indices).getD i 0 = if InPart rows tp r (id i) then row (id i) else 0) :
    lookup tp owned indices = (List.range indices.length).map fun i => row (id i) := by
  unfold lookup
  split
  · rename_i hnil
    rw [hnil]
    rfl
  dsimp only
  split
  · exact allReduce_owned htp hid hvalues
  · -- one rank owns every row
    obtain rfl : tp = 1 := by omega
    refine List.ext_getElem (by simpa using hlen) fun i hi _ => ?_
    have hi' : i < indices.length := hlen ▸ hi
    have hin : InPart rows 1 0 (id i) := by
      refine ⟨by rw [cut_zero]; exact Nat.zero_le _, ?_⟩
      rw [Nat.zero_add, cut_self Nat.one_pos]
      exact hid i hi'
    have hval := hvalues 0 i Nat.one_pos hi'
    rw [if_pos hin, List.getD_eq_getElem _ _ hi] at hval
    rw [hval, List.getElem_map, List.getElem_range]

theorem memory_lookup [AddCommMonoid M] {deq : W → S → M} {gather : Gather W S M}
    (hg : GatherSpec deq gather) {rows tp : Nat} (htp : 0 < tp) (weight : Fin rows → W)
    (scale : Fin rows → S) (cpu : Nat → Bool) (ids : List (Fin rows)) :
    lookup tp (memoryOwned deq gather tp weight scale cpu) (ids.map fun id : Fin rows => ((id : Nat) : Int)) =
      ids.map fun id => deq (weight id) (scale id) := by
  -- the table's rows by number
  let row : Nat → M := fun id => if h : id < rows then deq (weight ⟨id, h⟩) (scale ⟨id, h⟩) else 0
  let number : Nat → Nat := fun i => (ids.map Fin.val).getD i 0
  have hrow : ∀ id : Fin rows, row id = deq (weight id) (scale id) := fun id => dif_pos id.isLt
  have hnumber : ∀ i (hi : i < ids.length), number i = (ids[i] : Nat) := fun i hi => by
    simp [number, List.getElem?_eq_getElem hi]
  have hlen : (ids.map fun id : Fin rows => ((id : Nat) : Int)).length = ids.length := List.length_map _
  rw [@lookup_owned M _ rows tp htp _ _ number row]
  · rw [hlen]
    refine List.ext_getElem (by simp) fun i hi hi' => ?_
    have hi'' : i < ids.length := by simpa using hi
    rw [List.getElem_map, List.getElem_map, List.getElem_range, hnumber i hi'', hrow]
  · rw [memoryOwned, dif_pos htp, List.length_map]
  · intro i hi
    rw [hnumber i (hlen ▸ hi)]
    exact (ids[i]).isLt
  · intro r i hr hi
    have hi' : i < ids.length := hlen ▸ hi
    have hget : (memoryOwned deq gather tp weight scale cpu r
        (ids.map fun id : Fin rows => ((id : Nat) : Int))).getD i 0 =
        (EngramEmbedding.init hr weight scale).ownedRow deq gather (cpu r) ((ids[i] : Nat) : Int) := by
      rw [memoryOwned, dif_pos hr, List.getD_eq_getElem _ _ (by simpa using hi'), List.getElem_map,
        List.getElem_map]
    rw [hget, hnumber i hi', EngramEmbedding.ownedRow_eq hg hr, hrow]

/-- Lookup `k` on rank `r`'s store has returned. -/
structure RankLookup (file : Bytes) (rows woff soff tp r : Nat) (ids : List Int) (w : Work) : Prop where
  returned : ∃ s pool σ k,
    Loaded file rows woff soff (backendRange rows r tp).1 (backendRange rows r tp).2 s ∧
      (lookups s pool).Reachable σ ∧ σ.works[k]? = some w ∧ Returned σ k
  ids : w.ids = ids

theorem RankLookup.delivered {file : Bytes} {rows woff soff tp r : Nat} {ids : List Int} {w : Work}
    (h : RankLookup file rows woff soff tp r ids w) {i : Nat} (hi : i < w.ids.length) :
    ¬BadId rows (w.id i) ∧
      Delivered file woff soff (backendRange rows r tp).1 (backendRange rows r tp).2 w i := by
  obtain ⟨s, pool, σ, k, hload, hreach, hw, hret⟩ := h.returned
  have hl := hload.serves
  have hinv := (RowStore.inv_inductive hl.wf hl.serves pool).reachable σ hreach
  obtain ⟨hgood, hdel⟩ := hinv.returned hw hret hi
  rw [hl.rows] at hgood
  rw [hl.fd, hl.weightOffset, hl.scaleOffset, hl.rowLo, hl.rowHi] at hdel
  exact ⟨hgood, hdel⟩

theorem nvme_lookup [AddCommMonoid M] {deq : Bytes → Bytes → M} {gather : Gather Bytes Bytes M}
    (hg : GatherSpec deq gather)
    (hzero : deq (List.replicate kWeightBytes 0) (List.replicate kScaleBytes 0) = 0)
    {file : Bytes} {rows woff soff tp : Nat} (htp : 0 < tp) {ids : List Int} {w : Nat → Work}
    (hw : ∀ r, r < tp → RankLookup file rows woff soff tp r ids (w r)) :
    lookup tp (fun r _ => nvmeOwned gather (w r)) ids =
      ids.map fun id => deq (block file (woff + id.toNat * kWeightBytes) kWeightBytes)
        (block file (soff + id.toNat * kScaleBytes) kScaleBytes) := by
  let row : Nat → M := fun id => deq (block file (woff + id * kWeightBytes) kWeightBytes)
    (block file (soff + id * kScaleBytes) kScaleBytes)
  have hid : ∀ r, r < tp → ∀ i, (w r).id i = ids.getD i (-1) := fun r hr i => by
    rw [Work.id, (hw r hr).ids]
  rw [@lookup_owned M _ rows tp htp _ _ (fun i => (ids.getD i (-1)).toNat) row]
  · refine List.ext_getElem (by simp) fun i hi hi' => ?_
    have hi'' : i < ids.length := by simpa using hi
    rw [List.getElem_map, List.getElem_map, List.getElem_range, List.getD_eq_getElem _ _ hi'']
  · rw [nvmeOwned, List.length_map, List.length_finRange, (hw 0 htp).ids]
  · intro i hi
    obtain ⟨hgood, -⟩ := (hw 0 htp).delivered (i := i) (by rw [(hw 0 htp).ids]; exact hi)
    rw [hid 0 htp] at hgood
    unfold BadId at hgood
    omega
  · intro r i hr hi
    have hi' : i < (w r).ids.length := by rw [(hw r hr).ids]; exact hi
    rw [nvmeOwned_getD hg hzero hi' ((hw r hr).delivered hi').2, hid r hr]

/-- **Tensor-parallel ownership is a partition, and the ranks reassemble the table.**
The packer, the verifier, the NVMe backend and the in-memory module agree on the range of
a rank; the ranges partition the table; and what a lookup returns is the full table's
row for every id, for the in-memory modules and for the NVMe stores. -/
theorem tp_shards_reassemble {tp : Nat} (htp : 0 < tp) (rows : Nat) :
    IsPartition rows tp (fun r => backendRange rows r tp) ∧
    (∀ r, r < tp →
      (∀ file woff soff layerId chunkRows got shard,
        PackEngram.packLayer none file rows woff soff layerId r tp chunkRows got = .ok shard →
        (shardLo shard, shardHi shard) = backendRange rows r tp) ∧
      (∀ (Dg : Type) (sha256 : Bytes → Dg) (ck : PackVerified.Checkpoint) (io : PackVerified.RunIo)
        (layer : Nat) (s : PackWrite.Span) (killed : Nat → Bool) (k : Nat) (d : PackVerified.OutDir Dg)
        (rec : PackVerified.LayerRecord Dg), ck.tensorSpan layer = some s → s.rows = rows →
        (PackVerified.verify sha256 ck io r tp layer killed k d).1 = .returned rec →
        (rec.rowStart, rec.rowEnd) = backendRange rows r tp)) ∧
    (∀ (W S M : Type) [AddCommMonoid M] (deq : W → S → M) (gather : Gather W S M),
      GatherSpec deq gather → ∀ (weight : Fin rows → W) (scale : Fin rows → S),
      (∀ r (hr : r < tp), ((EngramEmbedding.init hr weight scale).rowStart,
        (EngramEmbedding.init hr weight scale).rowStart + (EngramEmbedding.init hr weight scale).rows) =
          backendRange rows r tp) ∧
      ∀ (cpu : Nat → Bool) (ids : List (Fin rows)),
        lookup tp (memoryOwned deq gather tp weight scale cpu)
            (ids.map fun id : Fin rows => ((id : Nat) : Int)) =
          ids.map fun id => deq (weight id) (scale id)) ∧
    ∀ (M : Type) [AddCommMonoid M] (deq : Bytes → Bytes → M) (gather : Gather Bytes Bytes M),
      GatherSpec deq gather →
      deq (List.replicate kWeightBytes 0) (List.replicate kScaleBytes 0) = 0 →
      ∀ (file : Bytes) (woff soff : Nat) (ids : List Int) (w : Nat → Work),
      (∀ r, r < tp → RankLookup file rows woff soff tp r ids (w r)) →
      lookup tp (fun r _ => nvmeOwned gather (w r)) ids =
        ids.map fun id => deq (block file (woff + id.toNat * kWeightBytes) kWeightBytes)
          (block file (soff + id.toNat * kScaleBytes) kScaleBytes) := by
  refine ⟨backendRange_isPartition htp rows, fun r _ => ⟨?_, ?_⟩, ?_, ?_⟩
  · intro file woff soff layerId chunkRows got shard h
    exact packLayer_range h
  · rintro Dg sha256 ck io layer s killed k d rec hspan rfl h
    exact verify_range hspan h
  · intro W S M _ deq gather hg weight scale
    refine ⟨fun r hr => ?_, memory_lookup hg htp weight scale⟩
    have hend : (EngramEmbedding.init hr weight scale).rowStart +
        (EngramEmbedding.init hr weight scale).rows = cut rows tp (r + 1) :=
      Nat.add_sub_cancel' (cut_mono (Nat.le_succ r))
    rw [hend]
    rfl
  · intro M _ deq gather hg hzero file woff soff ids w hw
    exact nvme_lookup hg hzero htp hw

/-- `engram_gather` of integers, one to a row. -/
def demoGather : Gather Nat Unit Nat := fun {n} w _ id range =>
  match range with
  | none => if h : 0 ≤ id ∧ id < n then w ⟨id.toNat, by omega⟩ else 0
  | some (lo, hi) =>
    if h : (lo : Int) ≤ id ∧ id < hi ∧ id - lo < n then w ⟨(id - lo).toNat, by omega⟩ else 0

theorem demoGather_spec : GatherSpec (fun w _ => w) demoGather where
  all w s i := by simp [demoGather]
  owned w s lo i := by simp [demoGather]
  unowned w s lo hi id hout := dif_neg fun h => by omega

/-- Five rows on three ranks. -/
theorem five_rows_on_three : IsPartition 5 3 (fun r => backendRange 5 r 3) ∧
    lookup 3 (memoryOwned (fun w _ => w) demoGather 3 (fun i : Fin 5 => 10 * (i : Nat)) (fun _ => ())
      fun _ => false) [4, 0, 3] = [40, 0, 30] :=
  ⟨(tp_shards_reassemble (by decide) 5).1,
    ((tp_shards_reassemble (by decide) 5).2.2.1 Nat Unit Nat _ _ demoGather_spec _ _).2 (fun _ => false)
      [4, 0, 3]⟩

end FlashSpark.L2.TpShard
