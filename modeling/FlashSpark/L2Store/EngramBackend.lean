import FlashSpark.Core.Raise
import FlashSpark.L2Store.Accounting
import FlashSpark.L2Store.PackComplete
import FlashSpark.L2Store.TpShard

/-!
# Starting the NVMe backend, and serving from it

`adapter/engram_backend.py:97-169` puts a row store behind `EngramEmbedding`: it finds
the two tables of a layer in the checkpoint, opens a store on them, and insists on the
shard that `pack-verified.py` left on the node. `scripts/pack_engram.py:34-48` found the
same tables when the shard was packed.

* `init_tables`: what a module that came up stands on.
* `init_completes`: a shard that was packed exactly is attached.
* `lookups_ignore_checkpoint`: the store of a module reads nothing but its shard.
* `lookups_drain`: lookups of good ids can always be carried to their end.
* `packed_serving_exact`: pack, start and look up, on four ranks.
-/
namespace FlashSpark.L2.EngramBackend
open RowStore PackEngram PackWrite PackVerified TpShard

/-! ## The checkpoint's directory -/

/-- A tensor's entry in the header of a checkpoint file. -/
structure TensorInfo where
  dtype : String
  shape : List Nat
  dataOffsets : List Nat

/-- `json.loads` of the two documents that are read: the index, of which it is the
`weight_map`, and the header of a checkpoint file. -/
structure Json where
  weightMap : Bytes → Option (String → Option String)
  header : Bytes → Option (String → Option TensorInfo)

structure Root where
  path : String
  config : Bytes
  index : Bytes
  file : String → Option Bytes

section Tables
variable (json : Json) (root : Root)

def embedName (layerId : Nat) (tensor : String) : String := s!"layers.{layerId}.engram.embed.{tensor}"

/-- mirrors scripts/pack_engram.py:40-42 and adapter/engram_backend.py:116-118 -/
def readHeader (file : Bytes) : Option (Nat × (String → Option TensorInfo)) :=
  if file.length < 8 then none
  else
    let length := ofLe (block file 0 8)
    (json.header (block file 8 length)).map fun header => (length, header)

/-- mirrors scripts/pack_engram.py:34-48 (`tensor_span`) -/
def tensorSpan (layerId : Nat) : Option Span := do
  let index ← json.weightMap root.index
  let name ← index (embedName layerId "weight")
  let scaleName ← index (embedName layerId "scale")
  guard (scaleName = name)
  let file ← root.file name
  let (length, header) ← readHeader json file
  let weight ← header (embedName layerId "weight")
  let scale ← header (embedName layerId "scale")
  guard (weight.dtype = "F8_E4M3" ∧ scale.dtype = "F8_E8M0")
  guard (weight.shape[1]? = some PackEngram.weightBytes ∧ scale.shape[1]? = some PackEngram.scaleBytes)
  let rows ← weight.shape[0]?
  let weightOff ← weight.dataOffsets[0]?
  let scaleOff ← scale.dataOffsets[0]?
  pure ⟨name, file, rows, 8 + length + weightOff, 8 + length + scaleOff⟩

/-- What `pack-verified.py` is given. -/
def checkpoint : Checkpoint := ⟨root.config, root.index, tensorSpan json root⟩

end Tables

/-! ## The backend -/

/-- The environment; the two numbers as `float` and `int` read them. -/
structure Env where
  offloadMode : Option String
  cacheGib : Option ℚ
  residentScales : Option String
  nnodes : Option Int
  packedDir : Option String
  cacheWays : Option String

/-- `abort` is `fail` of the row store, which ends the process. -/
inductive InitError where
  | assertion
  | zeroDivision
  | checkpoint
  | runtimeError (message : String)
  | abort (reason : String)

/-- mirrors adapter/engram_backend.py:97-102 (`install`) -/
def install (env : Env) : Except InitError Unit := do
  demand (env.offloadMode = some "nvme") (.runtimeError "This profile requires NVMe Engram offload")
  demand (env.cacheGib.getD (-1) = 0 ∧ env.residentScales = some "0")
    (.runtimeError "The measured NVMe profile uses no row cache or resident scales")

/-- mirrors adapter/row_store.cpp:51-56 (`env_flag`) -/
def envFlag (raw : Option String) (fallback : Bool) : Bool :=
  match raw with
  | none => fallback
  | some raw => if raw = "" then fallback else !(raw = "0" || raw = "off" || raw = "false")

/-- The cache bytes of one table on one rank.
mirrors adapter/engram_backend.py:127-128 -/
def rowBudget (env : Env) (tpSize : Nat) : Nat :=
  let ranksPerHost := max 1 (tpSize / max 1 (env.nnodes.getD 1).toNat)
  let bytes := env.cacheGib.getD 64 * 2 ^ 30
  (bytes.num.tdiv bytes.den / (2 * ranksPerHost : Nat) % 2 ^ 64).toNat

/-- What the system answers while a module comes up: whether the table and the shard
open, what the other calls on them return, and how many header bytes are read. -/
structure InitIo where
  tableOpens : Bool
  table : OpenIo
  pin : PinIo
  shardOpens : Bool
  got : Nat
  fstat : Bool

/-- `EngramEmbedding` on one rank. -/
structure Module where
  dim : Nat
  tpSize : Nat
  rowStart : Nat
  rows : Nat
  store : Store

/-- `dir` is the packed directory of the node.
mirrors adapter/engram_backend.py:103-156 (`init`) -/
def init (json : Json) (root : Root) (env : Env) (dir : File → Option Bytes) (io : InitIo)
    (tpSize rank numEmbeddings dim layerId : Nat) : Except InitError Module := do
  demand (dim = 256) .assertion
  demand (tpSize ≠ 0) .zeroDivision
  let (rowStart, stop) := backendRange numEmbeddings rank tpSize
  let index ← orRaise (json.weightMap root.index) .checkpoint
  let filename ← orRaise (index (embedName layerId "weight")) .checkpoint
  let scaleName ← orRaise (index (embedName layerId "scale")) .checkpoint
  demand (filename = scaleName) .assertion
  let file ← orRaise (root.file filename) .checkpoint
  let (length, header) ← orRaise (readHeader json file) .checkpoint
  let w ← orRaise (header (embedName layerId "weight")) .checkpoint
  let s ← orRaise (header (embedName layerId "scale")) .checkpoint
  demand (w.shape = [numEmbeddings, 256] ∧ w.dtype = "F8_E4M3") .assertion
  demand (s.shape = [numEmbeddings, 8] ∧ s.dtype = "F8_E8M0") .assertion
  let weightOff ← orRaise w.dataOffsets[0]? .checkpoint
  let scaleOff ← orRaise s.dataOffsets[0]? .checkpoint
  let opened ← (rowStoreOpen io.table (if io.tableOpens then some file else none) numEmbeddings
    (8 + length + weightOff) (8 + length + scaleOff) (rowBudget env tpSize)
    (decide (env.offloadMode = some "ram")) (Accounting.envU64 env.cacheWays 4)).mapError .abort
  let store ← orRaise opened
    (.runtimeError s!"Could not open Engram backing shard: {root.path}/{filename}")
  let ranged ← (rowStoreRange store rowStart stop (envFlag env.residentScales true) io.pin).mapError .abort
  let packedDir := env.packedDir.getD ""
  demand (packedDir ≠ "") (.runtimeError "TP4 NVMe serving requires a local packed Engram directory")
  let refusal := InitError.runtimeError
    s!"Could not attach required local O_DIRECT Engram shard: {packedDir}/engram-l{layerId}-r{rank}of{tpSize}.bin"
  let shard ← orRaise (dir (.shard layerId rank tpSize)) refusal
  let attached ← (rowStoreAttachPacked ranged (if io.shardOpens then some shard else none) layerId io.got
    io.fstat).mapError .abort
  let packed ← orRaise attached refusal
  demand (packed.packedFd.isSome = true ∧ Accounting.cacheBytes packed = 0 ∧ packed.scalesSize = 0)
    (.runtimeError "The required packed-only NVMe storage configuration was not established")
  pure ⟨dim, tpSize, rowStart, stop - rowStart, packed⟩

/-! ## The tables of a layer -/

/-- The two tables of a layer as a module wants them, found in the checkpoint. -/
structure Tables (json : Json) (root : Root) (layerId numEmbeddings : Nat) where
  index : String → Option String
  name : String
  file : Bytes
  length : Nat
  header : String → Option TensorInfo
  weight : TensorInfo
  scale : TensorInfo
  weightOff : Nat
  scaleOff : Nat
  index_eq : json.weightMap root.index = some index
  weight_name : index (embedName layerId "weight") = some name
  scale_name : index (embedName layerId "scale") = some name
  file_eq : root.file name = some file
  header_eq : readHeader json file = some (length, header)
  weight_eq : header (embedName layerId "weight") = some weight
  scale_eq : header (embedName layerId "scale") = some scale
  weight_shape : weight.shape = [numEmbeddings, 256] ∧ weight.dtype = "F8_E4M3"
  scale_shape : scale.shape = [numEmbeddings, 8] ∧ scale.dtype = "F8_E8M0"
  weight_off : weight.dataOffsets[0]? = some weightOff
  scale_off : scale.dataOffsets[0]? = some scaleOff

section Init
variable {json : Json} {root : Root} {env : Env} {dir : File → Option Bytes} {io : InitIo}
  {tpSize rank numEmbeddings dim layerId : Nat}

def Tables.span (t : Tables json root layerId numEmbeddings) : Span :=
  ⟨t.name, t.file, numEmbeddings, 8 + t.length + t.weightOff, 8 + t.length + t.scaleOff⟩

/-- The packer finds the tables that a module wants. -/
theorem Tables.tensorSpan_eq (t : Tables json root layerId numEmbeddings) :
    tensorSpan json root layerId = some t.span := by
  unfold tensorSpan
  simp only [t.index_eq, t.weight_name, t.scale_name, t.file_eq, t.header_eq, t.weight_eq, t.scale_eq,
    t.weight_shape, t.scale_shape, t.weight_off, t.scale_off, Option.bind_eq_bind, Option.bind_some, guard,
    List.getElem?_cons_succ, List.getElem?_cons_zero]
  rfl

/-- What a module that came up stands on. -/
structure Started (t : Tables json root layerId numEmbeddings) (env : Env) (dir : File → Option Bytes)
    (io : InitIo) (tpSize rank : Nat) (shard : Bytes) (m : Module) : Prop where
  loaded : ∃ s₀ s₁,
    rowStoreOpen io.table (some t.file) numEmbeddings (8 + t.length + t.weightOff) (8 + t.length + t.scaleOff)
      (rowBudget env tpSize) (decide (env.offloadMode = some "ram")) (Accounting.envU64 env.cacheWays 4) =
        .ok (some s₀) ∧
    rowStoreRange s₀ (backendRange numEmbeddings rank tpSize).1 (backendRange numEmbeddings rank tpSize).2
      (envFlag env.residentScales true) io.pin = .ok s₁ ∧
    rowStoreAttachPacked s₁ (some shard) layerId io.got io.fstat = .ok (some m.store)
  shard : dir (.shard layerId rank tpSize) = some shard
  uncached : Accounting.cacheBytes m.store = 0
  unpinned : m.store.scalesSize = 0
  rowStart : m.rowStart = (backendRange numEmbeddings rank tpSize).1
  rows : m.rows = (backendRange numEmbeddings rank tpSize).2 - (backendRange numEmbeddings rank tpSize).1

theorem init_tables {m : Module} (h : init json root env dir io tpSize rank numEmbeddings dim layerId = .ok m) :
    ∃ (t : Tables json root layerId numEmbeddings) (shard : Bytes),
      Started t env dir io tpSize rank shard m := by
  unfold init at h
  obtain ⟨_, -, h⟩ := except_bind_ok.mp h
  obtain ⟨_, -, h⟩ := except_bind_ok.mp h
  dsimp only at h
  obtain ⟨index, hindex, h⟩ := except_bind_ok.mp h
  obtain ⟨name, hname, h⟩ := except_bind_ok.mp h
  obtain ⟨scaleName, hscaleName, h⟩ := except_bind_ok.mp h
  obtain ⟨_, hsame, h⟩ := except_bind_ok.mp h
  obtain ⟨file, hfile, h⟩ := except_bind_ok.mp h
  obtain ⟨⟨length, header⟩, hheader, h⟩ := except_bind_ok.mp h
  obtain ⟨w, hw, h⟩ := except_bind_ok.mp h
  obtain ⟨s, hs, h⟩ := except_bind_ok.mp h
  obtain ⟨_, hwshape, h⟩ := except_bind_ok.mp h
  obtain ⟨_, hsshape, h⟩ := except_bind_ok.mp h
  obtain ⟨weightOff, hwoff, h⟩ := except_bind_ok.mp h
  obtain ⟨scaleOff, hsoff, h⟩ := except_bind_ok.mp h
  obtain ⟨opened, hopened, h⟩ := except_bind_ok.mp h
  obtain ⟨s₀, hs₀, h⟩ := except_bind_ok.mp h
  obtain ⟨s₁, hs₁, h⟩ := except_bind_ok.mp h
  obtain ⟨_, -, h⟩ := except_bind_ok.mp h
  obtain ⟨shard, hshard, h⟩ := except_bind_ok.mp h
  obtain ⟨attached, hattached, h⟩ := except_bind_ok.mp h
  obtain ⟨packed, hpacked, h⟩ := except_bind_ok.mp h
  obtain ⟨_, hstats, h⟩ := except_bind_ok.mp h
  obtain ⟨-, huncached, hunpinned⟩ := demand_ok.mp hstats
  obtain rfl := Except.ok.inj h
  have hopened := mapError_ok.mp hopened
  have hattached := mapError_ok.mp hattached
  rw [orRaise_ok.mp hs₀] at hopened
  rw [orRaise_ok.mp hpacked] at hattached
  -- a store that was returned had its file opened
  have htable : (if io.tableOpens = true then some file else none) = some file := by
    obtain ⟨-, -, -, -, hfd, -⟩ := rowStoreOpen_wf hopened
    exact if_pos (Option.ite_none_right_eq_some.mp hfd).1
  have hshard' : (if io.shardOpens = true then some shard else none) = some shard := by
    obtain ⟨sh, hsh, -⟩ := attach_spec hattached
    exact if_pos (Option.ite_none_right_eq_some.mp hsh).1
  rw [htable] at hopened
  rw [hshard'] at hattached
  exact ⟨⟨index, name, file, length, header, w, s, weightOff, scaleOff, orRaise_ok.mp hindex,
    orRaise_ok.mp hname, (orRaise_ok.mp hscaleName).trans (congrArg some (demand_ok.mp hsame).symm),
    orRaise_ok.mp hfile, orRaise_ok.mp hheader, orRaise_ok.mp hw, orRaise_ok.mp hs, demand_ok.mp hwshape,
    demand_ok.mp hsshape, orRaise_ok.mp hwoff, orRaise_ok.mp hsoff⟩, shard,
    ⟨s₀, s₁, hopened, mapError_ok.mp hs₁, hattached⟩, orRaise_ok.mp hshard, huncached, hunpinned, rfl, rfl⟩

/-- A store opened and given the rank's range, before its shard. -/
theorem ranged_rankStore {oio : OpenIo} {pio : PinIo} {file : Bytes} {rows woff soff budget cacheWays : Nat}
    {ram residentScales : Bool} {s₀ s₁ : Store}
    (hopen : rowStoreOpen oio (some file) rows woff soff budget ram cacheWays = .ok (some s₀))
    (hrange : rowStoreRange s₀ (backendRange rows rank tpSize).1 (backendRange rows rank tpSize).2
      residentScales pio = .ok s₁) : RankStore file rows woff soff rank tpSize s₁ := by
  obtain ⟨hwf, -, -, hrows, hfile, hwoff, hsoff⟩ := rowStoreOpen_wf hopen
  obtain ⟨hwf', hlo, hhi, -, hrows', hfd, hw, hsc, -⟩ := rowStoreRange_wf hwf hrange
  exact ⟨hwf', hfd.trans (Option.some.inj hfile).symm, hrows'.trans hrows, hw.trans hwoff, hsc.trans hsoff,
    hlo, hhi⟩

theorem Started.exact {t : Tables json root layerId numEmbeddings} {shard : Bytes} {m : Module}
    (h : Started t env dir io tpSize rank shard m)
    (hshard : ShardOf t.file numEmbeddings (8 + t.length + t.weightOff) (8 + t.length + t.scaleOff) layerId
      rank tpSize shard) :
    Loaded t.file numEmbeddings (8 + t.length + t.weightOff) (8 + t.length + t.scaleOff)
      (backendRange numEmbeddings rank tpSize).1 (backendRange numEmbeddings rank tpSize).2 m.store := by
  obtain ⟨s₀, s₁, hopen, hrange, hattach⟩ := h.loaded
  have hs₁ := ranged_rankStore hopen hrange
  refine .packed hopen hrange hattach ?_
  have hrecords := (hshard.layout hs₁).2
  rwa [hs₁.rowLo_eq, hs₁.rowHi_eq] at hrecords

/-! ## A shard that was packed exactly is attached -/

/-- Nothing the system is asked for is refused. -/
structure InitIo.Answers (io : InitIo) : Prop where
  tableOpens : io.tableOpens = true
  tableStat : io.table.fstat = true
  shardOpens : io.shardOpens = true
  header : kPage ≤ io.got
  shardStat : io.fstat = true

theorem install_ok {u : Unit} (h : install env = .ok u) :
    env.offloadMode = some "nvme" ∧ env.cacheGib = some 0 ∧ env.residentScales = some "0" := by
  obtain ⟨_, hmode, h⟩ := except_bind_ok.mp h
  obtain ⟨hcache, hscales⟩ := demand_ok.mp h
  refine ⟨demand_ok.mp hmode, ?_, hscales⟩
  cases hgib : env.cacheGib with
  | none =>
    rw [hgib] at hcache
    exact absurd hcache (by decide)
  | some gib =>
    rw [hgib] at hcache
    exact congrArg some hcache

theorem rowBudget_zero (tpSize : Nat) (h : env.cacheGib = some 0) : rowBudget env tpSize = 0 := by
  unfold rowBudget
  simp [h]

theorem init_completes {u : Unit} (hinstall : install env = .ok u) (hdir : env.packedDir.getD "" ≠ "")
    (hio : io.Answers) (t : Tables json root layerId numEmbeddings) (howns : Owns t.span rank) {shard : Bytes}
    (hfile : dir (.shard layerId rank tp4) = some shard)
    (hshard : ShardOf t.file numEmbeddings (8 + t.length + t.weightOff) (8 + t.length + t.scaleOff) layerId
      rank tp4 shard) :
    ∃ m, init json root env dir io tp4 rank numEmbeddings 256 layerId = .ok m := by
  obtain ⟨hmode, hcache, hscales⟩ := install_ok hinstall
  have hbudget := rowBudget_zero tp4 hcache
  have hram : decide (env.offloadMode = some "ram") = false := by rw [hmode]; decide
  have hflag : envFlag env.residentScales true = false := by rw [hscales]; decide
  have hw : 8 + t.length + t.weightOff + numEmbeddings * 256 ≤ t.file.length := howns.weights_fit
  have hs : 8 + t.length + t.scaleOff + numEmbeddings * 8 ≤ t.file.length := howns.scales_fit
  have hlo : numEmbeddings * rank / tp4 ≤ numEmbeddings * (rank + 1) / tp4 := rank_lo_le_hi _ _ _
  have hhi : numEmbeddings * (rank + 1) / tp4 ≤ numEmbeddings := rank_hi_le _ howns.rank_lt
  -- the store as it is opened, without a cache, and then given its range
  let ways := max 1 (min 16 (Accounting.envU64 env.cacheWays 4))
  let s₀ : Store :=
    { fd := t.file, rows := numEmbeddings, weightOffset := 8 + t.length + t.weightOff,
      scaleOffset := 8 + t.length + t.scaleOff, slots := 0 * ways, rowLo := 0, rowHi := numEmbeddings,
      sets := 0, ways := ways, resident := none, scales := none, scalesSize := 0, packedFd := none }
  let s₁ : Store :=
    { s₀ with rowLo := numEmbeddings * rank / tp4, rowHi := numEmbeddings * (rank + 1) / tp4 }
  have hopen : rowStoreOpen io.table (some t.file) numEmbeddings (8 + t.length + t.weightOff)
      (8 + t.length + t.scaleOff) (rowBudget env tp4) (decide (env.offloadMode = some "ram"))
      (Accounting.envU64 env.cacheWays 4) = .ok (some s₀) := by
    rw [hbudget, hram]
    unfold rowStoreOpen
    dsimp only
    rw [if_neg, if_neg (by simp), if_neg (by simp)]
    · simp [s₀, ways]
    · rw [hio.tableStat]
      simp only [Bool.true_eq_false, false_or]
      omega
  have hrange : rowStoreRange s₀ (backendRange numEmbeddings rank tp4).1 (backendRange numEmbeddings rank tp4).2
      (envFlag env.residentScales true) io.pin = .ok s₁ := by
    rw [hflag]
    unfold rowStoreRange backendRange
    dsimp only
    rw [if_neg (not_or.mpr ⟨Nat.not_lt.mpr hlo, Nat.not_lt.mpr hhi⟩), if_neg (by simp [s₀]), if_neg (by simp)]
  have hattach : rowStoreAttachPacked s₁ (some shard) layerId io.got io.fstat =
      .ok (some { s₁ with packedFd := some shard }) := by
    rw [hio.shardStat]
    exact hshard.accepted (ranged_rankStore hopen hrange) hio.header
  refine ⟨⟨256, tp4, (backendRange numEmbeddings rank tp4).1,
    (backendRange numEmbeddings rank tp4).2 - (backendRange numEmbeddings rank tp4).1,
    { s₁ with packedFd := some shard }⟩, ?_⟩
  unfold init
  refine except_bind_ok.mpr ⟨(), demand_ok.mpr rfl, ?_⟩
  refine except_bind_ok.mpr ⟨(), demand_ok.mpr (by decide), ?_⟩
  refine except_bind_ok.mpr ⟨_, orRaise_ok.mpr t.index_eq, ?_⟩
  refine except_bind_ok.mpr ⟨_, orRaise_ok.mpr t.weight_name, ?_⟩
  refine except_bind_ok.mpr ⟨_, orRaise_ok.mpr t.scale_name, ?_⟩
  refine except_bind_ok.mpr ⟨(), demand_ok.mpr rfl, ?_⟩
  refine except_bind_ok.mpr ⟨_, orRaise_ok.mpr t.file_eq, ?_⟩
  refine except_bind_ok.mpr ⟨_, orRaise_ok.mpr t.header_eq, ?_⟩
  refine except_bind_ok.mpr ⟨_, orRaise_ok.mpr t.weight_eq, ?_⟩
  refine except_bind_ok.mpr ⟨_, orRaise_ok.mpr t.scale_eq, ?_⟩
  refine except_bind_ok.mpr ⟨(), demand_ok.mpr t.weight_shape, ?_⟩
  refine except_bind_ok.mpr ⟨(), demand_ok.mpr t.scale_shape, ?_⟩
  refine except_bind_ok.mpr ⟨_, orRaise_ok.mpr t.weight_off, ?_⟩
  refine except_bind_ok.mpr ⟨_, orRaise_ok.mpr t.scale_off, ?_⟩
  refine except_bind_ok.mpr ⟨_, mapError_ok.mpr (by rw [if_pos hio.tableOpens]; exact hopen), ?_⟩
  refine except_bind_ok.mpr ⟨_, orRaise_ok.mpr rfl, ?_⟩
  refine except_bind_ok.mpr ⟨_, mapError_ok.mpr hrange, ?_⟩
  refine except_bind_ok.mpr ⟨(), demand_ok.mpr hdir, ?_⟩
  refine except_bind_ok.mpr ⟨_, orRaise_ok.mpr hfile, ?_⟩
  refine except_bind_ok.mpr ⟨_, mapError_ok.mpr (by rw [if_pos hio.shardOpens]; exact hattach), ?_⟩
  refine except_bind_ok.mpr ⟨_, orRaise_ok.mpr rfl, ?_⟩
  exact except_bind_ok.mpr ⟨(), demand_ok.mpr ⟨rfl, by simp [Accounting.cacheBytes, s₁, s₀], rfl⟩, rfl⟩

end Init

/-! ## Lookups on a module's store -/

section Lookups
variable {s : Store} {pool : Bool}

/-- With a shard attached the checkpoint file is not read. -/
theorem readRow_packed {shard : Bytes} (hp : s.packedFd = some shard) (other : Bytes) (id : Nat)
    (got : Nat → Nat) : readRow { s with fd := other } id got = readRow s id got := by
  unfold readRow
  rw [hp]
  rfl

theorem lookups_ignore_checkpoint {shard : Bytes} (hp : s.packedFd = some shard) (other : Bytes) :
    lookups { s with fd := other } pool = lookups s pool := by
  have hserve : ∀ σ j sv w got, serveStep { s with fd := other } σ j sv w got = serveStep s σ j sv w got := by
    intro σ j sv w got
    unfold serveStep
    simp only [readRow_packed hp other]
    rfl
  unfold lookups
  simp only [hserve]

/-- What the caller of a lookup handed over. -/
structure SameCall (w w' : Work) : Prop where
  ids : w'.ids = w.ids
  weights : w'.weights₀ = w.weights₀
  scales : w'.scales₀ = w.scales₀

/-- The lookups of `σ` are still there in `σ'`. -/
def SameCalls (σ σ' : State) : Prop :=
  ∀ (k : Nat) (w : Work), σ.works[k]? = some w → ∃ w' : Work, σ'.works[k]? = some w' ∧ SameCall w w'

theorem SameCalls.trans {σ σ' σ'' : State} (h : SameCalls σ σ') (h' : SameCalls σ' σ'') : SameCalls σ σ'' := by
  intro k w hw
  obtain ⟨w', hw', hsame⟩ := h k w hw
  obtain ⟨w'', hw'', hsame'⟩ := h' k w' hw'
  exact ⟨w'', hw'', hsame'.ids.trans hsame.ids, hsame'.weights.trans hsame.weights,
    hsame'.scales.trans hsame.scales⟩

/-- A step of a thread changes no call. -/
theorem serveStep_calls {σ : State} {j : Nat} {sv : Server} {w : Work} {got : Nat → Nat}
    (hw : σ.works[sv.call.work]? = some w) : SameCalls σ (serveStep s σ j sv w got) := by
  have hstay : SameCalls σ σ := fun k x hx => ⟨x, hx, rfl, rfl, rfl⟩
  have hput : ∀ (k : Nat) (x : Work) weight scale, σ.works[k]? = some x → ∃ x' : Work,
      (σ.works.set sv.call.work (w.put sv.pos weight scale))[k]? = some x' ∧ SameCall x x' := by
    intro k x weight scale hx
    by_cases hk : sv.call.work = k
    · subst hk
      obtain rfl : w = x := Option.some.inj (hw.symm.trans hx)
      exact ⟨_, List.getElem?_set_self (List.getElem?_eq_some_iff.mp hw).1, rfl, rfl, rfl⟩
    · exact ⟨x, by rw [List.getElem?_set_ne hk, hx], rfl, rfl, rfl⟩
  unfold serveStep
  dsimp only
  cases sv.pc with
  | next =>
    dsimp only
    split
    · exact hstay
    split
    · exact fun k x hx => hput k x _ _ hx
    split
    · exact hstay
    · exact hstay
  | missed =>
    dsimp only
    split
    · exact hstay
    · exact hstay
  | filled row => exact hstay
  | copy row => exact fun k x hx => hput k x _ _ hx

/-- `σ'` is `σ` with its lookups further on. -/
def Further (s : Store) (pool : Bool) (σ σ' : State) : Prop :=
  (lookups s pool).Reachable σ' ∧ σ'.failed = none ∧ GoodIds s σ' ∧ SameCalls σ σ'

/-- A thread that has not finished can move, where the files deliver. -/
theorem Further.move {file : Bytes} {rows woff soff lo hi : Nat} (hs : Loaded file rows woff soff lo hi s)
    {σ σ' : State} (h : Further s pool σ σ') {sv : Server} (hsv : sv ∈ σ'.servers) (hne : sv.pos ≠ sv.call.stop) :
    ∃ l σ'', (lookups s pool).step σ' l σ'' ∧ Further s pool σ σ'' ∧ σ''.todo < σ'.todo := by
  obtain ⟨hσ, hf, hgood, hkeep⟩ := h
  obtain ⟨j, hj⟩ := List.getElem?_of_mem hsv
  have hl := hs.serves
  have hinv := (RowStore.inv_inductive hl.wf hl.serves pool).reachable σ' hσ
  obtain ⟨w, hw, hok⟩ := hinv.servers sv hsv
  have hpos : sv.pos < sv.call.stop := Nat.lt_of_le_of_ne hok.pos_le hne
  have hid : ¬BadId rows (w.id sv.pos) := by
    obtain ⟨w', hw', hstop, hids⟩ := hgood.servers sv hsv
    obtain rfl := Option.some.inj (hw.symm.trans hw')
    have hlt := Nat.lt_of_lt_of_le hpos hstop
    rw [Work.id, List.getD_eq_getElem _ _ hlt, ← hl.rows]
    exact hids _ (List.getElem_mem hlt)
  obtain ⟨σ'', hstep, hf', hlt⟩ := (lookup_refines_table hs hσ).2.2.2.2.2.2 hf j sv w hj hw hpos hid
    (fun _ => 8192) fun _ => Nat.le_refl _
  refine ⟨_, σ'', hstep, ⟨hσ.step hstep, hf', ?_⟩, hlt⟩
  obtain ⟨-, sv', w', hj', hw', hpos', rfl⟩ := hstep
  exact ⟨hgood.serve _ hj' hw' hpos', hkeep.trans (serveStep_calls hw')⟩

/-- The lookups in progress can all be carried to their end. -/
theorem lookups_drain {file : Bytes} {rows woff soff lo hi : Nat} (hs : Loaded file rows woff soff lo hi s)
    {σ : State} (hσ : (lookups s pool).Reachable σ) (hf : σ.failed = none)
    (hgood : ∀ w ∈ σ.works, ∀ id ∈ w.ids, ¬BadId rows id) :
    ∃ ls σ', (lookups s pool).Run σ ls σ' ∧ σ'.failed = none ∧ (∀ k, Returned σ' k) ∧ SameCalls σ σ' := by
  have hl := hs.serves
  have hinv := (RowStore.inv_inductive hl.wf hl.serves pool).reachable σ hσ
  have hstart : Further s pool σ σ := by
    refine ⟨hσ, hf, ⟨fun sv hsv => ?_, by rw [hf]; simp⟩, fun k w hw => ⟨w, hw, rfl, rfl, rfl⟩⟩
    obtain ⟨w, hw, hok⟩ := hinv.servers sv hsv
    exact ⟨w, hw, hok.stop_le, hl.rows ▸ hgood w (List.mem_of_getElem? hw)⟩
  have hmove : ∀ σ', Further s pool σ σ' → (∀ k, Returned σ' k) ∨
      ∃ ls σ'', (lookups s pool).Run σ' ls σ'' ∧ Further s pool σ σ'' ∧ σ''.todo < σ'.todo := by
    intro σ' hσ'
    by_cases hall : ∀ sv ∈ σ'.servers, sv.pos = sv.call.stop
    · exact .inl fun k sv hsv _ => hall sv hsv
    · push Not at hall
      obtain ⟨sv, hsv, hne⟩ := hall
      obtain ⟨l, σ'', hstep, hfurther, hlt⟩ := Further.move hs hσ' hsv hne
      exact .inr ⟨[l], σ'', .cons hstep (.nil _), hfurther, hlt⟩
  obtain ⟨ls, σ', hrun, ⟨-, hf', -, hkeep⟩, hdone⟩ := LTS.exists_run_of_lt State.todo hmove hstart
  exact ⟨ls, σ', hrun, hf', hdone, hkeep⟩

end Lookups

/-! ## Pack, start, look up -/

/-- **What is served is the checkpoint.** Four nodes, on each of them any runs of the
packing script, killed anywhere, after which the rank's manifest is there. A module then
comes up unless the system refuses it something; its store reads nothing of the
checkpoint; its lookups of good ids can always be carried to their end; and when all
four ranks have looked up the same ids, what the model is given are the checkpoint's
rows. -/
theorem packed_serving_exact {Dg : Type} [DecidableEq Dg] {sha256 : Bytes → Dg} {json : Json} {root : Root}
    {env : Env} {layer numEmbeddings : Nat} (t : Tables json root layer numEmbeddings)
    (hl : layer ∈ engramLayers) {d : Nat → OutDir Dg}
    (hreach : ∀ r, r < tp4 → (system sha256 (checkpoint json root)).Reachable (d r))
    (hmanifest : ∀ r, r < tp4 → (d r).text (.manifest r tp4) ≠ none) :
    (∀ r, Owns t.span r → install env = .ok () → env.packedDir.getD "" ≠ "" → ∀ io : InitIo, io.Answers →
      ∃ m, init json root env (d r).file io tp4 r numEmbeddings 256 layer = .ok m) ∧
    ∀ (io : Nat → InitIo) (dim : Nat) (m : Nat → Module),
      (∀ r, r < tp4 → init json root env (d r).file (io r) tp4 r numEmbeddings dim layer = .ok (m r)) →
      (∀ r, r < tp4 → ∀ (other : Bytes) (pool : Bool),
        lookups { (m r).store with fd := other } pool = lookups (m r).store pool) ∧
      (∀ r, r < tp4 → ∀ (pool : Bool) (σ : State), (lookups (m r).store pool).Reachable σ →
        σ.failed = none → (∀ w ∈ σ.works, ∀ id ∈ w.ids, ¬BadId numEmbeddings id) →
        ∃ ls σ', (lookups (m r).store pool).Run σ ls σ' ∧ σ'.failed = none ∧ (∀ k, Returned σ' k) ∧
          SameCalls σ σ') ∧
      ∀ (M : Type) [AddCommMonoid M] (deq : Bytes → Bytes → M) (gather : Gather Bytes Bytes M),
        GatherSpec deq gather →
        deq (List.replicate kWeightBytes 0) (List.replicate kScaleBytes 0) = 0 →
        ∀ (ids : List Int) (w : Nat → Work),
        (∀ r, r < tp4 → ∃ pool σ k, (lookups (m r).store pool).Reachable σ ∧ σ.works[k]? = some (w r) ∧
          Returned σ k ∧ (w r).ids = ids) →
        TpShard.lookup tp4 (fun r _ => nvmeOwned gather (w r)) ids =
          ids.map fun id =>
            deq (block t.file (t.span.weightOff + id.toNat * kWeightBytes) kWeightBytes)
              (block t.file (t.span.scaleOff + id.toNat * kScaleBytes) kScaleBytes) := by
  -- the rank's shard is exact
  have hexact : ∀ r, r < tp4 → ∃ shard, (d r).file (.shard layer r tp4) = some shard ∧
      ShardOf t.file numEmbeddings (8 + t.length + t.weightOff) (8 + t.length + t.scaleOff) layer r tp4 shard := by
    intro r hr
    obtain ⟨text, htext⟩ := Option.ne_none_iff_exists'.mp (hmanifest r hr)
    obtain ⟨span, shard, hspan, hfile, hshard⟩ := ((manifest_sound (hreach r hr) r).1 text htext).2 layer hl
    obtain rfl := Option.some.inj (t.tensorSpan_eq.symm.trans hspan)
    exact ⟨shard, hfile, hshard⟩
  refine ⟨fun r howns hinstall hdir io hio => ?_, fun io dim m hinit => ?_⟩
  · obtain ⟨shard, hfile, hshard⟩ := hexact r howns.rank_lt
    exact init_completes hinstall hdir hio t howns hfile hshard
  -- every module's store is loaded with its rank's rows
  have hloaded : ∀ r, r < tp4 → ∃ shard, (m r).store.packedFd = some shard ∧
      Loaded t.file numEmbeddings t.span.weightOff t.span.scaleOff (backendRange numEmbeddings r tp4).1
        (backendRange numEmbeddings r tp4).2 (m r).store := by
    intro r hr
    obtain ⟨shard, hfile, hshard⟩ := hexact r hr
    obtain ⟨t', shard', hstarted⟩ := init_tables (hinit r hr)
    have hspan : t'.span = t.span := Option.some.inj (t'.tensorSpan_eq.symm.trans t.tensorSpan_eq)
    obtain rfl := Option.some.inj (hfile.symm.trans hstarted.shard)
    obtain ⟨s₀, s₁, -, -, hattach⟩ := hstarted.loaded
    obtain ⟨sh, hsh, hstore, -⟩ := attach_spec hattach
    refine ⟨shard, by rw [hstore, Option.some.inj hsh], ?_⟩
    have hfields := Span.mk.inj hspan
    have hload := hstarted.exact (by rw [hfields.2.1, hfields.2.2.2.1, hfields.2.2.2.2]; exact hshard)
    rwa [hfields.2.1, hfields.2.2.2.1, hfields.2.2.2.2] at hload
  refine ⟨fun r hr other pool => ?_, fun r hr pool σ hσ hf hgood => ?_, ?_⟩
  · obtain ⟨shard, hpacked, -⟩ := hloaded r hr
    exact lookups_ignore_checkpoint hpacked other
  · obtain ⟨-, -, hload⟩ := hloaded r hr
    exact lookups_drain hload hσ hf hgood
  · intro M _ deq gather hg hzero ids w hw
    refine @nvme_lookup M _ deq gather hg hzero t.file numEmbeddings _ _ tp4 (by decide) ids w fun r hr => ?_
    obtain ⟨-, -, hload⟩ := hloaded r hr
    obtain ⟨pool, σ, k, hσ, hk, hret, hids⟩ := hw r hr
    exact ⟨⟨_, pool, σ, k, hload, hσ, hk, hret⟩, hids⟩

/-! ## Four rows on four nodes -/

/-- A gather by its contract. -/
def plainGather {W S M : Type*} [Zero M] (deq : W → S → M) : Gather W S M := fun {n} w s id range =>
  let lo := (range.getD (0, n)).1
  let hi := (range.getD (0, n)).2
  if h : (lo : Int) ≤ id ∧ id < hi ∧ id - lo < n then
    deq (w ⟨(id - lo).toNat, by omega⟩) (s ⟨(id - lo).toNat, by omega⟩)
  else 0

theorem plainGather_spec {W S M : Type*} [Zero M] (deq : W → S → M) : GatherSpec deq (plainGather deq) where
  all w s i := by simp [plainGather]
  owned w s lo i := by simp [plainGather]
  unowned w s lo hi id hout := dif_neg fun h => by simp only [Option.getD_some] at h; omega

/-- An empty header, then rows of 256 bytes, `r + 1` in row `r`, then the scales. -/
def fourFile : Bytes :=
  List.replicate 8 0 ++ (List.range 4).flatMap (fun r => List.replicate 256 (UInt8.ofNat (r + 1))) ++
    List.replicate 32 0

def fourRoot : Root := ⟨"/models", [], [], fun _ => some fourFile⟩

def fourInfo (name : String) : TensorInfo :=
  if name = embedName 1 "scale" ∨ name = embedName 14 "scale" then ⟨"F8_E8M0", [4, 8], [1024, 1056]⟩
  else ⟨"F8_E4M3", [4, 256], [0, 1024]⟩

def fourJson : Json where
  weightMap _ := some fun _ => some "model.safetensors"
  header _ := some fun name => some (fourInfo name)

def fourEnv : Env := ⟨some "nvme", some 0, some "0", none, some "/engram", none⟩

def fourIo : InitIo := ⟨true, ⟨true, true, true, true⟩, ⟨true, true, fun _ => 0⟩, true, 4096, true⟩

theorem fourFile_length : fourFile.length = 1064 := by
  rw [fourFile, List.length_append, List.length_append, List.length_replicate, List.length_replicate,
    flatMap_length_of_length _ fun _ _ => List.length_replicate, List.length_range]

theorem fourInfo_embed {layer : Nat} (hl : layer ∈ engramLayers) :
    fourInfo (embedName layer "weight") = ⟨"F8_E4M3", [4, 256], [0, 1024]⟩ ∧
      fourInfo (embedName layer "scale") = ⟨"F8_E8M0", [4, 8], [1024, 1056]⟩ := by
  simp only [engramLayers, List.mem_cons, List.not_mem_nil, or_false] at hl
  rcases hl with rfl | rfl
  · exact ⟨if_neg (by decide), if_pos (by decide)⟩
  · exact ⟨if_neg (by decide), if_pos (by decide)⟩

def fourTables {layer : Nat} (hl : layer ∈ engramLayers) : Tables fourJson fourRoot layer 4 where
  index _ := some "model.safetensors"
  name := "model.safetensors"
  file := fourFile
  length := 0
  header name := some (fourInfo name)
  weight := ⟨"F8_E4M3", [4, 256], [0, 1024]⟩
  scale := ⟨"F8_E8M0", [4, 8], [1024, 1056]⟩
  weightOff := 0
  scaleOff := 1024
  index_eq := rfl
  weight_name := rfl
  scale_name := rfl
  file_eq := rfl
  header_eq := if_neg (by rw [fourFile_length]; decide)
  weight_eq := congrArg some (fourInfo_embed hl).1
  scale_eq := congrArg some (fourInfo_embed hl).2
  weight_shape := ⟨rfl, rfl⟩
  scale_shape := ⟨rfl, rfl⟩
  weight_off := rfl
  scale_off := rfl

theorem fourTables_owns {layer rank : Nat} (hl : layer ∈ engramLayers) (h : rank < tp4) :
    Owns (fourTables hl).span rank where
  rank_lt := h
  rows_lt := by show 4 < 2 ^ 64; decide
  weights_fit := by show 8 + 0 + 0 + 4 * 256 ≤ fourFile.length; rw [fourFile_length]; decide
  scales_fit := by show 8 + 0 + 1024 + 4 * 8 ≤ fourFile.length; rw [fourFile_length]
  owned := by show 4 * rank / 4 < 4 * (rank + 1) / 4; omega

/-- The directory of rank `r`, after one run. -/
def fourDir (r : Nat) : OutDir Bytes :=
  ((⟨r, completeIo, fun _ => false⟩ : Run).exec id (checkpoint fourJson fourRoot) emptyDir).2.2

theorem fourDir_manifest {r : Nat} (hr : r < tp4) : (fourDir r).text (.manifest r tp4) ≠ none := by
  let span : Nat → Span := fun layer => if hl : layer ∈ engramLayers then (fourTables hl).span else ⟨"", [], 0, 0, 0⟩
  have hspan : ∀ layer (hl : layer ∈ engramLayers), span layer = (fourTables hl).span := fun layer hl => dif_pos hl
  have h : Unhindered (checkpoint fourJson fourRoot) r completeIo span := by
    refine completeIo_unhindered (fun layer hl => ?_) (fun layer hl => ?_) ?_
    · rw [hspan layer hl]
      exact (fourTables hl).tensorSpan_eq
    · rw [hspan layer hl]
      exact fourTables_owns hl hr
    · have hsize : ∀ layer ∈ engramLayers, expectedSize (span layer) r tp4 ≤ headerBytes + 4 * rowBytes := by
        intro layer hl
        rw [hspan layer hl]
        show headerBytes + (4 * (r + 1) / 4 - 4 * r / 4) * rowBytes ≤ _
        exact Nat.add_le_add_left (Nat.mul_le_mul_right _ (by omega)) _
      have hsum := List.sum_le_card_nsmul (engramLayers.map fun layer => expectedSize (span layer) r tp4)
        (headerBytes + 4 * rowBytes) (by simpa using hsize)
      exact Nat.le_trans (Nat.add_le_add_right hsum _) (by rw [List.length_map]; decide)
  have hrun := @unhindered_run Bytes id _ _ _ _ _ _ h ⟨emptyDir, [], rfl, .nil _⟩
  obtain ⟨u, hu⟩ := hrun.1.mpr (.inr fun _ _ => ⟨rfl, rfl⟩)
  exact (hrun.2 u hu).1.manifest

/-- Rows 3 and 0 of the table, as four ranks find them: one byte of each. -/
theorem four_nodes_serve : ∃ (m : Nat → Module) (w : Nat → Work),
    (∀ r, r < tp4 → init fourJson fourRoot fourEnv (fourDir r).file fourIo tp4 r 4 256 1 = .ok (m r)) ∧
    TpShard.lookup tp4 (fun r _ => nvmeOwned (plainGather fun (w _ : Bytes) => (w.headD 0).toNat) (w r)) [3, 0] =
      [4, 1] := by
  have hreach : ∀ r, r < tp4 → (system id (checkpoint fourJson fourRoot)).Reachable (fourDir r) := fun r _ =>
    ⟨emptyDir, [⟨r, completeIo, fun _ => false⟩], rfl, .cons rfl (.nil _)⟩
  obtain ⟨hstart, hserve⟩ := @packed_serving_exact Bytes _ id fourJson fourRoot fourEnv 1 4
    (fourTables (by decide)) (by decide) fourDir hreach fun r hr => fourDir_manifest hr
  have hm : ∀ r, ∃ m, r < tp4 → init fourJson fourRoot fourEnv (fourDir r).file fourIo tp4 r 4 256 1 = .ok m := by
    intro r
    by_cases hr : r < tp4
    · obtain ⟨m, hm⟩ := hstart r (fourTables_owns (by decide) hr) rfl (by decide) fourIo
        ⟨rfl, rfl, rfl, by decide, rfl⟩
      exact ⟨m, fun _ => hm⟩
    · exact ⟨⟨0, 0, 0, 0, rankStore fourTable 0⟩, fun h => absurd h hr⟩
  choose m hm using hm
  obtain ⟨-, hdrain, hexact⟩ := hserve (fun _ => fourIo) 256 m hm
  -- every rank looks the two ids up, serially
  let asked : State := RowStore.lookup false ⟨Cache.empty, [], [], none⟩ [3, 0] (fun _ => 0) fun _ => 0
  have hw : ∀ r, ∃ w : Work, r < tp4 → ∃ pool σ k, (lookups (m r).store pool).Reachable σ ∧
      σ.works[k]? = some w ∧ Returned σ k ∧ w.ids = [3, 0] := by
    intro r
    by_cases hr : r < tp4
    · have hasked : (lookups (m r).store false).Reachable asked :=
        ⟨_, [.lookup [3, 0] (fun _ => 0) fun _ => 0], rfl, .cons ⟨rfl, rfl⟩ (.nil _)⟩
      obtain ⟨ls, σ, hrun, -, hret, hkeep⟩ := hdrain r hr false asked hasked rfl (by
        intro w hw id hid
        obtain rfl := List.mem_singleton.mp hw
        have hid : id ∈ [(3 : Int), 0] := hid
        simp only [List.mem_cons, List.not_mem_nil, or_false] at hid
        unfold BadId
        omega)
      obtain ⟨w, hw, hsame⟩ := hkeep 0 _ rfl
      exact ⟨w, fun _ => ⟨false, σ, 0, hasked.run hrun, hw, hret 0, hsame.ids⟩⟩
    · exact ⟨⟨[], fun _ => 0, fun _ => 0, fun _ => 0, fun _ => 0⟩, fun h => absurd h hr⟩
  choose w hw using hw
  refine ⟨m, w, hm, ?_⟩
  rw [hexact Nat (fun w _ => (w.headD 0).toNat) _ (plainGather_spec _) (by decide) [3, 0] w hw]
  decide +kernel

end FlashSpark.L2.EngramBackend
