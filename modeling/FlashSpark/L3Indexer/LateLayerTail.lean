import FlashSpark.Core.Raise
import FlashSpark.L3Indexer.TailLayout

/-!
# Entering and leaving the late-layer tail

`enter_late_layer_tail` (deepseek_v4_backend.py:1677-1732) puts the tail's metadata in the
place of the extend's. What the layers before the switch left for the layers behind it is
cut to the tail rows: the candidate masks of each request, and the sparse index buffers of
each low ratio.

* `buildLateLayerTail`, `enterLateLayerTail`, `exitLateLayerTail`: the code.
* `enterLateLayerTail_ok`: what a switch does.
* `late_layer_tail_aligned`: all that is carried over is in the order of the tail, and
  leaving takes the switch back.
-/
namespace FlashSpark.L3.Tail

inductive Raised where
  | assertionError
  | attributeError
  | typeError
  | indexError
  | runtimeError
  deriving DecidableEq

/-- The fields `enter_late_layer_tail` and its callers read. -/
structure LateLayerTail where
  tokenIndices : List Nat
  positions : List Nat
  extendSeqLensCpu : List Nat
  contiguousStart : Option Nat
  padRows : Nat
  cpMetadata : Option CpMetadata
  localLensCpu : Option (List Nat)

/-- `none` where a row is out of bounds.
mirrors deepseek_v4_backend.py:908-913 (`_tail_rows`) -/
def tailRows {α : Type} (t : List α) (tokenIndices : List Nat) (contiguousStart : Option Nat) :
    Option (List α) :=
  match contiguousStart with
  | some start => some (t.drop start)
  | none => gatherRows t tokenIndices

namespace LateLayerTail

/-- mirrors deepseek_v4_backend.py:902-905 (`real_rows`) -/
def realRows {α : Type} (tail : LateLayerTail) (t : List α) : Option (List α) :=
  tailRows t tail.tokenIndices tail.contiguousStart

end LateLayerTail

/-- The rank and the number of ranks, under context parallelism. -/
abbrev Parallel := Option (Nat × Nat)

namespace Parallel

def rank (p : Parallel) : Nat := p.elim 0 Prod.fst

def size (p : Parallel) : Nat := p.elim 1 Prod.snd

structure Valid (p : Parallel) : Prop where
  size_pos : 0 < p.size
  rank_lt : p.rank < p.size

end Parallel

/-- The tail of a batch; its metadata's other fields are not modelled.
mirrors deepseek_v4_backend.py:1522-1609 (`_build_late_layer_tail_metadata`) -/
def buildLateLayerTail (p : Parallel) (E : Extend) (positions : List Nat) : Option LateLayerTail := do
  let tokenIndices := E.tokenIndices
  let tailLensCpu := (List.range E.bs).map E.tailLens
  let contiguousStart := if E.bs = 1 then some (E.extendLens 0 - E.tailLens 0) else none
  let tailPositions ← tailRows positions tokenIndices contiguousStart
  match p with
  | none => return {
      tokenIndices, positions := tailPositions, extendSeqLensCpu := tailLensCpu, contiguousStart
      padRows := 0, cpMetadata := none, localLensCpu := none }
  | some (cpRank, cpSize) =>
    let cpTail ← lateLayerTailCpLayout cpRank cpSize E.bs positions tokenIndices E.tailLens
    return {
      tokenIndices := cpTail.localTokenIndices, positions := cpTail.localPositions
      extendSeqLensCpu := tailLensCpu, contiguousStart := none, padRows := cpTail.padRows
      cpMetadata := some cpTail.cpMetadata, localLensCpu := some cpTail.localLensCpu }

/-! ## The backend -/

/-- `Literal[1, 2, 4]`. -/
inductive CompressRatio where
  | one
  | two
  | four
  deriving DecidableEq

inductive SparseBuffer where
  | pageIndices
  | topkLengths
  | rawIndices
  deriving DecidableEq

/-- `sparse` is `sparse_page_indices`, `sparse_topk_lengths` and `sparse_raw_indices`, a
row of `R` for each token. -/
structure CoreAttnMetadata (R W : Type) where
  lowRatios : List CompressRatio
  sparse : SparseBuffer → CompressRatio → Option (List R)
  requestWindowLayout : W

structure Metadata (R W : Type) where
  coreAttnMetadata : CoreAttnMetadata R W
  lateLayerTail : Option LateLayerTail

/-- `candidate_masks`: a mask for each request, or the one tensor of a decode batch. -/
inductive CandidateMasks (M : Type) where
  | null
  | tensor (mask : List M)
  | list (masks : List (List M))

/-- The backend, the forward batch and the buffer length of the rank. -/
structure Backend (R W M : Type) where
  forwardMetadata : Metadata R W
  tailForwardMetadata : Option (Metadata R W)
  candidateMasks : CandidateMasks M
  attnCpMetadata : Option CpMetadata
  localDpBufferLen : Option Nat
  /-- The layout the pool's request window has active, if it has a window. -/
  requestWindow : Option W

structure Saved (R W M : Type) where
  forwardMetadata : Metadata R W
  candidateMasks : CandidateMasks M
  attnCpMetadata : Option CpMetadata
  localDpBufferLen : Option Nat

variable {R W M : Type}

/-- `l[start:]`. -/
def sliceFrom {α : Type} (l : List α) (start : Int) : List α :=
  l.drop (if start < 0 then start + l.length else start).toNat

/-- mirrors deepseek_v4_backend.py:1695-1699 -/
def cutMasks (tailLensCpu : Option (List Nat)) : CandidateMasks M → Except Raised (CandidateMasks M)
  | .list (mask :: masks) =>
    match tailLensCpu with
    | none => .error .typeError
    | some lens =>
      .ok (.list (List.zipWith (fun mask (t : Nat) => sliceFrom mask ((mask.length : Int) - t))
        (mask :: masks) lens))
  | masks => .ok masks

/-- `buf[: rows.shape[0]].copy_(rows)`; one row is broadcast to none. -/
def copyHead {α : Type} (buf rows : List α) : Option (List α) :=
  if rows.length ≤ buf.length then some (rows ++ buf.drop rows.length)
  else if rows.length = 1 then some buf
  else none

def setSparse (core : CoreAttnMetadata R W) (buffer : SparseBuffer) (ratio : CompressRatio) (rows : List R) :
    CoreAttnMetadata R W :=
  { core with sparse := fun b r => if b = buffer ∧ r = ratio then some rows else core.sparse b r }

/-- One buffer of the tail's metadata.
mirrors deepseek_v4_backend.py:1720-1723 -/
def carry (tail : LateLayerTail) (fullCore : CoreAttnMetadata R W) (place : CompressRatio × SparseBuffer) :
    EStateM Raised (CoreAttnMetadata R W) Unit := do
  let tailCore ← get
  match fullCore.sparse place.2 place.1, tailCore.sparse place.2 place.1 with
  | some fullBuf, some tailBuf =>
    let rows ← unwrap (tail.realRows fullBuf) .indexError
    let tailBuf ← unwrap (copyHead tailBuf rows) .runtimeError
    set (setSparse tailCore place.2 place.1 tailBuf)
  | _, _ => pure ()

/-- `for ratio in tail_core.low_ratios`, for each of the three buffers. -/
def carried (lowRatios : List CompressRatio) : List (CompressRatio × SparseBuffer) :=
  lowRatios.flatMap fun ratio => [(ratio, .pageIndices), (ratio, .topkLengths), (ratio, .rawIndices)]

/-- mirrors deepseek_v4_backend.py:1677-1732 (`enter_late_layer_tail`) -/
def enterLateLayerTail : EStateM Raised (Backend R W M) (Saved R W M) := do
  let backend ← get
  let tailMetadata ← unwrap backend.tailForwardMetadata .assertionError
  let saved : Saved R W M :=
    ⟨backend.forwardMetadata, backend.candidateMasks, backend.attnCpMetadata, backend.localDpBufferLen⟩
  let tail ← unwrap tailMetadata.lateLayerTail .attributeError
  let tailLensCpu := if tail.cpMetadata.isSome then tail.localLensCpu else some tail.extendSeqLensCpu
  let candidateMasks ← perform (cutMasks tailLensCpu backend.candidateMasks)
  modify fun b => { b with candidateMasks }
  -- the copies are made in place, so they stay when a later one raises
  zoom (fun _ => tailMetadata.coreAttnMetadata)
    (fun core b => { b with tailForwardMetadata := some { tailMetadata with coreAttnMetadata := core } }) id
    (each (carried tailMetadata.coreAttnMetadata.lowRatios) (carry tail saved.forwardMetadata.coreAttnMetadata))
  modify fun b => { b with
    forwardMetadata := b.tailForwardMetadata.getD tailMetadata
    requestWindow := b.requestWindow.map fun _ => tailMetadata.coreAttnMetadata.requestWindowLayout }
  match tail.cpMetadata with
  | none => return saved
  | some cpMetadata =>
    modify fun b => { b with
      attnCpMetadata := some cpMetadata
      localDpBufferLen := some cpMetadata.perRankActualToken.sum }
    return saved

/-- mirrors deepseek_v4_backend.py:1734-1741 (`exit_late_layer_tail`) -/
def exitLateLayerTail (saved : Saved R W M) : EStateM Raised (Backend R W M) Unit :=
  modify fun b => { b with
    forwardMetadata := saved.forwardMetadata
    candidateMasks := saved.candidateMasks
    attnCpMetadata := saved.attnCpMetadata
    localDpBufferLen := saved.localDpBufferLen }

/-! ## The tail of a rank -/

variable {E : Extend} {p : Parallel} {positions : List Nat} {pos : Nat → Nat} {tail : LateLayerTail}

/-- Row `i` of the extend is row `i / size` of its rank. -/
def RankRows {α : Type} (E : Extend) (p : Parallel) (f : Nat → α) (own : List α) : Prop :=
  ∀ i, i < E.numTokens → i % p.size = p.rank → own[i / p.size]? = some (f i)

theorem localTail_one (E : Extend) (r : Nat) : E.localTail 0 1 r = E.tail r :=
  List.filter_eq_self.mpr fun token _ => beq_iff_eq.mpr (Nat.mod_one token)

theorem localTokens_one (E : Extend) : E.localTokens 0 1 = E.tokenIndices :=
  List.flatMap_congr fun r _ => localTail_one E r

/-- What a rank's tail is to the rows of its extend. -/
structure TailSpec (p : Parallel) (E : Extend) (positions : List Nat) (pos : Nat → Nat)
    (tail : LateLayerTail) : Prop where
  cpMetadata : tail.cpMetadata = p.map fun c => (E.cpTail c.1 c.2 pos).cpMetadata
  lens : (if tail.cpMetadata.isSome then tail.localLensCpu else some tail.extendSeqLensCpu) =
    some ((List.range E.bs).map fun r => (E.localTail p.rank p.size r).length)
  prefix_positions : (E.localTokens p.rank p.size).map pos <+: tail.positions
  realRows : ∀ {α : Type} {f : Nat → α} {full : List α}, (p = none → full.length = positions.length) →
    RankRows E p f full → ∃ rows, tail.realRows full = some rows ∧
      rows.length ≤ tail.positions.length ∧ (E.localTokens p.rank p.size).map f <+: rows

/-- One request's tail is the end of its extend. -/
theorem drop_tokenIndices {α : Type} {f : Nat → α} {full : List α} (hone : E.bs = 1)
    (hfull : ∀ i, i < E.numTokens → full[i]? = some (f i)) :
    E.tokenIndices.map f <+: full.drop (E.extendLens 0 - E.tailLens 0) := by
  have htokens : E.tokenIndices = List.range' (E.extendLens 0 - E.tailLens 0) (E.tailLens 0) := by
    rw [Extend.tokenIndices, hone, List.range_one, List.flatMap_singleton, Extend.tail, prefixSum, Nat.zero_add]
  refine List.prefix_iff_getElem?.mpr fun k hk => ?_
  rw [List.getElem_map, List.getElem?_drop]
  have hk' : k < E.tokenIndices.length := by rw [List.length_map] at hk; exact hk
  have htoken : E.tokenIndices[k] = E.extendLens 0 - E.tailLens 0 + k := by
    simp only [htokens, List.getElem_range', Nat.one_mul]
  rw [htoken]
  exact hfull _ (htoken ▸ lt_of_mem_tokenIndices (List.getElem_mem hk'))

theorem tailSpec_none (hpos : ∀ i, i < E.numTokens → positions[i]? = some (pos i)) :
    ∃ tail, buildLateLayerTail none E positions = some tail ∧ TailSpec none E positions pos tail := by
  have hlens : some ((List.range E.bs).map E.tailLens) =
      some ((List.range E.bs).map fun r => (E.localTail 0 1 r).length) :=
    congrArg some (List.map_congr_left fun r _ => by rw [localTail_one, tail_length])
  have hone : ∀ {α : Type} {f : Nat → α} {full : List α}, RankRows E none f full →
      ∀ i, i < E.numTokens → full[i]? = some (f i) := by
    intro α f full h i hi
    have := h i hi (Nat.mod_one i)
    rwa [Parallel.size, Option.elim_none, Nat.div_one] at this
  unfold buildLateLayerTail
  by_cases hbs : E.bs = 1
  · rw [if_pos hbs]
    refine ⟨_, rfl, rfl, hlens, ?_, fun hlen hfull => ⟨_, rfl, ?_, ?_⟩⟩
    · exact localTokens_one E ▸ drop_tokenIndices hbs hpos
    · rw [List.length_drop, List.length_drop, hlen rfl]
    · exact localTokens_one E ▸ drop_tokenIndices hbs (hone hfull)
  · rw [if_neg hbs]
    have hgather : ∀ {α : Type} {f : Nat → α} {full : List α}, (∀ i, i < E.numTokens → full[i]? = some (f i)) →
        gatherRows full E.tokenIndices = some (E.tokenIndices.map f) :=
      fun h => gatherRows_some fun i hi => h i (lt_of_mem_tokenIndices hi)
    have hrows : tailRows positions E.tokenIndices none = some (E.tokenIndices.map pos) := hgather hpos
    simp only [hrows, Option.bind_eq_bind, Option.bind_some]
    refine ⟨_, rfl, rfl, hlens, ?_, fun _ hfull => ⟨_, hgather (hone hfull), ?_, ?_⟩⟩
    · exact localTokens_one E ▸ List.prefix_refl _
    · rw [List.length_map, List.length_map]
    · exact localTokens_one E ▸ List.prefix_refl _

/-- The tail of a rank. -/
def Extend.rankTail (E : Extend) (rank cp : Nat) (pos : Nat → Nat) : LateLayerTail where
  tokenIndices := (E.cpTail rank cp pos).localTokenIndices
  positions := (E.cpTail rank cp pos).localPositions
  extendSeqLensCpu := (List.range E.bs).map E.tailLens
  contiguousStart := none
  padRows := (E.cpTail rank cp pos).padRows
  cpMetadata := some (E.cpTail rank cp pos).cpMetadata
  localLensCpu := some (E.cpTail rank cp pos).localLensCpu

theorem buildLateLayerTail_some {rank cp : Nat} (hcp : 0 < cp) (hrank : rank < cp)
    (hpos : ∀ i, i < E.numTokens → positions[i]? = some (pos i)) :
    buildLateLayerTail (some (rank, cp)) E positions = some (E.rankTail rank cp pos) := by
  have hrows : ∃ rows, tailRows positions E.tokenIndices
      (if E.bs = 1 then some (E.extendLens 0 - E.tailLens 0) else none) = some rows := by
    obtain ⟨tail, hbuild, -⟩ := tailSpec_none hpos
    unfold buildLateLayerTail at hbuild
    obtain ⟨rows, hrows, -⟩ := Option.bind_eq_some_iff.mp hbuild
    exact ⟨rows, hrows⟩
  obtain ⟨rows, hrows⟩ := hrows
  unfold buildLateLayerTail
  simp only [hrows, lateLayerTailCpLayout_spec hcp hrank hpos, Option.bind_eq_bind, Option.bind_some]
  rfl

theorem tailSpec_some (rank cp : Nat) :
    TailSpec (some (rank, cp)) E positions pos (E.rankTail rank cp pos) := by
  refine ⟨rfl, rfl, List.prefix_append _ _, fun _ hfull => ⟨_, local_selects hfull, ?_, List.prefix_refl _⟩⟩
  simp only [Extend.rankTail, Extend.cpTail, List.length_append, List.length_map]
  exact Nat.le_add_right _ _

theorem tailSpec (hp : p.Valid) (hpos : ∀ i, i < E.numTokens → positions[i]? = some (pos i)) :
    ∃ tail, buildLateLayerTail p E positions = some tail ∧ TailSpec p E positions pos tail := by
  cases p with
  | none => exact tailSpec_none hpos
  | some c => exact ⟨_, buildLateLayerTail_some hp.size_pos hp.rank_lt hpos, tailSpec_some c.1 c.2⟩

/-! ## Masks -/

/-- The rows of request `r` on a rank. -/
def Extend.localRows (E : Extend) (rank cp r : Nat) : List Nat :=
  (E.rows r).filter fun token => token % cp == rank

/-- A request's tail rows on a rank are the last of its rows there. -/
theorem localTail_suffix (E : Extend) (rank cp r : Nat) : E.localTail rank cp r <:+ E.localRows rank cp r := by
  have hsplit : E.rows r =
      List.range' (prefixSum E.extendLens r) (E.extendLens r - E.tailLens r) ++ E.tail r := by
    rw [Extend.rows, Extend.tail, List.range'_append_1, Nat.sub_add_cancel (E.tail_le r)]
  rw [Extend.localRows, hsplit, List.filter_append]
  exact List.suffix_append _ _

theorem sliceFrom_of_suffix {α : Type} {l l' : List α} (h : l' <:+ l) :
    sliceFrom l ((l.length : Int) - l'.length) = l' := by
  have hle := h.length_le
  rw [sliceFrom, if_neg (by omega)]
  rw [show ((l.length : Int) - l'.length).toNat = l.length - l'.length by omega]
  exact (List.suffix_iff_eq_drop.mp h).symm

theorem sliceFrom_nil {α : Type} (start : Int) : sliceFrom ([] : List α) start = [] := List.drop_nil

/-- The mask of request `r` has a row for each of its rows on the rank, or, where there was
nothing to choose from, none. -/
def Published (E : Extend) (p : Parallel) (g : Nat → M) (masks : List (List M)) : Prop :=
  masks.length = E.bs ∧
    ∀ r mask, masks[r]? = some mask → mask = [] ∨ mask = (E.localRows p.rank p.size r).map g

/-- A cut mask has a row for each of the request's tail rows on the rank. -/
def Cut (E : Extend) (p : Parallel) (g : Nat → M) (masks masks' : List (List M)) : Prop :=
  masks'.length = E.bs ∧ ∀ r mask, masks[r]? = some mask →
    (mask = [] → masks'[r]? = some []) ∧
    (mask = (E.localRows p.rank p.size r).map g → masks'[r]? = some ((E.localTail p.rank p.size r).map g))

theorem cutMasks_ok {g : Nat → M} {masks : List (List M)} (h : Published E p g masks) :
    ∃ masks', cutMasks (some ((List.range E.bs).map fun r => (E.localTail p.rank p.size r).length))
        (.list masks) = .ok (.list masks') ∧ Cut E p g masks masks' := by
  obtain ⟨hlen, -⟩ := h
  refine ⟨List.zipWith (fun mask (t : Nat) => sliceFrom mask ((mask.length : Int) - t)) masks
    ((List.range E.bs).map fun r => (E.localTail p.rank p.size r).length), ?_, ?_, fun r mask hmask => ?_⟩
  · cases masks with
    | nil => rfl
    | cons mask masks => rfl
  · rw [List.length_zipWith, hlen, List.length_map, List.length_range, Nat.min_self]
  · have hr : r < E.bs := hlen ▸ (List.getElem?_eq_some_iff.mp hmask).1
    rw [List.getElem?_zipWith, hmask, List.getElem?_map, List.getElem?_range hr]
    refine ⟨fun h => ?_, fun h => ?_⟩
    · rw [h]
      exact congrArg some (sliceFrom_nil _)
    · have hcut := sliceFrom_of_suffix ((localTail_suffix E p.rank p.size r).map g)
      have hlength : ((E.localTail p.rank p.size r).map g).length = (E.localTail p.rank p.size r).length :=
        List.length_map g
      rw [hlength] at hcut
      rw [h]
      exact congrArg some hcut

/-! ## Buffers -/

section Carry
variable {fullCore core : CoreAttnMetadata R W}

/-- A buffer after its copy. -/
def carriedOver (tail : LateLayerTail) (fullCore core : CoreAttnMetadata R W) (buffer : SparseBuffer)
    (ratio : CompressRatio) : Option (List R) :=
  match fullCore.sparse buffer ratio, core.sparse buffer ratio with
  | some fullBuf, some tailBuf =>
    let rows := (tail.realRows fullBuf).getD []
    some (rows ++ tailBuf.drop rows.length)
  | _, tailBuf => tailBuf

theorem carriedOver_some {buffer : SparseBuffer} {ratio : CompressRatio} {fullBuf tailBuf rows : List R}
    (hfull : fullCore.sparse buffer ratio = some fullBuf) (hcore : core.sparse buffer ratio = some tailBuf)
    (hrows : tail.realRows fullBuf = some rows) :
    carriedOver tail fullCore core buffer ratio = some (rows ++ tailBuf.drop rows.length) := by
  unfold carriedOver
  rw [hfull, hcore]
  dsimp only
  rw [hrows]
  rfl

/-- The tail's rows of every buffer are there, and fit into the tail's buffer. -/
def Fits (tail : LateLayerTail) (fullCore core : CoreAttnMetadata R W) : Prop :=
  ∀ buffer ratio fullBuf tailBuf, fullCore.sparse buffer ratio = some fullBuf →
    core.sparse buffer ratio = some tailBuf →
    ∃ rows, tail.realRows fullBuf = some rows ∧ rows.length ≤ tailBuf.length

/-- One turn of the loop. -/
theorem carry_ok (h : Fits tail fullCore core) (place : CompressRatio × SparseBuffer) :
    ∃ core', carry tail fullCore place core = .ok ⟨⟩ core' ∧
      core'.lowRatios = core.lowRatios ∧ core'.requestWindowLayout = core.requestWindowLayout ∧
      ∀ buffer ratio, core'.sparse buffer ratio = if buffer = place.2 ∧ ratio = place.1
        then carriedOver tail fullCore core buffer ratio else core.sparse buffer ratio := by
  obtain ⟨ratio₀, buffer₀⟩ := place
  unfold carry
  rw [bind_get]
  dsimp only
  cases hfull : fullCore.sparse buffer₀ ratio₀ with
  | none =>
    refine ⟨core, rfl, rfl, rfl, fun buffer ratio => ?_⟩
    split
    · rename_i hplace
      rw [hplace.1, hplace.2, carriedOver, hfull]
    · rfl
  | some fullBuf =>
    cases hcore : core.sparse buffer₀ ratio₀ with
    | none =>
      refine ⟨core, rfl, rfl, rfl, fun buffer ratio => ?_⟩
      split
      · rename_i hplace
        rw [hplace.1, hplace.2, carriedOver, hfull, hcore]
      · rfl
    | some tailBuf =>
      obtain ⟨rows, hrows, hle⟩ := h buffer₀ ratio₀ fullBuf tailBuf hfull hcore
      have hcopy : copyHead tailBuf rows = some (rows ++ tailBuf.drop rows.length) := if_pos hle
      dsimp only
      rw [bind_ok (unwrap_ok hrows), bind_ok (unwrap_ok hcopy)]
      refine ⟨_, rfl, rfl, rfl, fun buffer ratio => ?_⟩
      rw [setSparse]
      dsimp only
      split
      · rename_i hplace
        rw [hplace.1, hplace.2, carriedOver_some hfull hcore hrows]
      · rfl

/-- A second copy changes nothing. -/
theorem carriedOver_idem (h : Fits tail fullCore core) {core' : CoreAttnMetadata R W} {buffer : SparseBuffer}
    {ratio : CompressRatio} (hcore' : core'.sparse buffer ratio = carriedOver tail fullCore core buffer ratio) :
    carriedOver tail fullCore core' buffer ratio = carriedOver tail fullCore core buffer ratio := by
  cases hfull : fullCore.sparse buffer ratio with
  | none => rw [← hcore', carriedOver, hfull]
  | some fullBuf =>
    cases hcore : core.sparse buffer ratio with
    | none =>
      have hnone : carriedOver tail fullCore core buffer ratio = none := by rw [carriedOver, hfull, hcore]
      rw [hnone] at hcore' ⊢
      rw [carriedOver, hfull, hcore']
    | some tailBuf =>
      obtain ⟨rows, hrows, -⟩ := h buffer ratio fullBuf tailBuf hfull hcore
      have hsome := carriedOver_some hfull hcore hrows
      rw [hsome] at hcore' ⊢
      rw [carriedOver_some hfull hcore' hrows, List.drop_left]

theorem fits_carried (h : Fits tail fullCore core) {core' : CoreAttnMetadata R W}
    (hcore' : ∀ buffer ratio, core'.sparse buffer ratio = core.sparse buffer ratio ∨
      core'.sparse buffer ratio = carriedOver tail fullCore core buffer ratio) : Fits tail fullCore core' := by
  intro buffer ratio fullBuf tailBuf' hfull htail'
  rcases hcore' buffer ratio with hsame | hcarried
  · exact h buffer ratio fullBuf tailBuf' hfull (hsame ▸ htail')
  · cases hcore : core.sparse buffer ratio with
    | none =>
      rw [htail', carriedOver, hfull, hcore] at hcarried
      cases hcarried
    | some tailBuf =>
      obtain ⟨rows, hrows, hle⟩ := h buffer ratio fullBuf tailBuf hfull hcore
      rw [htail', carriedOver_some hfull hcore hrows] at hcarried
      cases hcarried
      refine ⟨rows, hrows, ?_⟩
      rw [List.length_append]
      exact Nat.le_add_right _ _

/-- The loop over the ratios. -/
theorem each_carry_ok (h : Fits tail fullCore core) (places : List (CompressRatio × SparseBuffer)) :
    ∃ core', each places (carry tail fullCore) core = .ok ⟨⟩ core' ∧
      core'.lowRatios = core.lowRatios ∧ core'.requestWindowLayout = core.requestWindowLayout ∧
      ∀ buffer ratio, core'.sparse buffer ratio = if (ratio, buffer) ∈ places
        then carriedOver tail fullCore core buffer ratio else core.sparse buffer ratio := by
  induction places generalizing core with
  | nil => exact ⟨core, rfl, rfl, rfl, fun _ _ => (if_neg List.not_mem_nil).symm⟩
  | cons place places ih =>
    obtain ⟨core₁, hstep, hlow₁, hwindow₁, hsparse₁⟩ := carry_ok h place
    have hfits : Fits tail fullCore core₁ := fits_carried h fun buffer ratio => by
      rw [hsparse₁]
      split
      · exact .inr rfl
      · exact .inl rfl
    obtain ⟨core₂, hrest, hlow₂, hwindow₂, hsparse₂⟩ := ih hfits
    refine ⟨core₂, (bind_ok hstep).trans hrest, hlow₂.trans hlow₁, hwindow₂.trans hwindow₁, ?_⟩
    intro buffer ratio
    rw [hsparse₂]
    by_cases hhead : buffer = place.2 ∧ ratio = place.1
    · -- carried over here, and perhaps again behind
      have hmem : (ratio, buffer) ∈ place :: places := List.mem_cons.mpr (.inl (by rw [hhead.1, hhead.2]))
      have h₁ := (hsparse₁ buffer ratio).trans (if_pos hhead)
      rw [if_pos hmem, carriedOver_idem h h₁, h₁, ite_self]
    · have h₁ := (hsparse₁ buffer ratio).trans (if_neg hhead)
      have hmem : (ratio, buffer) ∈ place :: places ↔ (ratio, buffer) ∈ places := by
        constructor
        · intro hm
          rcases List.mem_cons.mp hm with rfl | hm
          · exact absurd ⟨rfl, rfl⟩ hhead
          · exact hm
        · intro hm
          exact List.mem_cons_of_mem place hm
      have hover : carriedOver tail fullCore core₁ buffer ratio =
          carriedOver tail fullCore core buffer ratio := by
        rw [carriedOver, h₁, carriedOver]
      simp only [hmem, h₁, hover]

end Carry

/-! ## The switch -/

/-- What a switch does. -/
theorem enterLateLayerTail_ok {b : Backend R W M} {m : Metadata R W} {masks : CandidateMasks M}
    (hm : b.tailForwardMetadata = some m) (htail : m.lateLayerTail = some tail)
    (hmasks : cutMasks (if tail.cpMetadata.isSome then tail.localLensCpu else some tail.extendSeqLensCpu)
      b.candidateMasks = .ok masks)
    (hfits : Fits tail b.forwardMetadata.coreAttnMetadata m.coreAttnMetadata) :
    ∃ core, (∀ buffer ratio, core.sparse buffer ratio =
        if (ratio, buffer) ∈ carried m.coreAttnMetadata.lowRatios
        then carriedOver tail b.forwardMetadata.coreAttnMetadata m.coreAttnMetadata buffer ratio
        else m.coreAttnMetadata.sparse buffer ratio) ∧
      enterLateLayerTail b = .ok
        ⟨b.forwardMetadata, b.candidateMasks, b.attnCpMetadata, b.localDpBufferLen⟩
        { forwardMetadata := { m with coreAttnMetadata := core }
          tailForwardMetadata := some { m with coreAttnMetadata := core }
          candidateMasks := masks
          attnCpMetadata := tail.cpMetadata.elim b.attnCpMetadata some
          localDpBufferLen := tail.cpMetadata.elim b.localDpBufferLen fun c => some c.perRankActualToken.sum
          requestWindow := b.requestWindow.map fun _ => m.coreAttnMetadata.requestWindowLayout } := by
  obtain ⟨core, hloop, -, -, hsparse⟩ := each_carry_ok hfits (carried m.coreAttnMetadata.lowRatios)
  refine ⟨core, hsparse, ?_⟩
  unfold enterLateLayerTail
  rw [bind_get, bind_ok (unwrap_ok hm)]
  dsimp only
  rw [bind_ok (unwrap_ok htail), hmasks]
  refine (bind_ok rfl).trans ?_
  have hzoom : ∀ s : Backend R W M, zoom (fun _ => m.coreAttnMetadata)
      (fun core b => { b with tailForwardMetadata := some { m with coreAttnMetadata := core } }) id
      (each (carried m.coreAttnMetadata.lowRatios) (carry tail b.forwardMetadata.coreAttnMetadata)) s =
        .ok ⟨⟩ { s with tailForwardMetadata := some { m with coreAttnMetadata := core } } := by
    intro s
    simp only [zoom, hloop]
  rw [bind_modify, bind_ok (hzoom _), bind_modify]
  cases hcp : tail.cpMetadata with
  | none => rfl
  | some c => rfl

/-- A backend about to switch: the tail's metadata is built, with buffers of the tail's
size. Row `i` of the extend's buffers is `f buffer ratio i`, and that of a mask `g i`. -/
structure Ready (E : Extend) (p : Parallel) (positions : List Nat) (f : SparseBuffer → CompressRatio → Nat → R)
    (g : Nat → M) (b : Backend R W M) (m : Metadata R W) (tail : LateLayerTail) : Prop where
  tailForwardMetadata : b.tailForwardMetadata = some m
  lateLayerTail : m.lateLayerTail = some tail
  built : buildLateLayerTail p E positions = some tail
  rows : ∀ buffer ratio fullBuf, b.forwardMetadata.coreAttnMetadata.sparse buffer ratio = some fullBuf →
    (p = none → fullBuf.length = positions.length) ∧ RankRows E p (f buffer ratio) fullBuf
  sized : ∀ buffer ratio tailBuf, m.coreAttnMetadata.sparse buffer ratio = some tailBuf →
    tailBuf.length = tail.positions.length
  masks : ∀ masks, b.candidateMasks = .list masks → Published E p g masks

/-- Positions, buffers and masks of a rank are in one order: its tail tokens, request after
request. -/
structure Switched (E : Extend) (p : Parallel) (pos : Nat → Nat) (f : SparseBuffer → CompressRatio → Nat → R)
    (g : Nat → M) (b b' : Backend R W M) (m : Metadata R W) (tail : LateLayerTail) : Prop where
  lateLayerTail : b'.forwardMetadata.lateLayerTail = some tail
  tailPositions : (E.localTokens p.rank p.size).map pos <+: tail.positions
  buffers : ∀ ratio ∈ m.coreAttnMetadata.lowRatios, ∀ buffer fullBuf tailBuf,
    b.forwardMetadata.coreAttnMetadata.sparse buffer ratio = some fullBuf →
    m.coreAttnMetadata.sparse buffer ratio = some tailBuf →
    ∃ tailBuf', b'.forwardMetadata.coreAttnMetadata.sparse buffer ratio = some tailBuf' ∧
      (E.localTokens p.rank p.size).map (f buffer ratio) <+: tailBuf'
  masks : ∀ masks, b.candidateMasks = .list masks →
    ∃ masks', b'.candidateMasks = .list masks' ∧ Cut E p g masks masks'
  cpMetadata : b'.attnCpMetadata = tail.cpMetadata.elim b.attnCpMetadata some

theorem mem_carried {lowRatios : List CompressRatio} {ratio : CompressRatio} (h : ratio ∈ lowRatios)
    (buffer : SparseBuffer) : (ratio, buffer) ∈ carried lowRatios := by
  refine List.mem_flatMap.mpr ⟨ratio, h, ?_⟩
  cases buffer with
  | pageIndices => exact List.mem_cons_self
  | topkLengths => exact List.mem_cons_of_mem _ List.mem_cons_self
  | rawIndices => exact List.mem_cons_of_mem _ (List.mem_cons_of_mem _ List.mem_cons_self)

theorem enter_switched {f : SparseBuffer → CompressRatio → Nat → R} {g : Nat → M} {b : Backend R W M}
    {m : Metadata R W} (hspec : TailSpec p E positions pos tail) (h : Ready E p positions f g b m tail) :
    ∃ b', enterLateLayerTail b =
        .ok ⟨b.forwardMetadata, b.candidateMasks, b.attnCpMetadata, b.localDpBufferLen⟩ b' ∧
      Switched E p pos f g b b' m tail := by
  have hfits : Fits tail b.forwardMetadata.coreAttnMetadata m.coreAttnMetadata := by
    intro buffer ratio fullBuf tailBuf hfull htailBuf
    obtain ⟨hlen, hrows⟩ := h.rows buffer ratio fullBuf hfull
    obtain ⟨rows, hreal, hle, -⟩ := hspec.realRows hlen hrows
    exact ⟨rows, hreal, (h.sized buffer ratio tailBuf htailBuf).symm ▸ hle⟩
  have hmasks : ∃ masks', cutMasks
      (if tail.cpMetadata.isSome then tail.localLensCpu else some tail.extendSeqLensCpu) b.candidateMasks =
        .ok masks' ∧ ∀ masks, b.candidateMasks = .list masks →
          ∃ cut, masks' = .list cut ∧ Cut E p g masks cut := by
    rw [hspec.lens]
    cases hb : b.candidateMasks with
    | null => exact ⟨_, rfl, fun _ he => nomatch he⟩
    | tensor mask => exact ⟨_, rfl, fun _ he => nomatch he⟩
    | list masks =>
      obtain ⟨cut, hcut, hrows⟩ := cutMasks_ok (h.masks masks hb)
      refine ⟨_, hcut, fun masks' he => ?_⟩
      cases he
      exact ⟨cut, rfl, hrows⟩
  obtain ⟨masks', hcut, hmasks⟩ := hmasks
  obtain ⟨core, hsparse, henter⟩ := enterLateLayerTail_ok h.tailForwardMetadata h.lateLayerTail hcut hfits
  refine ⟨_, henter, h.lateLayerTail, hspec.prefix_positions, ?_, hmasks, rfl⟩
  intro ratio hratio buffer fullBuf tailBuf hfull htailBuf
  obtain ⟨hlen, hrows⟩ := h.rows buffer ratio fullBuf hfull
  obtain ⟨rows, hreal, -, hprefix⟩ := hspec.realRows hlen hrows
  refine ⟨rows ++ tailBuf.drop rows.length, ?_, hprefix.trans (List.prefix_append _ _)⟩
  dsimp only
  rw [hsparse, if_pos (mem_carried hratio buffer), carriedOver_some hfull htailBuf hreal]

/-- **The tail is aligned.** The layouts of all ranks fit; after the switch every per-token
structure is in the order of the tail's positions; and whatever the layers behind the switch
did, leaving it puts back what was there before. -/
theorem late_layer_tail_aligned (E : Extend) {positions : List Nat} {pos : Nat → Nat}
    (hpos : ∀ i, i < E.numTokens → positions[i]? = some (pos i)) :
    (∀ cp, 0 < cp → ∃ layout, (∀ rank, rank < cp →
        lateLayerTailCpLayout rank cp E.bs positions E.tokenIndices E.tailLens = some (layout rank)) ∧
      CpAligned E cp layout) ∧
    ∀ p : Parallel, p.Valid → (∃ tail, buildLateLayerTail p E positions = some tail) ∧
      ∀ (f : SparseBuffer → CompressRatio → Nat → R) (g : Nat → M) (b : Backend R W M) m tail,
        Ready E p positions f g b m tail →
        ∃ saved b', enterLateLayerTail b = .ok saved b' ∧ Switched E p pos f g b b' m tail ∧
          ∀ b'', exitLateLayerTail saved b'' = .ok ⟨⟩ { b'' with
            forwardMetadata := b.forwardMetadata
            candidateMasks := b.candidateMasks
            attnCpMetadata := b.attnCpMetadata
            localDpBufferLen := b.localDpBufferLen } := by
  refine ⟨fun cp hcp => ⟨fun rank => E.cpTail rank cp pos, fun rank hrank =>
    lateLayerTailCpLayout_spec hcp hrank hpos, cpTail_aligned E hcp pos⟩, fun p hp => ?_⟩
  obtain ⟨tail₀, hbuild, hspec⟩ := tailSpec hp hpos
  refine ⟨⟨tail₀, hbuild⟩, fun f g b m tail h => ?_⟩
  obtain rfl := Option.some_inj.mp (hbuild.symm.trans h.built)
  obtain ⟨b', henter, hswitched⟩ := enter_switched hspec h
  exact ⟨_, b', henter, hswitched, fun _ => rfl⟩

/-! Three rows and two on two ranks; the tail's last row is the only one of its request, and
not on rank 1. -/

def uneven : Extend where
  bs := 2
  extendLens r := [3, 2].getD r 0
  tailLens r := [2, 1].getD r 0
  tail_le r := match r with
    | 0 => by decide
    | 1 => by decide
    | _ + 2 => Nat.le_refl 0

def unevenTail : Metadata Nat Unit where
  coreAttnMetadata := {
    lowRatios := [.two]
    sparse := fun buffer ratio => if buffer = .pageIndices ∧ ratio = .two then some [7, 7] else none
    requestWindowLayout := () }
  lateLayerTail := some (uneven.rankTail 1 2 fun i => [0, 1, 2, 0, 1].getD i 0)

def beforeSwitch : Backend Nat Unit Nat where
  forwardMetadata := {
    coreAttnMetadata := {
      lowRatios := [.two]
      sparse := fun buffer ratio => if buffer = .pageIndices ∧ ratio = .two then some [10, 30] else none
      requestWindowLayout := () }
    lateLayerTail := none }
  tailForwardMetadata := some unevenTail
  candidateMasks := .list [[1], [3]]
  attnCpMetadata := none
  localDpBufferLen := none
  requestWindow := none

theorem uneven_positions :
    ∀ i, i < uneven.numTokens → [0, 1, 2, 0, 1][i]? = some ([0, 1, 2, 0, 1].getD i 0) := by
  decide

theorem beforeSwitch_ready : Ready uneven (some (1, 2)) [0, 1, 2, 0, 1] (fun _ _ i => 10 * i) id beforeSwitch
    unevenTail (uneven.rankTail 1 2 fun i => [0, 1, 2, 0, 1].getD i 0) where
  tailForwardMetadata := rfl
  lateLayerTail := rfl
  built := buildLateLayerTail_some (by decide) (by decide) uneven_positions
  rows buffer ratio fullBuf h := by
    obtain ⟨-, h⟩ := Option.ite_none_right_eq_some.mp h
    cases h
    refine ⟨fun h => (nomatch h), ?_⟩
    unfold RankRows
    decide
  sized buffer ratio tailBuf h := by
    obtain ⟨-, h⟩ := Option.ite_none_right_eq_some.mp h
    cases h
    decide
  masks masks h := by
    cases h
    refine ⟨rfl, fun r mask h => ?_⟩
    match r with
    | 0 => cases h; exact .inr (by decide)
    | 1 => cases h; exact .inr (by decide)
    | _ + 2 => cases h

theorem uneven_aligned :
    (∃ layout, (∀ rank, rank < 2 → lateLayerTailCpLayout rank 2 2 [0, 1, 2, 0, 1] uneven.tokenIndices
        uneven.tailLens = some (layout rank)) ∧ CpAligned uneven 2 layout) ∧
      ∃ saved b', enterLateLayerTail beforeSwitch = .ok saved b' ∧
        Switched uneven (some (1, 2)) (fun i => [0, 1, 2, 0, 1].getD i 0) (fun _ _ i => 10 * i) id
          beforeSwitch b' unevenTail (uneven.rankTail 1 2 fun i => [0, 1, 2, 0, 1].getD i 0) := by
  obtain ⟨hlayout, hswitch⟩ := @late_layer_tail_aligned Nat Unit Nat uneven _ _ uneven_positions
  obtain ⟨-, hswitch⟩ := hswitch (some (1, 2)) ⟨by decide, by decide⟩
  obtain ⟨saved, b', henter, hswitched, -⟩ := hswitch _ _ _ _ _ beforeSwitch_ready
  exact ⟨hlayout 2 (by decide), saved, b', henter, hswitched⟩

end FlashSpark.L3.Tail
