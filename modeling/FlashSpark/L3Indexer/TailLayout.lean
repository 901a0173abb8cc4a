import FlashSpark.Core.Buckets

/-!
# The context-parallel layout of the late-layer tail

The layers behind the last kv_source layer run over the last rows of each request only
(deepseek_v4_backend.py:875-913). Under context parallelism row `i` of the extend lives on
rank `i % cp_size`, at index `i / cp_size`, and `_late_layer_tail_cp_layout` (:1611-1675)
leaves the tail rows there, each rank's padded to the largest share.

* `lateLayerTailCpLayout`: the layout one rank builds. `late_layer_tail_layout`, which gives
  the tail's token indices, is not in the repository; `Extend.tokenIndices` is what it
  returns.
* `lateLayerTailCpLayout_spec`: what is in it.
* `cpTail_aligned`: gathered, selected and padded rows are those of the tail.
-/
namespace FlashSpark.L3.Tail

/-- An extend of `bs` requests: request `r` has `extendLens r` rows, the last `tailLens r`
of them in the tail. -/
structure Extend where
  bs : Nat
  extendLens : Nat → Nat
  tailLens : Nat → Nat
  tail_le : ∀ r, tailLens r ≤ extendLens r

/-- `InterleaveContextParallelMetadata`, as far as it is built here. -/
structure CpMetadata where
  perRankActualToken : List Nat
  maxRankLen : List Nat
  totalSeqLens : Nat
  bs : Nat
  perRankLogicalToken : List Nat
  gatherIndex : List Nat
  localIndex : List Nat
  deriving DecidableEq

/-- The dictionary `_late_layer_tail_cp_layout` returns. -/
structure CpTail where
  cpMetadata : CpMetadata
  localTokenIndices : List Nat
  localPositions : List Nat
  localLensCpu : List Nat
  padRows : Nat
  deriving DecidableEq

/-- `none` where an index is out of bounds or `max` has no argument. No difference below is
negative. `torch.empty_like` is a list of zeros, all of which are stored over.
mirrors deepseek_v4_backend.py:1611-1675 (`_late_layer_tail_cp_layout`) -/
def lateLayerTailCpLayout (cpRank cpSize bs : Nat) (positions tokenIndices : List Nat)
    (tailLens : Nat → Nat) : Option CpTail := do
  let total := tokenIndices.length
  let ownerRank := tokenIndices.map (· % cpSize)
  let counts := bincount ownerRank cpSize
  let maxLocal ← counts.max?
  let order := argsort ownerRank
  let rankStarts := (List.range cpSize).map fun r => (counts.take r).sum
  let starts ← gatherRows rankStarts (← gatherRows ownerRank order)
  let slot := indexPut (List.replicate total 0) order (List.zipWith (· - ·) (List.range total) starts)
  let gatherIndex := List.zipWith (fun owner slot => owner * maxLocal + slot) ownerRank slot
  let localTailRows := places ownerRank cpRank
  let padRows := maxLocal - (← counts[cpRank]?)
  -- distinct padding rows for each rank
  let padStart := total + ((counts.take cpRank).map (maxLocal - ·)).sum
  let tailRequestIds := repeatInterleave tailLens bs
  let localTokens ← gatherRows tokenIndices localTailRows
  let localPositions ← gatherRows positions localTokens
  let localRequests ← gatherRows tailRequestIds localTailRows
  return {
    cpMetadata := {
      perRankActualToken := List.replicate cpSize maxLocal
      maxRankLen := List.replicate cpSize maxLocal
      totalSeqLens := total
      bs
      perRankLogicalToken := counts
      gatherIndex
      localIndex := localTailRows ++ List.range' padStart padRows }
    localTokenIndices := localTokens.map fun token => (token - cpRank) / cpSize
    localPositions := localPositions ++ List.replicate padRows 0
    localLensCpu := bincount localRequests bs
    padRows }

namespace Extend
variable (E : Extend)

/-- The number of rows of the extend. -/
def numTokens : Nat := prefixSum E.extendLens E.bs

/-- The rows of request `r`. -/
def rows (r : Nat) : List Nat := List.range' (prefixSum E.extendLens r) (E.extendLens r)

/-- The last `tailLens r` of them. -/
def tail (r : Nat) : List Nat :=
  List.range' (prefixSum E.extendLens r + (E.extendLens r - E.tailLens r)) (E.tailLens r)

/-- The tail, request after request. -/
def tokenIndices : List Nat := (List.range E.bs).flatMap E.tail

/-- The tail rows of request `r` on a rank. -/
def localTail (rank cp r : Nat) : List Nat := (E.tail r).filter fun token => token % cp == rank

/-- The tail on a rank. -/
def localTokens (rank cp : Nat) : List Nat := (List.range E.bs).flatMap (E.localTail rank cp)

def ownerRank (cp : Nat) : List Nat := E.tokenIndices.map (· % cp)

/-- The number of tail rows on a rank. -/
def count (cp rank : Nat) : Nat := (E.ownerRank cp).count rank

/-- The largest share. -/
def maxLocal (cp : Nat) : Nat := ((List.range cp).map (E.count cp)).max?.getD 0

end Extend

variable {E : Extend} {rank cp r : Nat}

/-! ## Rows and ranks -/

theorem tail_length (r : Nat) : (E.tail r).length = E.tailLens r := List.length_range'

theorem tokenIndices_length : E.tokenIndices.length = prefixSum E.tailLens E.bs :=
  flatMap_range_length tail_length E.bs

theorem mem_tail {token : Nat} (h : token ∈ E.tail r) :
    prefixSum E.extendLens r ≤ token ∧ token < prefixSum E.extendLens (r + 1) := by
  obtain ⟨hlo, hhi⟩ := List.mem_range'_1.mp h
  have := E.tail_le r
  rw [prefixSum]
  omega

theorem lt_of_mem_tail {token : Nat} (hr : r < E.bs) (h : token ∈ E.tail r) : token < E.numTokens :=
  Nat.lt_of_lt_of_le (mem_tail h).2 (prefixSum_mono hr)

theorem lt_of_mem_tokenIndices {token : Nat} (h : token ∈ E.tokenIndices) : token < E.numTokens := by
  obtain ⟨r, hr, h⟩ := List.mem_flatMap.mp h
  exact lt_of_mem_tail (List.mem_range.mp hr) h

theorem localTokens_eq (rank cp : Nat) :
    E.localTokens rank cp = E.tokenIndices.filter fun token => token % cp == rank := by
  rw [Extend.tokenIndices, List.filter_flatMap]
  rfl

theorem mem_localTokens {token : Nat} (h : token ∈ E.localTokens rank cp) :
    token < E.numTokens ∧ token % cp = rank := by
  rw [localTokens_eq] at h
  obtain ⟨h, hrank⟩ := List.mem_filter.mp h
  exact ⟨lt_of_mem_tokenIndices h, beq_iff_eq.mp hrank⟩

theorem ownerRank_length : (E.ownerRank cp).length = E.tokenIndices.length := List.length_map ..

theorem ownerRank_lt (hcp : 0 < cp) : ∀ owner ∈ E.ownerRank cp, owner < cp := by
  intro owner h
  obtain ⟨token, -, rfl⟩ := List.mem_map.mp h
  exact Nat.mod_lt token hcp

theorem places_ownerRank_length (rank cp : Nat) : (places (E.ownerRank cp) rank).length = E.count cp rank :=
  places_length _ _

/-- The rows a rank owns, by their tokens. -/
theorem map_places_ownerRank (rank cp : Nat) {g : Nat → Nat}
    (hg : ∀ i, i < E.tokenIndices.length → E.tokenIndices[i]? = some (g i)) :
    (places (E.ownerRank cp) rank).map g = E.localTokens rank cp := by
  rw [localTokens_eq]
  exact map_places E.tokenIndices (· % cp) rank g hg

theorem lt_of_mem_places {i : Nat} (h : i ∈ places (E.ownerRank cp) rank) : i < E.tokenIndices.length := by
  rw [← ownerRank_length ]
  exact (List.getElem?_eq_some_iff.mp (mem_places.mp h)).1

theorem prefixSum_count_eq (hcp : 0 < cp) : prefixSum (E.count cp) cp = E.tokenIndices.length := by
  rw [← ownerRank_length]
  exact prefixSum_count (ownerRank_lt hcp)

theorem max?_counts (hcp : 0 < cp) : ((List.range cp).map (E.count cp)).max? = some (E.maxLocal cp) := by
  unfold Extend.maxLocal
  cases h : ((List.range cp).map (E.count cp)).max? with
  | none =>
    have hnil := congrArg List.length (List.max?_eq_none_iff.mp h)
    rw [List.length_map, List.length_range] at hnil
    exact absurd hnil (Nat.ne_of_gt hcp)
  | some m => rfl

theorem count_le_maxLocal (hcp : 0 < cp) (hr : r < cp) : E.count cp r ≤ E.maxLocal cp :=
  (List.max?_eq_some_iff.mp (max?_counts hcp)).2 _ (List.mem_map_of_mem (List.mem_range.mpr hr))

/-! ## Slots -/

namespace Extend
variable (E : Extend)

/-- `rank_starts[owner_rank[order]]`. -/
def starts (cp : Nat) : List Nat :=
  (argsort (E.ownerRank cp)).map fun i => prefixSum (E.count cp) ((E.ownerRank cp).getD i 0)

def slot (cp : Nat) : List Nat :=
  indexPut (List.replicate E.tokenIndices.length 0) (argsort (E.ownerRank cp))
    (List.zipWith (· - ·) (List.range E.tokenIndices.length) (E.starts cp))

def gatherIndex (cp : Nat) : List Nat :=
  List.zipWith (fun owner slot => owner * E.maxLocal cp + slot) (E.ownerRank cp) (E.slot cp)

end Extend

theorem slot_length (cp : Nat) : (E.slot cp).length = E.tokenIndices.length := by
  rw [Extend.slot, indexPut_length, List.length_replicate]

/-- The slot of a row is its rank among its owner's rows. -/
theorem slot_getElem? (hcp : 0 < cp) {s i : Nat} (hi : (places (E.ownerRank cp) r)[s]? = some i) :
    (E.slot cp)[i]? = some s := by
  have hs : s < (E.ownerRank cp).count r := by
    rw [← places_length]
    exact (List.getElem?_eq_some_iff.mp hi).1
  have hkey : (E.ownerRank cp)[i]? = some r := mem_places.mp (List.mem_of_getElem? hi)
  have hr : r < cp := ownerRank_lt hcp r (List.mem_of_getElem? hkey)
  have horder := argsort_getElem? (ownerRank_lt hcp) hr hs
  rw [hi] at horder
  have hm : prefixSum (E.count cp) r + s < E.tokenIndices.length := by
    rw [← prefixSum_count_eq hcp]
    have := prefixSum_le_of_lt (E.count cp) hr
    exact Nat.lt_of_lt_of_le (Nat.add_lt_add_left hs _) this
  have hstart : (E.starts cp)[prefixSum (E.count cp) r + s]? = some (prefixSum (E.count cp) r) := by
    rw [Extend.starts, List.getElem?_map]
    refine (congrArg (Option.map _) horder).trans ?_
    rw [Option.map_some, List.getD_eq_getElem?_getD, hkey]
    rfl
  refine indexPut_argsort (ownerRank_lt hcp) hi (by rw [List.length_replicate, ownerRank_length]) ?_
  have hvalue : (List.zipWith (· - ·) (List.range E.tokenIndices.length)
      (E.starts cp))[prefixSum (E.count cp) r + s]? = _ := List.getElem?_zipWith
  rw [List.getElem?_range hm, hstart] at hvalue
  refine hvalue.trans (congrArg some ?_)
  exact Nat.add_sub_cancel_left ..

theorem gatherIndex_getElem? (hcp : 0 < cp) {s i : Nat} (hi : (places (E.ownerRank cp) r)[s]? = some i) :
    (E.gatherIndex cp)[i]? = some (r * E.maxLocal cp + s) := by
  rw [Extend.gatherIndex, List.getElem?_zipWith, slot_getElem? hcp hi,
    mem_places.mp (List.mem_of_getElem? hi)]

theorem gatherIndex_length (cp : Nat) : (E.gatherIndex cp).length = E.tokenIndices.length := by
  rw [Extend.gatherIndex, List.length_zipWith, ownerRank_length, slot_length, Nat.min_self]

/-- Every tail row has a place among its owner's. -/
theorem exists_place (hcp : 0 < cp) {i : Nat} (hi : i < E.tokenIndices.length) :
    ∃ r s, r < cp ∧ s < E.maxLocal cp ∧ (places (E.ownerRank cp) r)[s]? = some i := by
  rw [← ownerRank_length ] at hi
  have hkey := List.getElem?_eq_getElem hi
  have hr := ownerRank_lt hcp _ (List.mem_of_getElem? hkey)
  obtain ⟨s, hs⟩ := List.mem_iff_getElem?.mp (mem_places.mpr hkey)
  refine ⟨_, s, hr, Nat.lt_of_lt_of_le ?_ (count_le_maxLocal hcp hr), hs⟩
  rw [← places_ownerRank_length]
  exact (List.getElem?_eq_some_iff.mp hs).1

/-! ## Requests -/

/-- The tail, each row with its request. -/
def Extend.tagged (E : Extend) : List (Nat × Nat) :=
  (List.range E.bs).flatMap fun r => (E.tail r).map fun token => (token, r)

theorem tagged_tokens (E : Extend) : E.tagged.map Prod.fst = E.tokenIndices := by
  rw [Extend.tagged, List.map_flatMap]
  refine List.flatMap_congr fun r _ => ?_
  simp [Function.comp_def]

theorem tagged_requests (E : Extend) : E.tagged.map Prod.snd = repeatInterleave E.tailLens E.bs := by
  rw [Extend.tagged, List.map_flatMap]
  refine List.flatMap_congr fun r _ => ?_
  simp [Function.comp_def, tail_length]

theorem tagged_length (E : Extend) : E.tagged.length = E.tokenIndices.length := by
  rw [← tagged_tokens, List.length_map]

/-- The requests of a rank's tail rows. -/
theorem map_requests (rank cp : Nat) {g : Nat → Nat}
    (hg : ∀ i, i < E.tokenIndices.length → (repeatInterleave E.tailLens E.bs)[i]? = some (g i)) :
    (places (E.ownerRank cp) rank).map g =
      repeatInterleave (fun r => (E.localTail rank cp r).length) E.bs := by
  have howner : E.ownerRank cp = E.tagged.map fun p => p.1 % cp := by
    rw [Extend.ownerRank, ← tagged_tokens, List.map_map]
    rfl
  have hrow : ∀ i, i < E.tagged.length → E.tagged[i]? = some (E.tokenIndices.getD i 0, g i) := by
    intro i hi
    have hg := hg i (tagged_length E ▸ hi)
    rw [← tagged_requests, List.getElem?_map] at hg
    obtain ⟨p, hp, hsnd⟩ := Option.map_eq_some_iff.mp hg
    rw [← tagged_tokens, List.getD_eq_getElem?_getD, List.getElem?_map, hp, ← hsnd]
    rfl
  have hmap := congrArg (List.map Prod.snd) (map_places E.tagged (fun p => p.1 % cp) rank _ hrow)
  rw [List.map_map, ← howner] at hmap
  refine hmap.trans ?_
  rw [Extend.tagged, List.filter_flatMap, List.map_flatMap]
  refine List.flatMap_congr fun r _ => ?_
  rw [List.filter_map, List.map_map]
  exact List.map_const'

/-! ## The layout -/

namespace Extend
variable (E : Extend)

/-- How far a rank's share is from the largest. -/
def pad (cp rank : Nat) : Nat := E.maxLocal cp - E.count cp rank

/-- The rows of the tail metadata that pad a rank's. -/
def padding (cp rank : Nat) : List Nat :=
  List.range' (E.tokenIndices.length + prefixSum (E.pad cp) rank) (E.pad cp rank)

/-- What a rank builds. -/
def cpTail (rank cp : Nat) (pos : Nat → Nat) : CpTail where
  cpMetadata := {
    perRankActualToken := List.replicate cp (E.maxLocal cp)
    maxRankLen := List.replicate cp (E.maxLocal cp)
    totalSeqLens := E.tokenIndices.length
    bs := E.bs
    perRankLogicalToken := (List.range cp).map (E.count cp)
    gatherIndex := E.gatherIndex cp
    localIndex := places (E.ownerRank cp) rank ++ E.padding cp rank }
  localTokenIndices := (E.localTokens rank cp).map fun token => (token - rank) / cp
  localPositions := (E.localTokens rank cp).map pos ++ List.replicate (E.pad cp rank) 0
  localLensCpu := (List.range E.bs).map fun r => (E.localTail rank cp r).length
  padRows := E.pad cp rank

end Extend

section Gathers
variable (rank cp)

theorem gather_owners : gatherRows (E.ownerRank cp) (argsort (E.ownerRank cp)) =
    some ((argsort (E.ownerRank cp)).map fun i => (E.ownerRank cp).getD i 0) :=
  gatherRows_some fun _ hi => getElem?_getD (List.mem_range.mp (List.mem_mergeSort.mp hi))

theorem gather_tokens :
    gatherRows E.tokenIndices (places (E.ownerRank cp) rank) = some (E.localTokens rank cp) := by
  rw [← map_places_ownerRank rank cp fun i hi => getElem?_getD (d := 0) hi]
  exact gatherRows_some fun i hi => getElem?_getD (lt_of_mem_places hi)

theorem gather_requests : gatherRows (repeatInterleave E.tailLens E.bs) (places (E.ownerRank cp) rank) =
    some (repeatInterleave (fun r => (E.localTail rank cp r).length) E.bs) := by
  have hlen : (repeatInterleave E.tailLens E.bs).length = E.tokenIndices.length := by
    rw [repeatInterleave_length, tokenIndices_length]
  rw [← map_requests rank cp fun i hi => getElem?_getD (d := 0) (by rw [hlen]; exact hi)]
  exact gatherRows_some fun i hi => getElem?_getD (by rw [hlen]; exact lt_of_mem_places hi)

theorem localLens_eq : bincount (repeatInterleave (fun r => (E.localTail rank cp r).length) E.bs) E.bs =
    (List.range E.bs).map fun r => (E.localTail rank cp r).length := by
  rw [bincount_eq fun r hr => ?_]
  · exact List.map_congr_left fun r hr => count_repeatInterleave (List.mem_range.mp hr)
  · obtain ⟨b, hb, hr⟩ := List.mem_flatMap.mp hr
    rw [List.eq_of_mem_replicate hr]
    exact List.mem_range.mp hb

end Gathers

theorem counts_eq (hcp : 0 < cp) : bincount (E.ownerRank cp) cp = (List.range cp).map (E.count cp) :=
  bincount_eq (ownerRank_lt hcp)

theorem gather_starts (hcp : 0 < cp) :
    gatherRows ((List.range cp).map fun r => (((List.range cp).map (E.count cp)).take r).sum)
      ((argsort (E.ownerRank cp)).map fun i => (E.ownerRank cp).getD i 0) = some (E.starts cp) := by
  refine gatherRows_map fun i hi => ?_
  have hi := getElem?_getD (d := 0) (List.mem_range.mp (List.mem_mergeSort.mp hi))
  have hlt := ownerRank_lt hcp _ (List.mem_of_getElem? hi)
  rw [List.getElem?_map, List.getElem?_range hlt]
  exact congrArg some (sum_take_map_range (E.count cp) (Nat.le_of_lt hlt))

theorem padStart_eq (hrank : rank < cp) :
    ((((List.range cp).map (E.count cp)).take rank).map (E.maxLocal cp - ·)).sum =
      prefixSum (E.pad cp) rank := by
  rw [← List.map_take, List.map_map, List.take_range, Nat.min_eq_left (Nat.le_of_lt hrank)]
  exact sum_map_range (E.pad cp) rank

/-- Every gather of the layout is in bounds. -/
theorem lateLayerTailCpLayout_spec (hcp : 0 < cp) (hrank : rank < cp) {positions : List Nat} {pos : Nat → Nat}
    (hpos : ∀ token, token < E.numTokens → positions[token]? = some (pos token)) :
    lateLayerTailCpLayout rank cp E.bs positions E.tokenIndices E.tailLens = some (E.cpTail rank cp pos) := by
  have howner : E.tokenIndices.map (· % cp) = E.ownerRank cp := rfl
  have hcount : ((List.range cp).map (E.count cp))[rank]? = some (E.count cp rank) := by
    rw [List.getElem?_map, List.getElem?_range hrank]
    rfl
  have hpositions : gatherRows positions (E.localTokens rank cp) = some ((E.localTokens rank cp).map pos) :=
    gatherRows_some fun token h => hpos token (mem_localTokens h).1
  unfold lateLayerTailCpLayout
  simp only [howner, counts_eq hcp, max?_counts hcp, gather_owners, gather_starts hcp, hcount, gather_tokens,
    hpositions, gather_requests, localLens_eq, padStart_eq hrank, Option.bind_eq_bind, Option.bind_some]
  rfl

/-! ## Alignment -/

theorem localTokens_getElem? {s i : Nat} (hi : (places (E.ownerRank cp) r)[s]? = some i) :
    (E.localTokens r cp)[s]? = E.tokenIndices[i]? := by
  have hlt := lt_of_mem_places (List.mem_of_getElem? hi)
  rw [← map_places_ownerRank r cp fun i hi => getElem?_getD (d := 0) hi, List.getElem?_map, hi,
    getElem?_getD hlt]
  rfl

/-- Rows of one place are one row. -/
theorem gatherIndex_inj (hcp : 0 < cp) {i j g : Nat} (hi : (E.gatherIndex cp)[i]? = some g)
    (hj : (E.gatherIndex cp)[j]? = some g) : i = j := by
  have hlt : ∀ {i}, (E.gatherIndex cp)[i]? = some g → i < E.tokenIndices.length := fun h => by
    rw [← gatherIndex_length cp]
    exact (List.getElem?_eq_some_iff.mp h).1
  obtain ⟨r, s, -, hs, hplace⟩ := exists_place hcp (hlt hi)
  obtain ⟨r', s', -, hs', hplace'⟩ := exists_place hcp (hlt hj)
  rw [gatherIndex_getElem? hcp hplace] at hi
  rw [gatherIndex_getElem? hcp hplace', ← hi] at hj
  obtain ⟨rfl, rfl⟩ := mul_add_inj hs' hs (Option.some_inj.mp hj)
  exact Option.some_inj.mp (hplace.symm.trans hplace')

theorem gatherIndex_lt (hcp : 0 < cp) {g : Nat} (hg : g ∈ E.gatherIndex cp) : g < cp * E.maxLocal cp := by
  obtain ⟨i, hi⟩ := List.mem_iff_getElem?.mp hg
  have hlt : i < E.tokenIndices.length := by
    rw [← gatherIndex_length cp]
    exact (List.getElem?_eq_some_iff.mp hi).1
  obtain ⟨r, s, hr, hs, hplace⟩ := exists_place hcp hlt
  rw [gatherIndex_getElem? hcp hplace] at hi
  cases hi
  calc r * E.maxLocal cp + s < (r + 1) * E.maxLocal cp := by rw [Nat.succ_mul]; omega
    _ ≤ cp * E.maxLocal cp := Nat.mul_le_mul_right _ hr

/-- The padded rows of all ranks, gathered, are the tail in order. -/
theorem gather_restores {α : Type} (hcp : 0 < cp) {value : Nat → α} {blocks : Nat → List α}
    (hblocks : ∀ r, r < cp → (blocks r).length = E.maxLocal cp ∧ (E.localTokens r cp).map value <+: blocks r) :
    gatherRows ((List.range cp).flatMap blocks) (E.gatherIndex cp) = some (E.tokenIndices.map value) := by
  refine gatherRows_of_getElem? (by rw [List.length_map, gatherIndex_length]) fun i g hg => ?_
  have hlt : i < E.tokenIndices.length := by
    rw [← gatherIndex_length cp]
    exact (List.getElem?_eq_some_iff.mp hg).1
  obtain ⟨r, s, hr, hs, hplace⟩ := exists_place hcp hlt
  rw [gatherIndex_getElem? hcp hplace] at hg
  cases hg
  have hlen : ∀ r ∈ List.range cp, (blocks r).length = E.maxLocal cp :=
    fun r hr => (hblocks r (List.mem_range.mp hr)).1
  rw [flatMap_getElem?_of_length (List.range cp) hlen hs, List.getElem?_range hr, Option.bind_some]
  have hrow : ((E.localTokens r cp).map value)[s]? = (E.tokenIndices.map value)[i]? := by
    rw [List.getElem?_map, List.getElem?_map, localTokens_getElem? hplace]
  have hlt' : s < ((E.localTokens r cp).map value).length := by
    refine (List.getElem?_eq_some_iff.mp (hrow.trans (List.getElem?_eq_getElem ?_))).1
    rw [List.length_map]
    exact hlt
  rw [← hrow, List.getElem?_eq_getElem hlt']
  exact List.prefix_iff_getElem?.mp (hblocks r hr).2 s hlt'

/-- A rank finds its tail rows among its rows of the extend. -/
theorem local_selects {α : Type} {value : Nat → α} {own : List α}
    (hown : ∀ i, i < E.numTokens → i % cp = rank → own[i / cp]? = some (value i)) :
    gatherRows own ((E.localTokens rank cp).map fun token => (token - rank) / cp) =
      some ((E.localTokens rank cp).map value) := by
  refine gatherRows_map fun token h => ?_
  obtain ⟨hlt, hrank⟩ := mem_localTokens h
  have hdiv : (token - rank) / cp = token / cp := by
    rw [← hrank, ← Nat.div_eq_sub_mod_div]
  rw [hdiv]
  exact hown token hlt hrank

theorem padding_ge {i : Nat} (h : i ∈ E.padding cp rank) : E.tokenIndices.length ≤ i := by
  have := (List.mem_range'_1.mp h).1
  omega

theorem padding_disjoint {rank' : Nat} (hne : rank ≠ rank') :
    (E.padding cp rank).Disjoint (E.padding cp rank') := by
  intro i h h'
  obtain ⟨hlo, hhi⟩ := List.mem_range'_1.mp h
  obtain ⟨hlo', hhi'⟩ := List.mem_range'_1.mp h'
  rcases Nat.lt_or_gt_of_ne hne with hlt | hlt
  · have := prefixSum_le_of_lt (E.pad cp) hlt
    omega
  · have := prefixSum_le_of_lt (E.pad cp) hlt
    omega

theorem padding_lt (hcp : 0 < cp) (hrank : rank < cp) {i : Nat} (h : i ∈ E.padding cp rank) :
    i < cp * E.maxLocal cp := by
  obtain ⟨-, hhi⟩ := List.mem_range'_1.mp h
  have hnext := prefixSum_le_of_lt (E.pad cp) hrank
  have hall := prefixSum_count_eq (E := E) hcp
  -- shares and paddings fill equal blocks
  have hfill : ∀ n, n ≤ cp → prefixSum (E.count cp) n + prefixSum (E.pad cp) n = n * E.maxLocal cp := by
    intro n
    induction n with
    | zero => intro _; simp [prefixSum]
    | succ n ih =>
      intro hn
      have hle := count_le_maxLocal (E := E) hcp hn
      have ih := ih (Nat.le_of_succ_le hn)
      rw [prefixSum, prefixSum, Extend.pad, Nat.succ_mul]
      omega
  have := hfill cp (Nat.le_refl cp)
  omega

/-- What the layouts of all ranks owe each other. -/
structure CpAligned (E : Extend) (cp : Nat) (layout : Nat → CpTail) : Prop where
  perRank : ∀ rank, rank < cp →
    (layout rank).cpMetadata.perRankActualToken = List.replicate cp (E.maxLocal cp)
  /-- `owner * max_local + slot` is a place of its own for each tail row. -/
  length : ∀ rank, rank < cp → (layout rank).cpMetadata.gatherIndex.length = E.tokenIndices.length
  injective : ∀ rank, rank < cp → (layout rank).cpMetadata.gatherIndex.Nodup
  bounded : ∀ rank, rank < cp → ∀ g ∈ (layout rank).cpMetadata.gatherIndex, g < cp * E.maxLocal cp
  /-- Each rank brings its tail rows, padded to the largest share. -/
  restores : ∀ {α : Type} (value : Nat → α) (blocks : Nat → List α),
    (∀ r, r < cp → (blocks r).length = E.maxLocal cp ∧ (E.localTokens r cp).map value <+: blocks r) →
    ∀ rank, rank < cp → gatherRows ((List.range cp).flatMap blocks) (layout rank).cpMetadata.gatherIndex =
      some (E.tokenIndices.map value)
  /-- Row `i` of the extend is row `i / cp` of its rank. -/
  selects : ∀ {α : Type} (value : Nat → α) (own : List α) rank, rank < cp →
    (∀ i, i < E.numTokens → i % cp = rank → own[i / cp]? = some (value i)) →
    gatherRows own (layout rank).localTokenIndices = some ((E.localTokens rank cp).map value)
  /-- A rank's rows of the tail metadata: its tail rows, and padding of its own. -/
  localIndex : ∀ rank, rank < cp →
    (layout rank).cpMetadata.localIndex = places (E.ownerRank cp) rank ++ E.padding cp rank
  padding_length : ∀ rank, rank < cp → (E.padding cp rank).length = (layout rank).padRows ∧
    E.count cp rank + (layout rank).padRows = E.maxLocal cp
  padding_nodup : ∀ rank, rank < cp → (E.padding cp rank).Nodup
  padding_disjoint : ∀ r r', r < cp → r' < cp → r ≠ r' → (E.padding cp r).Disjoint (E.padding cp r')
  padding_ge : ∀ rank, rank < cp → ∀ i ∈ E.padding cp rank,
    E.tokenIndices.length ≤ i ∧ i < cp * E.maxLocal cp

theorem cpTail_aligned (E : Extend) (hcp : 0 < cp) (pos : Nat → Nat) :
    CpAligned E cp fun rank => E.cpTail rank cp pos where
  perRank _ _ := rfl
  length _ _ := gatherIndex_length cp
  injective _ _ := by
    refine List.nodup_iff_getElem?_ne_getElem?.mpr fun i j hij hj he => ?_
    have hj := List.getElem?_eq_getElem hj
    exact absurd (gatherIndex_inj hcp (he.trans hj) hj) (Nat.ne_of_lt hij)
  bounded _ _ _ hg := gatherIndex_lt hcp hg
  restores _ _ hblocks _ _ := gather_restores hcp hblocks
  selects _ _ _ _ hown := local_selects hown
  localIndex _ _ := rfl
  padding_length rank hrank := by
    refine ⟨List.length_range', ?_⟩
    have := count_le_maxLocal (E := E) hcp hrank
    exact Nat.add_sub_cancel' this
  padding_nodup _ _ := List.nodup_range'
  padding_disjoint _ _ _ _ hne := padding_disjoint hne
  padding_ge _ hrank _ hi := ⟨padding_ge hi, padding_lt hcp hrank hi⟩

end FlashSpark.L3.Tail
