import FlashSpark.Core.Ragged
import FlashSpark.Core.Tensor
import FlashSpark.L3Indexer.Scores

/-!
# The dense prefill indexer

`_low_ratio_index_topk_dense` (deepseek_v4_backend.py:3139-3226) over the rows of
several requests, laid out one request after the other. The compressed positions of
the requests are laid end to end as well, requests that have none left out; scores are
in local columns, selections in global ones.

* `slotLoop`: where each request starts, and the slots of all of them.
* `publishOrConsume`: the published masks, or the scores under them.
* `RowOk`, `RowOk.sorted`: what becomes of a row of selections.
* `dense_rows_own_request`: a row selects positions of its own request only.
-/
namespace FlashSpark.L3.Indexer

/-- `req_to_token`, an int32 table of token slots. -/
structure ReqToToken where
  slot : Nat → Nat → Nat
  fits : ∀ r p, slot r p < 2 ^ 31

/-- The rows of a call, `qLens b` of request `b` after those of the requests before it. -/
structure DenseBatch where
  n : Nat
  seqLens : Nat → Nat
  qLens : Nat → Nat
  reqPoolIndices : Nat → Nat
  pos : Nat → Nat
  /-- A request's rows are among its positions. -/
  pos_lt : ∀ b i, b < n → i < qLens b → pos (prefixSum qLens b + i) < seqLens b

def DenseBatch.numTokens (B : DenseBatch) : Nat := prefixSum B.qLens B.n

structure IndexerConfig where
  isCandidateSource : Bool
  usesCandidates : Bool
  indexTopk : Nat

/-- A layer that reads the published masks. -/
def IndexerConfig.consumes (I : IndexerConfig) : Bool := I.usesCandidates && !I.isCandidateSource

/-- A mask of one request's rows, by row and compressed position. -/
abbrev Mask := Nat → Nat → Bool

def emptyMask : Mask := fun _ _ => false

/-! ## Slots -/

structure SlotState where
  starts : List Nat
  chunks : List (List Nat)
  start : Nat

/-- mirrors deepseek_v4_backend.py:3164-3174 -/
def slotLoop (lc : Nat → Nat) (chunk : Nat → List Nat) : Nat → SlotState
  | 0 => ⟨[], [], 0⟩
  | r + 1 =>
    let s := slotLoop lc chunk r
    if lc r = 0 then { s with starts := s.starts ++ [s.start] }
    else ⟨s.starts ++ [s.start], s.chunks ++ [chunk r], s.start + lc r⟩

/-- mirrors deepseek_v4_backend.py:3170-3173 -/
def slotChunk (B : DenseBatch) (T : ReqToToken) (ratio r : Nat) : List Nat :=
  (List.range (B.seqLens r / ratio)).map fun j => T.slot (B.reqPoolIndices r) (j * ratio) / ratio

theorem slotChunk_length {B : DenseBatch} {T : ReqToToken} {ratio : Nat} (r : Nat) :
    (slotChunk B T ratio r).length = B.seqLens r / ratio := by
  rw [slotChunk, List.length_map, List.length_range]

theorem slotLoop_spec (lc : Nat → Nat) {chunk : Nat → List Nat} (hchunk : ∀ r, (chunk r).length = lc r)
    (n : Nat) :
    (slotLoop lc chunk n).start = prefixSum lc n ∧
      (slotLoop lc chunk n).starts = (List.range n).map (prefixSum lc) ∧
      (slotLoop lc chunk n).chunks.flatten = (List.range n).flatMap chunk ∧
      ((slotLoop lc chunk n).chunks = [] ↔ ∀ r, r < n → lc r = 0) := by
  induction n with
  | zero => exact ⟨rfl, rfl, rfl, by simp [slotLoop]⟩
  | succ n ih =>
    obtain ⟨hstart, hstarts, hflat, hnil⟩ := ih
    rw [slotLoop]
    split
    · rename_i h0
      have hempty : chunk n = [] := List.length_eq_zero_iff.mp ((hchunk n).trans h0)
      refine ⟨by rw [hstart, prefixSum, h0, Nat.add_zero], ?_, ?_, ?_⟩
      · rw [hstarts, hstart, List.range_succ, List.map_append]; rfl
      · rw [hflat, List.range_succ, List.flatMap_append]; simp [hempty]
      · rw [hnil]
        exact ⟨fun h r hr => by
          rcases Nat.lt_succ_iff_lt_or_eq.mp hr with hr | rfl
          · exact h r hr
          · exact h0, fun h r hr => h r (by omega)⟩
    · rename_i h0
      refine ⟨by rw [hstart, prefixSum], ?_, ?_, ?_⟩
      · rw [hstarts, hstart, List.range_succ, List.map_append]; rfl
      · rw [List.flatten_append, hflat, List.range_succ, List.flatMap_append]; simp
      · exact ⟨fun h => absurd h (by simp), fun h => absurd (h n (Nat.lt_succ_self n)) h0⟩

/-! ## Candidates -/

variable {F : Type} [LinearOrder F] [BoundedOrder F]

/-- One request's turn in the loop: the scores so far and the masks published so far.
`select` is `select_candidate_blocks` of some rows, with their number.
mirrors deepseek_v4_backend.py:3236-3260 -/
def candidateTurn (I : IndexerConfig) (B : DenseBatch) (ratio : Nat) (compressLens : Nat → Int)
    (select : (Nat → Nat → Score F) → (Nat → Int) → Nat → Mask) (candidateMasks : List Mask) (b : Nat)
    (scores : Nat → Nat → Score F) (publish : List Mask) : Option ((Nat → Nat → Score F) × List Mask) :=
  let lc := B.seqLens b / ratio
  let tLen := B.qLens b
  let tokStart := prefixSum B.qLens b
  let inRows t := tokStart ≤ t ∧ t < tokStart + tLen
  if lc = 0 ∨ tLen = 0 then some (scores, if I.isCandidateSource then publish ++ [emptyMask] else publish)
  else if I.isCandidateSource = false then do
    let mask ← candidateMasks[b]?
    pure (fun t j => if inRows t ∧ j < lc ∧ mask (t - tokStart) j = false then negInf else scores t j, publish)
  else
    let masked t j := if inRows t ∧ j < lc ∧ compressLens t ≤ j then negInf else scores t j
    let step := max 1 (2 ^ 30 / (lc * 4))
    let mask : Mask := fun i j =>
      let start := i / step * step
      select (fun i' => masked (tokStart + start + i')) (fun i' => compressLens (tokStart + start + i'))
        (min step (tLen - start)) (i - start) j
    some (masked, publish ++ [mask])

/-- mirrors deepseek_v4_backend.py:3228-3262 (`_publish_or_consume_candidates`) -/
def publishOrConsume (I : IndexerConfig) (B : DenseBatch) (ratio : Nat) (compressLens : Nat → Int)
    (select : (Nat → Nat → Score F) → (Nat → Int) → Nat → Mask) (candidateMasks : List Mask)
    (scores : Nat → Nat → Score F) : Nat → Option ((Nat → Nat → Score F) × List Mask)
  | 0 => some (scores, [])
  | b + 1 => do
    let (scores, publish) ← publishOrConsume I B ratio compressLens select candidateMasks scores b
    candidateTurn I B ratio compressLens select candidateMasks b scores publish

/-- The scores the top-k reads, and the masks published after it.
mirrors deepseek_v4_backend.py:3205-3208 -/
def candidateStep (I : IndexerConfig) (B : DenseBatch) (ratio : Nat) (compressLens : Nat → Int)
    (select : (Nat → Nat → Score F) → (Nat → Int) → Nat → Mask) (candidateMasks : List Mask)
    (scores : Nat → Nat → Score F) : Option ((Nat → Nat → Score F) × List Mask) :=
  if I.isCandidateSource || I.usesCandidates then do
    let (logits, publish) ← publishOrConsume I B ratio compressLens select candidateMasks scores B.n
    pure (logits, if I.isCandidateSource then publish else candidateMasks)
  else some (scores, candidateMasks)

/-! ## Selections -/

/-- `torch.iinfo(torch.int32).max`. -/
def unselected : Int := 2 ^ 31 - 1

/-- mirrors deepseek_v4_backend.py:3217-3218 -/
def sortRow (row : List Int) : List Int :=
  (row.map fun s => if s < 0 then unselected else s).insertionSort (· ≤ ·)

/-- mirrors deepseek_v4_backend.py:3219-3222 -/
def pageEntry (kSlots : List Nat) (s : Int) : Int :=
  if s ≠ unselected then toInt32 (kSlots.getD (min s (kSlots.length - 1)).toNat 0) else -1

/-- mirrors deepseek_v4_backend.py:3224-3226 -/
def rawEntry (ks : Nat) (s : Int) : Int := if s ≠ unselected then s - ks else -1

structure DenseOut where
  pageIndices : Nat → Nat → Int
  rawIndices : Option (Nat → Nat → Int)
  candidateMasks : List Mask

/-- The assigned part of a result tensor, and -1 elsewhere. -/
def filled (rows : List (List Int)) (entry : Nat → Int → Int) (t k : Nat) : Int :=
  match rows[t]?.bind fun row => (sortRow row)[k]? with
  | some s => entry t s
  | none => -1

/-- `scores` are what `_dense_fp4_mqa_logits` returns, `ceil_align(max(lc_per_req), 4)` columns;
`topkRagged logits lens offsets` is what `topk_transform_ragged_v2` writes.
mirrors deepseek_v4_backend.py:3139-3226 (`_low_ratio_index_topk_dense`) -/
def denseTopk (I : IndexerConfig) (B : DenseBatch) (T : ReqToToken) (ratio : Nat) (writeRaw : Bool)
    (scores : Nat → Nat → Score F) (select : (Nat → Nat → Score F) → (Nat → Int) → Nat → Mask)
    (topkRagged : (Nat → Nat → Score F) → (Nat → Int) → (Nat → Int) → Nat → Nat → Int)
    (candidateMasks : List Mask) : Option DenseOut :=
  let lcPerReq r := B.seqLens r / ratio
  let s := slotLoop lcPerReq (slotChunk B T ratio) B.n
  if s.chunks = [] ∨ B.numTokens = 0 then
    some { pageIndices := fun _ _ => -1
           rawIndices := if writeRaw then some fun _ _ => -1 else none
           candidateMasks := if I.isCandidateSource then List.replicate B.n emptyMask else candidateMasks }
  else do
    let kSlots := s.chunks.flatten
    let compressLens t := toInt32 ((B.pos t + 1) / ratio : Nat)
    -- `torch.tensor(starts, dtype=torch.int32)` raises when a start does not fit
    let starts ← if s.starts.all fun start => start < 2 ^ 31 then some s.starts else none
    let ks t := starts.getD ((repeatInterleave B.qLens B.n).getD t 0) 0
    let width := (((List.range B.n).map lcPerReq).max?.getD 0 + 3) / 4 * 4
    let (logits, candidateMasks) ← candidateStep I B ratio compressLens select candidateMasks scores
    let selected t k := topkRagged logits compressLens (fun t => ks t) t k
    let rows ← (List.range B.numTokens).mapM fun t => (List.range I.indexTopk).mapM fun k =>
      if I.consumes then maskTopkScores (logits t) width (selected t k) (some (ks t : Int))
      else some (selected t k)
    pure { pageIndices := filled rows fun _ => pageEntry kSlots
           rawIndices := if writeRaw then some (filled rows fun t => rawEntry (ks t)) else none
           candidateMasks := candidateMasks }

/-! ## A row of selections -/

/-- The padding of an ascending list is at its end. -/
theorem sorted_eq_append_replicate {top : Int} {l : List Int} (hs : l.Pairwise (· ≤ ·))
    (htop : ∀ s ∈ l, s ≤ top) : l = l.filter (· ≠ top) ++ List.replicate (l.count top) top := by
  induction l with
  | nil => rfl
  | cons a l ih =>
    obtain ⟨ha, hs⟩ := List.pairwise_cons.mp hs
    by_cases hat : a = top
    · subst hat
      -- nothing after it is greater or less
      have hall : ∀ s ∈ l, s = a := fun s hsl =>
        Int.le_antisymm (htop s (List.mem_cons_of_mem _ hsl)) (ha s hsl)
      have hrep : l = List.replicate l.length a := List.eq_replicate_iff.mpr ⟨rfl, hall⟩
      rw [hrep]
      simp [List.replicate_succ]
    · have ih := ih hs fun s hsl => htop s (List.mem_cons_of_mem _ hsl)
      rw [List.filter_cons_of_pos (by simpa using hat), List.count_cons_of_ne (by simpa using hat),
        List.cons_append, ← ih]

/-- Selections of one row: padding, or distinct visible columns past `ks`. -/
structure RowOk (ks visible : Nat) (keep : Nat → Prop) (row : List Int) : Prop where
  entry : ∀ s ∈ row, s = -1 ∨ ∃ c : Nat, c < visible ∧ keep c ∧ s = ((ks + c : Nat) : Int)
  distinct : row.Pairwise fun s s' => s = s' → s = -1
  int32 : ∀ s ∈ row, s ≤ unselected

/-- The columns `js` that a row keeps, ascending, and padding after them. -/
structure SortedRow (ks visible : Nat) (keep : Nat → Prop) (row : List Int) (js : List Nat) : Prop where
  ascending : js.Pairwise (· < ·)
  visible : ∀ j ∈ js, j < visible ∧ keep j ∧ ((ks + j : Nat) : Int) ≠ unselected
  sorted : ∃ n, js.length + n = row.length ∧
    sortRow row = js.map (fun j => ((ks + j : Nat) : Int)) ++ List.replicate n unselected

theorem sortRow_perm (row : List Int) :
    (sortRow row).Perm (row.map fun s => if s < 0 then unselected else s) :=
  List.perm_insertionSort _ _

theorem sortRow_ascending (row : List Int) : (sortRow row).Pairwise (· ≤ ·) :=
  List.pairwise_insertionSort _ _

theorem sortRow_length (row : List Int) : (sortRow row).length = row.length := by
  rw [(sortRow_perm row).length_eq, List.length_map]

section RowOk
variable {ks visible : Nat} {keep : Nat → Prop} {row : List Int}

theorem RowOk.mem_sortRow (h : RowOk ks visible keep row) {s : Int} (hs : s ∈ sortRow row) :
    s ≤ unselected ∧ (s ≠ unselected → ∃ c : Nat, c < visible ∧ keep c ∧ s = ((ks + c : Nat) : Int)) := by
  obtain ⟨s₀, hs₀, rfl⟩ := List.mem_map.mp ((sortRow_perm row).mem_iff.mp hs)
  by_cases hneg : s₀ < 0
  · simp [hneg]
  · rw [if_neg hneg]
    exact ⟨h.int32 s₀ hs₀, fun _ => (h.entry s₀ hs₀).resolve_left (by omega)⟩

/-- Equal entries are padding. -/
theorem RowOk.sortRow_distinct (h : RowOk ks visible keep row) :
    (sortRow row).Pairwise fun s s' => s = s' → s = unselected := by
  rw [(sortRow_perm row).pairwise_iff fun {s s'} hss he => he.trans (hss he.symm), List.pairwise_map]
  refine h.distinct.imp fun {s s'} hss he => ?_
  by_cases hneg : s < 0
  · exact if_pos hneg
  · by_cases hneg' : s' < 0
    · exact he.trans (if_pos hneg')
    · rw [if_neg hneg, if_neg hneg'] at he
      have := hss he
      omega

theorem RowOk.sorted (h : RowOk ks visible keep row) : ∃ js, SortedRow ks visible keep row js := by
  let chosen := (sortRow row).filter (· ≠ unselected)
  let js := chosen.map fun s : Int => (s - (ks : Int)).toNat
  have hchosen : ∀ s ∈ chosen, s ≠ unselected ∧
      ∃ c : Nat, c < visible ∧ keep c ∧ s = ((ks + c : Nat) : Int) := by
    intro s hs
    obtain ⟨hs, hne⟩ := List.mem_filter.mp hs
    have hne : s ≠ unselected := by simpa using hne
    exact ⟨hne, (h.mem_sortRow hs).2 hne⟩
  have hback : js.map (fun j => ((ks + j : Nat) : Int)) = chosen := by
    rw [List.map_map]
    refine (List.map_congr_left fun s hs => ?_).trans (List.map_id _)
    obtain ⟨-, c, -, -, rfl⟩ := hchosen s hs
    have hc : (((ks + c : Nat) : Int) - (ks : Int)).toNat = c := by omega
    exact congrArg (fun j => ((ks + j : Nat) : Int)) hc
  have hsplit : sortRow row = chosen ++ List.replicate ((sortRow row).count unselected) unselected :=
    sorted_eq_append_replicate (sortRow_ascending row) fun s hs => (h.mem_sortRow hs).1
  refine ⟨js, ?_, fun j hj => ?_, (sortRow row).count unselected, ?_, ?_⟩
  · -- ascending: sorted, and no two chosen entries are equal
    have hlt := ((sortRow_ascending row).and h.sortRow_distinct).filter (· ≠ unselected)
    refine List.pairwise_map.mpr (hlt.imp_of_mem fun {s s'} hs hs' hss => ?_)
    obtain ⟨hne, c, -, -, rfl⟩ := hchosen s hs
    obtain ⟨-, c', -, -, rfl⟩ := hchosen s' hs'
    have hcc : ((ks + c : Nat) : Int) ≠ ((ks + c' : Nat) : Int) := fun he => hne (hss.2 he)
    have hle := hss.1
    simp only [Nat.cast_add, add_sub_cancel_left, Int.toNat_natCast]
    omega
  · obtain ⟨s, hs, rfl⟩ := List.mem_map.mp hj
    obtain ⟨hne, c, hc, hkeep, rfl⟩ := hchosen s hs
    simpa using ⟨hc, hkeep, by simpa using hne⟩
  · have hlen := congrArg List.length hsplit
    rw [List.length_append, List.length_replicate, sortRow_length] at hlen
    rw [List.length_map]
    exact hlen.symm
  · rw [hback]
    exact hsplit

end RowOk

/-- What is assigned to a row of a result tensor. -/
theorem SortedRow.filled {ks visible : Nat} {keep : Nat → Prop} {row : List Int} {js : List Nat}
    (h : SortedRow ks visible keep row js) {rows : List (List Int)} {t : Nat} (hrow : rows[t]? = some row)
    {entry : Nat → Int → Int} (hpad : entry t unselected = -1) (k : Nat) :
    filled rows entry t k = (js[k]?).elim (-1) fun j => entry t ((ks + j : Nat) : Int) := by
  obtain ⟨n, hlen, hsort⟩ := h.sorted
  unfold Indexer.filled
  rw [hrow, Option.bind_some, hsort]
  by_cases hk : k < js.length
  · rw [List.getElem?_append_left (by simpa using hk), List.getElem?_map, List.getElem?_eq_getElem hk]
    rfl
  · rw [List.getElem?_append_right (by simpa using hk), List.getElem?_replicate,
      List.getElem?_eq_none (by omega : js.length ≤ k)]
    split
    · rename_i he
      split at he
      · obtain rfl := Option.some.inj he
        exact hpad
      · cases he
    · rfl

/-! ## Masked scores -/

section Masked
variable {I : IndexerConfig} {B : DenseBatch} {ratio : Nat} {compressLens : Nat → Int}
  {select : (Nat → Nat → Score F) → (Nat → Int) → Nat → Mask} {candidateMasks : List Mask}

/-- A consumer's turn changes scores to `-inf` only, every masked one of the request among them. -/
theorem candidateTurn_consumer (hsource : I.isCandidateSource = false) {b : Nat}
    {scores logits : Nat → Nat → Score F} {publish publish' : List Mask}
    (h : candidateTurn I B ratio compressLens select candidateMasks b scores publish =
      some (logits, publish')) :
    (∀ t j, scores t j = negInf → logits t j = negInf) ∧
      ∀ i j, i < B.qLens b → j < B.seqLens b / ratio → ∃ mask, candidateMasks[b]? = some mask ∧
        (mask i j = false → logits (prefixSum B.qLens b + i) j = negInf) := by
  unfold candidateTurn at h
  rw [hsource] at h
  dsimp only at h
  by_cases hempty : B.seqLens b / ratio = 0 ∨ B.qLens b = 0
  · rw [if_pos hempty] at h
    obtain ⟨rfl, -⟩ := Prod.mk.inj (Option.some.inj h)
    exact ⟨fun _ _ hs => hs, fun i j hi hj => by omega⟩
  · rw [if_neg hempty, if_pos rfl] at h
    obtain ⟨mask, hmask, h⟩ := Option.bind_eq_some_iff.mp h
    obtain ⟨rfl, -⟩ := Prod.mk.inj (Option.some.inj h)
    refine ⟨fun t j hs => ite_eq_left_iff.mpr fun _ => hs,
      fun i j hi hj => ⟨mask, hmask, fun hfalse => if_pos ?_⟩⟩
    · refine ⟨⟨Nat.le_add_right _ _, by omega⟩, hj, ?_⟩
      rw [Nat.add_sub_cancel_left]
      exact hfalse

/-- What a consumer selects from is masked, whatever turns come after. -/
theorem publishOrConsume_masked (hsource : I.isCandidateSource = false) {n : Nat}
    {scores logits : Nat → Nat → Score F} {publish : List Mask}
    (h : publishOrConsume I B ratio compressLens select candidateMasks scores n = some (logits, publish))
    {b i j : Nat} (hb : b < n) (hi : i < B.qLens b) (hj : j < B.seqLens b / ratio) :
    ∃ mask, candidateMasks[b]? = some mask ∧
      (mask i j = false → logits (prefixSum B.qLens b + i) j = negInf) := by
  induction n generalizing logits publish with
  | zero => omega
  | succ n ih =>
    obtain ⟨⟨before, publish₀⟩, hbefore, hturn⟩ := Option.bind_eq_some_iff.mp h
    obtain ⟨hkeeps, hmasks⟩ := candidateTurn_consumer hsource hturn
    by_cases hbn : b < n
    · obtain ⟨mask, hmask, hinf⟩ := ih hbefore hbn
      exact ⟨mask, hmask, fun hfalse => hkeeps _ _ (hinf hfalse)⟩
    · obtain rfl : b = n := by omega
      exact hmasks i j hi hj

/-- Only a missing mask stops the loop. -/
theorem publishOrConsume_returns {n : Nat} (hmasks : I.isCandidateSource = false → n ≤ candidateMasks.length)
    (scores : Nat → Nat → Score F) :
    ∃ out, publishOrConsume I B ratio compressLens select candidateMasks scores n = some out := by
  induction n with
  | zero => exact ⟨_, rfl⟩
  | succ n ih =>
    obtain ⟨⟨before, publish⟩, hbefore⟩ := ih fun hs => Nat.le_of_succ_le (hmasks hs)
    simp only [publishOrConsume, hbefore, Option.bind_eq_bind, Option.bind_some, candidateTurn]
    split
    · exact ⟨_, rfl⟩
    · split
      · rename_i hsource
        rw [List.getElem?_eq_getElem (hmasks hsource)]
        exact ⟨_, rfl⟩
      · exact ⟨_, rfl⟩

/-- The scores a consumer's top-k reads. -/
theorem candidateStep_consumer (hconsumes : I.consumes = true) {scores logits : Nat → Nat → Score F}
    {masks : List Mask}
    (h : candidateStep I B ratio compressLens select candidateMasks scores = some (logits, masks)) :
    ∃ publish, publishOrConsume I B ratio compressLens select candidateMasks scores B.n =
      some (logits, publish) := by
  have huses : I.usesCandidates = true := by
    unfold IndexerConfig.consumes at hconsumes
    exact (Bool.and_eq_true_iff.mp hconsumes).1
  rw [candidateStep, huses, Bool.or_true, if_pos rfl] at h
  obtain ⟨⟨logits', publish⟩, hloop, h⟩ := Option.bind_eq_some_iff.mp h
  obtain ⟨rfl, -⟩ := Prod.mk.inj (Option.some.inj h)
  exact ⟨publish, hloop⟩

theorem candidateStep_returns (hmasks : I.consumes = true → B.n ≤ candidateMasks.length)
    (scores : Nat → Nat → Score F) :
    ∃ out, candidateStep I B ratio compressLens select candidateMasks scores = some out := by
  unfold candidateStep
  split
  · rename_i hstep
    have hlen : I.isCandidateSource = false → B.n ≤ candidateMasks.length := fun hsource =>
      hmasks (by simpa [IndexerConfig.consumes, hsource] using hstep)
    obtain ⟨out, hout⟩ := publishOrConsume_returns hlen scores
    exact ⟨_, by rw [hout]; rfl⟩
  · exact ⟨_, rfl⟩

end Masked

/-! ## Rows of a result -/

/-- One row of `topk_transform_ragged_v2`: columns below `lens` past the row's offset, each once,
and -1. -/
structure RaggedRow (lens offset : Int) (topk : Nat) (entry : Nat → Int) : Prop where
  column : ∀ k, k < topk → entry k = -1 ∨ ∃ c : Nat, (c : Int) < lens ∧ entry k = offset + c
  distinct : ∀ k k', k < k' → k' < topk → entry k = entry k' → entry k = -1
  int32 : ∀ k, k < topk → entry k ≤ 2 ^ 31 - 1

def RaggedSpec (topk : Nat)
    (topkRagged : (Nat → Nat → Score F) → (Nat → Int) → (Nat → Int) → Nat → Nat → Int) : Prop :=
  ∀ logits lens offsets t, RaggedRow (lens t) (offsets t) topk (topkRagged logits lens offsets t)

/-- Row `i` of request `b` selects the compressed positions `js`. -/
structure RequestRow (I : IndexerConfig) (B : DenseBatch) (T : ReqToToken) (ratio : Nat)
    (candidateMasks : List Mask) (out : DenseOut) (b i : Nat) (js : List Nat) : Prop where
  ascending : js.Pairwise (· < ·)
  few : js.length ≤ I.indexTopk
  visible : ∀ j ∈ js, j < (B.pos (prefixSum B.qLens b + i) + 1) / ratio
  published : I.consumes = true → ∀ j ∈ js, ∃ mask, candidateMasks[b]? = some mask ∧ mask i j = true
  pageIndices : ∀ k, out.pageIndices (prefixSum B.qLens b + i) k =
    (js[k]?).elim (-1) fun j => ((T.slot (B.reqPoolIndices b) (j * ratio) / ratio : Nat) : Int)
  rawIndices : ∀ raw, out.rawIndices = some raw → ∀ k, raw (prefixSum B.qLens b + i) k =
    (js[k]?).elim (-1) fun j => (j : Int)

section Rows
variable {I : IndexerConfig} {B : DenseBatch} {T : ReqToToken} {ratio : Nat}

/-- A row of a request with nothing visible. -/
theorem RequestRow.nothing_visible {candidateMasks : List Mask} {out : DenseOut} {b i : Nat} {js : List Nat}
    (h : RequestRow I B T ratio candidateMasks out b i js)
    (hnone : (B.pos (prefixSum B.qLens b + i) + 1) / ratio = 0) : js = [] :=
  List.eq_nil_iff_forall_not_mem.mpr fun j hj => by have := h.visible j hj; omega

/-- The columns of a row are among its request's. -/
theorem visible_le {b i : Nat} (hb : b < B.n) (hi : i < B.qLens b) :
    (B.pos (prefixSum B.qLens b + i) + 1) / ratio ≤ B.seqLens b / ratio :=
  Nat.div_le_div_right (B.pos_lt b i hb hi)

theorem toInt32_le {n : Nat} : toInt32 (n : Nat) ≤ n := by
  unfold toInt32
  rw [Int.bmod_def]
  split <;> omega

/-- Global column `prefixSum lc b + j` is the slot of position `j` of request `b`. -/
theorem pageEntry_slot {b j : Nat} (hb : b < B.n) (hj : j < B.seqLens b / ratio)
    (hne : ((prefixSum (fun r => B.seqLens r / ratio) b + j : Nat) : Int) ≠ unselected) :
    pageEntry ((List.range B.n).flatMap (slotChunk B T ratio))
        ((prefixSum (fun r => B.seqLens r / ratio) b + j : Nat) : Int) =
      ((T.slot (B.reqPoolIndices b) (j * ratio) / ratio : Nat) : Int) := by
  have hget := flatMap_range_getElem? (f := slotChunk B T ratio) slotChunk_length hb hj
  rw [slotChunk, List.getElem?_map, List.getElem?_range hj, Option.map_some] at hget
  obtain ⟨hlt, -⟩ := List.getElem?_eq_some_iff.mp hget
  have hclamp : (min ((prefixSum (fun r => B.seqLens r / ratio) b + j : Nat) : Int)
      (((List.range B.n).flatMap (slotChunk B T ratio)).length - 1)).toNat =
      prefixSum (fun r => B.seqLens r / ratio) b + j := by omega
  have hfits : T.slot (B.reqPoolIndices b) (j * ratio) / ratio < 2 ^ 31 :=
    Nat.lt_of_le_of_lt (Nat.div_le_self _ _) (T.fits _ _)
  rw [pageEntry, if_pos hne, hclamp, List.getD_eq_getElem?_getD, hget, Option.getD_some]
  exact toInt32_of_fits (le_trans (by norm_num) (Int.natCast_nonneg _)) (by exact_mod_cast hfits)

theorem rawEntry_column {ks j : Nat} (hne : ((ks + j : Nat) : Int) ≠ unselected) :
    rawEntry ks ((ks + j : Nat) : Int) = j := by
  rw [rawEntry, if_pos hne, Nat.cast_add, add_sub_cancel_left]

/-- The selection of a row after the masked scores are taken back. -/
def kept (I : IndexerConfig) (scores : Nat → Score F) (width ks : Nat) (s : Int) : Int :=
  if I.consumes = true ∧ ¬Selectable scores width (s - ks) then -1 else s

theorem maskTopkScores_kept {scores : Nat → Score F} {width : Nat} (hw : 0 < width) (ks : Nat) (s : Int) :
    (if I.consumes then maskTopkScores scores width s (some (ks : Int)) else some s) =
      some (kept I scores width ks s) := by
  unfold kept
  rw [maskTopkScores_eq hw, Option.getD_some]
  by_cases hc : I.consumes = true
  · by_cases hsel : Selectable scores width (s - ks)
    · simp [hc, hsel]
    · simp [hc, hsel]
  · simp [hc]

theorem kept_eq (I : IndexerConfig) (scores : Nat → Score F) (width ks : Nat) (s : Int) :
    kept I scores width ks s = -1 ∨
      kept I scores width ks s = s ∧ (I.consumes = true → Selectable scores width (s - ks)) := by
  unfold kept
  split
  · exact Or.inl rfl
  · rename_i hno
    exact Or.inr ⟨rfl, fun hc => not_not.mp fun hsel => hno ⟨hc, hsel⟩⟩

/-- A row of the ragged top-k, masked scores taken back. -/
theorem RaggedRow.kept {lens : Int} {ks visible topk : Nat} {entry : Nat → Int}
    (h : RaggedRow lens ks topk entry) (hlens : lens ≤ visible) {scores : Nat → Score F} {width : Nat}
    {keep : Nat → Prop}
    (hkeep : ∀ c, c < visible → (I.consumes = true → Selectable scores width c) → keep c) :
    RowOk ks visible keep ((List.range topk).map fun k => Indexer.kept I scores width ks (entry k)) where
  entry s hs := by
    obtain ⟨k, hk, rfl⟩ := List.mem_map.mp hs
    rcases kept_eq I scores width ks (entry k) with hk' | ⟨hk', hsel⟩
    · exact Or.inl hk'
    · rw [hk']
      rcases h.column k (List.mem_range.mp hk) with hpad | ⟨c, hc, he⟩
      · exact Or.inl hpad
      · have hcv : c < visible := by omega
        rw [he, add_sub_cancel_left] at hsel
        exact Or.inr ⟨c, hcv, hkeep c hcv hsel, by rw [he]; push_cast; rfl⟩
  distinct := by
    refine List.pairwise_map.mpr (List.pairwise_lt_range.imp_of_mem fun {k k'} hk hk' hlt he => ?_)
    rcases kept_eq I scores width ks (entry k) with h1 | ⟨h1, -⟩
    · exact h1
    · rcases kept_eq I scores width ks (entry k') with h2 | ⟨h2, -⟩
      · exact he.trans h2
      · rw [h1]
        exact h.distinct k k' hlt (List.mem_range.mp hk') (by rw [← h1, ← h2, he])
  int32 s hs := by
    obtain ⟨k, hk, rfl⟩ := List.mem_map.mp hs
    rcases kept_eq I scores width ks (entry k) with hk' | ⟨hk', -⟩
    · rw [hk']; decide
    · rw [hk']; exact h.int32 k (List.mem_range.mp hk)

end Rows

/-! ## The indexer -/

section Dense
variable {I : IndexerConfig} {B : DenseBatch} {T : ReqToToken} {ratio : Nat}

/-- `ks` of a row. -/
def rowStart (B : DenseBatch) (ratio t : Nat) : Nat :=
  ((List.range B.n).map (prefixSum fun r => B.seqLens r / ratio)).getD
    ((repeatInterleave B.qLens B.n).getD t 0) 0

theorem rowStart_row {b i : Nat} (hb : b < B.n) (hi : i < B.qLens b) :
    rowStart B ratio (prefixSum B.qLens b + i) = prefixSum (fun r => B.seqLens r / ratio) b := by
  have hrow : (repeatInterleave B.qLens B.n).getD (prefixSum B.qLens b + i) 0 = b := by
    rw [List.getD_eq_getElem?_getD, repeatInterleave_getElem? hb hi, Option.getD_some]
  rw [rowStart, hrow, List.getD_eq_getElem?_getD, List.getElem?_map, List.getElem?_range hb]
  rfl

/-- The columns of `logits`. -/
def width (B : DenseBatch) (ratio : Nat) : Nat :=
  (((List.range B.n).map fun r => B.seqLens r / ratio).max?.getD 0 + 3) / 4 * 4

/-- `selected` before it is sorted. -/
def keptRow (I : IndexerConfig) (B : DenseBatch) (ratio : Nat) (logits : Nat → Nat → Score F)
    (topkRagged : (Nat → Nat → Score F) → (Nat → Int) → (Nat → Int) → Nat → Nat → Int) (t : Nat) : List Int :=
  (List.range I.indexTopk).map fun k => kept I (logits t) (width B ratio) (rowStart B ratio t)
    (topkRagged logits (fun t => toInt32 ((B.pos t + 1) / ratio : Nat)) (fun t => rowStart B ratio t) t k)

/-- No compressed position, or no row. -/
theorem denseTopk_empty {writeRaw : Bool} {scores : Nat → Nat → Score F}
    {select : (Nat → Nat → Score F) → (Nat → Int) → Nat → Mask}
    {topkRagged : (Nat → Nat → Score F) → (Nat → Int) → (Nat → Int) → Nat → Nat → Int}
    {candidateMasks : List Mask}
    (hrow : (∀ r, r < B.n → B.seqLens r / ratio = 0) ∨ B.numTokens = 0) :
    denseTopk I B T ratio writeRaw scores select topkRagged candidateMasks =
      some { pageIndices := fun _ _ => -1
             rawIndices := if writeRaw then some fun _ _ => -1 else none
             candidateMasks :=
               if I.isCandidateSource then List.replicate B.n emptyMask else candidateMasks } := by
  have hnil := (slotLoop_spec (fun r => B.seqLens r / ratio) (slotChunk_length (T := T)) B.n).2.2.2
  unfold denseTopk
  dsimp only
  rw [if_pos (by rw [hnil]; exact hrow)]

theorem denseTopk_eq {writeRaw : Bool} {scores : Nat → Nat → Score F}
    {select : (Nat → Nat → Score F) → (Nat → Int) → Nat → Mask}
    {topkRagged : (Nat → Nat → Score F) → (Nat → Int) → (Nat → Int) → Nat → Nat → Int}
    {candidateMasks : List Mask}
    (hrow : ¬((∀ r, r < B.n → B.seqLens r / ratio = 0) ∨ B.numTokens = 0)) :
    denseTopk I B T ratio writeRaw scores select topkRagged candidateMasks =
      if ∀ r, r < B.n → prefixSum (fun r => B.seqLens r / ratio) r < 2 ^ 31 then
        (candidateStep I B ratio (fun t => toInt32 ((B.pos t + 1) / ratio : Nat)) select candidateMasks
          scores).map fun step =>
          let rows := (List.range B.numTokens).map (keptRow I B ratio step.1 topkRagged)
          { pageIndices := filled rows fun _ => pageEntry ((List.range B.n).flatMap (slotChunk B T ratio))
            rawIndices := if writeRaw then some (filled rows fun t => rawEntry (rowStart B ratio t)) else none
            candidateMasks := step.2 }
      else none := by
  obtain ⟨-, hstarts, hflat, hnil⟩ :=
    slotLoop_spec (fun r => B.seqLens r / ratio) (slotChunk_length (T := T)) B.n
  have hwidth : 0 < width B ratio := by
    obtain ⟨r, hr, hlc⟩ : ∃ r, r < B.n ∧ B.seqLens r / ratio ≠ 0 := by
      by_contra hno
      exact hrow (Or.inl fun r hr => by_contra fun h => hno ⟨r, hr, h⟩)
    have hpos := Nat.pos_of_ne_zero hlc
    have hmax := List.le_max?_getD_of_mem (k := 0)
      (List.mem_map_of_mem (f := fun r => B.seqLens r / ratio) (List.mem_range.mpr hr))
    unfold width
    omega
  have hall : ((List.range B.n).map (prefixSum fun r => B.seqLens r / ratio)).all
      (fun start => decide (start < 2 ^ 31)) = true ↔
        ∀ r, r < B.n → prefixSum (fun r => B.seqLens r / ratio) r < 2 ^ 31 := by simp
  unfold denseTopk
  dsimp only
  rw [if_neg (by rw [hnil]; exact hrow), hflat, hstarts]
  by_cases hfits : ∀ r, r < B.n → prefixSum (fun r => B.seqLens r / ratio) r < 2 ^ 31
  · rw [if_pos hfits, if_pos (hall.mpr hfits), Option.bind_eq_bind, Option.bind_some]
    cases candidateStep I B ratio (fun t => toInt32 ((B.pos t + 1) / ratio : Nat)) select candidateMasks
      scores with
    | none => rfl
    | some step =>
      let selected := topkRagged step.1 (fun t => toInt32 ((B.pos t + 1) / ratio : Nat))
        fun t => rowStart B ratio t
      have hrows : ((List.range B.numTokens).mapM fun t => (List.range I.indexTopk).mapM fun k =>
          if I.consumes then
            maskTopkScores (step.1 t) (width B ratio) (selected t k) (some (rowStart B ratio t : Int))
          else some (selected t k)) =
          some ((List.range B.numTokens).map (keptRow I B ratio step.1 topkRagged)) := by
        refine Eq.trans ?_ (List.mapM_pure (m := Option))
        congr 1
        funext t
        refine Eq.trans ?_ (List.mapM_pure (m := Option))
        congr 1
        funext k
        exact maskTopkScores_kept hwidth _ _
      exact (congrArg (fun rows => Option.bind rows _) hrows).trans rfl
  · rw [if_neg hfits, if_neg (mt hall.mp hfits)]
    rfl

/-- A row of request `b` keeps columns that it sees and that its published mask has. -/
theorem keptRow_ok {scores : Nat → Nat → Score F}
    {select : (Nat → Nat → Score F) → (Nat → Int) → Nat → Mask}
    {topkRagged : (Nat → Nat → Score F) → (Nat → Int) → (Nat → Int) → Nat → Nat → Int}
    (hspec : RaggedSpec I.indexTopk topkRagged) {candidateMasks : List Mask}
    {step : (Nat → Nat → Score F) × List Mask}
    (hstep : candidateStep I B ratio (fun t => toInt32 ((B.pos t + 1) / ratio : Nat)) select candidateMasks
      scores = some step) {b i : Nat} (hb : b < B.n) (hi : i < B.qLens b) :
    RowOk (prefixSum (fun r => B.seqLens r / ratio) b) ((B.pos (prefixSum B.qLens b + i) + 1) / ratio)
      (fun j => I.consumes = true → ∃ mask, candidateMasks[b]? = some mask ∧ mask i j = true)
      (keptRow I B ratio step.1 topkRagged (prefixSum B.qLens b + i)) := by
  have hragged := hspec step.1 (fun t => toInt32 ((B.pos t + 1) / ratio : Nat)) (fun t => rowStart B ratio t)
    (prefixSum B.qLens b + i)
  rw [rowStart_row hb hi] at hragged
  rw [keptRow, rowStart_row hb hi]
  refine hragged.kept toInt32_le fun c hc hsel hconsumes => ?_
  -- a column that the published mask leaves out scores -inf
  obtain ⟨publish, hloop⟩ := candidateStep_consumer hconsumes hstep
  have hsource : I.isCandidateSource = false := by
    unfold IndexerConfig.consumes at hconsumes
    simpa using (Bool.and_eq_true_iff.mp hconsumes).2
  obtain ⟨mask, hmask, hinf⟩ :=
    publishOrConsume_masked hsource hloop hb hi (Nat.lt_of_lt_of_le hc (visible_le hb hi))
  refine ⟨mask, hmask, by_contra fun hfalse => ?_⟩
  have hgt := (hsel hconsumes).2.2
  rw [Int.toNat_natCast, hinf (by simpa using hfalse)] at hgt
  obtain ⟨a, ha, hne⟩ := gt_negInf_iff.mp hgt
  exact hne (Option.some.inj ha).symm

/-- A row of the result, when some row is selected for. -/
theorem selected_requestRow (writeRaw : Bool) {scores : Nat → Nat → Score F}
    {select : (Nat → Nat → Score F) → (Nat → Int) → Nat → Mask}
    {topkRagged : (Nat → Nat → Score F) → (Nat → Int) → (Nat → Int) → Nat → Nat → Int}
    (hspec : RaggedSpec I.indexTopk topkRagged) {candidateMasks : List Mask}
    {step : (Nat → Nat → Score F) × List Mask}
    (hstep : candidateStep I B ratio (fun t => toInt32 ((B.pos t + 1) / ratio : Nat)) select candidateMasks
      scores = some step) {rows : List (List Int)}
    (hrows : rows = (List.range B.numTokens).map (keptRow I B ratio step.1 topkRagged))
    {out : DenseOut}
    (hpage : out.pageIndices = filled rows fun _ => pageEntry ((List.range B.n).flatMap (slotChunk B T ratio)))
    (hraw : out.rawIndices =
      if writeRaw then some (filled rows fun t => rawEntry (rowStart B ratio t)) else none)
    {b i : Nat} (hb : b < B.n) (hi : i < B.qLens b) :
    ∃ js, RequestRow I B T ratio candidateMasks out b i js := by
  have ht : prefixSum B.qLens b + i < B.numTokens := by
    have := prefixSum_le_of_lt B.qLens hb
    unfold DenseBatch.numTokens
    omega
  have hstart : rowStart B ratio (prefixSum B.qLens b + i) = prefixSum (fun r => B.seqLens r / ratio) b :=
    rowStart_row hb hi
  have hrow : rows[prefixSum B.qLens b + i]? =
      some (keptRow I B ratio step.1 topkRagged (prefixSum B.qLens b + i)) := by
    rw [hrows, List.getElem?_map, List.getElem?_range ht, Option.map_some]
  have hok := keptRow_ok hspec hstep hb hi
  obtain ⟨js, hjs⟩ := hok.sorted
  have hlt : ∀ j ∈ js, j < B.seqLens b / ratio := fun j hj =>
    Nat.lt_of_lt_of_le (hjs.visible j hj).1 (visible_le hb hi)
  refine ⟨js, hjs.ascending, ?_, fun j hj => (hjs.visible j hj).1, fun hc j hj => (hjs.visible j hj).2.1 hc,
    fun k => ?_, fun raw hsome k => ?_⟩
  · obtain ⟨n, hlen, -⟩ := hjs.sorted
    rw [keptRow, List.length_map, List.length_range] at hlen
    omega
  · rw [hpage, hjs.filled hrow (by simp [pageEntry])]
    cases hk : js[k]? with
    | none => rfl
    | some j =>
      have hj := List.mem_of_getElem? hk
      exact pageEntry_slot hb (hlt j hj) (hjs.visible j hj).2.2
  · rw [hraw] at hsome
    split at hsome
    · obtain rfl := Option.some.inj hsome
      rw [hjs.filled hrow (by simp [rawEntry])]
      cases hk : js[k]? with
      | none => rfl
      | some j =>
        have hne := (hjs.visible j (List.mem_of_getElem? hk)).2.2
        rw [hstart]
        exact rawEntry_column hne
    · cases hsome

/-- **Requests are not mixed.** When every start fits and every mask that is consumed is there, the call
returns; and in what it returns, a row of request `b` selects compressed positions of request `b` only, below
the row's own position and in its published mask, ascending and padded with -1. -/
theorem dense_rows_own_request (I : IndexerConfig) (B : DenseBatch) (T : ReqToToken) (ratio : Nat)
    (writeRaw : Bool) (scores : Nat → Nat → Score F)
    (select : (Nat → Nat → Score F) → (Nat → Int) → Nat → Mask)
    (topkRagged : (Nat → Nat → Score F) → (Nat → Int) → (Nat → Int) → Nat → Nat → Int)
    (hspec : RaggedSpec I.indexTopk topkRagged) (candidateMasks : List Mask) :
    ((∀ r, r < B.n → prefixSum (fun r => B.seqLens r / ratio) r < 2 ^ 31) →
        (I.consumes = true → B.n ≤ candidateMasks.length) →
        ∃ out, denseTopk I B T ratio writeRaw scores select topkRagged candidateMasks = some out) ∧
      ∀ out, denseTopk I B T ratio writeRaw scores select topkRagged candidateMasks = some out →
        (∀ b i, b < B.n → i < B.qLens b → ∃ js, RequestRow I B T ratio candidateMasks out b i js ∧
          ((B.pos (prefixSum B.qLens b + i) + 1) / ratio = 0 → js = [])) ∧
        ∀ t, B.numTokens ≤ t → ∀ k, out.pageIndices t k = -1 := by
  by_cases hrow : (∀ r, r < B.n → B.seqLens r / ratio = 0) ∨ B.numTokens = 0
  · rw [denseTopk_empty hrow]
    refine ⟨fun _ _ => ⟨_, rfl⟩, fun out hout => ?_⟩
    obtain rfl := Option.some.inj hout
    refine ⟨fun b i hb hi => ⟨[], ⟨List.Pairwise.nil, Nat.zero_le _, by simp, by simp, fun _ => rfl, ?_⟩,
      fun _ => rfl⟩, fun _ _ _ => rfl⟩
    intro raw hraw k
    cases writeRaw
    · cases hraw
    · obtain rfl := Option.some.inj hraw
      rfl
  · rw [denseTopk_eq hrow]
    refine ⟨fun hfits hmasks => ?_, fun out hout => ?_⟩
    · obtain ⟨step, hstep⟩ : ∃ step, candidateStep I B ratio (fun t => toInt32 ((B.pos t + 1) / ratio : Nat))
          select candidateMasks scores = some step := candidateStep_returns hmasks scores
      rw [if_pos hfits, hstep]
      exact ⟨_, rfl⟩
    · rw [Option.ite_none_right_eq_some] at hout
      obtain ⟨step, hstep, hout⟩ := Option.map_eq_some_iff.mp hout.2
      refine ⟨fun b i hb hi => ?_, fun t ht k => ?_⟩
      · have hselected : ∃ js, RequestRow I B T ratio candidateMasks out b i js :=
          selected_requestRow writeRaw hspec hstep rfl (by rw [← hout]) (by rw [← hout]) hb hi
        obtain ⟨js, hjs⟩ := hselected
        exact ⟨js, hjs, hjs.nothing_visible⟩
      · have hnone : ((List.range B.numTokens).map (keptRow I B ratio step.1 topkRagged))[t]? = none :=
          List.getElem?_eq_none (by simpa using ht)
        rw [← hout]
        simp only [filled, hnone, Option.bind_none]

end Dense

/-- A top-k of rows with no more columns than it takes. -/
def takeAll (_ : Nat → Nat → Score F) (lens offsets : Nat → Int) (t k : Nat) : Int :=
  if (k : Int) < lens t ∧ offsets t + k ≤ 2 ^ 31 - 1 then offsets t + k else -1

omit [LinearOrder F] [BoundedOrder F] in
theorem takeAll_spec (topk : Nat) : RaggedSpec topk (takeAll (F := F)) := by
  intro _ lens offsets t
  refine ⟨fun k _ => ?_, fun k k' hlt _ he => ?_, fun k _ => ?_⟩
  · unfold takeAll
    split
    · rename_i hk
      exact Or.inr ⟨k, hk.1, rfl⟩
    · exact Or.inl rfl
  · unfold takeAll at he ⊢
    split at he <;> split at he <;> simp_all
  · unfold takeAll
    split <;> omega

/-- Three requests of two, no and two compressed positions, the last of them with two rows. -/
def threeRequests : DenseBatch where
  n := 3
  seqLens b := [9, 3, 8].getD b 0
  qLens b := [1, 1, 2].getD b 0
  reqPoolIndices b := [4, 2, 7].getD b 0
  pos t := [8, 2, 6, 7].getD t 0
  pos_lt b i hb hi := by
    have hrows : ∀ b, b < 3 → ∀ i, i < 2 → i < [1, 1, 2].getD b 0 →
        [8, 2, 6, 7].getD (prefixSum (fun b => [1, 1, 2].getD b 0) b + i) 0 < [9, 3, 8].getD b 0 := by decide
    have htwo : ∀ b, b < 3 → [1, 1, 2].getD b 0 ≤ 2 := by decide
    exact hrows b hb i (Nat.lt_of_lt_of_le hi (htwo b hb)) hi

/-- Token `p` of pool row `r` is in page `r`. -/
def pagePerRow : ReqToToken := ⟨fun r p => (r * 64 + p) % 2 ^ 31, fun _ _ => Nat.mod_lt _ (by decide)⟩

theorem threeRequests_own_request :
    ∃ out, denseTopk (F := Bool) ⟨false, true, 2⟩ threeRequests pagePerRow 4 true (fun _ _ => some true)
        (fun _ _ _ => emptyMask) takeAll [fun _ j => j = 1, emptyMask, fun _ _ => true] = some out ∧
      ∀ b i, b < 3 → i < threeRequests.qLens b → ∃ js, RequestRow ⟨false, true, 2⟩ threeRequests pagePerRow 4
        [fun _ j => j = 1, emptyMask, fun _ _ => true] out b i js := by
  obtain ⟨hreturns, hrows⟩ := dense_rows_own_request (F := Bool) ⟨false, true, 2⟩ threeRequests pagePerRow 4
    true (fun _ _ => some true) (fun _ _ _ => emptyMask) takeAll (takeAll_spec 2)
    [fun _ j => j = 1, emptyMask, fun _ _ => true]
  obtain ⟨out, hout⟩ := hreturns (by decide) fun _ => by decide
  refine ⟨out, hout, fun b i hb hi => ?_⟩
  obtain ⟨js, hjs, -⟩ := (hrows out hout).1 b i hb hi
  exact ⟨js, hjs⟩

end FlashSpark.L3.Indexer
