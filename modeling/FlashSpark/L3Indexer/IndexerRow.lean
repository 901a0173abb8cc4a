import FlashSpark.L3Indexer.CandidateBlocks
import FlashSpark.L3Indexer.DensePrefill
import FlashSpark.L3Indexer.TopkPages

/-!
# A row of the indexer

Without DeepGEMM the low-ratio indexer selects with torch: request by request and in
chunks of rows, or for decode all rows at once. A row comes out of either the same way:
`torch.topk` over masked scores, what is masked taken back, sorted, unreachable columns
-1 (`finishRow`, `selectRow_spec`).

* `IndexerLayer`: a layer, with what it calls elsewhere; `IndexerLayer.Lawful`.
* `BestBlocks`: the blocks that two-level selection keeps for a row, `CandidateRow.blocks`.
* `RowSelects`: what a row is for: its top-k, as slots, then -1.
-/
namespace FlashSpark.L3.Indexer
open Launch

variable {F : Type} [LinearOrder F] [BoundedOrder F]

/-! ## Layers and batches -/

/-- An indexer layer. Its scores are those of a row and the key in a slot. -/
structure IndexerLayer (F : Type) where
  config : IndexerConfig
  candidateTopkBlocks : Nat
  candidateBlockSize : Nat
  candidateBlockSize_pos : 0 < candidateBlockSize
  compressRatio : Nat
  compressRatio_pos : 0 < compressRatio
  score : Nat → Nat → F
  /-- `s.topk(k, sorted=False).indices` of row `t`. -/
  topk : (t : Nat) → (s : Nat → F) → (width k : Nat) → Nat → Nat
  /-- `select_candidate_blocks` of some rows, with their lengths and their columns. -/
  selectBlocks : List (Nat → F) → List Nat → Nat → List (Nat → Bool)
  /-- `fp4_index_logits_decode` of row `t`. -/
  logitsDecode : (t : Nat) → (slots : Nat → Nat) → (len : Nat) → Nat → F

/-- One row, as the block selection sees it. -/
def IndexerLayer.blocks (l : IndexerLayer F) (width : Nat) (h : 0 < width) : BlockShape :=
  ⟨1, width, l.candidateBlockSize, l.candidateTopkBlocks, h, l.candidateBlockSize_pos⟩

/-- A mask that two-level selection may publish for a row: some `topk_blocks` best blocks, without those
that score `-inf`. -/
def CandidateRow (S : BlockShape) (logits : Nat → F) (length : Nat) (mask : Nat → Bool) : Prop :=
  ∃ sel, IsTopK (blockScore S logits length) S.blocks S.topk sel ∧ ∀ col, col < S.width →
    (mask col = true ↔ (∃ i, i < S.topk ∧ sel i = col / S.blockSize) ∧
      ⊥ < blockScore S logits length (col / S.blockSize))

theorem blockScore_congr {S : BlockShape} {logits logits' : Nat → F} {length : Nat}
    (h : ∀ j, j < length → logits j = logits' j) (b : Nat) :
    blockScore S logits length b = blockScore S logits' length b := by
  unfold blockScore
  rw [Finset.sup_congr rfl fun c hc => h c (by exact_mod_cast (Finset.mem_filter.mp hc).2.2)]

/-- Only visible scores count. -/
theorem CandidateRow.congr {S : BlockShape} {logits logits' : Nat → F} {length : Nat} {mask : Nat → Bool}
    (h : CandidateRow S logits length mask) (he : ∀ j, j < length → logits j = logits' j) :
    CandidateRow S logits' length mask := by
  obtain ⟨sel, htop, hmask⟩ := h
  refine ⟨sel, htop.congr fun b _ => blockScore_congr he b, fun col hcol => ?_⟩
  rw [← blockScore_congr he]
  exact hmask col hcol

/-- What the code relies on in what it calls. -/
structure IndexerLayer.Lawful (l : IndexerLayer F) : Prop where
  topk : ∀ t s width k, k ≤ width → IsTopK s width k (l.topk t s width k)
  selectBlocks_length : ∀ (rows : List (Nat → F)) (lens : List Nat) cols, lens.length = rows.length →
    (l.selectBlocks rows lens cols).length = rows.length
  /-- Unreachable columns are told apart by `-inf`. -/
  selectBlocks_row : ∀ (rows : List (Nat → F)) (lens : List Nat) cols (i : Nat) row len (h : 0 < cols),
    lens.length = rows.length → rows[i]? = some row → lens[i]? = some len →
    (∀ j, j < cols → len ≤ j → row j = ⊥) →
    ∃ mask, (l.selectBlocks rows lens cols)[i]? = some mask ∧ CandidateRow (l.blocks cols h) row len mask
  logitsDecode : ∀ t slots len j, l.logitsDecode t slots len j = if j < len then l.score t (slots j) else ⊥

/-! ## Candidate blocks -/

/-- A block of `blockSize` positions is as good, for a row that sees `len` of them, as the greatest visible
score in it; the block of the newest position is always good. -/
def blockBest (blockSize : Nat) (score : Nat → F) (len b : Nat) : F :=
  if 0 < len ∧ b = (len - 1) / blockSize then ⊤
  else ((Finset.range len).filter fun j => j / blockSize = b).sup score

/-- The blocks `bs` are the best visible ones, at most `topkBlocks`. -/
def BestBlocks (blockSize topkBlocks : Nat) (score : Nat → F) (len : Nat) (bs : List Nat) : Prop :=
  TopRow (blockBest blockSize score len) (cdiv len blockSize) topkBlocks
    (fun b => ⊥ < blockBest blockSize score len b) bs

theorem blockScore_eq_blockBest {S : BlockShape} {logits : Nat → F} {len : Nat} (hlen : len ≤ S.width)
    (b : Nat) : blockScore S logits len b = blockBest S.blockSize logits len b := by
  have hnewest : (0 < (len : Int) ∧ (b : Int) = ((len : Int) - 1) / S.blockSize) ↔
      0 < len ∧ b = (len - 1) / S.blockSize := by
    refine ⟨fun hyp => ⟨by omega, ?_⟩, fun hyp => ⟨by omega, ?_⟩⟩
    · have hdiv := hyp.2
      rw [show (len : Int) - 1 = ((len - 1 : Nat) : Int) by omega] at hdiv
      exact_mod_cast hdiv
    · rw [show (len : Int) - 1 = ((len - 1 : Nat) : Int) by omega, hyp.2]
      rfl
  have hvisible : visibleColumns S len b = (Finset.range len).filter fun j => j / S.blockSize = b := by
    ext c
    simp only [visibleColumns, Finset.mem_filter, Finset.mem_range]
    omega
  unfold blockScore blockBest
  rw [hvisible]
  exact if_congr hnewest rfl rfl

/-- A block that scores is visible. -/
theorem visible_of_best {blockSize : Nat} (hsize : 0 < blockSize) {score : Nat → F} {len b : Nat}
    (h : ⊥ < blockBest blockSize score len b) : b < cdiv len blockSize := by
  have hcover := le_cdiv_mul len hsize
  have hlt : ∀ j, j < len → j / blockSize < cdiv len blockSize := fun j hj =>
    (Nat.div_lt_iff_lt_mul hsize).mpr (Nat.lt_of_lt_of_le hj hcover)
  unfold blockBest at h
  split at h
  · rename_i hnewest
    rw [hnewest.2]
    exact hlt _ (by omega)
  · obtain ⟨j, hj, -⟩ := Finset.lt_sup_iff.mp h
    obtain ⟨hjlen, rfl⟩ := Finset.mem_filter.mp hj
    exact hlt j (Finset.mem_range.mp hjlen)

/-- A published row keeps the positions of the best blocks. -/
theorem CandidateRow.blocks {S : BlockShape} {logits : Nat → F} {len : Nat} {mask : Nat → Bool}
    (h : CandidateRow S logits len mask) (hlen : len ≤ S.width) :
    ∃ bs, BestBlocks S.blockSize S.topkBlocks logits len bs ∧
      ∀ j, j < len → (mask j = true ↔ j / S.blockSize ∈ bs) := by
  classical
  obtain ⟨sel, htop, hmask⟩ := h
  have htop := htop.congr fun b _ => blockScore_eq_blockBest hlen b
  let bs := (List.range (cdiv len S.blockSize)).filter fun b =>
    decide ((∃ i, i < S.topk ∧ sel i = b) ∧ ⊥ < blockBest S.blockSize logits len b)
  have hmem : ∀ b, b ∈ bs ↔ (∃ i, i < S.topk ∧ sel i = b) ∧ b < cdiv len S.blockSize ∧
      ⊥ < blockBest S.blockSize logits len b := by
    intro b
    simp only [bs, List.mem_filter, List.mem_range, decide_eq_true_iff]
    tauto
  refine ⟨bs, htop.topRow ?_ (fun _ _ _ => rfl) (fun b _ hb => ⟨visible_of_best S.blockSize_pos hb, hb⟩)
    (List.pairwise_lt_range.filter _) hmem, fun j hj => ?_⟩
  · exact Nat.div_le_div_right (by omega)
  · rw [hmask j (by omega), blockScore_eq_blockBest hlen, hmem]
    constructor
    · intro hyp
      exact ⟨hyp.1, visible_of_best S.blockSize_pos hyp.2, hyp.2⟩
    · intro hyp
      exact ⟨hyp.1, hyp.2.2⟩

/-- The rows of a call. -/
structure IndexBatch where
  req : List Nat
  pos : Nat → Nat

/-- `(pos + 1) // ratio`. -/
def IndexBatch.compressLens (B : IndexBatch) (ratio t : Nat) : Nat := (B.pos t + 1) / ratio

/-- `(req == r).nonzero().squeeze(1)`. -/
def IndexBatch.tok (B : IndexBatch) (r : Nat) : List Nat :=
  (List.range B.req.length).filter fun t => decide (B.req[t]? = some r)

/-- The slot of compressed position `j`. -/
def rowSlot (T : ReqToToken) (ratio r j : Nat) : Nat := T.slot r (j * ratio) / ratio

theorem rowSlot_fits (T : ReqToToken) (ratio r j : Nat) :
    toInt32 (rowSlot T ratio r j : Nat) = rowSlot T ratio r j := by
  have hlt := T.fits r (j * ratio)
  have hle : rowSlot T ratio r j ≤ T.slot r (j * ratio) := Nat.div_le_self _ _
  exact toInt32_of_fits (by omega) (by omega)

/-! ## Masks -/

/-- A boolean mask of some rows. -/
structure RowMask where
  cols : Nat
  rows : List (Nat → Bool)

/-- `masked_fill` of scores of `r` rows and `c` columns, which mask and scores broadcast to: the
columns of the result, and what the mask has for each of its elements. Other shapes raise, here or where the
rows are assigned. -/
def RowMask.expand (mask : RowMask) (r c : Nat) : Option (Nat × (Nat → Nat → Bool)) :=
  let width := if mask.cols = 1 then c else mask.cols
  if (mask.rows.length = r ∨ mask.rows.length = 1) ∧ (width = c ∨ c = 1) then
    some (width, fun i j => (mask.rows.getD (if mask.rows.length = 1 then 0 else i) fun _ => false)
      (if mask.cols = 1 then 0 else j))
  else none

/-- A mask of the right shape is taken as it is. -/
theorem RowMask.expand_self (mask : RowMask) {r c : Nat} (hr : mask.rows.length = r) (hc : mask.cols = c) :
    ∃ m, mask.expand r c = some (c, m) ∧
      ∀ i j, i < r → j < c → m i j = (mask.rows.getD i fun _ => false) j := by
  have hwidth : (if mask.cols = 1 then c else mask.cols) = c := by split <;> omega
  refine ⟨fun i j => (mask.rows.getD (if mask.rows.length = 1 then 0 else i) fun _ => false)
    (if mask.cols = 1 then 0 else j), ?_, fun i j hi hj => ?_⟩
  · unfold RowMask.expand
    rw [hwidth]
    exact if_pos ⟨Or.inl hr, Or.inl rfl⟩
  · have hi0 : (if mask.rows.length = 1 then 0 else i) = i := by split <;> omega
    have hj0 : (if mask.cols = 1 then 0 else j) = j := by split <;> omega
    dsimp only
    rw [hi0, hj0]

/-- `s.masked_fill(~keep, -torch.inf)` of `c` columns, where there is a mask. -/
def applyMask (keep : Option (Nat → Bool)) (c : Nat) (s : Nat → F) : Nat → F :=
  match keep with
  | some keep => fun j => if keep j = false then ⊥ else s (if c = 1 then 0 else j)
  | none => s

/-! ## A row -/

/-- A row of `page_indices` and, where there is one, of `raw_indices`. -/
structure IndexRow where
  page : Nat → Int
  raw : Option (Nat → Int)

/-- The result tensors. -/
abbrev IndexOut := Nat → IndexRow

/-- `fill_(-1)`. -/
def IndexOut.blank (writeRaw : Bool) : IndexOut := fun _ =>
  ⟨fun _ => -1, if writeRaw then some fun _ => -1 else none⟩

/-- The first columns of a row assigned. -/
def IndexRow.assign (row : IndexRow) (page raw : List Int) : IndexRow :=
  ⟨fun k => (page[k]?).getD (row.page k), row.raw.map fun m k => (raw[k]?).getD (m k)⟩

/-- Nothing is assigned from column `n` on. -/
def IndexRow.BlankFrom (row : IndexRow) (n : Nat) : Prop :=
  ∀ k, n ≤ k → row.page k = -1 ∧ ∀ m, row.raw = some m → m k = -1

theorem IndexOut.blank_blankFrom (writeRaw : Bool) (t n : Nat) : (IndexOut.blank writeRaw t).BlankFrom n := by
  refine fun k _ => ⟨rfl, fun m hm => ?_⟩
  unfold IndexOut.blank at hm
  cases writeRaw
  · cases hm
  · obtain rfl := Option.some.inj hm
    rfl

/-- The columns `sel` of a row's top-k of `k`, masked ones taken back, sorted; the row has `width` columns,
of which `fill` were asked for.
mirrors deepseek_v4_backend.py:3520-3524,3590-3594 -/
def finishRow (consumes : Bool) (s : Nat → F) (width fill k : Nat) (sel : Nat → Nat) : Option (List Int) := do
  guard (k ≤ width)
  let idx ← (List.range k).mapM fun i => do
    if consumes then
      let v ← maskTopkScores (fun j => some (s j)) width (sel i : Int) none
      pure (if v < 0 then (fill : Int) else v)
    else pure (sel i : Int)
  pure (idx.insertionSort (· ≤ ·))

/-- mirrors deepseek_v4_backend.py:3525-3530,3595-3600 -/
def pageEntries (slots : Nat → Nat) (width len : Nat) (idx : List Int) : List Int :=
  idx.map fun i => if i < (len : Int) then toInt32 (slots (min i (width - 1)).toNat) else -1

def rawEntries (len : Nat) (idx : List Int) : List Int :=
  idx.map fun i => if i < (len : Int) then toInt32 i else -1

/-- An ascending list is what is below `n`, then the rest. -/
theorem ascending_split {l : List Int} (h : l.Pairwise (· ≤ ·)) (n : Int) :
    l = l.filter (fun i => decide (i < n)) ++ l.filter (fun i => !decide (i < n)) := by
  refine (List.filter_append_perm (fun i => decide (i < n)) l).symm.eq_of_pairwise
    (fun a b _ _ => Int.le_antisymm) h ?_
  refine List.pairwise_append.mpr ⟨h.filter _, h.filter _, fun a ha b hb => ?_⟩
  have ha : a < n := by simpa using (List.mem_filter.mp ha).2
  have hb : n ≤ b := by simpa using (List.mem_filter.mp hb).2
  omega

section Row
variable {consumes : Bool} {s score : Nat → F} {width len K : Nat} {keep : Nat → Prop} {sel : Nat → Nat}

/-- A selected column before it is sorted. -/
def keptColumn (consumes : Bool) (s : Nat → F) (width : Nat) (c : Nat) : Int :=
  if consumes = true ∧ ¬(c < width ∧ ⊥ < s c) then width else c

theorem finishRow_eq (hw : 0 < width) {k : Nat} (hk : k ≤ width) :
    finishRow consumes s width width k sel =
      some (((List.range k).map fun i => keptColumn consumes s width (sel i)).insertionSort (· ≤ ·)) := by
  unfold finishRow
  rw [guard, if_pos hk, mapM_some (g := fun i => keptColumn consumes s width (sel i)) fun i _ => ?_]
  · rfl
  · cases consumes with
    | false => simp [keptColumn]
    | true =>
      have hsel : Selectable (fun j => some (s j)) width (sel i : Int) ↔ sel i < width ∧ ⊥ < s (sel i) := by
        unfold Selectable
        rw [gt_negInf_iff, Int.toNat_natCast, bot_lt_iff_ne_bot]
        simp
      rw [if_pos rfl, maskTopkScores_eq hw, Option.getD_none, Int.sub_zero]
      simp only [hsel, Option.bind_eq_bind, Option.bind_some, keptColumn, true_and]
      by_cases h : sel i < width ∧ ⊥ < s (sel i)
      · rw [if_pos h, if_neg (by omega), if_neg (not_not.mpr h)]
        rfl
      · rw [if_neg h, if_pos (by omega), if_pos h]
        rfl

/-- Distinct columns stay distinct, but for those out of reach. -/
theorem keptColumn_distinct (hlen : len ≤ width) (htop : IsTopK s width (min K width) sel) :
    ((List.range (min K width)).map fun i => keptColumn consumes s width (sel i)).Pairwise
      fun a b => a = b → (len : Int) ≤ a := by
  refine List.pairwise_map.mpr ((List.pairwise_lt_range).imp_of_mem fun {i i'} hi hi' hlt he => ?_)
  have hi := List.mem_range.mp hi
  have hi' := List.mem_range.mp hi'
  have hi_lt := htop.lt i hi
  have hi'_lt := htop.lt i' hi'
  unfold keptColumn at he ⊢
  split at he
  · rw [if_pos ‹_›]
    omega
  · rw [if_neg ‹_›]
    split at he
    · omega
    · have := htop.inj i i' hi hi' (by exact_mod_cast he)
      omega

/-- A column in reach that stays is one that was selected, and is kept. -/
theorem keptColumn_mem (hlen : len ≤ width) (htop : IsTopK s width (min K width) sel)
    (hkept : ∀ j, j < len → keep j → s j = score j)
    (hmasked : ∀ j, j < width → ⊥ < s j → j < len ∧ keep j)
    (hconsumes : consumes = true → ∀ j, j < len → keep j → ⊥ < score j)
    (hplain : consumes = false → ∀ j, j < len → keep j) {j : Nat} (hj : j < len) :
    (j : Int) ∈ (List.range (min K width)).map (fun i => keptColumn consumes s width (sel i)) ↔
      (∃ i, i < min K width ∧ sel i = j) ∧ keep j := by
  rw [List.mem_map]
  constructor
  · rintro ⟨i, hi, he⟩
    have hi := List.mem_range.mp hi
    unfold keptColumn at he
    split at he
    · omega
    · rename_i hno
      have he : sel i = j := by exact_mod_cast he
      refine ⟨⟨i, hi, he⟩, ?_⟩
      cases hc : consumes with
      | false => exact hplain hc j hj
      | true =>
        have hbot : ⊥ < s (sel i) := by
          by_contra hn
          exact hno ⟨hc, fun h => hn h.2⟩
        exact he ▸ (hmasked _ (htop.lt i hi) hbot).2
  · rintro ⟨⟨i, hi, he⟩, hk⟩
    refine ⟨i, List.mem_range.mpr hi, ?_⟩
    unfold keptColumn
    rw [if_neg, he]
    rintro ⟨hc, hno⟩
    refine hno ⟨htop.lt i hi, ?_⟩
    rw [he, hkept j hj hk]
    exact hconsumes hc j hj hk

/-- The columns below `n` of an ascending list of columns. -/
def reached (n : Nat) (idx : List Int) : List Nat := (idx.filter fun i => decide (i < (n : Int))).map Int.toNat

theorem mem_reached {idx : List Int} (h0 : ∀ i ∈ idx, 0 ≤ i) {j : Nat} :
    j ∈ reached len idx ↔ (j : Int) ∈ idx ∧ j < len := by
  unfold reached
  rw [List.mem_map]
  constructor
  · rintro ⟨a, ha, rfl⟩
    obtain ⟨hin, hlt⟩ := List.mem_filter.mp ha
    have hlt : a < (len : Int) := by simpa using hlt
    have h0a := h0 a hin
    rw [Int.toNat_of_nonneg h0a]
    exact ⟨hin, by omega⟩
  · rintro ⟨hin, hlt⟩
    exact ⟨(j : Int), List.mem_filter.mpr ⟨hin, by simpa using hlt⟩, Int.toNat_natCast j⟩

theorem reached_ascending {idx : List Int} (h0 : ∀ i ∈ idx, 0 ≤ i) (hasc : idx.Pairwise (· ≤ ·))
    (honce : idx.Pairwise fun a b => a = b → (len : Int) ≤ a) : (reached len idx).Pairwise (· < ·) := by
  refine List.pairwise_map.mpr (((hasc.and honce).filter _).imp_of_mem fun {a b} ha hb hab => ?_)
  obtain ⟨ha, halt⟩ := List.mem_filter.mp ha
  have halt : a < (len : Int) := by simpa using halt
  have hne : a ≠ b := fun he => by
    have hge : (len : Int) ≤ a := hab.2 he
    omega
  have hle : a ≤ b := hab.1
  have := h0 a ha
  omega

theorem reached_append (len : Nat) {idx : List Int} (h0 : ∀ i ∈ idx, 0 ≤ i) (hasc : idx.Pairwise (· ≤ ·)) :
    idx = (reached len idx).map Nat.cast ++ idx.filter fun i => !decide (i < (len : Int)) := by
  have hback : (reached len idx).map (Nat.cast (R := Int)) = idx.filter fun i => decide (i < (len : Int)) := by
    unfold reached
    rw [List.map_map]
    refine (List.map_congr_left fun a ha => ?_).trans (List.map_id _)
    exact Int.toNat_of_nonneg (h0 a (List.mem_filter.mp ha).1)
  rw [hback]
  exact ascending_split hasc len

/-- **A row.** The sorted columns are the top-k of the reachable columns that are kept, then columns out of
reach. -/
theorem finishRow_spec (consumes : Bool) (score : Nat → F) (keep : Nat → Prop) (hw : 0 < width)
    (hlen : len ≤ width) (htop : IsTopK s width (min K width) sel)
    (hkept : ∀ j, j < len → keep j → s j = score j)
    (hmasked : ∀ j, j < width → ⊥ < s j → j < len ∧ keep j)
    (hconsumes : consumes = true → ∀ j, j < len → keep j → ⊥ < score j)
    (hplain : consumes = false → ∀ j, j < len → keep j) :
    ∃ js rest, TopRow score len K keep js ∧
      finishRow consumes s width width (min K width) sel = some (js.map Nat.cast ++ rest) ∧
      (∀ i ∈ rest, (len : Int) ≤ i) ∧ js.length + rest.length = min K width := by
  let cols := (List.range (min K width)).map fun i => keptColumn consumes s width (sel i)
  let idx := cols.insertionSort (· ≤ ·)
  have hasc : idx.Pairwise (· ≤ ·) := List.pairwise_insertionSort _ _
  have hperm : idx.Perm cols := List.perm_insertionSort _ _
  have h0 : ∀ i ∈ idx, 0 ≤ i := by
    intro i hi
    obtain ⟨i, -, rfl⟩ := List.mem_map.mp (hperm.mem_iff.mp hi)
    unfold keptColumn
    split <;> omega
  have honce : idx.Pairwise fun a b => a = b → (len : Int) ≤ a :=
    (hperm.pairwise_iff fun {a b} h he => he ▸ h he.symm).mpr (keptColumn_distinct hlen htop)
  have happend := reached_append len h0 hasc
  refine ⟨reached len idx, idx.filter fun i => !decide (i < (len : Int)), ?_, ?_, fun i hi => ?_, ?_⟩
  · refine htop.topRow hlen hkept hmasked (reached_ascending h0 hasc honce) fun j => ?_
    rw [mem_reached h0, hperm.mem_iff]
    constructor
    · rintro ⟨hin, hlt⟩
      obtain ⟨hs, hk⟩ := (keptColumn_mem hlen htop hkept hmasked hconsumes hplain hlt).mp hin
      exact ⟨hs, hlt, hk⟩
    · rintro ⟨hs, hlt, hk⟩
      exact ⟨(keptColumn_mem hlen htop hkept hmasked hconsumes hplain hlt).mpr ⟨hs, hk⟩, hlt⟩
  · rw [finishRow_eq hw (Nat.min_le_right K width)]
    exact congrArg some happend
  · simpa using (List.mem_filter.mp hi).2
  · have hcount := congrArg List.length happend
    rw [List.length_append, List.length_map, List.length_insertionSort, List.length_map,
      List.length_range] at hcount
    exact hcount.symm

end Row

/-! ## What a row is for -/

/-- The columns a row may select: those of its mask that score above `-inf`, and all without a mask. -/
def Kept (score : Nat → F) (mask : Option (Nat → Bool)) (j : Nat) : Prop :=
  ∀ m, mask = some m → m j = true ∧ ⊥ < score j

/-- Row `t`, of request `r`, selects the positions `js` among its `len` visible ones. -/
structure RowSelects (l : IndexerLayer F) (T : ReqToToken) (r t len : Nat) (mask : Option (Nat → Bool))
    (row : IndexRow) (js : List Nat) : Prop where
  top : TopRow (fun j => l.score t (rowSlot T l.compressRatio r j)) len l.config.indexTopk
    (Kept (fun j => l.score t (rowSlot T l.compressRatio r j)) mask) js
  page : ∀ k, row.page k = (js[k]?).elim (-1) fun j => ((rowSlot T l.compressRatio r j : Nat) : Int)
  raw : ∀ m, row.raw = some m → ∀ k, m k = (js[k]?).elim (-1) fun j => toInt32 (j : Nat)

theorem applyMask_kept {s score : Nat → F} {mask : Option (Nat → Bool)} {width j : Nat} (hj : j < width)
    (hs : s j = score j) (hk : Kept score mask j) : applyMask mask width s j = score j := by
  cases mask with
  | none => exact hs
  | some m =>
    unfold applyMask
    dsimp only
    rw [(hk m rfl).1, if_neg (by decide), show (if width = 1 then 0 else j) = j by split <;> omega]
    exact hs

theorem lt_applyMask {s : Nat → F} {mask : Option (Nat → Bool)} {width j : Nat} (hj : j < width)
    (h : ⊥ < applyMask mask width s j) : ⊥ < s j ∧ ∀ m, mask = some m → m j = true := by
  cases mask with
  | none => exact ⟨h, fun m hm => nomatch hm⟩
  | some m =>
    unfold applyMask at h
    dsimp only at h
    rw [show (if width = 1 then 0 else j) = j by split <;> omega] at h
    split at h
    · exact absurd h (lt_irrefl _)
    · rename_i hm
      refine ⟨h, fun m' he => ?_⟩
      obtain rfl := Option.some.inj he
      exact Bool.eq_true_of_not_eq_false hm

section Selects
variable {l : IndexerLayer F} {T : ReqToToken} {r t len width : Nat} {mask : Option (Nat → Bool)} {row : IndexRow}
  {js : List Nat}

/-- Fewer than the visible positions, and than `index_topk`. -/
theorem RowSelects.length_le (h : RowSelects l T r t len mask row js) :
    js.length ≤ min l.config.indexTopk len := by
  have hsub : js.toFinset ⊆ Finset.range len := fun j hj =>
    Finset.mem_range.mpr (h.top.mem j (List.mem_toFinset.mp hj)).1
  have hcard := Finset.card_le_card hsub
  rw [List.toFinset_card_of_nodup h.top.nodup, Finset.card_range] at hcard
  exact le_min h.top.length_le hcard

theorem RowSelects.blankFrom (h : RowSelects l T r t len mask row js) {n : Nat}
    (hn : min l.config.indexTopk len ≤ n) : row.BlankFrom n := by
  intro k hk
  have hnone : js[k]? = none := List.getElem?_eq_none (by have := h.length_le; omega)
  exact ⟨by rw [h.page, hnone]; rfl, fun m hm => by rw [h.raw m hm, hnone]; rfl⟩

/-- What an entry in reach, or past it, becomes. -/
theorem entry_assigned {js : List Nat} {rest : List Int} {entry : Int → Int} {f : Nat → Int}
    (hjs : ∀ j ∈ js, entry (j : Nat) = f j) (hrest : ∀ i ∈ rest, entry i = -1) {before : Nat → Int}
    (hblank : ∀ k, js.length + rest.length ≤ k → before k = -1) (k : Nat) :
    (((js.map Nat.cast ++ rest).map entry)[k]?).getD (before k) = (js[k]?).elim (-1) f := by
  rw [List.getElem?_map]
  by_cases hk : k < js.length
  · rw [List.getElem?_append_left (by simpa using hk), List.getElem?_map, List.getElem?_eq_getElem hk]
    exact hjs _ (List.getElem_mem hk)
  · rw [List.getElem?_append_right (by simpa using hk), List.getElem?_eq_none (by omega : js.length ≤ k)]
    cases hr : rest[k - (js.map (Nat.cast (R := Int))).length]? with
    | none =>
      have hlen := List.getElem?_eq_none_iff.mp hr
      rw [List.length_map] at hlen
      exact hblank k (by omega)
    | some i => exact hrest i (List.mem_of_getElem? hr)

/-- **A row is finished.** Scores that are `-inf` out of reach, with or without a mask. -/
theorem selectRow_spec (mask : Option (Nat → Bool)) (hl : l.Lawful) (hw : 0 < width) (hlen : len ≤ width)
    {s : Nat → F}
    (hs : ∀ j, j < width → s j = if j < len then l.score t (rowSlot T l.compressRatio r j) else ⊥)
    {slots : Nat → Nat} (hslots : ∀ j, j < len → slots j = rowSlot T l.compressRatio r j)
    (hblank : row.BlankFrom (min l.config.indexTopk width)) :
    ∃ idx js, finishRow mask.isSome (applyMask mask width s) width width (min l.config.indexTopk width)
        (l.topk t (applyMask mask width s) width (min l.config.indexTopk width)) = some idx ∧
      RowSelects l T r t len mask (row.assign (pageEntries slots width len idx) (rawEntries len idx)) js := by
  have htop := hl.topk t (applyMask mask width s) width _ (Nat.min_le_right l.config.indexTopk width)
  obtain ⟨js, rest, hjs, hidx, hrest, hcount⟩ := finishRow_spec mask.isSome
    (fun j => l.score t (rowSlot T l.compressRatio r j))
    (Kept (fun j => l.score t (rowSlot T l.compressRatio r j)) mask) hw hlen htop
    (fun j hj hk => applyMask_kept (Nat.lt_of_lt_of_le hj hlen)
      ((hs j (Nat.lt_of_lt_of_le hj hlen)).trans (if_pos hj)) hk)
    (fun j hj hbot => by
      obtain ⟨hsj, hk⟩ := lt_applyMask hj hbot
      have hjlen : j < len := by
        by_contra hno
        rw [hs j hj, if_neg hno] at hsj
        exact lt_irrefl _ hsj
      rw [hs j hj, if_pos hjlen] at hsj
      exact ⟨hjlen, fun m hm => ⟨hk m hm, hsj⟩⟩)
    (fun hc j _ hk => by
      obtain ⟨m, hm⟩ := Option.isSome_iff_exists.mp hc
      exact (hk m hm).2)
    (fun hc j _ m hm => by rw [hm] at hc; cases hc)
  refine ⟨_, js, hidx, hjs, fun k => ?_, fun m hm k => ?_⟩
  · refine entry_assigned (fun j hj => ?_) (fun i hi => if_neg (Int.not_lt.mpr (hrest i hi)))
      (fun k hk => (hblank k (by omega)).1) k
    have hlt := (hjs.mem j hj).1
    have hmin : (min (j : Int) ((width : Int) - 1)).toNat = j := by omega
    rw [if_pos (by omega), hmin, hslots j hlt]
    exact rowSlot_fits T _ _ _
  · obtain ⟨m₀, hm₀, rfl⟩ := Option.map_eq_some_iff.mp hm
    refine entry_assigned (fun j hj => ?_) (fun i hi => if_neg (Int.not_lt.mpr (hrest i hi)))
      (fun k hk => (hblank k (by omega)).2 m₀ hm₀) k
    have hlt := (hjs.mem j hj).1
    exact if_pos (by omega)

end Selects

end FlashSpark.L3.Indexer
