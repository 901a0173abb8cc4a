import FlashSpark.Core.Tiles
import FlashSpark.Core.TopK

/-!
# Candidate blocks

Two-level selection of the decode indexer, for logits that are not NaN
(kernels/ops/attention/dsv4/candidate_blocks.py). The source scores blocks of
columns and publishes those that `torch.topk` selects; a consumer keeps only
published columns.

* `scoresKernel`, `publishKernel`, `maskKernel`: the three kernels.
* `blockScore`: what a block is for: its greatest visible logit, `inf` for the block
  of the newest position.
* `source_output`, `source_keep`, `maskKernel_output`: what a source and a consumer leave.
* `candidate_blocks_spec`: the whole selection, and the eager path.
-/
namespace FlashSpark.L3.Indexer
open Launch

/-- An element of one of the tensors. -/
inductive BlockCell where
  | logit (row col : Nat)
  | len (row : Nat)
  | output (row col : Nat)
  | score (row b : Nat)
  | index (row i : Nat)
  | value (row i : Nat)
  | keep (row col : Nat)
  deriving DecidableEq

abbrev BlockCell.Val (F : Type) : BlockCell → Type
  | .len _ => Int
  | .index .. => Nat
  | .keep .. => Bool
  | _ => F

/-- `logits.shape` and the configuration. -/
structure BlockShape where
  rows : Nat
  width : Nat
  blockSize : Nat
  topkBlocks : Nat
  width_pos : 0 < width
  blockSize_pos : 0 < blockSize

namespace BlockShape
variable (S : BlockShape)

def blocks : Nat := cdiv S.width S.blockSize

/-- `triton.next_power_of_2(block_size)`. -/
def groupPad : Nat := 2 ^ Nat.clog 2 S.blockSize

def tile : Nat := max 1 (1024 / S.groupPad)

/-- How many blocks `torch.topk` selects. -/
def topk : Nat := min S.topkBlocks S.blocks

theorem blockSize_le_groupPad : S.blockSize ≤ S.groupPad := Nat.le_pow_clog (by decide) _

theorem col_lt_of_div {c : Nat} (hc : c < S.width) : c / S.blockSize < S.blocks := by
  have := le_cdiv_mul S.width S.blockSize_pos
  exact (Nat.div_lt_iff_lt_mul S.blockSize_pos).mpr (Nat.lt_of_lt_of_le hc this)

end BlockShape

variable {F : Type} [LinearOrder F] [BoundedOrder F]

/-- A block's lane values: what the kernel loads, `-inf` under the mask. -/
def groupValues (S : BlockShape) (logits : Nat → F) (length : Int) (b : Nat) : List F :=
  (List.range S.groupPad).map fun offset =>
    let col := b * S.blockSize + offset
    let inBounds := col < S.width ∧ offset < S.blockSize
    if inBounds ∧ (col : Int) < length then logits col else ⊥

/-- The reduced score of a block. -/
def groupScore (S : BlockShape) (logits : Nat → F) (length : Int) (b : Nat) : F :=
  if 0 < length ∧ (b : Int) = (length - 1).tdiv S.blockSize then ⊤
  else (groupValues S logits length b).foldr max ⊥

/-- mirrors candidate_blocks.py:13-43 (`_candidate_scores_kernel`); a lane is a block -/
def scoresLane (S : BlockShape) (m : Memory (BlockCell.Val F)) (row b : Nat) : Stores (BlockCell.Val F) :=
  let logits : Nat → F := fun col => m (.logit row col)
  let length : Int := m (.len row)
  (List.range S.groupPad).flatMap (fun offset =>
    let col := b * S.blockSize + offset
    if col < S.width ∧ offset < S.blockSize then
      [⟨.output row col, if (col : Int) < length then logits col else (⊥ : F)⟩]
    else []) ++
  if b < S.blocks then [⟨.score row b, groupScore S logits length b⟩] else []

/-- mirrors candidate_blocks.py:46-64 (`_candidate_mask_kernel`) -/
def maskLane (S : BlockShape) (m : Memory (BlockCell.Val F)) (row col : Nat) : Stores (BlockCell.Val F) :=
  let length : Int := m (.len row)
  let visible := col < S.width ∧ (col : Int) < length
  let keep : Bool := if visible then m (.keep row col) else false
  let value : F := if visible ∧ keep = true then m (.logit row col) else ⊥
  if col < S.width then [⟨.output row col, value⟩] else []

/-- mirrors candidate_blocks.py:67-85 (`_publish_candidate_mask_kernel`) -/
def publishLane (S : BlockShape) (m : Memory (BlockCell.Val F)) (row i : Nat) : Stores (BlockCell.Val F) :=
  if i < S.topk * S.blockSize then
    let selected : Nat := m (.index row (i / S.blockSize))
    let score : F := m (.value row (i / S.blockSize))
    let col := selected * S.blockSize + i % S.blockSize
    if col < S.width then [⟨.keep row col, decide (⊥ < score)⟩] else []
  else []

/-- The elements of `logits` and `seq_lens`. -/
def BlockShape.rowInputs (S : BlockShape) : Set BlockCell
  | .logit row col => row < S.rows ∧ col < S.width
  | .len row => row < S.rows
  | _ => False

def BlockShape.maskInputs (S : BlockShape) : Set BlockCell
  | .logit row col => row < S.rows ∧ col < S.width
  | .len row => row < S.rows
  | .keep row col => row < S.rows ∧ col < S.width
  | _ => False

/-- The elements of what `torch.topk` returned. -/
def BlockShape.topInputs (S : BlockShape) : Set BlockCell
  | .index row i => row < S.rows ∧ i < S.topk
  | .value row i => row < S.rows ∧ i < S.topk
  | _ => False

theorem groupScore_congr (S : BlockShape) {logits logits' : Nat → F} (length : Int) (b : Nat)
    (h : ∀ c, c < S.width → logits c = logits' c) :
    groupScore S logits length b = groupScore S logits' length b := by
  have hvalues : groupValues S logits length b = groupValues S logits' length b := by
    refine List.map_congr_left fun offset _ => ?_
    dsimp only
    split
    · rename_i hin
      exact h _ hin.1.1
    · rfl
  rw [groupScore, groupScore, hvalues]

def scoresKernel (S : BlockShape) : Tiled (BlockCell.Val F) where
  rows := S.rows
  tiles := cdiv S.blocks S.tile
  blk := S.tile
  reads := S.rowInputs
  lane := scoresLane S
  depends m m' row b hrow h := by
    have hlen : m (.len row) = m' (.len row) := h (.len row) hrow
    have hlogits : ∀ c, c < S.width → m (.logit row c) = m' (.logit row c) :=
      fun c hc => h (.logit row c) ⟨hrow, hc⟩
    unfold scoresLane
    dsimp only
    rw [hlen, groupScore_congr S (m' (.len row)) b hlogits]
    congr 2
    funext offset
    split
    · rename_i hin
      rw [hlogits _ hin.1]
    · rfl

def maskKernel (S : BlockShape) : Tiled (BlockCell.Val F) where
  rows := S.rows
  tiles := cdiv S.width 4096
  blk := 4096
  reads := S.maskInputs
  lane := maskLane S
  depends m m' row col hrow h := by
    unfold maskLane
    by_cases hcol : col < S.width
    · have hlen : m (.len row) = m' (.len row) := h (.len row) hrow
      have hlogit : m (.logit row col) = m' (.logit row col) := h (.logit row col) ⟨hrow, hcol⟩
      have hkeep : m (.keep row col) = m' (.keep row col) := h (.keep row col) ⟨hrow, hcol⟩
      rw [hlen, hlogit, hkeep]
    · simp only [hcol, if_false]

def publishKernel (S : BlockShape) : Tiled (BlockCell.Val F) where
  rows := S.rows
  tiles := cdiv (S.topk * S.blockSize) 256
  blk := 256
  reads := S.topInputs
  lane := publishLane S
  depends m m' row i hrow h := by
    unfold publishLane
    split
    · rename_i hi
      have hlt : i / S.blockSize < S.topk := (Nat.div_lt_iff_lt_mul S.blockSize_pos).mpr hi
      have hindex : m (.index row (i / S.blockSize)) = m' (.index row (i / S.blockSize)) :=
        h (.index ..) ⟨hrow, hlt⟩
      have hvalue : m (.value row (i / S.blockSize)) = m' (.value row (i / S.blockSize)) :=
        h (.value ..) ⟨hrow, hlt⟩
      rw [hindex, hvalue]
    · rfl

/-- `scores.topk(k, sorted=False)` and `keep = torch.zeros(...)`.
mirrors candidate_blocks.py:132-133 -/
structure Selects (S : BlockShape) (m m' : Memory (BlockCell.Val F)) : Prop where
  isTopK : ∀ row, row < S.rows →
    IsTopK (fun b => (m (.score row b) : F)) S.blocks S.topk fun i => m' (.index row i)
  value : ∀ row i, row < S.rows → i < S.topk → m' (.value row i) = m (.score row (m' (.index row i)))
  zeros : ∀ row col, row < S.rows → col < S.width → m' (.keep row col) = false
  output : ∀ row col, m' (.output row col) = m (.output row col)

/-- The call of a source layer: `output`, and the published `keep`.
mirrors candidate_blocks.py:88-149 (`candidate_block_logits`) -/
def sourceCall (S : BlockShape) (m m' : Memory (BlockCell.Val F)) : Prop :=
  ∃ m₁ m₂, (scoresKernel S).launch m m₁ ∧ Selects S m₁ m₂ ∧ (publishKernel S).launch m₂ m'

/-- The call of a consuming layer, on the published `keep`.
mirrors candidate_blocks.py:105-117 (`candidate_block_logits`) -/
def consumerCall (S : BlockShape) (m m' : Memory (BlockCell.Val F)) : Prop := (maskKernel S).launch m m'

/-! ## What it is for -/

/-- The columns of block `b` that a row of this length sees. -/
def visibleColumns (S : BlockShape) (length : Int) (b : Nat) : Finset Nat :=
  (Finset.range S.width).filter fun c => c / S.blockSize = b ∧ (c : Int) < length

/-- The greatest visible logit, and `inf` for the block of the newest position. -/
def blockScore (S : BlockShape) (logits : Nat → F) (length : Int) (b : Nat) : F :=
  if 0 < length ∧ (b : Int) = (length - 1) / S.blockSize then ⊤
  else (visibleColumns S length b).sup logits

/-- The eager path of a source.
mirrors deepseek_v4_backend.py:312-314 -/
def eagerLogits (logits : Nat → F) (length : Int) (col : Nat) : F :=
  if ¬(col : Int) < length then ⊥ else logits col

/-- The eager path of a consumer.
mirrors deepseek_v4_backend.py:312-314,323-326 -/
def eagerConsumer (logits : Nat → F) (length : Int) (published : Nat → Bool) (col : Nat) : F :=
  if published col = false then ⊥ else eagerLogits logits length col

theorem eagerLogits_eq (logits : Nat → F) (length : Int) (col : Nat) :
    eagerLogits logits length col = if (col : Int) < length then logits col else ⊥ := by
  rw [eagerLogits, ite_not]

theorem foldr_max_le_iff {l : List F} {a : F} : l.foldr max ⊥ ≤ a ↔ ∀ v ∈ l, v ≤ a := by
  induction l with
  | nil => simp
  | cons v l ih => simp [ih]

/-- The padded reduction is the greatest visible logit. -/
theorem foldr_groupValues (S : BlockShape) (logits : Nat → F) (length : Int) (b : Nat) :
    (groupValues S logits length b).foldr max ⊥ = (visibleColumns S length b).sup logits := by
  refine eq_of_forall_ge_iff fun a => ?_
  rw [foldr_max_le_iff, Finset.sup_le_iff]
  constructor
  · intro h c hc
    obtain ⟨hlt, rfl, hvis⟩ := Finset.mem_filter.mp hc
    have hlt := Finset.mem_range.mp hlt
    have hmod := Nat.mod_lt c S.blockSize_pos
    have hcol : c / S.blockSize * S.blockSize + c % S.blockSize = c := Nat.div_add_mod' c _
    refine h (logits c) (List.mem_map.mpr ⟨c % S.blockSize, List.mem_range.mpr ?_, ?_⟩)
    · exact Nat.lt_of_lt_of_le hmod S.blockSize_le_groupPad
    · dsimp only
      rw [hcol, if_pos ⟨⟨hlt, hmod⟩, hvis⟩]
  · intro h v hv
    obtain ⟨offset, -, rfl⟩ := List.mem_map.mp hv
    dsimp only
    split
    · rename_i hin
      obtain ⟨⟨hlt, hoff⟩, hvis⟩ := hin
      refine h _ (Finset.mem_filter.mpr ⟨Finset.mem_range.mpr hlt, ?_, hvis⟩)
      rw [Nat.mul_comm, Nat.mul_add_div S.blockSize_pos, Nat.div_eq_of_lt hoff, Nat.add_zero]
    · exact bot_le

theorem groupScore_eq (S : BlockShape) (logits : Nat → F) (length : Int) (b : Nat) :
    groupScore S logits length b = blockScore S logits length b := by
  unfold groupScore blockScore
  rw [foldr_groupValues]
  by_cases hlen : 0 < length
  · rw [Int.tdiv_eq_ediv_of_nonneg (by omega)]
  · simp only [hlen, false_and, if_false]

/-! ## The kernels -/

section Launches
variable {S : BlockShape} {m m' : Memory (BlockCell.Val F)} {row : Nat}

theorem mem_scoresLane {b : Nat} {l : BlockCell} {v : BlockCell.Val F l} :
    (⟨l, v⟩ : Σ l, BlockCell.Val F l) ∈ scoresLane S m row b ↔
      (∃ offset, b * S.blockSize + offset < S.width ∧ offset < S.blockSize ∧
        (⟨l, v⟩ : Σ l, BlockCell.Val F l) = ⟨.output row (b * S.blockSize + offset),
          if ((b * S.blockSize + offset : Nat) : Int) < m (.len row) then
            m (.logit row (b * S.blockSize + offset)) else (⊥ : F)⟩) ∨
      (b < S.blocks ∧ (⟨l, v⟩ : Σ l, BlockCell.Val F l) =
        ⟨.score row b, groupScore S (fun col => m (.logit row col)) (m (.len row)) b⟩) := by
  unfold scoresLane
  rw [List.mem_append, List.mem_flatMap]
  refine or_congr ⟨?_, ?_⟩ ⟨?_, ?_⟩
  · intro hyp
    obtain ⟨offset, -, h⟩ := hyp
    dsimp only at h
    split at h
    · rename_i hin
      exact ⟨offset, hin.1, hin.2, List.mem_singleton.mp h⟩
    · cases h
  · intro hyp
    obtain ⟨offset, hcol, hoff, h⟩ := hyp
    refine ⟨offset, List.mem_range.mpr (Nat.lt_of_lt_of_le hoff S.blockSize_le_groupPad), ?_⟩
    dsimp only
    rw [if_pos ⟨hcol, hoff⟩]
    exact List.mem_singleton.mpr h
  · intro h
    split at h
    · exact ⟨‹_›, List.mem_singleton.mp h⟩
    · cases h
  · intro hyp
    obtain ⟨hb, h⟩ := hyp
    rw [if_pos hb]
    exact List.mem_singleton.mpr h

theorem div_of_offset {b offset : Nat} (h : offset < S.blockSize) :
    (b * S.blockSize + offset) / S.blockSize = b := by
  rw [Nat.mul_comm, Nat.mul_add_div S.blockSize_pos, Nat.div_eq_of_lt h, Nat.add_zero]

/-- Which cells block `b` is stored to. -/
theorem locs_scoresLane {b : Nat} {l : BlockCell} (h : l ∈ locs (scoresLane S m row b)) :
    (∃ col, l = .output row col ∧ col / S.blockSize = b) ∨ l = .score row b := by
  obtain ⟨⟨l, v⟩, hmem, rfl⟩ := List.mem_map.mp h
  rcases mem_scoresLane.mp hmem with ⟨offset, -, hoff, he⟩ | ⟨-, he⟩
  · exact .inl ⟨_, congrArg Sigma.fst he, div_of_offset hoff⟩
  · exact .inr (congrArg Sigma.fst he)

theorem scoresKernel_apart : (scoresKernel S).Apart m where
  reads row b l _ hl := by
    rcases locs_scoresLane hl with ⟨col, rfl, -⟩ | rfl
    · exact id
    · exact id
  lanes row b row' b' l _ _ hl hl' := by
    rcases locs_scoresLane hl with ⟨col, rfl, rfl⟩ | rfl
    · rcases locs_scoresLane hl' with ⟨col', he, rfl⟩ | he
      · obtain ⟨rfl, rfl⟩ := BlockCell.output.inj he
        exact ⟨rfl, rfl⟩
      · cases he
    · rcases locs_scoresLane hl' with ⟨col', he, -⟩ | he
      · cases he
      · exact BlockCell.score.inj he

theorem scoresKernel_lane {b : Nat} (hb : b < S.blocks) :
    b < (scoresKernel (F := F) S).tiles * (scoresKernel (F := F) S).blk :=
  Nat.lt_of_lt_of_le hb (le_cdiv_mul S.blocks (Nat.lt_of_lt_of_le Nat.one_pos (Nat.le_max_left _ _)))

theorem scoresKernel_output (hrun : (scoresKernel S).launch m m') (hrow : row < S.rows) {col : Nat}
    (hcol : col < S.width) :
    m' (.output row col) = eagerLogits (fun c => m (.logit row c)) (m (.len row)) col := by
  have hsplit : col / S.blockSize * S.blockSize + col % S.blockSize = col := Nat.div_add_mod' col _
  refine Tiled.launch_stored scoresKernel_apart hrun hrow (scoresKernel_lane (S.col_lt_of_div hcol)) ?_
    fun v' hv' => ?_
  · refine mem_scoresLane.mpr (.inl ⟨col % S.blockSize, by omega, Nat.mod_lt col S.blockSize_pos, ?_⟩)
    rw [hsplit, eagerLogits_eq]
  · rcases mem_scoresLane.mp hv' with ⟨offset, -, -, he⟩ | ⟨-, he⟩
    · obtain ⟨hloc, hval⟩ := Sigma.mk.inj he
      obtain ⟨-, hcol'⟩ := BlockCell.output.inj hloc
      rw [← hcol'] at hval
      rw [eq_of_heq hval, eagerLogits_eq]
    · cases (Sigma.mk.inj he).1

theorem scoresKernel_score (hrun : (scoresKernel S).launch m m') (hrow : row < S.rows) {b : Nat}
    (hb : b < S.blocks) :
    m' (.score row b) = blockScore S (fun c => m (.logit row c)) (m (.len row)) b := by
  rw [← groupScore_eq]
  refine Tiled.launch_stored scoresKernel_apart hrun hrow (scoresKernel_lane hb) ?_ fun v' hv' => ?_
  · exact mem_scoresLane.mpr (.inr ⟨hb, rfl⟩)
  · rcases mem_scoresLane.mp hv' with ⟨offset, -, -, he⟩ | ⟨-, he⟩
    · cases (Sigma.mk.inj he).1
    · exact eq_of_heq (Sigma.mk.inj he).2

theorem mem_publishLane {i : Nat} {l : BlockCell} {v : BlockCell.Val F l}
    (h : (⟨l, v⟩ : Σ l, BlockCell.Val F l) ∈ publishLane S m row i) : i < S.topk * S.blockSize ∧
      (⟨l, v⟩ : Σ l, BlockCell.Val F l) =
        ⟨.keep row (m (.index row (i / S.blockSize)) * S.blockSize + i % S.blockSize),
          decide ((⊥ : F) < m (.value row (i / S.blockSize)))⟩ := by
  unfold publishLane at h
  split at h
  · dsimp only at h
    split at h
    · exact ⟨‹_›, List.mem_singleton.mp h⟩
    · cases h
  · cases h

theorem locs_publishLane {i : Nat} {l : BlockCell} (h : l ∈ locs (publishLane S m row i)) :
    i < S.topk * S.blockSize ∧
      l = .keep row (m (.index row (i / S.blockSize)) * S.blockSize + i % S.blockSize) := by
  obtain ⟨⟨l, v⟩, hmem, rfl⟩ := List.mem_map.mp h
  exact ⟨(mem_publishLane hmem).1, congrArg Sigma.fst (mem_publishLane hmem).2⟩

/-- Distinct blocks: each column has one writer. -/
theorem publishKernel_apart (hinj : ∀ row, row < S.rows → ∀ i j, i < S.topk → j < S.topk →
    (m (.index row i) : Nat) = m (.index row j) → i = j) : (publishKernel S).Apart m where
  reads row i l _ hl := by
    obtain ⟨-, rfl⟩ := locs_publishLane hl
    exact id
  lanes row i row' i' l hrow _ hl hl' := by
    obtain ⟨hi, rfl⟩ := locs_publishLane hl
    obtain ⟨hi', he⟩ := locs_publishLane hl'
    obtain ⟨hrows, hcols⟩ := BlockCell.keep.inj he
    subst hrows
    have hmod := Nat.mod_lt i S.blockSize_pos
    have hmod' := Nat.mod_lt i' S.blockSize_pos
    have hdiv := congrArg (· / S.blockSize) hcols
    simp only [div_of_offset hmod, div_of_offset hmod'] at hdiv
    have hsame := hinj row hrow _ _ ((Nat.div_lt_iff_lt_mul S.blockSize_pos).mpr hi)
      ((Nat.div_lt_iff_lt_mul S.blockSize_pos).mpr hi') hdiv
    rw [hdiv, Nat.add_left_cancel_iff] at hcols
    refine ⟨rfl, ?_⟩
    rw [← Nat.div_add_mod' i S.blockSize, ← Nat.div_add_mod' i' S.blockSize, hsame, hcols]

theorem mem_maskLane {col : Nat} {l : BlockCell} {v : BlockCell.Val F l}
    (h : (⟨l, v⟩ : Σ l, BlockCell.Val F l) ∈ maskLane S m row col) : col < S.width ∧
      (⟨l, v⟩ : Σ l, BlockCell.Val F l) = ⟨.output row col,
        eagerConsumer (fun c => m (.logit row c)) (m (.len row)) (fun c => m (.keep row c)) col⟩ := by
  unfold maskLane at h
  dsimp only at h
  split at h
  · rename_i hcol
    refine ⟨hcol, (List.mem_singleton.mp h).trans ?_⟩
    unfold eagerConsumer eagerLogits
    by_cases hvis : (col : Int) < m (.len row)
    · cases hkeep : (m (.keep row col) : Bool) <;> simp [hcol, hvis, hkeep]
    · simp [hvis]
  · cases h

theorem locs_maskLane {col : Nat} {l : BlockCell} (h : l ∈ locs (maskLane S m row col)) :
    l = .output row col := by
  obtain ⟨⟨l, v⟩, hmem, rfl⟩ := List.mem_map.mp h
  exact congrArg Sigma.fst (mem_maskLane hmem).2

theorem maskKernel_apart : (maskKernel S).Apart m where
  reads row col l _ hl := by
    obtain rfl := locs_maskLane hl
    exact id
  lanes row col row' col' l _ _ hl hl' := by
    obtain rfl := locs_maskLane hl
    exact BlockCell.output.inj (locs_maskLane hl')

theorem maskKernel_output (hrun : (maskKernel S).launch m m') (hrow : row < S.rows) {col : Nat}
    (hcol : col < S.width) : m' (.output row col) =
      eagerConsumer (fun c => m (.logit row c)) (m (.len row)) (fun c => m (.keep row c)) col := by
  have hlane : col < (maskKernel (F := F) S).tiles * (maskKernel (F := F) S).blk :=
    Nat.lt_of_lt_of_le hcol (le_cdiv_mul S.width (by decide))
  have hloc : .output row col ∈ locs (maskLane S m row col) := by simp [locs, maskLane, hcol]
  obtain ⟨⟨l, v⟩, hmem, rfl⟩ := List.mem_map.mp hloc
  have hval : ∀ v', (⟨.output row col, v'⟩ : Σ l, BlockCell.Val F l) ∈ maskLane S m row col →
      v' = eagerConsumer (fun c => m (.logit row c)) (m (.len row)) (fun c => m (.keep row c)) col :=
    fun v' hv' => eq_of_heq (Sigma.mk.inj (mem_maskLane hv').2).2
  exact Tiled.launch_stored maskKernel_apart hrun hrow hlane (hval v hmem ▸ hmem) hval

/-- Where `keep` was all zeros, exactly the columns of the selected blocks whose score is
above `-inf` are kept. -/
theorem publishKernel_keep (hrun : (publishKernel S).launch m m') (hrow : row < S.rows)
    (hinj : ∀ row, row < S.rows → ∀ i j, i < S.topk → j < S.topk →
      (m (.index row i) : Nat) = m (.index row j) → i = j)
    (hzero : ∀ col, col < S.width → m (.keep row col) = false) {col : Nat} (hcol : col < S.width) :
    m' (.keep row col) = true ↔
      ∃ i, i < S.topk ∧ m (.index row i) = col / S.blockSize ∧ (⊥ : F) < m (.value row i) := by
  have hapart := publishKernel_apart (m := m) hinj
  have hmod := Nat.mod_lt col S.blockSize_pos
  by_cases hsel : ∃ i, i < S.topk ∧ (m (.index row i) : Nat) = col / S.blockSize
  · obtain ⟨i, hi, hindex⟩ := hsel
    -- the lane that stores to this column
    have hj : i * S.blockSize + col % S.blockSize < S.topk * S.blockSize := by
      have := Nat.mul_le_mul_right S.blockSize (show i + 1 ≤ S.topk from hi)
      rw [Nat.succ_mul] at this
      omega
    have hdiv := div_of_offset (b := i) hmod
    have hrem : (i * S.blockSize + col % S.blockSize) % S.blockSize = col % S.blockSize := by
      rw [Nat.mul_comm, Nat.mul_add_mod, Nat.mod_mod]
    have hlane : i * S.blockSize + col % S.blockSize <
        (publishKernel (F := F) S).tiles * (publishKernel (F := F) S).blk :=
      Nat.lt_of_lt_of_le hj (le_cdiv_mul _ (by decide))
    have hkeep : m' (.keep row col) = decide ((⊥ : F) < m (.value row i)) := by
      refine Tiled.launch_stored hapart hrun hrow hlane ?_ fun v' hv' => ?_
      · show _ ∈ publishLane S m row (i * S.blockSize + col % S.blockSize)
        unfold publishLane
        rw [if_pos hj, hdiv, hrem, hindex]
        dsimp only
        rw [Nat.div_add_mod', if_pos hcol]
        exact List.mem_singleton.mpr rfl
      · have hval := eq_of_heq (Sigma.mk.inj (mem_publishLane hv').2).2
        rwa [hdiv] at hval
    rw [hkeep, decide_eq_true_iff]
    constructor
    · intro hgt
      exact ⟨i, hi, hindex, hgt⟩
    · intro hyp
      obtain ⟨i', hi', hindex', hgt⟩ := hyp
      obtain rfl := hinj row hrow i i' hi hi' (hindex.trans hindex'.symm)
      exact hgt
  · have hkept : m' (.keep row col) = m (.keep row col) := by
      refine Tiled.launch_kept hapart hrun fun row' j hrow' _ hl => hsel ?_
      obtain ⟨hj, he⟩ := locs_publishLane hl
      obtain ⟨rfl, rfl⟩ := BlockCell.keep.inj he
      exact ⟨j / S.blockSize, (Nat.div_lt_iff_lt_mul S.blockSize_pos).mpr hj,
        (div_of_offset (Nat.mod_lt j S.blockSize_pos)).symm⟩
    rw [hkept, hzero col hcol]
    exact ⟨fun h => absurd h Bool.false_ne_true, fun ⟨i, hi, hindex, _⟩ => absurd ⟨i, hi, hindex⟩ hsel⟩

end Launches

/-! ## The source -/

section Source
variable {S : BlockShape} {m m₁ m₂ m' : Memory (BlockCell.Val F)}

/-- The row's logits, and what its blocks score. -/
abbrev rowLogits (m : Memory (BlockCell.Val F)) (row : Nat) : Nat → F := fun col => m (.logit row col)

abbrev rowScore (S : BlockShape) (m : Memory (BlockCell.Val F)) (row b : Nat) : F :=
  blockScore S (rowLogits m row) (m (.len row)) b

theorem Selects.rowTopK (hsel : Selects S m₁ m₂) (hscores : (scoresKernel S).launch m m₁) {row : Nat}
    (hrow : row < S.rows) :
    IsTopK (rowScore S m row) S.blocks S.topk fun i => m₂ (.index row i) :=
  (hsel.isTopK row hrow).congr fun _ hb => scoresKernel_score hscores hrow hb

theorem source_output (hscores : (scoresKernel S).launch m m₁) (hsel : Selects S m₁ m₂)
    (hpub : (publishKernel S).launch m₂ m') {row col : Nat} (hrow : row < S.rows) (hcol : col < S.width) :
    m' (.output row col) = eagerLogits (rowLogits m row) (m (.len row)) col := by
  have hkept : m' (.output row col) = m₂ (.output row col) := by
    refine Tiled.launch_kept (publishKernel_apart fun row hrow => (hsel.isTopK row hrow).inj) hpub
      fun row' j _ _ hl => ?_
    cases (locs_publishLane hl).2
  rw [hkept, hsel.output]
  exact scoresKernel_output hscores hrow hcol

theorem source_keep (hscores : (scoresKernel S).launch m m₁) (hsel : Selects S m₁ m₂)
    (hpub : (publishKernel S).launch m₂ m') {row col : Nat} (hrow : row < S.rows) (hcol : col < S.width) :
    m' (.keep row col) = true ↔
      (∃ i, i < S.topk ∧ m₂ (.index row i) = col / S.blockSize) ∧
        ⊥ < rowScore S m row (col / S.blockSize) := by
  have hvalue : ∀ i, i < S.topk → (m₂ (.value row i) : F) = rowScore S m row (m₂ (.index row i)) := by
    intro i hi
    rw [hsel.value row i hrow hi]
    exact scoresKernel_score hscores hrow ((hsel.isTopK row hrow).lt i hi)
  rw [publishKernel_keep hpub hrow (fun row hrow => (hsel.isTopK row hrow).inj)
    (fun col hcol => hsel.zeros row col hrow hcol) hcol]
  constructor
  · intro h
    obtain ⟨i, hi, hindex, hgt⟩ := h
    rw [hvalue i hi, hindex] at hgt
    exact ⟨⟨i, hi, hindex⟩, hgt⟩
  · intro h
    obtain ⟨⟨i, hi, hindex⟩, hgt⟩ := h
    exact ⟨i, hi, hindex, by rw [hvalue i hi, hindex]; exact hgt⟩

/-- `m` when `torch.topk` has selected `sel`. -/
def withSelection (m : Memory (BlockCell.Val F)) (sel : Nat → Nat → Nat) : Memory (BlockCell.Val F)
  | .index row i => sel row i
  | .value row i => m (.score row (sel row i))
  | .keep _ _ => false
  | .logit row col => m (.logit row col)
  | .len row => m (.len row)
  | .output row col => m (.output row col)
  | .score row b => m (.score row b)

/-- Every selection that `torch.topk` may make has its outcome. -/
theorem exists_sourceCall (S : BlockShape) (m : Memory (BlockCell.Val F)) {sel : Nat → Nat → Nat}
    (hsel : ∀ row, row < S.rows → IsTopK (rowScore S m row) S.blocks S.topk (sel row)) :
    ∃ m', sourceCall S m m' ∧ ∀ row col, row < S.rows → col < S.width →
      (m' (.keep row col) = true ↔
        (∃ i, i < S.topk ∧ sel row i = col / S.blockSize) ∧ ⊥ < rowScore S m row (col / S.blockSize)) := by
  obtain ⟨m₁, hscores⟩ := (scoresKernel S).exists_launch m
  have hselects : Selects S m₁ (withSelection m₁ sel) :=
    ⟨fun row hrow => (hsel row hrow).congr fun _ hb => (scoresKernel_score hscores hrow hb).symm,
      fun _ _ _ _ => rfl, fun _ _ _ _ => rfl, fun _ _ => rfl⟩
  obtain ⟨m', hpub⟩ := (publishKernel S).exists_launch (withSelection m₁ sel)
  exact ⟨m', ⟨m₁, _, hscores, hselects, hpub⟩,
    fun row col hrow hcol => source_keep hscores hselects hpub hrow hcol⟩

end Source

/-! ## The selection -/

def newestBlock (S : BlockShape) (length : Int) : Nat := ((length - 1) / S.blockSize).toNat

/-- The other blocks that score `inf`. -/
def otherTops (S : BlockShape) (logits : Nat → F) (length : Int) : Finset Nat :=
  (Finset.range S.blocks).filter fun b => b ≠ newestBlock S length ∧ blockScore S logits length b = ⊤

section Spec
variable {S : BlockShape} {logits : Nat → F} {length : Int}

theorem newestBlock_spec (h0 : 0 < length) (hle : length ≤ S.width) :
    (newestBlock S length : Int) = (length - 1) / S.blockSize ∧ newestBlock S length < S.blocks := by
  have hpos : (0 : Int) < S.blockSize := Int.natCast_pos.mpr S.blockSize_pos
  have hcast : (newestBlock S length : Int) = (length - 1) / S.blockSize :=
    Int.toNat_of_nonneg (Int.ediv_nonneg (by omega) (by omega))
  refine ⟨hcast, ?_⟩
  have hdiv : newestBlock S length = (length - 1).toNat / S.blockSize := by
    have : (((length - 1).toNat : Nat) : Int) = length - 1 := Int.toNat_of_nonneg (by omega)
    rw [← this] at hcast
    exact_mod_cast hcast
  rw [hdiv]
  exact S.col_lt_of_div (by omega)

theorem blockScore_newest (h0 : 0 < length) (hle : length ≤ S.width) :
    blockScore S logits length (newestBlock S length) = ⊤ :=
  if_pos ⟨h0, (newestBlock_spec h0 hle).1⟩

/-- A block that the row sees nothing of scores `-inf`. -/
theorem blockScore_hidden (hle : length ≤ S.width) {b : Nat}
    (h : ∀ c, c < S.width → c / S.blockSize = b → length ≤ (c : Int)) :
    blockScore S logits length b = ⊥ := by
  have hempty : visibleColumns S length b = ∅ := by
    refine Finset.filter_eq_empty_iff.mpr fun c hc hvis => ?_
    have := h c (Finset.mem_range.mp hc) hvis.1
    omega
  unfold blockScore
  rw [hempty, Finset.sup_empty]
  refine if_neg fun hnew => ?_
  -- the newest block holds the newest position
  have hdiv : (length - 1).toNat / S.blockSize = b := by
    have hcast : (((length - 1).toNat : Nat) : Int) = length - 1 := Int.toNat_of_nonneg (by omega)
    have := hnew.2
    rw [← hcast] at this
    exact_mod_cast this.symm
  have := h (length - 1).toNat (by omega) hdiv
  omega

/-- The newest block is selected when fewer than `topk_blocks` others score as much. -/
theorem newest_selected (h0 : 0 < length) (hle : length ≤ S.width)
    (hfew : (otherTops S logits length).card < S.topkBlocks) {sel : Nat → Nat}
    (htop : IsTopK (blockScore S logits length) S.blocks S.topk sel) :
    ∃ i, i < S.topk ∧ sel i = newestBlock S length := by
  obtain ⟨-, hlt⟩ := newestBlock_spec h0 hle
  refine htop.mem_of_few hlt ?_
  have heq : (Finset.range S.blocks).filter (fun b => b ≠ newestBlock S length ∧
      blockScore S logits length (newestBlock S length) ≤ blockScore S logits length b) =
      otherTops S logits length := by
    refine Finset.filter_congr fun b _ => and_congr_right fun _ => ?_
    rw [blockScore_newest h0 hle, top_le_iff]
  have hcard : (otherTops S logits length).card < S.blocks := by
    have hsub : otherTops S logits length ⊆ (Finset.range S.blocks).erase (newestBlock S length) := by
      intro b hb
      obtain ⟨hrange, hne, -⟩ := Finset.mem_filter.mp hb
      exact Finset.mem_erase.mpr ⟨hne, hrange⟩
    have := Finset.card_le_card hsub
    rw [Finset.card_erase_of_mem (Finset.mem_range.mpr hlt), Finset.card_range] at this
    omega
  rw [heq]
  exact lt_min hfew hcard

/-- **Two-level selection.** For row lengths within the width: the source returns the
visible logits and publishes exactly the columns of the selected blocks that score above
`-inf`, so nothing of a block the row sees nothing of, and all of the newest block unless
`topk_blocks` others score `inf` too. A consumer returns the logits that are visible and
published. The eager path returns the same. -/
theorem candidate_blocks_spec [Nontrivial F] {m m' : Memory (BlockCell.Val F)}
    (hlen : ∀ row, row < S.rows → (m (.len row) : Int) ≤ S.width) :
    (sourceCall S m m' → ∀ row, row < S.rows →
      (∀ col, col < S.width →
        m' (.output row col) = (if (col : Int) < m (.len row) then m (.logit row col) else (⊥ : F)) ∧
        m' (.output row col) = eagerLogits (rowLogits m row) (m (.len row)) col) ∧
      (∃ sel, IsTopK (rowScore S m row) S.blocks S.topk sel ∧ ∀ col, col < S.width →
        (m' (.keep row col) = true ↔ (∃ i, i < S.topk ∧ sel i = col / S.blockSize) ∧
          ⊥ < rowScore S m row (col / S.blockSize))) ∧
      (∀ col, col < S.width →
        (∀ c, c < S.width → c / S.blockSize = col / S.blockSize → (m (.len row) : Int) ≤ c) →
        m' (.keep row col) = false) ∧
      (0 < (m (.len row) : Int) → (otherTops S (rowLogits m row) (m (.len row))).card < S.topkBlocks →
        ∀ col, col < S.width → col / S.blockSize = newestBlock S (m (.len row)) →
          m' (.keep row col) = true)) ∧
    (consumerCall S m m' → ∀ row col, row < S.rows → col < S.width →
      m' (.output row col) =
        (if (col : Int) < m (.len row) ∧ m (.keep row col) = true then m (.logit row col) else (⊥ : F)) ∧
      m' (.output row col) =
        eagerConsumer (rowLogits m row) (m (.len row)) (fun c => m (.keep row c)) col) := by
  constructor
  · intro h row hrow
    obtain ⟨m₁, m₂, hscores, hsel, hpub⟩ := h
    have htop := hsel.rowTopK hscores hrow
    have hkeep := fun col => @source_keep F _ _ S m m₁ m₂ m' hscores hsel hpub row col hrow
    refine ⟨fun col hcol => ?_, ⟨_, htop, hkeep⟩, fun col hcol hhidden => ?_, fun h0 hfew col hcol hnew => ?_⟩
    · have hout := source_output hscores hsel hpub hrow hcol
      exact ⟨hout.trans (eagerLogits_eq _ _ _), hout⟩
    · by_contra hne
      have hpublished := ((hkeep col hcol).mp (Bool.eq_true_of_not_eq_false hne)).2
      rw [rowScore, blockScore_hidden (hlen row hrow) hhidden] at hpublished
      exact lt_irrefl _ hpublished
    · refine (hkeep col hcol).mpr ?_
      rw [hnew, rowScore, blockScore_newest h0 (hlen row hrow)]
      exact ⟨newest_selected h0 (hlen row hrow) hfew htop, bot_lt_top⟩
  · intro hrun row col hrow hcol
    have hout := maskKernel_output hrun hrow hcol
    refine ⟨hout.trans ?_, hout⟩
    unfold eagerConsumer
    rw [eagerLogits_eq]
    by_cases hvis : (col : Int) < m (.len row)
    · cases hk : (m (.keep row col) : Bool) <;> simp [hvis, hk]
    · simp [hvis]

end Spec

/-- One row; `Fin 3` is `-inf`, a number and `inf`. -/
def oneRow (logits : List (Fin 3)) (length : Int) : Memory (BlockCell.Val (Fin 3))
  | .logit _ col => logits.getD col 0
  | .len _ => length
  | .output _ _ => (0 : Fin 3)
  | .score _ _ => (0 : Fin 3)
  | .index _ _ => (0 : Nat)
  | .value _ _ => (0 : Fin 3)
  | .keep _ _ => false

/-- Three columns in blocks of two, of which one is selected: the newest. -/
def threeColumns : BlockShape := ⟨1, 3, 2, 1, by decide, by decide⟩

theorem threeColumns_newest : ∃ m', sourceCall threeColumns (oneRow [1, 1, 1] 3) m' ∧
    m' (.output 0 0) = (1 : Fin 3) ∧ m' (.keep 0 2) = true := by
  have htop : ∀ row, row < 1 →
      IsTopK (rowScore threeColumns (oneRow [1, 1, 1] 3) row) 2 1 ((fun _ _ => 1) row) := by
    refine fun row _ => ⟨fun _ _ => Nat.one_lt_two, fun i j hi hj _ => by omega, fun i b _ _ _ => ?_⟩
    rw [show rowScore threeColumns (oneRow [1, 1, 1] 3) row 1 = ⊤ by rfl]
    exact le_top
  obtain ⟨m', hcall, -⟩ := exists_sourceCall threeColumns (oneRow [1, 1, 1] 3) htop
  obtain ⟨hout, -, -, hnew⟩ :=
    (candidate_blocks_spec (S := threeColumns) fun row _ => Int.le_refl 3).1 hcall 0 (by decide)
  exact ⟨m', hcall, (hout 0 (by decide)).1, hnew (by decide) (by decide) 2 (by decide) (by decide)⟩

/-- Two columns, each a block of its own, one selected. -/
def twoBlocks : BlockShape := ⟨1, 2, 1, 1, by decide, by decide⟩

/-- An `inf` logit ties with the newest block, which may then stay unpublished. -/
theorem newest_block_left_out : ∃ m', sourceCall twoBlocks (oneRow [2, 1] 2) m' ∧
    newestBlock twoBlocks 2 = 1 ∧ m' (.keep 0 1) = false := by
  have htop : ∀ row, row < 1 → IsTopK (rowScore twoBlocks (oneRow [2, 1] 2) row) 2 1 ((fun _ _ => 0) row) := by
    refine fun row _ => ⟨fun _ _ => Nat.two_pos, fun i j hi hj _ => by omega, fun i b _ _ _ => ?_⟩
    rw [show rowScore twoBlocks (oneRow [2, 1] 2) row 0 = ⊤ by rfl]
    exact le_top
  obtain ⟨m', hcall, hkeep⟩ := exists_sourceCall twoBlocks (oneRow [2, 1] 2) htop
  refine ⟨m', hcall, by decide, Bool.eq_false_of_not_eq_true fun h => ?_⟩
  obtain ⟨⟨i, -, hi⟩, -⟩ := (hkeep 0 1 (by decide) (by decide)).mp h
  exact absurd hi (by decide)

end FlashSpark.L3.Indexer
