import FlashSpark.Core.Tensor
import FlashSpark.Core.Tiles
import FlashSpark.L3Indexer.Scores

/-!
# From selected positions to KV slots

`filter_topk_pages` (kernels/ops/attention/dsv4/indexer_postprocess.py) drops the
selections of the decode indexer whose score is masked and maps the others through
the page table, in one kernel; without CUDA the same is done with torch
(deepseek_v4_backend.py:3450-3457).

* `filterTopkPages`: the kernel, whose masked loads all stay inside their tensors
  (`filterLane_depends`).
* `filterFallback_eq`: the torch path never gathers out of bounds, and its value.
* `filter_topk_pages_eq_fallback`: both write the same.
-/
namespace FlashSpark.L3.Indexer
open Launch

/-- An element of one of the tensors of a call. -/
inductive PageCell where
  | score (row col : Nat)
  | index (row col : Nat)
  | page (row col : Nat)
  | out (row col : Nat)
  | raw (row col : Nat)
  deriving DecidableEq

abbrev PageCell.Val (F : Type) : PageCell → Type
  | .score .. => Score F
  | _ => Int

/-- What the host asserts of the tensors of a call (indexer_postprocess.py:50-57). -/
structure PageShape where
  rows : Nat
  width : Nat
  topk : Nat
  pageSize : Nat
  tableCols : Nat
  writeRaw : Bool
  width_pos : 0 < width
  covers : width ≤ tableCols * pageSize

theorem PageShape.pageSize_pos (S : PageShape) : 0 < S.pageSize := by
  have := S.width_pos
  have := S.covers
  exact Nat.pos_of_ne_zero fun h0 => by rw [h0] at this; omega

/-- The page of an in-bounds index is in the table. -/
theorem PageShape.page_lt (S : PageShape) {index : Int} (h0 : 0 ≤ index) (h : index < S.width) :
    0 ≤ index / S.pageSize ∧ index / S.pageSize < S.tableCols := by
  have hps := S.pageSize_pos
  have hcov := S.covers
  refine ⟨Int.ediv_nonneg h0 (by omega), Int.ediv_lt_of_lt_mul (by omega) ?_⟩
  have : ((S.tableCols * S.pageSize : Nat) : Int) = S.tableCols * S.pageSize := Nat.cast_mul _ _
  omega

variable {F : Type} [LinearOrder F] [BoundedOrder F]

/-- What a lane makes of its index, given the row's scores and pages: the slot and the
index, or -1. Integer division in a kernel truncates.
mirrors indexer_postprocess.py:29-35 -/
def filterEntry (S : PageShape) (scores : Nat → Score F) (pages : Nat → Int) (index : Int) : Int × Int :=
  let inBounds := 0 ≤ index ∧ index < S.width
  let score := if inBounds then scores index.toNat else negInf
  -- this comparison also rejects NaN
  let valid := inBounds ∧ Score.gt score negInf = true
  let page := if valid then pages (index.tdiv S.pageSize).toNat else 0
  let slot := toInt32 (page * S.pageSize) + index.tmod S.pageSize
  (toInt32 (if valid then slot else -1), if valid then index else -1)

/-- mirrors indexer_postprocess.py:8-37 (`_filter_topk_pages`) -/
def filterLane (S : PageShape) (m : Memory (PageCell.Val F)) (row col : Nat) : Stores (PageCell.Val F) :=
  if col < S.topk then
    let entry := filterEntry S (fun c => m (.score row c)) (fun c => m (.page row c)) (m (.index row col))
    ⟨.out row col, entry.1⟩ :: if S.writeRaw then [⟨.raw row col, entry.2⟩] else []
  else []

/-- The elements of the tensors that are read. -/
def PageShape.inputs (S : PageShape) : Set PageCell
  | .score row col => row < S.rows ∧ col < S.width
  | .index row col => row < S.rows ∧ col < S.topk
  | .page row col => row < S.rows ∧ col < S.tableCols
  | .out .. => False
  | .raw .. => False

/-- Masked loads stay inside the row of scores and the row of pages. -/
theorem filterEntry_congr (S : PageShape) {scores scores' : Nat → Score F} {pages pages' : Nat → Int}
    (hscores : ∀ c, c < S.width → scores c = scores' c) (hpages : ∀ c, c < S.tableCols → pages c = pages' c)
    (index : Int) : filterEntry S scores pages index = filterEntry S scores' pages' index := by
  unfold filterEntry
  by_cases hin : 0 ≤ index ∧ index < S.width
  · have hpage : pages (index.tdiv S.pageSize).toNat = pages' (index.tdiv S.pageSize).toNat := by
      obtain ⟨h0, hlt⟩ := S.page_lt hin.1 hin.2
      rw [Int.tdiv_eq_ediv_of_nonneg hin.1]
      exact hpages _ (by omega)
    simp only [hscores index.toNat (by omega), hpage]
  · simp only [hin, if_false, false_and]

theorem filterLane_depends (S : PageShape) (m m' : Memory (PageCell.Val F)) (row col : Nat)
    (hrow : row < S.rows) (h : ∀ l ∈ S.inputs, m l = m' l) :
    filterLane S m row col = filterLane S m' row col := by
  unfold filterLane
  by_cases hcol : col < S.topk
  · have hentry := filterEntry_congr S (fun c hc => h (.score row c) ⟨hrow, hc⟩)
      (fun c hc => h (.page row c) ⟨hrow, hc⟩) (m (.index row col))
    have hindex : m (.index row col) = m' (.index row col) := h _ ⟨hrow, hcol⟩
    rw [if_pos hcol, if_pos hcol, hentry, hindex]
  · rw [if_neg hcol, if_neg hcol]

def filterTopkPages (S : PageShape) : Tiled (PageCell.Val F) where
  rows := S.rows
  tiles := cdiv S.topk 256
  blk := 256
  reads := S.inputs
  lane := filterLane S
  depends := filterLane_depends S

/-- One entry on the torch path: what is copied to `page_indices` and to `raw_indices`.
mirrors deepseek_v4_backend.py:3450-3457 -/
def filterFallback (S : PageShape) (scores : Nat → Score F) (pages : Nat → Int) (index : Int) :
    Option (Int × Int) := do
  let selected ← maskTopkScores scores S.width index none
  let column := max selected 0
  let page ← gather pages S.tableCols (column / S.pageSize)
  let slots := toInt32 (page * S.pageSize) + column % S.pageSize
  pure (toInt32 (if 0 ≤ selected then slots else -1), selected)

/-! ## What an entry is -/

/-- The slot of position `index`, in 32-bit arithmetic. -/
def slotOf (S : PageShape) (pages : Nat → Int) (index : Int) : Int :=
  toInt32 (toInt32 (pages (index / S.pageSize).toNat * S.pageSize) + index % S.pageSize)

theorem toInt32_neg_one : toInt32 (-1) = -1 := toInt32_of_fits (by norm_num) (by norm_num)

section Entry
variable {S : PageShape} {scores : Nat → Score F} {pages : Nat → Int} {index : Int}

theorem filterEntry_eq : filterEntry S scores pages index =
    if Selectable scores S.width index then (slotOf S pages index, index) else (-1, -1) := by
  unfold filterEntry
  by_cases hin : 0 ≤ index ∧ index < S.width
  · have hsel : Selectable scores S.width index ↔ Score.gt (scores index.toNat) negInf = true :=
      ⟨fun h => h.2.2, fun h => ⟨hin.1, hin.2, h⟩⟩
    simp only [hin, and_self, if_true, true_and, hsel]
    split
    · rw [Int.tdiv_eq_ediv_of_nonneg hin.1, Int.tmod_eq_emod_of_nonneg hin.1]
      rfl
    · rw [toInt32_neg_one]
  · have hno : ¬Selectable scores S.width index := fun h => hin ⟨h.1, h.2.1⟩
    simp only [hin, false_and, if_false, hno, toInt32_neg_one]

theorem filterFallback_eq : filterFallback S scores pages index =
    some (if Selectable scores S.width index then (slotOf S pages index, index) else (-1, -1)) := by
  unfold filterFallback
  rw [maskTopkScores_eq S.width_pos, Option.getD_none, Int.sub_zero]
  split
  · rename_i hsel
    obtain ⟨h0, hlt, -⟩ := hsel
    obtain ⟨hpage0, hpage⟩ := S.page_lt h0 hlt
    simp only [Option.bind_eq_bind, Option.bind_some]
    rw [max_eq_left h0, gather_of_lt hpage0 hpage, Option.bind_some, if_pos h0]
    rfl
  · obtain ⟨hpage0, hpage⟩ := S.page_lt (Int.le_refl 0) (Int.natCast_pos.mpr S.width_pos)
    simp only [Option.bind_eq_bind, Option.bind_some]
    rw [show max (-1 : Int) 0 = 0 from rfl, gather_of_lt hpage0 hpage, Option.bind_some,
      if_neg (by omega), toInt32_neg_one]
    rfl

end Entry

/-- The pages are pages of a pool whose slots are 32-bit numbers. -/
def PoolPages (S : PageShape) (pages : Nat → Int) : Prop :=
  ∀ c, c < S.tableCols → 0 ≤ pages c ∧ (pages c + 1) * S.pageSize ≤ 2 ^ 31

/-- In such a pool nothing wraps. -/
theorem PoolPages.slotOf_eq {S : PageShape} {pages : Nat → Int} (h : PoolPages S pages) {index : Int}
    (h0 : 0 ≤ index) (hlt : index < S.width) :
    0 ≤ slotOf S pages index ∧
      slotOf S pages index = pages (index / S.pageSize).toNat * S.pageSize + index % S.pageSize := by
  have hps := S.pageSize_pos
  obtain ⟨hpage0, hpage⟩ := S.page_lt h0 hlt
  obtain ⟨hnonneg, hfits⟩ := h (index / S.pageSize).toNat (by omega)
  have hmod0 := Int.emod_nonneg index (show (S.pageSize : Int) ≠ 0 by omega)
  have hmod := Int.emod_lt_of_pos index (show (0 : Int) < S.pageSize by omega)
  have hprod := Int.mul_nonneg hnonneg (Int.natCast_nonneg S.pageSize)
  unfold slotOf
  generalize pages (index / S.pageSize).toNat = page at *
  rw [Int.add_mul, Int.one_mul] at hfits
  rw [toInt32_of_fits (x := page * S.pageSize) (by omega) (by omega), toInt32_of_fits (by omega) (by omega)]
  omega

/-! ## The launch -/

section Launch
variable {S : PageShape} {m m' : Memory (PageCell.Val F)}

theorem mem_filterLane {row col : Nat} {l : PageCell} (h : l ∈ locs (filterLane S m row col)) :
    col < S.topk ∧ (l = .out row col ∨ S.writeRaw = true ∧ l = .raw row col) := by
  unfold filterLane at h
  split at h
  · rename_i hcol
    cases hraw : S.writeRaw with
    | false => exact ⟨hcol, .inl (by simpa [locs, hraw] using h)⟩
    | true =>
      have h : l = .out row col ∨ l = .raw row col := by simpa [locs, hraw] using h
      exact ⟨hcol, h.imp_right fun h => ⟨rfl, h⟩⟩
  · cases h

theorem filterTopkPages_apart : (filterTopkPages S).Apart m where
  reads row j l _ hl := by
    obtain ⟨-, rfl | ⟨-, rfl⟩⟩ := mem_filterLane hl
    · exact id
    · exact id
  lanes row j row' j' l _ _ hl hl' := by
    obtain ⟨-, rfl | ⟨-, rfl⟩⟩ := mem_filterLane hl
    · obtain ⟨-, he | ⟨-, he⟩⟩ := mem_filterLane hl'
      · exact PageCell.out.inj he
      · cases he
    · obtain ⟨-, he | ⟨-, he⟩⟩ := mem_filterLane hl'
      · cases he
      · exact PageCell.raw.inj he

theorem filterTopkPages_out (hrun : (filterTopkPages S).launch m m') {row col : Nat} (hrow : row < S.rows)
    (hcol : col < S.topk) : m' (.out row col) =
      (filterEntry S (fun c => m (.score row c)) (fun c => m (.page row c)) (m (.index row col))).1 := by
  have hlane : col < (filterTopkPages (F := F) S).tiles * (filterTopkPages (F := F) S).blk :=
    Nat.lt_of_lt_of_le hcol (le_cdiv_mul S.topk (by decide))
  refine Tiled.launch_stored filterTopkPages_apart hrun hrow hlane ?_ fun v' hv' => ?_
  · simp [filterTopkPages, filterLane, hcol]
  · cases hraw : S.writeRaw <;> simpa [filterTopkPages, filterLane, hcol, hraw] using hv'

theorem filterTopkPages_raw (hrun : (filterTopkPages S).launch m m') (hraw : S.writeRaw = true)
    {row col : Nat} (hrow : row < S.rows) (hcol : col < S.topk) : m' (.raw row col) =
      (filterEntry S (fun c => m (.score row c)) (fun c => m (.page row c)) (m (.index row col))).2 := by
  have hlane : col < (filterTopkPages (F := F) S).tiles * (filterTopkPages (F := F) S).blk :=
    Nat.lt_of_lt_of_le hcol (le_cdiv_mul S.topk (by decide))
  refine Tiled.launch_stored filterTopkPages_apart hrun hrow hlane ?_ fun v' hv' => ?_
  · simp [filterTopkPages, filterLane, hcol, hraw]
  · simpa [filterTopkPages, filterLane, hcol, hraw] using hv'

/-- **The post-filter kernel is its torch fallback.** Entry by entry, in order: the
fallback gathers nothing out of bounds and writes what the kernel writes; an entry whose
index is out of bounds or whose score is not above `-inf` is -1, any other is the slot of
its index; and for the pages of a pool slots are exact, so that -1 says invalid. -/
theorem filter_topk_pages_eq_fallback (S : PageShape) {m m' : Memory (PageCell.Val F)}
    (hrun : (filterTopkPages S).launch m m') {row col : Nat} (hrow : row < S.rows) (hcol : col < S.topk) :
    let scores : Nat → Score F := fun c => m (.score row c)
    let pages : Nat → Int := fun c => m (.page row c)
    let index : Int := m (.index row col)
    (∃ raw, filterFallback S scores pages index = some (m' (.out row col), raw) ∧
      (S.writeRaw = true → m' (.raw row col) = raw)) ∧
    (¬Selectable scores S.width index →
      m' (.out row col) = (-1 : Int) ∧ (S.writeRaw = true → m' (.raw row col) = (-1 : Int))) ∧
    (Selectable scores S.width index →
      m' (.out row col) = slotOf S pages index ∧ (S.writeRaw = true → m' (.raw row col) = index)) ∧
    (PoolPages S pages →
      (m' (.out row col) = (-1 : Int) ↔ ¬Selectable scores S.width index) ∧
      (Selectable scores S.width index →
        m' (.out row col) = pages (index / S.pageSize).toNat * S.pageSize + index % S.pageSize)) := by
  intro scores pages index
  have hout : m' (.out row col) = (filterEntry S scores pages index).1 := filterTopkPages_out hrun hrow hcol
  have hraw : S.writeRaw = true → m' (.raw row col) = (filterEntry S scores pages index).2 :=
    fun h => filterTopkPages_raw hrun h hrow hcol
  rw [filterEntry_eq] at hout hraw
  refine ⟨⟨_, by rw [filterFallback_eq, hout], hraw⟩, fun hno => ?_, fun hsel => ?_, fun hpool => ?_⟩
  · rw [if_neg hno] at hout hraw
    exact ⟨hout, hraw⟩
  · rw [if_pos hsel] at hout hraw
    exact ⟨hout, hraw⟩
  · by_cases hsel : Selectable scores S.width index
    · obtain ⟨hnonneg, heq⟩ := hpool.slotOf_eq hsel.1 hsel.2.1
      rw [if_pos hsel] at hout
      refine ⟨iff_of_false (fun he => ?_) (not_not_intro hsel), fun _ => hout.trans heq⟩
      have : slotOf S pages index = -1 := hout.symm.trans he
      omega
    · rw [if_neg hsel] at hout
      exact ⟨iff_of_true hout hsel, fun h => absurd h hsel⟩

end Launch

theorem demo_width : 0 < 3 := by decide

/-- One row of three scores, the middle one NaN, on pages of two. -/
def demoShape : PageShape := ⟨1, 3, 4, 2, 2, true, demo_width, by decide⟩

def demoMemory : Memory (PageCell.Val Bool)
  | .score _ col => [some true, none, some true].getD col (some false)
  | .index _ col => [2, 1, -7, 0].getD col 9
  | .page _ col => [5, 3].getD col 0
  | .out .. => (0 : Int)
  | .raw .. => (0 : Int)

theorem demo_filtered : ∃ m', (filterTopkPages demoShape).launch demoMemory m' ∧
    m' (.out 0 0) = (6 : Int) ∧ m' (.out 0 1) = (-1 : Int) ∧ m' (.raw 0 3) = (0 : Int) := by
  obtain ⟨m', hrun⟩ := (filterTopkPages demoShape).exists_launch demoMemory
  have h := fun col hcol =>
    @filter_topk_pages_eq_fallback Bool _ _ demoShape demoMemory m' hrun 0 col (by decide) hcol
  refine ⟨m', hrun, ?_, ?_, ?_⟩
  · exact ((h 0 (by decide)).2.2.1 (by decide)).1
  · exact ((h 1 (by decide)).2.1 (by decide)).1
  · exact ((h 3 (by decide)).2.2.1 (by decide)).2 rfl

end FlashSpark.L3.Indexer
