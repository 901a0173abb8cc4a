import FlashSpark.L1Layout.PageSplit

/-!
# The page split's 32-bit offsets wrap in large pools

`_page_split_kernel` multiplies a 32-bit page number with the page's stride in 8-byte
lanes (flash_mla_sm120.py:439-440). The kernels beside it widen their program id first
(`tl.program_id(0).to(tl.int64)`, dsv4/indexer_postprocess.py:26, dsv4/candidate_blocks.py:26).
Here nothing does, so the offset of a page past 16 GiB comes out negative, and the copy
reads and writes before the buffers, while every token index of the pool still fits in
32 bits.

Counterexample: the last page of 114718 pages of 256 tokens.

* `offsets_exact_iff`: for which pools the offsets are those of `pageSplitKernel`.
-/
namespace FlashSpark.Bugs.PageOffset
open L1.PageSplit

/-- A source pool as `_split_kv_pages_to_64` gets it. -/
structure Pool where
  pages : Nat
  srcPbs : Nat
  stride0 : Nat
  /-- The assertion on `src_pbs`. -/
  pbs : srcPbs % pbsDst = 0 ∧ pbsDst ≤ srcPbs
  /-- The assertion on `src_stride0`. -/
  stride : stride0 % 8 = 0
  /-- Token indices are `int32`. -/
  indices : pages * srcPbs < 2 ^ 31

def Pool.ratio (p : Pool) : Nat := p.srcPbs / pbsDst

/-- `page_idx * (src_stride0 // 8)`, in `int32` throughout: a Python literal takes the type
of the tensor it stands with. mirrors flash_mla_sm120.py:424-426, :439 -/
def Pool.srcOffset (p : Pool) (pid : Nat) : Int :=
  let pageIdx := toInt32 pid / p.ratio
  toInt32 (pageIdx * (p.stride0 / 8 : Nat))

/-- `(page_idx * RATIO + sub) * (dst_stride0 // 8)`. mirrors flash_mla_sm120.py:424-426, :440 -/
def Pool.dstOffset (p : Pool) (pid : Nat) : Int :=
  let pageIdx := toInt32 pid / p.ratio
  let sub := toInt32 pid % p.ratio
  toInt32 (toInt32 (toInt32 (pageIdx * p.ratio) + sub) * (bytesPerDstPagePadded / 8 : Nat))

/-- Program `pid` is launched: the pages are not of 64 tokens already, and the stride's
literal fits `int32` (the compiler refuses it otherwise). mirrors flash_mla_sm120.py:503-504, :568 -/
structure Pool.Launched (p : Pool) (pid : Nat) : Prop where
  split : p.srcPbs ≠ pbsDst
  literal : p.stride0 / 8 < 2 ^ 31
  grid : pid < p.pages * p.ratio

/-- The offsets of every launched program are the exact ones. -/
def Pool.Exact (p : Pool) : Prop :=
  ∀ pid, p.Launched pid →
    p.srcOffset pid = (pid / p.ratio * (p.stride0 / 8) : Nat) ∧
    p.dstOffset pid = ((pid / p.ratio * p.ratio + pid % p.ratio) * (bytesPerDstPagePadded / 8) : Nat)

/-- The last page's offsets fit in 32 bits, on both sides. -/
def Pool.Small (p : Pool) : Prop :=
  (p.pages - 1) * (p.stride0 / 8) < 2 ^ 31 ∧
    (p.pages * p.ratio - 1) * (bytesPerDstPagePadded / 8) < 2 ^ 31

instance (p : Pool) : Decidable p.Small := inferInstanceAs (Decidable (_ ∧ _))

variable {p : Pool}

theorem Pool.ratio_pos (p : Pool) : 0 < p.ratio := Nat.div_pos p.pbs.2 pbsDst_pos

theorem toInt32_natCast {n : Nat} (h : n < 2 ^ 31) : toInt32 n = n :=
  toInt32_of_fits (by omega) (by omega)

/-- The wrapped value is the number itself exactly when the number fits. -/
theorem toInt32_natCast_iff {n : Nat} : toInt32 n = n ↔ n < 2 ^ 31 := by
  refine ⟨fun h => ?_, toInt32_natCast⟩
  have hlt : toInt32 n < 2 ^ 31 := Int.bmod_lt (by decide)
  omega

/-- Programs and sub-pages are counted in 32 bits without wrapping. -/
theorem Pool.grid_lt (p : Pool) : p.pages * p.ratio < 2 ^ 31 := by
  have hle : p.pages * p.ratio ≤ p.pages * p.srcPbs := Nat.mul_le_mul_left _ (Nat.div_le_self _ _)
  exact Nat.lt_of_le_of_lt hle p.indices

theorem Pool.srcOffset_eq {pid : Nat} (h : pid < p.pages * p.ratio) :
    p.srcOffset pid = toInt32 (pid / p.ratio * (p.stride0 / 8) : Nat) := by
  have hpid : toInt32 pid = pid := toInt32_natCast (Nat.lt_trans h p.grid_lt)
  unfold Pool.srcOffset
  dsimp only
  rw [hpid, ← Int.natCast_ediv, ← Int.natCast_mul]

theorem Pool.dstOffset_eq {pid : Nat} (h : pid < p.pages * p.ratio) :
    p.dstOffset pid = toInt32 (pid * (bytesPerDstPagePadded / 8) : Nat) := by
  have hlt : pid < 2 ^ 31 := Nat.lt_trans h p.grid_lt
  have hpage : pid / p.ratio * p.ratio ≤ pid := Nat.div_mul_le_self pid p.ratio
  have hsum : pid / p.ratio * p.ratio + pid % p.ratio = pid := Nat.div_add_mod' pid p.ratio
  unfold Pool.dstOffset
  generalize bytesPerDstPagePadded / 8 = lanes
  have hpageCast : (pid : Int) / p.ratio * p.ratio = (pid / p.ratio * p.ratio : Nat) := by norm_cast
  have hsumCast : ((pid / p.ratio * p.ratio : Nat) : Int) + (pid : Int) % p.ratio = pid := by
    exact_mod_cast hsum
  dsimp only
  rw [toInt32_natCast hlt, hpageCast, toInt32_natCast (Nat.lt_of_le_of_lt hpage hlt), hsumCast,
    toInt32_natCast hlt, ← Int.natCast_mul]

/-- **When the offsets are exact.** Exactly for the pools whose last offsets fit in 32 bits;
pools of 64-token pages are not split at all. -/
theorem offsets_exact_iff (p : Pool) :
    p.Exact ↔ p.srcPbs = pbsDst ∨ 2 ^ 31 ≤ p.stride0 / 8 ∨ p.Small := by
  have hsum (pid : Nat) : pid / p.ratio * p.ratio + pid % p.ratio = pid := Nat.div_add_mod' pid p.ratio
  constructor
  · intro hexact
    by_cases hsplit : p.srcPbs = pbsDst
    · exact Or.inl hsplit
    by_cases hliteral : p.stride0 / 8 < 2 ^ 31
    · refine Or.inr (Or.inr ?_)
      by_cases hpages : p.pages = 0
      · simp [Pool.Small, hpages]
      -- the last program has the greatest offsets
      have hlast : p.pages * p.ratio - 1 < p.pages * p.ratio := by
        have := Nat.mul_pos (Nat.pos_of_ne_zero hpages) p.ratio_pos
        omega
      have hpage : (p.pages * p.ratio - 1) / p.ratio = p.pages - 1 := by
        have := p.ratio_pos
        refine Nat.div_eq_of_lt_le ?_ ?_
        · rw [Nat.sub_one_mul]
          omega
        · rw [Nat.sub_add_cancel (Nat.pos_of_ne_zero hpages)]
          exact hlast
      obtain ⟨hsrc, hdst⟩ := hexact _ ⟨hsplit, hliteral, hlast⟩
      rw [Pool.srcOffset_eq hlast, hpage] at hsrc
      rw [Pool.dstOffset_eq hlast, hsum] at hdst
      exact ⟨toInt32_natCast_iff.mp hsrc, toInt32_natCast_iff.mp hdst⟩
    · exact Or.inr (Or.inl (Nat.not_lt.mp hliteral))
  · intro hcond pid hpid
    rcases hcond with hsplit | hliteral | ⟨hsrc, hdst⟩
    · exact absurd hsplit hpid.split
    · exact absurd hpid.literal (Nat.not_lt.mpr hliteral)
    · rw [Pool.srcOffset_eq hpid.grid, Pool.dstOffset_eq hpid.grid, hsum]
      have hpage : pid / p.ratio ≤ p.pages - 1 := by
        have := (Nat.div_lt_iff_lt_mul p.ratio_pos).mpr hpid.grid
        omega
      have hle : pid ≤ p.pages * p.ratio - 1 := by have := hpid.grid; omega
      refine ⟨toInt32_natCast ?_, toInt32_natCast ?_⟩
      · exact Nat.lt_of_le_of_lt (Nat.mul_le_mul_right _ hpage) hsrc
      · exact Nat.lt_of_le_of_lt (Nat.mul_le_mul_right _ hle) hdst

/-- Four million tokens are below the bound. -/
example : Pool.Small ⟨15625, 256, 149760, by decide, by decide, by decide⟩ := by decide +kernel

def largePool : Pool := ⟨114718, 256, 149760, by decide, by decide, by decide⟩

/-- Its last page is looked for before the pool. -/
theorem last_page_wraps : largePool.srcOffset 458868 = -2147465056 ∧ ¬ largePool.Exact := by
  refine ⟨by decide +kernel, fun h => ?_⟩
  obtain ⟨hsrc, -⟩ := h 458868 ⟨by decide, by decide, by decide⟩
  exact absurd hsrc (by decide +kernel)

end FlashSpark.Bugs.PageOffset
