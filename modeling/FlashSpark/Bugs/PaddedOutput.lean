import FlashSpark.L3PairState.C2Kernel

/-!
# A padded row at an odd position overwrites its output row

A location of 0 "marks a padded graph row, which the kernel skips entirely -- reading
nothing and writing nothing", and what its output row held "survives the call"
(ops/attention/dsv4/c2.py:76-78,84-87). At an even position the kernel returns before its
store (c2.cuh:126); at an odd one it tests the location only before the cache entry
(c2.cuh:234), when the latent is already stored (c2.cuh:185).

Counterexample: rows at positions 1 and 2 with location 0.

* `frames_iff`: exactly which batches leave alone what is documented.
-/
namespace FlashSpark.Bugs.PaddedOutput
open Launch L1.SlotAddress L3.C2

variable {V L C : Type}

/-- The wrappers of c2.py, over `run_decode`, `run_decode_fusion` and
`run_verify_fusion` (c2.cuh:293-362). -/
inductive Wrapper where
  | c2DecodeNorm
  | c2DecodeNormRopeStore
  | c2VerifyNormRopeStore (draftLen : Nat)

def Wrapper.store : Wrapper → Bool
  | .c2DecodeNorm => false
  | _ => true

def Wrapper.draftLen : Wrapper → Nat
  | .c2VerifyNormRopeStore draftLen => draftLen
  | _ => 1

def Wrapper.run (w : Wrapper) (K : Kernel V L C) (P : Params V) (numTokens : Nat) :
    Memory (Cell V L C) → Memory (Cell V L C) → Prop :=
  launch K P numTokens w.store w.draftLen

/-- A batch that passes the checks of `launch`. -/
structure Batch (w : Wrapper) (P : Params V) (numTokens : Nat) : Prop where
  ring : 0 < P.ringSize
  one_le : 1 ≤ w.draftLen
  blocks : numTokens % w.draftLen = 0
  wider : 1 < w.draftLen → w.draftLen < P.ringSize
  /-- Slots fit in int32 (c2.cuh:97-98). -/
  int32 : ∀ r, r < numTokens → P.rawOutLoc r < 2 ^ 31
  /-- The rows of the output tensor are distinct. -/
  output : ∀ r r', P.kvOutput r = P.kvOutput r' → r = r'

/-! ## What is documented -/

/-- A padded row writes nothing; a live one its ring slot at an even position, its
output row and the cache slot `raw_out_loc / 2` at an odd one. -/
def Documented (w : Wrapper) (K : Kernel V L C) (P : Params V) (row : Nat) : Loc → Prop
  | .kvState r => P.rawOutLoc row ≠ 0 ∧ P.positions row % 2 = 0 ∧ r = P.writeRow row
  | .kvOutput r => P.rawOutLoc row ≠ 0 ∧ P.positions row % 2 = 1 ∧ r = P.kvOutput row
  | .kvcache page slot => P.rawOutLoc row ≠ 0 ∧ P.positions row % 2 = 1 ∧ w.store = true ∧
      page.toNat * 2 ^ K.kPageBits + slot.toNat = P.rawOutLoc row / 2 ∧ slot.toNat < 2 ^ K.kPageBits

/-- Neither a row, whatever partner it loaded, nor a launch, in any order of its
CTAs, changes anything else. -/
structure Frames (w : Wrapper) (K : Kernel V L C) (P : Params V) (numTokens : Nat) : Prop where
  row : ∀ row, row < numTokens → ∀ old m l, ¬ Documented w K P row l →
    applyStores (rowStores K P w.store row old) m l = m l
  launch : ∀ m m', w.run K P numTokens m m' → ∀ l,
    (∀ row, row < numTokens → ¬ Documented w K P row l) → m' l = m l

theorem storesTo_documented {w : Wrapper} {K : Kernel V L C} {P : Params V} {row : Nat} {l : Loc}
    (hraw : P.rawOutLoc row < 2 ^ 31) (heven : P.rawOutLoc row = 0 → P.positions row % 2 = 0)
    (h : StoresTo K P w.store row l) : Documented w K P row l := by
  cases l with
  | kvState r =>
    obtain ⟨hpos, hlive, hr⟩ := h
    rw [padded_iff hraw] at hlive
    exact ⟨hlive, hpos, hr⟩
  | kvOutput r =>
    obtain ⟨hpos, hr⟩ := h
    refine ⟨fun h0 => ?_, hpos, hr⟩
    have := heven h0
    omega
  | kvcache page slot =>
    obtain ⟨hpos, hstore, hlive, hslot⟩ := h
    rw [padded_iff hraw] at hlive
    have hspec := c2Slot_spec K.pageBits_lt hraw
    rw [← hslot] at hspec
    exact ⟨hlive, hpos, hstore, hspec⟩

/-! ## The rows of a launch -/

/-- A launch changes only what one of its rows stores to. -/
theorem run_frame {w : Wrapper} {K : Kernel V L C} {P : Params V} {n : Nat}
    {m m' : Memory (Cell V L C)} (hrun : w.run K P n m m') {l : Loc}
    (hl : ∀ row, row < n → ¬ StoresTo K P w.store row l) : m' l = m l := by
  unfold Wrapper.run L3.C2.launch at hrun
  split at hrun
  · rw [hrun]
  · obtain ⟨-, -, hrun⟩ := hrun
    split at hrun
    · rename_i hD
      obtain ⟨hmod, -, hrun⟩ := hrun
      have hstore : w.store = true := by
        cases w with
        | c2VerifyNormRopeStore draftLen => rfl
        | _ => exact absurd hD (Nat.lt_irrefl 1)
      refine completes_frame hrun fun b seen hmem => ?_
      have hlt := block_row_lt b.2.isLt b.1.isLt
      rw [Nat.div_mul_cancel (Nat.dvd_of_mod_eq_zero hmod)] at hlt
      refine hl _ hlt ?_
      rw [hstore]
      exact mem_locs_rowStores.mp hmem
    · exact completes_frame hrun fun b seen hmem => hl b b.isLt (mem_locs_rowStores.mp hmem)

section First
variable {ι : Type} [Fintype ι] [DecidableEq ι] (K : Kernel V L C) {P : Params V}
  (kStore kVerify : Bool) (gridDimX : Nat)

/-- The CTA of an odd row may go first; what it pools does not depend on what its
output row held, and nothing overwrites it. -/
theorem completes_latent (hout : ∀ r r', P.kvOutput r = P.kvOutput r' → r = r') (ix : ι → BlockIdx)
    (hix : ∀ i j, rowOf kVerify gridDimX (ix i) = rowOf kVerify gridDimX (ix j) → i = j) (i : ι)
    (hodd : P.positions (rowOf kVerify gridDimX (ix i)) % 2 = 1) (m : Memory (Cell V L C)) :
    ∃ v, ∀ x, ∃ m', Completes (fun j => cta K P kStore kVerify gridDimX (ix j))
        (Function.update m (.kvOutput (P.kvOutput (rowOf kVerify gridDimX (ix i)))) x) m' ∧
      m' (.kvOutput (P.kvOutput (rowOf kVerify gridDimX (ix i)))) = v := by
  refine ⟨K.latent (kvOld P kVerify gridDimX (ix i) m) (P.kvInput (rowOf kVerify gridDimX (ix i))),
    fun x => ?_⟩
  obtain ⟨m', hrun, hval⟩ := exists_completes_first
    (fun j => cta K P kStore kVerify gridDimX (ix j)) (Function.update m _ x) i
  refine ⟨m', hrun, ?_⟩
  rw [hval _ fun j hj seen hmem => ?_]
  · -- the partner comes from the ring or the input, never from the output
    have hold : kvOld P kVerify gridDimX (ix i) (Function.update m
        (.kvOutput (P.kvOutput (rowOf kVerify gridDimX (ix i)))) x) =
          kvOld P kVerify gridDimX (ix i) m := rfl
    rw [← hold]
    exact applyStores_output hodd
  · obtain ⟨-, hsame⟩ := mem_locs_rowStores.mp hmem
    exact hj (hix j i (hout _ _ hsame.symm))

end First

/-- Some run of a launch leaves a latent in the output row of an odd row. -/
theorem run_latent (K : Kernel V L C) {w : Wrapper} {P : Params V} {n : Nat} (h : Batch w P n)
    {row : Nat} (hrow : row < n) (hodd : P.positions row % 2 = 1) (m : Memory (Cell V L C)) :
    ∃ v, ∀ x, ∃ m', w.run K P n (Function.update m (.kvOutput (P.kvOutput row)) x) m' ∧
      m' (.kvOutput (P.kvOutput row)) = v := by
  have hn : n ≠ 0 := by omega
  unfold Wrapper.run L3.C2.launch
  by_cases hD : 1 < w.draftLen
  · have hpos : 0 < w.draftLen := h.one_le
    have hblock : row / w.draftLen < n / w.draftLen := by
      rw [Nat.div_lt_iff_lt_mul hpos, Nat.div_mul_cancel (Nat.dvd_of_mod_eq_zero h.blocks)]
      exact hrow
    have hrowOf : rowOf true w.draftLen ⟨row % w.draftLen, row / w.draftLen⟩ = row :=
      Nat.div_add_mod' row w.draftLen
    have hix : ∀ b b' : Fin w.draftLen × Fin (n / w.draftLen),
        rowOf true w.draftLen ⟨b.1, b.2⟩ = rowOf true w.draftLen ⟨b'.1, b'.2⟩ → b = b' := by
      intro b b' hb
      obtain ⟨hy, hx⟩ := mul_add_inj b.1.isLt b'.1.isLt hb
      exact Prod.ext (Fin.ext hx) (Fin.ext hy)
    obtain ⟨v, hv⟩ := completes_latent K true true w.draftLen h.output
      (fun b : Fin w.draftLen × Fin (n / w.draftLen) => ⟨b.1, b.2⟩) hix
      (⟨row % w.draftLen, Nat.mod_lt _ hpos⟩, ⟨row / w.draftLen, hblock⟩)
      (by rw [hrowOf]; exact hodd) m
    rw [hrowOf] at hv
    refine ⟨v, fun x => ?_⟩
    obtain ⟨m', hrun, hval⟩ := hv x
    exact ⟨m', by rw [if_neg hn, if_pos hD]; exact ⟨h.ring, h.one_le, h.blocks, h.wider hD, hrun⟩,
      hval⟩
  · obtain ⟨v, hv⟩ := completes_latent K w.store false n h.output (fun b : Fin n => ⟨b, 0⟩)
      (fun _ _ hb => Fin.ext hb) ⟨row, hrow⟩ hodd m
    refine ⟨v, fun x => ?_⟩
    obtain ⟨m', hrun, hval⟩ := hv x
    exact ⟨m', by rw [if_neg hn, if_neg hD]; exact ⟨h.ring, h.one_le, hrun⟩, hval⟩

/-! ## Headline -/

theorem frames_of_even (K : Kernel V L C) {w : Wrapper} {P : Params V} {n : Nat} (h : Batch w P n)
    (heven : ∀ row, row < n → P.rawOutLoc row = 0 → P.positions row % 2 = 0) : Frames w K P n where
  row row hrow _ _ _ hl := applyStores_miss fun hmem => hl
    (storesTo_documented (h.int32 row hrow) (heven row hrow) (mem_locs_rowStores.mp hmem))
  launch _ _ hrun _ hl := run_frame hrun fun row hrow hst =>
    hl row hrow (storesTo_documented (h.int32 row hrow) (heven row hrow) hst)

/-- A padded row at an odd position breaks the frame of its launch. -/
theorem not_frames_of_odd [Nontrivial L] (K : Kernel V L C) {w : Wrapper} {P : Params V} {n : Nat}
    (h : Batch w P n) (row : Nat) (hrow : row < n) (hraw : P.rawOutLoc row = 0)
    (hodd : P.positions row % 2 = 1) : ¬ Frames w K P n := by
  intro hf
  let start : Memory (Cell V L C)
    | .kvState _ => P.kvInput row
    | .kvOutput _ => K.latent (P.kvInput row) (P.kvInput row)
    | .kvcache _ _ => K.entry (K.latent (P.kvInput row) (P.kvInput row)) 0
  obtain ⟨v, hv⟩ := run_latent K h hrow hodd start
  obtain ⟨x, hx⟩ := exists_ne v
  obtain ⟨m', hrun, hval⟩ := hv x
  have hkept := hf.launch _ _ hrun (.kvOutput (P.kvOutput row)) fun row' _ hdoc => by
    obtain ⟨hlive, -, hsame⟩ := hdoc
    rw [← h.output _ _ hsame] at hlive
    exact hlive hraw
  rw [hval, Function.update_self] at hkept
  exact hx hkept.symm

/-- **Which batches leave alone what is documented.** Exactly those without a
padded row at an odd position, in each of the three launches. -/
theorem frames_iff [Nontrivial L] (K : Kernel V L C) {w : Wrapper} {P : Params V} {n : Nat}
    (h : Batch w P n) :
    Frames w K P n ↔ ∀ row, row < n → P.rawOutLoc row = 0 → P.positions row % 2 = 0 := by
  constructor
  · intro hf row hrow hraw
    by_contra hodd
    exact not_frames_of_odd K h _ hrow hraw (by omega) hf
  · exact frames_of_even K h

/-- A padded block of position 0 is left alone. -/
theorem oddRing_frames : Frames (.c2VerifyNormRopeStore 3) pairKernel oddRing 9 :=
  (frames_iff pairKernel (w := .c2VerifyNormRopeStore 3) (P := oddRing) (n := 9)
    ⟨by decide, by decide, by decide, by decide, by decide, fun _ _ h => h⟩).mpr (by decide)

/-! ## A run that goes wrong -/

/-- A padded block whose first position is odd. -/
def oddPadding : Params Nat where
  kvInput r := r
  kvOutput r := r
  positions r := 1 + r
  req _ := 0
  rawOutLoc _ := 0
  ringSize := 4

theorem oddPadding_batch {w : Wrapper}
    (hw : w = .c2DecodeNorm ∨ w = .c2DecodeNormRopeStore ∨ w = .c2VerifyNormRopeStore 2) :
    Batch w oddPadding 2 := by
  rcases hw with rfl | rfl | rfl <;>
    exact ⟨by decide, by decide, by decide, by decide, by decide, fun _ _ h => h⟩

/-- Its first output row is overwritten by every wrapper. -/
theorem odd_padding_overwritten :
    ¬ Frames .c2DecodeNorm pairKernel oddPadding 2 ∧
      ¬ Frames .c2DecodeNormRopeStore pairKernel oddPadding 2 ∧
      ¬ Frames (.c2VerifyNormRopeStore 2) pairKernel oddPadding 2 := by
  refine ⟨?_, ?_, ?_⟩ <;>
    exact not_frames_of_odd pairKernel (oddPadding_batch (by simp)) 0 (by decide) rfl rfl

end FlashSpark.Bugs.PaddedOutput
