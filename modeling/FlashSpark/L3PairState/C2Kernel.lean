import FlashSpark.Core.Launch
import FlashSpark.L1Layout.SlotAddress

/-!
# The fused ratio-2 compressor kernel

A pair of tokens is compressed when its odd token arrives; until then the even
token's `| kv | score |` row waits in a ring of `ring_size` rows per request. A
decode launch has one CTA a request; a verify launch has one for each of the
`draft_len` consecutive positions of a request's block, and nothing orders them.

`cta` is one CTA (what it loads, then what it stores), `launch` the launch with
its checks, `replay` the same rows one position a launch.

* `verify_matches_decode_replay`: every schedule of a verify launch ends in the
  memory every schedule of the replay ends in.
* `odd_ring_head_load_is_hit`: a padded block's head loads (and discards) a ring
  row that another CTA of the launch may be writing, when `ring_size` is odd.

Pooling with the norm (`latent`) and RoPE with the quantised 584-byte entry
(`entry`) are parameters.
-/
namespace FlashSpark.L3.C2

open Launch L1.SlotAddress

/-! ## The kernel -/

/-- The addresses a launch stores to. -/
inductive Loc where
  | kvState (row : Nat)
  | kvOutput (row : Nat)
  | kvcache (page slot : BitVec 32)
  deriving DecidableEq

/-- `V` is one `| kv | score |` row, `L` one latent, `C` one cache entry. -/
abbrev Cell (V L C : Type) : Loc → Type
  | .kvState _ => V
  | .kvOutput _ => L
  | .kvcache _ _ => C

/-- The template arguments, with the arithmetic on a row. -/
structure Kernel (V L C : Type) where
  kPageBits : Nat
  pageBits_lt : kPageBits < 32
  /-- Pool a row with its partner and normalise. -/
  latent : V → V → L
  /-- The entry of a latent, rotated by row `pos - 1` of `freqs_cis`. -/
  entry : L → Nat → C

/-- mirrors c2.cuh (`C2Params`); `raw_out_loc` in the scheduler's width;
positions and rings are small enough that `pos - 1 + ring_size` does not wrap. -/
structure Params (V : Type) where
  kvInput : Nat → V
  /-- Where row `r` of the launch's output lies. -/
  kvOutput : Nat → Nat
  positions : Nat → Nat
  req : Nat → Nat
  rawOutLoc : Nat → Nat
  ringSize : Nat

structure BlockIdx where
  x : Nat
  y : Nat

variable {V L C : Type}

def Params.readRow (P : Params V) (row : Nat) : Nat :=
  P.req row * P.ringSize + (P.positions row + P.ringSize - 1) % P.ringSize

def Params.writeRow (P : Params V) (row : Nat) : Nat :=
  P.req row * P.ringSize + P.positions row % P.ringSize

/-- `static_cast<int32_t>(raw_out_loc[row]) == 0` (c2.cuh:98,126). -/
abbrev Params.Padded (P : Params V) (row : Nat) : Prop := BitVec.ofInt 32 (P.rawOutLoc row : Int) = 0

section Cta
variable (K : Kernel V L C) (P : Params V) (kStore kVerify : Bool) (gridDimX : Nat) (b : BlockIdx)

/-- mirrors c2.cuh:96. -/
def rowOf : Nat := if kVerify then b.y * gridDimX + b.x else b.x

/-- The ring row `kv_old` is loaded from (c2.cuh:111-122); `none` when `partner`
was swapped to the row before in `kv_input`. The load comes before every test. -/
def ringLoad : Option Nat :=
  if kVerify && b.x != 0 then none else some (P.readRow (rowOf kVerify gridDimX b))

theorem ringLoad_eq_some {row : Nat} : ringLoad P true gridDimX b = some row ↔
    b.x = 0 ∧ P.readRow (b.y * gridDimX) = row := by
  by_cases hx : b.x = 0
  · simp [ringLoad, rowOf, hx]
  · simp [ringLoad, hx]

def kvOld (m : Memory (Cell V L C)) : V :=
  match ringLoad P kVerify gridDimX b with
  | some row => m (.kvState row)
  | none => P.kvInput (rowOf kVerify gridDimX b - 1)

/-- mirrors c2.cuh:124-130,185,233-240: the stores of one row, in order, once its
partner `old` is loaded. -/
def rowStores (row : Nat) (old : V) : Stores (Cell V L C) :=
  let pos := P.positions row
  if pos % 2 = 0 then
    if P.Padded row then []
    else [⟨.kvState (P.writeRow row), P.kvInput row⟩]
  else
    let out := K.latent old (P.kvInput row)
    ⟨.kvOutput (P.kvOutput row), out⟩ ::
      if kStore ∧ ¬ P.Padded row then
        let ps := c2Slot K.kPageBits (P.rawOutLoc row : Int)
        [⟨.kvcache ps.1 ps.2, K.entry out (pos - 1)⟩]
      else []

theorem rowStores_even {row : Nat} (hpos : P.positions row % 2 = 0) (old old' : V) :
    rowStores K P kStore row old = rowStores K P kStore row old' := by
  simp only [rowStores, hpos, if_true]

theorem rowStores_parked {row : Nat} (hpos : P.positions row % 2 = 0)
    (hraw : ¬ P.Padded row) (old : V) :
    rowStores K P kStore row old = [⟨.kvState (P.writeRow row), P.kvInput row⟩] := by
  simp only [rowStores, hpos, if_true, if_neg hraw]

/-- One CTA (`flash_c2_decode_kernel`) as a task: its stores depend on the ring
row it takes its partner from, and only in an odd row. -/
def cta : Task (Cell V L C) where
  reads := {l | P.positions (rowOf kVerify gridDimX b) % 2 = 1 ∧
    ∃ row, ringLoad P kVerify gridDimX b = some row ∧ l = .kvState row}
  stores m := rowStores K P kStore (rowOf kVerify gridDimX b) (kvOld P kVerify gridDimX b m)
  depends m m' h := by
    by_cases hpos : P.positions (rowOf kVerify gridDimX b) % 2 = 0
    · exact rowStores_even K P kStore hpos _ _
    · have hold : kvOld P kVerify gridDimX b m = kvOld P kVerify gridDimX b m' := by
        unfold kvOld
        split
        · rename_i row hrow
          exact h _ ⟨by omega, row, hrow, rfl⟩
        · rfl
      rw [hold]

end Cta

/-- mirrors c2.cuh:409-454 (`launch`): `m` may become `m'`. `draft_len > 1` is a
verify launch, whose grid is `draft_len x batch`. -/
def launch (K : Kernel V L C) (P : Params V) (numTokens : Nat) (store : Bool) (draftLen : Nat)
    (m m' : Memory (Cell V L C)) : Prop :=
  if numTokens = 0 then m' = m
  else
    0 < P.ringSize ∧ 1 ≤ draftLen ∧
      if 1 < draftLen then
        numTokens % draftLen = 0 ∧ draftLen < P.ringSize ∧
          Completes (fun b : Fin draftLen × Fin (numTokens / draftLen) =>
            cta K P true true draftLen ⟨b.1, b.2⟩) m m'
      else
        Completes (fun b : Fin numTokens => cta K P store false numTokens ⟨b, 0⟩) m m'

/-- Row `j` of every block of `draftLen` rows. -/
def Params.column (P : Params V) (draftLen j : Nat) : Params V where
  kvInput b := P.kvInput (b * draftLen + j)
  kvOutput b := P.kvOutput (b * draftLen + j)
  positions b := P.positions (b * draftLen + j)
  req b := P.req (b * draftLen + j)
  rawOutLoc b := P.rawOutLoc (b * draftLen + j)
  ringSize := P.ringSize

/-- The first `n` positions of every block, one decode launch each
(test_c2_verify.py:98-126, `_decode_replay`). -/
def replay (K : Kernel V L C) (P : Params V) (bs draftLen : Nat) :
    Nat → Memory (Cell V L C) → Memory (Cell V L C) → Prop
  | 0, m, m' => m' = m
  | n + 1, m, m' => ∃ m₁, replay K P bs draftLen n m m₁ ∧
      launch K (P.column draftLen n) bs true 1 m₁ m'

/-! ## Verify batches -/

/-- Consecutive positions of one request; an even row that a later row of the
block pairs with is not marked as padding. -/
structure LiveBlock (P : Params V) (draftLen b : Nat) : Prop where
  req : ∀ i, i < draftLen → P.req (b * draftLen + i) = P.req (b * draftLen)
  positions : ∀ i, i < draftLen → P.positions (b * draftLen + i) = P.positions (b * draftLen) + i
  parked : ∀ i, i + 1 < draftLen → P.positions (b * draftLen + i) % 2 = 0 →
    P.rawOutLoc (b * draftLen + i) ≠ 0

/-- Graph padding: position 0 and no location, under any request. -/
structure PaddedBlock (P : Params V) (draftLen b : Nat) : Prop where
  positions : ∀ i, i < draftLen → P.positions (b * draftLen + i) = 0
  rawOutLoc : ∀ i, i < draftLen → P.rawOutLoc (b * draftLen + i) = 0

/-- Blocks of consecutive rows in a ring wider than a block; those that are not
padding belong to distinct requests. -/
structure Blocks (P : Params V) (bs draftLen : Nat) : Prop where
  one_le : 1 ≤ draftLen
  ring : draftLen < P.ringSize
  blocks : ∀ b, b < bs → LiveBlock P draftLen b ∨ PaddedBlock P draftLen b
  distinct : ∀ b b', b < bs → b' < bs → ¬ PaddedBlock P draftLen b → ¬ PaddedBlock P draftLen b' →
    P.req (b * draftLen) = P.req (b' * draftLen) → b = b'
  /-- Slots fit in int32 (c2.cuh:97). -/
  int32 : ∀ r, r < bs * draftLen → P.rawOutLoc r < 2 ^ 31
  /-- The rows of the output tensor are distinct. -/
  output : ∀ r r', P.kvOutput r = P.kvOutput r' → r = r'

/-- The completing rows among the first `n` have distinct cache slots. -/
def Params.SlotsDistinct (P : Params V) (n : Nat) : Prop :=
  ∀ r, r < n → ∀ r', r' < n → P.positions r % 2 = 1 → P.positions r' % 2 = 1 →
    P.rawOutLoc r ≠ 0 → P.rawOutLoc r' ≠ 0 → P.rawOutLoc r / 2 = P.rawOutLoc r' / 2 → r = r'

/-! ## What a row stores -/

/-- Row `row` of a launch stores at an address. -/
def StoresTo (K : Kernel V L C) (P : Params V) (kStore : Bool) (row : Nat) : Loc → Prop
  | .kvState r => P.positions row % 2 = 0 ∧ ¬ P.Padded row ∧ r = P.writeRow row
  | .kvOutput r => P.positions row % 2 = 1 ∧ r = P.kvOutput row
  | .kvcache page slot => P.positions row % 2 = 1 ∧ kStore = true ∧ ¬ P.Padded row ∧
      (page, slot) = c2Slot K.kPageBits (P.rawOutLoc row : Int)

theorem mem_locs_rowStores {K : Kernel V L C} {P : Params V} {kStore : Bool} {row : Nat} {old : V}
    {l : Loc} : l ∈ locs (rowStores K P kStore row old) ↔ StoresTo K P kStore row l := by
  by_cases hpos : P.positions row % 2 = 0
  · have hodd : ¬ P.positions row % 2 = 1 := by omega
    by_cases hraw : P.Padded row <;> cases l <;> simp [rowStores, locs, StoresTo, hpos, hraw]
  · have hodd : P.positions row % 2 = 1 := by omega
    by_cases hraw : P.Padded row <;> cases kStore <;> cases l <;>
      simp [rowStores, locs, StoresTo, hodd, hraw, Prod.ext_iff]

theorem padded_iff {P : Params V} {row : Nat} (h : P.rawOutLoc row < 2 ^ 31) :
    P.Padded row ↔ P.rawOutLoc row = 0 := by
  constructor
  · intro he
    have hx : (BitVec.ofInt 32 (P.rawOutLoc row : Int)).toNat = P.rawOutLoc row := by
      rw [BitVec.toNat_ofInt]; omega
    rw [he] at hx
    exact hx.symm
  · intro he
    rw [Params.Padded, he]
    rfl

/-! ## Ring arithmetic -/

/-- Two positions less than a ring apart have different ring rows. -/
theorem ring_pos_inj {R p q : Nat} (hle : p ≤ q) (hlt : q < p + R) (h : p % R = q % R) : p = q := by
  have hdvd : R ∣ q - p := (Nat.modEq_iff_dvd' hle).mp h
  rcases Nat.eq_zero_or_pos (q - p) with h0 | h0
  · omega
  · have := Nat.le_of_dvd h0 hdvd
    omega

theorem Params.readRow_succ {P : Params V} {r r' : Nat} (hR : 0 < P.ringSize)
    (hreq : P.req r' = P.req r) (hpos : P.positions r' = P.positions r + 1) :
    P.readRow r' = P.writeRow r := by
  unfold Params.readRow Params.writeRow
  rw [hreq, hpos, show P.positions r + 1 + P.ringSize - 1 = P.positions r + P.ringSize by omega,
    Nat.add_mod_right]

theorem block_row_lt {b i bs D : Nat} (hb : b < bs) (hi : i < D) : b * D + i < bs * D := by
  have : (b + 1) * D ≤ bs * D := Nat.mul_le_mul_right D hb
  rw [Nat.succ_mul] at this
  omega

namespace Blocks
variable {P : Params V} {bs D : Nat} (h : Blocks P bs D)
include h

theorem live {b : Nat} (hb : b < bs) (hp : ¬ PaddedBlock P D b) : LiveBlock P D b :=
  (h.blocks b hb).resolve_right hp

omit h in
/-- A row at an odd position, or with a location, is no padding. -/
theorem not_padded {b i : Nat} (hi : i < D)
    (hrow : P.positions (b * D + i) % 2 = 1 ∨ P.rawOutLoc (b * D + i) ≠ 0) :
    ¬ PaddedBlock P D b := by
  intro hp
  have hpos := hp.positions i hi
  have hraw := hp.rawOutLoc i hi
  omega

/-- A row that stores to the pair state. -/
theorem state_row {K : Kernel V L C} {s : Bool} {b i r : Nat} (hb : b < bs) (hi : i < D)
    (hst : StoresTo K P s (b * D + i) (.kvState r)) :
    ¬ PaddedBlock P D b ∧ P.positions (b * D + i) % 2 = 0 ∧ r = P.writeRow (b * D + i) := by
  obtain ⟨hpos, hraw, hr⟩ := hst
  rw [padded_iff (h.int32 _ (block_row_lt hb hi))] at hraw
  exact ⟨not_padded hi (.inr hraw), hpos, hr⟩

/-- Two ring rows of live requests that coincide are one request's, at one offset. -/
theorem same_request {b i b' i' x y : Nat} (hb : b < bs) (hi : i < D) (hb' : b' < bs) (hi' : i' < D)
    (hp : ¬ PaddedBlock P D b) (hp' : ¬ PaddedBlock P D b')
    (he : P.req (b * D + i) * P.ringSize + x % P.ringSize =
      P.req (b' * D + i') * P.ringSize + y % P.ringSize) :
    b = b' ∧ x % P.ringSize = y % P.ringSize := by
  have hR : 0 < P.ringSize := by have := h.ring; omega
  obtain ⟨hreq, hmod⟩ := mul_add_inj (Nat.mod_lt _ hR) (Nat.mod_lt _ hR) he
  rw [(h.live hb hp).req i hi, (h.live hb' hp').req i' hi'] at hreq
  exact ⟨h.distinct b b' hb hb' hp hp' hreq, hmod⟩

/-- Rows of live blocks that fall on one ring row are one row. -/
theorem writeRow_inj {b i b' i' : Nat} (hb : b < bs) (hi : i < D) (hb' : b' < bs) (hi' : i' < D)
    (hp : ¬ PaddedBlock P D b) (hp' : ¬ PaddedBlock P D b')
    (he : P.writeRow (b * D + i) = P.writeRow (b' * D + i')) : b = b' ∧ i = i' := by
  have hring := h.ring
  obtain ⟨rfl, hmod⟩ := h.same_request hb hi hb' hi' hp hp' he
  rw [(h.live hb hp).positions i hi, (h.live hb hp).positions i' hi'] at hmod
  refine ⟨rfl, ?_⟩
  rcases Nat.le_total i i' with hle | hle
  · have := ring_pos_inj (by omega) (by omega) hmod; omega
  · have := ring_pos_inj (by omega) (by omega) hmod.symm; omega

/-- No row of a live block falls on the ring row before a live block. -/
theorem head_readRow_ne {b i b' : Nat} (hb : b < bs) (hi : i < D) (hb' : b' < bs)
    (hp : ¬ PaddedBlock P D b) (hp' : ¬ PaddedBlock P D b') :
    P.writeRow (b * D + i) ≠ P.readRow (b' * D) := by
  intro he
  have hring := h.ring
  have he : P.req (b * D + i) * P.ringSize + P.positions (b * D + i) % P.ringSize =
      P.req (b' * D + 0) * P.ringSize + (P.positions (b' * D) + P.ringSize - 1) % P.ringSize := he
  obtain ⟨rfl, hmod⟩ := h.same_request hb hi hb' h.one_le hp hp' he
  rw [(h.live hb hp).positions i hi] at hmod
  have := ring_pos_inj (by omega) (by omega) hmod
  omega

/-- Distinct rows store at distinct addresses. -/
theorem stores_disjoint {K : Kernel V L C} {s s' : Bool} {b i b' i' : Nat} (hb : b < bs) (hi : i < D)
    (hb' : b' < bs) (hi' : i' < D) {l : Loc}
    (hslots : ∀ page slot, l = .kvcache page slot → P.SlotsDistinct (bs * D))
    (hst : StoresTo K P s (b * D + i) l) (hst' : StoresTo K P s' (b' * D + i') l) :
    b = b' ∧ i = i' := by
  have hlt := block_row_lt hb hi
  have hlt' := block_row_lt hb' hi'
  cases l with
  | kvState r =>
    obtain ⟨hp, -, he⟩ := h.state_row hb hi hst
    obtain ⟨hp', -, he'⟩ := h.state_row hb' hi' hst'
    exact h.writeRow_inj hb hi hb' hi' hp hp' (he.symm.trans he')
  | kvOutput r =>
    exact mul_add_inj hi hi' (h.output _ _ (hst.2.symm.trans hst'.2))
  | kvcache page slot =>
    obtain ⟨hpos, -, hraw, he⟩ := hst
    obtain ⟨hpos', -, hraw', he'⟩ := hst'
    rw [padded_iff (h.int32 _ hlt)] at hraw
    rw [padded_iff (h.int32 _ hlt')] at hraw'
    have hhalf := (c2Slot_spec K.pageBits_lt (h.int32 _ hlt)).1
    rw [← he, he', (c2Slot_spec K.pageBits_lt (h.int32 _ hlt')).1] at hhalf
    exact mul_add_inj hi hi' (hslots page slot rfl _ hlt _ hlt' hpos hpos' hraw hraw' hhalf.symm)

/-- No CTA of a verify launch stores where another takes its partner from. -/
theorem verify_readFree (K : Kernel V L C) (m : Memory (Cell V L C)) :
    ReadFree (fun c : Fin D × Fin bs => cta K P true true D ⟨c.1, c.2⟩) m := by
  rintro ⟨i, b⟩ ⟨i', b'⟩ - l hl ⟨hodd, row, hload, rfl⟩
  obtain ⟨hp, -, hrow⟩ := h.state_row b.isLt i.isLt (mem_locs_rowStores.mp hl)
  obtain ⟨hi', hread⟩ := (ringLoad_eq_some _ _ _).mp hload
  have hp' : ¬ PaddedBlock P D b' := not_padded i'.isLt (.inl hodd)
  exact h.head_readRow_ne b.isLt i.isLt b'.isLt hp hp' (hrow.symm.trans hread.symm)

/-- Nor does a CTA of a launch over one row of every block. -/
theorem column_readFree (K : Kernel V L C) (m : Memory (Cell V L C)) {j : Nat} (hj : j < D) :
    ReadFree (fun b : Fin bs => cta K (P.column D j) true false bs ⟨b, 0⟩) m := by
  rintro b b' hne l hl ⟨hodd, row, hload, rfl⟩
  have hst : StoresTo K P true (b * D + j) (.kvState row) := mem_locs_rowStores.mp hl
  obtain ⟨hp, -, hrow⟩ := h.state_row b.isLt hj hst
  obtain rfl : P.readRow (b' * D + j) = row := Option.some.inj hload
  have hp' : ¬ PaddedBlock P D b' := not_padded hj (.inl hodd)
  exact hne (Fin.ext (h.same_request b'.isLt hj b.isLt hj hp' hp hrow).1.symm)

end Blocks

/-! ## The replay -/

namespace Blocks
variable {P : Params V} {bs D : Nat} (h : Blocks P bs D)
include h

theorem verify_raceFree (hs : P.SlotsDistinct (bs * D)) (K : Kernel V L C)
    (m : Memory (Cell V L C)) :
    RaceFree (fun c : Fin D × Fin bs => cta K P true true D ⟨c.1, c.2⟩) m where
  reads := h.verify_readFree K m
  stores c c' hne l hl hl' := by
    obtain ⟨hb, hi⟩ := h.stores_disjoint c.2.isLt c.1.isLt c'.2.isLt c'.1.isLt (fun _ _ _ => hs)
      (mem_locs_rowStores.mp hl) (mem_locs_rowStores.mp hl')
    exact hne (Prod.ext (Fin.ext hi) (Fin.ext hb))

theorem column_raceFree (hs : P.SlotsDistinct (bs * D)) (K : Kernel V L C)
    (m : Memory (Cell V L C)) {j : Nat} (hj : j < D) :
    RaceFree (fun b : Fin bs => cta K (P.column D j) true false bs ⟨b, 0⟩) m where
  reads := h.column_readFree K m hj
  stores b b' hne l hl hl' := by
    have hst : StoresTo K P true (b * D + j) l := mem_locs_rowStores.mp hl
    have hst' : StoresTo K P true (b' * D + j) l := mem_locs_rowStores.mp hl'
    exact hne (Fin.ext (h.stores_disjoint b.isLt hj b'.isLt hj (fun _ _ _ => hs) hst hst').1)

/-- Row `j` of block `b` finds in the ring, after the block's earlier rows, the
partner a verify launch gives it. -/
theorem column_stores (K : Kernel V L C) {m m₁ : Memory (Cell V L C)} {j b : Nat} (hj : j < D)
    (hb : b < bs) (hm : Effects (fun c : Fin D × Fin bs => c.1.val < j)
      (fun c => (cta K P true true D ⟨c.1, c.2⟩).stores m) m m₁) :
    (cta K (P.column D j) true false bs ⟨b, 0⟩).stores m₁ =
      (cta K P true true D ⟨j, b⟩).stores m := by
  show rowStores K P true (b * D + j) (m₁ (.kvState (P.readRow (b * D + j)))) =
    rowStores K P true (b * D + j) (kvOld P true D ⟨j, b⟩ m)
  by_cases hpos : P.positions (b * D + j) % 2 = 0
  · exact rowStores_even K P true hpos _ _
  · have hlive := h.live hb (not_padded hj (.inl (by omega)))
    congr 1
    cases j with
    | zero =>
      rw [hm.kept _ fun c hc => absurd hc (Nat.not_lt_zero _)]
      rfl
    | succ j =>
      have hpj := hlive.positions j (by omega)
      have hpj' := hlive.positions (j + 1) hj
      have heven : P.positions (b * D + j) % 2 = 0 := by omega
      have hrow : P.readRow (b * D + (j + 1)) = P.writeRow (b * D + j) :=
        Params.readRow_succ (by have := h.ring; omega)
          (by rw [hlive.req _ hj, hlive.req j (by omega)]) (by omega)
      have hraw : ¬ P.Padded (b * D + j) := fun hpad =>
        hlive.parked j hj heven ((padded_iff (h.int32 _ (block_row_lt hb (by omega)))).mp hpad)
      have hst : (cta K P true true D ⟨j, b⟩).stores m =
          [⟨.kvState (P.writeRow (b * D + j)), P.kvInput (b * D + j)⟩] :=
        rowStores_parked K P true heven hraw _
      have hval := hm.stored (⟨j, by omega⟩, ⟨b, hb⟩) (Nat.lt_succ_self j)
        (.kvState (P.writeRow (b * D + j))) (by rw [hst]; simp [locs])
      rw [hrow, hval, hst, applyStores_head (by simp [locs])]
      rfl

/-- `n` steps of the replay perform what the first `n` CTAs of every block of the
verify launch perform. -/
theorem replay_effects (hs : P.SlotsDistinct (bs * D)) (K : Kernel V L C)
    {m m₁ : Memory (Cell V L C)} {n : Nat} (hn : n ≤ D) (hr : replay K P bs D n m m₁) :
    Effects (fun c : Fin D × Fin bs => c.1.val < n)
      (fun c => (cta K P true true D ⟨c.1, c.2⟩).stores m) m m₁ := by
  induction n generalizing m₁ with
  | zero =>
    obtain rfl : m₁ = m := hr
    exact ⟨fun c hc => absurd hc (Nat.not_lt_zero _), fun _ _ => rfl⟩
  | succ n ih =>
    obtain ⟨m', hr', hstep⟩ := hr
    have hm := ih (by omega) hr'
    have hcol : Effects (fun c : Fin D × Fin bs => c.1.val = n)
        (fun c => (cta K P true true D ⟨c.1, c.2⟩).stores m) m' m₁ := by
      unfold launch at hstep
      split at hstep
      · rename_i h0
        subst h0 hstep
        exact ⟨fun c => c.2.elim0, fun _ _ => rfl⟩
      · obtain ⟨-, -, hstep⟩ := hstep
        rw [if_neg (by omega)] at hstep
        refine (completes_effects (h.column_raceFree hs K m' hn) hstep).reindex
          (fun b => (⟨n, hn⟩, b)) (fun c => ?_) fun b _ => ?_
        · constructor
          · intro hc
            exact ⟨c.2, trivial, Prod.ext (Fin.ext hc.symm) rfl⟩
          · intro hyp
            obtain ⟨b, -, rfl⟩ := hyp
            rfl
        · exact (h.column_stores K hn b.isLt hm).symm
    refine (hm.seq hcol fun c c' hc hc' l hl hl' => ?_).reindex id (fun c => ?_) fun _ _ => rfl
    · have := (h.stores_disjoint c.2.isLt c.1.isLt c'.2.isLt c'.1.isLt (fun _ _ _ => hs)
        (mem_locs_rowStores.mp hl) (mem_locs_rowStores.mp hl')).2
      omega
    · constructor
      · intro hc
        exact ⟨c, Nat.lt_succ_iff_lt_or_eq.mp hc, rfl⟩
      · intro hyp
        obtain ⟨c', hc, rfl⟩ := hyp
        exact Nat.lt_succ_iff_lt_or_eq.mpr hc

omit h in
theorem exists_decode (K : Kernel V L C) {P : Params V} (hring : 0 < P.ringSize) (n : Nat)
    (m : Memory (Cell V L C)) : ∃ m₁, launch K P n true 1 m m₁ := by
  by_cases h0 : n = 0
  · exact ⟨m, by rw [launch, if_pos h0]⟩
  · obtain ⟨m₁, hm₁⟩ := exists_completes (fun b : Fin n => cta K P true false n ⟨b, 0⟩) m
    refine ⟨m₁, ?_⟩
    rw [launch, if_neg h0, if_neg (Nat.lt_irrefl 1)]
    exact ⟨hring, Nat.le_refl 1, hm₁⟩

theorem exists_replay (K : Kernel V L C) (m : Memory (Cell V L C)) (n : Nat) :
    ∃ m₁, replay K P bs D n m m₁ := by
  induction n with
  | zero => exact ⟨m, rfl⟩
  | succ n ih =>
    obtain ⟨m', hr⟩ := ih
    obtain ⟨m₁, hm₁⟩ := exists_decode K (P := P.column D n)
      (by have := h.ring; exact Nat.zero_lt_of_lt this) bs m'
    exact ⟨m₁, m', hr, hm₁⟩

/-- Such a batch passes the checks of `launch`. -/
theorem launch_verify (hD : 2 ≤ D) (K : Kernel V L C) (m m₁ : Memory (Cell V L C)) :
    launch K P (bs * D) true D m m₁ ↔
      Completes (fun c : Fin D × Fin bs => cta K P true true D ⟨c.1, c.2⟩) m m₁ := by
  have hring := h.ring
  unfold launch
  by_cases h0 : bs = 0
  · subst h0
    rw [Nat.zero_mul, if_pos rfl]
    exact (completes_iff ⟨fun c => c.2.elim0, fun c => c.2.elim0⟩
      ⟨fun c => c.2.elim0, fun _ _ => rfl⟩).symm
  · rw [if_neg (Nat.mul_ne_zero h0 (by omega)), if_pos (by omega), Nat.mul_mod_left,
      Nat.mul_div_cancel _ (by omega)]
    constructor
    · intro hyp
      obtain ⟨-, -, -, -, hc⟩ := hyp
      exact hc
    · intro hc
      exact ⟨by omega, by omega, rfl, hring, hc⟩

theorem exists_launch (K : Kernel V L C) (m : Memory (Cell V L C)) :
    ∃ m₁, launch K P (bs * D) true D m m₁ := by
  by_cases hD : 2 ≤ D
  · obtain ⟨m₁, hm₁⟩ := exists_completes
      (fun c : Fin D × Fin bs => cta K P true true D ⟨c.1, c.2⟩) m
    exact ⟨m₁, (h.launch_verify hD K m m₁).mpr hm₁⟩
  · obtain rfl : D = 1 := by have := h.one_le; omega
    exact exists_decode K (by have := h.ring; omega) _ m

end Blocks

/-! ## What a launch leaves in the ring and the output -/

/-- The partner of row `i` of block `b`: the ring's for a head, else the row before. -/
def blockPartner (P : Params V) (D : Nat) (m : Memory (Cell V L C)) (b i : Nat) : V :=
  if i = 0 then m (.kvState (P.readRow (b * D))) else P.kvInput (b * D + i - 1)

theorem kvOld_verify (P : Params V) (D : Nat) (m : Memory (Cell V L C)) (b i : Nat) :
    kvOld P true D ⟨i, b⟩ m = blockPartner P D m b i := by
  by_cases hi : i = 0
  · subst hi
    rfl
  · simp [kvOld, ringLoad, rowOf, blockPartner, hi]

theorem applyStores_output {K : Kernel V L C} {P : Params V} {kStore : Bool} {row : Nat} {old : V}
    {m : Memory (Cell V L C)} (hpos : P.positions row % 2 = 1) :
    applyStores (rowStores K P kStore row old) m (.kvOutput (P.kvOutput row)) =
      K.latent old (P.kvInput row) := by
  have hodd : ¬ P.positions row % 2 = 0 := by omega
  rw [rowStores, if_neg hodd]
  refine applyStores_head ?_
  split <;> simp [locs]

theorem column_one (P : Params V) : P.column 1 0 = P := by
  simp [Params.column]

/-- `m'` is `m` with the pair state and the output the rows of the blocks store. -/
structure Leaves (K : Kernel V L C) (P : Params V) (bs D : Nat) (m m' : Memory (Cell V L C)) :
    Prop where
  row : ∀ b i l, b < bs → i < D → (∀ page slot, l ≠ .kvcache page slot) →
    StoresTo K P true (b * D + i) l →
    m' l = applyStores (rowStores K P true (b * D + i) (blockPartner P D m b i)) m l
  kept : ∀ l, (∀ b i, b < bs → i < D → ¬ StoresTo K P true (b * D + i) l) → m' l = m l

/-- A decode launch (`D = 1`) and a verify launch leave the same, whatever cache
slots their rows have. -/
theorem Blocks.launch_leaves {P : Params V} {bs D : Nat} (h : Blocks P bs D) (K : Kernel V L C)
    {m m' : Memory (Cell V L C)} (hrun : launch K P (bs * D) true D m m') :
    Leaves K P bs D m m' := by
  by_cases hD : 2 ≤ D
  · rw [h.launch_verify hD] at hrun
    refine ⟨fun b i l hb hi hnc hst => ?_, fun l hl => ?_⟩
    · have howns : Owns (fun c : Fin D × Fin bs => cta K P true true D ⟨c.1, c.2⟩) m
          (⟨i, hi⟩, ⟨b, hb⟩) l := by
        refine ⟨mem_locs_rowStores.mpr hst, fun c hc hmem => hc ?_⟩
        obtain ⟨hb', hi'⟩ := h.stores_disjoint c.2.isLt c.1.isLt hb hi
          (fun page slot he => absurd he (hnc page slot)) (mem_locs_rowStores.mp hmem) hst
        exact Prod.ext (Fin.ext hi') (Fin.ext hb')
      rw [completes_stored (h.verify_readFree K m) hrun howns, ← kvOld_verify]
      rfl
    · exact completes_kept (h.verify_readFree K m) hrun fun c hmem =>
        hl c.2 c.1 c.2.isLt c.1.isLt (mem_locs_rowStores.mp hmem)
  · obtain rfl : D = 1 := by have := h.one_le; omega
    have hread := h.column_readFree K m Nat.one_pos
    rw [column_one] at hread
    rw [Nat.mul_one] at hrun
    have hrow : ∀ b : Fin bs, ∀ l,
        l ∈ locs ((cta K P true false bs ⟨b, 0⟩).stores m) ↔ StoresTo K P true (b * 1 + 0) l := by
      intro b l
      rw [Nat.mul_one]
      exact mem_locs_rowStores
    simp only [launch, Nat.lt_irrefl, if_false] at hrun
    split at hrun
    · rename_i h0
      subst h0 hrun
      exact ⟨fun b i l hb => absurd hb (Nat.not_lt_zero _), fun _ _ => rfl⟩
    · obtain ⟨-, -, hrun⟩ := hrun
      refine ⟨fun b i l hb hi hnc hst => ?_, fun l hl => ?_⟩
      · obtain rfl : i = 0 := by omega
        have howns : Owns (fun c : Fin bs => cta K P true false bs ⟨c, 0⟩) m ⟨b, hb⟩ l :=
          ⟨(hrow ⟨b, hb⟩ l).mpr hst, fun c hc hmem => hc (Fin.ext (h.stores_disjoint c.isLt hi hb hi
            (fun page slot he => absurd he (hnc page slot)) ((hrow c l).mp hmem) hst).1)⟩
        have hpartner : blockPartner P 1 m b 0 = m (.kvState (P.readRow b)) := by
          rw [blockPartner, if_pos rfl, Nat.mul_one]
        rw [completes_stored hread hrun howns, hpartner, Nat.mul_one]
        rfl
      · exact completes_kept hread hrun fun c hmem => hl c 0 c.isLt Nat.one_pos ((hrow c l).mp hmem)

/-! ## Headline -/

/-- **A verify launch is its replay.** Every schedule of a verify launch and every
schedule of its position-by-position replay end in one memory. No CTA of the
launch stores to the ring row another takes its partner from, whatever memory it
loaded; the one load a store can meet is a padded block's head, whose value is
dropped, and not with an even ring. -/
theorem verify_matches_decode_replay (K : Kernel V L C) {P : Params V} {bs D : Nat} (hD : 2 ≤ D)
    (h : Blocks P bs D) (hs : P.SlotsDistinct (bs * D)) (m : Memory (Cell V L C)) :
    (∃ m', (∀ m₁, launch K P (bs * D) true D m m₁ ↔ m₁ = m') ∧
      ∀ m₂, replay K P bs D D m m₂ ↔ m₂ = m') ∧
    ∀ (c c' : Fin D × Fin bs) (row : Nat) (seen : Memory (Cell V L C)), c ≠ c' →
      .kvState row ∈ locs ((cta K P true true D ⟨c.1, c.2⟩).stores seen) →
      .kvState row ∉ (cta K P true true D ⟨c'.1, c'.2⟩).reads ∧
      (ringLoad P true D ⟨c'.1, c'.2⟩ = some row →
        PaddedBlock P D c'.2 ∧ P.ringSize % 2 = 1) := by
  refine ⟨?_, fun c c' row seen hne hmem => ⟨?_, fun hload => ?_⟩⟩
  · obtain ⟨m', hr⟩ := h.exists_replay K m D
    have hall : ∀ {m₂}, replay K P bs D D m m₂ → Effects (fun _ => True)
        (fun c : Fin D × Fin bs => (cta K P true true D ⟨c.1, c.2⟩).stores m) m m₂ := fun hr =>
      (h.replay_effects hs K (Nat.le_refl D) hr).reindex id
        (fun c => ⟨fun _ => ⟨c, c.1.isLt, rfl⟩, fun _ => trivial⟩) fun _ _ => rfl
    refine ⟨m', fun m₁ => ?_, fun m₂ => ⟨fun hr₂ => (hall hr₂).unique (hall hr), ?_⟩⟩
    · rw [h.launch_verify hD K m m₁]
      exact completes_iff (h.verify_raceFree hs K m) (hall hr)
    · rintro rfl
      exact hr
  · exact h.verify_readFree K seen c c' hne _ hmem
  · obtain ⟨i, b⟩ := c
    obtain ⟨i', b'⟩ := c'
    obtain ⟨hp, heven, hrow⟩ := h.state_row b.isLt i.isLt (mem_locs_rowStores.mp hmem)
    rw [ringLoad_eq_some] at hload
    by_cases hpad : PaddedBlock P D b'
    · refine ⟨hpad, ?_⟩
      -- an even position on ring row `ring_size - 1`
      have hR : 0 < P.ringSize := by have := h.ring; omega
      obtain ⟨-, hmod⟩ := mul_add_inj (Nat.mod_lt _ hR) (Nat.mod_lt _ hR) (hload.2.trans hrow)
      have hp0 := hpad.positions 0 h.one_le
      rw [Nat.add_zero] at hp0
      rw [hp0, Nat.zero_add, Nat.mod_eq_of_lt (by omega)] at hmod
      have hdm := Nat.div_add_mod (P.positions (b * D + i)) P.ringSize
      by_contra hev
      obtain ⟨k, hk⟩ : 2 ∣ P.ringSize := by omega
      rw [← hmod, hk, Nat.mul_assoc] at hdm
      omega
    · exact absurd (hrow.symm.trans hload.2.symm)
        (h.head_readRow_ne b.isLt i.isLt b'.isLt hp hpad)

/-! ## An odd ring -/

/-- Ring of 5, blocks of 3: request 0 at positions 3, 4, 5, request 1 at 9, 10,
11, and a padded block aliasing request 0. -/
def oddRing : Params Nat where
  kvInput r := r
  kvOutput r := r
  positions r := if r < 3 then 3 + r else if r < 6 then 6 + r else 0
  req r := if r / 3 = 1 then 1 else 0
  rawOutLoc r := if r < 6 then 2 * r + 3 else 0
  ringSize := 5

def pairKernel : Kernel Nat (Nat × Nat) ((Nat × Nat) × Nat) where
  kPageBits := 7
  pageBits_lt := by decide
  latent := Prod.mk
  entry := Prod.mk

theorem oddRing_blocks : Blocks oddRing 3 3 where
  one_le := by decide
  ring := by decide
  blocks b hb := by
    interval_cases b
    · refine .inl ⟨by decide, by decide, fun i hi => ?_⟩
      obtain rfl | rfl : i = 0 ∨ i = 1 := by omega
      all_goals decide
    · refine .inl ⟨by decide, by decide, fun i hi => ?_⟩
      obtain rfl | rfl : i = 0 ∨ i = 1 := by omega
      all_goals decide
    · exact .inr ⟨by decide, by decide⟩
  distinct b b' hb hb' hp hp' he := by
    have hpad : PaddedBlock oddRing 3 2 := ⟨by decide, by decide⟩
    have h2 : b ≠ 2 := by rintro rfl; exact hp hpad
    have h2' : b' ≠ 2 := by rintro rfl; exact hp' hpad
    have hreq : ∀ b, b < 2 → oddRing.req (b * 3) = b := by decide
    rwa [hreq b (by omega), hreq b' (by omega)] at he
  int32 := by decide
  output _ _ h := h

theorem oddRing_slots : oddRing.SlotsDistinct (3 * 3) := by
  intro r _ r' _ _ _ hraw hraw' he
  simp only [oddRing] at hraw hraw' he
  split at hraw <;> split at hraw' <;> simp_all
  omega

/-- Every ring row holding its own number. -/
def numberedRing : Memory (Cell Nat (Nat × Nat) ((Nat × Nat) × Nat))
  | .kvState row => row
  | .kvOutput _ => (0, 0)
  | .kvcache _ _ => ((0, 0), 0)

theorem oddRing_outcome : ∃ m', launch pairKernel oddRing (3 * 3) true 3 numberedRing m' ∧
    replay pairKernel oddRing 3 3 3 numberedRing m' := by
  obtain ⟨⟨m', hlaunch, hreplay⟩, -⟩ :=
    verify_matches_decode_replay pairKernel (by decide) oddRing_blocks oddRing_slots numberedRing
  exact ⟨m', (hlaunch m').mpr rfl, (hreplay m').mpr rfl⟩

/-- The CTA of position 4 stores to ring row 4, which the padded block's head loads. -/
theorem odd_ring_head_load_is_hit :
    ∃ (P : Params Nat) (bs D : Nat), 2 ≤ D ∧ Blocks P bs D ∧ P.SlotsDistinct (bs * D) ∧
      ∃ (c c' : Fin D × Fin bs) (row : Nat), c ≠ c' ∧
        (∀ seen, .kvState row ∈ locs ((cta pairKernel P true true D ⟨c.1, c.2⟩).stores seen)) ∧
        ringLoad P true D ⟨c'.1, c'.2⟩ = some row :=
  ⟨oddRing, 3, 3, by decide, oddRing_blocks, oddRing_slots, (1, 0), (0, 2), 4, by decide,
    fun _ => List.mem_cons_self, rfl⟩

end FlashSpark.L3.C2
