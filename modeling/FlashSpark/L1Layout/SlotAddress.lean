import FlashSpark.Core.Tensor

/-!
# Which compressed-KV slot a group of tokens lives in

A low-ratio layer keeps one latent for every `ratio` consecutive tokens of a
request. Its slot is computed in three places:

* the writer divides the FULL slot of the group's last token by the ratio
  (`lowRatioCompressionMetadata`, and for ratio 2 the page/slot split of
  `raw_out_loc >> 1` inside the fused kernel, `c2Slot`);
* the dense prefill indexer divides the FULL slot of the group's first token
  (`denseSlots`);
* the paged indexer resolves the group through the page table expanded to the
  indexer's own page size (`expandIndexPageTable`, `resolvePaged`).

`writer_readers_same_slot`: under a page-aligned allocation (`PagedAlloc`) all
of them name `A.slot r j`, distinct groups have distinct slots, and no slot
falls into the reserved page 0.
-/
namespace FlashSpark.L1.SlotAddress

/-! ## The source's functions -/

/-- mirrors patches/.../deepseek_v4_backend.py:440-451
(`_low_ratio_compression_metadata`): `(out_loc, topk_lengths_clamp1)`. -/
def lowRatioCompressionMetadata (compressRatio : Nat) (seqLensCasual rawOutLoc : List Nat) :
    List Int × List Int :=
  let numWriteTokens := rawOutLoc.length
  let completesGroup := (seqLensCasual.take numWriteTokens).map fun s => decide (s % compressRatio = 0)
  (List.zipWith (fun (c : Bool) raw => if c then ((raw / compressRatio : Nat) : Int) else -1)
      completesGroup rawOutLoc,
    seqLensCasual.map fun s => toInt32 ((max (s / compressRatio) 1 : Nat) : Int))

/-- mirrors patches/.../deepseek_v4_backend.py:193-220 (`_expand_index_page_table`);
`none` is the failed assertion. -/
def expandIndexPageTable (pageTable : List (List Int))
    (fullPageSize compressRatio indexPageSize : Nat) : Option (List (List Int)) :=
  let slotsPerPage := fullPageSize / compressRatio
  if slotsPerPage % indexPageSize ≠ 0 then none
  else
    let blocksPerPage := slotsPerPage / indexPageSize
    if blocksPerPage = 1 then some pageTable
    else some (pageTable.map fun row =>
      row.flatMap fun p =>
        (List.range blocksPerPage).map fun (k : Nat) => toInt32 (p * blocksPerPage + k))

/-- The kernel's resolution of compressed position `j` through a block table row
(deepseek_v4_backend.py:204). -/
def resolvePaged (row : List Int) (indexPageSize j : Nat) : Option Int :=
  (row[j / indexPageSize]?).map fun b => b * indexPageSize + (j % indexPageSize : Nat)

/-- One request's share of `k_slots`: `req_to_token[req, j * ratio] // ratio` for
every visible compressed position (deepseek_v4_backend.py:3170-3181). -/
def denseSlots (ratio : Nat) (reqToToken : Nat → Nat) (seqLen : Nat) : List Nat :=
  (List.range (seqLen / ratio)).map fun j => reqToToken (j * ratio) / ratio

/-- mirrors c2.cuh:98,236-238: `raw_out_loc` as `int32_t`, halved and split into
`(page, slot)` of a pool page of `1 << kPageBits` slots. -/
def c2Slot (kPageBits : Nat) (rawOutLoc : Int) : BitVec 32 × BitVec 32 :=
  let outLoc := (BitVec.ofInt 32 rawOutLoc).sshiftRight 1
  (outLoc.sshiftRight kPageBits, outLoc &&& ((1#32 <<< kPageBits) - 1#32))

/-! ## The allocation -/

/-- The token pool as the scheduler fills it: live requests hold disjoint FULL
pages, page 0 is nobody's, a token's location is page-aligned, and locations
are `int32` (the element type of `req_to_token`). -/
structure PagedAlloc where
  pageSize : Nat
  live : Nat → Prop
  /-- Tokens request `r` has. -/
  seqLen : Nat → Nat
  /-- The `p`-th page of request `r`. -/
  pageOf : Nat → Nat → Nat
  reqToToken : Nat → Nat → Nat
  pageSize_pos : 0 < pageSize
  token_loc : ∀ r q, live r → q < seqLen r →
    reqToToken r q = pageOf r (q / pageSize) * pageSize + q % pageSize
  reserved : ∀ r q, live r → q < seqLen r → pageOf r (q / pageSize) ≠ 0
  disjoint : ∀ r q r' q', live r → live r' → q < seqLen r → q' < seqLen r' →
    pageOf r (q / pageSize) = pageOf r' (q' / pageSize) → r = r' ∧ q / pageSize = q' / pageSize
  fits : ∀ r q, live r → q < seqLen r → (pageOf r (q / pageSize) + 1) * pageSize ≤ 2 ^ 31

/-- The slot of compressed position `j` of request `r` in a pool of
`pageSize / ratio` slots per page. -/
def PagedAlloc.slot (A : PagedAlloc) (ratio r j : Nat) : Nat :=
  A.pageOf r (j * ratio / A.pageSize) * (A.pageSize / ratio) + j % (A.pageSize / ratio)

/-- Group `j` of request `r` is complete. -/
def PagedAlloc.Complete (A : PagedAlloc) (ratio r j : Nat) : Prop :=
  A.live r ∧ (j + 1) * ratio ≤ A.seqLen r

/-! ## Two nested page sizes -/

section Nested
variable {ratio S j i : Nat}

/-- Token `i` of group `j` lies in the page of group `j`. -/
theorem group_div (hi : i < ratio) : (j * ratio + i) / (S * ratio) = j / S := by
  rw [Nat.mul_comm S, ← Nat.div_div_eq_div_mul, Nat.mul_comm j, Nat.mul_add_div (by omega),
    Nat.div_eq_of_lt hi, Nat.add_zero]

theorem group_mod (hi : i < ratio) : (j * ratio + i) % (S * ratio) = j % S * ratio + i := by
  have h1 : (j * ratio + i) / ratio = j := by
    rw [Nat.mul_comm j, Nat.mul_add_div (by omega), Nat.div_eq_of_lt hi, Nat.add_zero]
  rw [Nat.mul_comm S, Nat.mod_mul, h1, Nat.mul_comm j, Nat.mul_add_mod, Nat.mod_eq_of_lt hi,
    Nat.mul_comm ratio, Nat.add_comm]

/-- A FULL slot inside group `j`, divided by the ratio. -/
theorem group_slot (hi : i < ratio) (pg : Nat) :
    (pg * (S * ratio) + (j % S * ratio + i)) / ratio = pg * S + j % S := by
  rw [← Nat.mul_assoc, ← Nat.add_assoc, ← Nat.add_mul, Nat.mul_comm, Nat.mul_add_div (by omega),
    Nat.div_eq_of_lt hi, Nat.add_zero]

/-- Group `j` in a FULL page of `B` indexer blocks of `ips` slots. -/
theorem block_index {B ips : Nat} (pg : Nat) :
    (pg * B + j / ips % B) * ips + j % ips = pg * (B * ips) + j % (B * ips) := by
  rw [Nat.mul_comm B ips, Nat.mod_mul, Nat.add_mul, Nat.mul_comm ips B, Nat.mul_assoc,
    Nat.mul_comm ips (j / ips % B)]
  omega

end Nested

/-! ## Writer and readers -/

section Readers
variable (A : PagedAlloc) {ratio ips : Nat}

/-- Any token of a complete group lies at `slot * ratio + i`. -/
theorem token_slot (hdvd : ratio ∣ A.pageSize) {r j i : Nat} (hc : A.Complete ratio r j)
    (hi : i < ratio) : A.reqToToken r (j * ratio + i) / ratio = A.slot ratio r j := by
  obtain ⟨hl, hlen⟩ := hc
  obtain ⟨S, hS⟩ := hdvd
  have hq : j * ratio + i < A.seqLen r := by rw [Nat.succ_mul] at hlen; omega
  have hr : 0 < ratio := by omega
  rw [A.token_loc r _ hl hq, hS, Nat.mul_comm ratio S, group_div hi, group_mod hi, group_slot hi]
  unfold PagedAlloc.slot
  rw [hS, Nat.mul_div_cancel_left _ hr, Nat.mul_comm ratio S, Nat.mul_div_mul_right _ _ hr]

/-- The slot is a slot of an allocated page: past page 0 and within `int32`. -/
theorem slot_bounds (hdvd : ratio ∣ A.pageSize) (hr : 0 < ratio) {r j : Nat}
    (hc : A.Complete ratio r j) :
    A.pageSize / ratio ≤ A.slot ratio r j ∧ A.slot ratio r j < 2 ^ 31 := by
  obtain ⟨hl, hlen⟩ := hc
  have hq : j * ratio < A.seqLen r := by rw [Nat.succ_mul] at hlen; omega
  have h0 := A.reserved r _ hl hq
  have hf := A.fits r _ hl hq
  have hpos : 0 < A.pageSize / ratio := Nat.div_pos (Nat.le_of_dvd A.pageSize_pos hdvd) hr
  have hm := Nat.mod_lt j hpos
  have hle : A.pageSize / ratio ≤ A.pageSize := Nat.div_le_self _ _
  unfold PagedAlloc.slot
  generalize A.pageOf r (j * ratio / A.pageSize) = pg at *
  constructor
  · have := Nat.mul_le_mul_right (A.pageSize / ratio) (show 1 ≤ pg by omega)
    omega
  · have := Nat.mul_le_mul_left (pg + 1) hle
    rw [Nat.succ_mul] at this
    omega

/-- Distinct complete groups have distinct slots. -/
theorem slot_inj (hdvd : ratio ∣ A.pageSize) (hr : 0 < ratio) {r j r' j' : Nat}
    (hc : A.Complete ratio r j) (hc' : A.Complete ratio r' j')
    (h : A.slot ratio r j = A.slot ratio r' j') : r = r' ∧ j = j' := by
  obtain ⟨hl, hlen⟩ := hc
  obtain ⟨hl', hlen'⟩ := hc'
  have hpos : 0 < A.pageSize / ratio := Nat.div_pos (Nat.le_of_dvd A.pageSize_pos hdvd) hr
  unfold PagedAlloc.slot at h
  rw [Nat.mul_comm, Nat.mul_comm (A.pageOf r' _)] at h
  have hpg := congrArg (· / (A.pageSize / ratio)) h
  have hoff := congrArg (· % (A.pageSize / ratio)) h
  simp only [Nat.mul_add_div hpos, Nat.div_eq_of_lt (Nat.mod_lt _ hpos), Nat.add_zero,
    Nat.mul_add_mod, Nat.mod_mod] at hpg hoff
  obtain ⟨hreq, hpage⟩ := A.disjoint r (j * ratio) r' (j' * ratio) hl hl'
    (by rw [Nat.succ_mul] at hlen; omega) (by rw [Nat.succ_mul] at hlen'; omega) hpg
  refine ⟨hreq, ?_⟩
  obtain ⟨S, hS⟩ := hdvd
  rw [hS, Nat.mul_comm ratio S, Nat.mul_div_mul_right _ _ hr, Nat.mul_div_mul_right _ _ hr] at hpage
  rw [hS, Nat.mul_div_cancel_left _ hr] at hoff
  rw [← Nat.div_add_mod j S, ← Nat.div_add_mod j' S, hpage, hoff]

end Readers

/-- What the writer's metadata says of token `i`. -/
theorem outLoc_getElem? {ratio : Nat} {seqLens raw : List Nat} {i s w : Nat}
    (hs : seqLens[i]? = some s) (hw : raw[i]? = some w) :
    (lowRatioCompressionMetadata ratio seqLens raw).1[i]? =
      some (if s % ratio = 0 then ((w / ratio : Nat) : Int) else -1) := by
  have hi : i < raw.length := (List.getElem?_eq_some_iff.mp hw).1
  simp only [lowRatioCompressionMetadata, List.getElem?_zipWith, List.getElem?_map,
    List.getElem?_take, if_pos hi, hs, hw, Option.map_some, decide_eq_true_eq]

/-- Row `b` of the page table lists the pages request `r` holds; columns past
them are padding. -/
def PagedAlloc.RowOf (A : PagedAlloc) (pageTable : List (List Int)) (b r : Nat) : Prop :=
  ∃ row, pageTable[b]? = some row ∧
    ∀ q, q < A.seqLen r → row[q / A.pageSize]? = some ((A.pageOf r (q / A.pageSize) : Nat) : Int)

/-- The paged indexer's resolution through the expanded table. -/
theorem paged_slot (A : PagedAlloc) {ratio ips : Nat} (hr : 0 < ratio) (hips : 0 < ips)
    (hdvd : ratio * ips ∣ A.pageSize) {pageTable : List (List Int)} {b r j : Nat}
    (hrow : A.RowOf pageTable b r) (hc : A.Complete ratio r j) :
    ∃ expanded row, expandIndexPageTable pageTable A.pageSize ratio ips = some expanded ∧
      expanded[b]? = some row ∧
      resolvePaged row ips j = some ((A.slot ratio r j : Nat) : Int) := by
  have hb := slot_bounds A (Dvd.dvd.trans ⟨ips, rfl⟩ hdvd) hr hc
  obtain ⟨hl, hlen⟩ := hc
  obtain ⟨row, hget, hrow⟩ := hrow
  obtain ⟨B, hB⟩ := hdvd
  have hq : j * ratio < A.seqLen r := by rw [Nat.succ_mul] at hlen; omega
  have hS : A.pageSize / ratio = B * ips := by
    rw [hB, Nat.mul_assoc, Nat.mul_div_cancel_left _ hr, Nat.mul_comm]
  have hpage : j * ratio / A.pageSize = j / ips / B := by
    rw [hB, Nat.mul_assoc, Nat.mul_comm ratio, Nat.mul_div_mul_right _ _ hr,
      Nat.div_div_eq_div_mul]
  have hcell := hrow _ hq
  have hslot : A.slot ratio r j = A.pageOf r (j / ips / B) * (B * ips) + j % (B * ips) := by
    unfold PagedAlloc.slot; rw [hS, hpage]
  rw [hpage] at hcell
  rw [hslot] at hb ⊢
  generalize A.pageOf r (j / ips / B) = pg at *
  rw [← @block_index j B ips pg] at hb ⊢
  unfold expandIndexPageTable
  simp only [hS, Nat.mul_mod_left, ne_eq, not_true_eq_false, if_false, Nat.mul_div_cancel _ hips]
  by_cases h1 : B = 1
  · -- one indexer block a page: the table is used as it is
    subst h1
    refine ⟨pageTable, row, by simp, hget, ?_⟩
    rw [Nat.div_one] at hcell
    simp [resolvePaged, hcell, Nat.mod_one]
  · have hB0 : 0 < B := by
      rcases Nat.eq_zero_or_pos B with h0 | h0
      · subst h0; simp at hB; have := A.pageSize_pos; omega
      · exact h0
    have hk := Nat.mod_lt (j / ips) hB0
    refine ⟨_, row.flatMap fun p => (List.range B).map fun (k : Nat) => toInt32 (p * B + k),
      by rw [if_neg h1], by simp [hget], ?_⟩
    have hidx : j / ips = j / ips / B * B + j / ips % B := by
      rw [Nat.mul_comm]; exact (Nat.div_add_mod _ _).symm
    have hcast : toInt32 ((pg : Int) * B + (j / ips % B : Nat)) = (pg * B + j / ips % B : Nat) := by
      have hle := Nat.le_mul_of_pos_right (pg * B + j / ips % B) hips
      rw [show (pg : Int) * B + (j / ips % B : Nat) = (pg * B + j / ips % B : Nat) by push_cast; rfl]
      generalize pg * B + j / ips % B = x at *
      exact toInt32_of_fits (by omega) (by omega)
    unfold resolvePaged
    rw [hidx, flatMap_getElem?_of_length row (by simp) hk, hcell, Option.bind_some,
      List.getElem?_map, List.getElem?_range hk, Option.map_some, Option.map_some, hcast, ← hidx]
    push_cast; rfl

/-- The dense prefill indexer's slots. -/
theorem dense_slot (A : PagedAlloc) {ratio : Nat} (hr : 0 < ratio) (hdvd : ratio ∣ A.pageSize)
    {r j : Nat} (hc : A.Complete ratio r j) :
    (denseSlots ratio (A.reqToToken r) (A.seqLen r))[j]? = some (A.slot ratio r j) := by
  have hj : j < A.seqLen r / ratio := by
    have := hc.2
    rw [Nat.lt_div_iff_mul_lt hr]
    rw [Nat.succ_mul] at this; omega
  have := token_slot A hdvd hc (show 0 < ratio from hr)
  rw [Nat.add_zero] at this
  simp [denseSlots, List.getElem?_range hj, this]

/-- The kernel's `(page, slot)` pair names slot `raw_out_loc / 2`. -/
theorem c2Slot_spec {bits raw : Nat} (hbits : bits < 32) (hraw : raw < 2 ^ 31) :
    (c2Slot bits raw).1.toNat * 2 ^ bits + (c2Slot bits raw).2.toNat = raw / 2 ∧
      (c2Slot bits raw).2.toNat < 2 ^ bits := by
  have hx : (BitVec.ofInt 32 (raw : Int)).toNat = raw := by
    rw [BitVec.toNat_ofInt]; omega
  have hmsb : (BitVec.ofInt 32 (raw : Int)).msb = false := by
    rw [BitVec.msb_eq_decide, hx]; simp; omega
  have hout : ((BitVec.ofInt 32 (raw : Int)).sshiftRight 1).toNat = raw / 2 := by
    rw [BitVec.sshiftRight_eq_of_msb_false hmsb, BitVec.toNat_ushiftRight, hx]
    simp [Nat.shiftRight_eq_div_pow]
  have hmsb' : ((BitVec.ofInt 32 (raw : Int)).sshiftRight 1).msb = false := by
    rw [BitVec.msb_eq_decide, hout]; simp; omega
  have hpow : 2 ^ bits < 2 ^ 32 := Nat.pow_lt_pow_right (by decide) hbits
  have hpos := Nat.two_pow_pos bits
  have hmask : ((1#32 <<< bits) - 1#32).toNat = 2 ^ bits - 1 := by
    rw [BitVec.toNat_sub, BitVec.toNat_shiftLeft, BitVec.toNat_ofNat, Nat.shiftLeft_eq,
      Nat.one_mod_eq_one.mpr (by decide), Nat.one_mul, Nat.mod_eq_of_lt hpow]
    omega
  simp only [c2Slot]
  rw [BitVec.sshiftRight_eq_of_msb_false hmsb', BitVec.toNat_ushiftRight, BitVec.toNat_and, hout,
    hmask, Nat.and_two_pow_sub_one_eq_mod, Nat.shiftRight_eq_div_pow]
  refine ⟨?_, Nat.mod_lt _ hpos⟩
  rw [Nat.mul_comm]; exact Nat.div_add_mod _ _

/-! ## Headline -/

/-- **One slot, three computations.** For every complete group `j` of a live
request, the writer's `out_loc` (at the group's last token, wherever it stands
in the batch), the dense indexer's `k_slots` and the paged indexer's resolution
agree on `A.slot ratio r j`; slots of distinct groups differ and lie past the
reserved page; a token completing no group gets -1; and for ratio 2 the fused
kernel splits the same slot for every power-of-two pool page. -/
theorem writer_readers_same_slot (A : PagedAlloc) {ratio ips : Nat} (hr : 0 < ratio)
    (hdvd : ratio * ips ∣ A.pageSize) :
    (∀ r j, A.Complete ratio r j →
      (∀ (seqLens raw : List Nat) (i : Nat), seqLens[i]? = some (j * ratio + (ratio - 1) + 1) →
        raw[i]? = some (A.reqToToken r (j * ratio + (ratio - 1))) →
        (lowRatioCompressionMetadata ratio seqLens raw).1[i]? = some ((A.slot ratio r j : Nat) : Int)) ∧
      (denseSlots ratio (A.reqToToken r) (A.seqLen r))[j]? = some (A.slot ratio r j) ∧
      (∀ pageTable b, A.RowOf pageTable b r →
        ∃ expanded row, expandIndexPageTable pageTable A.pageSize ratio ips = some expanded ∧
          expanded[b]? = some row ∧ resolvePaged row ips j = some ((A.slot ratio r j : Nat) : Int)) ∧
      A.pageSize / ratio ≤ A.slot ratio r j) ∧
    (∀ r j r' j', A.Complete ratio r j → A.Complete ratio r' j' →
      A.slot ratio r j = A.slot ratio r' j' → r = r' ∧ j = j') ∧
    (∀ (seqLens raw : List Nat) (i s w : Nat), seqLens[i]? = some s → raw[i]? = some w → s % ratio ≠ 0 →
      (lowRatioCompressionMetadata ratio seqLens raw).1[i]? = some (-1)) ∧
    (ratio = 2 → ∀ r j, A.Complete ratio r j → ∀ bits, bits < 32 →
      let ps := c2Slot bits (A.reqToToken r (j * ratio + (ratio - 1)))
      ps.1.toNat * 2 ^ bits + ps.2.toNat = A.slot ratio r j ∧ ps.2.toNat < 2 ^ bits) := by
  have hratio : ratio ∣ A.pageSize := Dvd.dvd.trans ⟨ips, rfl⟩ hdvd
  have hips : 0 < ips := by
    rcases Nat.eq_zero_or_pos ips with h0 | h0
    · subst h0
      have := A.pageSize_pos
      rw [Nat.mul_zero, Nat.zero_dvd] at hdvd; omega
    · exact h0
  refine ⟨fun r j hc => ⟨?_, dense_slot A hr hratio hc, ?_, (slot_bounds A hratio hr hc).1⟩,
    fun r j r' j' => slot_inj A hratio hr, ?_, ?_⟩
  · intro seqLens raw i hs hw
    have hmod : (j * ratio + (ratio - 1) + 1) % ratio = 0 := by
      rw [show j * ratio + (ratio - 1) + 1 = (j + 1) * ratio by rw [Nat.succ_mul]; omega]
      exact Nat.mul_mod_left _ _
    rw [outLoc_getElem? hs hw, if_pos hmod, token_slot A hratio hc (by omega)]
  · intro pageTable b hrow
    exact paged_slot A hr hips hdvd hrow hc
  · intro seqLens raw i s w hs hw hne
    rw [outLoc_getElem? hs hw, if_neg hne]
  · intro h2 r j hc bits hbits
    have hlast := token_slot A hratio hc (show ratio - 1 < ratio by omega)
    have hraw : A.reqToToken r (j * ratio + (ratio - 1)) < 2 ^ 31 := by
      obtain ⟨hl, hlen⟩ := hc
      have hq : j * ratio + (ratio - 1) < A.seqLen r := by rw [Nat.succ_mul] at hlen; omega
      have hf := A.fits r _ hl hq
      have hm := Nat.mod_lt (j * ratio + (ratio - 1)) A.pageSize_pos
      rw [A.token_loc r _ hl hq]
      rw [Nat.succ_mul] at hf; omega
    have hsplit := c2Slot_spec hbits hraw
    subst h2
    exact ⟨hsplit.1.trans hlast, hsplit.2⟩

/-- Two requests of six tokens on interleaved pages of four. -/
def twoRequests : PagedAlloc where
  pageSize := 4
  live r := r < 2
  seqLen _ := 6
  pageOf r p := 1 + 2 * p + r
  reqToToken r q := (1 + 2 * (q / 4) + r) * 4 + q % 4
  pageSize_pos := by decide
  token_loc _ _ _ _ := rfl
  reserved _ _ _ _ := by omega
  disjoint _ _ _ _ _ _ _ _ h := by omega
  fits _ _ _ _ := by omega

theorem twoRequests_slot :
    (lowRatioCompressionMetadata 2 [6] [17]).1[0]? = some 8 ∧
      (denseSlots 2 (twoRequests.reqToToken 1) 6)[2]? = some 8 ∧
      (∃ expanded row, expandIndexPageTable [[2, 4]] 4 2 1 = some expanded ∧
        expanded[0]? = some row ∧ resolvePaged row 1 2 = some 8) ∧
      (c2Slot 1 17).1.toNat * 2 ^ 1 + (c2Slot 1 17).2.toNat = 8 := by
  have hc : twoRequests.Complete 2 1 2 := ⟨show 1 < 2 by decide, by decide⟩
  have hrow : twoRequests.RowOf [[2, 4]] 0 1 := by
    refine ⟨[2, 4], rfl, fun q hq => ?_⟩
    change q < 6 at hq
    interval_cases q <;> rfl
  have main := writer_readers_same_slot twoRequests (show 0 < 2 by decide)
    (show 2 * 1 ∣ twoRequests.pageSize by decide)
  obtain ⟨h1, h2, h3, -⟩ := main.1 1 2 hc
  exact ⟨h1 [6] [17] 0 rfl rfl, h2, h3 [[2, 4]] 0 hrow, (main.2.2.2 rfl 1 2 hc 1 (by decide)).1⟩

end FlashSpark.L1.SlotAddress
