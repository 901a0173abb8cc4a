import FlashSpark.L1Layout.EntryBytes

/-!
# The footer of a page of `2 ^ 22` slots is found before the page

The kernel asks for a power-of-two page and nothing else (c2.cuh:290, "the page/slot
split needs a power-of-two page"), and computes the size of a page in 64 bits
(`584ll << kPageBits`, c2.cuh:84). The offset of the footer in it is the
`int` `576 << kPageBits` (c2.cuh:265): from `2 ^ 22` slots on it wraps, and the block
scales land away from where the reader, and the page's own size, have the footer.

Counterexample: slot 0 of a page of `2 ^ 22` slots.

* `entry_agrees_iff`: writer, reader and page split agree exactly up to `2 ^ 21` slots.
-/
namespace FlashSpark.Bugs.FooterShift
open Launch L1.SlotAddress L1.PageSplit L1.EntryBytes

/-- What 64-token pages split off pages of any multiple of 64 tokens have: the entry of
every referenced token is read back, from its own bytes and no others; the bytes of
distinct tokens are disjoint and inside their page. -/
def SplitAgrees (c : Call) (view : View) : Prop :=
  ∀ t, t < c.kv.pages * c.srcPbs → ∀ ty : IndexType,
    (∀ e, c.Referenced t → Holds c.kv c.srcPbs t e → ∀ (B : Type) (dequant : UInt8 → UInt8 → B) bf16,
      gatherAndDequant dequant bf16 view ty pbsDst t = some (e.values dequant bf16)) ∧
    ∃ o, gatherOffsets ty pbsDst (t : Int) = some o ∧ ∀ a, o.Reads view a →
      t / pbsDst * view.stride0 ≤ a ∧ a < t / pbsDst * view.stride0 + bytesPerDstPagePadded ∧
      ∀ t' o', t' < c.kv.pages * c.srcPbs → gatherOffsets ty pbsDst (t' : Int) = some o' →
        o'.Reads view a → t = t'

/-- Writer and readers agree on pages of `2 ^ bits` slots. -/
structure EntryAgrees (bits : Nat) : Prop where
  /-- What a launch stored for a slot, in any order, is read back. -/
  readBack : ∀ (n : Nat) (rows : Fin n → Row), Slots rows → ∀ m m',
    Completes (storeTasks bits rows) m m' → ∀ pages r, (rows r).rawOutLoc / 2 < pages * 2 ^ bits →
      Holds ⟨pages, kPageBytes bits, fun a => m' a⟩ (2 ^ bits) ((rows r).rawOutLoc / 2) (rows r).entry ∧
      ∀ (ty : IndexType) (B : Type) (dequant : UInt8 → UInt8 → B) bf16,
        gatherAndDequant dequant bf16 ⟨pages, kPageBytes bits, fun a => m' a⟩ ty (2 ^ bits)
          ((rows r).rawOutLoc / 2 : Nat) = some ((rows r).entry.values dequant bf16)
  /-- The bytes stored for a slot are the bytes read. -/
  same : ∀ (r : Row) (v : View) (ty : IndexType), r.rawOutLoc < 2 ^ 31 → v.stride0 = kPageBytes bits →
    r.rawOutLoc / 2 < v.pages * 2 ^ bits →
    ∃ o, gatherOffsets ty (2 ^ bits) (r.rawOutLoc / 2 : Nat) = some o ∧
      ∀ a, Written bits r a ↔ ∃ k : Nat, a = k ∧ o.Reads v k
  disjoint : ∀ (r r' : Row) a, r.rawOutLoc < 2 ^ 31 → r'.rawOutLoc < 2 ^ 31 → Written bits r a →
    Written bits r' a → r.rawOutLoc / 2 = r'.rawOutLoc / 2
  /-- A slot's bytes are in its page. -/
  inside : ∀ (r : Row) a, r.rawOutLoc < 2 ^ 31 → Written bits r a →
    ∃ k : Nat, a = r.rawOutLoc / 2 / 2 ^ bits * kPageBytes bits + k ∧ k < kPageBytes bits
  split : ∀ b₀ cs (c : Call), c.Ok → 584 * c.srcPbs ≤ c.kv.stride0 →
    ∃ view, (splitKvPagesTo64 (runCalls b₀ cs) c).1 = some view ∧ SplitAgrees c view

/-! ## Where they agree -/

theorem fits_page (ty : IndexType) {bits : Nat} (hbits : bits ≤ 21) :
    ty.Fits (584 * 2 ^ bits : Nat) := by
  have hpow : 2 ^ bits ≤ 2 ^ 21 := Nat.pow_le_pow_right (by decide) hbits
  have hmax : ty.Fits (584 * 2 ^ 21 : Nat) := by cases ty <;> decide
  exact hmax.of_le (Nat.mul_le_mul_left 584 hpow)

theorem split_agrees (b₀ : Buffers) (cs : List Call) (c : Call) (h : c.Ok)
    (hstride : 584 * c.srcPbs ≤ c.kv.stride0) :
    ∃ view, (splitKvPagesTo64 (runCalls b₀ cs) c).1 = some view ∧ SplitAgrees c view := by
  obtain ⟨view, heq, hroom, hpages, hholds⟩ := @split_holds b₀ cs c h hstride
  refine ⟨view, heq, fun t ht ty => ?_⟩
  have hfits : ty.Fits (584 * pbsDst : Nat) := @fits_page ty 6 (by decide)
  have ht' : t < view.pages * pbsDst := by rw [hpages]; exact ht
  refine ⟨fun e href he B dequant bf16 =>
    gather_holds dequant bf16 (hholds t e ht href he) pbsDst_pos hroom hfits ht',
    _, gatherOffsets_eq pbsDst_pos hfits, fun a ha => ?_⟩
  rw [reads_iff pbsDst_pos hroom hfits ht' (gatherOffsets_eq pbsDst_pos hfits)] at ha
  obtain ⟨hlo, hhi⟩ := entryByte_page pbsDst_pos ha
  refine ⟨hlo, Nat.lt_of_lt_of_le hhi (Nat.add_le_add_left (by decide) _), fun t' o' htt ho' ha' => ?_⟩
  rw [reads_iff pbsDst_pos hroom hfits (by rw [hpages]; exact htt) ho'] at ha'
  exact entryByte_inj pbsDst_pos hroom ha ha'

theorem entry_agrees {bits : Nat} (hbits : bits ≤ 21) : EntryAgrees bits := by
  have hpos : 0 < 2 ^ bits := Nat.two_pow_pos bits
  have hroom := le_kPageBytes bits
  refine ⟨fun n rows hrows m m' hrun pages r hr => ?_, fun r v ty hraw hv hr => ?_,
    fun r r' a hraw hraw' ha ha' => ?_, fun r a hraw ha => ?_, split_agrees⟩
  · have hholds := hrows.holds hbits hrun pages r
    exact ⟨hholds, fun ty B dequant bf16 =>
      gather_holds dequant bf16 hholds hpos hroom (fits_page ty hbits) hr⟩
  · have ho := gatherOffsets_eq (t := r.rawOutLoc / 2) hpos (fits_page ty hbits)
    refine ⟨_, ho, fun a => (written_iff hbits hraw).trans (exists_congr fun k => and_congr_right fun _ => ?_)⟩
    rw [reads_iff hpos (by rw [hv]; exact hroom) (fits_page ty hbits) hr ho, hv]
  · obtain ⟨k, rfl, hk⟩ := (written_iff hbits hraw).mp ha
    obtain ⟨k', he, hk'⟩ := (written_iff hbits hraw').mp ha'
    obtain rfl := Int.ofNat_inj.mp he
    exact entryByte_inj hpos hroom hk hk'
  · obtain ⟨k, rfl, hk⟩ := (written_iff hbits hraw).mp ha
    obtain ⟨hlo, hhi⟩ := entryByte_page hpos hk
    obtain ⟨i, rfl⟩ := Nat.exists_eq_add_of_le hlo
    exact ⟨i, by push_cast; rfl, by omega⟩

/-! ## Where the shift wraps -/

def slotZero : Row := ⟨1, ⟨fun _ => 0, fun _ => 0, fun _ => 0⟩⟩

/-- No thread stores the first scale of slot 0 where a reader loads it. -/
theorem slotZero_unwritten {bits : Nat} (hbits : 22 ≤ bits) (hlt : bits < 32) :
    ¬ Written bits slotZero (576 * 2 ^ bits : Nat) := by
  intro h
  have hpow : 2 ^ 22 ≤ 2 ^ bits := Nat.pow_le_pow_right (by decide) hbits
  obtain ⟨hsum, -⟩ := @c2Slot_spec bits 1 hlt (by decide)
  have hpage : (c2Slot bits (1 : Nat)).1 = 0#32 := by
    apply BitVec.eq_of_toNat_eq
    rcases Nat.mul_eq_zero.mp (Nat.add_eq_zero_iff.mp hsum).1 with h0 | h0
    · exact h0
    · omega
  have hslot : (c2Slot bits (1 : Nat)).2 = 0#32 :=
    BitVec.eq_of_toNat_eq (Nat.add_eq_zero_iff.mp hsum).2
  obtain ⟨tx, htx, hmem⟩ := h
  have hshift : (576#32 <<< bits).toInt < 2 ^ 31 := BitVec.toInt_lt
  simp only [slotZero, hpage, hslot] at hmem
  rw [mem_locs_threadStores] at hmem
  simp only [valuePtr, footerPtr, pagePtr] at hmem
  simp only [BitVec.toInt_zero, BitVec.zero_mul, Int.zero_mul, Int.zero_add, Int.add_zero] at hmem
  have htx : tx < 256 := htx
  omega

theorem not_entry_agrees {bits : Nat} (hbits : 22 ≤ bits) (hlt : bits < 32) : ¬ EntryAgrees bits := by
  intro h
  have hpos : 0 < 2 ^ bits := Nat.two_pow_pos bits
  obtain ⟨o, ho, hsame⟩ := h.same slotZero ⟨1, kPageBytes bits, fun _ => 0⟩ .int64 (by decide) rfl
    (by simp [slotZero])
  have hfits : IndexType.int64.Fits (584 * 2 ^ bits : Nat) := by
    have hpow : 2 ^ bits ≤ 2 ^ 31 := Nat.pow_le_pow_right (by decide) (by omega)
    have hmax : IndexType.int64.Fits (584 * 2 ^ 31 : Nat) := by decide
    exact hmax.of_le (Nat.mul_le_mul_left 584 hpow)
  refine slotZero_unwritten hbits hlt ((hsame _).mpr ⟨576 * 2 ^ bits, rfl, ?_⟩)
  rw [reads_iff hpos (le_kPageBytes bits) hfits (by simp [slotZero]) ho]
  exact .inr ⟨0, by decide, by simp [slotZero, nopeRopeStride, Nat.mul_comm]⟩

/-- **Where writer and readers agree.** Exactly in pages of up to `2 ^ 21` slots. -/
theorem entry_agrees_iff (bits : Nat) (hlt : bits < 32) : EntryAgrees bits ↔ bits ≤ 21 := by
  constructor
  · intro h
    by_contra hbits
    exact not_entry_agrees (by omega) hlt h
  · exact entry_agrees

/-- The pages of 128 slots the kernel is built for by default agree. -/
theorem default_pages_agree : EntryAgrees 7 := (entry_agrees_iff 7 (by decide)).mpr (by decide)

/-- In the first page of `2 ^ 22` slots the footer is before the pool. -/
theorem large_page_disagrees : footerPtr 22 0#32 0#32 = -1879048192 ∧ ¬ EntryAgrees 22 :=
  ⟨by decide, not_entry_agrees (by decide) (by decide)⟩

end FlashSpark.Bugs.FooterShift
