import FlashSpark.Core.Kernel
import FlashSpark.Core.Tensor

/-!
# Splitting KV pages into 64-token pages

`flash_mla_sm120.py:385-589`. A page of `pbs` tokens is 576 data bytes a token,
then 8 scale bytes a token, then padding. `_split_kv_pages_to_64` copies each
source page to `ratio` destination pages of a buffer that persists across calls.

Results:
* `pageMark_apply`: the mask is 1 exactly on the pages of the given tokens.
* `pageSplit_writes`: what one program of the split kernel writes, and where.
* `split_token`, `split_frame`: referenced tokens arrive; everything else stays.
* `split_preserves_tokens`: both, after every call of every sequence of calls.
-/
namespace FlashSpark.L1.PageSplit

/-- mirrors flash_mla_sm120.py:391-400 -/
def pbsDst : Nat := 64
def nopeRopeStride : Nat := 576
def scaleStride : Nat := 8
def bytesPerDstPage : Nat := pbsDst * nopeRopeStride + pbsDst * scaleStride
def bytesPerDstPagePadded : Nat := (bytesPerDstPage + 575) / 576 * 576

/-- A pool of pages: `stride(0)` bytes apart. -/
structure View where
  pages : Nat
  stride0 : Nat
  bytes : Nat → UInt8

/-- A persistent buffer: its first dimension, and its contents. -/
structure Buffer where
  rows : Nat
  bytes : Nat → UInt8

/-- `get_resources().buffers`, by the part of the key after the common prefix. -/
structure Buffers where
  split : String → Option Buffer
  mask : String → Option Buffer

/-- One call. `fresh`: what `torch.empty` finds; the orders are those in which
the programs of the two launches take effect. -/
structure Call where
  kv : View
  srcPbs : Nat
  touchedIndices : Option (List Int)
  dev : String
  bufferTag : String
  freshSplit : Nat → UInt8
  freshMask : Nat → UInt8
  markOrder : List Nat
  splitOrder : List Nat

def bufferKey (dev bufferTag : String) : String := dev ++ ":" ++ bufferTag

def Call.key (c : Call) : String := bufferKey c.dev c.bufferTag

/-- One lane of a marking program.
mirrors flash_mla_sm120.py:477-482 -/
def markLane (indices : List Int) (srcPbs : Nat) (mask : Nat → UInt8) (offs : Nat) : Nat → UInt8 :=
  let valid := decide (offs < indices.length)
  let idx := if valid then indices.getD offs (-1) else -1
  if valid = true ∧ 0 ≤ idx then Function.update mask (idx / srcPbs).toNat 1 else mask

/-- mirrors flash_mla_sm120.py:463-482 (`_page_mark_kernel`), program `pid` -/
def pageMarkKernel (indices : List Int) (srcPbs blk : Nat) (mask : Nat → UInt8) (pid : Nat) :
    Nat → UInt8 :=
  ((List.range blk).map fun i => pid * blk + i).foldl (markLane indices srcPbs) mask

/-- mirrors flash_mla_sm120.py:403-459 (`_page_split_kernel`), program `pid`;
`mask = none` is `HAS_MASK = False` -/
def pageSplitKernel (src : View) (ratio srcScaleOff blk : Nat) (mask : Option (Nat → UInt8))
    (dst : Nat → UInt8) (pid : Nat) : Nat → UInt8 :=
  let pageIdx := pid / ratio
  let sub := pid % ratio
  let dataU64 := pbsDst * nopeRopeStride / 8
  let scaleU64 := pbsDst * scaleStride / 8
  if src.pages ≤ pageIdx then dst
  else if (mask.any fun m => m pageIdx == 0) = true then dst
  else
    let srcBase := pageIdx * (src.stride0 / 8)
    let dstBase := (pageIdx * ratio + sub) * (bytesPerDstPagePadded / 8)
    let dst := copyLanes src.bytes (srcBase + sub * dataU64) dstBase dataU64 blk dst
    copyLanes src.bytes (srcBase + (srcScaleOff / 8 + sub * scaleU64))
      (dstBase + pbsDst * nopeRopeStride / 8) scaleU64 blk dst

/-- The entry of a grow-only buffer that has at least `rows` rows. -/
def grow (entry : Option Buffer) (rows : Nat) (fresh : Nat → UInt8) : Buffer :=
  match entry with
  | none => ⟨rows, fresh⟩
  | some buf => if buf.rows < rows then ⟨rows, fresh⟩ else buf

/-- `touched_indices is not None and touched_indices.numel() > 0`, with the
flattened int32 indices. -/
def Call.useMask (c : Call) : Option (List Int) :=
  (c.touchedIndices.filter fun idx => decide (0 < idx.length)).map fun idx => idx.map toInt32

/-- The returned view, `none` for a failed assertion, and the buffers afterwards.
mirrors flash_mla_sm120.py:485-589 (`_split_kv_pages_to_64`) -/
def splitKvPagesTo64 (b : Buffers) (c : Call) : Option View × Buffers :=
  if ¬ (c.srcPbs % pbsDst = 0 ∧ pbsDst ≤ c.srcPbs) then (none, b)
  else if c.srcPbs = pbsDst then (some c.kv, b)
  else
    let n := c.kv.pages
    let ratio := c.srcPbs / pbsDst
    let buf := grow (b.split c.key) (n * ratio) c.freshSplit
    let b := { b with split := Function.update b.split c.key (some buf) }
    let (mask, b) : Option (Nat → UInt8) × Buffers :=
      match c.useMask with
      | none => (none, b)
      | some idxFlat =>
        let mbuf := grow (b.mask c.key) n c.freshMask
        let zeroed := fun a => if a < n then 0 else mbuf.bytes a
        let marked := c.markOrder.foldl (pageMarkKernel idxFlat c.srcPbs 1024) zeroed
        (some marked, { b with mask := Function.update b.mask c.key (some ⟨mbuf.rows, marked⟩) })
    if c.kv.stride0 % 8 = 0 ∧ bytesPerDstPagePadded % 8 = 0 then
      let out := c.splitOrder.foldl
        (pageSplitKernel c.kv ratio (c.srcPbs * nopeRopeStride) 1024 mask) buf.bytes
      (some ⟨n * ratio, bytesPerDstPagePadded, out⟩,
        { b with split := Function.update b.split c.key (some ⟨buf.rows, out⟩) })
    else (none, b)

/-! ## What a split is for -/

/-- The 576 data bytes of token `t` in a pool of `pbs`-token pages. -/
def tokenData (v : View) (pbs t : Nat) : Bytes :=
  slice v.bytes (t / pbs * v.stride0 + t % pbs * nopeRopeStride) nopeRopeStride

/-- Its 8 scale bytes, in the page's footer. -/
def tokenScale (v : View) (pbs t : Nat) : Bytes :=
  slice v.bytes (t / pbs * v.stride0 + pbs * nopeRopeStride + t % pbs * scaleStride) scaleStride

/-- Token `t` is named by the index tensor; every token where there is none (a
tensor without entries counts as none). -/
def Call.Referenced (c : Call) (t : Nat) : Prop :=
  ∀ idx, c.touchedIndices = some idx → 0 < idx.length → (t : Int) ∈ idx

/-- Source page `p` holds a referenced token. -/
def Call.Touched (c : Call) (p : Nat) : Prop :=
  ∃ t, c.Referenced t ∧ t / c.srcPbs = p

/-- What the callers promise: whole 64-token sub-pages, 8-byte aligned pages,
int32 indices inside the pool, and a launch that runs each of its programs. -/
structure Call.Ok (c : Call) : Prop where
  pbs : c.srcPbs % pbsDst = 0 ∧ pbsDst ≤ c.srcPbs
  stride : c.kv.stride0 % 8 = 0
  inPool : ∀ idx, c.touchedIndices = some idx → ∀ t ∈ idx, -2 ^ 31 ≤ t ∧ t < 2 ^ 31 ∧
    t < c.kv.pages * c.srcPbs
  markOrder : ∀ idx, c.touchedIndices = some idx →
    c.markOrder.Perm (List.range ((idx.length + 1023) / 1024))
  splitOrder : c.splitOrder.Perm (List.range (c.kv.pages * (c.srcPbs / pbsDst)))

theorem bytesPerDstPagePadded_eq : bytesPerDstPagePadded = 37440 := by decide

theorem pbsDst_pos : 0 < pbsDst := by decide

theorem bytesPerDstPagePadded_pos : 0 < bytesPerDstPagePadded := by decide

theorem bytesPerDstPage_le_padded : bytesPerDstPage ≤ bytesPerDstPagePadded := by decide

theorem padded_div {q off : Nat} (hoff : off < bytesPerDstPagePadded) :
    (q * bytesPerDstPagePadded + off) / bytesPerDstPagePadded = q := by
  rw [Nat.mul_comm, Nat.mul_add_div bytesPerDstPagePadded_pos, Nat.div_eq_of_lt hoff, Nat.add_zero]

theorem padded_mod {q off : Nat} (hoff : off < bytesPerDstPagePadded) :
    (q * bytesPerDstPagePadded + off) % bytesPerDstPagePadded = off := by
  rw [Nat.mul_comm, Nat.mul_add_mod, Nat.mod_eq_of_lt hoff]

theorem bufferKey_inj {dev tag tag' : String} (h : bufferKey dev tag = bufferKey dev tag') :
    tag = tag' := by
  unfold bufferKey at h
  have h' := congrArg String.toList h
  simp only [String.toList_append] at h'
  exact String.toList_inj.mp (List.append_cancel_left h')

/-- Byte `a` is among the first `k` bytes of page `q`. -/
theorem mem_page {page k a q : Nat} (hk : k ≤ page) :
    q * page ≤ a ∧ a < q * page + k ↔ a / page = q ∧ a % page < k := by
  constructor
  · intro h
    obtain ⟨hlo, hhi⟩ := h
    obtain ⟨r, rfl⟩ := Nat.exists_eq_add_of_le hlo
    have hr : r < page := by omega
    rw [Nat.mul_comm q page, Nat.mul_add_div (by omega), Nat.mul_add_mod, Nat.div_eq_of_lt hr,
      Nat.mod_eq_of_lt hr]
    exact ⟨rfl, by omega⟩
  · intro h
    obtain ⟨rfl, hmod⟩ := h
    have := Nat.div_add_mod a page
    rw [Nat.mul_comm] at this
    omega

/-! ## The two kernels -/

theorem markLane_writes (indices : List Int) (srcPbs : Nat) :
    Writes (markLane indices srcPbs)
      (fun offs p => ∃ idx, indices[offs]? = some idx ∧ 0 ≤ idx ∧ (idx / srcPbs).toNat = p)
      (fun _ => 1) := by
  intro m offs p
  unfold markLane
  by_cases hv : offs < indices.length
  · simp only [hv, decide_true, if_true, true_and, List.getD_eq_getElem?_getD,
      List.getElem?_eq_getElem hv, Option.getD_some, Option.some.injEq, exists_eq_left']
    refine ⟨fun ⟨h0, hp⟩ => ?_, fun hmiss => ?_⟩
    · rw [if_pos h0, hp, Function.update_self]
    · split
      · rename_i h0
        exact Function.update_of_ne (fun hp => hmiss ⟨h0, hp.symm⟩) _ _
      · rfl
  · simp [hv]

/-- The mask after all marking programs ran, in any order. -/
theorem pageMark_apply {indices : List Int} {srcPbs : Nat} {order : List Nat}
    (horder : order.Perm (List.range ((indices.length + 1023) / 1024))) (mask : Nat → UInt8) (p : Nat) :
    ((∃ t ∈ indices, 0 ≤ t ∧ (t / srcPbs).toNat = p) →
      order.foldl (pageMarkKernel indices srcPbs 1024) mask p = 1) ∧
    ((∀ t ∈ indices, 0 ≤ t → (t / srcPbs).toNat ≠ p) →
      order.foldl (pageMarkKernel indices srcPbs 1024) mask p = mask p) := by
  have hw := (markLane_writes indices srcPbs).nest fun pid => (List.range 1024).map fun i => pid * 1024 + i
  refine ⟨fun ⟨t, ht, h0, hp⟩ => ?_, fun hnone => ?_⟩
  · obtain ⟨k, hk, hget⟩ := List.getElem_of_mem ht
    refine hw.foldl_hit order mask p ⟨k / 1024, ?_, k, ?_, t, ?_, h0, hp⟩
    · rw [horder.mem_iff, List.mem_range]; omega
    · exact List.mem_map.mpr ⟨k % 1024, List.mem_range.mpr (Nat.mod_lt _ (by decide)), by omega⟩
    · rw [List.getElem?_eq_getElem hk, hget]
  · refine hw.foldl_miss order mask p ?_
    rintro pid - ⟨k, -, t, ht, h0, hp⟩
    exact hnone t (List.mem_of_getElem? ht) h0 hp

/-- Where byte `a` of the output comes from. -/
def sourceByte (src : View) (ratio srcScaleOff a : Nat) : UInt8 :=
  let q := a / bytesPerDstPagePadded
  let off := a % bytesPerDstPagePadded
  src.bytes (q / ratio * src.stride0 +
    if off < pbsDst * nopeRopeStride then q % ratio * (pbsDst * nopeRopeStride) + off
    else srcScaleOff + q % ratio * (pbsDst * scaleStride) + (off - pbsDst * nopeRopeStride))

/-- Program `pid` writes the data and scale bytes of destination page `pid`, if
its source page is in the pool and not masked out. -/
theorem pageSplit_writes (src : View) {ratio srcScaleOff : Nat} (hs : src.stride0 % 8 = 0)
    (hoff : srcScaleOff % 8 = 0) (mask : Option (Nat → UInt8)) :
    Writes (pageSplitKernel src ratio srcScaleOff 1024 mask)
      (fun pid a => pid / ratio < src.pages ∧ (∀ m, mask = some m → m (pid / ratio) ≠ 0) ∧
        pid * bytesPerDstPagePadded ≤ a ∧ a < pid * bytesPerDstPagePadded + bytesPerDstPage)
      (sourceByte src ratio srcScaleOff) := by
  intro m pid a
  have hpid : pid / ratio * ratio + pid % ratio = pid := by
    rw [Nat.mul_comm]; exact Nat.div_add_mod pid ratio
  have hpage : 8 * (pid / ratio * (src.stride0 / 8)) = pid / ratio * src.stride0 := by
    rw [Nat.mul_left_comm, Nat.mul_div_cancel' (Nat.dvd_of_mod_eq_zero hs)]
  have hskip : (mask.any fun m => m (pid / ratio) == 0) = true ↔
      ¬ ∀ m, mask = some m → m (pid / ratio) ≠ 0 := by
    cases mask <;> simp
  unfold pageSplitKernel
  dsimp only
  rw [hpid]
  split
  · exact ⟨fun h => by omega, fun _ => rfl⟩
  rename_i hin
  split
  · rename_i hmask
    exact ⟨fun h => absurd h.2.1 (hskip.mp hmask), fun _ => rfl⟩
  rename_i hmask
  rw [hskip, not_not] at hmask
  rw [copyLanes_apply _ _ _ _ (by decide), copyLanes_apply _ _ _ _ (by decide)]
  simp only [bytesPerDstPagePadded_eq, bytesPerDstPage, pbsDst, nopeRopeStride, scaleStride,
    sourceByte] at *
  refine ⟨fun ⟨_, _, hlo, hhi⟩ => ?_, fun hmiss => ?_⟩
  · have hq : a / 37440 = pid := by omega
    have ho : a % 37440 = a - pid * 37440 := by omega
    rw [hq, ho]
    by_cases hdata : a - pid * 37440 < 36864
    · rw [if_neg (by omega), if_pos (by omega), if_pos hdata]
      exact congrArg src.bytes (by omega)
    · rw [if_pos (by omega), if_neg hdata]
      exact congrArg src.bytes (by omega)
  · have hout : a < pid * 37440 ∨ pid * 37440 + 37376 ≤ a := by
      by_contra hcon
      exact hmiss ⟨by omega, hmask, by omega, by omega⟩
    rw [if_neg (by omega), if_neg (by omega)]

/-! ## One call -/

theorem Call.Ok.useMask_eq {c : Call} (h : c.Ok) {idxFlat : List Int} (hu : c.useMask = some idxFlat) :
    c.touchedIndices = some idxFlat ∧ 0 < idxFlat.length := by
  obtain ⟨idx, hfilter, rfl⟩ := Option.map_eq_some_iff.mp hu
  obtain ⟨hidx, hlen⟩ := Option.filter_eq_some_iff.mp hfilter
  have hid : idx.map toInt32 = idx := by
    conv_rhs => rw [← List.map_id idx]
    refine List.map_congr_left fun t ht => ?_
    obtain ⟨hlo, hhi, -⟩ := h.inPool idx hidx t ht
    exact toInt32_of_fits hlo hhi
  rw [hid]
  exact ⟨hidx, of_decide_eq_true hlen⟩

theorem Call.useMask_none {c : Call} (hu : c.useMask = none) (t : Nat) : c.Referenced t := by
  intro idx hidx hlen
  unfold Call.useMask at hu
  rw [Option.map_eq_none_iff, hidx, Option.filter_eq_none_iff] at hu
  exact absurd (decide_eq_true hlen) (hu idx rfl)

/-- Under a mask, the touched pages are those of the given tokens. -/
theorem Call.Ok.touched_iff {c : Call} (h : c.Ok) {idx : List Int} (hu : c.useMask = some idx) (p : Nat) :
    c.Touched p ↔ ∃ t ∈ idx, 0 ≤ t ∧ (t / c.srcPbs).toNat = p := by
  obtain ⟨hidx, hlen⟩ := h.useMask_eq hu
  constructor
  · intro hyp
    obtain ⟨t, href, rfl⟩ := hyp
    refine ⟨t, href idx hidx hlen, Int.natCast_nonneg t, ?_⟩
    rw [← Int.natCast_ediv, Int.toNat_natCast]
  · intro hyp
    obtain ⟨t, ht, h0, rfl⟩ := hyp
    refine ⟨t.toNat, fun idx' hidx' _ => ?_, ?_⟩
    · obtain rfl := Option.some.inj (hidx.symm.trans hidx')
      rw [Int.toNat_of_nonneg h0]; exact ht
    · conv_rhs => rw [← Int.toNat_of_nonneg h0, ← Int.natCast_ediv, Int.toNat_natCast]

/-- What a call on `ratio > 1` sub-pages leaves behind. -/
structure Split (b : Buffers) (c : Call) (out : Nat → UInt8) (b' : Buffers) : Prop where
  split : b'.split = Function.update b.split c.key
    (some ⟨(grow (b.split c.key) (c.kv.pages * (c.srcPbs / pbsDst)) c.freshSplit).rows, out⟩)
  mask : ∀ key, key ≠ c.key → b'.mask key = b.mask key
  touched : ∀ a, c.Touched (a / bytesPerDstPagePadded / (c.srcPbs / pbsDst)) →
    a < c.kv.pages * (c.srcPbs / pbsDst) * bytesPerDstPagePadded →
    a % bytesPerDstPagePadded < bytesPerDstPage →
    out a = sourceByte c.kv (c.srcPbs / pbsDst) (c.srcPbs * nopeRopeStride) a
  frame : ∀ a, ¬ (c.Touched (a / bytesPerDstPagePadded / (c.srcPbs / pbsDst)) ∧
      a < c.kv.pages * (c.srcPbs / pbsDst) * bytesPerDstPagePadded ∧
      a % bytesPerDstPagePadded < bytesPerDstPage) →
    out a = (grow (b.split c.key) (c.kv.pages * (c.srcPbs / pbsDst)) c.freshSplit).bytes a

/-- The split kernel under a mask that is nonzero exactly on the touched pages. -/
theorem splitOrder_spec {c : Call} (h : c.Ok) (hr : 0 < c.srcPbs / pbsDst)
    {mask : Option (Nat → UInt8)}
    (hmask : ∀ p, p < c.kv.pages → ((∀ m, mask = some m → m p ≠ 0) ↔ c.Touched p))
    (dst : Nat → UInt8) (a : Nat) :
    (c.Touched (a / bytesPerDstPagePadded / (c.srcPbs / pbsDst)) ∧
        a < c.kv.pages * (c.srcPbs / pbsDst) * bytesPerDstPagePadded ∧
        a % bytesPerDstPagePadded < bytesPerDstPage →
      c.splitOrder.foldl (pageSplitKernel c.kv (c.srcPbs / pbsDst) (c.srcPbs * nopeRopeStride) 1024 mask)
        dst a = sourceByte c.kv (c.srcPbs / pbsDst) (c.srcPbs * nopeRopeStride) a) ∧
    (¬ (c.Touched (a / bytesPerDstPagePadded / (c.srcPbs / pbsDst)) ∧
        a < c.kv.pages * (c.srcPbs / pbsDst) * bytesPerDstPagePadded ∧
        a % bytesPerDstPagePadded < bytesPerDstPage) →
      c.splitOrder.foldl (pageSplitKernel c.kv (c.srcPbs / pbsDst) (c.srcPbs * nopeRopeStride) 1024 mask)
        dst a = dst a) := by
  have hoff8 : c.srcPbs * nopeRopeStride % 8 = 0 := by simp only [nopeRopeStride]; omega
  have hw := @pageSplit_writes c.kv (c.srcPbs / pbsDst) _ h.stride hoff8 mask
  have hpages : ∀ q, q / (c.srcPbs / pbsDst) < c.kv.pages ↔ q < c.kv.pages * (c.srcPbs / pbsDst) :=
    fun q => Nat.div_lt_iff_lt_mul hr
  refine ⟨fun ⟨htouch, hlt, hoff⟩ => ?_, fun hmiss => ?_⟩
  · have hq : a / bytesPerDstPagePadded < c.kv.pages * (c.srcPbs / pbsDst) :=
      (Nat.div_lt_iff_lt_mul bytesPerDstPagePadded_pos).mpr hlt
    obtain ⟨hlo, hhi⟩ := (mem_page bytesPerDstPage_le_padded).mpr ⟨rfl, hoff⟩
    refine hw.foldl_hit _ _ _ ⟨a / bytesPerDstPagePadded, ?_, (hpages _).mpr hq, ?_, hlo, hhi⟩
    · rw [h.splitOrder.mem_iff, List.mem_range]; exact hq
    · exact (hmask _ ((hpages _).mpr hq)).mpr htouch
  · refine hw.foldl_miss _ _ _ ?_
    rintro pid - ⟨hin, hm, hlo, hhi⟩
    obtain ⟨rfl, hoff⟩ := (mem_page bytesPerDstPage_le_padded).mp ⟨hlo, hhi⟩
    refine hmiss ⟨(hmask _ hin).mp hm, ?_, hoff⟩
    exact (Nat.div_lt_iff_lt_mul bytesPerDstPagePadded_pos).mp ((hpages _).mp hin)

theorem split_spec {b : Buffers} {c : Call} (h : c.Ok) (hne : c.srcPbs ≠ pbsDst) :
    ∃ out b', splitKvPagesTo64 b c =
        (some ⟨c.kv.pages * (c.srcPbs / pbsDst), bytesPerDstPagePadded, out⟩, b') ∧
      Split b c out b' := by
  obtain ⟨hdvd, hge⟩ := h.pbs
  have hr : 0 < c.srcPbs / pbsDst := Nat.div_pos hge pbsDst_pos
  have hpbs : 0 < c.srcPbs := Nat.lt_of_lt_of_le pbsDst_pos hge
  unfold splitKvPagesTo64
  rw [if_neg (not_not.mpr ⟨hdvd, hge⟩), if_neg hne]
  dsimp only
  cases hu : c.useMask with
  | none =>
    dsimp only
    rw [if_pos ⟨h.stride, by decide⟩]
    have hall : ∀ p, p < c.kv.pages →
        ((∀ m, (none : Option (Nat → UInt8)) = some m → m p ≠ 0) ↔ c.Touched p) := fun p _ =>
      ⟨fun _ => ⟨p * c.srcPbs, c.useMask_none hu _, Nat.mul_div_cancel _ hpbs⟩, fun _ m hm => by cases hm⟩
    refine ⟨_, _, rfl, ?_, fun _ _ => rfl, fun a ht hlt hoff => ?_, fun a hn => ?_⟩
    · dsimp only; rw [Function.update_idem]
    · exact (splitOrder_spec h hr hall _ a).1 ⟨ht, hlt, hoff⟩
    · exact (splitOrder_spec h hr hall _ a).2 hn
  | some idx =>
    dsimp only
    rw [if_pos ⟨h.stride, by decide⟩]
    obtain ⟨hidx, hlen⟩ := h.useMask_eq hu
    set marked := c.markOrder.foldl (pageMarkKernel idx c.srcPbs 1024) (fun a =>
      if a < c.kv.pages then 0 else (grow (b.mask c.key) c.kv.pages c.freshMask).bytes a) with hmarked
    have hiff : ∀ p, p < c.kv.pages → ((∀ m, some marked = some m → m p ≠ 0) ↔ c.Touched p) := by
      intro p hp
      obtain ⟨hhit, hmiss⟩ := @pageMark_apply idx c.srcPbs _ (h.markOrder idx hidx) (fun a =>
        if a < c.kv.pages then 0 else (grow (b.mask c.key) c.kv.pages c.freshMask).bytes a) p
      rw [← hmarked] at hhit hmiss
      rw [h.touched_iff hu]
      constructor
      · intro hm
        by_contra hcon
        apply hm marked rfl
        rw [hmiss fun t ht h0 hp => hcon ⟨t, ht, h0, hp⟩, if_pos hp]
      · intro hex m hm
        obtain rfl := Option.some.inj hm
        rw [hhit hex]; decide
    refine ⟨_, _, rfl, ?_, fun key hkey => Function.update_of_ne hkey _ _, fun a ht hlt hoff => ?_,
      fun a hn => ?_⟩
    · dsimp only; rw [Function.update_idem]
    · exact (splitOrder_spec h hr hiff _ a).1 ⟨ht, hlt, hoff⟩
    · exact (splitOrder_spec h hr hiff _ a).2 hn

/-! ## Tokens -/

/-- Byte `off` of a destination page `q` whose source page is touched. -/
theorem Split.byte {b b' : Buffers} {c : Call} {out : Nat → UInt8} (hs : Split b c out b')
    {q off : Nat} (hq : q < c.kv.pages * (c.srcPbs / pbsDst)) (hoff : off < bytesPerDstPage)
    (ht : c.Touched (q / (c.srcPbs / pbsDst))) :
    out (q * bytesPerDstPagePadded + off) = c.kv.bytes (q / (c.srcPbs / pbsDst) * c.kv.stride0 +
      if off < pbsDst * nopeRopeStride then q % (c.srcPbs / pbsDst) * (pbsDst * nopeRopeStride) + off
      else c.srcPbs * nopeRopeStride + q % (c.srcPbs / pbsDst) * (pbsDst * scaleStride) +
        (off - pbsDst * nopeRopeStride)) := by
  have hpadded : off < bytesPerDstPagePadded := Nat.lt_of_lt_of_le hoff bytesPerDstPage_le_padded
  have hdiv : (q * bytesPerDstPagePadded + off) / bytesPerDstPagePadded = q := padded_div hpadded
  have hrem : (q * bytesPerDstPagePadded + off) % bytesPerDstPagePadded = off := padded_mod hpadded
  have hlt := (Nat.div_lt_iff_lt_mul (x := q * bytesPerDstPagePadded + off)
    (y := c.kv.pages * (c.srcPbs / pbsDst)) bytesPerDstPagePadded_pos).mp (by rw [hdiv]; exact hq)
  rw [hs.touched _ (by rw [hdiv]; exact ht) hlt (by rw [hrem]; exact hoff)]
  unfold sourceByte
  dsimp only
  rw [hdiv, hrem]

/-- A referenced token arrives at its own index. -/
theorem split_token {b b' : Buffers} {c : Call} {out : Nat → UInt8} (h : c.Ok)
    (hs : Split b c out b') {t : Nat} (ht : t < c.kv.pages * c.srcPbs) (href : c.Referenced t) :
    tokenData ⟨c.kv.pages * (c.srcPbs / pbsDst), bytesPerDstPagePadded, out⟩ pbsDst t =
        tokenData c.kv c.srcPbs t ∧
      tokenScale ⟨c.kv.pages * (c.srcPbs / pbsDst), bytesPerDstPagePadded, out⟩ pbsDst t =
        tokenScale c.kv c.srcPbs t := by
  have hpbs : pbsDst * (c.srcPbs / pbsDst) = c.srcPbs :=
    Nat.mul_div_cancel' (Nat.dvd_of_mod_eq_zero h.pbs.1)
  have hpage : t / pbsDst / (c.srcPbs / pbsDst) = t / c.srcPbs := by
    rw [Nat.div_div_eq_div_mul, hpbs]
  have hslot : t % c.srcPbs = t % pbsDst + pbsDst * (t / pbsDst % (c.srcPbs / pbsDst)) := by
    rw [← Nat.mod_mul, hpbs]
  have hq : t / pbsDst < c.kv.pages * (c.srcPbs / pbsDst) := by
    rw [Nat.div_lt_iff_lt_mul pbsDst_pos, Nat.mul_assoc, Nat.mul_comm _ pbsDst, hpbs]
    exact ht
  have htouch : c.Touched (t / pbsDst / (c.srcPbs / pbsDst)) := ⟨t, href, hpage.symm⟩
  -- both regions of the page hold one entry per slot
  have hslotLt : ∀ width, t % pbsDst * width + width ≤ pbsDst * width := fun width => by
    rw [← Nat.succ_mul]
    exact Nat.mul_le_mul_right _ (Nat.mod_lt t pbsDst_pos)
  have hdata := hslotLt nopeRopeStride
  have hscale := hslotLt scaleStride
  unfold tokenData tokenScale
  dsimp only
  rw [slice_eq_slice, slice_eq_slice]
  refine ⟨fun i hi => ?_, fun i hi => ?_⟩
  · rw [Nat.add_assoc, hs.byte hq (by unfold bytesPerDstPage; omega) htouch, if_pos (by omega), hpage,
      hslot]
    congr 1; ring
  · rw [show t / pbsDst * bytesPerDstPagePadded + pbsDst * nopeRopeStride + t % pbsDst * scaleStride + i =
        t / pbsDst * bytesPerDstPagePadded + (pbsDst * nopeRopeStride + (t % pbsDst * scaleStride + i)) by
          omega,
      hs.byte hq (by unfold bytesPerDstPage; omega) htouch, if_neg (by omega), hpage, hslot,
      Nat.add_sub_cancel_left]
    congr 1; ring

/-- Untouched source pages, padding, and rows past the pool keep their bytes in a
buffer that did not have to grow. -/
theorem split_frame {b b' : Buffers} {c : Call} {out : Nat → UInt8} (hs : Split b c out b')
    {old : Buffer} (hold : b.split c.key = some old)
    (hrows : c.kv.pages * (c.srcPbs / pbsDst) ≤ old.rows) :
    b'.split c.key = some ⟨old.rows, out⟩ ∧
      ∀ a, ¬ c.Touched (a / bytesPerDstPagePadded / (c.srcPbs / pbsDst)) ∨
        c.kv.pages * (c.srcPbs / pbsDst) ≤ a / bytesPerDstPagePadded ∨
        bytesPerDstPage ≤ a % bytesPerDstPagePadded → out a = old.bytes a := by
  have hgrow : grow (b.split c.key) (c.kv.pages * (c.srcPbs / pbsDst)) c.freshSplit = old := by
    rw [hold]
    exact if_neg (Nat.not_lt.mpr hrows)
  refine ⟨by rw [hs.split, Function.update_self, hgrow], fun a hout => ?_⟩
  rw [← hgrow]
  refine hs.frame a fun ⟨ht, hlt, hoff⟩ => ?_
  rcases hout with hout | hout | hout
  · exact hout ht
  · exact absurd ((Nat.div_lt_iff_lt_mul bytesPerDstPagePadded_pos).mpr hlt) (Nat.not_lt.mpr hout)
  · exact absurd hoff (Nat.not_lt.mpr hout)

/-- The persistent buffers after a sequence of calls. -/
def runCalls (b : Buffers) (cs : List Call) : Buffers :=
  cs.foldl (fun b c => (splitKvPagesTo64 b c).2) b

/-- **The split preserves every referenced token.** After any sequence of calls
from any buffers, a further call returns a view in which every referenced token
has, at its unchanged index, the data and scale bytes it has in the source. If
the buffer had room, every destination page of an untouched source page and every
page's padding is as before; the buffers of other tags always are. -/
theorem split_preserves_tokens (b₀ : Buffers) (cs : List Call) (c : Call) (h : c.Ok) :
    ∃ view, (splitKvPagesTo64 (runCalls b₀ cs) c).1 = some view ∧
      (∀ t, t < c.kv.pages * c.srcPbs → c.Referenced t →
        tokenData view pbsDst t = tokenData c.kv c.srcPbs t ∧
          tokenScale view pbsDst t = tokenScale c.kv c.srcPbs t) ∧
      (c.srcPbs = pbsDst → view = c.kv ∧ (splitKvPagesTo64 (runCalls b₀ cs) c).2 = runCalls b₀ cs) ∧
      (c.srcPbs ≠ pbsDst → view.stride0 = bytesPerDstPagePadded ∧
        ∃ rows, (splitKvPagesTo64 (runCalls b₀ cs) c).2.split c.key = some ⟨rows, view.bytes⟩ ∧
        ∀ old, (runCalls b₀ cs).split c.key = some old →
          c.kv.pages * (c.srcPbs / pbsDst) ≤ old.rows → rows = old.rows ∧
          ∀ q off, off < bytesPerDstPagePadded →
            ¬ c.Touched (q / (c.srcPbs / pbsDst)) ∨ bytesPerDstPage ≤ off →
            view.bytes (q * bytesPerDstPagePadded + off) = old.bytes (q * bytesPerDstPagePadded + off)) ∧
      (∀ tag, tag ≠ c.bufferTag →
        (splitKvPagesTo64 (runCalls b₀ cs) c).2.split (bufferKey c.dev tag) =
          (runCalls b₀ cs).split (bufferKey c.dev tag) ∧
        (splitKvPagesTo64 (runCalls b₀ cs) c).2.mask (bufferKey c.dev tag) =
          (runCalls b₀ cs).mask (bufferKey c.dev tag)) := by
  generalize runCalls b₀ cs = b
  by_cases hpbs : c.srcPbs = pbsDst
  · have hsame : splitKvPagesTo64 b c = (some c.kv, b) := by
      unfold splitKvPagesTo64
      rw [if_neg (not_not.mpr h.pbs), if_pos hpbs]
    rw [hsame]
    exact ⟨c.kv, rfl, fun t _ _ => by rw [hpbs]; exact ⟨rfl, rfl⟩, fun _ => ⟨rfl, rfl⟩,
      fun hne => absurd hpbs hne, fun _ _ => ⟨rfl, rfl⟩⟩
  · obtain ⟨out, b', heq, hs⟩ := split_spec (b := b) h hpbs
    rw [heq]
    refine ⟨_, rfl, fun t ht href => split_token h hs ht href, fun he => absurd he hpbs,
      fun _ => ⟨rfl, (grow (b.split c.key) (c.kv.pages * (c.srcPbs / pbsDst)) c.freshSplit).rows, ?_,
        fun old hold hrows => ?_⟩, fun tag htag => ?_⟩
    · rw [hs.split, Function.update_self]
    · obtain ⟨-, hframe⟩ := split_frame hs hold hrows
      refine ⟨?_, fun q off hoff hout => ?_⟩
      · rw [hold]
        exact congrArg Buffer.rows (if_neg (Nat.not_lt.mpr hrows))
      · refine hframe _ ?_
        rw [padded_div hoff, padded_mod hoff]
        exact hout.imp_right .inr
    · have hkey : bufferKey c.dev tag ≠ c.key := fun hk => htag (bufferKey_inj hk)
      exact ⟨by rw [hs.split, Function.update_of_ne hkey], hs.mask _ hkey⟩

/-- Two pages of 128 tokens, of which token 130 is looked at. -/
def twoPages : Call :=
  { kv := ⟨2, 74752, fun a => UInt8.ofNat a⟩, srcPbs := 128, touchedIndices := some [130, -1],
    dev := "cuda:0", bufferTag := "primary", freshSplit := fun _ => 0, freshMask := fun _ => 0,
    markOrder := [0], splitOrder := [3, 1, 0, 2] }

theorem twoPages_ok : twoPages.Ok where
  pbs := by decide
  stride := by decide
  inPool idx hidx t ht := by
    obtain rfl := Option.some.inj hidx
    simp only [List.mem_cons, List.not_mem_nil, or_false] at ht
    rcases ht with rfl | rfl <;> decide
  markOrder idx hidx := by
    obtain rfl := Option.some.inj hidx
    decide
  splitOrder := by decide

theorem twoPages_token : ∃ view, (splitKvPagesTo64 ⟨fun _ => none, fun _ => none⟩ twoPages).1 = some view ∧
    tokenData view pbsDst 130 = tokenData twoPages.kv 128 130 := by
  obtain ⟨view, hview, htoken, -⟩ :=
    split_preserves_tokens ⟨fun _ => none, fun _ => none⟩ [] twoPages twoPages_ok
  refine ⟨view, hview, (htoken 130 (by decide) fun idx hidx _ => ?_).1⟩
  obtain rfl := Option.some.inj hidx
  decide

end FlashSpark.L1.PageSplit
