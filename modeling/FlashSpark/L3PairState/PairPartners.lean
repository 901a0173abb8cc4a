import FlashSpark.L3PairState.C2Kernel

/-!
# Pair partners on the torch path and in the fused kernel

A batch serves some requests, each with consecutive rows that start at the
request's next position; a verify block may have only a prefix of its rows
accepted. Prefill and compact verify go through `_low_ratio_pair_partners`
(`Batch.partner`, `pairPartners`), which reads every partner before it publishes
every row; decode and static verify go through the kernel, which publishes even
rows only. `Serves` is what both do for the requests of a batch:

* a row pairs with the row before it, a head with the ring row of the position
  before it;
* if the accepted rows end at an even position, that row is in the ring;
* the ring of a request outside the batch is as it was.

`torch_serves` and `fused_serves` prove it of each path.
-/
namespace FlashSpark.L3.PairRing

open Launch

variable {V : Type}

/-! ## Batches -/

/-- The ring row of position `p` of request `r`. -/
def slot (ring r p : Nat) : Nat := r * ring + p % ring

/-- mirrors `translate_from_req_position_to_state_loc`: negative positions go to
the spare row, `none`. -/
def stateLoc (ring req : Nat) (pos : Int) : Option Nat :=
  if pos < 0 then none else some (req * ring + (pos % ring).toNat)

/-- The rows of a batch, and which request each run of rows belongs to. -/
structure Batch (V : Type) where
  numTokens : Nat
  kv : Nat → V
  req : Nat → Nat
  pos : Nat → Nat
  rawOutLoc : Nat → Nat
  segments : Nat
  owner : Nat → Nat
  first : Nat → Nat
  len : Nat → Nat
  /-- How many rows of a segment end up committed. -/
  accepted : Nat → Nat

/-- Each request occupies consecutive rows, from its next position on; every other
row is padding; only a block shorter than the ring may be rejected in part. -/
structure Batch.Fits (B : Batch V) (next : Nat → Nat) (ring : Nat) : Prop where
  owner_inj : ∀ b b', b < B.segments → b' < B.segments → B.owner b = B.owner b' → b = b'
  lt : ∀ b i, b < B.segments → i < B.len b → B.first b + i < B.numTokens
  req : ∀ b i, b < B.segments → i < B.len b → B.req (B.first b + i) = B.owner b
  pos : ∀ b i, b < B.segments → i < B.len b → B.pos (B.first b + i) = next (B.owner b) + i
  live : ∀ b i, b < B.segments → i < B.len b → B.rawOutLoc (B.first b + i) ≠ 0
  covered : ∀ k, k < B.numTokens → B.rawOutLoc k ≠ 0 →
    ∃ b i, b < B.segments ∧ i < B.len b ∧ k = B.first b + i
  accepted_pos : ∀ b, b < B.segments → 1 ≤ B.accepted b
  accepted_le : ∀ b, b < B.segments → B.accepted b ≤ B.len b
  short : ∀ b, b < B.segments → B.accepted b < B.len b → B.len b < ring

/-- A live row under the request of segment `b` is a row of segment `b`. -/
theorem Batch.Fits.row_of_req {B : Batch V} {next : Nat → Nat} {ring : Nat} (h : B.Fits next ring)
    {b k : Nat} (hb : b < B.segments) (hk : k < B.numTokens) (hraw : B.rawOutLoc k ≠ 0)
    (hreq : B.req k = B.owner b) : ∃ i, i < B.len b ∧ k = B.first b + i := by
  obtain ⟨b', i, hb', hi, rfl⟩ := h.covered k hk hraw
  rw [h.req b' i hb' hi] at hreq
  obtain rfl := h.owner_inj b' b hb' hb hreq
  exact ⟨i, hi, rfl⟩

theorem Batch.Fits.head {B : Batch V} {next : Nat → Nat} {ring : Nat} (h : B.Fits next ring)
    {b : Nat} (hb : b < B.segments) : 0 < B.len b ∧ B.first b < B.numTokens ∧
      B.req (B.first b) = B.owner b ∧ B.pos (B.first b) = next (B.owner b) ∧
      B.rawOutLoc (B.first b) ≠ 0 := by
  have hlen : 0 < B.len b := by
    have := h.accepted_pos b hb
    have := h.accepted_le b hb
    omega
  exact ⟨hlen, h.lt b 0 hb hlen, h.req b 0 hb hlen, h.pos b 0 hb hlen, h.live b 0 hb hlen⟩

/-! ## The torch path -/

section Torch
variable (B : Batch V) (ring : Nat)

/-- `pad = raw_out_loc[:num_tokens] == 0` (deepseek_v4_backend.py:2995). -/
def Batch.pad (k : Nat) : Bool := B.rawOutLoc k == 0

/-- `(pos - 1).masked_fill(pad, -1)`. -/
def Batch.readPos (k : Nat) : Int := if B.pad k then -1 else B.pos k - 1

/-- Row `k` continues row `k - 1`; row 0 continues none. -/
def Batch.inBatch (k : Nat) : Bool :=
  k != 0 && (B.req k == B.req (k - 1) && B.pos k == B.pos (k - 1) + 1 && !B.pad k && !B.pad (k - 1))

/-- `torch.where(in_batch, torch.roll(kv, 1, 0), carried.kv)`. -/
def Batch.partner (pool : Option Nat → V) (k : Nat) : V :=
  if B.inBatch k then B.kv (k - 1) else pool (stateLoc ring (B.req k) (B.readPos k))

/-- `~pad`, and when the batch is longer than the ring, no row of the same request
a whole ring later. -/
def Batch.keep (k : Nat) : Bool :=
  !B.pad k && (if B.numTokens > ring ∧ k + ring < B.numTokens then
    B.req k != B.req (k + ring) || B.pad (k + ring) else true)

def Batch.writePos (k : Nat) : Int := if B.keep ring k then B.pos k else -1

end Torch

/-- mirrors deepseek_v4_backend.py:3013-3050 (`_low_ratio_pair_partners`): the pool
after the call; the partners it returns are `Batch.partner` of the pool before. -/
def pairPartners (B : Batch V) (ring : Nat) (pool pool' : Option Nat → V) : Prop :=
  Scattered B.numTokens (fun k => stateLoc ring (B.req k) (B.writePos ring k)) B.kv pool pool'

/-! ## What a batch does for its requests -/

/-- `pair k` is what row `k` is pooled from; `pool'` the pair state afterwards. -/
structure Serves (ring : Nat) (next : Nat → Nat) (B : Batch V) (pool pool' : Option Nat → V)
    (pair : Nat → V × V) : Prop where
  within : ∀ b i, b < B.segments → i + 1 < B.len b → (next (B.owner b) + (i + 1)) % 2 = 1 →
    pair (B.first b + (i + 1)) = (B.kv (B.first b + i), B.kv (B.first b + (i + 1)))
  head : ∀ b, b < B.segments → next (B.owner b) % 2 = 1 → pair (B.first b) =
    (pool (some (slot ring (B.owner b) (next (B.owner b) - 1))), B.kv (B.first b))
  parked : ∀ b i, b < B.segments → i + 1 = B.accepted b → (next (B.owner b) + i) % 2 = 0 →
    pool' (some (slot ring (B.owner b) (next (B.owner b) + i))) = B.kv (B.first b + i)
  kept : ∀ r, (∀ b, b < B.segments → B.owner b ≠ r) → ∀ p,
    pool' (some (slot ring r p)) = pool (some (slot ring r p))

theorem stateLoc_natCast (ring req pos : Nat) :
    stateLoc ring req (pos : Int) = some (slot ring req pos) := by
  unfold stateLoc slot
  rw [if_neg (by omega)]
  rfl

theorem stateLoc_neg (ring req : Nat) : stateLoc ring req (-1) = none := rfl

/-- A row published on a request's slot is that request's. -/
theorem publish_row {B : Batch V} {ring k r p : Nat} (hring : 0 < ring)
    (he : stateLoc ring (B.req k) (B.writePos ring k) = some (slot ring r p)) :
    B.keep ring k = true ∧ B.rawOutLoc k ≠ 0 ∧ B.req k = r ∧ B.pos k % ring = p % ring := by
  by_cases hkeep : B.keep ring k = true
  · rw [Batch.writePos, if_pos hkeep, stateLoc_natCast] at he
    obtain ⟨hreq, hmod⟩ := mul_add_inj (Nat.mod_lt _ hring) (Nat.mod_lt _ hring)
      (Option.some.inj he)
    refine ⟨hkeep, fun hraw => ?_, hreq, hmod⟩
    simp [Batch.keep, Batch.pad, hraw] at hkeep
  · rw [Batch.writePos, if_neg hkeep, stateLoc_neg] at he
    cases he

section Torch
variable {B : Batch V} {next : Nat → Nat} {ring : Nat} (h : B.Fits next ring)
include h

theorem inBatch_within {b i : Nat} (hb : b < B.segments) (hi : i + 1 < B.len b) :
    B.inBatch (B.first b + (i + 1)) = true := by
  have hprev : B.first b + (i + 1) - 1 = B.first b + i := by omega
  simp [Batch.inBatch, Batch.pad, hprev, h.req b _ hb hi, h.req b i hb (by omega),
    h.pos b _ hb hi, h.pos b i hb (by omega), h.live b _ hb hi, h.live b i hb (by omega)]
  omega

/-- The row before a head is padding or another request's. -/
theorem inBatch_head {b : Nat} (hb : b < B.segments) :
    B.inBatch (B.first b) = false := by
  by_contra hin
  simp only [Batch.inBatch, Batch.pad, Bool.not_eq_false, Bool.and_eq_true, bne_iff_ne, ne_eq,
    beq_iff_eq, Bool.not_eq_true', beq_eq_false_iff_ne] at hin
  obtain ⟨hne, ⟨⟨hreq, -⟩, -⟩, hraw⟩ := hin
  obtain ⟨-, hlt, howner, -, -⟩ := h.head hb
  obtain ⟨i, -, hi⟩ := h.row_of_req hb (by omega) hraw (hreq.symm.trans howner)
  omega

/-- The last accepted row is published. -/
theorem keep_last (hring : 0 < ring) {b i : Nat} (hb : b < B.segments) (hi : i + 1 = B.accepted b) :
    B.keep ring (B.first b + i) = true := by
  have hle := h.accepted_le b hb
  unfold Batch.keep Batch.pad
  rw [beq_false_of_ne (h.live b i hb (by omega))]
  split
  · rename_i hwin
    by_contra hdrop
    simp only [Bool.not_false, Bool.true_and, Bool.not_eq_true, Bool.or_eq_false_iff,
      bne_eq_false_iff_eq, beq_eq_false_iff_ne] at hdrop
    -- a row a ring later would be in this segment, which is then longer than the ring
    obtain ⟨j, hj, he⟩ := h.row_of_req hb hwin.2 hdrop.2
      (hdrop.1.symm.trans (h.req b i hb (by omega)))
    have := h.short b hb
    omega
  · rfl

/-- No other row is published where the last accepted one is. -/
theorem publish_unique (hring : 0 < ring) {b i k : Nat} (hb : b < B.segments)
    (hi : i + 1 = B.accepted b) (hk : k < B.numTokens)
    (he : stateLoc ring (B.req k) (B.writePos ring k) =
      some (slot ring (B.owner b) (next (B.owner b) + i))) : k = B.first b + i := by
  have hle := h.accepted_le b hb
  obtain ⟨hkeep, hraw, hreq, hmod⟩ := publish_row hring he
  obtain ⟨j, hj, rfl⟩ := h.row_of_req hb hk hraw hreq
  rw [h.pos b j hb hj] at hmod
  rcases Nat.lt_trichotomy j i with hji | rfl | hij
  · -- an earlier row on the same slot is a whole number of rings earlier, and dropped
    have hdvd : ring ∣ i - j := by
      have := (Nat.modEq_iff_dvd' (by omega)).mp hmod
      rwa [show next (B.owner b) + i - (next (B.owner b) + j) = i - j by omega] at this
    have hge := Nat.le_of_dvd (by omega) hdvd
    have hlater : B.first b + j + ring = B.first b + (j + ring) := by omega
    have hlt := h.lt b (j + ring) hb (by omega)
    rw [Batch.keep, if_pos ⟨by omega, by omega⟩, hlater, hreq, h.req b _ hb (by omega)] at hkeep
    simp [Batch.pad, h.live b (j + ring) hb (by omega)] at hkeep
  · rfl
  · -- a later row was rejected, so the block is shorter than the ring
    have := h.short b hb (by omega)
    have := C2.ring_pos_inj (by omega) (by omega) hmod.symm
    omega

theorem torch_serves (hring : 0 < ring) {pool pool' : Option Nat → V}
    (hp : pairPartners B ring pool pool') :
    Serves ring next B pool pool' fun k => (B.partner ring pool k, B.kv k) where
  within b i hb hi _ := by
    have hprev : B.first b + (i + 1) - 1 = B.first b + i := by omega
    simp only [Batch.partner, inBatch_within h hb hi, if_true, hprev]
  head b hb hodd := by
    obtain ⟨-, -, hreq, hpos, hraw⟩ := h.head hb
    have hpad : B.pad (B.first b) = false := beq_false_of_ne hraw
    have hread : B.readPos (B.first b) = ((next (B.owner b) - 1 : Nat) : Int) := by
      rw [Batch.readPos, hpad, hpos]
      simp
      omega
    simp only [Batch.partner, inBatch_head h hb, Bool.false_eq_true, if_false, hread, hreq,
      stateLoc_natCast]
  parked b i hb hi _ := by
    have hle := h.accepted_le b hb
    have hwrite : stateLoc ring (B.req (B.first b + i)) (B.writePos ring (B.first b + i)) =
        some (slot ring (B.owner b) (next (B.owner b) + i)) := by
      rw [Batch.writePos, keep_last h hring hb hi, if_pos rfl, stateLoc_natCast, h.req b i hb (by omega),
        h.pos b i hb (by omega)]
    rw [← hwrite]
    refine hp.1 _ (h.lt b i hb (by omega)) fun k hk he => ?_
    exact publish_unique h hring hb hi hk (he.trans hwrite)
  kept r hr p := by
    refine hp.2 _ fun k hk he => ?_
    obtain ⟨-, hraw, hreq, -⟩ := publish_row hring he
    obtain ⟨b, i, hb, hi, rfl⟩ := h.covered k hk hraw
    exact hr b hb ((h.req b i hb hi).symm.trans hreq)

end Torch

/-! ## The fused kernel -/

/-- The kernel with pooling left as the pair it pools. -/
def pairKernel (V : Type) (kPageBits : Nat) (h : kPageBits < 32) : C2.Kernel V (V × V) Unit where
  kPageBits := kPageBits
  pageBits_lt := h
  latent := Prod.mk
  entry _ _ := ()

def Batch.params (B : Batch V) (ring : Nat) : C2.Params V where
  kvInput := B.kv
  kvOutput k := k
  positions := B.pos
  req := B.req
  rawOutLoc := B.rawOutLoc
  ringSize := ring

/-- The layout of a fused launch: `bs` blocks of `D` rows, each a segment or all
padding (position 0, no location). Decode is `D = 1`. -/
structure Batch.Grid (B : Batch V) (ring bs D : Nat) : Prop where
  rows : B.numTokens = bs * D
  one_le : 1 ≤ D
  ring : D < ring
  blocks : ∀ c, c < bs → (∃ b, b < B.segments ∧ B.first b = c * D ∧ B.len b = D) ∨
    ∀ i, i < D → B.pos (c * D + i) = 0 ∧ B.rawOutLoc (c * D + i) = 0
  int32 : ∀ k, k < B.numTokens → B.rawOutLoc k < 2 ^ 31

/-- The pool after a launch; the kernel knows no spare row. -/
def afterLaunch (pool : Option Nat → V) (m' : Memory (C2.Cell V (V × V) Unit)) : Option Nat → V
  | none => pool none
  | some row => m' (.kvState row)

section Fused
variable {B : Batch V} {next : Nat → Nat} {ring bs D : Nat} (h : B.Fits next ring)
  (g : B.Grid ring bs D)

include g in
theorem Batch.Grid.segment_of_block {c : Nat} (hc : c < bs)
    (hp : ¬ C2.PaddedBlock (B.params ring) D c) :
    ∃ b, b < B.segments ∧ B.first b = c * D ∧ B.len b = D := by
  refine (g.blocks c hc).resolve_right fun hpad => hp ?_
  exact ⟨fun i hi => (hpad i hi).1, fun i hi => (hpad i hi).2⟩

include h g

/-- Every segment is a block. -/
theorem Batch.Grid.block_of_segment {b : Nat} (hb : b < B.segments) :
    ∃ c, c < bs ∧ B.first b = c * D ∧ B.len b = D := by
  have hD := g.one_le
  obtain ⟨-, hlt, hreq, -, hraw⟩ := h.head hb
  have hc : B.first b / D < bs := (Nat.div_lt_iff_lt_mul hD).mpr (by rw [← g.rows]; exact hlt)
  have hi : B.first b % D < D := Nat.mod_lt _ hD
  have hsplit : B.first b / D * D + B.first b % D = B.first b := by
    rw [Nat.mul_comm]; exact Nat.div_add_mod _ _
  have hp : ¬ C2.PaddedBlock (B.params ring) D (B.first b / D) :=
    C2.Blocks.not_padded hi (.inr (by rw [hsplit]; exact hraw))
  obtain ⟨b', hb', hfirst, hlen'⟩ := g.segment_of_block hc hp
  have hreq' := h.req b' (B.first b % D) hb' (by omega)
  rw [hfirst, hsplit, hreq] at hreq'
  obtain rfl := h.owner_inj b b' hb hb' hreq'
  exact ⟨_, hc, hfirst, hlen'⟩

theorem Batch.Grid.toBlocks : C2.Blocks (B.params ring) bs D where
  one_le := g.one_le
  ring := g.ring
  blocks c hc := by
    by_cases hp : C2.PaddedBlock (B.params ring) D c
    · exact .inr hp
    · obtain ⟨b, hb, hfirst, hlen⟩ := g.segment_of_block hc hp
      obtain ⟨-, -, hreq, hpos, -⟩ := h.head hb
      rw [hfirst] at hreq hpos
      refine .inl ⟨fun i hi => ?_, fun i hi => ?_, fun i hi _ => ?_⟩
      · have := h.req b i hb (by omega)
        rw [hfirst] at this
        exact this.trans hreq.symm
      · have := h.pos b i hb (by omega)
        rw [hfirst] at this
        exact this.trans (by rw [← hpos]; rfl)
      · have := h.live b i hb (by omega)
        rwa [hfirst] at this
  distinct c c' hc hc' hp hp' he := by
    obtain ⟨b, hb, hfirst, hlen⟩ := g.segment_of_block hc hp
    obtain ⟨b', hb', hfirst', hlen'⟩ := g.segment_of_block hc' hp'
    obtain ⟨-, -, hreq, -, -⟩ := h.head hb
    obtain ⟨-, -, hreq', -, -⟩ := h.head hb'
    rw [hfirst] at hreq
    rw [hfirst'] at hreq'
    obtain rfl := h.owner_inj b b' hb hb' (hreq.symm.trans (Eq.trans he hreq'))
    exact Nat.eq_of_mul_eq_mul_right g.one_le (hfirst.symm.trans hfirst')
  int32 k hk := g.int32 k (by rw [g.rows]; exact hk)
  output _ _ he := he

omit h g in
/-- The row that holds the partner of a run's first token. -/
theorem readRow_slot {k r p : Nat} (hreq : B.req k = r) (hpos : B.pos k = p) (hodd : 1 ≤ p) :
    (B.params ring).readRow k = slot ring r (p - 1) := by
  show B.req k * ring + (B.pos k + ring - 1) % ring = _
  rw [hreq, hpos, slot, show p + ring - 1 = p - 1 + ring by omega, Nat.add_mod_right]

omit h g in
theorem writeRow_slot {k r p : Nat} (hreq : B.req k = r) (hpos : B.pos k = p) :
    (B.params ring).writeRow k = slot ring r p := by
  show B.req k * ring + B.pos k % ring = _
  rw [hreq, hpos, slot]

theorem fused_serves {kPageBits : Nat} (hbits : kPageBits < 32) {pool : Option Nat → V}
    {m m' : Memory (C2.Cell V (V × V) Unit)} (hm : ∀ row, m (.kvState row) = pool (some row))
    (hrun : C2.launch (pairKernel V kPageBits hbits) (B.params ring) (bs * D) true D m m') :
    Serves ring next B pool (afterLaunch pool m') fun k => m' (.kvOutput k) := by
  have hblocks := g.toBlocks h
  have hleaves := hblocks.launch_leaves _ hrun
  have hring := g.ring
  -- the pair an odd row pools
  have hout : ∀ b c i, b < B.segments → c < bs → B.first b = c * D → i < D → B.len b = D →
      (next (B.owner b) + i) % 2 = 1 → m' (.kvOutput (B.first b + i)) =
        (C2.blockPartner (B.params ring) D m c i, B.kv (B.first b + i)) := by
    intro b c i hb hc hfirst hi hlen hodd
    have hpos := h.pos b i hb (by omega)
    rw [hfirst] at hpos ⊢
    have hst : C2.StoresTo (pairKernel V kPageBits hbits) (B.params ring) true (c * D + i)
        (.kvOutput (c * D + i)) := ⟨by rw [← hpos] at hodd; exact hodd, rfl⟩
    rw [hleaves.row c i _ hc hi (fun _ _ he => by cases he) hst]
    exact C2.applyStores_output hst.1
  refine ⟨fun b i hb hi hodd => ?_, fun b hb hodd => ?_, fun b i hb hi heven => ?_,
    fun r hr p => ?_⟩
  · obtain ⟨c, hc, hfirst, hlen⟩ := g.block_of_segment h hb
    rw [hout b c (i + 1) hb hc hfirst (by omega) hlen hodd, C2.blockPartner,
      if_neg (Nat.succ_ne_zero i), hfirst]
    rfl
  · obtain ⟨c, hc, hfirst, hlen⟩ := g.block_of_segment h hb
    have hpair := hout b c 0 hb hc hfirst g.one_le hlen hodd
    obtain ⟨-, -, hreq, hpos, -⟩ := h.head hb
    rw [Nat.add_zero] at hpair
    have hread : (B.params ring).readRow (c * D) = slot ring (B.owner b) (next (B.owner b) - 1) := by
      rw [hfirst] at hreq hpos
      exact readRow_slot hreq hpos (by omega)
    rw [hpair, C2.blockPartner, if_pos rfl, hread, hm]
  · obtain ⟨c, hc, hfirst, hlen⟩ := g.block_of_segment h hb
    have hle := h.accepted_le b hb
    have hlt := h.lt b i hb (by omega)
    have hreq := h.req b i hb (by omega)
    have hpos := h.pos b i hb (by omega)
    have hraw := h.live b i hb (by omega)
    rw [hfirst] at hreq hpos hraw hlt ⊢
    have hev : (B.params ring).positions (c * D + i) % 2 = 0 := by
      rw [← hpos] at heven
      exact heven
    have hpad : ¬ (B.params ring).Padded (c * D + i) := fun hp =>
      hraw ((C2.padded_iff (g.int32 _ hlt)).mp hp)
    have hwrite : (B.params ring).writeRow (c * D + i) = slot ring (B.owner b) (next (B.owner b) + i) :=
      writeRow_slot hreq hpos
    have hst : C2.StoresTo (pairKernel V kPageBits hbits) (B.params ring) true (c * D + i)
        (.kvState ((B.params ring).writeRow (c * D + i))) := ⟨hev, hpad, rfl⟩
    show m' (.kvState (slot ring (B.owner b) (next (B.owner b) + i))) = _
    rw [← hwrite, hleaves.row c i _ hc (by omega) (fun _ _ he => by cases he) hst,
      C2.rowStores_parked _ _ _ hev hpad,
      applyStores_head (by simp [locs])]
    rfl
  · show m' (.kvState (slot ring r p)) = _
    rw [hleaves.kept _ fun c i hc hi hst => ?_, hm]
    obtain ⟨hp, -, he⟩ := hblocks.state_row hc hi hst
    obtain ⟨b, hb, hfirst, hlen⟩ := g.segment_of_block hc hp
    obtain ⟨hreq, -⟩ := mul_add_inj (Nat.mod_lt _ (by omega)) (Nat.mod_lt _ (by omega)) he
    have howner := h.req b i hb (by omega)
    rw [hfirst] at howner
    exact hr b hb (howner.symm.trans hreq.symm)

end Fused

end FlashSpark.L3.PairRing
