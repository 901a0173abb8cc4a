import FlashSpark.L3PairState.PairPartners

/-!
# Pair partners, batched and token by token

`_low_ratio_pair_partners` on any batch whose live rows are runs of consecutive
positions, one run to a request, and whose padded rows come last. A run may be longer
than the ring. Token by token, a live row reads the ring row of the position before
its own and then stores itself.

* `writes_iff`: the row the scatter sends to a slot is the last live row for it.
* `batched_eq_sequential`: the same partners, and the same ring afterwards.
-/
namespace FlashSpark.L3.PairRing

variable {V : Type}

/-- The rows of a call. A padded row may hold any position. -/
structure Rows (V : Type) where
  numTokens : Nat
  /-- The `| kv | score |` rows. -/
  kv : Nat → V
  req : Nat → Nat
  pos : Nat → Int
  rawOutLoc : Nat → Int

namespace Rows
variable (R : Rows V) (ring : Nat)

/-- mirrors deepseek_v4_backend.py:2995 -/
def pad (k : Nat) : Bool := R.rawOutLoc k == 0

/-- mirrors deepseek_v4_backend.py:3028 -/
def readPos (k : Nat) : Int := if R.pad k then -1 else R.pos k - 1

/-- mirrors deepseek_v4_backend.py:3032-3035 -/
def inBatch (k : Nat) : Bool :=
  k != 0 && (R.req k == R.req (k - 1) && R.pos k == R.pos (k - 1) + 1 && !R.pad k && !R.pad (k - 1))

/-- mirrors deepseek_v4_backend.py:3029-3031,3036-3039 -/
def partner (pool : Option Nat → V) (k : Nat) : V :=
  if R.inBatch k then R.kv (k - 1) else pool (stateLoc ring (R.req k) (R.readPos k))

/-- mirrors deepseek_v4_backend.py:3041-3043 -/
def keep (k : Nat) : Bool :=
  !R.pad k && (if R.numTokens > ring ∧ k + ring < R.numTokens then
    R.req k != R.req (k + ring) || R.pad (k + ring) else true)

/-- mirrors deepseek_v4_backend.py:3044 -/
def writePos (k : Nat) : Int := if R.keep ring k then R.pos k else -1

/-- The slot that row `k` is sent to by the scatter. -/
def writeLoc (k : Nat) : Option Nat := stateLoc ring (R.req k) (R.writePos ring k)

/-- mirrors deepseek_v4_backend.py:3013-3050 (`_low_ratio_pair_partners`): the pool after the
call; the partners it returns are `partner` of the pool before. -/
def pairPartners (pool pool' : Option Nat → V) : Prop :=
  Scattered R.numTokens (R.writeLoc ring) R.kv pool pool'

/-- The first `live` rows are runs of consecutive positions, one to a request; the
others are padding. -/
structure Runs (live : Nat) : Prop where
  live_le : live ≤ R.numTokens
  live_raw : ∀ k, k < live → R.rawOutLoc k ≠ 0
  padded : ∀ k, live ≤ k → k < R.numTokens → R.rawOutLoc k = 0
  nonneg : ∀ k, k < live → 0 ≤ R.pos k
  consecutive : ∀ k, k + 1 < live → R.req (k + 1) = R.req k → R.pos (k + 1) = R.pos k + 1
  distinct : ∀ k j k', k ≤ j → j ≤ k' → k' < live → R.req k = R.req k' → R.req j = R.req k

end Rows

/-! ## Token by token -/

namespace Rows
variable (R : Rows V) (ring : Nat)

def liveLoc (k : Nat) : Option Nat := stateLoc ring (R.req k) (R.pos k)

/-- The ring when the rows before row `k` have been processed one by one. -/
def sequentialRing (pool : Option Nat → V) (k : Nat) : Option Nat → V :=
  storeSeq (R.liveLoc ring) R.kv pool k

/-- What row `k` reads when its turn comes. -/
def sequentialPartner (pool : Option Nat → V) (k : Nat) : V :=
  R.sequentialRing ring pool k (stateLoc ring (R.req k) (R.pos k - 1))

end Rows

theorem stateLoc_eq_some {ring req : Nat} (hring : 0 < ring) {pos : Int} (h : 0 ≤ pos) {req' : Nat}
    {pos' : Int} : stateLoc ring req' pos' = stateLoc ring req pos ↔
      0 ≤ pos' ∧ req' = req ∧ pos' % ring = pos % ring := by
  have hmod : ∀ p : Int, 0 ≤ p % ring ∧ p % ring < ring := fun p =>
    ⟨Int.emod_nonneg p (by omega), Int.emod_lt_of_pos p (by omega)⟩
  have hp := hmod pos
  have hp' := hmod pos'
  unfold stateLoc
  rw [if_neg (show ¬pos < 0 by omega)]
  split
  · rename_i hneg
    constructor
    · intro he; cases he
    · rintro ⟨hge, -⟩; omega
  · rename_i hge
    constructor
    · intro he
      obtain ⟨hreq, hpos⟩ := mul_add_inj (by omega) (by omega) (Option.some.inj he)
      exact ⟨by omega, hreq, by omega⟩
    · intro hyp
      obtain ⟨-, rfl, hpos⟩ := hyp
      rw [hpos]

section Runs
variable {R : Rows V} {ring live : Nat} (h : R.Runs live)
include h

theorem pad_eq {k : Nat} (hk : k < R.numTokens) : R.pad k = decide (live ≤ k) := by
  unfold Rows.pad
  by_cases hlive : live ≤ k
  · simp [h.padded k hlive hk, hlive]
  · simp [h.live_raw k (by omega), hlive]

/-- Between two rows of one request positions go up by one a row. -/
theorem pos_run {k n : Nat} (hlt : k + n < live) (hreq : R.req k = R.req (k + n)) :
    R.pos (k + n) = R.pos k + n := by
  induction n with
  | zero => simp
  | succ n ih =>
    have hmid : R.req (k + n) = R.req k := h.distinct k (k + n) _ (by omega) (by omega) hlt hreq
    have hstep := h.consecutive (k + n) hlt (hreq.symm.trans hmid.symm)
    rw [← Nat.add_assoc, hstep, ih (by omega) hmid.symm]
    push_cast
    ring

theorem inBatch_iff {k : Nat} (hk : k < live) : R.inBatch k = true ↔ 0 < k ∧ R.req k = R.req (k - 1) := by
  have hle := h.live_le
  unfold Rows.inBatch
  rw [pad_eq h (show k < R.numTokens by omega), pad_eq h (show k - 1 < R.numTokens by omega)]
  simp only [Bool.and_eq_true, bne_iff_ne, ne_eq, beq_iff_eq, Bool.not_eq_true', decide_eq_false_iff_not]
  constructor
  · intro hyp
    obtain ⟨hne, ⟨⟨hreq, -⟩, -⟩, -⟩ := hyp
    exact ⟨by omega, hreq⟩
  · intro hyp
    obtain ⟨hpos, hreq⟩ := hyp
    obtain ⟨j, rfl⟩ : ∃ j, k = j + 1 := ⟨k - 1, by omega⟩
    exact ⟨by omega, ⟨⟨hreq, h.consecutive j hk hreq⟩, by omega⟩, by omega⟩

/-- Rows before `k` of the request of row `k` make the row just before it one of them. -/
theorem req_prev {k j : Nat} (hk : k < live) (hjk : j < k) (hreq : R.req j = R.req k) :
    R.req k = R.req (k - 1) :=
  hreq.symm.trans (h.distinct j (k - 1) k (by omega) (by omega) hk hreq).symm

theorem partner_eq (hring : 0 < ring) (pool : Option Nat → V) {k : Nat} (hk : k < live) :
    R.partner ring pool k = R.sequentialPartner ring pool k := by
  have hle := h.live_le
  unfold Rows.partner
  by_cases hprev : 0 < k ∧ R.req k = R.req (k - 1)
  · -- the row just before has stored itself where this one reads
    rw [if_pos ((inBatch_iff h hk).mpr hprev)]
    obtain ⟨j, rfl⟩ : ∃ j, k = j + 1 := ⟨k - 1, by omega⟩
    have hpos : R.pos (j + 1) - 1 = R.pos j := by
      have := h.consecutive j hk hprev.2
      omega
    have hself : R.liveLoc ring j = stateLoc ring (R.req (j + 1)) (R.pos (j + 1) - 1) := by
      rw [hpos, hprev.2]
      rfl
    rw [Rows.sequentialPartner, Rows.sequentialRing, storeSeq, ← hself, Function.update_self]
    rfl
  · -- no row before it is of this request
    rw [if_neg fun hin => hprev ((inBatch_iff h hk).mp hin)]
    have hread : R.readPos k = R.pos k - 1 := by
      rw [Rows.readPos, pad_eq h (by omega)]
      simp [show ¬live ≤ k by omega]
    rw [hread]
    refine (storeSeq_other fun j hj he => ?_).symm
    have hnonneg := h.nonneg j (by omega)
    obtain ⟨-, hreq, -⟩ := (stateLoc_eq_some hring hnonneg).mp he.symm
    exact hprev ⟨by omega, req_prev h hk hj hreq.symm⟩

/-- The scatter sends a row to a slot exactly when it is the last live row for it. -/
theorem writes_iff (hring : 0 < ring) {k : Nat} (hk : k < R.numTokens) (row : Nat) :
    R.writeLoc ring k = some row ↔ k < live ∧ R.liveLoc ring k = some row ∧
      ∀ j, k < j → j < live → R.liveLoc ring j ≠ some row := by
  have hle := h.live_le
  constructor
  · intro hloc
    have hkeep : R.keep ring k = true := by
      by_contra hno
      rw [Rows.writeLoc, Rows.writePos, if_neg hno, stateLoc_neg] at hloc
      cases hloc
    rw [Rows.writeLoc, Rows.writePos, if_pos hkeep] at hloc
    have hlive : k < live := by
      by_contra hge
      rw [Rows.keep, pad_eq h hk, decide_eq_true (by omega)] at hkeep
      simp at hkeep
    refine ⟨hlive, hloc, fun j hkj hj he => ?_⟩
    obtain ⟨n, rfl⟩ : ∃ n, j = k + n := ⟨j - k, by omega⟩
    obtain ⟨-, hreq, hmod⟩ := (stateLoc_eq_some hring (h.nonneg k hlive)).mp (he.trans hloc.symm)
    -- a later row on the slot is at least a ring later, so `keep` drops row `k`
    have hge : ring ≤ n := by
      have hpos := pos_run h hj hreq.symm
      have hdvd : (ring : Int) ∣ R.pos (k + n) - R.pos k := Int.ModEq.dvd hmod.symm
      rw [hpos, add_sub_cancel_left] at hdvd
      exact Nat.le_of_dvd (by omega) (Int.natCast_dvd_natCast.mp hdvd)
    have hmid : R.req (k + ring) = R.req k :=
      h.distinct k (k + ring) (k + n) (by omega) (by omega) hj hreq.symm
    rw [Rows.keep, if_pos ⟨by omega, by omega⟩, pad_eq h (show k + ring < R.numTokens by omega),
      decide_eq_false (show ¬live ≤ k + ring by omega), hmid] at hkeep
    simp at hkeep
  · intro hyp
    obtain ⟨hlive, hloc, hlast⟩ := hyp
    have hkeep : R.keep ring k = true := by
      unfold Rows.keep
      rw [pad_eq h hk, decide_eq_false (by omega)]
      split
      · rename_i hwin
        rw [pad_eq h hwin.2]
        by_contra hdrop
        simp only [Bool.not_false, Bool.true_and, Bool.or_eq_true, bne_iff_ne, ne_eq, decide_eq_true_eq,
          not_or, not_not, not_le] at hdrop
        -- the row a ring later is for the same slot
        refine hlast (k + ring) (by omega) hdrop.2 ?_
        rw [← hloc]
        refine (stateLoc_eq_some hring (h.nonneg k hlive)).mpr ⟨h.nonneg _ hdrop.2, hdrop.1.symm, ?_⟩
        rw [pos_run h hdrop.2 hdrop.1, Int.add_emod_right]
      · rfl
    rw [Rows.writeLoc, Rows.writePos, if_pos hkeep]
    exact hloc

/-- **Batched is sequential.** Every live row gets the partner that it would have read in
its turn; no slot is sent two rows; the ring is left as the live rows, one by one, would
have left it; and padded rows go to the spare row. -/
theorem batched_eq_sequential (hring : 0 < ring) {pool pool' : Option Nat → V}
    (hp : R.pairPartners ring pool pool') :
    (∀ k, k < live → R.partner ring pool k = R.sequentialPartner ring pool k) ∧
    (∀ k k' row, k < R.numTokens → k' < R.numTokens → R.writeLoc ring k = some row →
      R.writeLoc ring k' = some row → k = k') ∧
    (∀ row, pool' (some row) = R.sequentialRing ring pool live (some row)) ∧
    ∀ k, live ≤ k → k < R.numTokens → R.writeLoc ring k = none := by
  refine ⟨fun k hk => partner_eq h hring pool hk, fun k k' row hk hk' hloc hloc' => ?_, fun row => ?_,
    fun k hk hlt => ?_⟩
  · obtain ⟨hlive, hslot, hlast⟩ := (writes_iff h hring hk row).mp hloc
    obtain ⟨hlive', hslot', hlast'⟩ := (writes_iff h hring hk' row).mp hloc'
    rcases Nat.lt_trichotomy k k' with hlt | heq | hgt
    · exact absurd hslot' (hlast k' hlt hlive')
    · exact heq
    · exact absurd hslot (hlast' k hgt hlive)
  · exact hp.eq_storeSeq h.live_le fun k hk => writes_iff h hring hk row
  · cases hloc : R.writeLoc ring k with
    | none => rfl
    | some row => exact absurd ((writes_iff h hring hlt row).mp hloc).1 (by omega)

end Runs

/-- A run of three rows on a ring of two, another request, and padding under the id of the
first. -/
def threeOnTwo : Rows Nat where
  numTokens := 5
  kv k := 10 + k
  req k := [5, 5, 5, 2, 5].getD k 0
  pos k := [3, 4, 5, 1, 9].getD k 0
  rawOutLoc k := [1, 2, 3, 4].getD k 0

theorem threeOnTwo_runs : threeOnTwo.Runs 4 where
  live_le := by decide
  live_raw := by decide
  padded k hge hlt := by
    obtain rfl : k = 4 := by have : k < 5 := hlt; omega
    rfl
  nonneg := by decide
  consecutive k hk := by
    have hk : k < 3 := by omega
    interval_cases k <;> decide
  distinct k j k' hkj hjk' hk' hreq := by
    have hk : k < 4 := by omega
    have hj : j < 4 := by omega
    interval_cases k' <;> interval_cases j <;> interval_cases k <;> first | rfl | cases hreq

theorem threeOnTwo_sequential : ∃ pool',
    threeOnTwo.pairPartners 2 (fun _ => 5) pool' ∧ pool' (some 10) = 11 ∧ pool' (some 11) = 12 ∧
      threeOnTwo.partner 2 (fun _ => 5) 0 = 5 := by
  obtain ⟨pool', hp⟩ := exists_scattered threeOnTwo.numTokens (threeOnTwo.writeLoc 2) threeOnTwo.kv fun _ => 5
  obtain ⟨hpartner, -, hring, -⟩ := batched_eq_sequential threeOnTwo_runs (by decide) hp
  exact ⟨pool', hp, hring 10, hring 11, hpartner 0 (by decide)⟩

end FlashSpark.L3.PairRing
