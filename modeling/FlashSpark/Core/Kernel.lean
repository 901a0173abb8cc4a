import FlashSpark.Core.Mem

/-!
# Data-parallel kernels as folds of memory writes

A launch is a list of programs, each a memory update. When every program writes
one value per address, whatever it finds there, the list's order does not matter:
an address some program writes holds that value at the end, any other address
what it held before (`foldl_hit`, `foldl_miss`).

`lanes n blk` are the positions a blocked loop with a mask visits; `copyLanes`
is the vectorised copy of 8-byte lanes, `copyLanes_apply` its meaning in bytes.
-/
namespace FlashSpark

variable {α ι : Type*}

/-- Program `i` writes `v a` at the addresses it hits, and nothing else. -/
def Writes (step : (Nat → α) → ι → Nat → α) (hit : ι → Nat → Prop) (v : Nat → α) : Prop :=
  ∀ m i a, (hit i a → step m i a = v a) ∧ (¬ hit i a → step m i a = m a)

variable {step : (Nat → α) → ι → Nat → α} {hit : ι → Nat → Prop} {v : Nat → α}

theorem Writes.foldl_miss (h : Writes step hit v) (l : List ι) (m : Nat → α) (a : Nat)
    (hl : ∀ i ∈ l, ¬ hit i a) : l.foldl step m a = m a := by
  induction l generalizing m with
  | nil => rfl
  | cons i l ih =>
    rw [List.foldl_cons, ih _ fun j hj => hl j (List.mem_cons_of_mem i hj)]
    exact (h m i a).2 (hl i List.mem_cons_self)

theorem Writes.foldl_hit (h : Writes step hit v) (l : List ι) (m : Nat → α) (a : Nat)
    (hl : ∃ i ∈ l, hit i a) : l.foldl step m a = v a := by
  induction l generalizing m with
  | nil => obtain ⟨i, hi, -⟩ := hl; cases hi
  | cons i l ih =>
    rw [List.foldl_cons]
    by_cases hrest : ∃ j ∈ l, hit j a
    · exact ih _ hrest
    · -- no later program writes `a`, so this one is the last to
      obtain ⟨j, hj, hhit⟩ := hl
      rw [h.foldl_miss l _ a fun k hk hhit => hrest ⟨k, hk, hhit⟩]
      rcases List.mem_cons.mp hj with rfl | hj
      · exact (h m j a).1 hhit
      · exact absurd ⟨j, hj, hhit⟩ hrest

/-- A program that is itself a loop of writes. -/
theorem Writes.nest {κ : Type*} (h : Writes step hit v) (body : κ → List ι) :
    Writes (fun m k => (body k).foldl step m) (fun k a => ∃ i ∈ body k, hit i a) v := by
  intro m k a
  refine ⟨fun hhit => h.foldl_hit _ _ _ hhit, fun hmiss => h.foldl_miss _ _ _ fun i hi hhit => ?_⟩
  exact hmiss ⟨i, hi, hhit⟩

/-! ## Masked blocked loops -/

/-- `for start in range(0, n, blk): offs = start + arange(0, blk)`, masked by `offs < n`. -/
def lanes (n blk : Nat) : List Nat :=
  (List.range ((n + blk - 1) / blk)).flatMap fun b =>
    ((List.range blk).map fun i => b * blk + i).filter fun k => decide (k < n)

theorem mem_lanes {n blk k : Nat} (hb : 0 < blk) : k ∈ lanes n blk ↔ k < n := by
  simp only [lanes, List.mem_flatMap, List.mem_filter, List.mem_map, List.mem_range,
    decide_eq_true_eq]
  constructor
  · rintro ⟨_, _, _, h⟩; exact h
  · intro h
    refine ⟨k / blk, ?_, ⟨k % blk, Nat.mod_lt _ hb, ?_⟩, h⟩
    · rw [Nat.div_lt_iff_lt_mul hb]
      have := Nat.div_add_mod (n + blk - 1) blk
      have := Nat.mod_lt (n + blk - 1) hb
      rw [Nat.mul_comm]
      omega
    · rw [Nat.mul_comm]; exact Nat.div_add_mod k blk

/-- Copy `n` 8-byte lanes, `blk` at a time; offsets are lane indices. -/
def copyLanes (src : Nat → UInt8) (srcOff dstOff n blk : Nat) (dst : Nat → UInt8) : Nat → UInt8 :=
  (lanes n blk).foldl
    (fun m k => blit m (8 * (dstOff + k)) (slice src (8 * (srcOff + k)) 8)) dst

theorem copyLanes_apply (src : Nat → UInt8) (srcOff dstOff n : Nat) {blk : Nat} (hb : 0 < blk)
    (dst : Nat → UInt8) (a : Nat) :
    copyLanes src srcOff dstOff n blk dst a =
      if 8 * dstOff ≤ a ∧ a < 8 * (dstOff + n) then src (8 * srcOff + (a - 8 * dstOff)) else dst a := by
  have hw : Writes (fun (m : Nat → UInt8) k => blit m (8 * (dstOff + k)) (slice src (8 * (srcOff + k)) 8))
      (fun k a => 8 * (dstOff + k) ≤ a ∧ a < 8 * (dstOff + k) + 8)
      (fun a => src (8 * srcOff + (a - 8 * dstOff))) := by
    intro m k a
    refine ⟨fun hhit => ?_, fun hmiss => ?_⟩
    · dsimp only at hhit ⊢
      have hlen : (slice src (8 * (srcOff + k)) 8).length = 8 := slice_length _ _ _
      rw [blit_apply, dif_pos (by rw [hlen]; exact hhit)]
      have hget := slice_getElem? src (8 * (srcOff + k)) 8 (a - 8 * (dstOff + k))
      rw [if_pos (by omega), List.getElem?_eq_getElem (by rw [hlen]; omega)] at hget
      rw [Option.some.inj hget]
      congr 1; omega
    · exact blit_outside _ _ _ _ (by rw [slice_length]; omega)
  unfold copyLanes
  split
  · rename_i hin
    refine hw.foldl_hit _ _ _ ⟨(a - 8 * dstOff) / 8, (mem_lanes hb).mpr (by omega), ?_⟩
    omega
  · rename_i hout
    refine hw.foldl_miss _ _ _ fun k hk hhit => hout ?_
    have := (mem_lanes hb).mp hk
    omega

end FlashSpark
