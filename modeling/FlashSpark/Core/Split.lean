import Mathlib

/-!
# Cutting an interval into near-equal parts

`[0, n)` cut in `k`: part `r` runs from `cut n k r` to `cut n k (r + 1)`. The parts
follow one another (`cut_mono`, `cut_zero`, `cut_self`), every index lies in exactly
one of them (`existsUnique_part`), their sizes differ by one at most
(`part_size`), and a sum to which every part adds its own share counts each index
once (`sum_part`).
-/
namespace FlashSpark

def cut (n k r : Nat) : Nat := n * r / k

/-- Index `i` lies in part `r`. -/
def InPart (n k r i : Nat) : Prop := cut n k r ≤ i ∧ i < cut n k (r + 1)

instance (n k r i : Nat) : Decidable (InPart n k r i) := inferInstanceAs (Decidable (_ ∧ _))

variable {n k : Nat}

theorem cut_zero (n k : Nat) : cut n k 0 = 0 := by simp [cut]

theorem cut_self (hk : 0 < k) : cut n k k = n := Nat.mul_div_cancel n hk

theorem cut_mono {r r' : Nat} (h : r ≤ r') : cut n k r ≤ cut n k r' :=
  Nat.div_le_div_right (Nat.mul_le_mul_left n h)

theorem cut_le (hk : 0 < k) {r : Nat} (hr : r ≤ k) : cut n k r ≤ n :=
  (cut_mono hr).trans (cut_self hk).le

/-- Between the first cut and cut `m` some part holds `i`. -/
theorem exists_part {m i : Nat} (hi : i < cut n k m) : ∃ r, r < m ∧ InPart n k r i := by
  induction m with
  | zero => rw [cut_zero] at hi; omega
  | succ m ih =>
    by_cases h : i < cut n k m
    · obtain ⟨r, hr, hin⟩ := ih h
      exact ⟨r, by omega, hin⟩
    · exact ⟨m, by omega, by omega, hi⟩

theorem part_unique {r r' i : Nat} (h : InPart n k r i) (h' : InPart n k r' i) : r = r' := by
  obtain ⟨hlo, hhi⟩ := h
  obtain ⟨hlo', hhi'⟩ := h'
  rcases Nat.lt_trichotomy r r' with hlt | heq | hgt
  · have : cut n k (r + 1) ≤ cut n k r' := cut_mono hlt
    omega
  · exact heq
  · have : cut n k (r' + 1) ≤ cut n k r := cut_mono hgt
    omega

theorem existsUnique_part (hk : 0 < k) {i : Nat} (hi : i < n) : ∃! r, r < k ∧ InPart n k r i := by
  obtain ⟨r, hr, hin⟩ := exists_part (m := k) (by rw [cut_self hk]; exact hi)
  exact ⟨r, ⟨hr, hin⟩, fun r' h => part_unique h.2 hin⟩

/-- A part holds `n / k` or `n / k + 1` indices. -/
theorem part_size (hk : 0 < k) (r : Nat) :
    n / k ≤ cut n k (r + 1) - cut n k r ∧ cut n k (r + 1) - cut n k r ≤ n / k + 1 := by
  have hstep : cut n k (r + 1) = cut n k r + n / k + if k ≤ n * r % k + n % k then 1 else 0 := by
    rw [cut, Nat.mul_succ, Nat.add_div hk]
    rfl
  generalize n / k = q at hstep ⊢
  split at hstep <;> omega

/-- Where each part adds `v` for its own indices, every index is counted once. -/
theorem sum_part {M : Type*} [AddCommMonoid M] (hk : 0 < k) {i : Nat} (hi : i < n) (v : M) :
    ∑ r ∈ Finset.range k, (if InPart n k r i then v else 0) = v := by
  obtain ⟨r, ⟨hr, hin⟩, -⟩ := existsUnique_part hk hi
  rw [Finset.sum_eq_single_of_mem r (Finset.mem_range.mpr hr), if_pos hin]
  intro r' _ hne
  exact if_neg fun h => hne (part_unique h hin)

end FlashSpark
