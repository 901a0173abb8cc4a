import FlashSpark.Core.Sweep

/-!
# Busy time in the saved traces

`experiments/trace-02/analyze-traces.py:19-24` adds up the time in which at least one kernel
runs; the staging gaps (:44-49) and the decode steps (:51-56) are reported with the union of
the kernels clipped to them. Times are exact rationals.

* `union_measure`: `union` is the measure of the union.
* `union_measures`: what follows for the order and for covered intervals, and for the idle
  time of a gap.
-/
namespace FlashSpark.L6.Traces
open MeasureTheory Set

/-- Python's order of pairs. -/
def PairLe (i j : ℚ × ℚ) : Prop := i.1 < j.1 ∨ (i.1 = j.1 ∧ i.2 ≤ j.2)

instance : DecidableRel PairLe := fun i j => inferInstanceAs (Decidable (i.1 < j.1 ∨ (i.1 = j.1 ∧ i.2 ≤ j.2)))

/-- mirrors analyze-traces.py:19-24 -/
def union (intervals : List (ℚ × ℚ)) : ℚ := (Sweep.run (intervals.insertionSort PairLe)).total

/-- A GPU event of a trace: a kernel, a copy or a memset. -/
structure Event where
  ts : ℚ
  dur : ℚ
  dur_nonneg : 0 ≤ dur

/-- The events that overlap `[a, b]`, clipped to it.
mirrors analyze-traces.py:48, :53-56 -/
def inside (a b : ℚ) (gpu : List Event) : List (ℚ × ℚ) :=
  (gpu.filter fun k => decide (k.ts < b ∧ k.ts + k.dur > a)).map fun k => (max a k.ts, min b (k.ts + k.dur))

structure Staging where
  startUs : ℚ
  endUs : ℚ
  gapUs : ℚ
  gpuIdleUs : ℚ

/-- The gap between the copy `e` of the ids and the copy `h` of the weights.
mirrors analyze-traces.py:48-49 -/
def staging (e h : Event) (gpu : List Event) : Staging :=
  let a := e.ts + e.dur
  let b := h.ts
  ⟨a, b, b - a, b - a - union (inside a b gpu)⟩

/-- `gpu_busy_union` of the step from `a` to `b`. mirrors analyze-traces.py:53-56 -/
def stepBusy (a b : ℚ) (gpu : List Event) : ℚ := union (inside a b gpu)

/-! ## The union is measured -/

def Ordered (intervals : List (ℚ × ℚ)) : Prop := ∀ i ∈ intervals, i.1 ≤ i.2

/-- The moments in one of the intervals. -/
def covered (intervals : List (ℚ × ℚ)) : Set ℝ := {x | ∃ i ∈ intervals, x ∈ Icc (i.1 : ℝ) i.2}

noncomputable def real (intervals : List (ℚ × ℚ)) : List (ℝ × ℝ) :=
  intervals.map (Prod.map (Rat.castHom ℝ).toAddMonoidHom (Rat.castHom ℝ).toAddMonoidHom)

theorem cover_real (intervals : List (ℚ × ℚ)) : Sweep.cover (real intervals) = covered intervals := by
  ext x
  simp [Sweep.mem_cover, covered, real]

theorem run_real (intervals : List (ℚ × ℚ)) :
    (Sweep.run (real intervals)).total = ((Sweep.run intervals).total : ℝ) := by
  rw [real, Sweep.run_map _ fun _ _ h => Rat.cast_lt.mpr h]
  rfl

theorem covered_perm {is js : List (ℚ × ℚ)} (h : is.Perm js) : covered is = covered js := by
  rw [← cover_real, ← cover_real, real, real, Sweep.cover_perm (h.map _)]

instance : IsTrans (ℚ × ℚ) PairLe where
  trans i j k hij hjk := by
    rcases hij with hij | ⟨hij, hij'⟩ <;> rcases hjk with hjk | ⟨hjk, hjk'⟩
    · exact Or.inl (hij.trans hjk)
    · exact Or.inl (hjk ▸ hij)
    · exact Or.inl (hij ▸ hjk)
    · exact Or.inr ⟨hij.trans hjk, hij'.trans hjk'⟩

instance : Std.Total PairLe where
  total i j := by
    rcases lt_trichotomy i.1 j.1 with h | h | h
    · exact Or.inl (Or.inl h)
    · rcases le_total i.2 j.2 with h' | h'
      · exact Or.inl (Or.inr ⟨h, h'⟩)
      · exact Or.inr (Or.inr ⟨h.symm, h'⟩)
    · exact Or.inr (Or.inl h)

theorem PairLe.starts {i j : ℚ × ℚ} (h : PairLe i j) : i.1 ≤ j.1 := by
  rcases h with h | h
  · exact le_of_lt h
  · exact le_of_eq h.1

/-- `union` is the measure of the union. -/
theorem union_measure {intervals : List (ℚ × ℚ)} (h : Ordered intervals) :
    volume (covered intervals) = ENNReal.ofReal (union intervals) ∧ 0 ≤ union intervals := by
  have hperm := List.perm_insertionSort PairLe intervals
  have hsorted := (List.pairwise_insertionSort PairLe intervals).imp fun {i j} => PairLe.starts
  have hle : ∀ i ∈ real (intervals.insertionSort PairLe), i.1 ≤ i.2 := by
    intro i hi
    obtain ⟨j, hj, rfl⟩ := List.mem_map.mp hi
    exact Rat.cast_le.mpr (h j (hperm.mem_iff.mp hj))
  obtain ⟨hvol, hnonneg⟩ := Sweep.run_measures hle (hsorted.map _ fun i j hij => Rat.cast_le.mpr hij)
  rw [cover_real, run_real, covered_perm hperm] at hvol
  rw [run_real] at hnonneg
  exact ⟨hvol, Rat.cast_nonneg.mp hnonneg⟩

/-- What is covered decides the union. -/
theorem union_congr {is js : List (ℚ × ℚ)} (hi : Ordered is) (hj : Ordered js)
    (h : covered is = covered js) : union is = union js := by
  obtain ⟨hvi, hni⟩ := union_measure hi
  obtain ⟨hvj, hnj⟩ := union_measure hj
  rw [h, hvj] at hvi
  have heq := (ENNReal.ofReal_eq_ofReal_iff (Rat.cast_nonneg.mpr hnj) (Rat.cast_nonneg.mpr hni)).mp hvi
  exact (Rat.cast_injective heq).symm

/-- Intervals inside `[a, b]` cover no more than `b - a`. -/
theorem union_le {is : List (ℚ × ℚ)} {a b : ℚ} (h : Ordered is) (hab : a ≤ b)
    (hin : ∀ i ∈ is, a ≤ i.1 ∧ i.2 ≤ b) : union is ≤ b - a := by
  have hsub : covered is ⊆ Icc (a : ℝ) b := by
    rintro x ⟨i, hi, hx⟩
    exact ⟨le_trans (Rat.cast_le.mpr (hin i hi).1) hx.1, le_trans hx.2 (Rat.cast_le.mpr (hin i hi).2)⟩
  have hle := measure_mono (μ := volume) hsub
  have hnonneg : (0 : ℝ) ≤ (b : ℝ) - a := sub_nonneg.mpr (Rat.cast_le.mpr hab)
  rw [(union_measure h).1, Real.volume_Icc, ENNReal.ofReal_le_ofReal_iff hnonneg] at hle
  exact_mod_cast hle

/-! ## Clipped kernels -/

theorem mem_inside {a b : ℚ} {gpu : List Event} {i : ℚ × ℚ} (h : i ∈ inside a b gpu) :
    ∃ k ∈ gpu, k.ts < b ∧ a < k.ts + k.dur ∧ i = (max a k.ts, min b (k.ts + k.dur)) := by
  obtain ⟨k, hk, rfl⟩ := List.mem_map.mp h
  obtain ⟨hgpu, hover⟩ := List.mem_filter.mp hk
  have hover := of_decide_eq_true hover
  exact ⟨k, hgpu, hover.1, hover.2, rfl⟩

theorem inside_ordered {a b : ℚ} (hab : a ≤ b) (gpu : List Event) : Ordered (inside a b gpu) := by
  intro i hi
  obtain ⟨k, -, hstart, hstop, rfl⟩ := mem_inside hi
  have hdur := k.dur_nonneg
  exact max_le (le_min hab (le_of_lt hstop)) (le_min (le_of_lt hstart) (le_add_of_nonneg_right hdur))

theorem inside_within {a b : ℚ} {gpu : List Event} : ∀ i ∈ inside a b gpu, a ≤ i.1 ∧ i.2 ≤ b := by
  intro i hi
  obtain ⟨k, -, -, -, rfl⟩ := mem_inside hi
  exact ⟨le_max_left a k.ts, min_le_left b (k.ts + k.dur)⟩

/-- The busy time of a step is between none of it and all of it. -/
theorem stepBusy_bounds {a b : ℚ} (hab : a ≤ b) (gpu : List Event) :
    0 ≤ stepBusy a b gpu ∧ stepBusy a b gpu ≤ b - a :=
  ⟨(union_measure (inside_ordered hab gpu)).2, union_le (inside_ordered hab gpu) hab inside_within⟩

/-- **Busy time is the measure of the union.** It does not depend on the order of the
intervals nor on intervals that are covered already; the idle time of a gap is between
nothing and the gap. -/
theorem union_measures {is : List (ℚ × ℚ)} (h : Ordered is) :
    volume (covered is) = ENNReal.ofReal (union is) ∧ 0 ≤ union is ∧
    (∀ js, js.Perm is → union js = union is) ∧
    (∀ i : ℚ × ℚ, i.1 ≤ i.2 → Icc (i.1 : ℝ) i.2 ⊆ covered is → union (i :: is) = union is) ∧
    ∀ (e next : Event) (gpu : List Event), (staging e next gpu).startUs ≤ (staging e next gpu).endUs →
      0 ≤ (staging e next gpu).gpuIdleUs ∧ (staging e next gpu).gpuIdleUs ≤ (staging e next gpu).gapUs := by
  obtain ⟨hvol, hnonneg⟩ := union_measure h
  refine ⟨hvol, hnonneg, fun js hperm => ?_, fun i hi hin => ?_, fun e next gpu hgap => ?_⟩
  · exact union_congr (fun j hj => h j (hperm.mem_iff.mp hj)) h (covered_perm hperm)
  · have hi' : Ordered (i :: is) := by
      intro j hj
      rcases List.mem_cons.mp hj with rfl | hj
      · exact hi
      · exact h j hj
    refine union_congr hi' h (Set.Subset.antisymm ?_ ?_)
    · rintro x ⟨j, hj, hx⟩
      rcases List.mem_cons.mp hj with rfl | hj
      · exact hin hx
      · exact ⟨j, hj, hx⟩
    · rintro x ⟨j, hj, hx⟩
      exact ⟨j, List.mem_cons_of_mem i hj, hx⟩
  · obtain ⟨hlo, hhi⟩ := stepBusy_bounds hgap gpu
    exact ⟨sub_nonneg.mpr hhi, sub_le_self _ hlo⟩

/-- Nested, touching and apart. -/
theorem nested_measures : Ordered [(2, 3), (0, 4), (4, 5), (7, 8)] ∧
    union [(2, 3), (0, 4), (4, 5), (7, 8)] = 6 ∧
    union [(0, 4), (2, 3), (7, 8), (4, 5)] = union [(2, 3), (0, 4), (4, 5), (7, 8)] := by
  have hordered : Ordered [(2, 3), (0, 4), (4, 5), (7, 8)] := by
    intro i hi
    simp only [List.mem_cons, List.not_mem_nil, or_false] at hi
    rcases hi with rfl | rfl | rfl | rfl <;> norm_num
  exact ⟨hordered, by decide +kernel, (union_measures hordered).2.2.1 _ (by decide)⟩

end FlashSpark.L6.Traces
