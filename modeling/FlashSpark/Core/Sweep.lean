import Mathlib

/-!
# Measuring a union of intervals in one sweep

Closed intervals come in the order of their starts; the sweep keeps the greatest end so far
and the length covered so far. `run_measures`: at the end that length is the measure of the
union. The one invariant is `Swept`: everything covered lies below the end kept, and the
interval it is the end of is covered.
-/
namespace FlashSpark.Sweep
open MeasureTheory Set

/-- What the sweep keeps: the greatest end, and the length covered. -/
structure State (K : Type*) where
  stop : Option K
  total : K

section Loop
variable {K L : Type*} [LinearOrder K] [AddCommGroup K] [LinearOrder L] [AddCommGroup L]

def State.init : State K := ⟨none, 0⟩

def step (s : State K) (i : K × K) : State K :=
  match s.stop with
  | none => ⟨some i.2, s.total + (i.2 - i.1)⟩
  | some stop =>
    if i.1 > stop then ⟨some i.2, s.total + (i.2 - i.1)⟩
    else if i.2 > stop then ⟨some i.2, s.total + (i.2 - stop)⟩
    else s

def run (is : List (K × K)) : State K := is.foldl step State.init

def State.map (f : K → L) (s : State K) : State L := ⟨s.stop.map f, f s.total⟩

theorem step_map (f : K →+ L) (hf : StrictMono f) (s : State K) (i : K × K) :
    step (s.map f) (i.map f f) = (step s i).map f := by
  cases hs : s.stop with
  | none => simp [step, State.map, hs]
  | some stop =>
    have hstop : (s.map f).stop = some (f stop) := by simp [State.map, hs]
    simp only [step, hs, hstop, Prod.map_fst, Prod.map_snd, gt_iff_lt, hf.lt_iff_lt]
    split_ifs <;> simp [State.map, hs]

/-- The sweep commutes with an embedding of the endpoints. -/
theorem run_map (f : K →+ L) (hf : StrictMono f) (is : List (K × K)) :
    run (is.map (Prod.map f f)) = (run is).map f := by
  have hinit : (State.init : State L) = (State.init : State K).map f := by simp [State.init, State.map]
  unfold run
  rw [hinit]
  generalize (State.init : State K) = s
  induction is generalizing s with
  | nil => rfl
  | cons i is ih => rw [List.map_cons, List.foldl_cons, step_map f hf, ih, List.foldl_cons]

end Loop

/-- What the intervals cover. -/
def cover (is : List (ℝ × ℝ)) : Set ℝ := {x | ∃ i ∈ is, x ∈ Icc i.1 i.2}

theorem mem_cover {is : List (ℝ × ℝ)} {x : ℝ} : x ∈ cover is ↔ ∃ i ∈ is, x ∈ Icc i.1 i.2 := Iff.rfl

theorem cover_append (is js : List (ℝ × ℝ)) : cover (is ++ js) = cover is ∪ cover js := by
  ext x
  simp only [mem_cover, List.mem_append, mem_union, or_and_right, exists_or]

theorem cover_singleton (i : ℝ × ℝ) : cover [i] = Icc i.1 i.2 := by
  ext x
  simp [mem_cover]

theorem cover_perm {is js : List (ℝ × ℝ)} (h : is.Perm js) : cover is = cover js := by
  ext x
  simp only [mem_cover, h.mem_iff]

/-- The sweep has gone over `done`. -/
structure Swept (done : List (ℝ × ℝ)) (s : State ℝ) : Prop where
  total : volume (cover done) = ENNReal.ofReal s.total
  nonneg : 0 ≤ s.total
  empty : s.stop = none → done = []
  below : ∀ stop, s.stop = some stop → cover done ⊆ Iic stop
  last : ∀ stop, s.stop = some stop → ∃ i ∈ done, i.2 = stop

theorem swept_init : Swept [] State.init where
  total := by simp [cover, State.init]
  nonneg := le_refl 0
  empty _ := rfl
  below _ h := nomatch h
  last _ h := nomatch h

/-- New length is added to what is covered. -/
theorem volume_union_add {A B : Set ℝ} {t a b : ℝ} (hA : volume A = ENNReal.ofReal t) (ht : 0 ≤ t)
    (hB : MeasurableSet B) (hvB : volume B = ENNReal.ofReal (b - a)) (hab : a ≤ b) (hd : Disjoint A B) :
    volume (A ∪ B) = ENNReal.ofReal (t + (b - a)) := by
  rw [measure_union hd hB, hA, hvB, ENNReal.ofReal_add ht (sub_nonneg.mpr hab)]

/-- One more interval, which starts no earlier than those before it. -/
theorem Swept.step {done : List (ℝ × ℝ)} {s : State ℝ} (h : Swept done s) {i : ℝ × ℝ} (hi : i.1 ≤ i.2)
    (hstart : ∀ j ∈ done, j.1 ≤ i.1) : Swept (done ++ [i]) (step s i) := by
  have hcover : cover (done ++ [i]) = cover done ∪ Icc i.1 i.2 := by rw [cover_append, cover_singleton]
  have hmem : i ∈ done ++ [i] := List.mem_append_right done List.mem_cons_self
  -- an interval with all that is covered before its start
  have hapart : (∀ x ∈ cover done, x < i.1) →
      Swept (done ++ [i]) ⟨some i.2, s.total + (i.2 - i.1)⟩ := by
    intro hbefore
    refine ⟨?_, add_nonneg h.nonneg (sub_nonneg.mpr hi), (nomatch ·), fun stop hstop => ?_, fun stop hstop => ?_⟩
    · rw [hcover]
      refine volume_union_add h.total h.nonneg measurableSet_Icc Real.volume_Icc hi ?_
      exact Set.disjoint_left.mpr fun x hx hxi => absurd (hbefore x hx) (not_lt.mpr hxi.1)
    · obtain rfl := Option.some.inj hstop
      rw [hcover]
      refine union_subset (fun x hx => ?_) fun x hx => hx.2
      exact le_trans (le_of_lt (hbefore x hx)) hi
    · exact ⟨i, hmem, Option.some.inj hstop⟩
  unfold Sweep.step
  cases hs : s.stop with
  | none =>
    refine hapart fun x hx => ?_
    rw [h.empty hs] at hx
    obtain ⟨j, hj, -⟩ := hx
    exact absurd hj List.not_mem_nil
  | some stop =>
    have hbelow := h.below stop hs
    dsimp only
    split_ifs with hgap hlater
    · exact hapart fun x hx => lt_of_le_of_lt (hbelow hx) hgap
    · -- what is before the end kept is covered: it lies in the interval that ends there
      have hle : i.1 ≤ stop := not_lt.mp hgap
      have hnew : cover done ∪ Icc i.1 i.2 = cover done ∪ Ioc stop i.2 := by
        obtain ⟨j, hj, hjstop⟩ := h.last stop hs
        refine Set.Subset.antisymm (union_subset subset_union_left fun x hx => ?_)
          (union_subset_union_right _ fun x hx => ⟨le_trans hle (le_of_lt hx.1), hx.2⟩)
        by_cases hxs : x ≤ stop
        · exact Or.inl ⟨j, hj, le_trans (hstart j hj) hx.1, hjstop ▸ hxs⟩
        · exact Or.inr ⟨not_le.mp hxs, hx.2⟩
      refine ⟨?_, add_nonneg h.nonneg (sub_nonneg.mpr (le_of_lt hlater)), (nomatch ·), fun stop' hstop => ?_,
        fun stop' hstop => ?_⟩
      · rw [hcover, hnew]
        refine volume_union_add h.total h.nonneg measurableSet_Ioc Real.volume_Ioc (le_of_lt hlater) ?_
        exact Set.disjoint_left.mpr fun x hx hxi => absurd (hbelow hx) (not_le.mpr hxi.1)
      · obtain rfl := Option.some.inj hstop
        rw [hcover]
        exact union_subset (fun x hx => le_trans (hbelow hx) (le_of_lt hlater)) fun x hx => hx.2
      · exact ⟨i, hmem, Option.some.inj hstop⟩
    · -- the interval lies in the one that ends at the end kept
      obtain ⟨j, hj, hjstop⟩ := h.last stop hs
      have hin : Icc i.1 i.2 ⊆ cover done := fun x hx =>
        ⟨j, hj, le_trans (hstart j hj) hx.1, hjstop ▸ le_trans hx.2 (not_lt.mp hlater)⟩
      have hsame : cover (done ++ [i]) = cover done := by rw [hcover, union_eq_left.mpr hin]
      refine ⟨by rw [hsame, h.total], h.nonneg, fun hnone => absurd (hs.symm.trans hnone) (by simp),
        fun stop' hstop => ?_, fun stop' hstop => ?_⟩
      · rw [hsame]
        exact h.below stop' hstop
      · obtain ⟨k, hk, hkstop⟩ := h.last stop' hstop
        exact ⟨k, List.mem_append_left _ hk, hkstop⟩

theorem Swept.foldl {done is : List (ℝ × ℝ)} {s : State ℝ} (h : Swept done s) (hle : ∀ i ∈ is, i.1 ≤ i.2)
    (hsorted : (done ++ is).Pairwise fun i j => i.1 ≤ j.1) : Swept (done ++ is) (is.foldl Sweep.step s) := by
  induction is generalizing done s with
  | nil => simpa using h
  | cons i is ih =>
    rw [List.append_cons] at hsorted ⊢
    have hstart : ∀ j ∈ done, j.1 ≤ i.1 := fun j hj =>
      (List.pairwise_append.mp (List.pairwise_append.mp hsorted).1).2.2 j hj i List.mem_cons_self
    exact ih (h.step (hle i List.mem_cons_self) hstart) (fun j hj => hle j (List.mem_cons_of_mem i hj)) hsorted

/-- **The sweep measures the union.** -/
theorem run_measures {is : List (ℝ × ℝ)} (hle : ∀ i ∈ is, i.1 ≤ i.2)
    (hsorted : is.Pairwise fun i j => i.1 ≤ j.1) :
    volume (cover is) = ENNReal.ofReal (run is).total ∧ 0 ≤ (run is).total := by
  have h := swept_init.foldl hle (by simpa using hsorted)
  exact ⟨h.total, h.nonneg⟩

end FlashSpark.Sweep
