import FlashSpark.Core.Tensor

/-!
# Ragged batches

Rows of several segments laid end to end: segment `b` has `lens b` rows from
`prefixSum lens b` on. Two ways to find the segment of a row, and both find it,
ties from empty segments included: repeating each index by its length
(`repeatInterleave_getElem?`), and counting the boundaries at or below the row
(`bucketize_prefixSum`, `bucketize_past`).
-/
namespace FlashSpark

/-- The first row of segment `b`; `prefixSum lens n` is the number of rows of `n` segments. -/
def prefixSum (lens : Nat → Nat) : Nat → Nat
  | 0 => 0
  | b + 1 => prefixSum lens b + lens b

/-- `torch.repeat_interleave(arange(n), lens)`. -/
def repeatInterleave (lens : Nat → Nat) (n : Nat) : List Nat :=
  (List.range n).flatMap fun b => List.replicate (lens b) b

/-- `torch.bucketize(v, boundaries, right=True)` of ascending boundaries: how many
are at or below `v`. -/
def bucketize (boundaries : List Nat) (v : Nat) : Nat := boundaries.countP fun x => decide (x ≤ v)

variable {lens : Nat → Nat}

theorem prefixSum_mono {a b : Nat} (h : a ≤ b) : prefixSum lens a ≤ prefixSum lens b := by
  induction h with
  | refl => exact Nat.le_refl _
  | step _ ih => exact Nat.le_trans ih (Nat.le_add_right _ _)

/-- Segments do not overlap. -/
theorem prefixSum_le_of_lt (lens : Nat → Nat) {b c : Nat} (h : b < c) :
    prefixSum lens b + lens b ≤ prefixSum lens c :=
  prefixSum_mono (Nat.succ_le_of_lt h)

/-- Two running sums of which one is nowhere ahead meet only where no step differed. -/
theorem prefixSum_eq_iff {lens' : Nat → Nat} (hle : ∀ b, lens b ≤ lens' b) {n : Nat} :
    prefixSum lens n = prefixSum lens' n ↔ ∀ b, b < n → lens b = lens' b := by
  have hall : ∀ n, prefixSum lens n ≤ prefixSum lens' n := by
    intro n
    induction n with
    | zero => exact Nat.le_refl 0
    | succ n ih => exact Nat.add_le_add ih (hle n)
  induction n with
  | zero => exact ⟨fun _ b hb => absurd hb (Nat.not_lt_zero b), fun _ => rfl⟩
  | succ n ih =>
    have hn := hall n
    have hstep := hle n
    constructor
    · intro h b hb
      rw [prefixSum, prefixSum] at h
      rcases Nat.lt_succ_iff_lt_or_eq.mp hb with hb | rfl
      · exact ih.mp (by omega) b hb
      · omega
    · intro h
      rw [prefixSum, prefixSum, ih.mpr fun b hb => h b (Nat.lt_succ_of_lt hb), h n (Nat.lt_succ_self n)]

/-- The parts of a sequence that carry their own number. -/
theorem flatMap_range_filter {α : Type*} {f : Nat → List α} {key : α → Nat} (hf : ∀ b, ∀ a ∈ f b, key a = b)
    {n k : Nat} (hk : k < n) : ((List.range n).flatMap f).filter (fun a => key a == k) = f k := by
  have hself : ∀ b, (f b).filter (fun a => key a == k) = if b = k then f k else [] := by
    intro b
    split
    · rename_i h
      subst h
      exact List.filter_eq_self.mpr fun a ha => beq_iff_eq.mpr (hf b a ha)
    · rename_i h
      exact List.filter_eq_nil_iff.mpr fun a ha he => h ((hf b a ha).symm.trans (beq_iff_eq.mp he))
  induction n with
  | zero => omega
  | succ n ih =>
    rw [List.range_succ, List.flatMap_append, List.filter_append, List.flatMap_singleton, hself]
    rcases Nat.lt_succ_iff_lt_or_eq.mp hk with hk | rfl
    · rw [ih hk, if_neg (by omega), List.append_nil]
    · rw [if_pos rfl]
      have hnone : ((List.range k).flatMap f).filter (fun a => key a == k) = [] := by
        refine List.filter_eq_nil_iff.mpr fun a ha he => ?_
        obtain ⟨b, hb, ha⟩ := List.mem_flatMap.mp ha
        have := (hf b a ha).symm.trans (beq_iff_eq.mp he)
        have := List.mem_range.mp hb
        omega
      rw [hnone, List.nil_append]

theorem sum_map_range (lens : Nat → Nat) (n : Nat) : ((List.range n).map lens).sum = prefixSum lens n := by
  induction n with
  | zero => rfl
  | succ n ih => rw [List.range_succ, List.map_append, List.sum_append, ih, prefixSum]; simp

theorem sum_take_map_range (lens : Nat → Nat) {n b : Nat} (hb : b ≤ n) :
    (((List.range n).map lens).take b).sum = prefixSum lens b := by
  rw [← List.map_take, List.take_range, Nat.min_eq_left hb, sum_map_range]

theorem repeatInterleave_succ (lens : Nat → Nat) (n : Nat) :
    repeatInterleave lens (n + 1) = repeatInterleave lens n ++ List.replicate (lens n) n := by
  simp [repeatInterleave, List.range_succ]

theorem repeatInterleave_length (lens : Nat → Nat) (n : Nat) :
    (repeatInterleave lens n).length = prefixSum lens n := by
  induction n with
  | zero => rfl
  | succ n ih => rw [repeatInterleave_succ, List.length_append, ih, List.length_replicate, prefixSum]

theorem repeatInterleave_getElem? {n b i : Nat} (hb : b < n) (hi : i < lens b) :
    (repeatInterleave lens n)[prefixSum lens b + i]? = some b := by
  induction n with
  | zero => omega
  | succ n ih =>
    rw [repeatInterleave_succ]
    by_cases hlt : b < n
    · have := prefixSum_le_of_lt lens hlt
      rw [List.getElem?_append_left (by rw [repeatInterleave_length]; omega)]
      exact ih hlt
    · obtain rfl : b = n := by omega
      rw [List.getElem?_append_right (by rw [repeatInterleave_length]; omega),
        repeatInterleave_length, Nat.add_sub_cancel_left, List.getElem?_replicate, if_pos hi]

theorem flatMap_range_length {α : Type*} {f : Nat → List α} (hf : ∀ b, (f b).length = lens b) (n : Nat) :
    ((List.range n).flatMap f).length = prefixSum lens n := by
  induction n with
  | zero => rfl
  | succ n ih =>
    rw [List.range_succ, List.flatMap_append, List.length_append, ih, List.flatMap_singleton, hf, prefixSum]

/-- Entry `i` of segment `b`, where segment `b` is the list `f b`. -/
theorem flatMap_range_getElem? {α : Type*} {f : Nat → List α} (hf : ∀ b, (f b).length = lens b) {n b i : Nat}
    (hb : b < n) (hi : i < lens b) : ((List.range n).flatMap f)[prefixSum lens b + i]? = (f b)[i]? := by
  have hlen := flatMap_range_length hf
  induction n with
  | zero => omega
  | succ n ih =>
    rw [List.range_succ, List.flatMap_append]
    by_cases hlt : b < n
    · have := prefixSum_le_of_lt lens hlt
      rw [List.getElem?_append_left (by rw [hlen]; omega)]
      exact ih hlt
    · obtain rfl : b = n := by omega
      rw [List.getElem?_append_right (by rw [hlen]; omega), hlen, Nat.add_sub_cancel_left]
      simp

theorem countP_range_lt (n k : Nat) : (List.range n).countP (fun x => decide (x < k)) = min n k := by
  induction n with
  | zero => simp
  | succ n ih =>
    rw [List.range_succ, List.countP_append, ih, List.countP_singleton]
    by_cases h : n < k
    · simp [h]; omega
    · simp [h]; omega

/-- The ends of the first `n` segments. -/
def ends (lens : Nat → Nat) (n : Nat) : List Nat := (List.range n).map fun b => prefixSum lens (b + 1)

theorem bucketize_ends {n k v : Nat} (h : ∀ b, b < n → (prefixSum lens (b + 1) ≤ v ↔ b < k)) :
    bucketize (ends lens n) v = min n k := by
  rw [bucketize, ends, List.countP_map, ← countP_range_lt]
  refine List.countP_congr fun b hb => ?_
  simpa using h b (List.mem_range.mp hb)

/-- Index `b` is repeated `lens b` times. -/
theorem count_repeatInterleave {n b : Nat} (hb : b < n) : (repeatInterleave lens n).count b = lens b := by
  have h := @flatMap_range_filter Nat (fun b => List.replicate (lens b) b) id
    (fun b a ha => List.eq_of_mem_replicate ha) n b hb
  have hlen := congrArg List.length h
  rw [List.length_replicate] at hlen
  rw [List.count_eq_countP, List.countP_eq_length_filter]
  exact hlen

/-- A row inside a segment is counted into it, whatever empty segments tie with its start. -/
theorem bucketize_prefixSum {n b i : Nat} (hb : b < n) (hi : i < lens b) :
    bucketize (ends lens n) (prefixSum lens b + i) = b := by
  rw [bucketize_ends (k := b) fun c _ => ?_, Nat.min_eq_right (Nat.le_of_lt hb)]
  constructor
  · intro hle
    by_contra hge
    have : prefixSum lens (b + 1) ≤ prefixSum lens (c + 1) := prefixSum_mono (by omega)
    rw [prefixSum] at this
    omega
  · intro hlt
    have : prefixSum lens (c + 1) ≤ prefixSum lens b := prefixSum_mono hlt
    omega

/-- A row past the last segment is past every boundary. -/
theorem bucketize_past {n v : Nat} (h : prefixSum lens n ≤ v) : bucketize (ends lens n) v = n := by
  rw [bucketize_ends (k := n) fun c hc => ?_, Nat.min_self]
  have : prefixSum lens (c + 1) ≤ prefixSum lens n := prefixSum_mono hc
  exact ⟨fun _ => hc, fun _ => by omega⟩

end FlashSpark
