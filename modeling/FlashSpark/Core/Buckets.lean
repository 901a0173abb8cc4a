import FlashSpark.Core.Ragged

/-!
# Buckets

Rows that carry a key, and the same rows bucket by bucket. A stable sort by key lays the
buckets end to end (`argsort_eq`), so a row's place in the sorted order is its bucket's
start plus its rank within the bucket (`argsort_getElem?`); `indexPut_argsort` is the store
through that order.

* `gatherRows`, `indexPut`, `bincount`, `argsort`, `places`: the tensor operations.
-/
namespace FlashSpark

/-- `t[rows]`; out of bounds raises. -/
def gatherRows {α : Type*} (t : List α) (rows : List Nat) : Option (List α) := rows.mapM fun i => t[i]?

/-- `t[rows] = values`, one row after the other. -/
def indexPut {α : Type*} (t : List α) (rows : List Nat) (values : List α) : List α :=
  (rows.zip values).foldl (fun t p => t.set p.1 p.2) t

/-- `torch.bincount(keys, minlength)`. -/
def bincount (keys : List Nat) (minlength : Nat) : List Nat :=
  (List.range (keys.foldr (fun k n => max (k + 1) n) minlength)).map fun k => keys.count k

/-- `torch.argsort(keys, stable=True)`. -/
def argsort (keys : List Nat) : List Nat :=
  (List.range keys.length).mergeSort fun i j => decide (keys.getD i 0 ≤ keys.getD j 0)

/-- `(keys == k).nonzero()`. -/
def places (keys : List Nat) (k : Nat) : List Nat :=
  (List.range keys.length).filter fun i => keys.getD i 0 == k

/-! ## Gathers -/

section Gather
variable {α : Type*} {t : List α}

theorem getElem?_getD {i : Nat} {d : α} (hi : i < t.length) : t[i]? = some (t.getD i d) := by
  rw [List.getD_eq_getElem?_getD, List.getElem?_eq_getElem hi]
  rfl

theorem gatherRows_map {β : Type*} {l : List β} {f : β → Nat} {g : β → α} (h : ∀ b ∈ l, t[f b]? = some (g b)) :
    gatherRows t (l.map f) = some (l.map g) := by
  unfold gatherRows
  rw [List.mapM_map]
  exact mapM_some h

theorem gatherRows_some {rows : List Nat} {g : Nat → α} (h : ∀ i ∈ rows, t[i]? = some (g i)) :
    gatherRows t rows = some (rows.map g) := mapM_some h

/-- A gather, row by row. -/
theorem gatherRows_of_getElem? {rows : List Nat} {out : List α} (hlen : out.length = rows.length)
    (h : ∀ i j : Nat, rows[i]? = some j → t[j]? = out[i]?) : gatherRows t rows = some out := by
  induction rows generalizing out with
  | nil => rw [List.eq_nil_of_length_eq_zero hlen]; rfl
  | cons j rows ih =>
    cases out with
    | nil => cases hlen
    | cons a out =>
      have hrest := ih (Nat.succ_inj.mp hlen) fun i j hj => h (i + 1) j hj
      unfold gatherRows at hrest ⊢
      rw [List.mapM_cons, h 0 j rfl, hrest]
      rfl

end Gather

/-! ## Stability -/

section Stable
variable {α : Type*} {key : α → Nat} {l : List α} {n : Nat}

/-- Sorting by a key keeps each bucket as it was. -/
theorem filter_mergeSort (key : α → Nat) (l : List α) (k : Nat) :
    (l.mergeSort fun a b => decide (key a ≤ key b)).filter (fun a => key a == k) =
      l.filter (fun a => key a == k) := by
  have hsame : (l.filter fun a => key a == k).Pairwise fun a b => decide (key a ≤ key b) = true := by
    refine List.pairwise_of_forall_mem_list fun a ha b hb => ?_
    have ha := beq_iff_eq.mp (List.mem_filter.mp ha).2
    have hb := beq_iff_eq.mp (List.mem_filter.mp hb).2
    exact decide_eq_true (by omega)
  have hsub := (List.sublist_mergeSort (fun a b c hab hbc => by simp at *; omega)
    (fun a b => by simp; omega) hsame List.filter_sublist).filter fun a => key a == k
  rw [List.filter_filter, List.filter_congr fun a _ => Bool.and_self _] at hsub
  exact (hsub.eq_of_length ((List.mergeSort_perm _ _).filter _).length_eq.symm).symm

/-- In ascending order the next bucket follows the ones before it. -/
theorem filter_lt_succ (hsorted : l.Pairwise fun a b => key a ≤ key b) (n : Nat) :
    l.filter (fun a => decide (key a < n + 1)) =
      l.filter (fun a => decide (key a < n)) ++ l.filter (fun a => key a == n) := by
  induction l with
  | nil => rfl
  | cons a l ih =>
    obtain ⟨hle, hsorted⟩ := List.pairwise_cons.mp hsorted
    have ih := ih hsorted
    rw [List.filter_cons, List.filter_cons, List.filter_cons]
    by_cases hlt : key a < n
    · have hne : ¬ (key a == n) = true := fun h => absurd (beq_iff_eq.mp h) (Nat.ne_of_lt hlt)
      rw [if_pos (decide_eq_true (Nat.lt_succ_of_lt hlt)), if_pos (decide_eq_true hlt), if_neg hne, ih,
        List.cons_append]
    · -- nothing behind `a` is below `n`
      have hnone : l.filter (fun a => decide (key a < n)) = [] := by
        refine List.filter_eq_nil_iff.mpr fun b hb => ?_
        have := hle b hb
        simp only [decide_eq_true_eq]
        omega
      rw [hnone, List.nil_append] at ih
      rw [if_neg fun h => hlt (of_decide_eq_true h), hnone, List.nil_append, ih]
      by_cases heq : key a = n
      · rw [if_pos (decide_eq_true (by omega)), if_pos (beq_iff_eq.mpr heq)]
      · rw [if_neg fun h => absurd (of_decide_eq_true h) (by omega), if_neg fun h => heq (beq_iff_eq.mp h)]

/-- A list in ascending order is its buckets end to end. -/
theorem sorted_eq_flatMap (hsorted : l.Pairwise fun a b => key a ≤ key b) (hlt : ∀ a ∈ l, key a < n) :
    l = (List.range n).flatMap fun k => l.filter fun a => key a == k := by
  have hall : ∀ m, l.filter (fun a => decide (key a < m)) =
      (List.range m).flatMap fun k => l.filter fun a => key a == k := by
    intro m
    induction m with
    | zero => simp
    | succ m ih => rw [filter_lt_succ hsorted, ih, List.range_succ, List.flatMap_append, List.flatMap_singleton]
  rw [← hall n, List.filter_eq_self.mpr fun a ha => decide_eq_true (hlt a ha)]

end Stable

/-! ## Places -/

section Places
variable {keys : List Nat} {n k : Nat}

theorem mem_places {i : Nat} : i ∈ places keys k ↔ keys[i]? = some k := by
  rw [places, List.mem_filter, List.mem_range, List.getD_eq_getElem?_getD, beq_iff_eq]
  constructor
  · intro h
    obtain ⟨hi, h⟩ := h
    rw [List.getElem?_eq_getElem hi] at h ⊢
    exact congrArg some h
  · intro h
    refine ⟨(List.getElem?_eq_some_iff.mp h).1, ?_⟩
    rw [h]
    rfl

theorem map_places {β : Type*} (l : List β) (f : β → Nat) (k : Nat) (g : Nat → β)
    (hg : ∀ i, i < l.length → l[i]? = some (g i)) :
    (places (l.map f) k).map g = l.filter fun a => f a == k := by
  have hl : l = (List.range l.length).map g := by
    refine List.ext_getElem? fun i => ?_
    rw [List.getElem?_map]
    by_cases hi : i < l.length
    · rw [hg i hi, List.getElem?_range hi]
      rfl
    · rw [List.getElem?_eq_none (by omega), List.getElem?_eq_none (by rw [List.length_range]; omega)]
      rfl
  have hkey : ∀ i ∈ List.range l.length, ((l.map f).getD i 0 == k) = (f (g i) == k) := by
    intro i hi
    rw [List.getD_eq_getElem?_getD, List.getElem?_map, hg i (List.mem_range.mp hi)]
    rfl
  rw [places, List.length_map, List.filter_congr hkey]
  conv_rhs => rw [hl]
  rw [List.filter_map]
  rfl

theorem places_length (keys : List Nat) (k : Nat) : (places keys k).length = keys.count k := by
  have h := map_places keys id k (fun i => keys.getD i 0) fun i hi => getElem?_getD hi
  have hlen := congrArg List.length h
  rw [List.length_map, List.map_id] at hlen
  rw [hlen, List.count_eq_countP, List.countP_eq_length_filter]
  rfl

theorem bincount_eq (hlt : ∀ k ∈ keys, k < n) : bincount keys n = (List.range n).map fun k => keys.count k := by
  have hmax : keys.foldr (fun k n => max (k + 1) n) n = n := by
    induction keys with
    | nil => rfl
    | cons k keys ih =>
      rw [List.foldr_cons, ih fun k hk => hlt k (List.mem_cons_of_mem _ hk)]
      exact Nat.max_eq_right (hlt k List.mem_cons_self)
  rw [bincount, hmax]

/-- The sorted order is the places of key 0, then those of key 1, and so on. -/
theorem argsort_eq (hlt : ∀ k ∈ keys, k < n) : argsort keys = (List.range n).flatMap (places keys) := by
  have hsorted : (argsort keys).Pairwise fun i j => keys.getD i 0 ≤ keys.getD j 0 := by
    refine (List.pairwise_mergeSort (fun a b c hab hbc => by simp at *; omega)
      (fun a b => by simp; omega) _).imp fun h => of_decide_eq_true h
  have hbound : ∀ i ∈ argsort keys, keys.getD i 0 < n := by
    intro i hi
    have hi := List.mem_range.mp (List.mem_mergeSort.mp hi)
    exact hlt _ (List.mem_of_getElem? (getElem?_getD hi))
  rw [sorted_eq_flatMap hsorted hbound]
  refine List.flatMap_congr fun k _ => ?_
  exact filter_mergeSort (fun i => keys.getD i 0) (List.range keys.length) k

theorem argsort_getElem? (hlt : ∀ k ∈ keys, k < n) (hk : k < n) {s : Nat} (hs : s < keys.count k) :
    (argsort keys)[prefixSum (fun k => keys.count k) k + s]? = (places keys k)[s]? := by
  rw [argsort_eq hlt]
  exact flatMap_range_getElem? (places_length keys) hk hs

theorem argsort_nodup (keys : List Nat) : (argsort keys).Nodup :=
  (List.mergeSort_perm _ _).nodup_iff.mpr List.nodup_range

/-- All rows are in some bucket. -/
theorem prefixSum_count (hlt : ∀ k ∈ keys, k < n) : prefixSum (fun k => keys.count k) n = keys.length := by
  have hlen := congrArg List.length (argsort_eq hlt)
  rw [argsort, List.length_mergeSort, List.length_range, flatMap_range_length (places_length keys)] at hlen
  exact hlen.symm

end Places

/-! ## Stores -/

section IndexPut
variable {α : Type*}

theorem indexPut_length (t : List α) (rows : List Nat) (values : List α) :
    (indexPut t rows values).length = t.length := by
  unfold indexPut
  generalize rows.zip values = stores
  induction stores generalizing t with
  | nil => rfl
  | cons p stores ih => rw [List.foldl_cons, ih, List.length_set]

theorem indexPut_other {t : List α} {rows : List Nat} {values : List α} {i : Nat} (hi : i ∉ rows) :
    (indexPut t rows values)[i]? = t[i]? := by
  induction rows generalizing t values with
  | nil => rfl
  | cons r rows ih =>
    cases values with
    | nil => rfl
    | cons v values =>
      have hr : r ≠ i := fun he => hi (he ▸ List.mem_cons_self)
      exact (ih fun h => hi (List.mem_cons_of_mem r h)).trans (List.getElem?_set_ne hr)

/-- Rows that are distinct keep what they are given. -/
theorem indexPut_getElem? {t : List α} {rows : List Nat} {values : List α} (hrows : rows.Nodup) {m i : Nat}
    {v : α} (hi : rows[m]? = some i) (hv : values[m]? = some v) (hlt : i < t.length) :
    (indexPut t rows values)[i]? = some v := by
  induction rows generalizing t values m with
  | nil => cases hi
  | cons r rows ih =>
    obtain ⟨hnot, hrows⟩ := List.nodup_cons.mp hrows
    cases values with
    | nil => cases hv
    | cons w values =>
      cases m with
      | zero =>
        cases hi
        cases hv
        exact (indexPut_other hnot).trans (List.getElem?_set_self hlt)
      | succ m => exact ih hrows hi hv (by rw [List.length_set]; exact hlt)

/-- What is stored through the sorted order, at rank `s` of key `k`. -/
theorem indexPut_argsort {keys : List Nat} {n k s i : Nat} (hlt : ∀ k ∈ keys, k < n)
    (hi : (places keys k)[s]? = some i) {t values : List α} (ht : t.length = keys.length) {v : α}
    (hv : values[prefixSum (fun k => keys.count k) k + s]? = some v) :
    (indexPut t (argsort keys) values)[i]? = some v := by
  have hkey : keys[i]? = some k := mem_places.mp (List.mem_of_getElem? hi)
  have hs : s < keys.count k := by
    rw [← places_length]
    exact (List.getElem?_eq_some_iff.mp hi).1
  refine indexPut_getElem? (argsort_nodup keys) ?_ hv (by rw [ht]; exact (List.getElem?_eq_some_iff.mp hkey).1)
  rw [argsort_getElem? hlt (hlt k (List.mem_of_getElem? hkey)) hs, hi]

end IndexPut

end FlashSpark
