import Mathlib

/-!
# Searching upwards for a value not met before

The loop `while not P(c) or c in seen: c += 1` ends whenever infinitely many values
satisfy `P`. When the values met before are the first `j` of an enumeration of those
values, it ends at the next one, wherever below it the search starts.
-/
namespace FlashSpark.Search

variable {P : Nat → Prop}

theorem exists_unseen (hP : (Set.ofPred P).Infinite) (seen : Finset Nat) (c : Nat) :
    ∃ k, c ≤ k ∧ P k ∧ k ∉ seen := by
  obtain ⟨k, ⟨hk, hnot⟩, hle⟩ := (hP.sdiff seen.finite_toSet).exists_gt c
  exact ⟨k, Nat.le_of_lt hle, hk, by simpa using hnot⟩

/-- `while not P(c) or c in seen: c += 1`. -/
def search [DecidablePred P] (hP : (Set.ofPred P).Infinite) (seen : Finset Nat) (c : Nat) : Nat :=
  if P c ∧ c ∉ seen then c else search hP seen (c + 1)
termination_by Nat.find (exists_unseen hP seen c) - c
decreasing_by
  rename_i hno
  -- the value that ends the search is above `c`, and ends the search from `c + 1` too
  obtain ⟨hle, hk, hnot⟩ := Nat.find_spec (exists_unseen hP seen c)
  have hlt : c < Nat.find (exists_unseen hP seen c) := by
    refine Nat.lt_of_le_of_ne hle fun heq => hno ?_
    rw [← heq] at hk hnot
    exact ⟨hk, hnot⟩
  have hnext := Nat.find_min' (exists_unseen hP seen (c + 1)) ⟨hlt, hk, hnot⟩
  omega

variable [DecidablePred P] {hP : (Set.ofPred P).Infinite} {seen : Finset Nat}

/-- The search ends at the first value that is not met before. -/
theorem search_eq {c m : Nat} (hcm : c ≤ m) (hm : P m) (hnot : m ∉ seen)
    (hskip : ∀ k, c ≤ k → k < m → P k → k ∈ seen) : search hP seen c = m := by
  induction hd : m - c generalizing c with
  | zero =>
    obtain rfl : c = m := by omega
    rw [search, if_pos ⟨hm, hnot⟩]
  | succ d ih =>
    have hlt : c < m := by omega
    rw [search, if_neg fun h => h.2 (hskip c (Nat.le_refl c) hlt h.1)]
    exact ih hlt (fun k hk => hskip k (by omega)) (by omega)

/-! ## Against an enumeration -/

/-- `seen` holds the first `j` values of `e`. -/
def Met (e : Nat → Nat) (j : Nat) (seen : Finset Nat) : Prop := ∀ k, k ∈ seen ↔ ∃ i < j, e i = k

theorem Met.empty (e : Nat → Nat) : Met e 0 ∅ := by simp [Met]

theorem Met.insert {e : Nat → Nat} {j : Nat} (h : Met e j seen) : Met e (j + 1) (insert (e j) seen) := by
  intro k
  rw [Finset.mem_insert, h k]
  constructor
  · rintro (rfl | ⟨i, hi, rfl⟩)
    · exact ⟨j, Nat.lt_succ_self j, rfl⟩
    · exact ⟨i, Nat.lt_succ_of_lt hi, rfl⟩
  · intro ⟨i, hi, hik⟩
    rcases Nat.lt_succ_iff_lt_or_eq.mp hi with hi | rfl
    · exact Or.inr ⟨i, hi, hik⟩
    · exact Or.inl hik.symm

/-- `e` lists the values of `P` from `v` on, in order. -/
structure Enumerates (P : Nat → Prop) (v : Nat) (e : Nat → Nat) : Prop where
  strictMono : StrictMono e
  mem : ∀ i, P (e i) ∧ v ≤ e i
  all : ∀ k, P k → v ≤ k → ∃ i, e i = k

theorem enumerates_nth (hP : (Set.ofPred P).Infinite) (v : Nat) :
    Enumerates P v (Nat.nth fun k => P k ∧ v ≤ k) := by
  have hfrom : (Set.ofPred fun k => P k ∧ v ≤ k).Infinite := by
    refine Set.infinite_of_not_bddAbove fun hyp => ?_
    obtain ⟨b, hb⟩ := hyp
    obtain ⟨k, hk, hlt⟩ := hP.exists_gt (max b v)
    have hle : k ≤ b := hb ⟨hk, by omega⟩
    omega
  exact ⟨Nat.nth_strictMono hfrom, fun i => Nat.nth_mem_of_infinite hfrom i,
    fun k hk hv => ⟨_, Nat.nth_count ⟨hk, hv⟩⟩⟩

/-- Wherever in the part already met the search starts, it ends at the next value. -/
theorem Enumerates.search_eq {e : Nat → Nat} {v j c : Nat} (h : Enumerates P v e) (hseen : Met e j seen)
    (hv : v ≤ c) (hc : c ≤ e j) : search hP seen c = e j := by
  refine Search.search_eq hc (h.mem j).1 (fun hmet => ?_) fun k hk hlt hPk => ?_
  · obtain ⟨i, hi, hij⟩ := (hseen (e j)).mp hmet
    exact absurd (h.strictMono.injective hij) (Nat.ne_of_lt hi)
  · obtain ⟨i, rfl⟩ := h.all k hPk (by omega)
    exact (hseen (e i)).mpr ⟨i, h.strictMono.lt_iff_lt.mp hlt, rfl⟩

end FlashSpark.Search
