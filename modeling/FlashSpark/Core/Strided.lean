import Mathlib

/-!
# Numbers that differ in one digit

Cut the numbers into blocks of `t * w`, and each block into `t` classes by the
remainder modulo `t`: a class holds the `w` numbers that differ in the digit of
weight `t` and base `w` only. `strided t w r` is the class of `r`, in order.

* `mem_strided`: a number is in the class of `r` when the other digits agree, and the
  classes are the same then (`strided_eq`);
* `strided_getElem?`: it stands at the place its own digit says;
* `Cut.lastWith_eq`: of groups that are these classes, the last that holds `r` is its class.
-/
namespace FlashSpark

/-- Python's `range(start, stop, step)` for a positive step. -/
def pyRange (start stop step : Nat) : List Nat :=
  (List.range ((stop - start + step - 1) / step)).map fun j => start + j * step

theorem pyRange_mul (start w : Nat) {t : Nat} (ht : 0 < t) :
    pyRange start (start + t * w) t = (List.range w).map fun j => start + j * t := by
  have hn : (start + t * w - start + t - 1) / t = w := by
    rw [Nat.add_sub_cancel_left, Nat.add_sub_assoc ht, Nat.mul_add_div ht,
      Nat.div_eq_of_lt (by omega), Nat.add_zero]
  rw [pyRange, hn]

theorem mem_pyRange_one {r start stop : Nat} : r ∈ pyRange start stop 1 ↔ start ≤ r ∧ r < stop := by
  rw [pyRange, Nat.add_sub_cancel, Nat.div_one, List.mem_map]
  constructor
  · rintro ⟨j, hj, rfl⟩
    have := List.mem_range.mp hj
    omega
  · rintro ⟨hlo, hhi⟩
    exact ⟨r - start, List.mem_range.mpr (by omega), by omega⟩

def strided (t w r : Nat) : List Nat :=
  (List.range w).map fun j => r / (t * w) * (t * w) + r % t + j * t

variable {t w q r : Nat}

@[simp] theorem strided_length (t w r : Nat) : (strided t w r).length = w := by simp [strided]

/-- A number from the parts `strided` is made of. -/
theorem eq_of_digits (t w r : Nat) : r / (t * w) * (t * w) + r % t + r / t % w * t = r := by
  have h₁ : t * w * (r / (t * w)) + r % (t * w) = r := Nat.div_add_mod r (t * w)
  have h₂ : r % (t * w) = r % t + t * (r / t % w) := Nat.mod_mul
  rw [Nat.mul_comm (r / (t * w)), Nat.mul_comm (r / t % w)]
  omega

/-- The digits of the number with the given parts. -/
theorem digits_of_lt {b i j : Nat} (ht : 0 < t) (hi : i < t) (hj : j < w) :
    (b * (t * w) + i + j * t) / (t * w) = b ∧ (b * (t * w) + i + j * t) % t = i ∧
      (b * (t * w) + i + j * t) / t % w = j := by
  have hij : i + j * t < t * w := by nlinarith
  have hdiv : (b * (t * w) + i + j * t) / t = b * w + j := by
    rw [show b * (t * w) + i + j * t = t * (b * w + j) + i by ring, Nat.mul_add_div ht,
      Nat.div_eq_of_lt hi, Nat.add_zero]
  refine ⟨?_, ?_, ?_⟩
  · rw [Nat.add_assoc, Nat.mul_comm b, Nat.mul_add_div (by omega), Nat.div_eq_of_lt hij, Nat.add_zero]
  · rw [show b * (t * w) + i + j * t = i + t * (b * w + j) by ring, Nat.add_mul_mod_self_left,
      Nat.mod_eq_of_lt hi]
  · rw [hdiv, Nat.mul_comm, Nat.mul_add_mod, Nat.mod_eq_of_lt hj]

theorem strided_getElem? (hw : 0 < w) : (strided t w r)[r / t % w]? = some r := by
  rw [strided, List.getElem?_map, List.getElem?_range (Nat.mod_lt _ hw), Option.map_some,
    eq_of_digits]

theorem mem_strided (ht : 0 < t) (hw : 0 < w) :
    q ∈ strided t w r ↔ q / (t * w) = r / (t * w) ∧ q % t = r % t := by
  rw [strided, List.mem_map]
  constructor
  · rintro ⟨j, hj, rfl⟩
    obtain ⟨h₁, h₂, -⟩ := digits_of_lt (b := r / (t * w)) ht (Nat.mod_lt r ht) (List.mem_range.mp hj)
    exact ⟨h₁, h₂⟩
  · rintro ⟨h₁, h₂⟩
    refine ⟨q / t % w, List.mem_range.mpr (Nat.mod_lt _ hw), ?_⟩
    rw [← h₁, ← h₂, eq_of_digits]

theorem self_mem_strided (ht : 0 < t) (hw : 0 < w) : r ∈ strided t w r :=
  (mem_strided ht hw).mpr ⟨rfl, rfl⟩

/-- The members of a class all have the same class. -/
theorem strided_eq (ht : 0 < t) (hw : 0 < w) (h : q ∈ strided t w r) :
    strided t w q = strided t w r := by
  obtain ⟨h₁, h₂⟩ := (mem_strided ht hw).mp h
  rw [strided, strided, h₁, h₂]

/-- A number is in the class of `r` exactly when the two classes are the same. -/
theorem mem_strided_iff (ht : 0 < t) (hw : 0 < w) :
    q ∈ strided t w r ↔ strided t w q = strided t w r :=
  ⟨strided_eq ht hw, fun h => h ▸ self_mem_strided ht hw⟩

/-- A class stays below a multiple of the blocks. -/
theorem lt_of_mem_strided {n : Nat} (ht : 0 < t) (hw : 0 < w) (hn : t * w ∣ n) (hr : r < n)
    (h : q ∈ strided t w r) : q < n := by
  obtain ⟨K, rfl⟩ := hn
  rw [Nat.mul_comm] at hr ⊢
  have hpos : 0 < t * w := Nat.mul_pos ht hw
  rw [← Nat.div_lt_iff_lt_mul hpos] at hr ⊢
  rwa [((mem_strided ht hw).mp h).1]

theorem strided_nodup (ht : 0 < t) : (strided t w r).Nodup := by
  refine List.Nodup.map_on (fun i _ j _ h => ?_) List.nodup_range
  exact Nat.eq_of_mul_eq_mul_right ht (Nat.add_left_cancel h)

theorem strided_idxOf (ht : 0 < t) (hw : 0 < w) : (strided t w r).idxOf r = r / t % w := by
  have hlt : r / t % w < (strided t w r).length := by rw [strided_length]; exact Nat.mod_lt _ hw
  have hget : (strided t w r)[r / t % w] = r :=
    (List.getElem_eq_iff hlt).mpr (strided_getElem? hw)
  calc (strided t w r).idxOf r = (strided t w r).idxOf (strided t w r)[r / t % w] := by rw [hget]
    _ = r / t % w := (strided_nodup ht).idxOf_getElem _ hlt

/-- The groups are the classes of the numbers below `n`. -/
structure Cut (n t w : Nat) (groups : List (List Nat)) : Prop where
  t_pos : 0 < t
  w_pos : 0 < w
  sound : ∀ ranks ∈ groups, ∃ r, ranks = strided t w r
  bounded : ∀ ranks ∈ groups, ∀ r ∈ ranks, r < n
  complete : ∀ r, r < n → strided t w r ∈ groups

/-- The groups as loops over the blocks and over the remainders write them. -/
theorem Cut.of_blocks {K : Nat} (groups : List (List Nat)) (ht : 0 < t) (hw : 0 < w)
    (h : ∀ ranks, ranks ∈ groups ↔
      ∃ b < K, ∃ i < t, ranks = pyRange (b * (t * w) + i) (b * (t * w) + i + t * w) t) :
    Cut (K * (t * w)) t w groups := by
  have hclass : ∀ b i, i < t →
      pyRange (b * (t * w) + i) (b * (t * w) + i + t * w) t = strided t w (b * (t * w) + i) := by
    intro b i hi
    obtain ⟨hb, hi', -⟩ := digits_of_lt (b := b) (j := 0) ht hi hw
    rw [Nat.zero_mul, Nat.add_zero] at hb hi'
    rw [pyRange_mul _ _ ht, strided, hb, hi']
  refine ⟨ht, hw, fun ranks hr => ?_, fun ranks hr r hmem => ?_, fun r hr => ?_⟩
  · obtain ⟨b, -, i, hi, rfl⟩ := (h ranks).mp hr
    exact ⟨_, hclass b i hi⟩
  · obtain ⟨b, hb, i, hi, rfl⟩ := (h ranks).mp hr
    rw [pyRange_mul _ _ ht] at hmem
    obtain ⟨j, hj, rfl⟩ := List.mem_map.mp hmem
    have hd := (digits_of_lt (b := b) ht hi (List.mem_range.mp hj)).1
    exact (Nat.div_lt_iff_lt_mul (Nat.mul_pos ht hw)).mp (by rw [hd]; exact hb)
  · refine (h _).mpr ⟨r / (t * w), (Nat.div_lt_iff_lt_mul (Nat.mul_pos ht hw)).mpr hr, r % t,
      Nat.mod_lt r ht, ?_⟩
    rw [pyRange_mul _ _ ht, strided]

/-- Two nested loops count the blocks through. -/
theorem exists_nested {G o : Nat} {P : Nat → Prop} :
    (∃ g < G, ∃ b < o, P (g * o + b)) ↔ ∃ B < G * o, P B := by
  constructor
  · rintro ⟨g, hg, b, hb, h⟩
    exact ⟨g * o + b, by nlinarith, h⟩
  · rintro ⟨B, hB, h⟩
    have ho : 0 < o := Nat.pos_of_ne_zero fun h0 => by simp [h0] at hB
    refine ⟨B / o, (Nat.div_lt_iff_lt_mul ho).mpr hB, B % o, Nat.mod_lt B ho, ?_⟩
    rwa [Nat.mul_comm, Nat.div_add_mod]

/-- The same with the blocks in loops of their own. -/
theorem Cut.of_loops {G o : Nat} (groups : List (List Nat)) (ht : 0 < t) (hw : 0 < w)
    (h : ∀ ranks, ranks ∈ groups ↔ ∃ g < G, ∃ b < o, ∃ i < t,
      ranks = pyRange ((g * o + b) * (t * w) + i) ((g * o + b) * (t * w) + i + t * w) t) :
    Cut (G * o * (t * w)) t w groups :=
  .of_blocks groups ht hw fun ranks => (h ranks).trans <|
    exists_nested (P := fun B => ∃ i < t, ranks = pyRange (B * (t * w) + i) (B * (t * w) + i + t * w) t)

theorem take_drop_pyRange {start m a k : Nat} (h : a + k ≤ m) :
    ((pyRange start (start + m) 1).drop a).take k = pyRange (start + a) (start + a + k) 1 := by
  have hr : ∀ s n, pyRange s (s + n) 1 = (List.range n).map fun j => s + j := by
    intro s n
    have := pyRange_mul s n Nat.one_pos
    simpa using this
  rw [hr, hr]
  apply List.ext_getElem?
  intro i
  rw [List.getElem?_take]
  split
  · rename_i hi
    rw [List.getElem?_drop, List.getElem?_map, List.getElem?_map, List.getElem?_range (by omega),
      List.getElem?_range hi]
    simp [Nat.add_assoc]
  · rename_i hi
    exact (List.getElem?_eq_none (by simp; omega)).symm

/-- The last group that holds `r`. -/
def lastWith (groups : List (List Nat)) (r : Nat) : Option (List Nat) :=
  groups.foldl (fun acc ranks => if r ∈ ranks then some ranks else acc) none

theorem mem_of_lastWith {groups : List (List Nat)} {g : List Nat} (h : lastWith groups r = some g) :
    g ∈ groups ∧ r ∈ g := by
  induction groups using List.reverseRecOn with
  | nil => cases h
  | append_singleton groups ranks ih =>
    rw [lastWith, List.foldl_append, List.foldl_cons, List.foldl_nil] at h
    split at h
    · rename_i hmem
      cases h
      exact ⟨by simp, hmem⟩
    · obtain ⟨hg, hr⟩ := ih h
      exact ⟨by simp [hg], hr⟩

theorem lastWith_eq {groups : List (List Nat)} {g : List Nat} (hr : r ∈ g) (hg : g ∈ groups)
    (h : ∀ ranks ∈ groups, r ∈ ranks → ranks = g) : lastWith groups r = some g := by
  induction groups using List.reverseRecOn with
  | nil => cases hg
  | append_singleton groups ranks ih =>
    rw [lastWith, List.foldl_append, List.foldl_cons, List.foldl_nil]
    split
    · rename_i hmem
      rw [h ranks (by simp) hmem]
    · rename_i hmem
      refine ih ?_ fun x hx => h x (by simp [hx])
      rcases List.mem_append.mp hg with hg | hg
      · exact hg
      · rw [List.mem_singleton] at hg
        exact absurd (hg ▸ hr) hmem

theorem lastWith_none {groups : List (List Nat)} (h : ∀ ranks ∈ groups, r ∉ ranks) :
    lastWith groups r = none := by
  induction groups using List.reverseRecOn with
  | nil => rfl
  | append_singleton groups ranks ih =>
    rw [lastWith, List.foldl_append, List.foldl_cons, List.foldl_nil, if_neg (h ranks (by simp))]
    exact ih fun x hx => h x (by simp [hx])

theorem Cut.eq_of_mem {n : Nat} {groups : List (List Nat)} (h : Cut n t w groups) {ranks : List Nat}
    (hranks : ranks ∈ groups) (hr : r ∈ ranks) : ranks = strided t w r := by
  obtain ⟨q, rfl⟩ := h.sound ranks hranks
  exact (strided_eq h.t_pos h.w_pos hr).symm

/-- Every number below `n` is in one group, its class, and no other number is in one. -/
theorem Cut.lastWith_eq {n : Nat} {groups : List (List Nat)} (h : Cut n t w groups) (r : Nat) :
    lastWith groups r = if r < n then some (strided t w r) else none := by
  split
  · rename_i hr
    exact FlashSpark.lastWith_eq (self_mem_strided h.t_pos h.w_pos) (h.complete r hr)
      fun ranks hranks hmem => h.eq_of_mem hranks hmem
  · rename_i hr
    exact lastWith_none fun ranks hranks hmem => hr (h.bounded ranks hranks r hmem)

/-- The first group that holds a number is the last. -/
theorem Cut.find?_eq {n : Nat} {groups : List (List Nat)} (h : Cut n t w groups) (hr : r < n) :
    groups.find? (r ∈ ·) = some (strided t w r) := by
  cases hf : groups.find? (r ∈ ·) with
  | none =>
    have hno := List.find?_eq_none.mp hf _ (h.complete r hr)
    exact absurd (self_mem_strided h.t_pos h.w_pos) (by simpa using hno)
  | some ranks =>
    have hmem : r ∈ ranks := by simpa using List.find?_some hf
    rw [h.eq_of_mem (List.mem_of_find?_eq_some hf) hmem]

end FlashSpark
