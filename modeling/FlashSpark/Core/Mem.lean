import Mathlib

/-!
# Flat memories: reading and writing a block

A buffer is a function from addresses to cells. `slice m off len` is the block
read at `off`, `blit m off bs` the memory after `bs` was copied to `off`
(`memcpy`). The lemmas say what a read sees after a write: the written block,
or, away from it, what was there before.
-/
namespace FlashSpark

abbrev Bytes := List UInt8

variable {α : Type*}

def slice (m : Nat → α) (off len : Nat) : List α := (List.range len).map fun i => m (off + i)

def blit (m : Nat → α) (off : Nat) (bs : List α) : Nat → α :=
  fun a => if off ≤ a then (bs[a - off]?).getD (m a) else m a

@[simp] theorem slice_length (m : Nat → α) (off len : Nat) : (slice m off len).length = len := by
  simp [slice]

theorem slice_getElem? (m : Nat → α) (off len i : Nat) :
    (slice m off len)[i]? = if i < len then some (m (off + i)) else none := by
  unfold slice
  split
  · rename_i h; simp [h]
  · rename_i h; simp [Nat.not_lt.mp h]

/-- Two reads agree when the memories agree on the block read. -/
theorem slice_congr {m m' : Nat → α} {off len : Nat} (h : ∀ i, i < len → m (off + i) = m' (off + i)) :
    slice m off len = slice m' off len := by
  unfold slice
  exact List.map_congr_left fun i hi => h i (List.mem_range.mp hi)

/-- Two reads are equal when they agree cell by cell. -/
theorem slice_eq_slice {m m' : Nat → α} {off off' len : Nat} :
    slice m off len = slice m' off' len ↔ ∀ i, i < len → m (off + i) = m' (off' + i) := by
  unfold slice
  rw [List.map_inj_left]
  exact forall_congr' fun i => by rw [List.mem_range]

theorem slice_eq_iff {m : Nat → α} {off : Nat} {bs : List α} :
    slice m off bs.length = bs ↔ ∀ i (h : i < bs.length), m (off + i) = bs[i] := by
  constructor
  · intro h i hi
    have h' : (slice m off bs.length)[i]? = bs[i]? := by rw [h]
    rw [slice_getElem?, if_pos hi, List.getElem?_eq_getElem hi] at h'
    exact Option.some.inj h'
  · intro h
    apply List.ext_getElem (by simp)
    intro i h1 h2
    simpa [slice] using h i h2

theorem blit_apply (m : Nat → α) (off : Nat) (bs : List α) (a : Nat) :
    blit m off bs a = if h : off ≤ a ∧ a < off + bs.length then bs[a - off] else m a := by
  unfold blit
  by_cases h1 : off ≤ a
  · by_cases h2 : a < off + bs.length
    · rw [if_pos h1, dif_pos ⟨h1, h2⟩, List.getElem?_eq_getElem (by omega)]; rfl
    · rw [if_pos h1, dif_neg (by omega), List.getElem?_eq_none (by omega)]; rfl
  · rw [if_neg h1, dif_neg (by omega)]

theorem blit_outside (m : Nat → α) (off : Nat) (bs : List α) (a : Nat)
    (h : a < off ∨ off + bs.length ≤ a) : blit m off bs a = m a := by
  rw [blit_apply, dif_neg (by omega)]

/-- A read of exactly the written block. -/
theorem slice_blit_self (m : Nat → α) (off : Nat) (bs : List α) :
    slice (blit m off bs) off bs.length = bs := by
  rw [slice_eq_iff]
  intro i hi
  rw [blit_apply, dif_pos (by omega)]
  simp

/-- A read disjoint from the written block. -/
theorem slice_blit_disjoint (m : Nat → α) (off : Nat) (bs : List α) (o len : Nat)
    (h : o + len ≤ off ∨ off + bs.length ≤ o) : slice (blit m off bs) o len = slice m o len :=
  slice_congr fun i hi => blit_outside m off bs (o + i) (by omega)

/-! ## Fixed-size records -/

/-- Two records of `w` cells each at different indices do not overlap. -/
theorem record_disjoint {i j w : Nat} (h : i ≠ j) : i * w + w ≤ j * w ∨ j * w + w ≤ i * w := by
  rcases Nat.lt_or_gt_of_ne h with h | h
  · left
    have := Nat.mul_le_mul_right w (show i + 1 ≤ j by omega)
    rw [Nat.succ_mul] at this; exact this
  · right
    have := Nat.mul_le_mul_right w (show j + 1 ≤ i by omega)
    rw [Nat.succ_mul] at this; exact this

/-- Reading record `j` after writing record `i`. -/
theorem slice_blit_record (m : Nat → α) (w i j : Nat) (bs : List α) (hw : bs.length = w) :
    slice (blit m (i * w) bs) (j * w) w = if j = i then bs else slice m (j * w) w := by
  split
  · rename_i h; subst h; subst hw; exact slice_blit_self m _ bs
  · rename_i h
    exact slice_blit_disjoint m _ bs _ _ (by rw [hw]; rcases record_disjoint (w := w) h with h | h <;> omega)

/-- The block `[a, a + n)` of a list. -/
def block (l : List α) (a n : Nat) : List α := (l.drop a).take n

theorem block_length (l : List α) (a n : Nat) : (block l a n).length = min n (l.length - a) := by
  simp [block]

theorem block_length_of_le {l : List α} {a n : Nat} (h : a + n ≤ l.length) : (block l a n).length = n := by
  rw [block_length]; omega

theorem block_getElem? (l : List α) (a n i : Nat) :
    (block l a n)[i]? = if i < n then l[a + i]? else none := by
  unfold block
  rw [List.getElem?_take, List.getElem?_drop]

/-- A block of a block. -/
theorem block_block (l : List α) (a n b k : Nat) (h : b + k ≤ n) :
    block (block l a n) b k = block l (a + b) k := by
  apply List.ext_getElem?
  intro i
  simp only [block_getElem?]
  split
  · rw [if_pos (by omega), Nat.add_assoc]
  · rfl

theorem block_append_left (l r : List α) (a n : Nat) (h : a + n ≤ l.length) :
    block (l ++ r) a n = block l a n := by
  apply List.ext_getElem?
  intro i
  simp only [block_getElem?]
  split
  · rw [List.getElem?_append_left (by omega)]
  · rfl

theorem block_append_right (l r : List α) (a n : Nat) : block (l ++ r) (l.length + a) n = block r a n := by
  unfold block
  rw [List.drop_append, List.drop_eq_nil_of_le (by omega)]; simp

/-! ## Little-endian words -/

/-- The `k` bytes of `v`, least significant first. -/
def toLe : Nat → Nat → Bytes
  | 0, _ => []
  | k + 1, v => UInt8.ofNat (v % 256) :: toLe k (v / 256)

def ofLe : Bytes → Nat
  | [] => 0
  | b :: bs => b.toNat + 256 * ofLe bs

@[simp] theorem toLe_length (k v : Nat) : (toLe k v).length = k := by
  induction k generalizing v with
  | zero => rfl
  | succ k ih => simp [toLe, ih]

theorem ofLe_toLe (k v : Nat) (h : v < 256 ^ k) : ofLe (toLe k v) = v := by
  induction k generalizing v with
  | zero => simp at h; simp [toLe, ofLe, h]
  | succ k ih =>
    rw [Nat.pow_succ] at h
    rw [toLe, ofLe, ih (v / 256) (by omega), UInt8.toNat_ofNat']
    omega

/-- A place in blocks of equal length names its block and its place in it. -/
theorem mul_add_inj {k i j i' j' : Nat} (hj : j < k) (hj' : j' < k) (h : i * k + j = i' * k + j') :
    i = i' ∧ j = j' := by
  have hk : 0 < k := Nat.lt_of_le_of_lt (Nat.zero_le j) hj
  have hdiv := congrArg (· / k) h
  have hmod := congrArg (· % k) h
  simp only [Nat.mul_comm _ k, Nat.mul_add_div hk, Nat.div_eq_of_lt hj, Nat.div_eq_of_lt hj',
    Nat.mul_add_mod, Nat.mod_eq_of_lt hj, Nat.mod_eq_of_lt hj'] at hdiv hmod
  exact ⟨hdiv, hmod⟩

end FlashSpark
