import FlashSpark.Core.Mem

/-!
# Tensor operations on lists

The handful of PyTorch operations the modelled code is written in: the integer
cast `.to(torch.int32)`, `reshape` of a blocked table, the row lookups, and the
indexed store `x[rows] = values`, whole or row after row. Each has the lemmas its
users need.
-/
namespace FlashSpark

/-- `x.to(torch.int32)`: two's complement wrap. -/
def toInt32 (x : Int) : Int := x.bmod (2 ^ 32)

theorem toInt32_of_fits {x : Int} (h0 : -2 ^ 31 ≤ x) (h1 : x < 2 ^ 31) : toInt32 x = x :=
  Int.bmod_eq_of_le (by norm_num at h0 ⊢; exact h0) (by norm_num at h1 ⊢; exact h1)

/-- A gather none of whose indices is out of range. -/
theorem mapM_some {α β : Type*} {f : α → Option β} {g : α → β} {l : List α}
    (h : ∀ a ∈ l, f a = some (g a)) : l.mapM f = some (l.map g) := by
  induction l with
  | nil => rfl
  | cons a l ih =>
    rw [List.mapM_cons, h a List.mem_cons_self, ih fun b hb => h b (List.mem_cons_of_mem a hb)]
    rfl

/-- Blocks of equal length laid end to end: entry `i * k + j` is entry `j` of block `i`. -/
theorem flatMap_getElem?_of_length {α β : Type*} {f : α → List β} {k : Nat} (l : List α)
    (hf : ∀ a ∈ l, (f a).length = k) {i j : Nat} (hj : j < k) :
    (l.flatMap f)[i * k + j]? = (l[i]?).bind fun a => (f a)[j]? := by
  induction l generalizing i with
  | nil => simp
  | cons a l ih =>
    have ha : (f a).length = k := hf a List.mem_cons_self
    rw [List.flatMap_cons]
    cases i with
    | zero => rw [List.getElem?_append_left (by omega)]; simp
    | succ i =>
      rw [List.getElem?_append_right (by rw [ha, Nat.succ_mul]; omega), ha, Nat.succ_mul,
        show i * k + k + j - k = i * k + j by omega, ih fun b hb => hf b (List.mem_cons_of_mem a hb)]
      simp

theorem flatMap_length_of_length {α β : Type*} {f : α → List β} {k : Nat} (l : List α)
    (hf : ∀ a ∈ l, (f a).length = k) : (l.flatMap f).length = l.length * k := by
  induction l with
  | nil => simp
  | cons a l ih =>
    rw [List.flatMap_cons, List.length_append, hf a List.mem_cons_self,
      ih fun b hb => hf b (List.mem_cons_of_mem a hb), List.length_cons, Nat.succ_mul]
    omega

/-- Block `i` of equal blocks laid end to end. -/
theorem block_flatMap {α β : Type*} {f : α → List β} {k : Nat} (l : List α)
    (hf : ∀ a ∈ l, (f a).length = k) {i : Nat} {a : α} (ha : l[i]? = some a) :
    block (l.flatMap f) (i * k) k = f a := by
  apply List.ext_getElem?
  intro j
  rw [block_getElem?]
  split
  · rename_i hj
    rw [flatMap_getElem?_of_length l hf hj, ha]; rfl
  · rename_i hj
    rw [List.getElem?_eq_none (by rw [hf a (List.mem_of_getElem? ha)]; omega)]

/-- A list cut into blocks of equal length and put together again. -/
theorem flatten_blocks {α : Type*} {xs : List α} {w n : Nat} (h : xs.length = w * n) :
    ((List.range w).map fun k => block xs (k * n) n).flatten = xs := by
  induction w generalizing xs with
  | zero => rw [Nat.zero_mul] at h; rw [List.eq_nil_of_length_eq_zero h]; rfl
  | succ w ih =>
    rw [Nat.succ_mul] at h
    have hlen : (xs.take (w * n)).length = w * n := by rw [List.length_take]; omega
    have hfront : ∀ k ∈ List.range w, block xs (k * n) n = block (xs.take (w * n)) (k * n) n := by
      intro k hk
      have hkn : k * n + n ≤ w * n := by
        have := Nat.mul_le_mul_right n (Nat.succ_le_of_lt (List.mem_range.mp hk))
        rwa [Nat.succ_mul] at this
      conv_lhs => rw [← List.take_append_drop (w * n) xs]
      exact block_append_left _ _ _ _ (by rw [hlen]; exact hkn)
    have hlast : block xs (w * n) n = xs.drop (w * n) := by
      rw [block, List.take_of_length_le (by rw [List.length_drop]; omega)]
    rw [List.range_succ, List.map_append, List.flatten_append, List.map_congr_left hfront, ih hlen]
    simp only [List.map_cons, List.map_nil, List.flatten_cons, List.flatten_nil, List.append_nil, hlast,
      List.take_append_drop]

theorem range_flatMap_add {β : Type*} (a b : Nat) (f : Nat → List β) :
    (List.range (a + b)).flatMap f =
      (List.range a).flatMap f ++ (List.range b).flatMap fun i => f (a + i) := by
  rw [List.range_add, List.flatMap_append, List.flatMap_map]

/-- `x[loc] = val`, row `k` of `val` going to `loc k`. Which of several rows sent to
one place wins is not said. -/
def Scattered {κ α : Type*} (n : Nat) (loc : Nat → κ) (val : Nat → α) (m m' : κ → α) : Prop :=
  (∀ k, k < n → (∀ k', k' < n → loc k' = loc k → k' = k) → m' (loc k) = val k) ∧
  ∀ l, (∀ k, k < n → loc k ≠ l) → m' l = m l

theorem exists_scattered {κ α : Type*} (n : Nat) (loc : Nat → κ) (val : Nat → α) (m : κ → α) :
    ∃ m', Scattered n loc val m m' := by
  classical
  refine ⟨fun l => if hl : ∃ k, k < n ∧ loc k = l then val hl.choose else m l, fun k hk huniq => ?_,
    fun l hl => ?_⟩
  · have hex : ∃ k', k' < n ∧ loc k' = loc k := ⟨k, hk, rfl⟩
    exact (dif_pos hex).trans (congrArg val (huniq _ hex.choose_spec.1 hex.choose_spec.2))
  · exact dif_neg fun ⟨k, hk, he⟩ => hl k hk he

/-- The same store one row after the other. -/
def storeSeq {κ α : Type*} [DecidableEq κ] (loc : Nat → κ) (val : Nat → α) (m : κ → α) : Nat → κ → α
  | 0 => m
  | k + 1 => Function.update (storeSeq loc val m k) (loc k) (val k)

section StoreSeq
variable {κ α : Type*} [DecidableEq κ] {loc : Nat → κ} {val : Nat → α} {m : κ → α}

theorem storeSeq_other {n : Nat} {l : κ} (h : ∀ k, k < n → loc k ≠ l) : storeSeq loc val m n l = m l := by
  induction n with
  | zero => rfl
  | succ n ih =>
    rw [storeSeq, Function.update_of_ne (h n (Nat.lt_succ_self n)).symm, ih fun k hk => h k (by omega)]

/-- The last row sent to a place wins. -/
theorem storeSeq_last {n k : Nat} (hk : k < n) (h : ∀ j, k < j → j < n → loc j ≠ loc k) :
    storeSeq loc val m n (loc k) = val k := by
  induction n with
  | zero => omega
  | succ n ih =>
    rw [storeSeq]
    by_cases heq : k = n
    · rw [heq, Function.update_self]
    · rw [Function.update_of_ne (h n (by omega) (Nat.lt_succ_self n)).symm,
        ih (by omega) fun j hkj hj => h j hkj (by omega)]

/-- The last row before row `n` that goes to `l`. -/
theorem exists_last {n k : Nat} {l : κ} (hk : k < n) (hl : loc k = l) :
    ∃ k', k' < n ∧ loc k' = l ∧ ∀ j, k' < j → j < n → loc j ≠ l := by
  induction n with
  | zero => omega
  | succ n ih =>
    by_cases hn : loc n = l
    · exact ⟨n, Nat.lt_succ_self n, hn, fun j hnj hj => absurd hnj (by omega)⟩
    · have hkn : k ≠ n := fun he => hn (he ▸ hl)
      obtain ⟨k', hk', hl', hlast⟩ := ih (by omega)
      refine ⟨k', by omega, hl', fun j hkj hj => ?_⟩
      by_cases hjn : j = n
      · exact hjn ▸ hn
      · exact hlast j hkj (by omega)

/-- A scatter whose only row for `l` is the last of the sequential ones leaves there what
they leave. -/
theorem Scattered.eq_storeSeq {n len : Nat} {loc' : Nat → κ} {m' : κ → α} {l : κ}
    (h : Scattered n loc' val m m') (hlen : len ≤ n)
    (hlast : ∀ k, k < n → (loc' k = l ↔ k < len ∧ loc k = l ∧ ∀ j, k < j → j < len → loc j ≠ l)) :
    m' l = storeSeq loc val m len l := by
  by_cases hany : ∃ k, k < len ∧ loc k = l
  · obtain ⟨k, hk, hl⟩ := hany
    obtain ⟨k, hk, hl, hmax⟩ := exists_last hk hl
    have hkn : k < n := by omega
    have hloc' : loc' k = l := (hlast k hkn).mpr ⟨hk, hl, hmax⟩
    have hval : m' (loc' k) = val k := h.1 k hkn fun k' hk' he => by
      -- two last rows are one
      obtain ⟨hk'len, hl', hmax'⟩ := (hlast k' hk').mp (he.trans hloc')
      rcases Nat.lt_trichotomy k' k with hlt | heq | hgt
      · exact absurd hl (hmax' k hlt hk)
      · exact heq
      · exact absurd hl' (hmax k' hgt hk'len)
    have hseq : storeSeq loc val m len (loc k) = val k :=
      storeSeq_last hk fun j hkj hj => hl ▸ hmax j hkj hj
    rw [← hloc', hval, hloc', ← hl, hseq]
  · have hnone : ∀ k, k < len → loc k ≠ l := fun k hk he => hany ⟨k, hk, he⟩
    rw [storeSeq_other hnone]
    exact h.2 l fun k hk he => hnone k ((hlast k hk).mp he).1 ((hlast k hk).mp he).2.1

end StoreSeq

/-! ## Rows written by a loop -/

/-- The rows `rows` come out as `W` says, the others as they were. -/
structure Wrote {β : Type*} (rows : Set Nat) (W : Nat → β → Prop) (m m' : Nat → β) : Prop where
  wrote : ∀ t ∈ rows, W t (m' t)
  kept : ∀ t, t ∉ rows → m' t = m t

section Wrote
variable {β : Type*} {W : Nat → β → Prop} {A B : Set Nat} {m m₁ m₂ : Nat → β}

theorem Wrote.refl : Wrote ∅ W m m := ⟨fun _ h => h.elim, fun _ _ => rfl⟩

/-- The later write wins. -/
theorem Wrote.trans (h : Wrote A W m m₁) (h' : Wrote B W m₁ m₂) : Wrote (A ∪ B) W m m₂ where
  wrote t ht := by
    by_cases hB : t ∈ B
    · exact h'.wrote t hB
    · rw [h'.kept t hB]
      exact h.wrote t (ht.resolve_right hB)
  kept t ht := (h'.kept t fun hB => ht (Or.inr hB)).trans (h.kept t fun hA => ht (Or.inl hA))

theorem Wrote.update {t : Nat} {v : β} (h : W t v) : Wrote {t} W m (Function.update m t v) where
  wrote t' ht := by
    obtain rfl := ht
    rwa [Function.update_self]
  kept t' ht := Function.update_of_ne ht v m

theorem Wrote.congr (h : Wrote A W m m₁) (hAB : ∀ t, t ∈ A ↔ t ∈ B) : Wrote B W m m₁ :=
  ⟨fun t ht => h.wrote t ((hAB t).mpr ht), fun t ht => h.kept t fun hA => ht ((hAB t).mp hA)⟩

/-- A loop whose turns write rows; `I n` holds of the state after `n` turns. -/
theorem foldlM_wrote {σ ι : Type*} (step : σ → ι → Option σ) (rows : σ → Nat → β) (on : ι → Set Nat)
    {I : Nat → σ → Prop} {s : σ} (h0 : I 0 s) (as : List ι)
    (hstep : ∀ n a, as[n]? = some a → ∀ s, I n s →
      ∃ s', step s a = some s' ∧ I (n + 1) s' ∧ Wrote (on a) W (rows s) (rows s')) :
    ∃ s', as.foldlM step s = some s' ∧ I as.length s' ∧
      Wrote {t | ∃ a ∈ as, t ∈ on a} W (rows s) (rows s') := by
  induction as using List.reverseRecOn with
  | nil => exact ⟨s, rfl, h0, Wrote.refl.congr fun t => by simp⟩
  | append_singleton as a ih =>
    obtain ⟨s₁, hs₁, hI₁, hw₁⟩ := ih fun n b hb => hstep n b (List.getElem?_append_left
      (List.getElem?_eq_some_iff.mp hb).1 ▸ hb)
    obtain ⟨s₂, hs₂, hI₂, hw₂⟩ := hstep as.length a (by simp) s₁ hI₁
    refine ⟨s₂, ?_, by simpa using hI₂, (hw₁.trans hw₂).congr fun t => ?_⟩
    · rw [List.foldlM_append, hs₁, Option.bind_eq_bind, Option.bind_some, List.foldlM_cons, hs₂]
      rfl
    · simp [or_and_right, exists_or]

end Wrote

end FlashSpark
