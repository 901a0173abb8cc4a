import FlashSpark.Core.Search

/-!
# The prime layout of the Engram tables

`EngramLayout.build` draws a prime for every layer, n-gram size and head from one shared
set of primes seen. The search starts again at the bottom for every n-gram size, and skips
what was drawn before.

* `drawHeads_eq`, `drawNgrams_eq`, `drawLayers_eq`: what the three loops draw, from any
  number of primes drawn before.
* `build_primes`: flattened, the layout is the first primes from the vocabulary size on,
  in ascending order.
-/
namespace FlashSpark.L3.Engram
open Search

/-- `sympy.isprime`. -/
structure PrimeTest where
  isprime : Nat → Bool
  isprime_iff : ∀ n, isprime n = true ↔ n.Prime

theorem PrimeTest.infinite (T : PrimeTest) : (Set.ofPred fun n => T.isprime n = true).Infinite := by
  simp only [T.isprime_iff]
  exact Nat.infinite_setOfPred_prime

/-- mirrors compact-measured.patch:383-389 (`_find_next_prime`) -/
def findNextPrime (T : PrimeTest) (start : Nat) (seen : Finset Nat) : Nat :=
  search T.infinite seen (start + 1)

/-- mirrors the fields of `EngramLayout`; `primes` is `[layer][n-gram size][head]`. -/
structure EngramLayout where
  maxNgramSize : Nat
  layerIds : List Nat
  numEmbeddings : List Nat
  primes : List (List (List Nat))
  nHeads : Nat
  headDim : Nat

/-- The loop over the heads, from `current`. mirrors compact-measured.patch:473-476 -/
def drawHeads (T : PrimeTest) : Nat → Nat → Finset Nat → List Nat × Finset Nat
  | 0, _, seen => ([], seen)
  | heads + 1, current, seen =>
    let current := findNextPrime T current seen
    let (sizes, seen) := drawHeads T heads current (insert current seen)
    (current :: sizes, seen)

/-- The loop over the n-gram sizes. mirrors compact-measured.patch:471-477 -/
def drawNgrams (T : PrimeTest) (vocabSize nHeads : Nat) : Nat → Finset Nat → List (List Nat) × Finset Nat
  | 0, seen => ([], seen)
  | ngrams + 1, seen =>
    let (sizes, seen) := drawHeads T nHeads (vocabSize - 1) seen
    let (perNgram, seen) := drawNgrams T vocabSize nHeads ngrams seen
    (sizes :: perNgram, seen)

/-- The loop over the layers. mirrors compact-measured.patch:469-478 -/
def drawLayers (T : PrimeTest) (vocabSize nHeads ngrams : Nat) :
    List Nat → Finset Nat → List (List (List Nat)) × Finset Nat
  | [], seen => ([], seen)
  | _ :: layers, seen =>
    let (perNgram, seen) := drawNgrams T vocabSize nHeads ngrams seen
    let (primes, seen) := drawLayers T vocabSize nHeads ngrams layers seen
    (perNgram :: primes, seen)

/-- mirrors compact-measured.patch:455-486 -/
def EngramLayout.build (T : PrimeTest) (layerIds numEmbeddings : List Nat)
    (maxNgramSize nHeads headDim vocabSize : Nat) : EngramLayout where
  maxNgramSize := maxNgramSize
  layerIds := layerIds
  numEmbeddings := numEmbeddings
  primes := (drawLayers T vocabSize nHeads (maxNgramSize - 1) layerIds ∅).1
  nHeads := nHeads
  headDim := headDim

/-- The primes of a layer in column order. -/
def columns (layer : List (List Nat)) : List Nat := layer.flatten

/-- In (layer, n-gram size, head) order. -/
def EngramLayout.flat (layout : EngramLayout) : List Nat := (layout.primes.map columns).flatten

/-! ## What the loops draw -/

/-- The prime number `i` from `v` on. -/
noncomputable def primeFrom (v i : Nat) : Nat := Nat.nth (fun p => p.Prime ∧ v ≤ p) i

/-- The primes number `j` to `j + k`. -/
noncomputable def primesFrom (v j k : Nat) : List Nat := (List.range k).map fun i => primeFrom v (j + i)

theorem primesFrom_succ (v j k : Nat) : primesFrom v j (k + 1) = primeFrom v j :: primesFrom v (j + 1) k := by
  unfold primesFrom
  rw [List.range_succ_eq_map, List.map_cons, List.map_map, Nat.add_zero]
  congr 1
  refine List.map_congr_left fun i _ => ?_
  rw [Function.comp_apply, Nat.succ_eq_add_one, Nat.add_assoc, Nat.add_comm 1 i]

theorem primesFrom_add (v j k l : Nat) :
    primesFrom v j (k + l) = primesFrom v j k ++ primesFrom v (j + k) l := by
  induction k generalizing j with
  | zero => rw [Nat.zero_add]; rfl
  | succ k ih =>
    rw [Nat.succ_add, primesFrom_succ, primesFrom_succ, ih, List.cons_append, Nat.add_assoc, Nat.add_comm 1 k]

section Draw
variable {T : PrimeTest} {v : Nat}

theorem enumerates_primeFrom (T : PrimeTest) (v : Nat) :
    Enumerates (fun n => T.isprime n = true) v (primeFrom v) := by
  have h := enumerates_nth T.infinite v
  simp only [T.isprime_iff] at h ⊢
  exact h

/-- From the bottom or from the prime drawn last, the next prime is found. -/
theorem findNextPrime_eq {seen : Finset Nat} {j current : Nat} (hseen : Met (primeFrom v) j seen)
    (hv : v ≤ current + 1) (hlt : current < primeFrom v j) :
    findNextPrime T current seen = primeFrom v j :=
  (enumerates_primeFrom T v).search_eq hseen hv hlt

theorem drawHeads_eq {heads j current : Nat} {seen : Finset Nat} (hseen : Met (primeFrom v) j seen)
    (hv : v ≤ current + 1) (hlt : current < primeFrom v j) :
    ∃ seen', drawHeads T heads current seen = (primesFrom v j heads, seen') ∧
      Met (primeFrom v) (j + heads) seen' := by
  induction heads generalizing j current seen with
  | zero => exact ⟨seen, rfl, hseen⟩
  | succ heads ih =>
    have henum := enumerates_primeFrom T v
    have hnext : primeFrom v j < primeFrom v (j + 1) := henum.strictMono (Nat.lt_succ_self j)
    obtain ⟨seen', hdraw, hmet⟩ :=
      ih hseen.insert (Nat.le_succ_of_le (henum.mem j).2) hnext
    refine ⟨seen', ?_, by rwa [Nat.add_right_comm] at hmet⟩
    rw [drawHeads, findNextPrime_eq hseen hv hlt]
    dsimp only
    rw [hdraw, primesFrom_succ]

/-- Every n-gram size starts again at `vocab_size - 1`. -/
theorem drawNgrams_eq (hv : 1 ≤ v) {ngrams nHeads j : Nat} {seen : Finset Nat}
    (hseen : Met (primeFrom v) j seen) :
    ∃ sizes seen', drawNgrams T v nHeads ngrams seen = (sizes, seen') ∧
      sizes.flatten = primesFrom v j (ngrams * nHeads) ∧ Met (primeFrom v) (j + ngrams * nHeads) seen' := by
  induction ngrams generalizing j seen with
  | zero =>
    refine ⟨[], seen, rfl, ?_, ?_⟩
    · rw [Nat.zero_mul]
      rfl
    · rwa [Nat.zero_mul]
  | succ ngrams ih =>
    have hle := ((enumerates_primeFrom T v).mem j).2
    obtain ⟨seen₁, hheads, hmet₁⟩ :=
      @drawHeads_eq T v nHeads j (v - 1) seen hseen (by omega) (by omega)
    obtain ⟨sizes, seen', hrest, hflat, hmet⟩ := ih hmet₁
    refine ⟨primesFrom v j nHeads :: sizes, seen', ?_, ?_, ?_⟩
    · rw [drawNgrams, hheads]
      dsimp only
      rw [hrest]
    · rw [List.flatten_cons, hflat, Nat.succ_mul, Nat.add_comm (ngrams * nHeads), primesFrom_add]
    · rwa [Nat.succ_mul, Nat.add_comm (ngrams * nHeads), ← Nat.add_assoc]

theorem drawLayers_eq (hv : 1 ≤ v) {ngrams nHeads j : Nat} {layers : List Nat} {seen : Finset Nat}
    (hseen : Met (primeFrom v) j seen) :
    ((drawLayers T v nHeads ngrams layers seen).1.map columns).flatten =
      primesFrom v j (layers.length * (ngrams * nHeads)) := by
  induction layers generalizing j seen with
  | nil =>
    rw [List.length_nil, Nat.zero_mul]
    rfl
  | cons layer layers ih =>
    obtain ⟨sizes, seen', hngrams, hflat, hmet⟩ := @drawNgrams_eq T v hv ngrams nHeads j seen hseen
    rw [drawLayers, hngrams]
    dsimp only
    rw [List.map_cons, List.flatten_cons, ih hmet, columns, hflat, List.length_cons, Nat.succ_mul,
      Nat.add_comm (layers.length * _), primesFrom_add]

/-- **The layout is one ascending prime sequence**: whatever the layers, the n-gram sizes
and the heads, the first primes from the vocabulary size on. -/
theorem build_primes (T : PrimeTest) (layerIds numEmbeddings : List Nat)
    (maxNgramSize nHeads headDim vocabSize : Nat) (hv : 1 ≤ vocabSize) :
    let layout := EngramLayout.build T layerIds numEmbeddings maxNgramSize nHeads headDim vocabSize
    layout.flat = (List.range (layerIds.length * ((maxNgramSize - 1) * nHeads))).map
        (Nat.nth fun p => p.Prime ∧ vocabSize ≤ p) ∧
      layout.flat.Pairwise (· < ·) := by
  have hflat : (EngramLayout.build T layerIds numEmbeddings maxNgramSize nHeads headDim vocabSize).flat =
      primesFrom vocabSize 0 (layerIds.length * ((maxNgramSize - 1) * nHeads)) :=
    drawLayers_eq hv (Met.empty _)
  refine ⟨?_, ?_⟩
  · rw [hflat]
    unfold primesFrom primeFrom
    simp only [Nat.zero_add]
  · rw [hflat]
    unfold primesFrom
    refine List.pairwise_map.mpr (List.pairwise_lt_range.imp fun hlt => ?_)
    exact (enumerates_primeFrom T vocabSize).strictMono (Nat.add_lt_add_left hlt 0)

theorem drawNgrams_length {vocabSize nHeads ngrams : Nat} {seen : Finset Nat} :
    (drawNgrams T vocabSize nHeads ngrams seen).1.length = ngrams := by
  induction ngrams generalizing seen with
  | zero => rfl
  | succ ngrams ih =>
    rw [drawNgrams]
    dsimp only
    rw [List.length_cons, ih]

/-- Every layer has its list for each n-gram size from 2 on. -/
theorem build_shape {layerIds numEmbeddings : List Nat} {maxNgramSize nHeads headDim vocabSize : Nat} :
    ∀ layer ∈ (EngramLayout.build T layerIds numEmbeddings maxNgramSize nHeads headDim vocabSize).primes,
      layer.length = maxNgramSize - 1 := by
  show ∀ layer ∈ (drawLayers T vocabSize nHeads (maxNgramSize - 1) layerIds ∅).1, _
  generalize (∅ : Finset Nat) = seen
  induction layerIds generalizing seen with
  | nil => exact fun layer hlayer => absurd hlayer List.not_mem_nil
  | cons layerId layerIds ih =>
    intro layer hlayer
    rw [drawLayers] at hlayer
    dsimp only at hlayer
    rcases List.mem_cons.mp hlayer with rfl | hlayer
    · exact drawNgrams_length
    · exact ih _ layer hlayer

theorem build_prime {layerIds numEmbeddings : List Nat} {maxNgramSize nHeads headDim vocabSize : Nat}
    (hv : 1 ≤ vocabSize) {p : Nat}
    (hp : p ∈ (EngramLayout.build T layerIds numEmbeddings maxNgramSize nHeads headDim vocabSize).flat) :
    p.Prime := by
  rw [EngramLayout.flat, EngramLayout.build, drawLayers_eq hv (Met.empty _)] at hp
  obtain ⟨i, -, rfl⟩ := List.mem_map.mp hp
  exact (T.isprime_iff _).mp ((enumerates_primeFrom T vocabSize).mem _).1

end Draw

def trialDivision : PrimeTest := ⟨fun n => decide n.Prime, fun n => by simp⟩

/-- Two layers, bigrams and trigrams, two heads, from 2 on. -/
theorem build_primes_two :
    let layout := EngramLayout.build trialDivision [1, 14] [10, 10] 3 2 4 2
    1 ≤ 2 ∧ layout.flat = (List.range 8).map (Nat.nth fun p => p.Prime ∧ 2 ≤ p) ∧
      layout.flat.Pairwise (· < ·) :=
  ⟨by decide, build_primes trialDivision [1, 14] [10, 10] 3 2 4 2 (by decide)⟩

end FlashSpark.L3.Engram
