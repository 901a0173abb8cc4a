import FlashSpark.L2Store.Lookup
import FlashSpark.L3Engram.HashIds
import FlashSpark.L3Engram.PrimeLayout

/-!
# Hash ids stay in the ranges of their columns

What `EngramHasher.__init__` builds: the multipliers, bounded so that a product of a
compressed id with one of them is an `int64`, and the offsets of the columns. Then what
that gives: no product wraps and no XOR of products is negative, the ids of a column are
those from its offset on, one for each residue of its prime, and the row store never meets
an id it would abort for. The offsets and the ids themselves are `int64` too: this needs
the primes of a layer to sum to less than `2^63`.

* `mul_multiplier_bounded`: two floor divisions, a doubling and a shift, tight.
* `rollingHashes_bounded`, `layerOffsets_getElem?`: the two parts of an id.
* `hashIds_in_range`: the headline. `offset_wraps`: why the sum matters.
-/
namespace FlashSpark.L3.Engram
open L2.RowStore

/-! ## What `__init__` builds -/

/-- `np.iinfo(np.int64).max`. -/
def maxLong : Int := 2 ^ 63 - 1

def multiplierBound (vocabSize : Nat) : Int := max 1 (maxLong / vocabSize / 2)

/-- `np.random.default_rng(seed).integers(0, high, size)`. -/
structure Rng where
  integers : (seed : Nat) → (high : Int) → (size : Nat) → List Int
  length : ∀ seed high size, (integers seed high size).length = size
  bounded : ∀ seed high size, 0 < high → ∀ v ∈ integers seed high size, 0 ≤ v ∧ v < high

/-- mirrors compact-measured.patch:430-444 -/
def computeHashMultipliers (rng : Rng) (layerIds : List Nat) (maxNgramSize vocabSize : Nat) :
    List (List Int) :=
  layerIds.map fun layerId =>
    (rng.integers (10007 * layerId) (multiplierBound vocabSize) maxNgramSize).map fun v => toInt64 (v * 2 + 1)

/-- `np.cumsum`, from `acc`. -/
def cumsum : Int → List Int → List Int
  | _, [] => []
  | acc, x :: xs => toInt64 (acc + x) :: cumsum (toInt64 (acc + x)) xs

/-- `np.cumsum([0, *sizes[:-1]])`. mirrors compact-measured.patch:546 -/
def layerOffsets (sizes : List Nat) : List Int := cumsum 0 (0 :: sizes.dropLast.map Nat.cast)

/-- The next token id: its key has an id, or gets the next one. -/
def compressStep (acc : List Nat × List String) (key : String) : List Nat × List String :=
  match acc.2.idxOf? key with
  | some newId => (acc.1 ++ [newId], acc.2)
  | none => (acc.1 ++ [acc.2.length], acc.2 ++ [key])

/-- From the keys of the tokens, which the tokenizer and its normalizers give.
mirrors compact-measured.patch:392-427 -/
def buildCompressedTokenMap (keys : List String) : List Nat × Nat :=
  let (lookup, keyToNew) := keys.foldl compressStep ([], [])
  (lookup, keyToNew.length)

/-- A tensor indexed by a token; indices from `-len` on count from the end. -/
def gather (tensor : List Nat) (token : Int) : Int :=
  tensor.getD (if token < 0 then token + tensor.length else token).toNat 0

/-- `EngramHasher.__init__`: `none` where it raises. `padId` indexes a list, and a tensor
takes an `int64` only. mirrors compact-measured.patch:528-556 -/
def Hasher.init (layout : EngramLayout) (two_le : 2 ≤ layout.maxNgramSize) (keys : List String)
    (padId compressedVocabSize : Nat) (rng : Rng) (mmPadShift : Int) : Option Hasher :=
  let (tokenMap, vocabSize) := buildCompressedTokenMap keys
  if vocabSize ≠ compressedVocabSize ∨ tokenMap.length ≤ padId ∨ (∃ c ∈ tokenMap, maxLong < (c : Int)) ∨
    ∃ p ∈ layout.flat, maxLong < (p : Int) then none
  else some
    { maxNgramSize := layout.maxNgramSize
      two_le := two_le
      padId := tokenMap.getD padId 0
      tokenMap := gather tokenMap
      multipliers := computeHashMultipliers rng layout.layerIds layout.maxNgramSize vocabSize
      primes := layout.primes.map fun layer => layer.map fun sizes => sizes.map Nat.cast
      offsets := layout.primes.map fun layer => layerOffsets (columns layer)
      imageTokenId := none
      image_fits := fun _ h => nomatch h
      mmPadShift := mmPadShift
      padRow := 0 }

/-- What the bounded RNG may give for one layer. -/
def Drawn (vocabSize maxNgramSize : Nat) (multipliers : List Int) : Prop :=
  multipliers.length = maxNgramSize ∧
    ∀ m ∈ multipliers, ∃ v, 0 ≤ v ∧ v < multiplierBound vocabSize ∧ m = 2 * v + 1

/-- A compressed id, as the `int64` token map holds it. -/
def InVocab (vocabSize : Nat) (c : Int) : Prop := 0 ≤ c ∧ c < vocabSize ∧ c ≤ maxLong

/-- A hasher as `__init__` builds it over the primes of a layout. -/
structure Hasher.Built (H : Hasher) (vocabSize : Nat) (layers : List (List (List Nat))) : Prop where
  tokenMap : ∀ token, InVocab vocabSize (H.tokenMap token)
  padId : InVocab vocabSize H.padId
  multipliers : ∀ ms ∈ H.multipliers, Drawn vocabSize H.maxNgramSize ms
  primes : H.primes = layers.map fun layer => layer.map fun sizes => sizes.map Nat.cast
  offsets : H.offsets = layers.map fun layer => layerOffsets (columns layer)
  shape : ∀ layer ∈ layers, layer.length = H.maxNgramSize - 1
  prime : ∀ layer ∈ layers, ∀ p ∈ columns layer, p.Prime

/-! ## `int64` -/

theorem toInt64_of_fits {x : Int} (h0 : -2 ^ 63 ≤ x) (h1 : x ≤ maxLong) : toInt64 x = x := by
  unfold toInt64 maxLong at *
  rw [BitVec.toInt_ofInt]
  exact Int.bmod_eq_of_le (by omega) (by omega)

theorem multiplierBound_pos (vocabSize : Nat) : 0 < multiplierBound vocabSize :=
  Int.lt_of_lt_of_le Int.one_pos (Int.le_max_left 1 _)

/-- A product of a compressed id with a multiplier is an `int64`. -/
theorem mul_multiplier_bounded {vocabSize : Nat} {c v : Int} (hvocab : 1 ≤ vocabSize)
    (hc : InVocab vocabSize c) (h0 : 0 ≤ v) (hv : v < multiplierBound vocabSize) :
    0 ≤ c * (2 * v + 1) ∧ c * (2 * v + 1) ≤ maxLong := by
  obtain ⟨hc0, hcv, hcmax⟩ := hc
  refine ⟨Int.mul_nonneg hc0 (by omega), ?_⟩
  rcases Int.lt_or_le v 1 with hv1 | hv1
  · obtain rfl : v = 0 := by omega
    simpa using hcmax
  · -- the bound is not the 1 of `max`: twice it is within one division of the vocabulary
    have hbound : v < maxLong / vocabSize / 2 := by
      unfold multiplierBound at hv
      omega
    have hm : 2 * v + 1 ≤ maxLong / vocabSize := by omega
    have hdiv : (vocabSize : Int) * (maxLong / vocabSize) ≤ maxLong := Int.mul_ediv_self_le (by omega)
    calc c * (2 * v + 1) ≤ vocabSize * (2 * v + 1) := Int.mul_le_mul_of_nonneg_right (by omega) (by omega)
      _ ≤ vocabSize * (maxLong / vocabSize) := Int.mul_le_mul_of_nonneg_left hm (by omega)
      _ ≤ maxLong := hdiv

/-- The multipliers that are computed are among those the RNG may give. -/
theorem drawn_compute (rng : Rng) (layerIds : List Nat) (maxNgramSize vocabSize : Nat) :
    ∀ ms ∈ computeHashMultipliers rng layerIds maxNgramSize vocabSize, Drawn vocabSize maxNgramSize ms := by
  intro ms hms
  obtain ⟨layerId, -, rfl⟩ := List.mem_map.mp hms
  refine ⟨by rw [List.length_map, rng.length], fun m hm => ?_⟩
  obtain ⟨v, hv, rfl⟩ := List.mem_map.mp hm
  obtain ⟨h0, hlt⟩ := rng.bounded _ _ _ (multiplierBound_pos vocabSize) v hv
  have hdiv : maxLong / vocabSize ≤ maxLong := Int.ediv_le_self _ (by decide)
  have hmax : (1 : Int) ≤ maxLong := by decide
  unfold multiplierBound at hlt
  have hle : v * 2 + 1 ≤ maxLong := by omega
  exact ⟨v, h0, by unfold multiplierBound; exact hlt, by rw [toInt64_of_fits (by omega) hle]; omega⟩

/-- Every entry of the token map is below its size. -/
theorem buildCompressedTokenMap_lt (keys : List String) :
    ∀ c ∈ (buildCompressedTokenMap keys).1, c < (buildCompressedTokenMap keys).2 := by
  have hfold : ∀ (keys : List String) (acc : List Nat × List String), (∀ c ∈ acc.1, c < acc.2.length) →
      ∀ c ∈ (keys.foldl compressStep acc).1, c < (keys.foldl compressStep acc).2.length := by
    intro keys
    induction keys with
    | nil => exact fun acc hacc => hacc
    | cons key keys ih =>
      intro acc hacc
      refine ih (compressStep acc key) fun c hc => ?_
      unfold compressStep at hc ⊢
      split
      · rename_i newId hnew
        rw [hnew] at hc
        rcases List.mem_append.mp hc with hc | hc
        · exact hacc c hc
        · obtain rfl := List.mem_singleton.mp hc
          obtain ⟨hlt, -⟩ := List.idxOf?_eq_some_iff.mp hnew
          exact hlt
      · rename_i hnone
        rw [hnone] at hc
        rw [List.length_append, List.length_singleton]
        rcases List.mem_append.mp hc with hc | hc
        · exact Nat.lt_succ_of_lt (hacc c hc)
        · obtain rfl := List.mem_singleton.mp hc
          exact Nat.lt_succ_self _
  exact hfold keys ([], []) fun c hc => absurd hc List.not_mem_nil

/-- What `__init__` returns over a layout that was built is as the results below need it. -/
theorem init_built {T : PrimeTest} {layerIds numEmbeddings : List Nat}
    {maxNgramSize nHeads headDim engramVocabSize padId compressedVocabSize : Nat} {keys : List String}
    {rng : Rng} {mmPadShift : Int} {two_le : 2 ≤ maxNgramSize} {H : Hasher} (hv : 1 ≤ engramVocabSize)
    (h : Hasher.init (EngramLayout.build T layerIds numEmbeddings maxNgramSize nHeads headDim engramVocabSize)
      two_le keys padId compressedVocabSize rng mmPadShift = some H) :
    H.Built compressedVocabSize
      (EngramLayout.build T layerIds numEmbeddings maxNgramSize nHeads headDim engramVocabSize).primes := by
  unfold Hasher.init at h
  dsimp only at h
  split at h
  · cases h
  · rename_i hok
    obtain rfl := Option.some.inj h
    push Not at hok
    obtain ⟨hsize, hpad, hfits, -⟩ := hok
    have hin (c : Nat) (hc : c ∈ (buildCompressedTokenMap keys).1) : InVocab compressedVocabSize c := by
      have hlt := buildCompressedTokenMap_lt keys c hc
      exact ⟨by omega, by omega, hfits c hc⟩
    have hat (i : Nat) (hi : i < (buildCompressedTokenMap keys).1.length) :
        InVocab compressedVocabSize ((buildCompressedTokenMap keys).1.getD i 0 : Nat) := by
      rw [List.getD_eq_getElem _ _ hi]
      exact hin _ (List.getElem_mem hi)
    refine ⟨fun token => ?_, hat padId hpad, hsize ▸ drawn_compute rng _ _ _, rfl, rfl, build_shape, ?_⟩
    · show InVocab compressedVocabSize (gather _ token)
      unfold gather
      rcases Nat.lt_or_ge (if token < 0 then token + (buildCompressedTokenMap keys).1.length
        else token).toNat (buildCompressedTokenMap keys).1.length with hi | hi
      · exact hat _ hi
      · rw [List.getD_eq_default _ _ hi]
        have hzero := hat padId hpad
        obtain ⟨h0, hlt, -⟩ := hzero
        exact ⟨by omega, by omega, by decide⟩
    · intro layer hlayer p hp
      exact build_prime hv (List.mem_flatten.mpr ⟨_, List.mem_map_of_mem hlayer, hp⟩)

/-! ## The parts of an id -/

theorem ofInt_nonneg {x : Int} (h0 : 0 ≤ x) (h1 : x ≤ maxLong) : 0 ≤ (BitVec.ofInt 64 x).toInt := by
  have h : (BitVec.ofInt 64 x).toInt = x := toInt64_of_fits (by omega) h1
  omega

theorem msb_eq_false_iff {x : BitVec 64} : x.msb = false ↔ 0 ≤ x.toInt := by
  rw [BitVec.msb_eq_toInt, decide_eq_false_iff_not]
  omega

/-- XOR keeps the sign bit clear. -/
theorem xor_nonneg {xs : List (BitVec 64)} (h : ∀ x ∈ xs, 0 ≤ x.toInt) {acc : BitVec 64}
    (hacc : 0 ≤ acc.toInt) : 0 ≤ (xs.foldl (· ^^^ ·) acc).toInt := by
  induction xs generalizing acc with
  | nil => exact hacc
  | cons x xs ih =>
    refine ih (fun y hy => h y (List.mem_cons_of_mem x hy)) (msb_eq_false_iff.mp ?_)
    have hx := msb_eq_false_iff.mpr (h x List.mem_cons_self)
    simp [BitVec.msb_xor, hx, msb_eq_false_iff.mpr hacc]

/-- A bucket is a residue of its prime. -/
theorem rollingHashes_bounded {products : List (BitVec 64)} {primes : List (List Int)}
    (hlen : products.length = primes.length + 1) (hpos : ∀ ps ∈ primes, ∀ p ∈ ps, 0 < p) :
    List.Forall₂ (fun hash p => 0 ≤ hash ∧ hash < p) (rollingHashes products primes) primes.flatten := by
  have hbuckets (rolling : BitVec 64) {ps : List Int} (hps : ∀ p ∈ ps, 0 < p) :
      List.Forall₂ (fun hash p => 0 ≤ hash ∧ hash < p) (ps.map fun p => rolling.toInt.fmod p) ps := by
    rw [List.forall₂_map_left_iff, List.forall₂_same]
    exact fun p hp => ⟨Int.fmod_nonneg_of_pos _ (hps p hp), Int.fmod_lt_of_pos _ (hps p hp)⟩
  have hall : ∀ (rs : List (BitVec 64)) (primes : List (List Int)), rs.length = primes.length →
      (∀ ps ∈ primes, ∀ p ∈ ps, 0 < p) →
      List.Forall₂ (fun hash p => 0 ≤ hash ∧ hash < p)
        (List.zipWith (fun rolling ps => ps.map fun p : Int => rolling.toInt.fmod p) rs primes).flatten
        primes.flatten := by
    intro rs
    induction rs with
    | nil =>
      intro primes hlen _
      obtain rfl := List.length_eq_zero_iff.mp hlen.symm
      exact List.Forall₂.nil
    | cons r rs ih =>
      intro primes hlen hpos
      cases primes with
      | nil => cases hlen
      | cons ps primes =>
        rw [List.zipWith_cons_cons, List.flatten_cons, List.flatten_cons]
        exact List.rel_append (hbuckets r (hpos ps List.mem_cons_self))
          (ih primes (by simpa using hlen) fun qs hqs => hpos qs (List.mem_cons_of_mem ps hqs))
  cases products with
  | nil => cases hlen
  | cons p rest => exact hall _ primes (by simpa using hlen) hpos

/-- Running sums that fit are the sums. -/
theorem cumsum_getElem? {xs : List Nat} {acc : Nat} (hfit : ((acc + xs.sum : Nat) : Int) ≤ maxLong) {c : Nat}
    (hc : c < xs.length) :
    (cumsum acc (xs.map Nat.cast))[c]? = some ((acc + (xs.take (c + 1)).sum : Nat) : Int) := by
  induction xs generalizing acc c with
  | nil => cases hc
  | cons x xs ih =>
    rw [List.sum_cons] at hfit
    have hstep : toInt64 ((acc : Int) + (x : Nat)) = ((acc + x : Nat) : Int) := by
      rw [toInt64_of_fits (by omega) (by omega)]
      omega
    rw [List.map_cons, cumsum, hstep]
    cases c with
    | zero => simp
    | succ c =>
      rw [List.getElem?_cons_succ, ih (by omega) (by simpa using hc)]
      simp [Nat.add_assoc]

/-- A column starts where the columns before it end. -/
theorem layerOffsets_getElem? {sizes : List Nat} (hfit : ((sizes.sum : Nat) : Int) ≤ maxLong) {c : Nat}
    (hc : c < sizes.length) : (layerOffsets sizes)[c]? = some (((sizes.take c).sum : Nat) : Int) := by
  have hne : sizes ≠ [] := List.ne_nil_of_length_pos (by omega)
  have hlast : sizes.dropLast.sum ≤ sizes.sum := by
    have h := congrArg List.sum (List.dropLast_append_getLast hne)
    rw [List.sum_append] at h
    omega
  have hsum : ((0 + (0 :: sizes.dropLast).sum : Nat) : Int) ≤ maxLong := by
    rw [List.sum_cons]
    omega
  have hcum := @cumsum_getElem? (0 :: sizes.dropLast) 0 hsum c (by simp; omega)
  rw [List.map_cons] at hcum
  unfold layerOffsets
  have htake : ((0 :: sizes.dropLast).take (c + 1)).sum = (sizes.take c).sum := by
    rw [List.take_succ_cons, List.sum_cons, Nat.zero_add, List.dropLast_eq_take, List.take_take,
      Nat.min_eq_left (by omega)]
  rw [htake] at hcum
  simpa using hcum

/-! ## The ids of a layer -/

section Layer
variable {H : Hasher} {vocabSize : Nat} {layers : List (List (List Nat))}

/-- Where column `c` starts. -/
def columnStart (layer : List (List Nat)) (c : Nat) : Nat := ((columns layer).take c).sum

theorem columnStart_succ {layer : List (List Nat)} {c p : Nat} (hp : (columns layer)[c]? = some p) :
    columnStart layer (c + 1) = columnStart layer c + p := by
  obtain ⟨hc, hget⟩ := List.getElem?_eq_some_iff.mp hp
  unfold columnStart
  rw [List.sum_take_succ _ _ hc, hget]

theorem columnStart_mono {layer : List (List Nat)} {c c' : Nat} (h : c ≤ c') :
    columnStart layer c ≤ columnStart layer c' :=
  (List.Sublist.sum_le_sum (List.take_sublist_take_left h) fun _ _ => Nat.zero_le _)

theorem columnStart_le (layer : List (List Nat)) (c : Nat) : columnStart layer c ≤ (columns layer).sum :=
  (List.Sublist.sum_le_sum (List.take_sublist c _) fun _ _ => Nat.zero_le _)

theorem Hasher.Built.hashes (hB : H.Built vocabSize layers) {l : Nat} {ms : List Int} {layer : List (List Nat)}
    (hms : H.multipliers[l]? = some ms) (hlayer : layers[l]? = some layer) (compressed : List Int) :
    (hashCompressed H compressed)[l]? =
      some (List.zipWith (fun hash offset => toInt64 (hash + offset))
        (rollingHashes (List.zipWith (fun c m => BitVec.ofInt 64 (c * m)) compressed ms)
          (layer.map fun sizes => sizes.map Nat.cast)) (layerOffsets (columns layer))) := by
  have hprimes : H.primes[l]? = some (layer.map fun sizes => sizes.map Nat.cast) := by
    rw [hB.primes, List.getElem?_map, hlayer]
    rfl
  have hoffsets : H.offsets[l]? = some (layerOffsets (columns layer)) := by
    rw [hB.offsets, List.getElem?_map, hlayer]
    rfl
  have hzip : (H.multipliers.zip (H.primes.zip H.offsets))[l]? =
      some (ms, layer.map fun sizes => sizes.map Nat.cast, layerOffsets (columns layer)) :=
    List.getElem?_zip_eq_some.mpr ⟨hms, List.getElem?_zip_eq_some.mpr ⟨hprimes, hoffsets⟩⟩
  unfold hashCompressed
  rw [List.getElem?_map, hzip]
  rfl

theorem layerOffsets_length (sizes : List Nat) (hne : sizes ≠ []) :
    (layerOffsets sizes).length = sizes.length := by
  have hcum : ∀ (xs : List Int) (acc : Int), (cumsum acc xs).length = xs.length := by
    intro xs
    induction xs with
    | nil => exact fun _ => rfl
    | cons x xs ih => exact fun acc => congrArg Nat.succ (ih _)
  have hpos := List.length_pos_iff.mpr hne
  unfold layerOffsets
  rw [hcum, List.length_cons, List.length_map, List.length_dropLast]
  omega

/-- The ids of a layer: in each column, from its offset on, below the next. -/
theorem Hasher.Built.layer_ids (hB : H.Built vocabSize layers) {l : Nat} {ms : List Int}
    {layer : List (List Nat)} (hms : H.multipliers[l]? = some ms) (hlayer : layers[l]? = some layer)
    (hfit : (((columns layer).sum : Nat) : Int) ≤ maxLong) (tokens : Nat → Int) (blocked : Nat → Bool) :
    ∃ ids, (computeEngramHashIds H tokens blocked)[l]? = some ids ∧
      ids.length = (columns layer).length ∧
      ∀ c id, ids[c]? = some id → ∃ p : Nat, (columns layer)[c]? = some p ∧
        (layerOffsets (columns layer))[c]? = some (columnStart layer c : Int) ∧
        (columnStart layer c : Int) ≤ id ∧ id < columnStart layer c + p := by
  have hmem : layer ∈ layers := List.mem_of_getElem? hlayer
  have hdrawn := (hB.multipliers ms (List.mem_of_getElem? hms)).1
  refine ⟨_, hB.hashes hms hlayer _, ?_⟩
  have hbounded := @rollingHashes_bounded
    (List.zipWith (fun c m => BitVec.ofInt 64 (c * m)) ((List.range H.maxNgramSize).map fun s =>
      if blocked s then H.padId else H.tokenMap (tokens s)) ms)
    (layer.map fun sizes => sizes.map Nat.cast)
    (by
      have htwo := H.two_le
      rw [List.length_zipWith, List.length_map, List.length_range, hdrawn, List.length_map,
        hB.shape layer hmem]
      omega)
    (by
      intro ps hps p hp
      obtain ⟨sizes, hsizes, rfl⟩ := List.mem_map.mp hps
      obtain ⟨q, hq, rfl⟩ := List.mem_map.mp hp
      have hprime := hB.prime layer hmem q (List.mem_flatten.mpr ⟨sizes, hsizes, hq⟩)
      exact_mod_cast hprime.pos)
  rw [← List.map_flatten] at hbounded
  generalize rollingHashes _ _ = hashes at hbounded ⊢
  have hhashes : hashes.length = (columns layer).length := by
    rw [hbounded.length_eq, List.length_map]
    rfl
  refine ⟨?_, fun c id hid => ?_⟩
  · rw [List.length_zipWith, hhashes]
    by_cases hne : columns layer = []
    · simp [hne]
    · rw [layerOffsets_length _ hne, Nat.min_self]
  · obtain ⟨hash, offset, hhash, hoffset, rfl⟩ := List.getElem?_zipWith_eq_some.mp hid
    have hc : c < (columns layer).length := by
      rw [← hhashes]
      exact (List.getElem?_eq_some_iff.mp hhash).1
    have hstart := layerOffsets_getElem? hfit hc
    obtain rfl : offset = _ := Option.some.inj (hoffset.symm.trans hstart)
    have hp : (columns layer)[c]? = some (columns layer)[c] := List.getElem?_eq_getElem hc
    have hrange : 0 ≤ hash ∧ hash < (((columns layer)[c] : Nat) : Int) := by
      have hget := hbounded.get (i := c) (by omega) (by rw [List.length_map]; exact hc)
      simp only [List.get_eq_getElem, List.getElem_map, (List.getElem?_eq_some_iff.mp hhash).2] at hget
      exact hget
    have hnext := columnStart_succ hp
    have hle := columnStart_le layer (c + 1)
    refine ⟨_, hp, hstart, ?_⟩
    change (columnStart layer c : Int) ≤ toInt64 (hash + columnStart layer c) ∧
      toInt64 (hash + columnStart layer c) < columnStart layer c + ((columns layer)[c] : Nat)
    rw [toInt64_of_fits (by omega) (by omega)]
    omega

/-- The columns before the table's end, one after the other. -/
theorem columnStart_disjoint {layer : List (List Nat)} {c c' p : Nat} (hp : (columns layer)[c]? = some p)
    (hlt : c < c') : columnStart layer c + p ≤ columnStart layer c' := by
  rw [← columnStart_succ hp]
  exact columnStart_mono hlt

end Layer

/-! ## Headline -/

/-- An id that some window gets in layer `l`. -/
def LayerId (H : Hasher) (l : Nat) (id : Int) : Prop :=
  ∃ tokens blocked ids, (computeEngramHashIds H tokens blocked)[l]? = some ids ∧ id ∈ ids

theorem Hasher.Built.layerId_lt {H : Hasher} {vocabSize : Nat} {layers : List (List (List Nat))}
    (hB : H.Built vocabSize layers) {l : Nat} {ms : List Int} {layer : List (List Nat)}
    (hms : H.multipliers[l]? = some ms) (hlayer : layers[l]? = some layer)
    (hfit : (((columns layer).sum : Nat) : Int) ≤ maxLong) {id : Int} (h : LayerId H l id) :
    0 ≤ id ∧ id < (columns layer).sum := by
  obtain ⟨tokens, blocked, ids, hids, hid⟩ := h
  obtain ⟨ids', hids', -, hrange⟩ := hB.layer_ids hms hlayer hfit tokens blocked
  obtain rfl : ids = ids' := Option.some.inj (hids.symm.trans hids')
  obtain ⟨c, hc⟩ := List.mem_iff_getElem?.mp hid
  obtain ⟨p, hp, -, hle, hlt⟩ := hrange c id hc
  have hnext := columnStart_succ hp
  have htotal := columnStart_le layer (c + 1)
  omega

/-- **Hash ids stay in their columns' ranges**, for every window and whatever odd multipliers
the RNG gave, when the primes of a layer sum to less than `2^63`: no product wraps, no XOR
of products is negative, an id of column `c` is in `[offset_c, offset_c + prime_c)`, the
ranges are disjoint and end at the sum, and a table with that many rows is never asked for
a row it does not have. -/
theorem hashIds_in_range {H : Hasher} {vocabSize : Nat} {layers : List (List (List Nat))}
    (hvocab : 1 ≤ vocabSize) (hB : H.Built vocabSize layers)
    (hfit : ∀ layer ∈ layers, (((columns layer).sum : Nat) : Int) ≤ maxLong) :
    (∀ c v, InVocab vocabSize c → 0 ≤ v → v < multiplierBound vocabSize →
      0 ≤ c * (2 * v + 1) ∧ c * (2 * v + 1) ≤ maxLong) ∧
    (∀ products : List (BitVec 64),
      (∀ x ∈ products, ∃ c v, InVocab vocabSize c ∧ 0 ≤ v ∧ v < multiplierBound vocabSize ∧
        x = BitVec.ofInt 64 (c * (2 * v + 1))) → 0 ≤ (products.foldl (· ^^^ ·) 0).toInt) ∧
    ∀ l ms layer, H.multipliers[l]? = some ms → layers[l]? = some layer →
      (∀ tokens blocked, ∃ ids, (computeEngramHashIds H tokens blocked)[l]? = some ids ∧
        ids.length = (columns layer).length ∧
        ∀ c id, ids[c]? = some id → ∃ p : Nat, (columns layer)[c]? = some p ∧
          (layerOffsets (columns layer))[c]? = some (columnStart layer c : Int) ∧
          (columnStart layer c : Int) ≤ id ∧ id < columnStart layer c + p) ∧
      (∀ c c' p, c < c' → (columns layer)[c]? = some p → columnStart layer c + p ≤ columnStart layer c') ∧
      (∀ id, LayerId H l id → id < (columns layer).sum) ∧
      ∀ (s : Store) (pool : Bool) (σ₀ σ : State) (ls : List Label), (columns layer).sum ≤ s.rows →
        (lookups s pool).init σ₀ → (lookups s pool).Run σ₀ ls σ →
        (∀ ids weights scales, .lookup ids weights scales ∈ ls → ∀ id ∈ ids, LayerId H l id) →
        σ.failed ≠ some "row ID out of bounds" := by
  refine ⟨fun c v hc h0 hv => mul_multiplier_bounded hvocab hc h0 hv, fun products hproducts => ?_, ?_⟩
  · refine xor_nonneg (fun x hx => ?_) (by decide)
    obtain ⟨c, v, hc, h0, hv, rfl⟩ := hproducts x hx
    obtain ⟨hnonneg, hle⟩ := mul_multiplier_bounded hvocab hc h0 hv
    exact ofInt_nonneg hnonneg hle
  · intro l ms layer hms hlayer
    have hsum := hfit layer (List.mem_of_getElem? hlayer)
    refine ⟨hB.layer_ids hms hlayer hsum, fun c c' p hlt hp => columnStart_disjoint hp hlt,
      fun id hid => (hB.layerId_lt hms hlayer hsum hid).2, ?_⟩
    intro s pool σ₀ σ ls hrows hinit hrun hids
    have hgood : GoodIds s σ₀ := by
      obtain rfl : σ₀ = _ := hinit
      exact ⟨by simp, by simp⟩
    refine (goodIds_run hrun hgood fun ids weights scales hmem id hid hbad => ?_).served
    have hrange := hB.layerId_lt hms hlayer hsum (hids ids weights scales hmem id hid)
    unfold BadId at hbad
    omega

/-! ## Two columns -/

/-- Bigrams of a vocabulary of two, with two heads; look-back 1 is multiplied by 1. -/
def bigrams (m : Int) (p q : Nat) : Hasher where
  maxNgramSize := 2
  two_le := Nat.le_refl 2
  padId := 0
  tokenMap token := if token = 1 then 1 else 0
  multipliers := [[m, 1]]
  primes := [[[p, q]]]
  offsets := [layerOffsets [p, q]]
  imageTokenId := none
  image_fits _ h := nomatch h
  mmPadShift := 0
  padRow := 0

theorem inVocab_two {c : Int} (h : c = 0 ∨ c = 1) : InVocab 2 c := by
  rcases h with rfl | rfl
  · exact ⟨by decide, by decide, by decide⟩
  · exact ⟨by decide, by decide, by decide⟩

theorem bigrams_built {v : Int} {p q : Nat} (h0 : 0 ≤ v) (hv : v < multiplierBound 2) (hp : p.Prime)
    (hq : q.Prime) : (bigrams (2 * v + 1) p q).Built 2 [[[p, q]]] where
  tokenMap token := by
    refine inVocab_two ?_
    show (if token = 1 then 1 else 0) = _ ∨ (if token = 1 then 1 else 0) = _
    split
    · exact Or.inr rfl
    · exact Or.inl rfl
  padId := inVocab_two (Or.inl rfl)
  multipliers := by
    intro ms hms
    obtain rfl := List.mem_singleton.mp hms
    refine ⟨rfl, fun m hm => ?_⟩
    rcases List.mem_pair.mp hm with rfl | rfl
    · exact ⟨v, h0, hv, rfl⟩
    · exact ⟨0, Int.le_refl 0, multiplierBound_pos 2, rfl⟩
  primes := rfl
  offsets := rfl
  shape := by simp [bigrams]
  prime := by simp [columns, hp, hq]

/-- Columns of 2 and 3 rows. -/
theorem bigrams_in_range :
    1 ≤ 2 ∧ (∀ layer ∈ [[[2, 3]]], (((columns layer).sum : Nat) : Int) ≤ maxLong) ∧
      ∀ id, LayerId (bigrams 5 2 3) 0 id → id < 5 := by
  have hfit : ∀ layer ∈ [[[2, 3]]], (((columns layer).sum : Nat) : Int) ≤ maxLong := by decide
  have hB : (bigrams 5 2 3).Built 2 [[[2, 3]]] :=
    @bigrams_built 2 2 3 (by decide) (by decide) Nat.prime_two Nat.prime_three
  exact ⟨by decide, hfit, ((hashIds_in_range (by decide) hB hfit).2.2 0 [5, 1] [[2, 3]] rfl rfl).2.2.1⟩

/-- `2^5 * 3^36 + 1`. -/
theorem prime_4803 : Nat.Prime 4803028329503971873 := by
  apply lucas_primality _ (5 : ZMod 4803028329503971873)
  · reduce_mod_char
  · intro q hq hdvd
    have hdvd : q ∣ 2 ^ 5 * 3 ^ 36 := by simpa using hdvd
    rcases (Nat.Prime.dvd_mul hq).mp hdvd with h | h
    · obtain rfl := (Nat.prime_dvd_prime_iff_eq hq Nat.prime_two).mp (hq.dvd_of_dvd_pow h)
      reduce_mod_char
      decide
    · obtain rfl := (Nat.prime_dvd_prime_iff_eq hq Nat.prime_three).mp (hq.dvd_of_dvd_pow h)
      reduce_mod_char
      decide

/-- `2^53 * 3^6 + 1`. -/
theorem prime_6566 : Nat.Prime 6566248256706183169 := by
  apply lucas_primality _ (7 : ZMod 6566248256706183169)
  · reduce_mod_char
  · intro q hq hdvd
    have hdvd : q ∣ 2 ^ 53 * 3 ^ 6 := by simpa using hdvd
    rcases (Nat.Prime.dvd_mul hq).mp hdvd with h | h
    · obtain rfl := (Nat.prime_dvd_prime_iff_eq hq Nat.prime_two).mp (hq.dvd_of_dvd_pow h)
      reduce_mod_char
      decide
    · obtain rfl := (Nat.prime_dvd_prime_iff_eq hq Nat.prime_three).mp (hq.dvd_of_dvd_pow h)
      reduce_mod_char
      decide

/-- Two columns that no `int64` table can hold: the id of the second wraps. -/
theorem offset_wraps :
    (bigrams 4611686018427387901 4803028329503971873 6566248256706183169).Built 2
        [[[4803028329503971873, 6566248256706183169]]] ∧
      ∃ (ids : List Int) (id : Int),
        (computeEngramHashIds (bigrams 4611686018427387901 4803028329503971873 6566248256706183169)
          (fun s => if s = 0 then 1 else 0) fun _ => false)[0]? = some ids ∧
        ids[1]? = some id ∧ id < columnStart [[4803028329503971873, 6566248256706183169]] 1 ∧ id < 0 :=
  ⟨@bigrams_built 2305843009213693950 _ _ (by decide) (by decide) prime_4803 prime_6566,
    [4611686018427387901, -9032029725778191842], -9032029725778191842, by decide, rfl, by decide, by decide⟩

end FlashSpark.L3.Engram
