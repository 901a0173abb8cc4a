import FlashSpark.Core.Tensor

/-!
# Engram hash ids of one token

A token's hash ids come from the window of the token and its `n - 1`
predecessors: each compressed through `token_map` (or PAD), multiplied, and
rolled together by XOR one look-back at a time (`hashCompressed`).

* `rowHashIds`: the ids of one row of the predecessor table, with the masks of
  `_torch_hash_ids` (positions, images).
* `specHash`: the ids of position `p` of a whole stream.
* `rowHashIds_eq_spec`: they agree when the row spells the token and its true
  predecessors, as far as the position reaches.
-/
namespace FlashSpark.L3.Engram

/-- `[n_engram_layers][(n - 1) * n_heads]`. -/
abbrev HashIds := List (List Int)

/-- Token ids, multimodal pad ids included, are 31 bits wide. -/
def Fits32 (token : Int) : Prop := 0 ≤ token ∧ token < 2 ^ 31

/-- mirrors the fields of `EngramHasher` that hashing reads. -/
structure Hasher where
  maxNgramSize : Nat
  two_le : 2 ≤ maxNgramSize
  padId : Int
  tokenMap : Int → Int
  multipliers : List (List Int)
  primes : List (List (List Int))
  offsets : List (List Int)
  imageTokenId : Option Int
  image_fits : ∀ image, imageTokenId = some image → Fits32 image
  /-- `MM_PAD_SHIFT_VALUE`: ids from here on are multimodal pad ids. -/
  mmPadShift : Int
  padRow : Nat

/-! ## The hash -/

/-- One layer: after step `i` the running XOR is the `(i + 1)`-gram hash, bucketed
by the primes of that n-gram size. -/
def rollingHashes (products : List (BitVec 64)) (primes : List (List Int)) : List Int :=
  match products with
  | [] => []
  | p :: rest =>
    (List.zipWith (fun rolling ps => ps.map fun prime => rolling.toInt.fmod prime)
      (rest.scanl (· ^^^ ·) p).tail primes).flatten

/-- An `int64`: sums and products wrap. -/
def toInt64 (x : Int) : Int := (BitVec.ofInt 64 x).toInt

/-- mirrors compact-measured.patch:515-522 on one token's compressed window. -/
def hashCompressed (H : Hasher) (compressed : List Int) : HashIds :=
  (H.multipliers.zip (H.primes.zip H.offsets)).map fun (multipliers, primes, offsets) =>
    let products := List.zipWith (fun c m => BitVec.ofInt 64 (c * m)) compressed multipliers
    List.zipWith (fun hash offset => toInt64 (hash + offset)) (rollingHashes products primes) offsets

/-- mirrors compact-measured.patch:502-522 (`compute_engram_hash_ids`), one token:
`tokens s` is its `s`-th predecessor. -/
def computeEngramHashIds (H : Hasher) (tokens : Nat → Int) (blocked : Nat → Bool) : HashIds :=
  hashCompressed H ((List.range H.maxNgramSize).map fun s =>
    if blocked s then H.padId else H.tokenMap (tokens s))

/-- `tokens.masked_fill(tokens >= MM_PAD_SHIFT_VALUE, image_token_id)`. -/
def Hasher.fillImages (H : Hasher) (token : Int) : Int :=
  match H.imageTokenId with
  | none => token
  | some image => if H.mmPadShift ≤ token then image else token

/-- The mask after the image rule: once a look-back hits an image, it and every
older predecessor are PAD (`cummax`). -/
def Hasher.blockImages (H : Hasher) (tokens : Nat → Int) (blocked : Nat → Bool) (s : Nat) : Bool :=
  match H.imageTokenId with
  | none => blocked s
  | some image => (List.range (s + 1)).any fun k => blocked k || H.fillImages (tokens k) == image

/-- mirrors compact-measured.patch:750-768, one row: `real` is false past `num_real`. -/
def rowHashIds (H : Hasher) (real : Bool) (position : Int) (tokens : Nat → Int) : HashIds :=
  computeEngramHashIds H (fun s => H.fillImages (tokens s))
    (H.blockImages tokens fun s => !real || decide (position < s))

/-- The ids of a window that is PAD throughout. -/
def padHashIds (H : Hasher) : HashIds := hashCompressed H (List.replicate H.maxNgramSize H.padId)

/-! ## The whole stream -/

/-- An image token goes by `image_token_id` or by a multimodal pad id. -/
def Hasher.isImage (H : Hasher) (token : Int) : Bool :=
  match H.imageTokenId with
  | none => false
  | some image => decide (H.mmPadShift ≤ token) || token == image

/-- Look-back `s` from position `p` runs off the start, or reaches an image. -/
def Hasher.specBlocked (H : Hasher) (stream : List Int) (p s : Nat) : Bool :=
  decide (p < s) || (List.range (s + 1)).any fun k => H.isImage (stream.getD (p - k) 0)

/-- The ids of the token at position `p` from it and its true predecessors. -/
def specHash (H : Hasher) (stream : List Int) (p : Nat) : HashIds :=
  hashCompressed H ((List.range H.maxNgramSize).map fun s =>
    if H.specBlocked stream p s then H.padId else H.tokenMap (stream.getD (p - s) 0))

/-- Only positions up to `p` matter. -/
theorem specHash_congr {H : Hasher} {stream stream' : List Int} {p : Nat}
    (h : ∀ q, q ≤ p → stream.getD q 0 = stream'.getD q 0) :
    specHash H stream p = specHash H stream' p := by
  have hk : ∀ k, stream.getD (p - k) 0 = stream'.getD (p - k) 0 := fun k => h _ (Nat.sub_le p k)
  have hblocked : ∀ s, H.specBlocked stream p s = H.specBlocked stream' p s := fun s => by
    simp only [Hasher.specBlocked, hk]
  unfold specHash
  congr 1
  refine List.map_congr_left fun s _ => ?_
  rw [hblocked s, hk s]

theorem specHash_append {H : Hasher} {stream more : List Int} {p : Nat} (hp : p < stream.length) :
    specHash H (stream ++ more) p = specHash H stream p := by
  refine specHash_congr fun q hq => ?_
  rw [List.getD_append _ _ _ _ (by omega)]

/-! ## Spelling -/

/-- `t` stands for `token`: itself, or `image_token_id` for a multimodal pad id. -/
def Hasher.Spells (H : Hasher) (t token : Int) : Prop :=
  t = token ∨ H.mmPadShift ≤ token ∧ H.imageTokenId = some t

theorem spells_refl (H : Hasher) (token : Int) : H.Spells token token := .inl rfl

theorem spells_fillImages {H : Hasher} {t token : Int} (h : H.Spells t token) :
    H.Spells (H.fillImages t) token := by
  unfold Hasher.fillImages
  cases him : H.imageTokenId with
  | none => exact h
  | some image =>
    dsimp only
    split
    · rename_i hpad
      rcases h with rfl | ⟨hpad', -⟩
      · exact .inr ⟨hpad, him⟩
      · exact .inr ⟨hpad', him⟩
    · exact h

/-- Text tokens have one spelling. -/
theorem spells_text {H : Hasher} {t token : Int} (h : H.Spells t token)
    (hi : H.isImage token = false) : t = token := by
  rcases h with rfl | ⟨hpad, him⟩
  · rfl
  · simp [Hasher.isImage, him, hpad] at hi

theorem fillImages_text {H : Hasher} {token : Int} (hi : H.isImage token = false) :
    H.fillImages token = token := by
  unfold Hasher.fillImages
  cases him : H.imageTokenId with
  | none => rfl
  | some image =>
    simp only [Hasher.isImage, him, Bool.or_eq_false_iff, decide_eq_false_iff_not] at hi
    exact if_neg hi.1

theorem fillImages_eq_image {H : Hasher} {t token image : Int} (h : H.Spells t token)
    (him : H.imageTokenId = some image) : H.fillImages t = image ↔ H.isImage token = true := by
  simp only [Hasher.fillImages, Hasher.isImage, him, Bool.or_eq_true, decide_eq_true_eq,
    beq_iff_eq]
  rcases h with rfl | ⟨hpad, ht⟩
  · by_cases hp : H.mmPadShift ≤ t <;> simp [hp]
  · obtain rfl := Option.some.inj (him.symm.trans ht)
    simp [hpad]

/-! ## A row that spells its predecessors -/

/-- `tokens s` spells the `s`-th predecessor of position `p`, where it exists. -/
def Hasher.SpellsAt (H : Hasher) (tokens : Nat → Int) (stream : List Int) (p : Nat) : Prop :=
  ∀ s, s < H.maxNgramSize → s ≤ p → H.Spells (tokens s) (stream.getD (p - s) 0)

theorem blockImages_eq_spec {H : Hasher} {tokens : Nat → Int} {stream : List Int} {p s : Nat}
    (h : H.SpellsAt tokens stream p) (hs : s < H.maxNgramSize) :
    H.blockImages tokens (fun s => !true || decide ((p : Int) < s)) s = H.specBlocked stream p s := by
  rw [Bool.eq_iff_iff]
  cases him : H.imageTokenId with
  | none => simp [Hasher.blockImages, Hasher.specBlocked, Hasher.isImage, him]
  | some image =>
    simp only [Hasher.blockImages, him, Hasher.specBlocked, Bool.not_true, Bool.false_or,
      List.any_eq_true, List.mem_range, Bool.or_eq_true, decide_eq_true_eq, beq_iff_eq]
    constructor
    · rintro ⟨k, hk, hoff | himg⟩
      · exact .inl (by omega)
      · by_cases hkp : k ≤ p
        · exact .inr ⟨k, hk, (fillImages_eq_image (h k (by omega) hkp) him).mp himg⟩
        · exact .inl (by omega)
    · rintro (hoff | ⟨k, hk, himg⟩)
      · exact ⟨s, by omega, .inl (by omega)⟩
      · by_cases hkp : k ≤ p
        · exact ⟨k, hk, .inr ((fillImages_eq_image (h k (by omega) hkp) him).mpr himg)⟩
        · exact ⟨k, hk, .inl (by omega)⟩

/-- The ids of a row are those of its position in the stream it spells. -/
theorem rowHashIds_eq_spec {H : Hasher} {tokens : Nat → Int} {stream : List Int} {p : Nat}
    (h : H.SpellsAt tokens stream p) : rowHashIds H true p tokens = specHash H stream p := by
  unfold rowHashIds computeEngramHashIds specHash
  congr 1
  refine List.map_congr_left fun s hs => ?_
  have hs : s < H.maxNgramSize := List.mem_range.mp hs
  rw [blockImages_eq_spec h hs]
  split
  · rfl
  · rename_i hopen
    -- nothing at or before this look-back is an image, nor off the start
    simp only [Hasher.specBlocked, Bool.not_eq_true, Bool.or_eq_false_iff,
      decide_eq_false_iff_not, List.any_eq_false, List.mem_range] at hopen
    have htext : H.isImage (stream.getD (p - s) 0) = false := by
      simpa using hopen.2 s (Nat.lt_succ_self s)
    show H.tokenMap (H.fillImages (tokens s)) = _
    rw [spells_text (h s hs (by omega)) htext, fillImages_text htext]

/-- Only the first `n` entries of a row matter. -/
theorem rowHashIds_congr {H : Hasher} {real : Bool} {position : Int} {tokens tokens' : Nat → Int}
    (h : ∀ s, s < H.maxNgramSize → tokens s = tokens' s) :
    rowHashIds H real position tokens = rowHashIds H real position tokens' := by
  unfold rowHashIds computeEngramHashIds
  congr 1
  refine List.map_congr_left fun s hs => ?_
  have hs : s < H.maxNgramSize := List.mem_range.mp hs
  have hblock : ∀ blocked, H.blockImages tokens blocked s = H.blockImages tokens' blocked s := by
    intro blocked
    unfold Hasher.blockImages
    split
    · rfl
    · rw [Bool.eq_iff_iff]
      simp only [List.any_eq_true, List.mem_range]
      refine exists_congr fun k => and_congr_right fun hk => ?_
      rw [h k (by omega)]
  dsimp only
  rw [hblock, h s hs]

/-- A row before every position is PAD throughout. -/
theorem rowHashIds_ghost (H : Hasher) (real : Bool) (tokens : Nat → Int) :
    rowHashIds H real (-1) tokens = padHashIds H := by
  have hblocked : ∀ s, H.blockImages tokens (fun s => !real || decide ((-1 : Int) < s)) s = true := by
    intro s
    unfold Hasher.blockImages
    split
    · simp; omega
    · simp only [List.any_eq_true, List.mem_range, Bool.or_eq_true, decide_eq_true_eq]
      exact ⟨s, Nat.lt_succ_self s, .inl (.inr (by omega))⟩
  simp only [rowHashIds, computeEngramHashIds, padHashIds, hblocked, if_true, List.map_const',
    List.length_range]

end FlashSpark.L3.Engram
