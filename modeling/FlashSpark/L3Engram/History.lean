import FlashSpark.L3Engram.EngramHasher

/-!
# What a history row holds

`forward` leaves a request's last `n - 1` tokens in its history row and
`commit_after_verify` appends the accepted ones; the next run looks back into it.
Lemmas about one run of one request, with `stream` the tokens before it and `vs`
the run's own.

* `run_hash`: after a row that holds the stream, a run has the ids of the stream
  with the run appended.
* `forward_holds`, `verify_holds`: what either commit makes of the row holds the
  stream so far.
-/
namespace FlashSpark.L3.Engram

/-- Entry `n - 1 - s` of `row` spells the `s`-th last token of `stream`, where it exists. -/
def Hasher.Holds (H : Hasher) (row : Nat → Int) (stream : List Int) : Prop :=
  ∀ s, 1 ≤ s → s < H.maxNgramSize → s ≤ stream.length →
    H.Spells (row (H.maxNgramSize - 1 - s)) (stream.getD (stream.length - s) 0)

theorem holds_nil (H : Hasher) (row : Nat → Int) : H.Holds row [] := by
  intro s h1 _ hs
  simp at hs
  omega

/-! ## One run -/

section OneRun
variable {H : Hasher} {row ids : Nat → Int} {stream vs : List Int}

theorem getD_length_add {l r : List Int} {i : Nat} : (l ++ r).getD (l.length + i) 0 = r.getD i 0 := by
  rw [List.getD_append_right _ _ _ _ (by omega), Nat.add_sub_cancel_left]

/-- Row `i` of a run after `stream` spells the tokens before it. -/
theorem run_spells (hrow : H.Holds row stream) (hids : ∀ j, j < vs.length → ids j = vs.getD j 0)
    {i : Nat} (hi : i < vs.length) :
    H.SpellsAt (runTokens H row ids i) (stream ++ vs) (stream.length + i) := by
  intro s hs hle
  unfold runTokens
  split
  · rename_i hsi
    rw [Nat.add_sub_assoc hsi, getD_length_add, hids _ (by omega)]
    exact spells_refl H _
  · rename_i hsi
    rw [List.getD_append _ _ _ _ (by omega)]
    have := hrow (s - i) (by omega) (by omega) (by omega)
    rwa [show stream.length - (s - i) = stream.length + i - s by omega] at this

theorem run_hash (hrow : H.Holds row stream) (hids : ∀ j, j < vs.length → ids j = vs.getD j 0)
    {i : Nat} (hi : i < vs.length) :
    rowHashIds H true ((stream.length + i : Nat) : Int) (runTokens H row ids i) =
      specHash H (stream ++ vs) (stream.length + i) :=
  rowHashIds_eq_spec (run_spells hrow hids hi)

theorem toInt32_spells {t token : Int} (h : H.Spells t token) (hfit : Fits32 token) :
    toInt32 t = t := by
  have hft : Fits32 t := by
    rcases h with rfl | ⟨-, himg⟩
    · exact hfit
    · exact H.image_fits t himg
  exact toInt32_of_fits (by have := hft.1; omega) hft.2

/-- What `forward` commits after the last row of a run. -/
theorem forward_holds (hrow : H.Holds row stream)
    (hids : ∀ j, j < vs.length → ids j = vs.getD j 0)
    (hlen : 1 ≤ vs.length) (hfit : ∀ token ∈ stream ++ vs, Fits32 token) :
    H.Holds (fun c => toInt32 (H.fillImages (runTokens H row ids (vs.length - 1)
      (H.maxNgramSize - 2 - c)))) (stream ++ vs) := by
  intro s h1 hs hle
  rw [List.length_append] at hle ⊢
  have hsp := run_spells hrow hids (i := vs.length - 1) (by omega) (s - 1) (by omega) (by omega)
  rw [show stream.length + (vs.length - 1) - (s - 1) = stream.length + vs.length - s by omega] at hsp
  have hmem : (stream ++ vs).getD (stream.length + vs.length - s) 0 ∈ stream ++ vs := by
    rw [List.getD_eq_getElem _ _ (by rw [List.length_append]; omega)]
    exact List.getElem_mem _
  dsimp only
  rw [show H.maxNgramSize - 2 - (H.maxNgramSize - 1 - s) = s - 1 by omega,
    toInt32_spells (spells_fillImages hsp) (hfit _ hmem)]
  exact spells_fillImages hsp

/-- What `commit_after_verify` makes of a row: the first `k` verify ids appended. -/
theorem verify_holds (hrow : H.Holds row stream) {verify : Nat → Int} {k : Nat} (hk : k ≤ vs.length)
    (hids : ∀ j, j < vs.length → verify j = vs.getD j 0) (hfit : ∀ token ∈ vs, Fits32 token) :
    H.Holds (fun c => if k + c < H.maxNgramSize - 1 then row (k + c)
      else toInt32 (verify (k + c - (H.maxNgramSize - 1)))) (stream ++ vs.take k) := by
  intro s h1 hs hle
  rw [List.length_append, List.length_take, Nat.min_eq_left hk] at hle ⊢
  dsimp only
  split
  · rename_i hold
    rw [List.getD_append _ _ _ _ (by omega)]
    have := hrow (s - k) (by omega) (by omega) (by omega)
    rwa [show H.maxNgramSize - 1 - (s - k) = k + (H.maxNgramSize - 1 - s) by omega,
      show stream.length - (s - k) = stream.length + k - s by omega] at this
  · rename_i hnew
    have hidx : k + (H.maxNgramSize - 1 - s) - (H.maxNgramSize - 1) = k - s := by omega
    have hget : (vs.take k).getD (k - s) 0 = vs.getD (k - s) 0 := by
      rw [List.getD_eq_getElem?_getD, List.getD_eq_getElem?_getD, List.getElem?_take,
        if_pos (by omega)]
    have hmem : vs.getD (k - s) 0 ∈ vs := by
      rw [List.getD_eq_getElem _ _ (by omega)]
      exact List.getElem_mem _
    have hfit' := hfit _ hmem
    rw [hidx, hids _ (by omega), toInt32_of_fits (by have := hfit'.1; omega) hfit'.2,
      show stream.length + k - s = stream.length + (k - s) by omega, getD_length_add, hget]
    exact spells_refl H _

end OneRun

/-! ## The record of a request's hash ids -/

/-- `hashes` are the ids of the stream's tokens from `base` on. -/
def Recorded (H : Hasher) (stream : List Int) (base : Nat) (hashes : List HashIds) : Prop :=
  base + hashes.length = stream.length ∧
    ∀ i, i < hashes.length → hashes[i]? = some (specHash H stream (base + i))

theorem Recorded.append {H : Hasher} {stream vs : List Int} {base : Nat} {hashes hs : List HashIds}
    (h : Recorded H stream base hashes) (hlen : hs.length = vs.length)
    (hhs : ∀ i, i < vs.length → hs[i]? = some (specHash H (stream ++ vs) (stream.length + i))) :
    Recorded H (stream ++ vs) base (hashes ++ hs) := by
  obtain ⟨hbase, hold⟩ := h
  refine ⟨by rw [List.length_append, List.length_append]; omega, fun i hi => ?_⟩
  rw [List.length_append] at hi
  by_cases hlt : i < hashes.length
  · rw [List.getElem?_append_left hlt, hold i hlt, specHash_append (by omega)]
  · rw [List.getElem?_append_right (by omega), hhs _ (by omega)]
    congr 2
    omega

end FlashSpark.L3.Engram
