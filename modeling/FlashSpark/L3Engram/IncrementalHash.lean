import FlashSpark.L3Engram.StreamRun

/-!
# Incremental hashing is hashing the whole stream

* `HistoryStep`: what each kind of step does to the history rows. `accept_step`:
  acceptance appends the accepted ids to the rows it serves.
* `incremental_equals_whole`: in every reachable state every committed token has
  the ids of its request's whole stream.
-/
namespace FlashSpark.L3.Engram

/-! ## What acceptance appends -/

/-- A history row, oldest first. -/
def Hasher.rowList (H : Hasher) (row : Nat → Int) : List Int :=
  (List.range (H.maxNgramSize - 1)).map row

/-- `row` is what is left of `old` with `new` appended. -/
theorem rowList_append {H : Hasher} {row old new : Nat → Int} {k : Nat}
    (h : ∀ c, c < H.maxNgramSize - 1 → row c =
      if k + c < H.maxNgramSize - 1 then old (k + c) else new (k + c - (H.maxNgramSize - 1))) :
    H.rowList row = (H.rowList old ++ (List.range k).map new).drop k := by
  apply List.ext_getElem?
  intro c
  rw [List.getElem?_drop]
  unfold Hasher.rowList
  by_cases hc : c < H.maxNgramSize - 1
  · rw [List.getElem?_map, List.getElem?_range hc, Option.map_some, h c hc]
    split
    · rename_i hold
      rw [List.getElem?_append_left (by simpa using hold), List.getElem?_map,
        List.getElem?_range hold]
      rfl
    · rename_i hnew
      rw [List.getElem?_append_right (by simp; omega), List.getElem?_map, List.length_map,
        List.length_range, List.getElem?_range (by omega)]
      rfl
  · rw [List.getElem?_eq_none (by simp; omega), List.getElem?_eq_none (by simp; omega)]

theorem take_eq_map {vs : List Int} {new : Nat → Int} {k : Nat} (hk : k ≤ vs.length)
    (h : ∀ j, j < vs.length → new j = vs.getD j 0) : vs.take k = (List.range k).map new := by
  apply List.ext_getElem?
  intro j
  rw [List.getElem?_take]
  split
  · rename_i hj
    rw [List.getElem?_map, List.getElem?_range hj, Option.map_some, h j (by omega),
      List.getD_eq_getElem _ _ (by omega), List.getElem?_eq_getElem (by omega)]
  · rename_i hj
    rw [List.getElem?_eq_none (by simp; omega)]

/-- What each kind of step does to the history rows. -/
def HistoryStep (H : Hasher) (op : Op) (s s' : State) : Prop :=
  match op with
  | .assign _ _ => s'.history = s.history
  | .forward fb _ _ live =>
    if fb.mode.commits then
      (∀ b, b < fb.batchSize → live b = true →
        H.Holds (s'.history (fb.reqPoolIndices b)) (s'.stream (fb.reqPoolIndices b))) ∧
      ∀ r, r < H.padRow → (∀ b, b < fb.batchSize → live b = true → fb.reqPoolIndices b ≠ r) →
        s'.history r = s.history r
    else s'.history = s.history
  | .commit bs _ req verifyIds commitLens =>
    (∀ b, b < bs →
      H.rowList (s'.history (req b)) = (H.rowList (s.history (req b)) ++
        (List.range (commitLens b)).map (verifyIds b)).drop (commitLens b) ∧
      s'.stream (req b) = s.stream (req b) ++ (List.range (commitLens b)).map (verifyIds b) ∧
      (1 ≤ commitLens b → H.Holds (s'.history (req b)) (s'.stream (req b)))) ∧
    ∀ r, (∀ b, b < bs → req b ≠ r) → s'.history r = s.history r

/-- Acceptance appends the accepted prefix of the verify row. -/
theorem accept_step {H : Hasher} {s : State} {bs width : Nat} {req : Nat → Nat}
    {verifyIds : Nat → Nat → Int} {commitLens : Nat → Nat} {history' : Nat → Nat → Int}
    (hi : Inv H s) (ha : Accepts H s bs width req verifyIds commitLens)
    (hcommit : commitAfterVerify H bs width req verifyIds commitLens s.history history') :
    HistoryStep H (.commit bs width req verifyIds commitLens) s
      (s.accept bs req commitLens history') := by
  refine ⟨fun b hb => ?_, fun r hr => accept_kept hcommit hr⟩
  obtain ⟨vs, hs, hk, hids, hfit, -, -, hstream, -⟩ := accept_block hi ha hb history'
  refine ⟨?_, by rw [hstream, take_eq_map hk hids], fun hpos => ?_⟩
  · refine rowList_append fun c hc => ?_
    show history' (req b) c = _
    rw [accept_row ha hcommit hb]
    dsimp only
    split
    · rfl
    · have hj : commitLens b + c - (H.maxNgramSize - 1) < vs.length := by omega
      have hmem : verifyIds b (commitLens b + c - (H.maxNgramSize - 1)) ∈ vs := by
        rw [hids _ hj, List.getD_eq_getElem _ _ hj]
        exact List.getElem_mem _
      have hfit' := hfit _ hmem
      exact toInt32_of_fits (by have := hfit'.1; omega) hfit'.2
  · obtain ⟨_, _, hp, -⟩ := (ha.verified b hb).resolve_left (by omega)
    exact accept_holds hi ha hcommit hb (hi.pending _ _ _ hp).1

/-! ## Headline -/

/-- **Incremental hashing is hashing the stream.** In every reachable state the ids
computed for a request's committed tokens are those of its whole stream, and the
row of a request that has committed holds the last `n - 1` tokens of the stream.
Extend and decode leave them there; a verify forward changes no row; and acceptance
appends exactly the accepted prefix of the verify row, to the history row and to the
stream. No step touches the row of a request it does not serve. -/
theorem incremental_equals_whole (H : Hasher) {s : State} (hs : (system H).Reachable s) :
    (∀ r, Recorded H (s.stream r) (s.base r) (s.hashes r)) ∧
    (∀ r, r < H.padRow → s.held r = true → H.Holds (s.history r) (s.stream r)) ∧
    ∀ op s', (system H).step s op s' → HistoryStep H op s s' := by
  have hi := (inv_inductive H).reachable s hs
  refine ⟨hi.recorded, hi.held, fun op s' hstep => ?_⟩
  cases op with
  | assign r cached =>
    obtain ⟨-, -, rfl⟩ := hstep
    rfl
  | forward fb ids numTokens live =>
    obtain ⟨hsv, hashes, commit, history', hfwd, hcommit, rfl⟩ := hstep
    by_cases hc : fb.mode.commits = true
    · simp only [HistoryStep, if_pos hc]
      refine ⟨fun b hb hl => ?_, (hsv.commits hc hfwd hcommit).2⟩
      simp only [State.advance, entry_eq hsv.distinct hb hl]
      exact advance_holds hi hsv hfwd hcommit hc hb hl
    · simp only [HistoryStep, if_neg hc]
      exact (draft_inv hi hsv hfwd hcommit (by simpa using hc)).1
  | commit bs width req verifyIds commitLens =>
    obtain ⟨ha, history', hcommit, rfl⟩ := hstep
    exact accept_step hi ha hcommit

/-! ## A run -/

theorem serve_forward {H : Hasher} {s : State} (hs : (system H).Reachable s) {fb : ForwardBatch}
    {ids : Nat → Int} {numTokens : Nat} {live : Nat → Bool}
    (hsv : Serves H s fb ids numTokens live) : ∃ hashes history', (system H).Reachable
      (if fb.mode.commits then s.advance fb ids live hashes history'
        else s.draft fb ids live hashes history') := by
  obtain ⟨hashes, commit, hfwd⟩ := @forward_total H fb ids numTokens hsv.wf s.history
  obtain ⟨history', hcommit⟩ : ∃ history', Commits fb.batchSize commit s.history history' := by
    cases commit with
    | none => exact ⟨_, rfl⟩
    | some rows => exact exists_scattered _ _ _ _
  exact ⟨hashes, history', hs.step (l := .forward fb ids numTokens live)
    ⟨hsv, hashes, commit, history', hfwd, hcommit, rfl⟩⟩

theorem serve_accept {H : Hasher} {s : State} (hs : (system H).Reachable s) {bs width : Nat}
    {req : Nat → Nat} {verifyIds : Nat → Nat → Int} {commitLens : Nat → Nat}
    (ha : Accepts H s bs width req verifyIds commitLens) :
    ∃ history', (system H).Reachable (s.accept bs req commitLens history') := by
  obtain ⟨history', hset⟩ := exists_scattered bs req (fun b c =>
    if commitLens b + c < H.maxNgramSize - 1 then s.history (req b) (commitLens b + c)
    else toInt32 (verifyIds b (commitLens b + c - (H.maxNgramSize - 1)))) s.history
  refine ⟨history', hs.step (l := .commit bs width req verifyIds commitLens)
    ⟨ha, history', ⟨fun b hb => ?_, hset⟩, rfl⟩⟩
  rcases ha.verified b hb with h0 | ⟨vs, _, _, hk, hw, _⟩
  · omega
  · omega

/-- Slot 0 alone, `len` rows from position `p` on. -/
def slotZero (mode : ForwardMode) (p : Nat) : ForwardBatch where
  mode := mode
  batchSize := 1
  reqPoolIndices _ := 0
  positions t := p + t
  outCacheLoc := none

theorem slotZero_serves {s : State} {mode : ForwardMode} {p len : Nat} {ids : Nat → Int}
    (hwf : (slotZero mode p).WF len) (hfirst : (slotZero mode p).first 0 = 0)
    (hlen : (slotZero mode p).len 0 = len) (h1 : 1 ≤ len) (hp : (s.stream 0).length = p)
    (hids : ∀ i, i < len → Fits32 (ids i)) (hsrc : s.Source smallHasher (slotZero mode p) 0) :
    Serves smallHasher s (slotZero mode p) ids len (fun _ => true) where
  wf := hwf
  slot_lt _ _ _ := by show 0 < 4; decide
  distinct b b' hb hb' _ _ _ := by
    have hb : b < 1 := hb
    have hb' : b' < 1 := hb'
    omega
  len_pos b hb _ := by
    obtain rfl : b = 0 := by have hb : b < 1 := hb; omega
    rw [hlen]
    exact h1
  positions b i hb _ hi := by
    obtain rfl : b = 0 := by have hb : b < 1 := hb; omega
    rw [hfirst, Nat.zero_add]
    show ((p : Int) + i) = (((s.stream 0).length + i : Nat) : Int)
    rw [hp]
    push_cast
    rfl
  fits b i hb _ hi := by
    obtain rfl : b = 0 := by have hb : b < 1 := hb; omega
    rw [hlen] at hi
    rw [hfirst, Nat.zero_add]
    exact hids i hi
  source b hb _ := by
    obtain rfl : b = 0 := by have hb : b < 1 := hb; omega
    exact hsrc
  padding _ b hb := by
    obtain rfl : b = 0 := by have hb : b < 1 := hb; omega
    rw [hlen]
    exact ⟨fun _ => ⟨h1, fun _ h => by cases h⟩, fun _ => rfl⟩

/-- A chunk of two tokens, then a verify block of two of which the first is accepted. -/
theorem chunk_then_verify : ∃ s, (system smallHasher).Reachable s ∧ s.stream 0 = [10, 11, 12] ∧
    (s.hashes 0)[2]? = some (specHash smallHasher [10, 11, 12] 2) := by
  let chunk := slotZero (.extend (fun _ => 2) (fun _ => 0) none) 0
  let block := slotZero (.targetVerify 2) 2
  let chunkIds : Nat → Int := fun t => (10 : Nat) + t
  let blockIds : Nat → Int := fun t => (12 : Nat) + t
  let s₀ : State := ⟨fun _ _ => 7, fun _ => [], fun _ => 0, fun _ => [], fun _ => true, fun _ => none⟩
  have h₀ : (system smallHasher).Reachable s₀ := ⟨s₀, [], fun _ => ⟨rfl, rfl, rfl, rfl⟩, .nil _⟩
  have hfit : ∀ p i : Nat, p + i < 2 ^ 31 → Fits32 (p + i : Int) := fun p i h => ⟨by omega, by omega⟩
  have hchunk : Serves smallHasher s₀ chunk chunkIds 2 (fun _ => true) := by
    refine slotZero_serves ⟨fun b hb => ?_, by decide⟩ rfl rfl (by decide) rfl
      (fun i hi => hfit 10 i (by omega)) rfl
    obtain rfl : b = 0 := by have hb : b < 1 := hb; omega
    rfl
  obtain ⟨hashes₁, history₁, h₁⟩ := serve_forward h₀ hchunk
  let s₁ := s₀.advance chunk chunkIds (fun _ => true) hashes₁ history₁
  have h₁ : (system smallHasher).Reachable s₁ := h₁
  have hblock : Serves smallHasher s₁ block blockIds 2 (fun _ => true) :=
    slotZero_serves rfl rfl rfl (by decide) rfl (fun i hi => hfit 12 i (by omega)) rfl
  obtain ⟨hashes₂, history₂, h₂⟩ := serve_forward h₁ hblock
  let s₂ := s₁.draft block blockIds (fun _ => true) hashes₂ history₂
  have h₂ : (system smallHasher).Reachable s₂ := h₂
  have haccept : Accepts smallHasher s₂ 1 2 (fun _ => 0) (fun _ => blockIds) (fun _ => 1) := by
    refine ⟨fun _ _ => by decide, fun b b' hb hb' _ => by omega, fun b hb => .inr ?_⟩
    refine ⟨[12, 13], runHashes block hashes₂ 0, rfl, by decide, by decide, fun j hj => ?_⟩
    obtain rfl | rfl : j = 0 ∨ j = 1 := by simp at hj; omega
    · rfl
    · rfl
  obtain ⟨history₃, h₃⟩ := serve_accept h₂ haccept
  have hrec := (incremental_equals_whole smallHasher h₃).1 0
  exact ⟨_, h₃, rfl, hrec.2 2 (by show 2 < 3; decide)⟩

end FlashSpark.L3.Engram
