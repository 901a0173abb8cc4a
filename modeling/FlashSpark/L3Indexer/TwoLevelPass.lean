import FlashSpark.L3Indexer.IndexerPaths

/-!
# Two-level indexing

The indexer layers of a model, one after the other in a forward pass
(deepseek_v4_backend.py:3099-3114). One of them is the candidate source: for each row it
publishes the blocks that later layers may select from.

* `IndexerModel`: the layers with their ids; `indexPass` runs them.
* `Path.indexTopk_spec`: one layer, on either path.
* `two_level_pass`: the whole pass.
-/
namespace FlashSpark.L3.Indexer
open Launch

variable {F : Type} [LinearOrder F] [BoundedOrder F]

/-! ## A pass -/

/-- The path of a forward pass, with the shapes it depends on. -/
inductive Path where
  | torch (heads : Nat)
  | sm90Decode (maxC4SeqLen reqToTokenCols : Nat)

/-- mirrors deepseek_v4_backend.py:3110-3113 -/
def Path.indexTopk (p : Path) (l : IndexerLayer F) (B : IndexBatch) (T : ReqToToken) (writeRaw : Bool)
    (candidateMasks : Option Masks) : Option (IndexOut × Option Masks) :=
  match p with
  | torch heads => indexTopkTorch l B T heads writeRaw candidateMasks
  | sm90Decode maxC4SeqLen reqToTokenCols =>
    indexTopkSm90Decode l B T maxC4SeqLen reqToTokenCols writeRaw candidateMasks

/-- The indexer layers of a model, by their ids in ascending order.
mirrors compact-measured.patch:243-246 -/
structure IndexerModel (F : Type) where
  candidateSourceLayerId : Int
  candidateTopkBlocks : Nat
  candidateBlockSize : Nat
  layers : List (Nat × IndexerLayer F)
  ascending : (layers.map Prod.fst).Pairwise (· < ·)
  isCandidateSource : ∀ e ∈ layers, e.2.config.isCandidateSource = decide ((e.1 : Int) = candidateSourceLayerId)
  usesCandidates : ∀ e ∈ layers, e.2.config.usesCandidates =
    decide (0 ≤ candidateSourceLayerId ∧ candidateSourceLayerId < e.1)
  topkBlocks : ∀ e ∈ layers, e.2.candidateTopkBlocks = candidateTopkBlocks
  blockSize : ∀ e ∈ layers, e.2.candidateBlockSize = candidateBlockSize

/-- One layer after the other: what each writes, and the masks that the last one leaves. -/
def indexPass (p : Path) (B : IndexBatch) (T : ReqToToken) (writeRaw : Bool) :
    List (Nat × IndexerLayer F) → Option Masks → Option (List IndexOut × Option Masks)
  | [], candidateMasks => some ([], candidateMasks)
  | e :: es, candidateMasks => do
    let (o, candidateMasks) ← p.indexTopk e.2 B T writeRaw candidateMasks
    let (outs, candidateMasks) ← indexPass p B T writeRaw es candidateMasks
    pure (o :: outs, candidateMasks)

/-! ## The pass -/

section Pass
variable {p : Path} {B : IndexBatch} {T : ReqToToken} {writeRaw : Bool}

/-- The batch is one the path is made for: a query has heads, the reserved replay bound covers
every row. -/
def Path.Serves (p : Path) (B : IndexBatch) (ratio : Nat) : Prop :=
  match p with
  | torch heads => 0 < heads
  | sm90Decode maxC4SeqLen reqToTokenCols => ∀ t, t < B.req.length →
    B.compressLens ratio t ≤ replayBound maxC4SeqLen reqToTokenCols ratio

/-- The masks are what a layer of this ratio needs, with `rows` for its rows. -/
def Path.Published (p : Path) (B : IndexBatch) (ratio : Nat) (rows : Nat → Nat → Bool) (masks : Option Masks) :
    Prop :=
  match p with
  | torch _ => ∀ (b r : Nat), B.groups[b]? = some r → 0 < B.maxLen ratio r →
    Consumed B ratio b r masks (some rows)
  | sm90Decode maxC4SeqLen reqToTokenCols => 0 < B.req.length → 0 < replayBound maxC4SeqLen reqToTokenCols ratio →
    ∃ mask : RowMask, masks = some (.tensor mask) ∧
      mask.OfBatch B (replayBound maxC4SeqLen reqToTokenCols ratio) rows

/-- A row of the masks keeps the positions of the best blocks of the row. -/
def KeepsBest (l : IndexerLayer F) (B : IndexBatch) (T : ReqToToken) (row : Nat → Bool) (r t : Nat)
    (bs : List Nat) : Prop :=
  BestBlocks l.candidateBlockSize l.candidateTopkBlocks (fun j => l.score t (rowSlot T l.compressRatio r j))
    (B.compressLens l.compressRatio t) bs ∧
  ∀ j, j < B.compressLens l.compressRatio t → (row j = true ↔ j / l.candidateBlockSize ∈ bs)

/-- Nothing is visible, so there are no blocks. -/
theorem keepsBest_nil {l : IndexerLayer F} {row : Nat → Bool} {r t : Nat}
    (h : B.compressLens l.compressRatio t = 0) : KeepsBest l B T row r t [] := by
  unfold KeepsBest BestBlocks
  rw [h]
  refine ⟨⟨List.Pairwise.nil, fun _ hb => absurd hb List.not_mem_nil, Nat.zero_le _, fun b hb => ?_⟩,
    fun j hj => absurd hj (Nat.not_lt_zero j)⟩
  have hzero : cdiv 0 l.candidateBlockSize = 0 :=
    Nat.div_eq_of_lt (by have := l.candidateBlockSize_pos; omega)
  omega

/-- **A layer.** What it writes; the masks it leaves are its own if it is the source. -/
theorem Path.indexTopk_spec {l : IndexerLayer F} (hl : l.Lawful) (hserves : p.Serves B l.compressRatio)
    (writeRaw : Bool) (masks : Option Masks) (rows : Nat → Nat → Bool)
    (hpub : l.config.consumes = true → p.Published B l.compressRatio rows masks) :
    ∃ o masks', p.indexTopk l B T writeRaw masks = some (o, masks') ∧
      (l.config.isCandidateSource = false → masks' = masks) ∧
      (l.config.isCandidateSource = true → ∃ rows', p.Published B l.compressRatio rows' masks' ∧
        ∀ r t, B.req[t]? = some r → ∃ bs, KeepsBest l B T (rows' t) r t bs) ∧
      ∀ t, t < B.req.length → Writes l B T (if l.config.consumes then some rows else none) t (o t) := by
  cases p with
  | torch heads =>
    obtain ⟨o, ho, hwrites⟩ := indexTopkTorch_spec (B := B) (T := T) hl hserves writeRaw masks
      (if l.config.consumes then some rows else none) fun b r hb h0 => by
        cases hc : l.config.consumes with
        | false => exact .plain
        | true => exact hpub hc b r hb h0
    refine ⟨o, _, ho, fun hsource => ?_, fun hsource => ?_, hwrites⟩
    · rw [hsource]
      rfl
    · rw [if_pos hsource]
      refine ⟨torchRows l B T heads, fun b r hb h0 => ?_, fun r t ht => ?_⟩
      · exact .masked (by rw [List.getElem?_map, hb]; rfl) (torchMask_fits hl hsource heads h0)
      · have hmem := mem_tok.mpr ht
        by_cases h0 : 0 < B.maxLen l.compressRatio r
        · exact (torchRows_candidate hl hsource heads hmem h0).blocks (le_maxLen hmem)
        · have hle : B.compressLens l.compressRatio t ≤ B.maxLen l.compressRatio r := le_maxLen hmem
          exact ⟨[], keepsBest_nil (by omega)⟩
  | sm90Decode maxC4SeqLen reqToTokenCols =>
    obtain ⟨o, ho, hwrites⟩ :=
      indexTopkSm90Decode_spec (T := T) hl maxC4SeqLen reqToTokenCols writeRaw hserves hpub
    refine ⟨o, _, ho, fun hsource => ?_, fun hsource => ?_, hwrites⟩
    · rw [hsource]
      split <;> rfl
    · by_cases hnone : B.req.length = 0 ∨ replayBound maxC4SeqLen reqToTokenCols l.compressRatio = 0
      · refine ⟨fun _ _ => false, fun hbs hpos => (hnone.elim hbs.ne' hpos.ne').elim,
          fun r t ht => ⟨[], keepsBest_nil ?_⟩⟩
        have hlt := (List.getElem?_eq_some_iff.mp ht).1
        have hle := hserves t hlt
        omega
      · have h0 : 0 < replayBound maxC4SeqLen reqToTokenCols l.compressRatio :=
          Nat.pos_of_ne_zero fun h => hnone (Or.inr h)
        obtain ⟨hlength, hrow⟩ := decodeMask_spec (B := B) (T := T) hl h0
        rw [if_neg hnone, if_pos hsource]
        refine ⟨fun t => (decodeMask l B T (replayBound maxC4SeqLen reqToTokenCols l.compressRatio)).rows.getD t
          fun _ => false, fun _ _ => ⟨_, rfl, rfl, hlength, fun t ht => ?_⟩, fun r t ht => ?_⟩
        · rw [List.getD_eq_getElem?_getD, List.getElem?_eq_getElem (by rw [hlength]; exact ht)]
          rfl
        · obtain ⟨row, hget, hcandidate⟩ := hrow r t ht
          dsimp only
          rw [List.getD_eq_getElem?_getD, hget]
          exact hcandidate.blocks (hserves t (List.getElem?_eq_some_iff.mp ht).1)

theorem indexPass_append (es es' : List (Nat × IndexerLayer F)) {masks masks₁ masks₂ : Option Masks}
    {outs outs' : List IndexOut} (h : indexPass p B T writeRaw es masks = some (outs, masks₁))
    (h' : indexPass p B T writeRaw es' masks₁ = some (outs', masks₂)) :
    indexPass p B T writeRaw (es ++ es') masks = some (outs ++ outs', masks₂) := by
  induction es generalizing masks outs with
  | nil =>
    obtain ⟨rfl, rfl⟩ := Prod.mk.inj (Option.some.inj h)
    exact h'
  | cons e es ih =>
    obtain ⟨⟨o, m⟩, ho, h⟩ := Option.bind_eq_some_iff.mp h
    obtain ⟨⟨os, m'⟩, hos, h⟩ := Option.bind_eq_some_iff.mp h
    obtain ⟨rfl, rfl⟩ := Prod.mk.inj (Option.some.inj h)
    exact Option.bind_eq_some_iff.mpr ⟨(o, m), ho, Option.bind_eq_some_iff.mpr ⟨_, ih hos, rfl⟩⟩

/-- Layers that leave the masks as they are. -/
theorem indexPass_kept {masks : Option Masks} {R : Nat × IndexerLayer F → IndexOut → Prop}
    (es : List (Nat × IndexerLayer F))
    (hstep : ∀ e ∈ es, ∃ o, p.indexTopk e.2 B T writeRaw masks = some (o, masks) ∧ R e o) :
    ∃ outs, indexPass p B T writeRaw es masks = some (outs, masks) ∧ List.Forall₂ R es outs := by
  induction es with
  | nil => exact ⟨[], rfl, .nil⟩
  | cons e es ih =>
    obtain ⟨o, ho, hR⟩ := hstep e List.mem_cons_self
    obtain ⟨outs, houts, hRs⟩ := ih fun e' he' => hstep e' (List.mem_cons_of_mem e he')
    exact ⟨o :: outs, Option.bind_eq_some_iff.mpr ⟨_, ho, Option.bind_eq_some_iff.mpr ⟨_, houts, rfl⟩⟩,
      .cons hR hRs⟩

/-- Layer `e` comes after the candidate source. -/
def IndexerModel.After (M : IndexerModel F) (e : Nat × IndexerLayer F) : Prop :=
  0 ≤ M.candidateSourceLayerId ∧ M.candidateSourceLayerId < e.1

instance (M : IndexerModel F) (e : Nat × IndexerLayer F) : Decidable (M.After e) :=
  inferInstanceAs (Decidable (_ ∧ _))

/-- What a layer writes for the batch: the top-k of each row, after the source only of the positions in the
row's `blocks`. -/
def IndexerModel.Selects (M : IndexerModel F) (B : IndexBatch) (T : ReqToToken) (blocks : Nat → List Nat)
    (e : Nat × IndexerLayer F) (o : IndexOut) : Prop :=
  ∀ r t, B.req[t]? = some r → ∃ js, RowSelects e.2 T r t (B.compressLens e.2.compressRatio t)
    (if M.After e then some fun j => decide (j / M.candidateBlockSize ∈ blocks t) else none) (o t) js

omit [LinearOrder F] [BoundedOrder F] in
theorem IndexerModel.consumes_iff (M : IndexerModel F) {e : Nat × IndexerLayer F} (he : e ∈ M.layers) :
    e.2.config.consumes = true ↔ M.After e := by
  unfold IndexerConfig.consumes
  rw [M.isCandidateSource e he, M.usesCandidates e he, Bool.and_eq_true, decide_eq_true_iff,
    Bool.not_eq_true', decide_eq_false_iff_not]
  unfold IndexerModel.After
  omega

variable {M : IndexerModel F} {e : Nat × IndexerLayer F} {blocks : Nat → List Nat}

/-- The rows `rows` keep the positions of `blocks`, as far as they are visible. -/
def IndexerModel.Keeps (M : IndexerModel F) (B : IndexBatch) (ratio : Nat) (blocks : Nat → List Nat)
    (rows : Nat → Nat → Bool) : Prop :=
  ∀ t, t < B.req.length → ∀ j, j < B.compressLens ratio t →
    (rows t j = true ↔ j / M.candidateBlockSize ∈ blocks t)

theorem IndexerModel.selects_of_writes (he : e ∈ M.layers) {rows : Nat → Nat → Bool} {o : IndexOut}
    (hkeeps : M.After e → M.Keeps B e.2.compressRatio blocks rows)
    (h : ∀ t, t < B.req.length → Writes e.2 B T (if e.2.config.consumes then some rows else none) t (o t)) :
    M.Selects B T blocks e o := by
  intro r t ht
  have hlt := (List.getElem?_eq_some_iff.mp ht).1
  obtain ⟨r', js, hr', hjs⟩ := h t hlt
  obtain rfl := Option.some.inj (ht.symm.trans hr')
  refine ⟨js, hjs.congr fun j hj => ?_⟩
  by_cases hafter : M.After e
  · rw [if_pos ((M.consumes_iff he).mpr hafter), if_pos hafter]
    exact congrArg some (Bool.eq_iff_iff.mpr ((hkeeps hafter t hlt j hj).trans decide_eq_true_iff.symm))
  · rw [if_neg fun hc => hafter ((M.consumes_iff he).mp hc), if_neg hafter]
    rfl

/-- A layer that is not the source. -/
theorem IndexerModel.step (he : e ∈ M.layers) (hl : e.2.Lawful) (hserves : p.Serves B e.2.compressRatio)
    (hne : (e.1 : Int) ≠ M.candidateSourceLayerId) (writeRaw : Bool) (masks : Option Masks)
    (rows : Nat → Nat → Bool)
    (hafter : M.After e → p.Published B e.2.compressRatio rows masks ∧ M.Keeps B e.2.compressRatio blocks rows) :
    ∃ o, p.indexTopk e.2 B T writeRaw masks = some (o, masks) ∧ M.Selects B T blocks e o := by
  obtain ⟨o, masks', ho, hsame, -, hwrites⟩ := Path.indexTopk_spec (T := T) hl hserves writeRaw masks rows
    fun hc => (hafter ((M.consumes_iff he).mp hc)).1
  rw [hsame (by rw [M.isCandidateSource e he]; exact decide_eq_false hne)] at ho
  exact ⟨o, ho, IndexerModel.selects_of_writes he (fun h => (hafter h).2) hwrites⟩

/-- The source: what the layers after it are given. -/
theorem IndexerModel.source_step (he : e ∈ M.layers) (hl : e.2.Lawful) (hserves : p.Serves B e.2.compressRatio)
    (hsource : (e.1 : Int) = M.candidateSourceLayerId) (writeRaw : Bool) (masks : Option Masks) :
    ∃ o masks' rows blocks, p.indexTopk e.2 B T writeRaw masks = some (o, masks') ∧
      p.Published B e.2.compressRatio rows masks' ∧ M.Keeps B e.2.compressRatio blocks rows ∧
      (∀ r t, B.req[t]? = some r → BestBlocks M.candidateBlockSize M.candidateTopkBlocks
        (fun j => e.2.score t (rowSlot T e.2.compressRatio r j)) (B.compressLens e.2.compressRatio t) (blocks t)) ∧
      ∀ blocks', M.Selects B T blocks' e o := by
  have hafter : ¬M.After e := fun h => absurd h.2 (by omega)
  obtain ⟨o, masks', ho, -, hpub, hwrites⟩ := Path.indexTopk_spec (T := T) hl hserves writeRaw
    masks (fun _ _ => false) fun hc => absurd ((M.consumes_iff he).mp hc) hafter
  obtain ⟨rows, hpub, hbest⟩ := hpub (by rw [M.isCandidateSource e he]; exact decide_eq_true hsource)
  -- the blocks of every row
  have hchoice : ∀ t, ∃ bs, ∀ r, B.req[t]? = some r → KeepsBest e.2 B T (rows t) r t bs := by
    intro t
    cases hr : B.req[t]? with
    | none => exact ⟨[], fun r h => nomatch h⟩
    | some r =>
      obtain ⟨bs, hbs⟩ := hbest r t hr
      exact ⟨bs, fun r' h => Option.some.inj h ▸ hbs⟩
  choose blocks hblocks using hchoice
  rw [← M.blockSize e he, ← M.topkBlocks e he]
  refine ⟨o, masks', rows, blocks, ho, hpub, fun t ht j hj => ?_, fun r t ht => (hblocks t r ht).1, fun blocks' =>
    IndexerModel.selects_of_writes he (fun h => absurd h hafter) hwrites⟩
  rw [← M.blockSize e he]
  exact (hblocks t _ (List.getElem?_eq_getElem ht)).2 j hj

/-- **Two-level indexing.** On either path every layer of a pass writes, for every row, the ascending slots of
its `index_topk` best visible positions, then -1; after the candidate source only positions count that are in
the row's best blocks, by the scores of the source. -/
theorem two_level_pass (p : Path) (M : IndexerModel F) (B : IndexBatch) (T : ReqToToken) (writeRaw : Bool)
    (before : Option Masks) (hlaw : ∀ e ∈ M.layers, e.2.Lawful)
    (hserves : ∀ e ∈ M.layers, p.Serves B e.2.compressRatio)
    (hsource : 0 ≤ M.candidateSourceLayerId → ∃ e ∈ M.layers, (e.1 : Int) = M.candidateSourceLayerId ∧
      ∀ e' ∈ M.layers, M.After e' → e'.2.compressRatio = e.2.compressRatio) :
    ∃ outs after blocks, indexPass p B T writeRaw M.layers before = some (outs, after) ∧
      (∀ e ∈ M.layers, (e.1 : Int) = M.candidateSourceLayerId → ∀ r t, B.req[t]? = some r →
        BestBlocks M.candidateBlockSize M.candidateTopkBlocks
          (fun j => e.2.score t (rowSlot T e.2.compressRatio r j)) (B.compressLens e.2.compressRatio t)
          (blocks t)) ∧
      List.Forall₂ (M.Selects B T blocks) M.layers outs := by
  by_cases h0 : 0 ≤ M.candidateSourceLayerId
  · obtain ⟨e, he, hid, hratio⟩ := hsource h0
    obtain ⟨es, es', hlayers⟩ := List.append_of_mem he
    have hasc := M.ascending
    rw [hlayers, List.map_append, List.map_cons, List.pairwise_append, List.pairwise_cons] at hasc
    obtain ⟨-, ⟨hlater, -⟩, hearlier⟩ := hasc
    have hbefore : ∀ e' ∈ es, e'.1 < e.1 := fun e' he' =>
      hearlier e'.1 (List.mem_map_of_mem he') e.1 List.mem_cons_self
    have hafter : ∀ e' ∈ es', e.1 < e'.1 := fun e' he' => hlater e'.1 (List.mem_map_of_mem he')
    have hes : ∀ e' ∈ es, e' ∈ M.layers := fun e' he' => hlayers ▸ List.mem_append_left _ he'
    have hes' : ∀ e' ∈ es', e' ∈ M.layers := fun e' he' =>
      hlayers ▸ List.mem_append_right _ (List.mem_cons_of_mem e he')
    obtain ⟨o, masks, rows, blocks, ho, hpub, hkeeps, hbest, hselects⟩ :=
      IndexerModel.source_step (T := T) he (hlaw e he) (hserves e he) hid writeRaw before
    obtain ⟨outs, houts, hall⟩ := indexPass_kept (R := M.Selects B T blocks) es fun e' he' =>
      IndexerModel.step (hes e' he') (hlaw e' (hes e' he')) (hserves e' (hes e' he'))
        (by have := hbefore e' he'; omega) writeRaw before rows
        fun h => absurd h.2 (by have := hbefore e' he'; omega)
    obtain ⟨outs', houts', hall'⟩ := indexPass_kept (R := M.Selects B T blocks) es' fun e' he' =>
      IndexerModel.step (hes' e' he') (hlaw e' (hes' e' he')) (hserves e' (hes' e' he'))
        (by have := hafter e' he'; omega) writeRaw masks rows fun h => by
          rw [hratio e' (hes' e' he') h]
          exact ⟨hpub, hkeeps⟩
    refine ⟨outs ++ o :: outs', masks, blocks, ?_, fun e' he' hid' => ?_, ?_⟩
    · rw [hlayers]
      exact indexPass_append es (e :: es') houts
        (Option.bind_eq_some_iff.mpr ⟨_, ho, Option.bind_eq_some_iff.mpr ⟨_, houts', rfl⟩⟩)
    · -- the source is the only layer of its id
      rw [hlayers, List.mem_append, List.mem_cons] at he'
      obtain hin | rfl | hin := he'
      · have := hbefore e' hin
        omega
      · exact hbest
      · have := hafter e' hin
        omega
    · rw [hlayers]
      exact List.rel_append hall (.cons (hselects blocks) hall')
  · obtain ⟨outs, houts, hall⟩ := indexPass_kept (R := M.Selects B T fun _ => []) M.layers fun e he =>
      IndexerModel.step he (hlaw e he) (hserves e he) (by omega) writeRaw before (fun _ _ => false)
        fun h => absurd h.1 h0
    exact ⟨outs, before, fun _ => [], houts, fun e _ hid => absurd hid (by omega), hall⟩

end Pass

/-! ### Three layers -/

/-- The indices by descending score. -/
def descending (s : Nat → F) (n : Nat) : List Nat := (List.range n).insertionSort fun a b => s b ≤ s a

omit [BoundedOrder F] in
theorem descending_isTopK (s : Nat → F) {n k : Nat} (hk : k ≤ n) :
    IsTopK s n k fun i => (descending s n).getD i 0 := by
  have : Std.Total fun a b => s b ≤ s a := ⟨fun a b => le_total (s b) (s a)⟩
  have : IsTrans Nat fun a b => s b ≤ s a := ⟨fun a b c hab hbc => hbc.trans hab⟩
  exact IsTopK.of_descending (List.perm_insertionSort _ _) (List.pairwise_insertionSort _ _) hk

/-- A row's mask, its blocks by descending score. -/
def sortedMask (S : BlockShape) (row : Nat → F) (len col : Nat) : Bool :=
  decide ((∃ i, i < S.topk ∧ (descending (blockScore S row len) S.blocks).getD i 0 = col / S.blockSize) ∧
    ⊥ < blockScore S row len (col / S.blockSize))

theorem sortedMask_candidate (S : BlockShape) (row : Nat → F) (len : Nat) :
    CandidateRow S row len (sortedMask S row len) :=
  ⟨_, descending_isTopK _ (Nat.min_le_right _ _), fun _ _ => decide_eq_true_iff⟩

/-- A layer that selects by sorting: two of its blocks, of two positions each. -/
def sortingLayer (config : IndexerConfig) (score : Nat → Nat → F) : IndexerLayer F where
  config := config
  candidateTopkBlocks := 2
  candidateBlockSize := 2
  candidateBlockSize_pos := Nat.two_pos
  compressRatio := 1
  compressRatio_pos := Nat.one_pos
  score := score
  topk _ s width _ i := (descending s width).getD i 0
  selectBlocks rows lens cols := List.zipWith (fun row len =>
    if h : 0 < cols then sortedMask ⟨1, cols, 2, 2, h, Nat.two_pos⟩ row len else fun _ => false) rows lens
  logitsDecode t slots len j := if j < len then score t (slots j) else ⊥

theorem sortingLayer_lawful (config : IndexerConfig) (score : Nat → Nat → F) :
    (sortingLayer config score).Lawful where
  topk _ s _ _ hk := descending_isTopK s hk
  selectBlocks_length rows lens _ hlen := by
    show (List.zipWith _ rows lens).length = _
    rw [List.length_zipWith, hlen, Nat.min_self]
  selectBlocks_row rows lens cols i row len h _ hrow hlens _ := by
    refine ⟨sortedMask ⟨1, cols, 2, 2, h, Nat.two_pos⟩ row len, ?_, sortedMask_candidate _ row len⟩
    show (List.zipWith _ rows lens)[i]? = _
    rw [List.getElem?_zipWith, hrow, hlens]
    exact congrArg some (dif_pos h)
  logitsDecode _ _ _ _ := rfl

/-- Scores from 0, which is `-inf`, to 9, which is `inf`: the source likes the first positions of a
request, the other layers the third and the fourth. -/
def exampleModel : IndexerModel (Fin 10) where
  candidateSourceLayerId := 1
  candidateTopkBlocks := 2
  candidateBlockSize := 2
  layers := [(0, sortingLayer ⟨false, false, 2⟩ fun _ slot => [2, 1, 8, 7, 4, 3].getD (slot % 8) 0),
    (1, sortingLayer ⟨true, false, 2⟩ fun _ slot => [8, 7, 2, 1, 4, 3].getD (slot % 8) 0),
    (3, sortingLayer ⟨false, true, 2⟩ fun _ slot => [2, 1, 8, 7, 4, 3].getD (slot % 8) 0)]
  ascending := by decide
  isCandidateSource := by decide
  usesCandidates := by decide
  topkBlocks := by decide
  blockSize := by decide

/-- Six tokens of one request, and the first of another. -/
def exampleBatch : IndexBatch := ⟨[0, 0, 0, 0, 0, 0, 1], fun t => if t = 6 then 0 else t⟩

def exampleTable : ReqToToken := ⟨fun r p => (8 * r + p) % 2 ^ 31, fun _ _ => Nat.mod_lt _ (by decide)⟩

theorem exampleModel_lawful : ∀ e ∈ exampleModel.layers, e.2.Lawful := by
  intro e he
  simp only [exampleModel, List.mem_cons, List.not_mem_nil, or_false] at he
  obtain rfl | rfl | rfl := he <;> exact sortingLayer_lawful _ _

theorem exampleModel_passes :
    (∃ outs after blocks,
      indexPass (.torch 1) exampleBatch exampleTable true exampleModel.layers none = some (outs, after) ∧
      List.Forall₂ (exampleModel.Selects exampleBatch exampleTable blocks) exampleModel.layers outs) ∧
    ∃ outs after blocks,
      indexPass (.sm90Decode 8 8) exampleBatch exampleTable true exampleModel.layers none = some (outs, after) ∧
      List.Forall₂ (exampleModel.Selects exampleBatch exampleTable blocks) exampleModel.layers outs := by
  have hsource : 0 ≤ exampleModel.candidateSourceLayerId → ∃ e ∈ exampleModel.layers,
      (e.1 : Int) = exampleModel.candidateSourceLayerId ∧
      ∀ e' ∈ exampleModel.layers, exampleModel.After e' → e'.2.compressRatio = e.2.compressRatio :=
    fun _ => ⟨_, List.mem_cons_of_mem _ List.mem_cons_self, rfl, by decide⟩
  have hratio : ∀ e ∈ exampleModel.layers, e.2.compressRatio = 1 := by decide
  have hlens : ∀ t, t < exampleBatch.req.length → exampleBatch.compressLens 1 t ≤ replayBound 8 8 1 := by decide
  constructor
  · obtain ⟨outs, after, blocks, hpass, -, hselects⟩ := two_level_pass (.torch 1) exampleModel exampleBatch
      exampleTable true none exampleModel_lawful (fun _ _ => Nat.one_pos) hsource
    exact ⟨outs, after, blocks, hpass, hselects⟩
  · obtain ⟨outs, after, blocks, hpass, -, hselects⟩ := two_level_pass (.sm90Decode 8 8) exampleModel
      exampleBatch exampleTable true none exampleModel_lawful
      (fun e he => (hratio e he).symm ▸ hlens) hsource
    exact ⟨outs, after, blocks, hpass, hselects⟩

/-- The last layer takes the third and fourth position only while their block is one of the source's two. -/
example : (indexPass (.torch 1) exampleBatch exampleTable false exampleModel.layers none).map
    (fun r => r.1.map fun o => [3, 5, 6].map fun t => (List.range 2).map (o t).page) =
      some [[[2, 3], [2, 3], [8, -1]], [[0, 1], [0, 1], [8, -1]], [[2, 3], [4, 5], [8, -1]]] := by decide

end FlashSpark.L3.Indexer
