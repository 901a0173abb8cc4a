import FlashSpark.L3Indexer.IndexerRow

/-!
# The indexer paths

The two paths of `IndexerRow`, whole: what a layer writes to the result tensors, and the
masks that a candidate source leaves to the layers after it
(deepseek_v4_backend.py:3459-3604).

* `indexTopkTorch`: one request after the other, in chunks of rows.
* `indexTopkSm90Decode`: all rows at once.
* `indexTopkTorch_spec`, `indexTopkSm90Decode_spec`: every row selects (`Writes`).
* `torchMask_spec`, `decodeMask_spec`: what a source publishes.
-/
namespace FlashSpark.L3.Indexer
open Launch

variable {F : Type} [LinearOrder F] [BoundedOrder F]

/-! ## The torch path -/

/-- `self.candidate_masks`: one mask a request, or one for the batch. -/
inductive Masks where
  | requests (ms : List RowMask)
  | tensor (mask : RowMask)

/-- `consume[b][start : start + n]`. -/
def Masks.rowsOf (ms : Masks) (b start n : Nat) : Option RowMask :=
  match ms with
  | requests ms => (ms[b]?).map fun mask => ⟨mask.cols, block mask.rows start n⟩
  | tensor mask => (mask.rows[b]?).map fun row => ⟨min n (mask.cols - start), [fun j => row (start + j)]⟩

/-- One row of a chunk; `keep` is its row of the mask, `width` the columns that leaves.
mirrors deepseek_v4_backend.py:3577-3600 -/
def torchRow (l : IndexerLayer F) (B : IndexBatch) (T : ReqToToken) (r lc width : Nat)
    (keep : Option (Nat → Bool)) (o : IndexOut) (t : Nat) : Option IndexOut := do
  let len := B.compressLens l.compressRatio t
  let slotsJ j := rowSlot T l.compressRatio r j
  let k := min l.config.indexTopk lc
  let s := applyMask keep lc fun j => if len ≤ j then ⊥ else l.score t (slotsJ j)
  let idx ← finishRow keep.isSome s width lc k (l.topk t s width k)
  pure (Function.update o t ((o t).assign (pageEntries slotsJ lc len idx) (rawEntries len idx)))

/-- What a chunk publishes. -/
def chunkMasks (l : IndexerLayer F) (B : IndexBatch) (T : ReqToToken) (r lc : Nat) (tokC : List Nat) :
    List (Nat → Bool) :=
  if l.config.isCandidateSource then
    l.selectBlocks (tokC.map fun t j =>
        if B.compressLens l.compressRatio t ≤ j then ⊥ else l.score t (rowSlot T l.compressRatio r j))
      (tokC.map (B.compressLens l.compressRatio)) lc
  else []

/-- `consume[b][start : start + n]` over the rows and the `lc` columns of a chunk. -/
def chunkKeep (consume : Option Masks) (b start n rows lc : Nat) :
    Option (Nat × Option (Nat → Nat → Bool)) :=
  match consume with
  | some ms => do
    let mask ← ms.rowsOf b start n
    let (width, keep) ← mask.expand rows lc
    pure (width, some keep)
  | none => some (lc, none)

/-- The rows of a request from `start` on, at most `n`.
mirrors deepseek_v4_backend.py:3574-3600 -/
def torchChunk (l : IndexerLayer F) (B : IndexBatch) (T : ReqToToken) (r lc : Nat) (consume : Option Masks)
    (b n : Nat) (s : IndexOut × List (Nat → Bool)) (start : Nat) : Option (IndexOut × List (Nat → Bool)) := do
  let tokC := block (B.tok r) start n
  let (width, keep) ← chunkKeep consume b start n tokC.length lc
  let o ← tokC.zipIdx.foldlM (fun o ti => torchRow l B T r lc width (keep.map fun m => m ti.2) o ti.1) s.1
  pure (o, s.2 ++ chunkMasks l B T r lc tokC)

/-- `lens.max()`. -/
def IndexBatch.maxLen (B : IndexBatch) (ratio r : Nat) : Nat :=
  (((B.tok r).map (B.compressLens ratio)).max?).getD 0

/-- The scores of a chunk stay below the budget; `heads` is `q.shape[1]`.
mirrors deepseek_v4_backend.py:3569-3572 -/
def rowsPerChunk (heads lc : Nat) : Nat := max 1 (2 ^ 30 / (heads * lc * 2))

/-- One request, `b` in the order of the rows.
mirrors deepseek_v4_backend.py:3550-3602 -/
def torchRequest (l : IndexerLayer F) (B : IndexBatch) (T : ReqToToken) (heads : Nat) (consume : Option Masks)
    (s : IndexOut × List RowMask) (rb : Nat × Nat) : Option (IndexOut × List RowMask) := do
  let lc := B.maxLen l.compressRatio rb.1
  if lc = 0 then pure (s.1, if l.config.isCandidateSource then s.2 ++ [⟨0, []⟩] else s.2)
  else if heads = 0 then none
  else do
    let n := rowsPerChunk heads lc
    let chunks := (List.range (cdiv (B.tok rb.1).length n)).map (· * n)
    let out ← chunks.foldlM (torchChunk l B T rb.1 lc consume rb.2 n) (s.1, [])
    pure (out.1, if l.config.isCandidateSource then s.2 ++ [⟨lc, out.2⟩] else s.2)

/-- `torch.unique_consecutive(req)`. -/
def IndexBatch.groups (B : IndexBatch) : List Nat := B.req.destutter (· ≠ ·)

/-- A source that also consumes only publishes.
mirrors deepseek_v4_backend.py:3532-3604 (`_low_ratio_index_topk_torch`) -/
def indexTopkTorch (l : IndexerLayer F) (B : IndexBatch) (T : ReqToToken) (heads : Nat) (writeRaw : Bool)
    (candidateMasks : Option Masks) : Option (IndexOut × Option Masks) := do
  let consume := if l.config.consumes then candidateMasks else none
  let out ← B.groups.zipIdx.foldlM (torchRequest l B T heads consume) (IndexOut.blank writeRaw, [])
  pure (out.1, if l.config.isCandidateSource then some (.requests out.2) else candidateMasks)

/-! ## The decode path -/

/-- `consume[:, :lmax]`, once it is known to be a mask of the batch. -/
def decodeKeep (consumes : Bool) (candidateMasks : Option Masks) (bs lmax : Nat) :
    Option (Nat × Option (Nat → Nat → Bool)) :=
  if consumes then
    match candidateMasks with
    | some (.tensor mask) => do
      guard (mask.rows.length = bs)
      let (width, keep) ← RowMask.expand ⟨min mask.cols lmax, mask.rows⟩ bs lmax
      pure (width, some keep)
    | _ => none
  else some (lmax, none)

/-- `slots`, 0 where the row does not see. -/
def decodeSlots (l : IndexerLayer F) (B : IndexBatch) (T : ReqToToken) (t j : Nat) : Nat :=
  if j < B.compressLens l.compressRatio t then rowSlot T l.compressRatio (B.req.getD t 0) j else 0

/-- mirrors deepseek_v4_backend.py:3494-3504 -/
def decodeLogits (l : IndexerLayer F) (B : IndexBatch) (T : ReqToToken) (t : Nat) : Nat → F :=
  l.logitsDecode t (decodeSlots l B T t) (B.compressLens l.compressRatio t)

/-- mirrors deepseek_v4_backend.py:3518-3530 -/
def decodeRow (l : IndexerLayer F) (B : IndexBatch) (T : ReqToToken) (lmax width : Nat)
    (keep : Option (Nat → Nat → Bool)) (o : IndexOut) (t : Nat) : Option IndexOut := do
  let len := B.compressLens l.compressRatio t
  let k := min l.config.indexTopk lmax
  let s := applyMask (keep.map fun m => m t) lmax (decodeLogits l B T t)
  let idx ← finishRow keep.isSome s width lmax k (l.topk t s width k)
  pure (Function.update o t ((o t).assign (pageEntries (decodeSlots l B T t) lmax len idx) (rawEntries len idx)))

/-- What a source publishes. -/
def decodeMask (l : IndexerLayer F) (B : IndexBatch) (T : ReqToToken) (lmax : Nat) : RowMask :=
  let ts := List.range B.req.length
  ⟨lmax, l.selectBlocks (ts.map (decodeLogits l B T)) (ts.map (B.compressLens l.compressRatio)) lmax⟩

/-- `lmax`: the reserved replay bound, which the request table bounds too.
mirrors deepseek_v4_backend.py:3487-3489 -/
def replayBound (maxC4SeqLen reqToTokenCols ratio : Nat) : Nat := min maxC4SeqLen (reqToTokenCols / ratio)

/-- mirrors deepseek_v4_backend.py:3459-3530 (`_low_ratio_index_topk_sm90_decode`) -/
def indexTopkSm90Decode (l : IndexerLayer F) (B : IndexBatch) (T : ReqToToken) (maxC4SeqLen reqToTokenCols : Nat)
    (writeRaw : Bool) (candidateMasks : Option Masks) : Option (IndexOut × Option Masks) := do
  let bs := B.req.length
  let lmax := replayBound maxC4SeqLen reqToTokenCols l.compressRatio
  if bs = 0 ∨ lmax = 0 then pure (IndexOut.blank writeRaw, candidateMasks)
  else do
    let (width, keep) ← decodeKeep l.config.consumes candidateMasks bs lmax
    let o ← (List.range bs).foldlM (decodeRow l B T lmax width keep) (IndexOut.blank writeRaw)
    pure (o, if l.config.isCandidateSource then some (.tensor (decodeMask l B T lmax)) else candidateMasks)

/-! ## Rows of a request -/

section Rows
variable {l : IndexerLayer F} {B : IndexBatch} {T : ReqToToken} {r t : Nat}

theorem mem_tok : t ∈ B.tok r ↔ B.req[t]? = some r := by
  unfold IndexBatch.tok
  rw [List.mem_filter, List.mem_range, decide_eq_true_iff]
  exact ⟨fun h => h.2, fun h => ⟨(List.getElem?_eq_some_iff.mp h).1, h⟩⟩

theorem tok_nodup : (B.tok r).Nodup := List.nodup_range.filter _

theorem le_maxLen {ratio : Nat} (h : t ∈ B.tok r) : B.compressLens ratio t ≤ B.maxLen ratio r :=
  List.le_max?_getD_of_mem (List.mem_map_of_mem h)

/-- Each row is a row of some group. -/
theorem mem_groups {a : Nat} : a ∈ B.groups ↔ a ∈ B.req := by
  unfold IndexBatch.groups
  generalize B.req = l
  refine ⟨fun h => (List.destutter_sublist _ l).subset h, fun h => ?_⟩
  cases l with
  | nil => cases h
  | cons b l =>
    rw [List.destutter_cons']
    induction l generalizing b with
    | nil => simpa using h
    | cons c l ih =>
      by_cases hbc : b = c
      · subst hbc
        rw [List.destutter'_cons_neg _ (by simp)]
        exact ih b (by simpa using h)
      · rw [List.destutter'_cons_pos _ hbc]
        rcases List.mem_cons.mp h with rfl | h
        · exact List.mem_cons_self
        · exact List.mem_cons_of_mem _ (ih c h)

/-- Past the columns that a request's rows are assigned, nothing is. -/
def Blanks (l : IndexerLayer F) (B : IndexBatch) (o : IndexOut) : Prop :=
  ∀ r t, t ∈ B.tok r → (o t).BlankFrom (min l.config.indexTopk (B.maxLen l.compressRatio r))

theorem Blanks.update {o : IndexOut} (h : Blanks l B o) {v : IndexRow} (ht : t ∈ B.tok r)
    {mask : Option (Nat → Bool)} {js : List Nat}
    (hv : RowSelects l T r t (B.compressLens l.compressRatio t) mask v js) : Blanks l B (Function.update o t v) := by
  intro r' t' ht'
  by_cases he : t' = t
  · subst he
    have hr : r' = r := Option.some.inj ((mem_tok.mp ht').symm.trans (mem_tok.mp ht))
    rw [Function.update_self, hr]
    have hle : B.compressLens l.compressRatio t' ≤ B.maxLen l.compressRatio r := le_maxLen ht
    exact hv.blankFrom (by omega)
  · rw [Function.update_of_ne he]
    exact h r' t' ht'

/-- Nothing is visible to a row that nothing is written to. -/
theorem IndexRow.BlankFrom.selects_nothing {row : IndexRow} (h : row.BlankFrom 0) {mask : Option (Nat → Bool)} :
    RowSelects l T r t 0 mask row [] where
  top := ⟨List.Pairwise.nil, fun _ hj => absurd hj List.not_mem_nil, Nat.zero_le _,
    fun b hb => absurd hb (Nat.not_lt_zero b)⟩
  page k := (h k (Nat.zero_le k)).1
  raw m hm k := (h k (Nat.zero_le k)).2 m hm

/-- Masks that agree on the visible positions. -/
theorem RowSelects.congr {len : Nat} {mask mask' : Option (Nat → Bool)} {row : IndexRow} {js : List Nat}
    (h : RowSelects l T r t len mask row js)
    (hm : ∀ j, j < len → (mask.map fun m => m j) = mask'.map fun m => m j) :
    RowSelects l T r t len mask' row js := by
  refine ⟨h.top.congr fun j hj => ?_, h.page, h.raw⟩
  have hmj := hm j hj
  cases mask with
  | none =>
    cases mask' with
    | none => rfl
    | some m' => cases hmj
  | some m =>
    cases mask' with
    | none => cases hmj
    | some m' =>
      have he : m j = m' j := Option.some.inj hmj
      simp [Kept, he]

end Rows

/-! ## The torch path, layer by layer -/

section Torch
variable {l : IndexerLayer F} {B : IndexBatch} {T : ReqToToken}

/-- Row `v` of the result is what row `t` selects; `rows` are the masks of the rows. -/
def Writes (l : IndexerLayer F) (B : IndexBatch) (T : ReqToToken) (rows : Option (Nat → Nat → Bool)) (t : Nat)
    (v : IndexRow) : Prop :=
  ∃ r js, B.req[t]? = some r ∧ RowSelects l T r t (B.compressLens l.compressRatio t) (rows.map fun f => f t) v js

/-- A mask of the request's shape, with a row of `rows` for each of its rows. -/
structure RowMask.Fits (mask : RowMask) (B : IndexBatch) (ratio r : Nat) (rows : Nat → Nat → Bool) : Prop where
  cols : mask.cols = B.maxLen ratio r
  length : mask.rows.length = (B.tok r).length
  row : ∀ (i t : Nat), (B.tok r)[i]? = some t → mask.rows[i]? = some (rows t)

/-- The rows `rows` are what request `r`, the `b`th, is given of the masks it consumes. -/
inductive Consumed (B : IndexBatch) (ratio b r : Nat) :
    Option Masks → Option (Nat → Nat → Bool) → Prop where
  | plain : Consumed B ratio b r none none
  | masked {ms : List RowMask} {mask : RowMask} {rows : Nat → Nat → Bool} (hmask : ms[b]? = some mask)
      (hfits : mask.Fits B ratio r rows) : Consumed B ratio b r (some (.requests ms)) (some rows)

theorem torchRow_spec (hl : l.Lawful) {r t : Nat} (ht : t ∈ B.tok r) (h0 : 0 < B.maxLen l.compressRatio r)
    {o : IndexOut} (hblank : Blanks l B o) (keep : Option (Nat → Bool)) :
    ∃ v js, torchRow l B T r (B.maxLen l.compressRatio r) (B.maxLen l.compressRatio r) keep o t =
        some (Function.update o t v) ∧
      RowSelects l T r t (B.compressLens l.compressRatio t) keep v js := by
  obtain ⟨idx, js, hidx, hjs⟩ := selectRow_spec (T := T) (r := r) (t := t) keep hl h0
    (le_maxLen ht) (s := fun j => if B.compressLens l.compressRatio t ≤ j then ⊥ else
      l.score t (rowSlot T l.compressRatio r j))
    (fun j _ => by rw [← ite_not]; simp only [Nat.not_le]) (fun _ _ => rfl) (hblank r t ht)
  refine ⟨_, js, ?_, hjs⟩
  unfold torchRow
  dsimp only
  rw [hidx]
  rfl

/-- A mask of the request's shape gives each row of a chunk its own. -/
theorem chunkKeep_spec {ratio b r : Nat} {consume : Option Masks} {rows : Option (Nat → Nat → Bool)}
    (h : Consumed B ratio b r consume rows) (start n : Nat) :
    ∃ keep, chunkKeep consume b start n (block (B.tok r) start n).length (B.maxLen ratio r) =
        some (B.maxLen ratio r, keep) ∧
      ∀ (i t : Nat), (block (B.tok r) start n)[i]? = some t → ∀ j, j < B.maxLen ratio r →
        (keep.map fun m => m i j) = rows.map fun f => f t j := by
  cases h with
  | plain => exact ⟨none, rfl, fun _ _ _ _ _ => rfl⟩
  | masked hmask hfits =>
    rename_i ms mask rows
    obtain ⟨m, hm, hmrow⟩ := RowMask.expand_self ⟨mask.cols, block mask.rows start n⟩
      (r := (block (B.tok r) start n).length) (c := B.maxLen ratio r)
      (by rw [block_length, block_length, hfits.length]) hfits.cols
    refine ⟨some m, ?_, fun i t hi j hj => congrArg some ?_⟩
    · unfold chunkKeep Masks.rowsOf
      simp only [hmask, Option.map_some, Option.bind_eq_bind, Option.bind_some, hm]
      rfl
    · have hin := (List.getElem?_eq_some_iff.mp hi).1
      rw [block_getElem?] at hi
      obtain ⟨hn, hi⟩ := Option.ite_none_right_eq_some.mp hi
      dsimp only
      rw [hmrow i j hin hj, List.getD_eq_getElem?_getD, block_getElem?, if_pos hn, hfits.row _ t hi]
      rfl

theorem torchChunk_spec (hl : l.Lawful) {b r : Nat} (h0 : 0 < B.maxLen l.compressRatio r) {consume : Option Masks}
    {rows : Option (Nat → Nat → Bool)} (hconsume : Consumed B l.compressRatio b r consume rows) (start n : Nat)
    {s : IndexOut × List (Nat → Bool)} (hblank : Blanks l B s.1) :
    ∃ o, torchChunk l B T r (B.maxLen l.compressRatio r) consume b n s start =
        some (o, s.2 ++ chunkMasks l B T r (B.maxLen l.compressRatio r) (block (B.tok r) start n)) ∧
      Blanks l B o ∧ Wrote {t | t ∈ block (B.tok r) start n} (Writes l B T rows) s.1 o := by
  obtain ⟨keep, hkeep, hrow⟩ := chunkKeep_spec hconsume start n
  obtain ⟨o, ho, hblank', hwrote⟩ := foldlM_wrote (W := Writes l B T rows) (I := fun _ o => Blanks l B o)
    (fun o ti => torchRow l B T r (B.maxLen l.compressRatio r) (B.maxLen l.compressRatio r)
      (keep.map fun m => m ti.2) o ti.1) id
    (fun ti : Nat × Nat => {ti.1}) hblank
    (block (B.tok r) start n).zipIdx (fun i ti hti o hblank => by
      rw [List.getElem?_zipIdx] at hti
      obtain ⟨t, hget, rfl⟩ := Option.map_eq_some_iff.mp hti
      have ht : t ∈ B.tok r := by
        have hget := hget
        rw [block_getElem?] at hget
        exact List.mem_of_getElem? (Option.ite_none_right_eq_some.mp hget).2
      obtain ⟨v, js, hv, hjs⟩ := torchRow_spec (T := T) hl ht h0 hblank (keep.map fun m => m (0 + i))
      refine ⟨_, hv, hblank.update ht hjs, Wrote.update ⟨r, js, mem_tok.mp ht, hjs.congr fun j hj => ?_⟩⟩
      have hrow := hrow i t hget j (Nat.lt_of_lt_of_le hj (le_maxLen ht))
      rw [Nat.zero_add, Option.map_map, Option.map_map]
      exact hrow)
  refine ⟨o, ?_, hblank', hwrote.congr fun t => ?_⟩
  · unfold torchChunk
    dsimp only
    rw [hkeep, Option.bind_eq_bind, Option.bind_some, ho]
    rfl
  · constructor
    · intro hyp
      obtain ⟨ti, hmem, rfl⟩ := hyp
      exact List.fst_mem_of_mem_zipIdx hmem
    · intro ht
      obtain ⟨i, hi⟩ := List.getElem?_of_mem ht
      exact ⟨(t, i), List.mem_iff_getElem?.mpr ⟨i, by rw [List.getElem?_zipIdx, hi]; simp⟩, rfl⟩

/-! ### A request -/

/-- The rows of request `r` that chunk `c` has. -/
abbrev chunkOf (B : IndexBatch) (r n c : Nat) : List Nat := block (B.tok r) (c * n) n

/-- What request `r` publishes. -/
def torchMask (l : IndexerLayer F) (B : IndexBatch) (T : ReqToToken) (heads r : Nat) : RowMask :=
  let lc := B.maxLen l.compressRatio r
  if lc = 0 then ⟨0, []⟩
  else
    let n := rowsPerChunk heads lc
    ⟨lc, (List.range (cdiv (B.tok r).length n)).flatMap fun c => chunkMasks l B T r lc (chunkOf B r n c)⟩

theorem rowsPerChunk_pos (heads lc : Nat) : 0 < rowsPerChunk heads lc := by
  unfold rowsPerChunk
  omega

/-- Each row of a request is a row of one of its chunks. -/
theorem mem_chunkOf {r n t : Nat} (hn : 0 < n) :
    t ∈ B.tok r ↔ ∃ c, c < cdiv (B.tok r).length n ∧ t ∈ chunkOf B r n c := by
  constructor
  · intro ht
    obtain ⟨i, hi⟩ := List.getElem?_of_mem ht
    have hlt := (List.getElem?_eq_some_iff.mp hi).1
    have hdiv := Nat.div_add_mod' i n
    refine ⟨i / n, (Nat.div_lt_iff_lt_mul hn).mpr (Nat.lt_of_lt_of_le hlt (le_cdiv_mul _ hn)), ?_⟩
    refine List.mem_of_getElem? (i := i % n) ?_
    rw [block_getElem?, if_pos (Nat.mod_lt i hn), hdiv, hi]
  · intro hyp
    obtain ⟨c, -, ht⟩ := hyp
    exact List.mem_of_mem_drop (List.mem_of_mem_take ht)

/-- **A request.** Its rows are written, and a source publishes a mask for it. -/
theorem torchRequest_spec (hl : l.Lawful) {heads : Nat} (hheads : 0 < heads) {b r : Nat} {consume : Option Masks}
    {rows : Option (Nat → Nat → Bool)}
    (hconsume : 0 < B.maxLen l.compressRatio r → Consumed B l.compressRatio b r consume rows)
    {s : IndexOut × List RowMask} (hblank : Blanks l B s.1) :
    ∃ o, torchRequest l B T heads consume s (r, b) =
        some (o, if l.config.isCandidateSource then s.2 ++ [torchMask l B T heads r] else s.2) ∧
      Blanks l B o ∧ Wrote {t | t ∈ B.tok r} (Writes l B T rows) s.1 o := by
  by_cases h0 : B.maxLen l.compressRatio r = 0
  · refine ⟨s.1, ?_, hblank, fun t ht => ?_, fun _ _ => rfl⟩
    · unfold torchRequest torchMask
      simp only [h0, if_true]
      rfl
    · have hlen : B.compressLens l.compressRatio t = 0 := by
        have hle : B.compressLens l.compressRatio t ≤ B.maxLen l.compressRatio r := le_maxLen ht
        omega
      have hfrom := hblank r t ht
      rw [h0, Nat.min_zero] at hfrom
      exact ⟨r, [], mem_tok.mp ht, hlen ▸ hfrom.selects_nothing⟩
  · have hpos : 0 < B.maxLen l.compressRatio r := Nat.pos_of_ne_zero h0
    let n := rowsPerChunk heads (B.maxLen l.compressRatio r)
    obtain ⟨out, hout, ⟨hblank', hmasks⟩, hwrote⟩ := foldlM_wrote (W := Writes l B T rows)
      (I := fun c s => Blanks l B s.1 ∧
        s.2 = (List.range c).flatMap fun c => chunkMasks l B T r (B.maxLen l.compressRatio r) (chunkOf B r n c))
      (torchChunk l B T r (B.maxLen l.compressRatio r) consume b n) Prod.fst
      (fun start => {t | t ∈ block (B.tok r) start n}) (s := (s.1, [])) ⟨hblank, rfl⟩
      ((List.range (cdiv (B.tok r).length n)).map (· * n)) (fun c start hstart s' hs' => by
        rw [List.getElem?_map, Option.map_eq_some_iff] at hstart
        obtain ⟨c', hc', rfl⟩ := hstart
        obtain ⟨-, rfl⟩ := List.getElem?_eq_some_iff.mp hc'
        rw [List.getElem_range]
        obtain ⟨o, ho, hblank', hwrote⟩ := torchChunk_spec (T := T) hl hpos (hconsume hpos) (c * n) n hs'.1
        refine ⟨_, ho, ⟨hblank', ?_⟩, hwrote⟩
        dsimp only
        rw [hs'.2, List.range_succ, List.flatMap_append, List.flatMap_singleton])
    refine ⟨out.1, ?_, hblank', hwrote.congr fun t => ?_⟩
    · unfold torchRequest torchMask
      dsimp only
      rw [if_neg h0, if_neg (by omega), if_neg h0, hout, Option.bind_eq_bind, Option.bind_some, hmasks,
        List.length_map, List.length_range]
      rfl
    · rw [Set.mem_ofPred_eq, Set.mem_ofPred_eq, mem_chunkOf (rowsPerChunk_pos heads (B.maxLen l.compressRatio r))]
      simp only [List.mem_map, List.mem_range]
      constructor
      · intro hyp
        obtain ⟨start, ⟨c, hc, rfl⟩, ht⟩ := hyp
        exact ⟨c, hc, ht⟩
      · intro hyp
        obtain ⟨c, hc, ht⟩ := hyp
        exact ⟨c * n, ⟨c, hc, rfl⟩, ht⟩

/-! ### A layer -/

/-- **A torch layer.** Every row is written, and a source publishes a mask for every request. -/
theorem indexTopkTorch_spec (hl : l.Lawful) {heads : Nat} (hheads : 0 < heads) (writeRaw : Bool)
    (masks : Option Masks) (rows : Option (Nat → Nat → Bool))
    (hconsume : ∀ (b r : Nat), B.groups[b]? = some r → 0 < B.maxLen l.compressRatio r →
      Consumed B l.compressRatio b r (if l.config.consumes then masks else none) rows) :
    ∃ o, indexTopkTorch l B T heads writeRaw masks =
        some (o, if l.config.isCandidateSource then some (.requests (B.groups.map (torchMask l B T heads)))
          else masks) ∧
      ∀ t, t < B.req.length → Writes l B T rows t (o t) := by
  obtain ⟨out, hout, ⟨-, hmasks⟩, hwrote⟩ := foldlM_wrote (W := Writes l B T rows)
    (I := fun b s => Blanks l B s.1 ∧
      s.2 = if l.config.isCandidateSource then (B.groups.take b).map (torchMask l B T heads) else [])
    (torchRequest l B T heads (if l.config.consumes then masks else none)) Prod.fst
    (fun rb => {t | t ∈ B.tok rb.1}) (s := (IndexOut.blank writeRaw, []))
    ⟨fun r t _ => IndexOut.blank_blankFrom writeRaw t _, by simp⟩
    B.groups.zipIdx (fun b rb hrb s hs => by
      rw [List.getElem?_zipIdx] at hrb
      obtain ⟨r, hget, rfl⟩ := Option.map_eq_some_iff.mp hrb
      obtain ⟨o, ho, hblank, hwrote⟩ := torchRequest_spec (T := T) hl hheads
        (fun h0 => hconsume (0 + b) r (by rw [Nat.zero_add]; exact hget) h0) hs.1
      refine ⟨_, ho, ⟨hblank, ?_⟩, hwrote⟩
      dsimp only
      rw [hs.2, List.take_add_one, hget]
      split <;> simp)
  refine ⟨out.1, ?_, fun t ht => hwrote.wrote t ?_⟩
  · unfold indexTopkTorch
    dsimp only
    rw [hout, Option.bind_eq_bind, Option.bind_some, hmasks, List.length_zipIdx, List.take_length]
    split <;> rfl
  · have hget := List.getElem?_eq_getElem ht
    obtain ⟨b, hb⟩ := List.getElem?_of_mem (mem_groups.mpr (List.getElem_mem ht))
    exact ⟨(B.req[t], b), List.mem_iff_getElem?.mpr ⟨b, by rw [List.getElem?_zipIdx, hb]; simp⟩,
      mem_tok.mpr hget⟩

/-! ### What a source publishes -/

/-- The rows before chunk `c`. -/
theorem prefixSum_chunks (n k c : Nat) : prefixSum (fun c => min k (n - c * k)) c = min (c * k) n := by
  induction c with
  | zero => simp [prefixSum]
  | succ c ih =>
    rw [prefixSum, ih, Nat.succ_mul]
    omega

/-- The mask of a request, row by row. -/
theorem torchMask_spec (hl : l.Lawful) (hsource : l.config.isCandidateSource = true) (heads : Nat) {r : Nat}
    (h0 : 0 < B.maxLen l.compressRatio r) :
    (torchMask l B T heads r).cols = B.maxLen l.compressRatio r ∧
    (torchMask l B T heads r).rows.length = (B.tok r).length ∧
    ∀ (i t : Nat), (B.tok r)[i]? = some t → ∃ row, (torchMask l B T heads r).rows[i]? = some row ∧
      CandidateRow (l.blocks (B.maxLen l.compressRatio r) h0) (fun j => l.score t (rowSlot T l.compressRatio r j))
        (B.compressLens l.compressRatio t) row := by
  let n := rowsPerChunk heads (B.maxLen l.compressRatio r)
  have hn : 0 < n := rowsPerChunk_pos _ _
  have hmask : torchMask l B T heads r = ⟨B.maxLen l.compressRatio r,
      (List.range (cdiv (B.tok r).length n)).flatMap fun c =>
        chunkMasks l B T r (B.maxLen l.compressRatio r) (chunkOf B r n c)⟩ := if_neg (by omega)
  have hlen : ∀ c, (chunkMasks l B T r (B.maxLen l.compressRatio r) (chunkOf B r n c)).length =
      min n ((B.tok r).length - c * n) := by
    intro c
    rw [chunkMasks, if_pos hsource, hl.selectBlocks_length _ _ _ (by simp), List.length_map, block_length]
  have hcover := le_cdiv_mul (B.tok r).length hn
  rw [hmask]
  refine ⟨rfl, ?_, fun i t hi => ?_⟩
  · dsimp only
    rw [flatMap_range_length hlen, prefixSum_chunks]
    omega
  · have hilt := (List.getElem?_eq_some_iff.mp hi).1
    have hdiv := Nat.div_add_mod' i n
    have hmod := Nat.mod_lt i hn
    have hc : i / n < cdiv (B.tok r).length n :=
      (Nat.div_lt_iff_lt_mul hn).mpr (Nat.lt_of_lt_of_le hilt hcover)
    have hget := flatMap_range_getElem? hlen hc
      (show i % n < min n ((B.tok r).length - i / n * n) by omega)
    rw [prefixSum_chunks, show min (i / n * n) (B.tok r).length + i % n = i by omega] at hget
    have hchunk : (chunkOf B r n (i / n))[i % n]? = some t := by
      rw [block_getElem?, if_pos hmod, hdiv, hi]
    obtain ⟨row, hrow, hcandidate⟩ := hl.selectBlocks_row
      ((chunkOf B r n (i / n)).map fun t j =>
        if B.compressLens l.compressRatio t ≤ j then ⊥ else l.score t (rowSlot T l.compressRatio r j))
      ((chunkOf B r n (i / n)).map (B.compressLens l.compressRatio)) (B.maxLen l.compressRatio r) (i % n) _ _ h0
      (by simp) (by rw [List.getElem?_map, hchunk, Option.map_some])
      (by rw [List.getElem?_map, hchunk, Option.map_some]) (fun j _ hj => if_pos hj)
    refine ⟨row, ?_, hcandidate.congr fun j hj => if_neg (by omega)⟩
    rw [hget, chunkMasks, if_pos hsource, hrow]

/-- Row `t` of the published masks. -/
def torchRows (l : IndexerLayer F) (B : IndexBatch) (T : ReqToToken) (heads t : Nat) : Nat → Bool :=
  match B.req[t]? with
  | some r => (torchMask l B T heads r).rows.getD ((B.tok r).idxOf t) fun _ => false
  | none => fun _ => false

theorem torchMask_fits (hl : l.Lawful) (hsource : l.config.isCandidateSource = true) (heads : Nat) {r : Nat}
    (h0 : 0 < B.maxLen l.compressRatio r) :
    (torchMask l B T heads r).Fits B l.compressRatio r (torchRows l B T heads) := by
  obtain ⟨hcols, hlength, hrow⟩ := torchMask_spec (T := T) hl hsource heads h0
  refine ⟨hcols, hlength, fun i t hi => ?_⟩
  obtain ⟨hlt, hget⟩ := List.getElem?_eq_some_iff.mp hi
  have hidx : (B.tok r).idxOf t = i := hget ▸ tok_nodup.idxOf_getElem i hlt
  obtain ⟨row, hrow, -⟩ := hrow i t hi
  unfold torchRows
  rw [mem_tok.mp (List.mem_of_getElem? hi)]
  dsimp only
  rw [hidx, List.getD_eq_getElem?_getD, hrow]
  rfl

theorem torchRows_candidate (hl : l.Lawful) (hsource : l.config.isCandidateSource = true) (heads : Nat)
    {r t : Nat} (ht : t ∈ B.tok r) (h0 : 0 < B.maxLen l.compressRatio r) :
    CandidateRow (l.blocks (B.maxLen l.compressRatio r) h0) (fun j => l.score t (rowSlot T l.compressRatio r j))
      (B.compressLens l.compressRatio t) (torchRows l B T heads t) := by
  obtain ⟨i, hi⟩ := List.getElem?_of_mem ht
  obtain ⟨row, hrow, hcandidate⟩ := (torchMask_spec (T := T) hl hsource heads h0).2.2 i t hi
  have hfits := (torchMask_fits (T := T) hl hsource heads h0).row i t hi
  rwa [Option.some.inj (hrow.symm.trans hfits)] at hcandidate

end Torch

/-! ## The decode path, layer by layer -/

section Decode
variable {l : IndexerLayer F} {B : IndexBatch} {T : ReqToToken}

/-- A mask of the batch's shape, whose rows are `rows`. -/
structure RowMask.OfBatch (mask : RowMask) (B : IndexBatch) (lmax : Nat) (rows : Nat → Nat → Bool) : Prop where
  cols : mask.cols = lmax
  length : mask.rows.length = B.req.length
  row : ∀ t, t < B.req.length → mask.rows[t]? = some (rows t)

theorem decodeKeep_spec {consumes : Bool} {masks : Option Masks} {lmax : Nat} {rows : Nat → Nat → Bool}
    (h : consumes = true → ∃ mask : RowMask, masks = some (.tensor mask) ∧ mask.OfBatch B lmax rows) :
    ∃ keep, decodeKeep consumes masks B.req.length lmax = some (lmax, keep) ∧
      ∀ t j, t < B.req.length → j < lmax →
        (keep.map fun m => m t j) = (if consumes then some rows else none).map fun f => f t j := by
  cases consumes with
  | false => exact ⟨none, rfl, fun _ _ _ _ => rfl⟩
  | true =>
    obtain ⟨mask, rfl, hbatch⟩ := h rfl
    obtain ⟨m, hm, hmrow⟩ := RowMask.expand_self ⟨min mask.cols lmax, mask.rows⟩ hbatch.length
      (show min mask.cols lmax = lmax by rw [hbatch.cols, Nat.min_self])
    refine ⟨some m, ?_, fun t j ht hj => congrArg some ?_⟩
    · unfold decodeKeep
      simp only [if_true, guard, if_pos hbatch.length, Option.bind_eq_bind, hm]
      rfl
    · dsimp only
      rw [hmrow t j ht hj, List.getD_eq_getElem?_getD, hbatch.row t ht]
      rfl

theorem decodeLogits_eq (hl : l.Lawful) {r t : Nat} (ht : B.req[t]? = some r) (j : Nat) :
    decodeLogits l B T t j =
      if j < B.compressLens l.compressRatio t then l.score t (rowSlot T l.compressRatio r j) else ⊥ := by
  unfold decodeLogits
  rw [hl.logitsDecode]
  split
  · rename_i hj
    rw [decodeSlots, if_pos hj, List.getD_eq_getElem?_getD, ht]
    rfl
  · rfl

theorem decodeRow_spec (hl : l.Lawful) {r t lmax : Nat} (ht : B.req[t]? = some r) (h0 : 0 < lmax)
    (hlen : B.compressLens l.compressRatio t ≤ lmax) {o : IndexOut}
    (hblank : (o t).BlankFrom (min l.config.indexTopk lmax)) (keep : Option (Nat → Nat → Bool)) :
    ∃ v js, decodeRow l B T lmax lmax keep o t = some (Function.update o t v) ∧
      RowSelects l T r t (B.compressLens l.compressRatio t) (keep.map fun m => m t) v js := by
  have hslots : ∀ j, j < B.compressLens l.compressRatio t →
      decodeSlots l B T t j = rowSlot T l.compressRatio r j := by
    intro j hj
    rw [decodeSlots, if_pos hj, List.getD_eq_getElem?_getD, ht]
    rfl
  obtain ⟨idx, js, hidx, hjs⟩ := selectRow_spec (T := T) (r := r) (t := t) (keep.map fun m => m t) hl h0 hlen
    (fun j _ => decodeLogits_eq hl ht j) hslots hblank
  refine ⟨_, js, ?_, hjs⟩
  unfold decodeRow
  dsimp only
  rw [Option.isSome_map] at hidx
  rw [hidx]
  rfl

/-- **A decode layer.** Every row is written; a source publishes a mask of the batch. -/
theorem indexTopkSm90Decode_spec (hl : l.Lawful) (maxC4SeqLen reqToTokenCols : Nat) (writeRaw : Bool)
    {masks : Option Masks} {rows : Nat → Nat → Bool}
    (hlens : ∀ t, t < B.req.length →
      B.compressLens l.compressRatio t ≤ replayBound maxC4SeqLen reqToTokenCols l.compressRatio)
    (hmasks : l.config.consumes = true → 0 < B.req.length →
      0 < replayBound maxC4SeqLen reqToTokenCols l.compressRatio →
      ∃ mask : RowMask, masks = some (.tensor mask) ∧
        mask.OfBatch B (replayBound maxC4SeqLen reqToTokenCols l.compressRatio) rows) :
    ∃ o, indexTopkSm90Decode l B T maxC4SeqLen reqToTokenCols writeRaw masks =
        some (o, if B.req.length = 0 ∨ replayBound maxC4SeqLen reqToTokenCols l.compressRatio = 0 then masks
          else if l.config.isCandidateSource then
            some (.tensor (decodeMask l B T (replayBound maxC4SeqLen reqToTokenCols l.compressRatio)))
          else masks) ∧
      ∀ t, t < B.req.length → Writes l B T (if l.config.consumes then some rows else none) t (o t) := by
  unfold indexTopkSm90Decode
  dsimp only
  generalize replayBound maxC4SeqLen reqToTokenCols l.compressRatio = lmax at hlens hmasks ⊢
  by_cases hnone : B.req.length = 0 ∨ lmax = 0
  · rw [if_pos hnone, if_pos hnone]
    refine ⟨_, rfl, fun t ht => ?_⟩
    have hlen : B.compressLens l.compressRatio t = 0 := by
      have := hlens t ht
      omega
    exact ⟨B.req[t], [], List.getElem?_eq_getElem ht,
      hlen ▸ (IndexOut.blank_blankFrom writeRaw t 0).selects_nothing⟩
  · have h0 : 0 < lmax := by omega
    obtain ⟨keep, hkeep, hrow⟩ := decodeKeep_spec fun hc => hmasks hc (by omega) h0
    obtain ⟨o, ho, -, hwrote⟩ := foldlM_wrote
      (W := Writes l B T (if l.config.consumes then some rows else none))
      (I := fun n o => ∀ t, n ≤ t → o t = IndexOut.blank writeRaw t)
      (decodeRow l B T lmax lmax keep) id (fun t => {t}) (fun _ _ => rfl) (List.range B.req.length)
      (fun n t hn o ho => by
        obtain ⟨hlt, rfl⟩ := List.getElem?_eq_some_iff.mp hn
        rw [List.length_range] at hlt
        rw [List.getElem_range]
        have ht := List.getElem?_eq_getElem hlt
        have hblank : (o n).BlankFrom (min l.config.indexTopk lmax) :=
          ho n (Nat.le_refl n) ▸ IndexOut.blank_blankFrom writeRaw n _
        obtain ⟨v, js, hv, hjs⟩ := decodeRow_spec (T := T) hl ht h0 (hlens n hlt) hblank keep
        refine ⟨_, hv, fun t hle => ?_, Wrote.update ⟨_, js, ht, hjs.congr fun j hj => ?_⟩⟩
        · rw [Function.update_of_ne (by omega)]
          exact ho t (by omega)
        · have := hrow n j hlt (Nat.lt_of_lt_of_le hj (hlens n hlt))
          rw [Option.map_map, Option.map_map]
          exact this)
    refine ⟨o, ?_, fun t ht => hwrote.wrote t ⟨t, List.mem_range.mpr ht, rfl⟩⟩
    rw [if_neg hnone, if_neg hnone, hkeep, Option.bind_eq_bind, Option.bind_some, ho]
    rfl

theorem decodeMask_spec (hl : l.Lawful) {lmax : Nat} (h0 : 0 < lmax) :
    (decodeMask l B T lmax).rows.length = B.req.length ∧
    ∀ r t, B.req[t]? = some r → ∃ row, (decodeMask l B T lmax).rows[t]? = some row ∧
      CandidateRow (l.blocks lmax h0) (fun j => l.score t (rowSlot T l.compressRatio r j))
        (B.compressLens l.compressRatio t) row := by
  constructor
  · unfold decodeMask
    dsimp only
    rw [hl.selectBlocks_length _ _ _ (by simp), List.length_map, List.length_range]
  · intro r t ht
    have hlt := (List.getElem?_eq_some_iff.mp ht).1
    obtain ⟨row, hrow, hcandidate⟩ := hl.selectBlocks_row
      ((List.range B.req.length).map (decodeLogits l B T))
      ((List.range B.req.length).map (B.compressLens l.compressRatio)) lmax t (decodeLogits l B T t)
      (B.compressLens l.compressRatio t) h0 (by simp) (by simp [List.getElem?_range hlt])
      (by simp [List.getElem?_range hlt])
      (fun j _ hj => by rw [decodeLogits_eq hl ht, if_neg (by omega)])
    exact ⟨row, hrow, hcandidate.congr fun j hj => by rw [decodeLogits_eq hl ht, if_pos hj]⟩

end Decode

end FlashSpark.L3.Indexer
