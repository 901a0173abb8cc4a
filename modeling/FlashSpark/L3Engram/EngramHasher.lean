import FlashSpark.L3Engram.HashIds
import FlashSpark.Core.Ragged

/-!
# One forward batch of the Engram hasher

`EngramHasher.forward` hashes the rows of a batch whose requests occupy runs of
consecutive rows. Decode, static verify, compact verify and extend find the run
of a row and its predecessors in different ways (`plan`, `torchTokens`).

* `forward_run`: in each of them a row's ids are those of its request's run
  alone, given the run's tokens, positions and history row (`runTokens`).
* `compact_equals_alone`: a compact ragged verify gives every real row the ids
  of a static verify of its request alone, every ghost row those of an all-PAD
  window, and changes no history row.

Tensors are functions of their indices; `history` rows are oldest first.
-/
namespace FlashSpark.L3.Engram

/-! ## The source's functions -/

inductive KMode where
  | decode | verify | extend
  deriving DecidableEq

/-- `qo_indptr` has `bs + 1` boundaries. -/
structure RaggedVerifyLayout where
  bs : Nat
  graphNumTokens : Nat
  qoIndptr : Nat → Nat

/-- The forward mode, with what `resolve_ragged_verify_layout` finds for it. -/
inductive ForwardMode where
  | decode
  | targetVerify (draftTokenNum : Nat)
  | compactVerify (layout : RaggedVerifyLayout)
  | extend (extendSeqLens extendStartLoc : Nat → Nat) (ngramHistory : Option (Nat → Nat → Int))

structure ForwardBatch where
  mode : ForwardMode
  batchSize : Nat
  reqPoolIndices : Nat → Nat
  positions : Nat → Int
  outCacheLoc : Option (Nat → Int)

/-- Which request each token belongs to and where its run starts
(compact-measured.patch:611-671); tokens at or past `numReal` are padding.
`commit` is `commit_rows` and `commit_last`. -/
structure Plan where
  kmode : KMode
  inputIds : Nat → Int
  positions : Nat → Int
  numReal : Nat
  block : Nat
  row : Nat → Nat
  starts : Nat → Nat
  commit : Option ((Nat → Nat) × (Nat → Nat))

/-- `bucketize(token_rows, qo_indptr[1:], right=True).clamp_max(bs - 1)`. -/
def RaggedVerifyLayout.row (layout : RaggedVerifyLayout) (t : Nat) : Nat :=
  min (bucketize ((List.range layout.bs).map fun b => layout.qoIndptr (b + 1)) t) (layout.bs - 1)

/-- mirrors compact-measured.patch:611-671; `none` is a failed assertion, or row -1
of a layout with no request. -/
def plan (H : Hasher) (fb : ForwardBatch) (inputIds : Nat → Int) (numTokens : Nat) : Option Plan :=
  match fb.mode with
  | .decode => some {
      kmode := .decode, inputIds, positions := fb.positions, numReal := numTokens, block := 1,
      row := fun _ => 0, starts := fun _ => 0,
      commit := some (fb.reqPoolIndices, fun b => b) }
  | .targetVerify block =>
    if numTokens = fb.batchSize * block then some {
      kmode := .verify, inputIds, positions := fb.positions, numReal := numTokens, block,
      row := fun _ => 0, starts := fun _ => 0, commit := none }
    else none
  | .compactVerify layout =>
    if layout.bs = fb.batchSize ∧ layout.graphNumTokens = numTokens ∧ 0 < layout.bs then some {
      kmode := .extend
      inputIds := fun t => if t < layout.qoIndptr layout.bs then inputIds t else 0
      positions := fun t => if t < layout.qoIndptr layout.bs then fb.positions t else -1
      numReal := numTokens, block := 1, row := layout.row, starts := layout.qoIndptr, commit := none }
    else none
  | .extend lens starts _ =>
    let row := repeatInterleave lens fb.batchSize
    some {
      kmode := .extend, inputIds, positions := fb.positions, numReal := row.length, block := 1
      row := fun t => row.getD t 0, starts
      commit := some (fun b => if 0 < lens b then fb.reqPoolIndices b else H.padRow,
        fun b => min (starts b + lens b - 1) (numTokens - 1)) }

/-- The history rows of the batch: the scheduler's predecessors when it supplied
them, else the rows of the request slots. -/
def ForwardBatch.batchHistory (fb : ForwardBatch) (history : Nat → Nat → Int) (b : Nat) : Nat → Int :=
  match fb.mode with
  | .extend _ _ (some ngramHistory) => ngramHistory b
  | _ => history (fb.reqPoolIndices b)

/-- `(n - 2 - (s - offset - 1)).clamp(0, n - 2)`. -/
def histCol (n s : Nat) (offset : Int) : Nat :=
  (min (max ((n : Int) - 2 - (s - offset - 1)) 0) ((n : Int) - 2)).toNat

/-- mirrors compact-measured.patch:725-749 (`_torch_hash_ids`): the `s`-th
predecessor of token `t`. -/
def torchTokens (H : Hasher) (P : Plan) (history : Nat → Nat → Int) (t s : Nat) : Int :=
  let n := H.maxNgramSize
  let ofRun (row : Nat) (offset : Int) : Int :=
    if (s : Int) ≤ offset then P.inputIds (t - s) else history row (histCol n s offset)
  if t < P.numReal then
    match P.kmode with
    | .decode => if s = 0 then P.inputIds t else history t (n - 2 - (s - 1))
    | .verify => ofRun (t / P.block) ((t : Int) - (t / P.block * P.block : Nat))
    | .extend => ofRun (P.row t) ((t : Int) - P.starts (P.row t))
  else 0

/-- Rows of `history` and what they are set to. -/
abbrev Commit := (Nat → Nat) × (Nat → Nat → Int)

/-- `torch.where(out_loc == 0, pad_row, commit_rows)`, when there are locations:
padded rows must not overwrite a live request's history. -/
def ForwardBatch.commitRow (fb : ForwardBatch) (padRow row last : Nat) : Nat :=
  match fb.outCacheLoc with
  | none => row
  | some outLoc => if outLoc last = 0 then padRow else row

/-- mirrors compact-measured.patch:596-708 (`EngramHasher.forward`): the hash ids of
every token, and the history rows it sets. -/
def forward (H : Hasher) (fb : ForwardBatch) (inputIds : Nat → Int) (numTokens : Nat)
    (history : Nat → Nat → Int) : Option ((Nat → HashIds) × Option Commit) :=
  if numTokens = 0 then some (fun _ => [], none)
  else (plan H fb inputIds numTokens).map fun P =>
    let tokens := torchTokens H P (fb.batchHistory history)
    (fun t => rowHashIds H (decide (t < P.numReal)) (P.positions t) (tokens t),
      P.commit.map fun (rows, last) =>
        (fun b => fb.commitRow H.padRow (rows b) (last b),
        fun b c => toInt32 (H.fillImages (tokens (last b) (H.maxNgramSize - 2 - c)))))

/-- `self.history[commit_rows] = ..`, or nothing. -/
def Commits (bs : Nat) (commit : Option Commit) (history history' : Nat → Nat → Int) : Prop :=
  match commit with
  | none => history' = history
  | some (rows, values) => Scattered bs rows values history history'

/-- mirrors compact-measured.patch:777-798 (`commit_after_verify`) on `bs` requests
of `width` verify ids each. -/
def commitAfterVerify (H : Hasher) (bs width : Nat) (reqPoolIndices : Nat → Nat)
    (verifyIds : Nat → Nat → Int) (commitLens : Nat → Nat) (history history' : Nat → Nat → Int) :
    Prop :=
  let n1 := H.maxNgramSize - 1
  let window (b c : Nat) : Int :=
    if c < n1 then history (reqPoolIndices b) c else toInt32 (verifyIds b (c - n1))
  (∀ b, b < bs → commitLens b ≤ width) ∧
    Scattered bs reqPoolIndices (fun b c => window b (commitLens b + c)) history history'

/-- mirrors compact-measured.patch:87-112 (`token_req_indices`) on `count` tokens. -/
def tokenReqIndices (fb : ForwardBatch) (count : Nat) : Option (Nat → Nat) :=
  match fb.mode with
  | .decode => some fb.reqPoolIndices
  | .targetVerify draftTokenNum => some fun t => fb.reqPoolIndices (t / draftTokenNum)
  | .compactVerify layout =>
    if count = layout.graphNumTokens ∧ fb.batchSize = layout.bs ∧ (0 < layout.bs ∨ count = 0) then
      some fun t => fb.reqPoolIndices (layout.row t)
    else none
  | .extend lens _ _ =>
    some fun t => fb.reqPoolIndices ((repeatInterleave lens fb.batchSize).getD t 0)

/-! ## Runs -/

/-- The first row of request `b`, and how many rows it has. -/
def ForwardBatch.first (fb : ForwardBatch) (b : Nat) : Nat :=
  match fb.mode with
  | .decode => b
  | .targetVerify block => b * block
  | .compactVerify layout => layout.qoIndptr b
  | .extend _ starts _ => starts b

def ForwardBatch.len (fb : ForwardBatch) (b : Nat) : Nat :=
  match fb.mode with
  | .decode => 1
  | .targetVerify block => block
  | .compactVerify layout => layout.qoIndptr (b + 1) - layout.qoIndptr b
  | .extend lens _ _ => lens b

/-- The runs are laid end to end. -/
def ForwardBatch.WF (fb : ForwardBatch) (numTokens : Nat) : Prop :=
  match fb.mode with
  | .decode => numTokens = fb.batchSize
  | .targetVerify block => numTokens = fb.batchSize * block
  | .compactVerify layout => layout.bs = fb.batchSize ∧ layout.graphNumTokens = numTokens ∧
      0 < layout.bs ∧ (∃ lens, ∀ b, b ≤ layout.bs → layout.qoIndptr b = prefixSum lens b) ∧
      layout.qoIndptr layout.bs ≤ numTokens
  | .extend lens starts _ => (∀ b, b < fb.batchSize → starts b = prefixSum lens b) ∧
      prefixSum lens fb.batchSize ≤ numTokens

/-- The `s`-th predecessor of row `i` of a run: a row of the run, else an entry of
the history row. -/
def runTokens (H : Hasher) (history : Nat → Int) (ids : Nat → Int) (i s : Nat) : Int :=
  if s ≤ i then ids (i - s) else history (H.maxNgramSize - 1 - (s - i))

theorem histCol_eq {n s i : Nat} (hs : s < n) (hi : i < s) : histCol n s i = n - 1 - (s - i) := by
  unfold histCol
  omega

/-- A row inside segment `b` is found to be in it. -/
theorem RaggedVerifyLayout.row_eq {layout : RaggedVerifyLayout} {lens : Nat → Nat} {b i : Nat}
    (hq : ∀ b, b ≤ layout.bs → layout.qoIndptr b = prefixSum lens b) (hb : b < layout.bs)
    (hi : i < lens b) : layout.row (prefixSum lens b + i) = b := by
  have hends : ((List.range layout.bs).map fun b => layout.qoIndptr (b + 1)) = ends lens layout.bs :=
    List.map_congr_left fun b hb => hq _ (List.mem_range.mp hb)
  rw [RaggedVerifyLayout.row, hends, bucketize_prefixSum hb hi]
  omega

/-- A row past every boundary goes to the last request. -/
theorem RaggedVerifyLayout.row_past {layout : RaggedVerifyLayout} {lens : Nat → Nat} {t : Nat}
    (hq : ∀ b, b ≤ layout.bs → layout.qoIndptr b = prefixSum lens b)
    (ht : prefixSum lens layout.bs ≤ t) : layout.row t = layout.bs - 1 := by
  have hends : ((List.range layout.bs).map fun b => layout.qoIndptr (b + 1)) = ends lens layout.bs :=
    List.map_congr_left fun b hb => hq _ (List.mem_range.mp hb)
  rw [RaggedVerifyLayout.row, hends, bucketize_past ht]
  omega

/-- A row at offset `i` of the run that starts at `first`, in the words of `torchTokens`. -/
theorem ofRun_eq {H : Hasher} {ids inputIds history : Nat → Int} {first i s : Nat}
    (hs : s < H.maxNgramSize) (hids : ∀ j, j ≤ i → inputIds (first + j) = ids (first + j)) :
    (if (s : Int) ≤ (i : Int) then inputIds (first + i - s)
      else history (histCol H.maxNgramSize s i)) =
    runTokens H history (fun j => ids (first + j)) i s := by
  unfold runTokens
  by_cases h : s ≤ i
  · rw [if_pos (by omega), if_pos h, Nat.add_sub_assoc h, hids _ (Nat.sub_le i s)]
  · rw [if_neg (by omega), if_neg h, histCol_eq hs (by omega)]

section Runs
variable {H : Hasher} {fb : ForwardBatch} {ids : Nat → Int} {numTokens : Nat}

theorem ForwardBatch.WF.row_lt (hwf : fb.WF numTokens) {b i : Nat} (hb : b < fb.batchSize)
    (hi : i < fb.len b) : fb.first b + i < numTokens := by
  cases hmode : fb.mode with
  | decode =>
    simp only [ForwardBatch.WF, ForwardBatch.first, ForwardBatch.len, hmode] at hwf hi ⊢
    omega
  | targetVerify block =>
    simp only [ForwardBatch.WF, ForwardBatch.first, ForwardBatch.len, hmode] at hwf hi ⊢
    have : (b + 1) * block ≤ fb.batchSize * block := Nat.mul_le_mul_right block hb
    rw [Nat.succ_mul] at this
    omega
  | compactVerify layout =>
    simp only [ForwardBatch.WF, ForwardBatch.first, ForwardBatch.len, hmode] at hwf hi ⊢
    obtain ⟨hbs, -, -, ⟨lens, hq⟩, htot⟩ := hwf
    have hend : prefixSum lens (b + 1) ≤ prefixSum lens layout.bs := prefixSum_mono (by omega)
    rw [← hq (b + 1) (by omega), ← hq layout.bs (Nat.le_refl _)] at hend
    omega
  | extend lens starts ngramHistory =>
    simp only [ForwardBatch.WF, ForwardBatch.first, ForwardBatch.len, hmode] at hwf hi ⊢
    obtain ⟨hstarts, htot⟩ := hwf
    have := prefixSum_le_of_lt lens hb
    rw [hstarts b hb]
    omega

/-- What the plan of any mode reads for row `i` of request `b`. -/
theorem plan_reads (hwf : fb.WF numTokens) {P : Plan} (hplan : plan H fb ids numTokens = some P)
    {b i : Nat} (hb : b < fb.batchSize) (hi : i < fb.len b) (history : Nat → Nat → Int) :
    fb.first b + i < P.numReal ∧ P.positions (fb.first b + i) = fb.positions (fb.first b + i) ∧
      ∀ s, s < H.maxNgramSize → torchTokens H P history (fb.first b + i) s =
        runTokens H (history b) (fun j => ids (fb.first b + j)) i s := by
  have hlt := hwf.row_lt hb hi
  cases hmode : fb.mode with
  | decode =>
    simp only [ForwardBatch.WF, ForwardBatch.first, ForwardBatch.len, hmode] at hwf hi hlt ⊢
    simp only [plan, hmode, Option.some.injEq] at hplan
    subst hplan
    obtain rfl : i = 0 := by omega
    refine ⟨hlt, rfl, fun s hs => ?_⟩
    simp only [torchTokens, runTokens, Nat.add_zero, if_pos (show b < numTokens by omega)]
    cases s with
    | zero => rfl
    | succ s => rw [if_neg (by omega), if_neg (by omega)]; congr 1; omega
  | targetVerify block =>
    simp only [ForwardBatch.WF, ForwardBatch.first, ForwardBatch.len, hmode] at hwf hi hlt ⊢
    simp only [plan, hmode, if_pos hwf, Option.some.injEq] at hplan
    subst hplan
    have hrow : (b * block + i) / block = b := by
      rw [Nat.mul_comm, Nat.mul_add_div (by omega), Nat.div_eq_of_lt hi, Nat.add_zero]
    refine ⟨hlt, rfl, fun s hs => ?_⟩
    simp only [torchTokens, if_pos hlt, hrow]
    rw [show ((b * block + i : Nat) : Int) - ((b * block : Nat) : Int) = i by push_cast; omega]
    exact ofRun_eq hs fun _ _ => rfl
  | compactVerify layout =>
    simp only [ForwardBatch.WF, ForwardBatch.first, ForwardBatch.len, hmode] at hwf hi hlt ⊢
    obtain ⟨hbs, hgraph, hpos, ⟨lens, hq⟩, -⟩ := hwf
    simp only [plan, hmode, if_pos (And.intro hbs (And.intro hgraph hpos)), Option.some.injEq]
      at hplan
    subst hplan
    rw [← hbs] at hb
    rw [hq b (by omega), hq (b + 1) hb, prefixSum, Nat.add_sub_cancel_left] at hi
    rw [hq b (by omega)] at hlt ⊢
    have hend := prefixSum_le_of_lt lens hb
    rw [← hq layout.bs (Nat.le_refl _)] at hend
    have hrow := RaggedVerifyLayout.row_eq hq hb hi
    refine ⟨hlt, if_pos (by omega), fun s hs => ?_⟩
    simp only [torchTokens, if_pos hlt, hrow, hq b (Nat.le_of_lt hb)]
    rw [show ((prefixSum lens b + i : Nat) : Int) - (prefixSum lens b : Nat) = i by push_cast; omega]
    exact @ofRun_eq H ids (fun t => if t < layout.qoIndptr layout.bs then ids t else 0) (history b)
      (prefixSum lens b) i s hs fun j hj => if_pos (by omega)
  | extend lens starts ngramHistory =>
    simp only [ForwardBatch.WF, ForwardBatch.first, ForwardBatch.len, hmode] at hwf hi hlt ⊢
    obtain ⟨hstarts, htot⟩ := hwf
    simp only [plan, hmode, Option.some.injEq] at hplan
    subst hplan
    rw [hstarts b hb]
    have hend := prefixSum_le_of_lt lens hb
    have hreal : prefixSum lens b + i < (repeatInterleave lens fb.batchSize).length := by
      rw [repeatInterleave_length]; omega
    have hrow : (repeatInterleave lens fb.batchSize).getD (prefixSum lens b + i) 0 = b := by
      rw [List.getD_eq_getElem?_getD, repeatInterleave_getElem? hb hi]; rfl
    refine ⟨hreal, rfl, fun s hs => ?_⟩
    simp only [torchTokens, if_pos hreal, hrow, hstarts b hb]
    rw [show ((prefixSum lens b + i : Nat) : Int) - (prefixSum lens b : Nat) = i by push_cast; omega]
    exact ofRun_eq hs fun _ _ => rfl

/-- The ids of row `i` of request `b` are those of its run alone. -/
theorem forward_run (hwf : fb.WF numTokens) {history : Nat → Nat → Int}
    {hashes : Nat → HashIds} {commit : Option Commit}
    (h : forward H fb ids numTokens history = some (hashes, commit)) {b i : Nat}
    (hb : b < fb.batchSize) (hi : i < fb.len b) : hashes (fb.first b + i) =
      rowHashIds H true (fb.positions (fb.first b + i))
        (runTokens H (fb.batchHistory history b) (fun j => ids (fb.first b + j)) i) := by
  unfold forward at h
  split at h
  · have := hwf.row_lt hb hi
    omega
  · obtain ⟨P, hplan, hP⟩ := Option.map_eq_some_iff.mp h
    obtain ⟨rfl, -⟩ := Prod.mk.inj hP
    obtain ⟨hreal, hpos, htok⟩ := plan_reads hwf hplan hb hi (fb.batchHistory history)
    simp only [decide_eq_true hreal, hpos]
    exact rowHashIds_congr htok

/-- Decode and extend commit; verify does not. -/
def ForwardMode.commits : ForwardMode → Bool
  | .decode => true
  | .extend _ _ _ => true
  | _ => false

/-- Where a committing mode sends request `b`, and the row it commits. -/
theorem plan_commit (hc : fb.mode.commits = true) (hwf : fb.WF numTokens) {P : Plan}
    (hplan : plan H fb ids numTokens = some P) : ∃ rows last, P.commit = some (rows, last) ∧
      ∀ b, b < fb.batchSize →
        (1 ≤ fb.len b → rows b = fb.reqPoolIndices b ∧ last b = fb.first b + (fb.len b - 1)) ∧
        (fb.len b = 0 → rows b = H.padRow) := by
  cases hm : fb.mode with
  | decode =>
    simp only [plan, hm, Option.some.injEq] at hplan
    subst hplan
    refine ⟨_, _, rfl, fun b _ => ⟨fun _ => ⟨rfl, ?_⟩, fun h0 => ?_⟩⟩
    · simp [ForwardBatch.first, ForwardBatch.len, hm]
    · simp [ForwardBatch.len, hm] at h0
  | targetVerify block => rw [hm] at hc; cases hc
  | compactVerify layout => rw [hm] at hc; cases hc
  | extend lens starts ngramHistory =>
    simp only [plan, hm, Option.some.injEq] at hplan
    subst hplan
    refine ⟨_, _, rfl, fun b hb => ⟨fun h1 => ?_, fun h0 => ?_⟩⟩
    · have hlt := hwf.row_lt hb (show fb.len b - 1 < fb.len b by omega)
      simp only [ForwardBatch.first, ForwardBatch.len, hm] at h1 hlt ⊢
      exact ⟨if_pos (by omega), by omega⟩
    · simp only [ForwardBatch.len, hm] at h0
      exact if_neg (by omega)

theorem plan_no_commit (hc : fb.mode.commits = false) {P : Plan}
    (hplan : plan H fb ids numTokens = some P) : P.commit = none := by
  cases hm : fb.mode with
  | decode => rw [hm] at hc; cases hc
  | extend lens starts ngramHistory => rw [hm] at hc; cases hc
  | targetVerify block =>
    simp only [plan, hm, Option.ite_none_right_eq_some, Option.some.injEq] at hplan
    rw [← hplan.2]
  | compactVerify layout =>
    simp only [plan, hm, Option.ite_none_right_eq_some, Option.some.injEq] at hplan
    rw [← hplan.2]

/-- A verify forward changes no history row. -/
theorem forward_no_commit (hc : fb.mode.commits = false) {history : Nat → Nat → Int}
    {hashes : Nat → HashIds} {commit : Option Commit}
    (h : forward H fb ids numTokens history = some (hashes, commit)) : commit = none := by
  unfold forward at h
  split at h
  · exact (Prod.mk.inj (Option.some.inj h)).2.symm
  · obtain ⟨P, hplan, hP⟩ := Option.map_eq_some_iff.mp h
    rw [← (Prod.mk.inj hP).2, plan_no_commit hc hplan]
    rfl

/-- A batch laid out so passes the assertions. -/
theorem forward_total (hwf : fb.WF numTokens) (history : Nat → Nat → Int) :
    ∃ hashes commit, forward H fb ids numTokens history = some (hashes, commit) := by
  unfold forward
  split
  · exact ⟨_, _, rfl⟩
  · cases hm : fb.mode with
    | decode =>
      simp only [plan, hm]
      exact ⟨_, _, rfl⟩
    | targetVerify block =>
      simp only [ForwardBatch.WF, hm] at hwf
      simp only [plan, hm, if_pos hwf]
      exact ⟨_, _, rfl⟩
    | compactVerify layout =>
      simp only [ForwardBatch.WF, hm] at hwf
      obtain ⟨hbs, hgraph, hpos, -, -⟩ := hwf
      simp only [plan, hm, if_pos (And.intro hbs (And.intro hgraph hpos))]
      exact ⟨_, _, rfl⟩
    | extend lens starts ngramHistory =>
      simp only [plan, hm]
      exact ⟨_, _, rfl⟩

end Runs

/-! ## Compact ragged verify -/

/-- `bs` requests with `lens b` rows each, in a graph of `m` tokens. -/
def compactBatch (bs m : Nat) (lens slots : Nat → Nat) (positions : Nat → Int)
    (outCacheLoc : Option (Nat → Int)) : ForwardBatch where
  mode := .compactVerify ⟨bs, m, prefixSum lens⟩
  batchSize := bs
  reqPoolIndices := slots
  positions := positions
  outCacheLoc := outCacheLoc

/-- One request of `len` rows through static verify. -/
def aloneBatch (len slot : Nat) (positions : Nat → Int) (outCacheLoc : Option (Nat → Int)) :
    ForwardBatch where
  mode := .targetVerify len
  batchSize := 1
  reqPoolIndices _ := slot
  positions := positions
  outCacheLoc := outCacheLoc

/-- **Compact verify is verifying each request alone.** Whatever the lengths (zeros
included), slots, ids and positions: a real row has the ids its request's rows get
alone, from the same history, and belongs to its own request in `forward` and in
`token_req_indices`; a row past the total has the ids of an all-PAD window and the
last request's slot; the history stays as it was. Without requests there is no last
one, and the graph has no rows. -/
theorem compact_equals_alone (H : Hasher) {bs m : Nat} (hbs : 0 < bs ∨ m = 0) {lens : Nat → Nat}
    (hm : prefixSum lens bs ≤ m) (slots : Nat → Nat) (ids positions : Nat → Int)
    (outCacheLoc : Option (Nat → Int)) (history : Nat → Nat → Int) :
    let layout : RaggedVerifyLayout := ⟨bs, m, prefixSum lens⟩
    ∃ hashes commit req,
      forward H (compactBatch bs m lens slots positions outCacheLoc) ids m history =
        some (hashes, commit) ∧
      tokenReqIndices (compactBatch bs m lens slots positions outCacheLoc) m = some req ∧
      (∀ b i, b < bs → i < lens b → prefixSum lens b + i < m ∧
        layout.row (prefixSum lens b + i) = b ∧ req (prefixSum lens b + i) = slots b ∧
        ∃ alone commit', forward H
            (aloneBatch (lens b) (slots b) (fun i => positions (prefixSum lens b + i)) outCacheLoc)
            (fun i => ids (prefixSum lens b + i)) (lens b) history = some (alone, commit') ∧
          hashes (prefixSum lens b + i) = alone i) ∧
      (∀ t, prefixSum lens bs ≤ t → t < m → hashes t = padHashIds H ∧
        layout.row t = bs - 1 ∧ req t = slots (bs - 1)) ∧
      ∀ history', Commits bs commit history history' → history' = history := by
  intro layout
  obtain rfl | hpos := Nat.eq_zero_or_pos bs
  · have hm0 : m = 0 := by omega
    exact ⟨_, _, fun t => slots (layout.row t), if_pos hm0, if_pos ⟨rfl, rfl, .inr hm0⟩,
      fun b i hb => absurd hb (Nat.not_lt_zero b), fun t _ ht => by omega, fun _ h => h⟩
  have hq : ∀ b, b ≤ layout.bs → layout.qoIndptr b = prefixSum lens b := fun _ _ => rfl
  have hwf : (compactBatch bs m lens slots positions outCacheLoc).WF m :=
    ⟨rfl, rfl, hpos, ⟨lens, hq⟩, hm⟩
  obtain ⟨hashes, commit, hfwd⟩ := @forward_total H _ ids _ hwf history
  obtain rfl := forward_no_commit rfl hfwd
  refine ⟨hashes, none, fun t => slots (layout.row t), hfwd, if_pos ⟨rfl, rfl, .inl hpos⟩,
    fun b i hb hi => ?_, fun t ht htm => ?_, fun _ h => h⟩
  · have hrow := RaggedVerifyLayout.row_eq hq hb hi
    have hlen : i < (compactBatch bs m lens slots positions outCacheLoc).len b := by
      simpa [ForwardBatch.len, compactBatch, prefixSum] using hi
    refine ⟨hwf.row_lt hb hlen, hrow, congrArg slots hrow, ?_⟩
    have hwf₁ : (aloneBatch (lens b) (slots b) (fun i => positions (prefixSum lens b + i))
        outCacheLoc).WF (lens b) := (Nat.one_mul _).symm
    obtain ⟨alone, commit', hfwd₁⟩ :=
      @forward_total H _ (fun i => ids (prefixSum lens b + i)) _ hwf₁ history
    refine ⟨alone, commit', hfwd₁, (forward_run hwf hfwd hb hlen).trans ?_⟩
    have hrun := forward_run hwf₁ hfwd₁ Nat.one_pos hi
    simp only [ForwardBatch.first, aloneBatch, Nat.zero_mul, Nat.zero_add] at hrun
    exact hrun.symm
  · have hrow := RaggedVerifyLayout.row_past hq ht
    refine ⟨?_, hrow, congrArg slots hrow⟩
    unfold forward at hfwd
    rw [if_neg (by omega)] at hfwd
    obtain ⟨P, hplan, hP⟩ := Option.map_eq_some_iff.mp hfwd
    obtain ⟨rfl, -⟩ := Prod.mk.inj hP
    simp only [plan, compactBatch, true_and, if_pos hpos, Option.some.injEq] at hplan
    subst hplan
    dsimp only
    rw [if_neg (by omega)]
    exact rowHashIds_ghost H _ _

def smallHasher : Hasher where
  maxNgramSize := 3
  two_le := by decide
  padId := 0
  tokenMap token := token % 100
  multipliers := [[3, 5, 7]]
  primes := [[[11, 13], [17, 19]]]
  offsets := [[0, 11, 24, 41]]
  imageTokenId := some 99
  image_fits image h := by
    obtain rfl := Option.some.inj h
    constructor <;> decide
  mmPadShift := 1000000
  padRow := 4

/-- Requests in slots 2, 0 and 1 with 1, 0 and 2 rows, in a graph of 5. -/
theorem emptyRun_rows : ∃ hashes commit req, forward smallHasher
      (compactBatch 3 5 ([1, 0, 2].getD · 0) ([2, 0, 1].getD · 0) (fun t => t) none)
      (fun t => 10 + t) 5 (fun _ _ => 7) = some (hashes, commit) ∧
    tokenReqIndices (compactBatch 3 5 ([1, 0, 2].getD · 0) ([2, 0, 1].getD · 0) (fun t => t) none) 5 =
      some req ∧
    req 0 = 2 ∧ req 2 = 1 ∧ req 4 = 1 ∧ hashes 4 = padHashIds smallHasher := by
  obtain ⟨hashes, commit, req, hfwd, hreq, hreal, hghost, -⟩ :=
    compact_equals_alone smallHasher (show 0 < 3 ∨ 5 = 0 by decide)
      (show prefixSum ([1, 0, 2].getD · 0) 3 ≤ 5 by decide) ([2, 0, 1].getD · 0)
      (fun t => 10 + t) (fun t => t) none (fun _ _ => 7)
  exact ⟨hashes, commit, req, hfwd, hreq, (hreal 0 0 (by decide) (by decide)).2.2.1,
    (hreal 2 1 (by decide) (by decide)).2.2.1, (hghost 4 (by decide) (by decide)).2.2,
    (hghost 4 (by decide) (by decide)).1⟩

end FlashSpark.L3.Engram
