import FlashSpark.Core.Raise

/-!
# Token buckets of the compact verify graphs

A verify batch packs a different number of rows for each request; a graph is captured
for each of a list of token counts (the buckets), with as many request slots as fit. The
buckets come from the capture list or from the environment
(`buildRaggedVerifyTokenBuckets`); the slots of a graph are computed three times, where
it is captured, where a batch is admitted (`canRunRaggedVerifyGraph`) and where it is
replayed (`loadBatch`).

* `build_spec`: what an accepted list of buckets is.
* `legal_batch_admitted`: every legal batch has a bucket, is admitted to its graph and
  fits it.

`int`, and the rounding to a bucket, are parameters.
-/
namespace FlashSpark.L4.VerifyBuckets

inductive Exc where
  | valueError (text : String)
  | indexError (text : String)
  | runtimeError (text : String)
  | assertionError (text : String)
  deriving DecidableEq

/-! ## The runner -/

/-- `sorted(set(values))`. -/
def sortedSet (values : List Int) : List Int := values.dedup.insertionSort (· ≤ ·)

/-- What the runner's buckets depend on: `get_batch_sizes_to_capture`, the request width,
`SGLANG_DSPARK_COMPACT_TOKEN_BUCKETS` and
`SGLANG_TEST_RAGGED_VERIFY_FORCE_UNIFORM_CAPTURE`. -/
structure Settings where
  captureBs : List Int
  capturedReqWidth : Int
  explicit : String
  forceUniformCapture : Bool

/-- `values[-1]`. -/
def last (values : List Int) : Except Exc Int :=
  match values.getLast? with
  | some value => .ok value
  | none => .error (.indexError "list index out of range")

section Build
variable (int : String → Except Exc Int)

/-- The test of the explicit list; `or` stops at the first that holds.
mirrors compact-measured.patch:1882-1888. -/
def invalidBuckets (requested buckets : List Int) (forceUniformCapture : Bool) : Except Exc Bool := do
  if requested ≠ sortedSet requested then return true
  match requested.head? with
  | none => return true
  | some first =>
    if first < 1 then return true
    if (← last requested) ≠ (← last buckets) then return true
    return forceUniformCapture

/-- The buckets of the capture list, or the ones asked for. -/
def chosenBuckets (S : Settings) : Except Exc (List Int) :=
  let buckets := sortedSet (S.captureBs.map (· * S.capturedReqWidth))
  if S.explicit = "" then .ok buckets
  else do
    let requested ← (S.explicit.splitOn ",").mapM int
    if ← invalidBuckets requested buckets S.forceUniformCapture then
      throw (.valueError "Invalid compact token buckets or uniform-capture conflict")
    return requested

/-- mirrors compact-measured.patch:1877-1892 (`_build_ragged_verify_token_buckets`). -/
def buildRaggedVerifyTokenBuckets (S : Settings) : Except Exc (List Int) := do
  let buckets ← chosenBuckets int S
  if ∃ first ∈ buckets.head?, 0 < first then return buckets
  throw (.assertionError s!"buckets={buckets}")

end Build

/-- The fields of the runner that admission and replay read. -/
structure Runner where
  maxBs : Int
  capturedReqWidth : Int
  captureNumTokens : List Int
  forceUniformCapture : Bool
  supportsRaggedVerifyGraph : Bool
  requireMlpSync : Bool
  isEncoderDecoder : Bool
  captureHiddenMode : Nat

/-- `max(values)`. -/
def largest (values : List Int) : Except Exc Int :=
  match values.max? with
  | some m => .ok m
  | none => .error (.valueError "max() arg is an empty sequence")

/-- mirrors compact-measured.patch:1672-1688, in a compact verify runner that differs from
`base` in its buckets. -/
def Runner.init (int : String → Except Exc Int) (S : Settings) (base : Runner) : Except Exc Runner := do
  let maxBs ← largest S.captureBs
  let captureNumTokens ← buildRaggedVerifyTokenBuckets int S
  return { base with
    maxBs := maxBs, capturedReqWidth := S.capturedReqWidth, captureNumTokens := captureNumTokens,
    forceUniformCapture := S.forceUniformCapture }

structure ForwardBatch where
  batchSize : Int
  canRunDecodeCudaGraph : Bool
  encoderLens : List Int
  captureHiddenMode : Nat

/-- `RaggedVerifyLayout`: the lengths of a batch's requests, and the graph size. -/
structure Layout where
  verifyLens : List Int
  graphNumTokens : Int

section Users
variable (r : Runner)

/-- mirrors compact-measured.patch:1987-1990 (`_ragged_capture_slots`). -/
def Runner.raggedCaptureSlots (numTokens : Int) : Int :=
  if r.forceUniformCapture then numTokens.fdiv r.capturedReqWidth else min numTokens r.maxBs

/-- mirrors compact-measured.patch:1992-2013 (`_capture_ragged_verify_layout`): the lengths
a graph is captured with, from `build_capture_verify_lens(num_tokens, num_slots, width)`. -/
def Runner.captureRaggedVerifyLayout (buildCaptureVerifyLens : Int → Int → Int → List Int)
    (numTokens : Int) : Option (List Int) :=
  if r.forceUniformCapture then none
  else some (buildCaptureVerifyLens numTokens (r.raggedCaptureSlots numTokens) r.capturedReqWidth)

/-- The token and slot test (compact-measured.patch:2119-2122). -/
def Runner.isTokensSupported (fb : ForwardBatch) (layout : Layout) : Except Exc Bool := do
  let admissionTokens := layout.graphNumTokens
  if admissionTokens ≤ (← last r.captureNumTokens) then
    return decide (fb.batchSize ≤ r.raggedCaptureSlots admissionTokens)
  return false

/-- mirrors compact-measured.patch:2115-2143 (`_can_run_ragged_verify_graph`). -/
def Runner.canRunRaggedVerifyGraph (fb : ForwardBatch) (layout : Layout) : Except Exc Bool := do
  if !r.supportsRaggedVerifyGraph then return false
  let isTokensSupported ← r.isTokensSupported fb layout
  let isDpSupported := if r.requireMlpSync then fb.canRunDecodeCudaGraph else true
  let isEncoderLensSupported := if r.isEncoderDecoder then fb.encoderLens.all (0 < ·) else true
  let captureHiddenModeMatches := decide (fb.captureHiddenMode ≤ r.captureHiddenMode)
  return isTokensSupported && isDpSupported && isEncoderLensSupported && captureHiddenModeMatches

/-- What `load_batch` fixes of a ragged batch. -/
structure Loaded where
  rawBs : Int
  rawNumToken : Int
  bs : Int
  graphSizeKey : Int
  paddedNumTokens : Int
  deriving DecidableEq

/-- mirrors compact-measured.patch:2697-2715 (`load_batch`), a ragged batch whose metadata
is not yet planned; `roundUpGrid total grid` is `ragged_verify.round_up_grid`
(compact-measured.patch:2816-2819). -/
def Runner.loadBatch (roundUpGrid : Int → List Int → Int) (fb : ForwardBatch) (layout : Layout) :
    Except Exc Loaded := do
  if r.captureHiddenMode < fb.captureHiddenMode then
    throw (.runtimeError "The runtime hidden-state mode exceeds the fixed CUDA graph capture mode")
  let rawBs := fb.batchSize
  let rawNumToken := layout.graphNumTokens
  let graphSizeKey := roundUpGrid rawNumToken r.captureNumTokens
  if graphSizeKey ≠ layout.graphNumTokens then
    throw (.assertionError (s!"ragged verify tier mismatch: runner tier {graphSizeKey} != " ++
      s!"layout graph_num_tokens {rawNumToken}"))
  let bs := r.raggedCaptureSlots graphSizeKey
  if ¬ rawBs ≤ bs then
    throw (.assertionError (s!"ragged capture slots {bs} (tier {graphSizeKey}) < raw_bs " ++
      s!"{rawBs}; the planner must reject this batch before replay"))
  return ⟨rawBs, rawNumToken, bs, graphSizeKey, graphSizeKey⟩

end Users

/-! ## An accepted list -/

theorem last_eq {values : List Int} {m : Int} : last values = .ok m ↔ values.getLast? = some m := by
  unfold last
  cases values.getLast? with
  | none => simp
  | some value => simp

theorem mem_sortedSet {values : List Int} {x : Int} : x ∈ sortedSet values ↔ x ∈ values := by
  rw [sortedSet, List.mem_insertionSort, List.mem_dedup]

theorem sortedSet_pairwise (values : List Int) : (sortedSet values).Pairwise (· ≤ ·) :=
  List.pairwise_insertionSort _ _

/-- The last of a sorted list is its maximum. -/
theorem greatest_of_last {values : List Int} (hsorted : values.Pairwise (· ≤ ·)) {m : Int}
    (h : last values = .ok m) : IsGreatest {b | b ∈ values} m := by
  obtain ⟨init, rfl⟩ := List.getLast?_eq_some_iff.mp (last_eq.mp h)
  refine ⟨List.mem_append_right _ List.mem_cons_self, fun b hb => ?_⟩
  rcases List.mem_append.mp hb with hb | hb
  · exact (List.pairwise_append.mp hsorted).2.2 b hb m List.mem_cons_self
  · rw [List.mem_singleton.mp hb]

theorem last_of_greatest {values : List Int} (hsorted : values.Pairwise (· ≤ ·)) {m : Int}
    (h : IsGreatest {b | b ∈ values} m) : last values = .ok m := by
  cases hlast : last values with
  | ok m' => rw [(greatest_of_last hsorted hlast).unique h]
  | error e =>
    have hnil : values = [] := by
      unfold last at hlast
      cases hvals : values.getLast? with
      | none => exact List.getLast?_eq_none_iff.mp hvals
      | some value => rw [hvals] at hlast; cases hlast
    rw [hnil] at h
    cases h.1

/-- What the list is, explicit or derived: sorted, with the largest derived bucket last. -/
structure Accepted (S : Settings) (buckets : List Int) : Prop where
  sorted : buckets.Pairwise (· ≤ ·)
  largest : last buckets = last (sortedSet (S.captureBs.map (· * S.capturedReqWidth)))
  pos : ∀ b ∈ buckets, 1 ≤ b

theorem invalidBuckets_false {requested buckets : List Int} {force : Bool}
    (h : invalidBuckets requested buckets force = .ok false) :
    requested = sortedSet requested ∧ last requested = last buckets := by
  unfold invalidBuckets at h
  by_cases hsorted : requested = sortedSet requested
  · rw [if_neg (not_not.mpr hsorted)] at h
    split at h
    · cases h
    · rename_i first hhead
      by_cases hfirst : first < 1
      · rw [if_pos hfirst] at h
        cases h
      · rw [if_neg hfirst, except_bind_ok] at h
        obtain ⟨x, hx, h⟩ := h
        obtain ⟨y, hy, h⟩ := except_bind_ok.mp h
        by_cases hxy : x = y
        · exact ⟨hsorted, by rw [hx, hy, hxy]⟩
        · rw [if_pos hxy] at h
          cases h
  · rw [if_pos hsorted] at h
    cases h

theorem chosenBuckets_ok {int : String → Except Exc Int} {S : Settings} {chosen : List Int}
    (h : chosenBuckets int S = .ok chosen) : chosen.Pairwise (· ≤ ·) ∧
      last chosen = last (sortedSet (S.captureBs.map (· * S.capturedReqWidth))) := by
  unfold chosenBuckets at h
  dsimp only at h
  split at h
  · cases h
    exact ⟨sortedSet_pairwise _, rfl⟩
  · obtain ⟨requested, -, h⟩ := except_bind_ok.mp h
    obtain ⟨invalid, htest, h⟩ := except_bind_ok.mp h
    cases invalid with
    | true => cases h
    | false =>
      cases h
      obtain ⟨hsorted, hlast⟩ := invalidBuckets_false htest
      refine ⟨?_, hlast⟩
      rw [hsorted]
      exact sortedSet_pairwise _

theorem build_spec {int : String → Except Exc Int} {S : Settings} {buckets : List Int}
    (h : buildRaggedVerifyTokenBuckets int S = .ok buckets) : Accepted S buckets := by
  obtain ⟨chosen, hchosen, h⟩ := except_bind_ok.mp h
  obtain ⟨hsorted, hlargest⟩ := chosenBuckets_ok hchosen
  by_cases hfirst : ∃ first ∈ chosen.head?, 0 < first
  · rw [if_pos hfirst] at h
    cases h
    refine ⟨hsorted, hlargest, fun b hb => ?_⟩
    obtain ⟨first, hhead, hpos⟩ := hfirst
    obtain ⟨rest, rfl⟩ := List.head?_eq_some_iff.mp hhead
    rcases List.mem_cons.mp hb with rfl | hb
    · omega
    · have := (List.pairwise_cons.mp hsorted).1 b hb
      omega
  · rw [if_neg hfirst] at h
    cases h

/-- The largest bucket is a full batch of full requests. -/
theorem Accepted.greatest {S : Settings} {buckets : List Int} (h : Accepted S buckets)
    (hwidth : 0 ≤ S.capturedReqWidth) {maxBs : Int} (hmax : IsGreatest {bs | bs ∈ S.captureBs} maxBs) :
    last buckets = .ok (maxBs * S.capturedReqWidth) ∧
      IsGreatest {b | b ∈ buckets} (maxBs * S.capturedReqWidth) := by
  have hderived : IsGreatest {b | b ∈ sortedSet (S.captureBs.map (· * S.capturedReqWidth))}
      (maxBs * S.capturedReqWidth) := by
    constructor
    · exact mem_sortedSet.mpr (List.mem_map_of_mem hmax.1)
    · intro b hb
      obtain ⟨bs, hbs, rfl⟩ := List.mem_map.mp (mem_sortedSet.mp hb)
      exact Int.mul_le_mul_of_nonneg_right (hmax.2 hbs) hwidth
  have hlast := h.largest.trans (last_of_greatest (sortedSet_pairwise _) hderived)
  exact ⟨hlast, greatest_of_last h.sorted hlast⟩

/-! ## A runner -/

/-- What the users of the buckets rely on. -/
structure Runner.Built (r : Runner) (S : Settings) : Prop where
  maxBs : IsGreatest {bs | bs ∈ S.captureBs} r.maxBs
  capturedReqWidth : r.capturedReqWidth = S.capturedReqWidth
  forceUniformCapture : r.forceUniformCapture = S.forceUniformCapture
  last : last r.captureNumTokens = .ok (r.maxBs * r.capturedReqWidth)
  greatest : IsGreatest {b | b ∈ r.captureNumTokens} (r.maxBs * r.capturedReqWidth)

theorem Runner.init_built {int : String → Except Exc Int} {S : Settings} {base r : Runner}
    (hwidth : 0 ≤ S.capturedReqWidth) (h : Runner.init int S base = .ok r) : r.Built S := by
  obtain ⟨maxBs, hmax, h⟩ := except_bind_ok.mp h
  obtain ⟨buckets, hbuckets, h⟩ := except_bind_ok.mp h
  cases h
  have hgreatest : IsGreatest {bs | bs ∈ S.captureBs} maxBs := by
    unfold VerifyBuckets.largest at hmax
    split at hmax
    · rename_i m hm
      cases hmax
      exact List.max?_eq_some_iff.mp hm
    · cases hmax
  obtain ⟨hlast, hlargest⟩ := (build_spec hbuckets).greatest hwidth hgreatest
  exact ⟨hgreatest, rfl, rfl, hlast, hlargest⟩

/-- A verify batch: one to `max_bs` requests of one to `width` rows each. -/
structure Legal (r : Runner) (fb : ForwardBatch) (layout : Layout) : Prop where
  batchSize : fb.batchSize = layout.verifyLens.length
  pos : 1 ≤ fb.batchSize
  le_maxBs : fb.batchSize ≤ r.maxBs
  lens : ∀ len ∈ layout.verifyLens, 1 ≤ len ∧ len ≤ r.capturedReqWidth

/-- The buckets that hold `total` rows. -/
def Holding (buckets : List Int) (total : Int) : Set Int := {b | b ∈ buckets ∧ total ≤ b}

/-- Rounding up gives the least bucket, where there is one. -/
def RoundsUp (roundUpGrid : Int → List Int → Int) : Prop :=
  ∀ total grid b, IsLeast (Holding grid total) b → roundUpGrid total grid = b

theorem length_le_sum {lens : List Int} {lo : Int} (h : ∀ len ∈ lens, lo ≤ len) :
    lens.length * lo ≤ lens.sum := by
  have := List.card_nsmul_le_sum lens lo h
  rwa [nsmul_eq_mul] at this

theorem sum_le_length {lens : List Int} {hi : Int} (h : ∀ len ∈ lens, len ≤ hi) :
    lens.sum ≤ lens.length * hi := by
  have := List.sum_le_card_nsmul lens hi h
  rwa [nsmul_eq_mul] at this

/-- Between one row and `width` rows a slot, any number of rows can be dealt out. -/
theorem exists_lens {width : Int} (hwidth : 1 ≤ width) (slots : Nat) {total : Int} (hlo : slots ≤ total)
    (hhi : total ≤ slots * width) : ∃ lens : List Int, lens.length = slots ∧
      (∀ len ∈ lens, 1 ≤ len ∧ len ≤ width) ∧ lens.sum = total := by
  induction slots generalizing total with
  | zero =>
    refine ⟨[], rfl, by simp, ?_⟩
    simp only [Nat.cast_zero, Int.zero_mul] at hlo hhi
    exact Int.le_antisymm hlo hhi
  | succ slots ih =>
    -- the first slot takes all it can without starving the others
    rw [Nat.cast_succ] at hlo hhi
    rw [Int.add_mul, Int.one_mul] at hhi
    have hslots : (slots : Int) ≤ slots * width := by
      have := Int.mul_le_mul_of_nonneg_left hwidth (Int.natCast_nonneg slots)
      rwa [Int.mul_one] at this
    obtain ⟨lens, hlen, hall, hsum⟩ := @ih (total - min width (total - slots)) (by omega) (by omega)
    refine ⟨min width (total - slots) :: lens, by rw [List.length_cons, hlen], fun len h => ?_, ?_⟩
    · rcases List.mem_cons.mp h with rfl | h
      · omega
      · exact hall len h
    · rw [List.sum_cons, hsum]
      omega

namespace Legal
variable {r : Runner} {S : Settings} {fb : ForwardBatch} {layout : Layout}

theorem bounds (h : Legal r fb layout) :
    fb.batchSize ≤ layout.verifyLens.sum ∧ layout.verifyLens.sum ≤ fb.batchSize * r.capturedReqWidth := by
  have hlo := length_le_sum fun len hl => (h.lens len hl).1
  have hhi := sum_le_length fun len hl => (h.lens len hl).2
  rw [h.batchSize]
  exact ⟨by omega, hhi⟩

/-- Some bucket holds the batch, so a least one does. -/
theorem exists_bucket (h : Legal r fb layout) (hr : r.Built S) (hwidth : 1 ≤ r.capturedReqWidth) :
    ∃ b, IsLeast (Holding r.captureNumTokens layout.verifyLens.sum) b := by
  have hbatch := Int.mul_le_mul_of_nonneg_right h.le_maxBs (Int.le_trans (by decide) hwidth)
  have hlargest : r.maxBs * r.capturedReqWidth ∈ Holding r.captureNumTokens layout.verifyLens.sum :=
    ⟨hr.greatest.1, Int.le_trans h.bounds.2 hbatch⟩
  have hfinite : (Holding r.captureNumTokens layout.verifyLens.sum).Finite :=
    r.captureNumTokens.finite_toSet.subset fun _ hb => hb.1
  obtain ⟨b, hb, hmin⟩ := hfinite.exists_minimal ⟨_, hlargest⟩
  exact ⟨b, hb, fun c hc => by
    rcases Int.le_total b c with hle | hle
    · exact hle
    · exact hmin hc hle⟩

/-- The graph of a legal batch has a slot for each request, and room for the bucket. -/
theorem slots (h : Legal r fb layout) (hr : r.Built S) (hwidth : 1 ≤ r.capturedReqWidth)
    (hforce : r.forceUniformCapture = false)
    (hgraph : IsLeast (Holding r.captureNumTokens layout.verifyLens.sum) layout.graphNumTokens) :
    r.raggedCaptureSlots layout.graphNumTokens = min layout.graphNumTokens r.maxBs ∧
      fb.batchSize ≤ min layout.graphNumTokens r.maxBs ∧
      layout.graphNumTokens ≤ min layout.graphNumTokens r.maxBs * r.capturedReqWidth := by
  obtain ⟨hmem, htotal⟩ := hgraph.1
  have hpos := h.pos
  have hbatch : fb.batchSize ≤ layout.graphNumTokens := Int.le_trans h.bounds.1 htotal
  refine ⟨?_, le_min hbatch h.le_maxBs, ?_⟩
  · rw [Runner.raggedCaptureSlots, hforce]
    rfl
  · rcases Int.le_total layout.graphNumTokens r.maxBs with hle | hle
    · -- one slot a row
      rw [min_eq_left hle]
      have := Int.mul_le_mul_of_nonneg_left hwidth (by omega : 0 ≤ layout.graphNumTokens)
      omega
    · rw [min_eq_right hle]
      exact hr.greatest.2 hmem

theorem tokens_supported (h : Legal r fb layout) (hr : r.Built S) (hwidth : 1 ≤ r.capturedReqWidth)
    (hforce : r.forceUniformCapture = false)
    (hgraph : IsLeast (Holding r.captureNumTokens layout.verifyLens.sum) layout.graphNumTokens) :
    r.isTokensSupported fb layout = .ok true := by
  obtain ⟨hslots, hbatch, -⟩ := h.slots hr hwidth hforce hgraph
  refine except_bind_ok.mpr ⟨_, hr.last, ?_⟩
  rw [if_pos (hr.greatest.2 hgraph.1.1), hslots, decide_eq_true hbatch]
  rfl

theorem load (h : Legal r fb layout) (hr : r.Built S) (hwidth : 1 ≤ r.capturedReqWidth)
    (hforce : r.forceUniformCapture = false)
    (hgraph : IsLeast (Holding r.captureNumTokens layout.verifyLens.sum) layout.graphNumTokens)
    {roundUpGrid : Int → List Int → Int} (hround : RoundsUp roundUpGrid) :
    r.loadBatch roundUpGrid fb layout =
      if r.captureHiddenMode < fb.captureHiddenMode then
        .error (.runtimeError "The runtime hidden-state mode exceeds the fixed CUDA graph capture mode")
      else .ok ⟨fb.batchSize, layout.graphNumTokens, min layout.graphNumTokens r.maxBs,
        layout.graphNumTokens, layout.graphNumTokens⟩ := by
  obtain ⟨hslots, hbatch, -⟩ := h.slots hr hwidth hforce hgraph
  -- the layout's bucket rounds to itself
  have hself : roundUpGrid layout.graphNumTokens r.captureNumTokens = layout.graphNumTokens :=
    hround _ _ _ ⟨⟨hgraph.1.1, Int.le_refl _⟩, fun b hb => hb.2⟩
  unfold Runner.loadBatch
  split
  · rfl
  · dsimp only
    rw [hself, if_neg (not_not.mpr rfl), hslots, if_neg (not_not.mpr hbatch)]
    rfl

end Legal

/-! ## Headline -/

/-- **Every legal verify batch is admitted to a compact graph that fits it.** Some bucket
holds its rows. At the least one, which the layout rounds to: the token and slot test
accepts, so only the other admission tests decide; the graph has a slot for every request,
as many as it was captured with, and its bucket can be dealt out in at most `width` rows a
slot; neither assertion of `load_batch` fires. -/
theorem legal_batch_admitted {int : String → Except Exc Int} {S : Settings} {base r : Runner}
    (hinit : Runner.init int S base = .ok r) (hwidth : 1 ≤ S.capturedReqWidth)
    (hforce : S.forceUniformCapture = false) {fb : ForwardBatch} {layout : Layout}
    (h : Legal r fb layout) :
    (∃ b, IsLeast (Holding r.captureNumTokens layout.verifyLens.sum) b) ∧
    (IsLeast (Holding r.captureNumTokens layout.verifyLens.sum) layout.graphNumTokens →
      ∀ roundUpGrid, RoundsUp roundUpGrid → ∃ slots : Nat,
        r.isTokensSupported fb layout = .ok true ∧
        r.canRunRaggedVerifyGraph fb layout = .ok (r.supportsRaggedVerifyGraph &&
          ((!r.requireMlpSync || fb.canRunDecodeCudaGraph) &&
          (!r.isEncoderDecoder || fb.encoderLens.all (0 < ·)) &&
          decide (fb.captureHiddenMode ≤ r.captureHiddenMode))) ∧
        r.raggedCaptureSlots layout.graphNumTokens = slots ∧
        (∀ build, r.captureRaggedVerifyLayout build layout.graphNumTokens =
          some (build layout.graphNumTokens slots r.capturedReqWidth)) ∧
        fb.batchSize ≤ slots ∧ layout.graphNumTokens ≤ slots * r.capturedReqWidth ∧
        (∃ lens : List Int, lens.length = slots ∧ (∀ len ∈ lens, 1 ≤ len ∧ len ≤ r.capturedReqWidth) ∧
          lens.sum = layout.graphNumTokens) ∧
        (fb.captureHiddenMode ≤ r.captureHiddenMode → r.loadBatch roundUpGrid fb layout =
          .ok ⟨fb.batchSize, layout.graphNumTokens, slots, layout.graphNumTokens,
            layout.graphNumTokens⟩) ∧
        ∀ text, r.loadBatch roundUpGrid fb layout ≠ .error (.assertionError text)) := by
  have hr := Runner.init_built (Int.le_trans (by decide) hwidth) hinit
  have hwidth' : 1 ≤ r.capturedReqWidth := by rw [hr.capturedReqWidth]; exact hwidth
  have hforce' : r.forceUniformCapture = false := by rw [hr.forceUniformCapture]; exact hforce
  refine ⟨h.exists_bucket hr hwidth', fun hgraph roundUpGrid hround => ?_⟩
  obtain ⟨hslots, hbatch, hroom⟩ := h.slots hr hwidth' hforce' hgraph
  have hpos := h.pos
  obtain ⟨slots, heq⟩ : ∃ slots : Nat, (slots : Int) = min layout.graphNumTokens r.maxBs :=
    ⟨(min layout.graphNumTokens r.maxBs).toNat, Int.toNat_of_nonneg (by omega)⟩
  have hsupported := h.tokens_supported hr hwidth' hforce' hgraph
  have hload := h.load hr hwidth' hforce' hgraph hround
  rw [← heq] at hslots hbatch hroom hload
  refine ⟨slots, hsupported, ?_, hslots, fun build => ?_, hbatch, hroom,
    exists_lens hwidth' slots (by omega) hroom, fun hmode => ?_, fun text => ?_⟩
  · unfold Runner.canRunRaggedVerifyGraph
    cases r.supportsRaggedVerifyGraph with
    | false => rfl
    | true =>
      rw [hsupported]
      cases r.requireMlpSync <;> cases r.isEncoderDecoder <;> rfl
  · rw [Runner.captureRaggedVerifyLayout, hforce', hslots]
    rfl
  · rw [hload, if_neg (Nat.not_lt.mpr hmode)]
  · rw [hload]
    split <;> simp

/-! ## Two requests in graphs for up to four -/

def upToFour : Settings := ⟨[1, 2, 4], 3, "", false⟩

def upToFourRunner : Runner := ⟨4, 3, [3, 6, 12], false, true, false, false, 0⟩

def leastBucket (total : Int) (grid : List Int) : Int := ((grid.filter (total ≤ ·)).min?).getD 0

theorem leastBucket_roundsUp : RoundsUp leastBucket := by
  intro total grid b hb
  have hmin : (grid.filter (total ≤ ·)).min? = some b := by
    rw [List.min?_eq_some_iff]
    constructor
    · exact List.mem_filter.mpr ⟨hb.1.1, decide_eq_true hb.1.2⟩
    · intro c hc
      obtain ⟨hmem, hle⟩ := List.mem_filter.mp hc
      exact hb.2 ⟨hmem, of_decide_eq_true hle⟩
  rw [leastBucket, hmin, Option.getD_some]

/-- Requests of three rows and of one go to the graph of six rows. -/
def threeAndOne : Layout := ⟨[3, 1], 6⟩

theorem threeAndOne_admitted :
    upToFourRunner.isTokensSupported ⟨2, true, [], 0⟩ threeAndOne = .ok true ∧
      ∀ text, upToFourRunner.loadBatch leastBucket ⟨2, true, [], 0⟩ threeAndOne ≠
        .error (.assertionError text) := by
  have hinit : Runner.init (fun _ => .error (.valueError "")) upToFour upToFourRunner = .ok upToFourRunner :=
    rfl
  have hlegal : Legal upToFourRunner ⟨2, true, [], 0⟩ threeAndOne := ⟨rfl, by decide, by decide, by decide⟩
  obtain ⟨-, h⟩ := legal_batch_admitted hinit (by decide) rfl hlegal
  have hleast : IsLeast (Holding upToFourRunner.captureNumTokens threeAndOne.verifyLens.sum)
      threeAndOne.graphNumTokens := by
    refine ⟨⟨by decide, by decide⟩, fun b hb => ?_⟩
    obtain ⟨hmem, hle⟩ := hb
    simp only [upToFourRunner, threeAndOne, List.mem_cons, List.not_mem_nil, or_false] at hmem hle ⊢
    simp only [List.sum_cons, List.sum_nil] at hle
    omega
  obtain ⟨slots, hsupported, -, -, -, -, -, -, -, hassert⟩ := h hleast leastBucket leastBucket_roundsUp
  exact ⟨hsupported, hassert⟩

end FlashSpark.L4.VerifyBuckets
