import FlashSpark.L4Scheduler.PrefillLogprobs

/-!
# A skipped request keeps its logprobs in the way

A request that finished or was retracted before its result is processed still has its
rows in the result. `process_batch_result_prefill` moves `hidden_state_offset` over them
and then skips the request (batch_result_processor.py:303-327); `logprob_pt` moves only
behind the skip (:366-375, :396-404), so the requests after it are given rows that start
too early.

Counterexample: a retracted request with three rows before one that asked for its two.

* `slices_aligned_iff`: exactly which batches hand every request its own rows.
-/
namespace FlashSpark.Bugs.SkippedLogprobs
open L4.Scheduler L4.Scheduler.Prefill

variable {G H X : Type}

section Batch
variable (C : Calls G H X) (reqs : List (Req G (Asked H X))) (lens starts : List Nat)

/-- A request that is still there and asked for logprobs. -/
def Asks (k : Nat) (req : Req G (Asked H X)) : Prop :=
  reqs[k]? = some req ∧ req.live = true ∧ req.rest.returnLogprob = true

/-- The rows of request `k` start where those of all requests before it end. Who has none
may be given nothing. -/
def GivenOwn (slices : List Slice) (k : Nat) (req : Req G (Asked H X)) : Prop :=
  slices.filter (fun s => s.req == k) =
      [⟨k, prefixSum (numInputLogprobs C reqs lens starts) k, numInputLogprobs C reqs lens starts k,
        decide (req.inflightMiddleChunks ≤ 0)⟩] ∨
    (slices.filter (fun s => s.req == k) = [] ∧ numInputLogprobs C reqs lens starts k = 0)

/-- What the loop should hand over. -/
def Aligned (slices : List Slice) : Prop :=
  ∀ k req, Asks reqs k req → GivenOwn C reqs lens starts slices k req

/-- The loop moves over the logprobs of request `j`. -/
def Counted (j : Nat) : Prop :=
  ∃ req, reqs[j]? = some req ∧ counted req (lens.getD j 0) (starts.getD j 0) = true

/-- No rows are left uncounted before a request that is given its own, and who asks is
counted or has no rows. -/
def NoneLeft : Prop :=
  ∀ k req, Asks reqs k req →
    (Counted reqs lens starts k ∧ ∀ j, j < k → ¬ Counted reqs lens starts j →
      numInputLogprobs C reqs lens starts j = 0) ∨
    (¬ Counted reqs lens starts k ∧ numInputLogprobs C reqs lens starts k = 0)

end Batch

section Aligned
variable {C : Calls G H X} {reqs : List (Req G (Asked H X))} {lens starts : List Nat} {k : Nat}
  {req : Req G (Asked H X)}

theorem counted_iff (hreq : reqs[k]? = some req) :
    Counted reqs lens starts k ↔ counted req (lens.getD k 0) (starts.getD k 0) = true := by
  constructor
  · intro h
    obtain ⟨req', hreq', h⟩ := h
    rw [hreq] at hreq'
    cases hreq'
    exact h
  · intro h
    exact ⟨req, hreq, h⟩

/-- `logprob_pt` moves by the rows of a counted request. -/
theorem logprobStep_counted (h : Counted reqs lens starts k) :
    logprobStep C reqs lens starts k = numInputLogprobs C reqs lens starts k := by
  obtain ⟨req, hreq, h⟩ := h
  rw [logprobStep, hreq]
  dsimp only
  rw [if_pos h]

theorem logprobStep_not_counted (h : ¬ Counted reqs lens starts k) : logprobStep C reqs lens starts k = 0 := by
  unfold logprobStep
  split
  · rename_i req hreq
    rw [if_neg fun hc => h ⟨req, hreq, hc⟩]
  · rfl

/-- `logprob_pt` is behind all rows of the requests before `k`. -/
theorem logprobPt_iff : prefixSum (logprobStep C reqs lens starts) k =
    prefixSum (numInputLogprobs C reqs lens starts) k ↔
      ∀ j, j < k → ¬ Counted reqs lens starts j → numInputLogprobs C reqs lens starts j = 0 := by
  rw [prefixSum_eq_iff (logprobStep_le C)]
  refine forall_congr' fun j => forall_congr' fun _ => ?_
  by_cases hj : Counted reqs lens starts j
  · exact ⟨fun _ h => absurd hj h, fun _ => logprobStep_counted hj⟩
  · rw [logprobStep_not_counted hj]
    exact ⟨fun h _ => h.symm, fun h => (h hj).symm⟩

theorem handed_counted (hk : Asks reqs k req) (h : Counted reqs lens starts k) :
    handed C reqs lens starts k = [⟨k, prefixSum (logprobStep C reqs lens starts) k,
      numInputLogprobs C reqs lens starts k, decide (req.inflightMiddleChunks ≤ 0)⟩] := by
  obtain ⟨hreq, -, hask⟩ := hk
  have hc := (counted_iff hreq).mp h
  rw [handed, hreq]
  dsimp only
  rw [hc, hask, Bool.true_and, if_pos rfl]

theorem handed_not_counted (h : ¬ Counted reqs lens starts k) : handed C reqs lens starts k = [] := by
  unfold handed
  split
  · rename_i req hreq
    have hc : counted req (lens.getD k 0) (starts.getD k 0) = false :=
      Bool.eq_false_iff.mpr fun hc => h ⟨req, hreq, hc⟩
    rw [hc, Bool.false_and, if_neg Bool.false_ne_true]
  · rfl

theorem givenOwn_iff (hk : Asks reqs k req) {slices : List Slice}
    (hs : slices.filter (fun s => s.req == k) = handed C reqs lens starts k) :
    GivenOwn C reqs lens starts slices k req ↔
      (Counted reqs lens starts k ∧ ∀ j, j < k → ¬ Counted reqs lens starts j →
        numInputLogprobs C reqs lens starts j = 0) ∨
      (¬ Counted reqs lens starts k ∧ numInputLogprobs C reqs lens starts k = 0) := by
  unfold GivenOwn
  rw [hs]
  by_cases hc : Counted reqs lens starts k
  · rw [handed_counted hk hc, ← logprobPt_iff]
    constructor
    · intro h
      rcases h with h | ⟨h, -⟩
      · exact .inl ⟨hc, congrArg Slice.start (List.singleton_inj.mp h)⟩
      · cases h
    · intro h
      rcases h with ⟨-, h⟩ | ⟨h, -⟩
      · exact .inl (by rw [h])
      · exact absurd hc h
  · rw [handed_not_counted hc]
    constructor
    · intro h
      rcases h with h | ⟨-, h⟩
      · cases h
      · exact .inr ⟨hc, h⟩
    · intro h
      rcases h with ⟨h, -⟩ | ⟨-, h⟩
      · exact absurd h hc
      · exact .inr ⟨rfl, h⟩

end Aligned

/-- **Where the logprobs stay aligned.** Both offsets go over the batch, the hidden states'
over every request; and every request that asks is given its own rows exactly if no rows
before them are left uncounted. -/
theorem slices_aligned_iff (C : Calls G H X) {batch : PrefillBatch} {result : PrefillResult H}
    {reqs : List (Req G (Asked H X))} {lens starts : List Nat} (hlog : batch.returnLogprob = true)
    (h : Shaped batch result reqs lens starts) (o : Offsets) :
    ∃ reqs' acc, prefill C batch result reqs o = .ok reqs' acc ∧
      acc.hiddenStateOffset = prefixSum (fun j => hiddenStep batch result (lens.getD j 0)) reqs.length ∧
      (Aligned C reqs lens starts acc.slices ↔ NoneLeft C reqs lens starts) := by
  obtain ⟨reqs', skip, hprefill⟩ := prefill_ok C hlog h o
  refine ⟨reqs', _, hprefill, rfl, forall_congr' fun k => forall_congr' fun req => ?_⟩
  refine forall_congr' fun hk => givenOwn_iff hk (slices_of C k ?_)
  obtain ⟨hreq, -⟩ := hk
  exact (List.getElem?_eq_some_iff.mp hreq).1

/-! ## A retracted request before a live one -/

def wholePrompt : Calls Unit Unit Unit where
  commitBeams _ := ([], none)
  updateFinishState _ := none
  grammar := { acceptToken := fun g _ => (true, g), isTerminated := fun _ => false }
  calculateNumInputLogprobs _ len start := len - start
  printed _ := ""

def asking (isRetracted : Bool) : Req Unit (Asked Unit Unit) where
  outputIds := []
  kvCommittedLen := 0
  specVerifyCt := 0
  specNumCorrectDrafts := 0
  correctDraftsHistogram := []
  specNumBlockAcceptTokens := 0
  specNumCapTokens := 0
  capLensHistogram := []
  grammar := none
  grammarFinished := false
  toFinish := none
  finishedReason := none
  isRetracted
  inflightMiddleChunks := 0
  hasBeamGroup := false
  rest := { returnLogprob := true, returnHiddenStates := .no, hiddenStates := [], rest := () }

def logprobsOnly : PrefillBatch where
  returnHiddenStates := false
  returnLogprob := true
  specIsNone := true
  decodes _ := false
  captureHiddenMode := .null

def twoPrompts : PrefillResult Unit where
  nextTokenIds := [7, 7]
  hiddenStates := none
  extendInputLenPerReq := some [3, 2]
  extendLogprobStartLenPerReq := some [0, 0]
  grammarAdvanced := false

theorem twoPrompts_shaped (a b : Bool) :
    Shaped logprobsOnly twoPrompts [asking a, asking b] [3, 2] [0, 0] :=
  ⟨rfl, rfl, rfl, rfl, rfl, fun _ h => nomatch h⟩

/-- With both requests there, each is given its own rows. -/
theorem both_aligned : ∃ reqs' acc,
    prefill wholePrompt logprobsOnly twoPrompts [asking false, asking false] ⟨0, 0, none, []⟩ = .ok reqs' acc ∧
      acc.hiddenStateOffset = 0 ∧
      (Aligned wholePrompt [asking false, asking false] [3, 2] [0, 0] acc.slices ↔
        NoneLeft wholePrompt [asking false, asking false] [3, 2] [0, 0]) :=
  slices_aligned_iff wholePrompt rfl (twoPrompts_shaped false false) _

/-- Behind a retracted request, row 3 is expected and row 0 is given. -/
theorem row_of_retracted_given : ∃ reqs' acc,
    prefill wholePrompt logprobsOnly twoPrompts [asking true, asking false] ⟨0, 0, none, []⟩ = .ok reqs' acc ∧
      acc.slices = [⟨1, 0, 2, true⟩] ∧
      prefixSum (numInputLogprobs wholePrompt [asking true, asking false] [3, 2] [0, 0]) 1 = 3 ∧
      ¬ Aligned wholePrompt [asking true, asking false] [3, 2] [0, 0] acc.slices := by
  refine ⟨_, _, rfl, rfl, rfl, fun h => ?_⟩
  rcases h 1 (asking false) ⟨rfl, rfl, rfl⟩ with h | ⟨h, -⟩
  · exact absurd (congrArg (List.map Slice.start) h) (by decide)
  · cases h

end FlashSpark.Bugs.SkippedLogprobs
