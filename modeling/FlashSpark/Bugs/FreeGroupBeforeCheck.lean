import FlashSpark.L4Scheduler.Rejection

/-!
# The prefill handler opens a free group before its health check

`synchronize_and_check_roce` is meant to stop a handler "before checking transport health or
consuming output" (pynccl.py:37), and the decode, idle and grammar paths check first. But
`process_batch_result_prefill` calls `free_group_begin` (batch_result_processor.py:261) before
the check of either branch (264, 416), so a failed check leaves the allocator inside a free
group that nobody closes. And a decode result that advances its grammar is checked a second
time when it is already finalized and counted.

Counterexample: one poisoned runtime, a closed allocator.

* `counted_iff`: what the second check finds written.
* `rejects_iff`: exactly when a failed check leaves everything as it was.
-/
namespace FlashSpark.Bugs.FreeGroupBeforeCheck
open L4.Scheduler

variable {G X A O W : Type}

inductive Handler where
  | prefill
  | idle
  | decode
  | advanceGrammarFsm

def Handler.run (P : Processor G X A O W) : Handler → Batch → Act G X A O W Unit
  | .prefill => P.processBatchResultPrefill
  | .idle => P.processBatchResultIdle
  | .decode => P.processBatchResultDecode
  | .advanceGrammarFsm => P.advanceGrammarFsm

/-- No request with its grammar, no result, no allocator and no stream changed. -/
structure Untouched (s s' : State G X A O W) : Prop where
  reqs : s'.reqs = s.reqs
  result : s'.result = s.result
  allocator : s'.allocator = s.allocator
  stream : s'.stream = s.stream

/-- A failed health check leaves everything as it was. -/
def Rejects (P : Processor G X A O W) (handler : Handler) (batch : Batch) (s : State G X A O W) : Prop :=
  ∀ msg s', handler.run P batch s = .error (.health msg) s' → Untouched s s'

/-- A result that was settled before: no host outputs are left and its counts are there. -/
structure Counted (result : GenerationResult) (lens : List Nat) : Prop where
  routedExpertsOutput : result.routedExpertsOutput = none
  indexerTopkOutput : result.indexerTopkOutput = none
  numCorrectDraftsPerReqCpu : result.numCorrectDraftsPerReqCpu = some (result.correctDrafts lens)
  numCorrectDrafts : result.numCorrectDrafts = (result.correctDrafts lens).sum
  numBlockAcceptTokens : result.numBlockAcceptTokens = (result.blockAcceptLens.getD []).sum
  numCapTokens : result.numCapTokens = (result.capLens.getD []).sum

theorem counted_iff {result : GenerationResult} {lens : List Nat} :
    result.finalized.counted lens = result ↔ Counted result lens := by
  constructor
  · intro h
    exact ⟨(congrArg GenerationResult.routedExpertsOutput h).symm,
      (congrArg GenerationResult.indexerTopkOutput h).symm,
      (congrArg GenerationResult.numCorrectDraftsPerReqCpu h).symm,
      (congrArg GenerationResult.numCorrectDrafts h).symm,
      (congrArg GenerationResult.numBlockAcceptTokens h).symm, (congrArg GenerationResult.numCapTokens h).symm⟩
  · intro h
    obtain ⟨h1, h2, h3, h4, h5, h6⟩ := h
    cases result
    simp_all [GenerationResult.counted, GenerationResult.finalized, GenerationResult.clearRoutedExperts,
      GenerationResult.clearIndexerTopk, GenerationResult.correctDrafts]

/-- Prefill: the check succeeds, or opening a group changes nothing. Decode: where the first check
succeeds and the second is made, that one succeeds too, or the result was settled before. -/
def Safe (P : Processor G X A O W) : Handler → Batch → State G X A O W → Prop
  | .prefill, _, s => P.failure s = none ∨ P.freeGroupBegin s.allocator = s.allocator
  | .decode, batch, s => ∀ lens, SecondCheck batch s.result lens → P.failure s = none →
      P.failure (P.checked s) = none ∨ Counted s.result lens
  | _, _, _ => True

variable {P : Processor G X A O W} {batch : Batch} {s : State G X A O W}

theorem prefill_rejects_iff : Rejects P .prefill batch s ↔ Safe P .prefill batch s := by
  constructor
  · intro h
    cases hf : P.failure s with
    | none => exact Or.inl hf
    | some msg => exact Or.inr (h msg _ (prefill_raises hf)).allocator
  · rintro hsafe msg s' hraise
    obtain ⟨hf, rfl⟩ := prefill_health hraise
    rcases hsafe with hnone | hsame
    · rw [hf] at hnone
      cases hnone
    · exact ⟨rfl, rfl, hsame, rfl⟩

theorem decode_rejects_iff : Rejects P .decode batch s ↔ Safe P .decode batch s := by
  constructor
  · intro h lens hsecond hfirst
    cases hf : P.failure (P.checked s) with
    | none => exact Or.inl rfl
    | some msg =>
      obtain ⟨s', hraise, hresult⟩ := decode_raises_second hfirst hf hsecond
      exact Or.inr (counted_iff.mp (hresult.symm.trans (h msg s' hraise).result))
  · intro hsafe msg s' hraise
    rcases decode_health hraise with ⟨-, rfl⟩ | ⟨hfirst, hf, lens, rest, hsecond, rfl⟩
    · exact ⟨rfl, rfl, rfl, rfl⟩
    · rcases hsafe lens hsecond hfirst with hnone | hcounted
      · rw [hf] at hnone
        cases hnone
      · exact ⟨rfl, counted_iff.mpr hcounted, rfl, rfl⟩

/-- **When a failed health check changes nothing.** -/
theorem rejects_iff (P : Processor G X A O W) (handler : Handler) (batch : Batch) (s : State G X A O W) :
    Rejects P handler batch s ↔ Safe P handler batch s := by
  cases handler with
  | prefill => exact prefill_rejects_iff
  | decode => exact decode_rejects_iff
  | idle =>
    refine iff_of_true (fun msg s' hraise => ?_) trivial
    obtain rfl := idle_health hraise
    exact ⟨rfl, rfl, rfl, rfl⟩
  | advanceGrammarFsm =>
    refine iff_of_true (fun msg s' hraise => ?_) trivial
    obtain ⟨-, -, rfl⟩ := advance_health hraise
    exact ⟨rfl, rfl, rfl, rfl⟩

/-! ## A poisoned runtime -/

/-- Every health check fails; the allocator is whether a free group is open. -/
def poisoned : Processor Unit Unit Bool Unit Unit where
  isGeneration := true
  enableOverlap := true
  enableOverlapMlx := false
  grammar := ⟨fun g _ => (true, g), fun _ => false⟩
  health _ _ := some "RoCE transport is poisoned"
  freeGroupBegin _ := true
  freeGroupEnd _ := false
  finalize _ := id
  onVerifyCompleteCpu _ _ := id
  reportDecode := id
  commitBeams := id
  beamTurn _ := id
  finishTurn _ _ := id
  streamOutput _ _ := id
  streamIdle _ _ := id
  consumeGeneration _ := pure ()
  consumeEmbedding _ := pure ()

def prefillBatch : Batch := ⟨⟨false, true⟩, false, true, false⟩

/-- One registered runtime, no free group. -/
def closed : State Unit Unit Bool Unit Unit :=
  ⟨[], ⟨⟨true, []⟩, none, none, none, 0, none, none, none, none, none, 0, 0, 0, false, none⟩, false, (),
    [⟨0, false⟩], 0, ()⟩

theorem group_left_open :
    ¬Rejects poisoned .prefill prefillBatch closed ∧
      ∃ s', poisoned.processBatchResultPrefill prefillBatch closed =
        .error (.health "RoCE transport is poisoned") s' ∧ s'.allocator = true := by
  have hraise := @prefill_raises Unit Unit Bool Unit Unit poisoned prefillBatch closed
    "RoCE transport is poisoned" rfl
  exact ⟨fun h => Bool.noConfusion (h _ _ hraise).allocator, _, hraise, rfl⟩

end FlashSpark.Bugs.FreeGroupBeforeCheck
