import FlashSpark.Core.Mem
import FlashSpark.Core.Raise
import FlashSpark.L4Scheduler.Grammar

/-!
# The batch result processor

`SchedulerBatchResultProcessor` (batch_result_processor.py): the health check that every
handler makes (`synchronize_and_check_roce`, pynccl.py:36-48), `advance_grammar_fsm`,
`_resolve_spec_v2_tokens` and the handlers of decode, idle and prefill results.

The requests are the ones of the batch; a batch and its queued copy hold the same. What
the handlers call outside these functions (the finish state of a request, beams, metrics,
the allocator, the streamer, the rest of the prefill handler) are fields of `Processor`.

* `check_ok`, `check_error`: a check succeeds or raises, and touches the runtimes only.
* `advanceGrammarFsm_skips`: a result is advanced once, and only by a batch that carries
  `has_grammar`.
* `decode_checked`: the decode handler behind a check that succeeds.
-/
namespace FlashSpark.L4.Scheduler

/-! ## Data -/

inductive FinishReason where
  | abort
  | other (kind : Nat)
  deriving DecidableEq

/-- A request; `rest` is what the modelled code hands to others only. -/
structure Req (G X : Type) where
  outputIds : List Token
  kvCommittedLen : Int
  specVerifyCt : Nat
  specNumCorrectDrafts : Int
  /-- The arguments of `update_spec_correct_drafts_histogram`. -/
  correctDraftsHistogram : List Int
  specNumBlockAcceptTokens : Int
  specNumCapTokens : Int
  /-- The arguments of `update_spec_cap_lens_histogram`. -/
  capLensHistogram : List Int
  grammar : Option G
  grammarFinished : Bool
  toFinish : Option FinishReason
  finishedReason : Option FinishReason
  isRetracted : Bool
  inflightMiddleChunks : Int
  hasBeamGroup : Bool
  rest : X

def Req.finished {G X : Type} (req : Req G X) : Bool := req.finishedReason.isSome

/-- Neither finished nor retracted. -/
def Req.live {G X : Type} (req : Req G X) : Bool := !(req.isRetracted || req.finished)

/-- What `_accept_grammar_tokens` does to a request. -/
def Req.accept {G X : Type} (req : Req G X) (accepted : Accepted G) : Req G X :=
  { req with
    grammar := some accepted.grammar
    toFinish := if accepted.rejected then some .abort else req.toFinish }

structure Tensor (α : Type) where
  isCpu : Bool
  tolist : List α

structure GenerationResult where
  nextTokenIds : Tensor Token
  acceptLens : Option (Tensor Nat)
  speculativeOutputStride : Option Int
  speculativeNumDraftTokens : Option Int
  numNonDraftTokensPerReq : Int
  blockAcceptLens : Option (List Int)
  capLens : Option (List Int)
  routedExpertsOutput : Option Nat
  indexerTopkOutput : Option Nat
  numCorrectDraftsPerReqCpu : Option (List Int)
  numCorrectDrafts : Int
  numBlockAcceptTokens : Int
  numCapTokens : Int
  grammarAdvanced : Bool
  grammarRetainedTokens : Option (List (Option (List Token)))

/-- mirrors batch_result_processor.py:726-728 -/
def GenerationResult.correctDrafts (result : GenerationResult) (acceptLens : List Nat) : List Int :=
  acceptLens.map fun length : Nat => (length : Int) - result.numNonDraftTokensPerReq

/-- What `_resolve_spec_v2_tokens` counts before it advances the grammar.
mirrors batch_result_processor.py:726-740 -/
def GenerationResult.counted (result : GenerationResult) (acceptLens : List Nat) : GenerationResult :=
  { result with
    numCorrectDraftsPerReqCpu := some (result.correctDrafts acceptLens)
    numCorrectDrafts := (result.correctDrafts acceptLens).sum
    numBlockAcceptTokens := (result.blockAcceptLens.getD []).sum
    numCapTokens := (result.capLens.getD []).sum }

/-- mirrors batch_result_processor.py:873-874 -/
def GenerationResult.advanced (result : GenerationResult) (retained : List (Option (List Token))) :
    GenerationResult :=
  { result with grammarRetainedTokens := some retained, grammarAdvanced := true }

def GenerationResult.clearRoutedExperts (result : GenerationResult) : GenerationResult :=
  { result with routedExpertsOutput := none }

def GenerationResult.clearIndexerTopk (result : GenerationResult) : GenerationResult :=
  { result with indexerTopkOutput := none }

/-- A result whose host outputs were finalized. -/
def GenerationResult.finalized (result : GenerationResult) : GenerationResult :=
  result.clearRoutedExperts.clearIndexerTopk

structure ForwardMode where
  isDecode : Bool
  isExtend : Bool

structure Batch where
  forwardMode : ForwardMode
  hasGrammar : Bool
  /-- `batch.spec_algorithm.is_none()`. -/
  specIsNone : Bool
  returnLogprob : Bool

/-- The copy that waits for its result does not carry `has_grammar`.
mirrors batch_result_processor.py:749-753 -/
def Batch.queuedCopy (batch : Batch) : Batch := { batch with hasGrammar := false }

inductive PyError where
  | runtimeError (msg : String)
  | assertionError
  | attributeError
  | typeError
  | indexError
  | valueError (msg : String)
  deriving DecidableEq

inductive Raised where
  /-- `runtime.check_health()` raised. -/
  | health (msg : String)
  | py (e : PyError)
  deriving DecidableEq

structure Runtime where
  id : Nat
  postResultLogged : Bool
  deriving DecidableEq

/-- What the handlers work on: the batch's requests and result, the KV allocator with its
free group, the output stream, the registered runtimes and how many health checks were made. -/
structure State (G X A O W : Type) where
  reqs : List (Req G X)
  result : GenerationResult
  allocator : A
  stream : O
  runtimes : List Runtime
  checks : Nat
  rest : W

/-- The processor, and what it calls. `health k runtime` is what the runtime's check says in
check number `k`. -/
structure Processor (G X A O W : Type) where
  isGeneration : Bool
  enableOverlap : Bool
  enableOverlapMlx : Bool
  grammar : Automaton G
  health : Nat → Runtime → Option String
  freeGroupBegin : A → A
  freeGroupEnd : A → A
  finalize : Nat → W → W
  onVerifyCompleteCpu : List Int → Nat → W → W
  reportDecode : W → W
  /-- `beam_coordinator.commit_decode`. -/
  commitBeams : List (Req G X) → List (Req G X)
  beamTurn : Nat → Req G X → Req G X
  /-- From the reasoning tokens of a request to its hidden states; lines 970-1002. -/
  finishTurn : Nat → List Token → Req G X → Req G X
  streamOutput : List (Req G X) → Bool → O → O
  streamIdle : List (Req G X) → Bool → O → O
  /-- The prefill handler behind its health check; lines 265-413. -/
  consumeGeneration : Batch → EStateM PyError (State G X A O W) Unit
  /-- The same for embedding and reward models; lines 418-449. -/
  consumeEmbedding : Batch → EStateM PyError (State G X A O W) Unit

abbrev Act (G X A O W α : Type) : Type := EStateM Raised (State G X A O W) α

variable {G X A O W : Type}

def onReqs {α : Type} (x : EStateM PyError (List (Req G X)) α) : Act G X A O W α :=
  zoom (fun s => s.reqs) (fun reqs s => { s with reqs }) .py x

/-! ## The health check -/

/-- mirrors pynccl.py:44-48 -/
def checkRuntimes (health : Runtime → Option String) : List Runtime → Option String × List Runtime
  | [] => (none, [])
  | runtime :: runtimes =>
    match health runtime with
    | some msg => (some msg, runtime :: runtimes)
    | none =>
      let rest := checkRuntimes health runtimes
      (rest.1, { runtime with postResultLogged := true } :: rest.2)

namespace Processor
variable (P : Processor G X A O W)

/-- What the next health check raises. -/
def failure (s : State G X A O W) : Option String := (checkRuntimes (P.health s.checks) s.runtimes).1

/-- The state after a health check. -/
def checked (s : State G X A O W) : State G X A O W :=
  { s with runtimes := (checkRuntimes (P.health s.checks) s.runtimes).2, checks := s.checks + 1 }

/-- The wait before the check, on the event or on the device, touches nothing that is modelled.
mirrors pynccl.py:36-48 (`synchronize_and_check_roce`) -/
def synchronizeAndCheckRoce : Act G X A O W Unit := fun s =>
  match P.failure s with
  | some msg => .error (.health msg) (P.checked s)
  | none => .ok () (P.checked s)

end Processor

/-! ## Reading a result -/

/-- `l[i]`, of a list that may be `None`. -/
def subscript {σ α : Type} (l : Option (List α)) (i : Nat) : EStateM PyError σ α :=
  match l with
  | none => throw .typeError
  | some l => match l[i]? with
    | none => throw .indexError
    | some a => pure a

/-- mirrors batch_result_processor.py:83-90 (`_get_speculative_output_stride`) -/
def getSpeculativeOutputStride (result : GenerationResult) : Except PyError Nat :=
  match result.speculativeOutputStride.or result.speculativeNumDraftTokens with
  | none => .error (.runtimeError "speculative result is missing a positive output row stride")
  | some stride =>
    if stride < 1 then .error (.runtimeError "speculative result is missing a positive output row stride")
    else .ok stride.toNat

/-- A computation that reads no state. -/
def ofExcept {α : Type} (x : Except PyError α) : Act G X A O W α := fun s =>
  match x with
  | .ok a => .ok a s
  | .error e => .error (.py e) s

/-! ## The grammar -/

namespace Processor
variable (P : Processor G X A O W)

/-- One request of a prefill result.
mirrors batch_result_processor.py:845-853 -/
def advanceExtendTurn (nextTokenIds : List Token) (i : Nat) : EStateM PyError (Req G X) Unit := do
  let req ← get
  match req.grammar with
  | none => pure ()
  | some grammar =>
    if req.isRetracted || req.finished || decide (0 < req.inflightMiddleChunks) then pure ()
    else do
      let tokenId ← subscript (some nextTokenIds) i
      set (req.accept (acceptGrammarTokens P.grammar grammar [tokenId]))

/-- One request of a decode result.
mirrors batch_result_processor.py:866-872 -/
def advanceDecodeTurn (nextTokenIds : List Token) (acceptLens : List Nat) (stride i : Nat) :
    EStateM PyError (Req G X) (Option (List Token)) := do
  let req ← get
  match req.grammar with
  | none => pure none
  | some grammar =>
    if req.isRetracted || req.finished then pure none
    else do
      let acceptLen ← subscript (some acceptLens) i
      let accepted := acceptGrammarTokens P.grammar grammar (block nextTokenIds (i * stride) acceptLen)
      set (req.accept accepted)
      pure (some accepted.retained)

/-- mirrors batch_result_processor.py:820-874 (`advance_grammar_fsm`) -/
def advanceGrammarFsm (batch : Batch) : Act G X A O W Unit := do
  let result := (← get).result
  if result.grammarAdvanced || !batch.hasGrammar then pure ()
  else if !(batch.forwardMode.isDecode || batch.forwardMode.isExtend) then pure ()
  else do
    P.synchronizeAndCheckRoce
    let nextTokenIds := result.nextTokenIds.tolist
    if !batch.forwardMode.isDecode then do
      let _ ← onReqs (turns (P.advanceExtendTurn nextTokenIds) 0)
      modify fun s => { s with result := { s.result with grammarAdvanced := true } }
    else match result.acceptLens with
      | none => pure ()
      | some acceptLens => do
        let stride ← ofExcept (getSpeculativeOutputStride result)
        let retained ← onReqs (turns (P.advanceDecodeTurn nextTokenIds acceptLens.tolist stride) 0)
        modify fun s => { s with result := s.result.advanced retained }

end Processor

/-! ## Settling a speculative result -/

/-- The run that a live request commits.
mirrors batch_result_processor.py:765-768 -/
def runToSettle {σ : Type} (result : GenerationResult) (accepted : List Token) (i : Nat) (req : Req G X) :
    EStateM PyError σ (List Token) :=
  if req.grammar.isSome then do
    let retained ← subscript result.grammarRetainedTokens i
    match retained with
    | none => throw .typeError
    | some run => pure run
  else pure accepted

/-- mirrors batch_result_processor.py:770-773 -/
def Req.commit (numAcceptTokens : Nat) (req : Req G X) : Req G X :=
  { req with kvCommittedLen := req.kvCommittedLen + numAcceptTokens, specVerifyCt := req.specVerifyCt + 1 }

/-- mirrors batch_result_processor.py:775-777 -/
def Req.addCorrectDrafts (n : Int) (req : Req G X) : Req G X :=
  { req with
    specNumCorrectDrafts := req.specNumCorrectDrafts + n
    correctDraftsHistogram := req.correctDraftsHistogram ++ [n] }

/-- mirrors batch_result_processor.py:779-780 -/
def Req.addBlockAccepts (n : Int) (req : Req G X) : Req G X :=
  { req with specNumBlockAcceptTokens := req.specNumBlockAcceptTokens + n }

/-- mirrors batch_result_processor.py:781-783 -/
def Req.addCaps (n : Int) (req : Req G X) : Req G X :=
  { req with specNumCapTokens := req.specNumCapTokens + n, capLensHistogram := req.capLensHistogram ++ [n] }

/-- mirrors batch_result_processor.py:967 -/
def Req.extendOutput (req : Req G X) (nextTokenId : List Token) : Req G X :=
  { req with outputIds := req.outputIds ++ nextTokenId }

/-- Entry `i` of a count that the result may not have. -/
def addOptional (counts : Option (List Int)) (add : Int → Req G X → Req G X) (i : Nat) :
    EStateM PyError (Req G X) Unit :=
  if counts.isSome then do
    let n ← subscript counts i
    modify (add n)
  else pure ()

/-- mirrors batch_result_processor.py:757-785 -/
def settleTurn (result : GenerationResult) (nextTokenIds : List Token) (acceptLens : List Nat)
    (stride i : Nat) : EStateM PyError (Req G X) (List Token) := do
  let acceptLen ← subscript (some acceptLens) i
  let accepted := block nextTokenIds (i * stride) acceptLen
  let req ← get
  if req.isRetracted || req.finished then pure accepted
  else do
    let run ← runToSettle result accepted i req
    modify (Req.commit run.length)
    let numCorrectDrafts ← subscript result.numCorrectDraftsPerReqCpu i
    modify (Req.addCorrectDrafts numCorrectDrafts)
    addOptional result.blockAcceptLens Req.addBlockAccepts i
    addOptional result.capLens Req.addCaps i
    pure run

namespace Processor
variable (P : Processor G X A O W)

/-- mirrors batch_result_processor.py:713-787 (`_resolve_spec_v2_tokens`) -/
def resolveSpecV2Tokens (batch : Batch) : Act G X A O W (List (List Token)) := do
  let result := (← get).result
  if !result.nextTokenIds.isCpu then throw (.py .assertionError)
  else match result.acceptLens with
    | none => throw (.py .attributeError)
    | some acceptLens =>
      if !acceptLens.isCpu then throw (.py .assertionError)
      else do
        let stride ← ofExcept (getSpeculativeOutputStride result)
        modify fun s => { s with
          result := s.result.counted acceptLens.tolist
          rest := P.onVerifyCompleteCpu (result.correctDrafts acceptLens.tolist) s.reqs.length s.rest }
        P.advanceGrammarFsm batch
        let result := (← get).result
        onReqs (turns (settleTurn result result.nextTokenIds.tolist acceptLens.tolist stride) 0)

/-! ## The handlers -/

/-- One host output, where the result has it. -/
def finalizeOutput (output : Option Nat) (clear : GenerationResult → GenerationResult) : Act G X A O W Unit :=
  match output with
  | none => pure ()
  | some o => modify fun s => { s with result := clear s.result, rest := P.finalize o s.rest }

/-- mirrors batch_result_processor.py:895-900 -/
def finalizeOutputs : Act G X A O W Unit := do
  let result := (← get).result
  P.finalizeOutput result.routedExpertsOutput GenerationResult.clearRoutedExperts
  P.finalizeOutput result.indexerTopkOutput GenerationResult.clearIndexerTopk

/-- mirrors batch_result_processor.py:1030-1050 (`_normalize_decode_outputs`) -/
def normalizeDecodeOutputs (batch : Batch) : Act G X A O W (List (List Token)) := do
  if !batch.specIsNone then P.resolveSpecV2Tokens batch
  else do
    let s ← get
    pure (s.result.nextTokenIds.tolist.map fun t => [t])

/-- One request of a decode result.
mirrors batch_result_processor.py:939-1009 -/
def commitTurn (batch : Batch) (nextTokenIds : List (List Token)) (i : Nat) :
    EStateM PyError (Req G X) Unit := do
  let req ← get
  if req.hasBeamGroup then set (P.beamTurn i req)
  else if (P.enableOverlap || P.enableOverlapMlx) && (req.finished || req.isRetracted) then pure ()
  else do
    let nextTokenId ← subscript (some nextTokenIds) i
    modify fun req => P.finishTurn i nextTokenId (req.extendOutput nextTokenId)
    let req ← get
    match req.grammar with
    | none => pure ()
    | some grammar =>
      if batch.specIsNone then set (req.accept (acceptGrammarTokens P.grammar grammar nextTokenId))
      modify fun req => { req with grammarFinished := req.finished }

/-- The handler behind the resolved tokens.
mirrors batch_result_processor.py:917-1028 -/
def commitDecode (batch : Batch) (nextTokenIds : List (List Token)) : Act G X A O W Unit := do
  modify fun s => { s with rest := P.reportDecode s.rest, allocator := P.freeGroupBegin s.allocator }
  if batch.specIsNone then modify fun s => { s with reqs := P.commitBeams s.reqs }
  let _ ← onReqs (turns (P.commitTurn batch nextTokenIds) 0)
  modify fun s => { s with
    stream := P.streamOutput s.reqs batch.returnLogprob s.stream, allocator := P.freeGroupEnd s.allocator }

/-- mirrors batch_result_processor.py:887-1028 (`process_batch_result_decode`) -/
def processBatchResultDecode (batch : Batch) : Act G X A O W Unit := do
  P.synchronizeAndCheckRoce
  P.finalizeOutputs
  let nextTokenIds ← P.normalizeDecodeOutputs batch
  P.commitDecode batch nextTokenIds

/-- mirrors batch_result_processor.py:876-885 (`process_batch_result_idle`) -/
def processBatchResultIdle (batch : Batch) : Act G X A O W Unit := do
  P.synchronizeAndCheckRoce
  modify fun s => { s with stream := P.streamIdle s.reqs batch.returnLogprob s.stream }

/-- mirrors batch_result_processor.py:263-413 and 415-449 -/
def consumePrefill (batch : Batch) : Act G X A O W Unit :=
  if P.isGeneration then do
    P.synchronizeAndCheckRoce
    zoom id (fun s _ => s) .py (P.consumeGeneration batch)
  else do
    P.synchronizeAndCheckRoce
    zoom id (fun s _ => s) .py (P.consumeEmbedding batch)

/-- mirrors batch_result_processor.py:255-466 (`process_batch_result_prefill`) -/
def processBatchResultPrefill (batch : Batch) : Act G X A O W Unit := do
  modify fun s => { s with allocator := P.freeGroupBegin s.allocator }
  P.consumePrefill batch
  modify fun s => { s with
    allocator := P.freeGroupEnd s.allocator, stream := P.streamOutput s.reqs batch.returnLogprob s.stream }

end Processor

/-! ## Rules -/

section Rules
variable {P : Processor G X A O W} {s : State G X A O W}

theorem check_ok (h : P.failure s = none) : P.synchronizeAndCheckRoce s = .ok () (P.checked s) := by
  unfold Processor.synchronizeAndCheckRoce
  rw [h]

theorem check_error {msg : String} (h : P.failure s = some msg) :
    P.synchronizeAndCheckRoce s = .error (.health msg) (P.checked s) := by
  unfold Processor.synchronizeAndCheckRoce
  rw [h]

theorem failure_none (h : ∀ k runtime, P.health k runtime = none) : P.failure s = none := by
  have hloop : ∀ runtimes, (checkRuntimes (P.health s.checks) runtimes).1 = none := by
    intro runtimes
    induction runtimes with
    | nil => rfl
    | cons runtime runtimes ih => rw [checkRuntimes, h]; exact ih
  exact hloop s.runtimes

theorem onReqs_ok {α : Type} {x : EStateM PyError (List (Req G X)) α} {a : α} {reqs : List (Req G X)}
    (h : x s.reqs = .ok a reqs) : onReqs x s = .ok a { s with reqs } := by
  unfold onReqs zoom
  dsimp only
  rw [h]

theorem onReqs_error {α : Type} {x : EStateM PyError (List (Req G X)) α} {e : PyError} {reqs : List (Req G X)}
    (h : x s.reqs = .error e reqs) : onReqs x s = .error (.py e) { s with reqs } := by
  unfold onReqs zoom
  dsimp only
  rw [h]

theorem subscript_ok {σ α : Type} {l : List α} {i : Nat} {a : α} (h : l[i]? = some a) (t : σ) :
    subscript (some l) i t = .ok a t := by
  unfold subscript
  dsimp only
  rw [h]
  rfl

theorem addOptional_ok {counts : Option (List Int)} {i : Nat} (h : ∀ l, counts = some l → i < l.length)
    (add : Int → Req G X → Req G X) (req : Req G X) :
    addOptional counts add i req = .ok () (counts.elim req fun l => add (l.getD i 0) req) := by
  unfold addOptional
  cases counts with
  | none => rfl
  | some l =>
    have hi := h l rfl
    rw [if_pos Option.isSome_some, bind_ok (subscript_ok (List.getElem?_eq_getElem hi) req), Option.elim_some,
      List.getD_eq_getElem?_getD, List.getElem?_eq_getElem hi]
    rfl

theorem ofExcept_ok {α : Type} {x : Except PyError α} {a : α} (h : x = .ok a) : ofExcept x s = .ok a s := by
  unfold ofExcept
  rw [h]

theorem ofExcept_returned {α : Type} {x : Except PyError α} {a : α} {s' : State G X A O W}
    (h : ofExcept x s = .ok a s') : x = .ok a ∧ s = s' := by
  unfold ofExcept at h
  cases x with
  | ok b =>
    obtain ⟨rfl, rfl⟩ := EStateM.Result.ok.inj h
    exact ⟨rfl, rfl⟩
  | error e => cases h

theorem finalizeOutput_eq (P : Processor G X A O W) (output : Option Nat)
    (clear : GenerationResult → GenerationResult) (h : output = none → clear s.result = s.result) :
    ∃ rest, P.finalizeOutput output clear s = .ok () { s with result := clear s.result, rest } := by
  cases output with
  | none => exact ⟨s.rest, by rw [h rfl]; rfl⟩
  | some o => exact ⟨_, rfl⟩

theorem finalizeOutputs_eq (P : Processor G X A O W) (s : State G X A O W) :
    ∃ rest, P.finalizeOutputs s = .ok () { s with result := s.result.finalized, rest } := by
  obtain ⟨rest, hrouted⟩ := finalizeOutput_eq (s := s) P s.result.routedExpertsOutput
    GenerationResult.clearRoutedExperts fun h => by rw [GenerationResult.clearRoutedExperts, ← h]
  obtain ⟨rest', hindexer⟩ := finalizeOutput_eq (s := { s with result := s.result.clearRoutedExperts, rest }) P
    s.result.indexerTopkOutput GenerationResult.clearIndexerTopk
    fun h => by rw [GenerationResult.clearIndexerTopk, GenerationResult.clearRoutedExperts, ← h]
  refine ⟨rest', ?_⟩
  unfold Processor.finalizeOutputs
  rw [bind_get, bind_ok hrouted]
  exact hindexer

/-- A batch that does not carry `has_grammar`, or a result that was advanced. -/
theorem advanceGrammarFsm_skips {batch : Batch}
    (h : s.result.grammarAdvanced = true ∨ batch.hasGrammar = false) :
    P.advanceGrammarFsm batch s = .ok () s := by
  have hskip : (s.result.grammarAdvanced || !batch.hasGrammar) = true := by
    rcases h with h | h
    · rw [h, Bool.true_or]
    · rw [h]; exact Bool.or_true _
  unfold Processor.advanceGrammarFsm
  rw [bind_get]
  dsimp only
  rw [if_pos hskip]
  rfl

/-- `_resolve_spec_v2_tokens` from the advance of the grammar on. -/
theorem resolve_counted (P : Processor G X A O W) (batch : Batch) {stride : Nat} {lens : List Nat}
    (hids : s.result.nextTokenIds.isCpu = true) (hlens : s.result.acceptLens = some ⟨true, lens⟩)
    (hstride : getSpeculativeOutputStride s.result = .ok stride) :
    ∃ rest, P.resolveSpecV2Tokens batch s =
      (P.advanceGrammarFsm batch >>= fun _ => get >>= fun t =>
        onReqs (turns (settleTurn t.result t.result.nextTokenIds.tolist lens stride) 0))
        { s with result := s.result.counted lens, rest } := by
  refine ⟨P.onVerifyCompleteCpu (s.result.correctDrafts lens) s.reqs.length s.rest, ?_⟩
  unfold Processor.resolveSpecV2Tokens
  rw [bind_get]
  dsimp only
  rw [hids, if_neg (by simp), hlens]
  dsimp only
  rw [if_neg (by simp), bind_ok (ofExcept_ok hstride), bind_modify]

/-- The handler behind a health check that succeeds. -/
theorem decode_checked (P : Processor G X A O W) (batch : Batch) (h : P.failure s = none) :
    ∃ rest, P.processBatchResultDecode batch s =
      (P.normalizeDecodeOutputs batch >>= P.commitDecode batch)
        { P.checked s with result := s.result.finalized, rest } := by
  obtain ⟨rest, hfinalize⟩ := finalizeOutputs_eq P (P.checked s)
  refine ⟨rest, ?_⟩
  unfold Processor.processBatchResultDecode
  rw [bind_ok (check_ok h), bind_ok hfinalize]
  rfl

theorem normalize_spec {batch : Batch} (hspec : batch.specIsNone = false) :
    P.normalizeDecodeOutputs batch = P.resolveSpecV2Tokens batch := by
  unfold Processor.normalizeDecodeOutputs
  rw [hspec]
  rfl

end Rules
end FlashSpark.L4.Scheduler
