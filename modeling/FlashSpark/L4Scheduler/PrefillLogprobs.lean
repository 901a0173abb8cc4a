import FlashSpark.Core.Ragged
import FlashSpark.L4Scheduler.BatchResult

/-!
# The offsets of the prefill loop

`process_batch_result_prefill` (batch_result_processor.py:294-406) goes through a batch's
requests with two offsets into the result: `hidden_state_offset` into the hidden states
and `logprob_pt` into the input logprobs. The hidden states are consumed before a finished
or retracted request is skipped, the logprobs behind that.

* `prefillTurn`, `prefillLoop`: the loop. What a slice of logprobs is made into is not
  modelled; `Slice` is the call that hands it over.
* `prefillTurn_ok`: what one request does to the offsets.
* `prefillLoop_ok`: the loop returns, and where each slice starts.
-/
namespace FlashSpark.L4.Scheduler.Prefill

inductive CaptureHiddenMode where
  | full
  | last
  | null
  deriving DecidableEq

/-- `False`, `True` or `"last"`. -/
inductive ReturnHiddenStates where
  | no
  | all
  | last
  deriving DecidableEq

inductive HiddenStates (H : Type) where
  | rows (rows : List H)
  | row (row : H)

/-- What a request asked for, and what it has of it; `rest` does not change. -/
structure Asked (H X : Type) where
  returnLogprob : Bool
  returnHiddenStates : ReturnHiddenStates
  hiddenStates : List (HiddenStates H)
  rest : X

structure PrefillBatch where
  returnHiddenStates : Bool
  returnLogprob : Bool
  specIsNone : Bool
  /-- `req in batch.decoding_reqs`. -/
  decodes : Nat → Bool
  /-- `_get_prefill_hidden_capture_mode`. -/
  captureHiddenMode : CaptureHiddenMode

structure PrefillResult (H : Type) where
  nextTokenIds : List Token
  hiddenStates : Option (List H)
  extendInputLenPerReq : Option (List Nat)
  extendLogprobStartLenPerReq : Option (List Nat)
  grammarAdvanced : Bool

/-- Request `req` is given `num` rows of `input_token_logprobs`, from `start` on: a call of
`add_logprob_return_values`, or, before the last chunk, of `add_input_logprob_return_values`. -/
structure Slice where
  req : Nat
  start : Nat
  num : Nat
  lastPrefillChunk : Bool
  deriving DecidableEq

/-- The variables of the loop, and the slices handed over so far. -/
structure Offsets where
  hiddenStateOffset : Nat
  logprobPt : Nat
  skipStreamReq : Option Nat
  slices : List Slice

/-- What the loop calls: the beam coordinator, `update_finish_state`, the grammar,
`calculate_num_input_logprobs`, and how a capture mode is printed. -/
structure Calls (G H X : Type) where
  commitBeams : Req G (Asked H X) → List Token × Option FinishReason
  updateFinishState : Req G (Asked H X) → Option FinishReason
  grammar : Automaton G
  calculateNumInputLogprobs : X → Nat → Nat → Nat
  printed : CaptureHiddenMode → String

variable {G H X : Type}

def appendHidden (req : Req G (Asked H X)) (hidden : HiddenStates H) : Req G (Asked H X) :=
  { req with rest := { req.rest with hiddenStates := req.rest.hiddenStates ++ [hidden] } }

/-- The test for `continue`.
mirrors batch_result_processor.py:321-323 -/
def skipped (req : Req G X) : Bool :=
  (req.finished && decide (req.inflightMiddleChunks ≤ 0)) || req.isRetracted

/-! ## Hidden states -/

/-- mirrors batch_result_processor.py:588-620 (`_append_prefill_hidden_states`) -/
def appendPrefillHiddenStates (C : Calls G H X) (mode : CaptureHiddenMode) (rows : List H)
    (extendInputLen : Nat) (store : Bool) (req : Req G (Asked H X)) :
    EStateM PyError Offsets (Req G (Asked H X)) := do
  let start := (← get).hiddenStateOffset
  match mode with
  | .full =>
    modify fun o => { o with hiddenStateOffset := start + extendInputLen }
    let reqHiddenStates := (rows.drop start).take extendInputLen
    if !store then return req
    match req.rest.returnHiddenStates with
    | .no => return req
    | .all => return appendHidden req (.rows reqHiddenStates)
    | .last =>
      match reqHiddenStates.getLast? with
      | none => throw .indexError
      | some row => return appendHidden req (.row row)
  | .last =>
    modify fun o => { o with hiddenStateOffset := start + 1 }
    if store && req.rest.returnHiddenStates != .no then
      let row ← subscript (some rows) start
      return appendHidden req (.row row)
    return req
  | .null => throw (.valueError ("Unexpected hidden states capture mode: " ++ C.printed mode))

section Loop
variable (C : Calls G H X) (batch : PrefillBatch) (result : PrefillResult H)

/-- mirrors batch_result_processor.py:303-319 -/
def hiddenTurn (i : Nat) (req : Req G (Asked H X)) : EStateM PyError Offsets (Req G (Asked H X)) := do
  match batch.returnHiddenStates, result.hiddenStates with
  | true, some rows =>
    require result.extendInputLenPerReq.isSome .assertionError
    let extendInputLen ← subscript result.extendInputLenPerReq i
    appendPrefillHiddenStates C batch.captureHiddenMode rows extendInputLen
      (!req.finished && !req.isRetracted && decide (req.inflightMiddleChunks ≤ 0)) req
  | _, _ => return req

/-! ## Logprobs -/

/-- `logprob_pt` moves on; who asked is given the rows it moved over. -/
def handOver (i num : Nat) (lastPrefillChunk returnLogprob : Bool) (o : Offsets) : Offsets :=
  { o with
    logprobPt := o.logprobPt + num
    slices := if returnLogprob then o.slices ++ [⟨i, o.logprobPt, num, lastPrefillChunk⟩] else o.slices }

/-- mirrors batch_result_processor.py:513-545 (`_apply_prefill_logprobs`) -/
def applyPrefillLogprobs (i : Nat) (req : Req G (Asked H X)) : EStateM PyError Offsets Unit := do
  require result.extendLogprobStartLenPerReq.isSome .assertionError
  require result.extendInputLenPerReq.isSome .assertionError
  let extendLogprobStartLen ← subscript result.extendLogprobStartLenPerReq i
  let extendInputLen ← subscript result.extendInputLenPerReq i
  let numInputLogprobs := C.calculateNumInputLogprobs req.rest.rest extendInputLen extendLogprobStartLen
  modify (handOver i numInputLogprobs true req.rest.returnLogprob)

/-- mirrors batch_result_processor.py:680-711 (`_apply_chunked_prefill_logprobs`) -/
def applyChunkedPrefillLogprobs (i : Nat) (req : Req G (Asked H X)) : EStateM PyError Offsets Unit := do
  let extendLogprobStartLen ← subscript result.extendLogprobStartLenPerReq i
  let extendInputLen ← subscript result.extendInputLenPerReq i
  if extendLogprobStartLen < extendInputLen then
    let numInputLogprobs := C.calculateNumInputLogprobs req.rest.rest extendInputLen extendLogprobStartLen
    modify (handOver i numInputLogprobs false req.rest.returnLogprob)

/-! ## The loop -/

/-- mirrors batch_result_processor.py:332-353: the sampled token, the finish state and the
committed length of a request whose prompt is done. Its caches are not modelled. -/
def settlePrompt (i : Nat) (nextTokenId : Token) (req : Req G (Asked H X)) : Req G (Asked H X) :=
  let req :=
    if req.hasBeamGroup then
      let (outputIds, finishedReason) := C.commitBeams req
      { req with outputIds, finishedReason }
    else
      let req := { req with outputIds := req.outputIds ++ [nextTokenId] }
      { req with finishedReason := C.updateFinishState req }
  if !req.finished && batch.decodes i && !batch.specIsNone then
    { req with kvCommittedLen := req.kvCommittedLen + 1 }
  else req

/-- mirrors batch_result_processor.py:660-678, 380-385 (`_apply_prefill_grammar`) -/
def applyPrefillGrammar (nextTokenId : Token) (req : Req G (Asked H X)) : Req G (Asked H X) :=
  match req.grammar with
  | none => req
  | some grammar =>
    let req :=
      if result.grammarAdvanced then req
      else
        let (ok, grammar) := C.grammar.acceptToken grammar nextTokenId
        { req with grammar := some grammar, toFinish := if ok then req.toFinish else some .abort }
    { req with grammarFinished := req.finished }

/-- A request whose prompt is done.
mirrors batch_result_processor.py:329-385 -/
def promptTurn (i : Nat) (nextTokenId : Token) (req : Req G (Asked H X)) :
    EStateM PyError Offsets (Req G (Asked H X)) := do
  let req := settlePrompt C batch i nextTokenId req
  (if batch.returnLogprob then applyPrefillLogprobs C result i req else pure ())
  return applyPrefillGrammar C result nextTokenId req

/-- A request in the middle of its prompt.
mirrors batch_result_processor.py:387-406 -/
def chunkTurn (i : Nat) (req : Req G (Asked H X)) : EStateM PyError Offsets (Req G (Asked H X)) := do
  let req := { req with inflightMiddleChunks := req.inflightMiddleChunks - 1 }
  modify fun o => { o with skipStreamReq := some i }
  (if batch.returnLogprob then applyChunkedPrefillLogprobs C result i req else pure ())
  return req

/-- One request.
mirrors batch_result_processor.py:302-406 -/
def prefillTurn (i : Nat) (nextTokenId : Token) (req : Req G (Asked H X)) :
    EStateM PyError Offsets (Req G (Asked H X)) := do
  let req ← hiddenTurn C batch result i req
  if skipped req then pure req
  else if req.inflightMiddleChunks ≤ 0 then promptTurn C batch result i nextTokenId req
  else chunkTurn C batch result i req

def prefillLoop : Nat → List (Req G (Asked H X) × Token) →
    EStateM PyError Offsets (List (Req G (Asked H X)))
  | _, [] => return []
  | i, (req, nextTokenId) :: rest => do
    let req ← prefillTurn C batch result i nextTokenId req
    let reqs ← prefillLoop (i + 1) rest
    return req :: reqs

/-- The loop over a batch.
mirrors batch_result_processor.py:294-302 -/
def prefill (reqs : List (Req G (Asked H X))) : EStateM PyError Offsets (List (Req G (Asked H X))) := do
  set (⟨0, 0, none, []⟩ : Offsets)
  prefillLoop C batch result 0 (reqs.zip result.nextTokenIds)

end Loop

/-! ## One request -/

/-- The hidden rows of one request. -/
def hiddenRows (mode : CaptureHiddenMode) (extendInputLen : Nat) : Nat :=
  match mode with
  | .full => extendInputLen
  | .last => 1
  | .null => 0

def withHidden (req : Req G (Asked H X)) (hidden : List (HiddenStates H)) : Req G (Asked H X) :=
  { req with rest := { req.rest with hiddenStates := hidden } }

/-- The rows of a request's hidden states are in the result. -/
structure RowsThere (mode : CaptureHiddenMode) (rows : List H) (start extendInputLen : Nat) : Prop where
  captured : mode ≠ .null
  pos : 0 < extendInputLen
  there : start + hiddenRows mode extendInputLen ≤ rows.length

theorem appendPrefillHiddenStates_ok (C : Calls G H X) {mode : CaptureHiddenMode} {rows : List H}
    {len : Nat} {o : Offsets} (h : RowsThere mode rows o.hiddenStateOffset len) (store : Bool)
    (req : Req G (Asked H X)) :
    ∃ hidden, appendPrefillHiddenStates C mode rows len store req o =
      .ok (withHidden req hidden)
        { o with hiddenStateOffset := o.hiddenStateOffset + hiddenRows mode len } := by
  obtain ⟨hmode, hpos, hthere⟩ := h
  unfold appendPrefillHiddenStates
  rw [bind_get]
  cases mode with
  | null => exact absurd rfl hmode
  | full =>
    dsimp only
    rw [bind_modify]
    cases store with
    | false => exact ⟨req.rest.hiddenStates, rfl⟩
    | true =>
      cases hask : req.rest.returnHiddenStates with
      | no => exact ⟨req.rest.hiddenStates, rfl⟩
      | all => exact ⟨_, rfl⟩
      | last =>
        cases hlast : ((rows.drop o.hiddenStateOffset).take len).getLast? with
        | none =>
          -- a prompt has a token, so its slice has a last row
          have hlen := congrArg List.length (List.getLast?_eq_none_iff.mp hlast)
          rw [List.length_take, List.length_drop, List.length_nil] at hlen
          simp only [hiddenRows] at hthere
          omega
        | some row => exact ⟨_, rfl⟩
  | last =>
    dsimp only
    rw [bind_modify]
    cases hkeep : store && req.rest.returnHiddenStates != .no with
    | false => exact ⟨req.rest.hiddenStates, rfl⟩
    | true =>
      have hlt : o.hiddenStateOffset < rows.length := by
        simp only [hiddenRows] at hthere
        omega
      have hrow := List.getElem?_eq_getElem hlt
      rw [if_pos rfl, bind_ok (subscript_ok hrow _)]
      exact ⟨_, rfl⟩

/-- The request's logprobs are counted: it is not skipped, and not a middle chunk whose
logprobs start behind it. -/
def counted (req : Req G X) (extendInputLen extendLogprobStartLen : Nat) : Bool :=
  !skipped req && (decide (req.inflightMiddleChunks ≤ 0) ||
    decide (extendLogprobStartLen < extendInputLen))

/-- How far `hidden_state_offset` moves for a request. -/
def hiddenStep (batch : PrefillBatch) (result : PrefillResult H) (extendInputLen : Nat) : Nat :=
  match batch.returnHiddenStates, result.hiddenStates with
  | true, some _ => hiddenRows batch.captureHiddenMode extendInputLen
  | _, _ => 0

section Turn
variable {C : Calls G H X} {batch : PrefillBatch} {result : PrefillResult H} {i len start : Nat}
  {lens starts : List Nat} {o : Offsets}

theorem hiddenTurn_ok (hlens : result.extendInputLenPerReq = some lens) (hlen : lens[i]? = some len)
    (hrows : ∀ rows, batch.returnHiddenStates = true → result.hiddenStates = some rows →
      RowsThere batch.captureHiddenMode rows o.hiddenStateOffset len) (req : Req G (Asked H X)) :
    ∃ hidden, hiddenTurn C batch result i req o = .ok (withHidden req hidden)
      { o with hiddenStateOffset := o.hiddenStateOffset + hiddenStep batch result len } := by
  unfold hiddenTurn hiddenStep
  cases hret : batch.returnHiddenStates with
  | false => exact ⟨req.rest.hiddenStates, rfl⟩
  | true =>
    cases hstates : result.hiddenStates with
    | none => exact ⟨req.rest.hiddenStates, rfl⟩
    | some rows =>
      dsimp only
      rw [hlens, bind_ok (require_ok Option.isSome_some), bind_ok (subscript_ok hlen o)]
      exact appendPrefillHiddenStates_ok C (hrows rows hret hstates) _ req

/-- `logprob_pt` behind a request, and what the request is given, if anything. -/
def afterTurn (C : Calls G H X) (i : Nat) (req : Req G (Asked H X)) (len start : Nat) (o : Offsets) :
    Offsets :=
  if counted req len start then
    handOver i (C.calculateNumInputLogprobs req.rest.rest len start)
      (decide (req.inflightMiddleChunks ≤ 0)) req.rest.returnLogprob o
  else o

theorem settlePrompt_rest (nextTokenId : Token) (req : Req G (Asked H X)) :
    (settlePrompt C batch i nextTokenId req).rest = req.rest := by
  unfold settlePrompt
  dsimp only
  split <;> split <;> rfl

theorem applyPrefillLogprobs_ok (hlens : result.extendInputLenPerReq = some lens)
    (hlen : lens[i]? = some len) (hstarts : result.extendLogprobStartLenPerReq = some starts)
    (hstart : starts[i]? = some start) (req : Req G (Asked H X)) (o : Offsets) :
    applyPrefillLogprobs C result i req o = .ok ⟨⟩
      (handOver i (C.calculateNumInputLogprobs req.rest.rest len start) true req.rest.returnLogprob o) := by
  unfold applyPrefillLogprobs
  rw [hlens, hstarts, bind_ok (require_ok Option.isSome_some), bind_ok (require_ok Option.isSome_some),
    bind_ok (subscript_ok hstart o), bind_ok (subscript_ok hlen o)]
  rfl

theorem applyChunkedPrefillLogprobs_ok (hlens : result.extendInputLenPerReq = some lens)
    (hlen : lens[i]? = some len) (hstarts : result.extendLogprobStartLenPerReq = some starts)
    (hstart : starts[i]? = some start) (req : Req G (Asked H X)) (o : Offsets) :
    applyChunkedPrefillLogprobs C result i req o = .ok ⟨⟩ (if start < len then
      handOver i (C.calculateNumInputLogprobs req.rest.rest len start) false req.rest.returnLogprob o
      else o) := by
  unfold applyChunkedPrefillLogprobs
  rw [hlens, hstarts, bind_ok (subscript_ok hstart o), bind_ok (subscript_ok hlen o)]
  split <;> rfl

/-- Every request moves `hidden_state_offset`; only one that is counted moves `logprob_pt`. -/
theorem prefillTurn_ok (hlog : batch.returnLogprob = true)
    (hlens : result.extendInputLenPerReq = some lens) (hlen : lens[i]? = some len)
    (hstarts : result.extendLogprobStartLenPerReq = some starts) (hstart : starts[i]? = some start)
    (hrows : ∀ rows, batch.returnHiddenStates = true → result.hiddenStates = some rows →
      RowsThere batch.captureHiddenMode rows o.hiddenStateOffset len) (nextTokenId : Token)
    (req : Req G (Asked H X)) :
    ∃ req' skip, prefillTurn C batch result i nextTokenId req o = .ok req'
      { afterTurn C i req len start o with
        hiddenStateOffset := o.hiddenStateOffset + hiddenStep batch result len
        skipStreamReq := skip } := by
  obtain ⟨hidden, hhidden⟩ := hiddenTurn_ok (C := C) (o := o) hlens hlen hrows req
  unfold prefillTurn
  rw [bind_ok hhidden]
  have hsame : skipped (withHidden req hidden) = skipped req := rfl
  rw [hsame]
  cases hskip : skipped req with
  | true =>
    have hcount : counted req len start = false := by simp [counted, hskip]
    refine ⟨withHidden req hidden, o.skipStreamReq, ?_⟩
    rw [if_pos rfl, afterTurn, hcount]
    rfl
  | false =>
    rw [if_neg Bool.false_ne_true]
    have hflight : (withHidden req hidden).inflightMiddleChunks = req.inflightMiddleChunks := rfl
    rw [hflight]
    by_cases hprompt : req.inflightMiddleChunks ≤ 0
    · have hcount : counted req len start = true := by simp [counted, hskip, hprompt]
      rw [if_pos hprompt, afterTurn, hcount, if_pos rfl, decide_eq_true hprompt]
      unfold promptTurn
      dsimp only
      rw [hlog, if_pos rfl, bind_ok (applyPrefillLogprobs_ok hlens hlen hstarts hstart _ _), settlePrompt_rest]
      exact ⟨_, o.skipStreamReq, rfl⟩
    · have hcount : counted req len start = decide (start < len) := by simp [counted, hskip, hprompt]
      rw [if_neg hprompt, afterTurn, hcount, decide_eq_false hprompt]
      unfold chunkTurn
      rw [bind_modify]
      dsimp only
      rw [hlog, if_pos rfl, bind_ok (applyChunkedPrefillLogprobs_ok hlens hlen hstarts hstart _ _)]
      by_cases hbehind : start < len
      · rw [if_pos hbehind, decide_eq_true hbehind, if_pos rfl]
        exact ⟨_, some i, rfl⟩
      · rw [if_neg hbehind, decide_eq_false hbehind, if_neg Bool.false_ne_true]
        exact ⟨_, some i, rfl⟩

end Turn

/-! ## A batch -/

/-- The result has a token, a length and a start for each request, and the hidden states
it was asked for. -/
structure Shaped (batch : PrefillBatch) (result : PrefillResult H) (reqs : List (Req G (Asked H X)))
    (lens starts : List Nat) : Prop where
  tokens : result.nextTokenIds.length = reqs.length
  lens_eq : result.extendInputLenPerReq = some lens
  lens_length : lens.length = reqs.length
  starts_eq : result.extendLogprobStartLenPerReq = some starts
  starts_length : starts.length = reqs.length
  rows : ∀ rows, batch.returnHiddenStates = true → result.hiddenStates = some rows →
    ∀ i len, lens[i]? = some len → RowsThere batch.captureHiddenMode rows
      (prefixSum (fun j => hiddenStep batch result (lens.getD j 0)) i) len

section Batch
variable (C : Calls G H X) {batch : PrefillBatch} {result : PrefillResult H}
  {reqs : List (Req G (Asked H X))} {lens starts : List Nat}

/-- `calculate_num_input_logprobs` of request `j`. -/
def numInputLogprobs (reqs : List (Req G (Asked H X))) (lens starts : List Nat) (j : Nat) : Nat :=
  match reqs[j]? with
  | some req => C.calculateNumInputLogprobs req.rest.rest (lens.getD j 0) (starts.getD j 0)
  | none => 0

/-- How far `logprob_pt` moves for request `j`. -/
def logprobStep (reqs : List (Req G (Asked H X))) (lens starts : List Nat) (j : Nat) : Nat :=
  match reqs[j]? with
  | some req =>
    if counted req (lens.getD j 0) (starts.getD j 0) then numInputLogprobs C reqs lens starts j else 0
  | none => 0

/-- What request `j` is given. -/
def handed (reqs : List (Req G (Asked H X))) (lens starts : List Nat) (j : Nat) : List Slice :=
  match reqs[j]? with
  | some req =>
    if counted req (lens.getD j 0) (starts.getD j 0) && req.rest.returnLogprob then
      [⟨j, prefixSum (logprobStep C reqs lens starts) j, numInputLogprobs C reqs lens starts j,
        decide (req.inflightMiddleChunks ≤ 0)⟩]
    else []
  | none => []

theorem logprobStep_le (j : Nat) :
    logprobStep C reqs lens starts j ≤ numInputLogprobs C reqs lens starts j := by
  unfold logprobStep
  split
  · split
    · exact Nat.le_refl _
    · exact Nat.zero_le _
  · exact Nat.zero_le _

theorem afterTurn_spec {j : Nat} {req : Req G (Asked H X)} (hreq : reqs[j]? = some req) {o : Offsets}
    (hpt : o.logprobPt = prefixSum (logprobStep C reqs lens starts) j) :
    (afterTurn C j req (lens.getD j 0) (starts.getD j 0) o).logprobPt =
        prefixSum (logprobStep C reqs lens starts) (j + 1) ∧
      (afterTurn C j req (lens.getD j 0) (starts.getD j 0) o).slices =
        o.slices ++ handed C reqs lens starts j := by
  have hnum : numInputLogprobs C reqs lens starts j =
      C.calculateNumInputLogprobs req.rest.rest (lens.getD j 0) (starts.getD j 0) := by
    rw [numInputLogprobs, hreq]
  rw [prefixSum, logprobStep, handed, hreq, afterTurn, ← hnum, ← hpt]
  dsimp only
  cases counted req (lens.getD j 0) (starts.getD j 0) with
  | false => exact ⟨rfl, (List.append_nil _).symm⟩
  | true =>
    refine ⟨rfl, ?_⟩
    cases hask : req.rest.returnLogprob with
    | false => exact (List.append_nil _).symm
    | true => rfl

/-- From request `i` on, with both offsets where the requests before it left them. -/
theorem prefillLoop_ok (hlog : batch.returnLogprob = true) (h : Shaped batch result reqs lens starts)
    {l : List (Req G (Asked H X) × Token)} {i : Nat} {o : Offsets}
    (hl : (reqs.zip result.nextTokenIds).drop i = l) (hi : i + l.length = reqs.length)
    (hhidden : o.hiddenStateOffset = prefixSum (fun j => hiddenStep batch result (lens.getD j 0)) i)
    (hpt : o.logprobPt = prefixSum (logprobStep C reqs lens starts) i) :
    ∃ reqs' skip, prefillLoop C batch result i l o = .ok reqs'
      ⟨prefixSum (fun j => hiddenStep batch result (lens.getD j 0)) reqs.length,
        prefixSum (logprobStep C reqs lens starts) reqs.length, skip,
        o.slices ++ (List.range' i l.length).flatMap (handed C reqs lens starts)⟩ := by
  induction l generalizing i o with
  | nil =>
    have hend : i = reqs.length := hi
    refine ⟨[], o.skipStreamReq, ?_⟩
    rw [← hend, ← hhidden, ← hpt, List.length_nil, List.range'_zero, List.flatMap_nil, List.append_nil]
    rfl
  | cons p rest ih =>
    obtain ⟨req, nextTokenId⟩ := p
    rw [List.length_cons] at hi
    have hzip : (reqs.zip result.nextTokenIds)[i]? = some (req, nextTokenId) := by
      rw [← Nat.add_zero i, ← List.getElem?_drop, hl, List.getElem?_cons_zero]
    obtain ⟨hreq, -⟩ := List.getElem?_zip_eq_some.mp hzip
    have hlen : lens[i]? = some (lens.getD i 0) := by
      rw [List.getD_eq_getElem?_getD, List.getElem?_eq_getElem (by rw [h.lens_length]; omega)]
      rfl
    have hstart : starts[i]? = some (starts.getD i 0) := by
      rw [List.getD_eq_getElem?_getD, List.getElem?_eq_getElem (by rw [h.starts_length]; omega)]
      rfl
    obtain ⟨req', skip, hturn⟩ := prefillTurn_ok (C := C) (o := o) hlog h.lens_eq hlen h.starts_eq hstart
      (fun rows hret hstates => by rw [hhidden]; exact h.rows rows hret hstates i _ hlen) nextTokenId req
    obtain ⟨hpt', hslices⟩ := afterTurn_spec C hreq hpt
    have hrest : (reqs.zip result.nextTokenIds).drop (i + 1) = rest := by
      rw [← List.drop_drop, hl, List.drop_one, List.tail_cons]
    obtain ⟨reqs', skip', hloop⟩ := ih (o := { afterTurn C i req (lens.getD i 0) (starts.getD i 0) o with
      hiddenStateOffset := o.hiddenStateOffset + hiddenStep batch result (lens.getD i 0)
      skipStreamReq := skip }) hrest (by omega) (by rw [prefixSum, ← hhidden]) hpt'
    refine ⟨req' :: reqs', skip', ?_⟩
    rw [prefillLoop, bind_ok hturn, bind_ok hloop]
    dsimp only
    rw [hslices, List.length_cons, List.range'_succ, List.flatMap_cons, List.append_assoc]
    rfl

/-- The loop over a batch. -/
theorem prefill_ok (hlog : batch.returnLogprob = true) (h : Shaped batch result reqs lens starts)
    (o : Offsets) : ∃ reqs' skip, prefill C batch result reqs o = .ok reqs'
      ⟨prefixSum (fun j => hiddenStep batch result (lens.getD j 0)) reqs.length,
        prefixSum (logprobStep C reqs lens starts) reqs.length, skip,
        (List.range reqs.length).flatMap (handed C reqs lens starts)⟩ := by
  have hlength : (reqs.zip result.nextTokenIds).length = reqs.length := by
    rw [List.length_zip, h.tokens, Nat.min_self]
  obtain ⟨reqs', skip, hloop⟩ := prefillLoop_ok C (o := ⟨0, 0, none, []⟩) hlog h (List.drop_zero)
    (by rw [Nat.zero_add]; exact hlength) rfl rfl
  refine ⟨reqs', skip, ?_⟩
  rw [hlength, ← List.range_eq_range', List.nil_append] at hloop
  exact hloop

/-- Every slice of request `k` starts where the counted requests before it end. -/
theorem slices_of (k : Nat) (hk : k < reqs.length) :
    ((List.range reqs.length).flatMap (handed C reqs lens starts)).filter (fun s => s.req == k) =
      handed C reqs lens starts k := by
  refine flatMap_range_filter (fun j s hs => ?_) hk
  unfold handed at hs
  split at hs
  · split at hs
    · rw [List.mem_singleton.mp hs]
    · cases hs
  · cases hs

end Batch

end FlashSpark.L4.Scheduler.Prefill
