import FlashSpark.L4Scheduler.BatchResult

/-!
# Speculative decode results

Settling a spec-v2 decode result under overlap, request by request. The grammar is
advanced on the live batch, and `process_batch_result_decode` runs later on the queued
copy, which skips the advance and reads what was retained.

* `SpecDecode`: the batches and results this is about.
* `Settles`: what becomes of a request: its own accepted run, as far as its grammar takes
  it, is appended and counted; a finished or retracted request stays as it is.
* `advance_live`: what the advance leaves to be read.
* `decode_queued`: the handler settles every request with the run it finds.
* `eager_reqs`, `settledBy_settles`: both together settle every request.
-/
namespace FlashSpark.L4.Scheduler

variable {G X A O W : Type}

/-- A spec-v2 result of `n` requests in `stride` columns, of which request `i` accepted `lens[i]`. -/
structure DecodeShape (result : GenerationResult) (n stride : Nat) (lens : List Nat) : Prop where
  nextTokenIds : result.nextTokenIds.isCpu = true
  acceptLens : result.acceptLens = some ⟨true, lens⟩
  lens_length : lens.length = n
  stride_eq : getSpeculativeOutputStride result = .ok stride
  le_stride : ∀ len ∈ lens, len ≤ stride
  blockAcceptLens : ∀ l, result.blockAcceptLens = some l → l.length = n
  capLens : ∀ l, result.capLens = some l → l.length = n

theorem DecodeShape.finalized {result : GenerationResult} {n stride : Nat} {lens : List Nat}
    (h : DecodeShape result n stride lens) : DecodeShape result.finalized n stride lens :=
  ⟨h.nextTokenIds, h.acceptLens, h.lens_length, h.stride_eq, h.le_stride, h.blockAcceptLens, h.capLens⟩

/-- A fresh decode result of a live batch, under overlap. -/
structure SpecDecode (P : Processor G X A O W) (live : Batch) (s : State G X A O W) (stride : Nat)
    (lens : List Nat) : Prop where
  overlap : P.enableOverlap = true
  spec : live.specIsNone = false
  decode : live.forwardMode.isDecode = true
  /-- `has_grammar` of the live batch. -/
  hasGrammar : ∀ req ∈ s.reqs, req.grammar.isSome = true → live.hasGrammar = true
  /-- Beam search with speculation is rejected at admission. -/
  noBeam : ∀ req ∈ s.reqs, req.hasBeamGroup = false
  shape : DecodeShape s.result s.reqs.length stride lens
  grammarAdvanced : s.result.grammarAdvanced = false
  grammarRetainedTokens : s.result.grammarRetainedTokens = none
  healthy : ∀ k runtime, P.health k runtime = none

/-- The run that request `i` accepted. -/
def acceptedRun (result : GenerationResult) (lens : List Nat) (stride i : Nat) : List Token :=
  block result.nextTokenIds.tolist (i * stride) (lens.getD i 0)

/-- What the rest of the decode loop makes of a request whose run was appended. -/
def Processor.afterTurn (P : Processor G X A O W) (i : Nat) (run : List Token) (req : Req G X) : Req G X :=
  let req := P.finishTurn i run req
  if req.grammar.isSome then { req with grammarFinished := req.finished } else req

/-- The run, and the grammar after it. -/
inductive Takes (A : Automaton G) (accepted : List Token) : Option G → List Token → Option G → Prop where
  | plain : Takes A accepted none accepted none
  | grammar {g g' : G} {run fed : List Token} {rejected : Bool} :
      Retained A g accepted run fed g' rejected → Takes A accepted (some g) run (some g')

/-- What a decode result does to request `i`. -/
structure Settles (P : Processor G X A O W) (result : GenerationResult) (lens : List Nat) (stride i : Nat)
    (req req' : Req G X) : Prop where
  skipped : req.live = false → req' = req
  committed : req.live = true → ∃ run before,
    run <+: block result.nextTokenIds.tolist (i * stride) stride ∧
    Takes P.grammar (acceptedRun result lens stride i) req.grammar run before.grammar ∧
    before.outputIds = req.outputIds ++ run ∧
    before.kvCommittedLen = req.kvCommittedLen + run.length ∧
    req' = P.afterTurn i run before

/-! ## One request -/

section Turns
variable {P : Processor G X A O W} {result : GenerationResult} {lens : List Nat} {stride i : Nat}
  {req : Req G X}

/-- What `_resolve_spec_v2_tokens` makes of a live request. -/
def Req.settled (req : Req G X) (result : GenerationResult) (i : Nat) (run : List Token) : Req G X :=
  let req := (req.commit run.length).addCorrectDrafts ((result.numCorrectDraftsPerReqCpu.getD []).getD i 0)
  let req := result.blockAcceptLens.elim req fun l => req.addBlockAccepts (l.getD i 0)
  result.capLens.elim req fun l => req.addCaps (l.getD i 0)

theorem live_eq_false : req.live = false ↔ (req.isRetracted || req.finished) = true := by
  rw [Req.live, Bool.not_eq_false']

theorem live_eq_true : req.live = true ↔ ¬(req.isRetracted || req.finished) = true := by
  rw [Req.live, Bool.not_eq_true', Bool.not_eq_true]

theorem acceptedRun_eq (hi : i < lens.length) :
    block result.nextTokenIds.tolist (i * stride) lens[i] = acceptedRun result lens stride i := by
  rw [acceptedRun, List.getD_eq_getElem lens 0 hi]

theorem settleTurn_skips (hi : i < lens.length) (hlive : req.live = false) :
    settleTurn result result.nextTokenIds.tolist lens stride i req =
      .ok (acceptedRun result lens stride i) req := by
  unfold settleTurn
  rw [bind_ok (subscript_ok (List.getElem?_eq_getElem hi) req), bind_get, if_pos (live_eq_false.mp hlive),
    acceptedRun_eq hi]
  rfl

theorem settleTurn_live (hi : i < lens.length) (hlive : req.live = true) {drafts : List Int}
    (hdrafts : result.numCorrectDraftsPerReqCpu = some drafts) (hid : i < drafts.length)
    (hblock : ∀ l, result.blockAcceptLens = some l → i < l.length)
    (hcap : ∀ l, result.capLens = some l → i < l.length) {run : List Token}
    (hrun : ∀ t : Req G X, runToSettle result (acceptedRun result lens stride i) i req t = .ok run t) :
    settleTurn result result.nextTokenIds.tolist lens stride i req = .ok run (req.settled result i run) := by
  unfold settleTurn
  rw [bind_ok (subscript_ok (List.getElem?_eq_getElem hi) req), bind_get, if_neg (live_eq_true.mp hlive),
    acceptedRun_eq hi, bind_ok (hrun req), bind_modify, hdrafts,
    bind_ok (subscript_ok (List.getElem?_eq_getElem hid) _), bind_modify, bind_ok (addOptional_ok hblock _ _),
    bind_ok (addOptional_ok hcap _ _), Req.settled, hdrafts, Option.getD_some,
    List.getD_eq_getElem drafts 0 hid]
  rfl

/-- A live request, with the counts of its own result. -/
theorem settleTurn_counted {n : Nat} (hshape : DecodeShape result n stride lens) (hi : i < n)
    (hlive : req.live = true) {run : List Token}
    (hrun : ∀ t : Req G X, runToSettle result (acceptedRun result lens stride i) i req t = .ok run t) :
    settleTurn (result.counted lens) result.nextTokenIds.tolist lens stride i req =
      .ok run (req.settled (result.counted lens) i run) := by
  have hlen : i < lens.length := by rw [hshape.lens_length]; exact hi
  have hdrafts : i < (result.correctDrafts lens).length := by
    rw [GenerationResult.correctDrafts, List.length_map]
    exact hlen
  have hblock : ∀ l, result.blockAcceptLens = some l → i < l.length := fun l hl => by
    rw [hshape.blockAcceptLens l hl]; exact hi
  have hcap : ∀ l, result.capLens = some l → i < l.length := fun l hl => by
    rw [hshape.capLens l hl]; exact hi
  exact @settleTurn_live G X (result.counted lens) lens stride i req hlen hlive _ rfl hdrafts hblock hcap run
    hrun

theorem commitTurn_skips {batch : Batch} {runs : List (List Token)} (hoverlap : P.enableOverlap = true)
    (hbeam : req.hasBeamGroup = false) (hlive : req.live = false) :
    P.commitTurn batch runs i req = .ok () req := by
  have hskip : ((P.enableOverlap || P.enableOverlapMlx) && (req.finished || req.isRetracted)) = true := by
    rw [hoverlap, Bool.true_or, Bool.true_and, Bool.or_comm]
    exact live_eq_false.mp hlive
  unfold Processor.commitTurn
  rw [bind_get, hbeam, if_neg Bool.false_ne_true, if_pos hskip]
  rfl

theorem commitTurn_live {batch : Batch} {runs : List (List Token)} {run : List Token}
    (hspec : batch.specIsNone = false) (hbeam : req.hasBeamGroup = false) (hlive : req.live = true)
    (hrun : runs[i]? = some run) : P.commitTurn batch runs i req =
      .ok () (P.afterTurn i run (req.extendOutput run)) := by
  have hgo : ¬((P.enableOverlap || P.enableOverlapMlx) && (req.finished || req.isRetracted)) = true := by
    intro h
    exact live_eq_true.mp hlive (by rw [Bool.or_comm]; exact (Bool.and_eq_true_iff.mp h).2)
  unfold Processor.commitTurn
  rw [bind_get, hbeam, if_neg Bool.false_ne_true, if_neg hgo, bind_ok (subscript_ok hrun req), bind_modify,
    bind_get, Processor.afterTurn, hspec]
  cases hg : (P.finishTurn i run (req.extendOutput run)).grammar with
  | none => rfl
  | some grammar =>
    dsimp only
    rw [if_pos Option.isSome_some, if_neg Bool.false_ne_true, ← hg]
    rfl

theorem settled_live {run : List Token} : (req.settled result i run).live = req.live := by
  unfold Req.settled
  cases result.blockAcceptLens <;> cases result.capLens <;> rfl

theorem settled_grammar {run : List Token} : (req.settled result i run).grammar = req.grammar := by
  unfold Req.settled
  cases result.blockAcceptLens <;> cases result.capLens <;> rfl

theorem settled_outputIds {run : List Token} : (req.settled result i run).outputIds = req.outputIds := by
  unfold Req.settled
  cases result.blockAcceptLens <;> cases result.capLens <;> rfl

theorem settled_kvCommittedLen {run : List Token} :
    (req.settled result i run).kvCommittedLen = req.kvCommittedLen + run.length := by
  unfold Req.settled
  cases result.blockAcceptLens <;> cases result.capLens <;> rfl

theorem settled_hasBeamGroup {run : List Token} :
    (req.settled result i run).hasBeamGroup = req.hasBeamGroup := by
  unfold Req.settled
  cases result.blockAcceptLens <;> cases result.capLens <;> rfl

end Turns

/-! ## The handler on the queued copy -/

section Queued
variable {P : Processor G X A O W} {s : State G X A O W} {stride : Nat} {lens : List Nat} {batch : Batch}
  {run : Nat → Req G X → List Token}

/-- `_resolve_spec_v2_tokens` up to its loop. -/
theorem resolve_loop (hshape : DecodeShape s.result s.reqs.length stride lens)
    (hskip : s.result.grammarAdvanced = true ∨ batch.hasGrammar = false) :
    ∃ rest, P.resolveSpecV2Tokens batch s =
      onReqs (turns (settleTurn (s.result.counted lens) s.result.nextTokenIds.tolist lens stride) 0)
        { s with result := s.result.counted lens, rest } := by
  obtain ⟨rest, hcounted⟩ := resolve_counted P batch hshape.nextTokenIds hshape.acceptLens hshape.stride_eq
  let counted : State G X A O W := { s with result := s.result.counted lens, rest }
  have hadvance : P.advanceGrammarFsm batch counted = .ok () counted := advanceGrammarFsm_skips hskip
  refine ⟨rest, ?_⟩
  rw [hcounted, bind_ok hadvance, bind_get]
  rfl

/-- What `_resolve_spec_v2_tokens` gives for request `i`. -/
def resolvedRun (result : GenerationResult) (lens : List Nat) (stride : Nat) (run : Nat → Req G X → List Token)
    (i : Nat) (req : Req G X) : List Token :=
  if req.live then run i req else acceptedRun result lens stride i

/-- What it makes of the request. -/
def resolvedReq (result : GenerationResult) (run : Nat → Req G X → List Token) (i : Nat) (req : Req G X) :
    Req G X :=
  if req.live then req.settled result i (run i req) else req

theorem resolve_queued (hshape : DecodeShape s.result s.reqs.length stride lens)
    (hskip : s.result.grammarAdvanced = true ∨ batch.hasGrammar = false)
    (hrun : ∀ i req, s.reqs[i]? = some req → req.live = true → ∀ t : Req G X,
      runToSettle s.result (acceptedRun s.result lens stride i) i req t = .ok (run i req) t) :
    ∃ rest, P.resolveSpecV2Tokens batch s = .ok (s.reqs.mapIdx (resolvedRun s.result lens stride run))
      { s with
        reqs := s.reqs.mapIdx (resolvedReq (s.result.counted lens) run)
        result := s.result.counted lens
        rest } := by
  have hloop : turns (settleTurn (s.result.counted lens) s.result.nextTokenIds.tolist lens stride) 0 s.reqs =
      .ok (s.reqs.mapIdx (resolvedRun s.result lens stride run))
        (s.reqs.mapIdx (resolvedReq (s.result.counted lens) run)) := by
    refine turns_zero_ok _ _ fun i req hreq => ?_
    have hn := (List.getElem?_eq_some_iff.mp hreq).1
    have hi : i < lens.length := by rw [hshape.lens_length]; exact hn
    unfold resolvedRun resolvedReq
    by_cases hlive : req.live = true
    · rw [if_pos hlive, if_pos hlive]
      exact settleTurn_counted hshape hn hlive (hrun i req hreq hlive)
    · rw [if_neg hlive, if_neg hlive]
      exact settleTurn_skips hi (Bool.not_eq_true _ ▸ hlive)
  obtain ⟨rest, hresolve⟩ := resolve_loop (P := P) hshape hskip
  exact ⟨rest, hresolve.trans (onReqs_ok hloop)⟩

/-- What the handler makes of request `i`. -/
def decodedReq (P : Processor G X A O W) (result : GenerationResult) (run : Nat → Req G X → List Token)
    (i : Nat) (req : Req G X) : Req G X :=
  if req.live then P.afterTurn i (run i req) ((req.settled result i (run i req)).extendOutput (run i req))
  else req

/-- The commit loop, after the runs were resolved. -/
theorem commit_resolved {result : GenerationResult} (hoverlap : P.enableOverlap = true)
    (hspec : batch.specIsNone = false) {reqs : List (Req G X)}
    (hbeam : ∀ req ∈ reqs, req.hasBeamGroup = false) :
    ∃ units, turns (P.commitTurn batch (reqs.mapIdx (resolvedRun result lens stride run))) 0
        (reqs.mapIdx (resolvedReq (result.counted lens) run)) =
      .ok units (reqs.mapIdx (decodedReq P (result.counted lens) run)) := by
  let runs := reqs.mapIdx (resolvedRun result lens stride run)
  let next : Nat → Req G X → Req G X := fun i req =>
    if req.live then P.afterTurn i (runs.getD i []) (req.extendOutput (runs.getD i [])) else req
  have hruns : ∀ i req, reqs[i]? = some req → runs[i]? = some (resolvedRun result lens stride run i req) :=
    fun i req hreq => by rw [List.getElem?_mapIdx, hreq, Option.map_some]
  have hlive : ∀ i (req : Req G X), (resolvedReq (result.counted lens) run i req).live = req.live := by
    intro i req
    unfold resolvedReq
    split
    · exact settled_live
    · rfl
  have hturn : ∀ i req, (reqs.mapIdx (resolvedReq (result.counted lens) run))[i]? = some req →
      P.commitTurn batch runs i req = .ok () (next i req) := by
    intro i req hreq
    rw [List.getElem?_mapIdx] at hreq
    obtain ⟨before, hbefore, rfl⟩ := Option.map_eq_some_iff.mp hreq
    have hnone : (resolvedReq (result.counted lens) run i before).hasBeamGroup = false := by
      have h := hbeam before (List.mem_of_getElem? hbefore)
      unfold resolvedReq
      split
      · exact settled_hasBeamGroup.trans h
      · exact h
    by_cases hl : (resolvedReq (result.counted lens) run i before).live = true
    · have hrun := hruns i before hbefore
      simp only [next, hl, if_true, List.getD_eq_getElem?_getD, hrun, Option.getD_some]
      exact commitTurn_live hspec hnone hl hrun
    · simp only [next, hl, Bool.false_eq_true, if_false]
      exact commitTurn_skips hoverlap hnone (Bool.not_eq_true _ ▸ hl)
  refine ⟨_, (turns_zero_ok (fun _ _ => ()) next hturn).trans (congrArg _ ?_)⟩
  rw [List.mapIdx_mapIdx]
  refine List.mapIdx_eq_mapIdx_iff.mpr fun i hi => ?_
  have hrun := hruns i reqs[i] (List.getElem?_eq_getElem hi)
  by_cases hl : reqs[i].live = true
  · simp only [Function.comp_apply, next, hlive, hl, if_true, List.getD_eq_getElem?_getD, hrun,
      Option.getD_some]
    simp only [resolvedReq, resolvedRun, decodedReq, hl, if_true]
  · simp only [Function.comp_apply, next, hlive, hl, Bool.false_eq_true, if_false]
    simp only [resolvedReq, decodedReq, hl, Bool.false_eq_true, if_false]

/-- The handler, with runs that are there to be read. -/
theorem decode_queued (hoverlap : P.enableOverlap = true) (hspec : batch.specIsNone = false)
    (hbeam : ∀ req ∈ s.reqs, req.hasBeamGroup = false)
    (hshape : DecodeShape s.result s.reqs.length stride lens)
    (hskip : s.result.grammarAdvanced = true ∨ batch.hasGrammar = false) (hhealthy : P.failure s = none)
    (hrun : ∀ i req, s.reqs[i]? = some req → req.live = true → ∀ t : Req G X,
      runToSettle s.result (acceptedRun s.result lens stride i) i req t = .ok (run i req) t) :
    ∃ s', P.processBatchResultDecode batch s = .ok () s' ∧
      s'.reqs = s.reqs.mapIdx (decodedReq P (s.result.counted lens) run) := by
  obtain ⟨rest, hdecode⟩ := decode_checked P batch hhealthy
  let finalized : State G X A O W := { P.checked s with result := s.result.finalized, rest }
  have hshape' : DecodeShape finalized.result finalized.reqs.length stride lens := hshape.finalized
  obtain ⟨rest', hresolve⟩ := @resolve_queued G X A O W P finalized stride lens batch run hshape' hskip hrun
  obtain ⟨units, hcommit⟩ := @commit_resolved G X A O W P stride lens batch run finalized.result hoverlap hspec
    finalized.reqs hbeam
  let opened : State G X A O W := { finalized with
    reqs := finalized.reqs.mapIdx (resolvedReq (finalized.result.counted lens) run)
    result := finalized.result.counted lens
    allocator := P.freeGroupBegin finalized.allocator
    rest := P.reportDecode rest' }
  let runs := finalized.reqs.mapIdx (resolvedRun finalized.result lens stride run)
  have hloop : onReqs (turns (P.commitTurn batch runs) 0) opened = .ok units
      { opened with reqs := finalized.reqs.mapIdx (decodedReq P (finalized.result.counted lens) run) } :=
    onReqs_ok hcommit
  rw [hdecode, normalize_spec hspec, bind_ok hresolve]
  unfold Processor.commitDecode
  rw [bind_modify, hspec, if_neg Bool.false_ne_true]
  exact ⟨_, (bind_ok hloop).trans rfl, rfl⟩

end Queued

/-! ## The advance on the live batch -/

section Live
variable {P : Processor G X A O W} {live : Batch} {s : State G X A O W} {stride : Nat} {lens : List Nat}

/-- The run that a live request commits. -/
def committedRun (A : Automaton G) (result : GenerationResult) (lens : List Nat) (stride i : Nat)
    (req : Req G X) : List Token :=
  match req.grammar with
  | none => acceptedRun result lens stride i
  | some grammar => (acceptGrammarTokens A grammar (acceptedRun result lens stride i)).retained

/-- A request after the advance. -/
def advancedReq (A : Automaton G) (result : GenerationResult) (lens : List Nat) (stride i : Nat)
    (req : Req G X) : Req G X :=
  match req.grammar with
  | none => req
  | some grammar =>
    if req.live then req.accept (acceptGrammarTokens A grammar (acceptedRun result lens stride i)) else req

/-- What the advance retains for a request. -/
def retainedRun (A : Automaton G) (result : GenerationResult) (lens : List Nat) (stride i : Nat)
    (req : Req G X) : Option (List Token) :=
  match req.grammar with
  | none => none
  | some _ => if req.live then some (committedRun A result lens stride i req) else none

theorem advanceDecodeTurn_eq {i : Nat} {req : Req G X} (hi : i < lens.length) :
    P.advanceDecodeTurn s.result.nextTokenIds.tolist lens stride i req =
      .ok (retainedRun P.grammar s.result lens stride i req)
        (advancedReq P.grammar s.result lens stride i req) := by
  unfold Processor.advanceDecodeTurn
  rw [bind_get]
  cases hg : req.grammar with
  | none =>
    rw [retainedRun, advancedReq, hg]
    rfl
  | some grammar =>
    rw [retainedRun, advancedReq, committedRun, hg]
    dsimp only
    by_cases hlive : req.live = true
    · rw [if_neg (live_eq_true.mp hlive), if_pos hlive, if_pos hlive,
        bind_ok (subscript_ok (List.getElem?_eq_getElem hi) req), acceptedRun_eq hi]
      rfl
    · rw [if_pos (live_eq_false.mp (Bool.not_eq_true _ ▸ hlive)), if_neg hlive, if_neg hlive]
      rfl

theorem advancedReq_live {A : Automaton G} {result : GenerationResult} {i : Nat} (req : Req G X) :
    (advancedReq A result lens stride i req).live = req.live := by
  unfold advancedReq
  split
  · rfl
  · split <;> rfl

theorem advancedReq_hasBeamGroup {A : Automaton G} {result : GenerationResult} {i : Nat} (req : Req G X) :
    (advancedReq A result lens stride i req).hasBeamGroup = req.hasBeamGroup := by
  unfold advancedReq
  split
  · rfl
  · split <;> rfl

theorem advancedReq_plain {A : Automaton G} {result : GenerationResult} {i : Nat} {req : Req G X}
    (hplain : req.grammar = none) : advancedReq A result lens stride i req = req := by
  rw [advancedReq, hplain]

/-- The advance, and what it leaves to be read by the handler. -/
theorem advance_live (h : SpecDecode P live s stride lens) :
    ∃ s₁, P.advanceGrammarFsm live s = .ok () s₁ ∧
      s₁.reqs = s.reqs.mapIdx (advancedReq P.grammar s.result lens stride) ∧
      ∃ advanced retained,
        s₁.result = { s.result with grammarAdvanced := advanced, grammarRetainedTokens := retained } ∧
        ∀ i req, s.reqs[i]? = some req → req.live = true → req.grammar.isSome = true →
          ∃ l, retained = some l ∧ l[i]? = some (some (committedRun P.grammar s.result lens stride i req)) := by
  by_cases hgrammar : live.hasGrammar = true
  · have hloop : turns (P.advanceDecodeTurn s.result.nextTokenIds.tolist lens stride) 0 s.reqs =
        .ok (s.reqs.mapIdx (retainedRun P.grammar s.result lens stride))
          (s.reqs.mapIdx (advancedReq P.grammar s.result lens stride)) := by
      refine turns_zero_ok _ _ fun i req hreq => advanceDecodeTurn_eq ?_
      rw [h.shape.lens_length]
      exact (List.getElem?_eq_some_iff.mp hreq).1
    have hloop' :
        onReqs (turns (P.advanceDecodeTurn s.result.nextTokenIds.tolist lens stride) 0) (P.checked s) =
          .ok (s.reqs.mapIdx (retainedRun P.grammar s.result lens stride))
            { P.checked s with reqs := s.reqs.mapIdx (advancedReq P.grammar s.result lens stride) } :=
      onReqs_ok hloop
    refine ⟨{ P.checked s with
        reqs := s.reqs.mapIdx (advancedReq P.grammar s.result lens stride)
        result := s.result.advanced (s.reqs.mapIdx (retainedRun P.grammar s.result lens stride)) },
      ?_, rfl, true,
      some (s.reqs.mapIdx (retainedRun P.grammar s.result lens stride)), rfl, fun i req hreq hlive hsome => ?_⟩
    · unfold Processor.advanceGrammarFsm
      rw [bind_get]
      dsimp only
      rw [h.grammarAdvanced, hgrammar, if_neg (by simp), h.decode, Bool.true_or, if_neg (by simp),
        bind_ok (check_ok (failure_none h.healthy)), if_neg (by simp), h.shape.acceptLens]
      dsimp only
      rw [bind_ok (ofExcept_ok h.shape.stride_eq), bind_ok hloop']
      rfl
    · refine ⟨_, rfl, ?_⟩
      obtain ⟨grammar, hg⟩ := Option.isSome_iff_exists.mp hsome
      rw [List.getElem?_mapIdx, hreq, Option.map_some, retainedRun, hg]
      simp only [hlive, if_true]
  · -- no request has a grammar
    have hplain : ∀ req ∈ s.reqs, req.grammar = none := fun req hreq => by
      by_contra hsome
      exact hgrammar (h.hasGrammar req hreq (Option.isSome_iff_ne_none.mpr hsome))
    refine ⟨s, advanceGrammarFsm_skips (Or.inr (Bool.not_eq_true _ ▸ hgrammar)), ?_, s.result.grammarAdvanced,
      s.result.grammarRetainedTokens, rfl, fun i req hreq _ hsome => ?_⟩
    · refine (List.mapIdx_eq_iff.mpr fun i => ?_).symm
      cases hreq : s.reqs[i]? with
      | none => rfl
      | some req => rw [Option.map_some, advancedReq_plain (hplain req (List.mem_of_getElem? hreq))]
    · rw [hplain req (List.mem_of_getElem? hreq)] at hsome
      cases hsome

/-- Request `i` after the advance and the handler. -/
def settledBy (P : Processor G X A O W) (result : GenerationResult) (lens : List Nat) (stride i : Nat)
    (req : Req G X) : Req G X :=
  decodedReq P (result.counted lens) (fun i _ => committedRun P.grammar result lens stride i req) i
    (advancedReq P.grammar result lens stride i req)

/-- The advance on the live batch, then the handler on its queued copy. -/
def Processor.eagerly (P : Processor G X A O W) (live : Batch) : Act G X A O W Unit := do
  P.advanceGrammarFsm live
  P.processBatchResultDecode live.queuedCopy

/-- What the handler reads for a live request after the advance. -/
theorem runToSettle_advanced {A : Automaton G} {result advanced : GenerationResult} {i : Nat} {req : Req G X}
    (hlive : req.live = true)
    (hretained : req.grammar.isSome = true → ∃ l, advanced.grammarRetainedTokens = some l ∧
      l[i]? = some (some (committedRun A result lens stride i req))) (t : Req G X) :
    runToSettle advanced (acceptedRun result lens stride i) i (advancedReq A result lens stride i req) t =
      .ok (committedRun A result lens stride i req) t := by
  unfold runToSettle
  cases hg : req.grammar with
  | none =>
    rw [advancedReq_plain hg, hg, committedRun, hg]
    rfl
  | some grammar =>
    obtain ⟨l, hl, hrun⟩ := hretained (by rw [hg]; rfl)
    have hsome : (advancedReq A result lens stride i req).grammar.isSome = true := by
      simp [advancedReq, hg, hlive, Req.accept]
    rw [if_pos hsome, hl, bind_ok (subscript_ok hrun t)]
    rfl

theorem eager_reqs (h : SpecDecode P live s stride lens) :
    ∃ s', P.eagerly live s = .ok () s' ∧ s'.reqs = s.reqs.mapIdx (settledBy P s.result lens stride) := by
  obtain ⟨s₁, hadvance, hreqs, advanced, retained, hresult, hretained⟩ := advance_live h
  let run : Nat → Req G X → List Token := fun i _ =>
    s.reqs[i]?.elim [] (committedRun P.grammar s.result lens stride i)
  have hrun : ∀ i req req₁, s.reqs[i]? = some req →
      run i req₁ = committedRun P.grammar s.result lens stride i req := by
    intro i req req₁ hreq
    simp only [run, hreq, Option.elim_some]
  have hat : ∀ i req₁, s₁.reqs[i]? = some req₁ → ∃ req, s.reqs[i]? = some req ∧
      advancedReq P.grammar s.result lens stride i req = req₁ := by
    intro i req₁ hreq₁
    rw [hreqs, List.getElem?_mapIdx] at hreq₁
    exact Option.map_eq_some_iff.mp hreq₁
  have hread : ∀ i req₁, s₁.reqs[i]? = some req₁ → req₁.live = true → ∀ t : Req G X,
      runToSettle s₁.result (acceptedRun s₁.result lens stride i) i req₁ t = .ok (run i req₁) t := by
    intro i req₁ hreq₁ hlive t
    obtain ⟨req, hreq, rfl⟩ := hat i req₁ hreq₁
    rw [advancedReq_live] at hlive
    rw [hrun i req (advancedReq P.grammar s.result lens stride i req) hreq, hresult]
    exact runToSettle_advanced hlive (hretained i req hreq hlive) t
  have hbeam : ∀ req₁ ∈ s₁.reqs, req₁.hasBeamGroup = false := by
    intro req₁ hmem
    obtain ⟨i, hreq₁⟩ := List.getElem?_of_mem hmem
    obtain ⟨req, hreq, rfl⟩ := hat i req₁ hreq₁
    rw [advancedReq_hasBeamGroup]
    exact h.noBeam req (List.mem_of_getElem? hreq)
  have hshape : DecodeShape s₁.result s₁.reqs.length stride lens := by
    rw [hresult, hreqs, List.length_mapIdx]
    exact ⟨h.shape.nextTokenIds, h.shape.acceptLens, h.shape.lens_length, h.shape.stride_eq, h.shape.le_stride,
      h.shape.blockAcceptLens, h.shape.capLens⟩
  obtain ⟨s', hdecode, hreqs'⟩ := @decode_queued G X A O W P s₁ stride lens live.queuedCopy run h.overlap h.spec
    hbeam hshape (Or.inr rfl) (failure_none h.healthy) hread
  refine ⟨s', (bind_ok hadvance).trans hdecode, ?_⟩
  rw [hreqs', hreqs, List.mapIdx_mapIdx, hresult]
  refine List.mapIdx_eq_mapIdx_iff.mpr fun i hi => ?_
  rw [Function.comp_apply, settledBy]
  unfold decodedReq
  rw [advancedReq_live]
  by_cases hlive : s.reqs[i].live = true
  · have hone := hrun i s.reqs[i] (advancedReq P.grammar s.result lens stride i s.reqs[i])
      (List.getElem?_eq_getElem hi)
    rw [if_pos hlive, if_pos hlive, hone]
    rfl
  · rw [if_neg hlive, if_neg hlive]

/-- What the handler leaves is the request settled. -/
theorem settledBy_settles (h : DecodeShape s.result s.reqs.length stride lens) {i : Nat} (hi : i < lens.length)
    (req : Req G X) : Settles P s.result lens stride i req (settledBy P s.result lens stride i req) where
  skipped hlive := by
    rw [settledBy, decodedReq, advancedReq_live, hlive, if_neg Bool.false_ne_true, advancedReq]
    split
    · rfl
    · rw [hlive, if_neg Bool.false_ne_true]
  committed hlive := by
    have haccepted : acceptedRun s.result lens stride i <+:
        block s.result.nextTokenIds.tolist (i * stride) stride := by
      rw [← acceptedRun_eq hi]
      exact List.take_prefix_take_left (h.le_stride _ (List.getElem_mem hi))
    let run := committedRun P.grammar s.result lens stride i req
    let advanced := advancedReq P.grammar s.result lens stride i req
    let before := (advanced.settled (s.result.counted lens) i run).extendOutput run
    have hgrammar : before.grammar = advanced.grammar := settled_grammar
    have houtput : before.outputIds = advanced.outputIds ++ run := congrArg (· ++ run) settled_outputIds
    have hkv : before.kvCommittedLen = advanced.kvCommittedLen + run.length := settled_kvCommittedLen
    have hreq' : settledBy P s.result lens stride i req = P.afterTurn i run before := by
      rw [settledBy, decodedReq, advancedReq_live, if_pos hlive]
    cases hg : req.grammar with
    | none =>
      have hadvanced : advanced = req := advancedReq_plain hg
      rw [hadvanced] at hgrammar houtput hkv
      have hrun : run = acceptedRun s.result lens stride i := by
        simp only [run, committedRun, hg]
      refine ⟨run, before, by rw [hrun]; exact haccepted, ?_, houtput, hkv, hreq'⟩
      rw [hgrammar, hg, hrun]
      exact Takes.plain
    | some grammar =>
      let accepted := acceptGrammarTokens P.grammar grammar (acceptedRun s.result lens stride i)
      obtain ⟨fed, hretained⟩ :=
        acceptGrammarTokens_retained P.grammar grammar (acceptedRun s.result lens stride i)
      have hadvanced : advanced = req.accept accepted := by
        show advancedReq P.grammar s.result lens stride i req = _
        rw [advancedReq, hg]
        dsimp only
        rw [if_pos hlive]
      have hrun : run = accepted.retained := by
        simp only [run, accepted, committedRun, hg]
      rw [hadvanced] at hgrammar houtput hkv
      refine ⟨run, before, ?_, ?_, houtput, hkv, hreq'⟩
      · rw [hrun]
        exact hretained.kept_initial.trans haccepted
      · rw [hgrammar, hrun]
        exact Takes.grammar hretained

end Live
end FlashSpark.L4.Scheduler
