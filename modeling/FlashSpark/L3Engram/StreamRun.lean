import FlashSpark.Core.LTS
import FlashSpark.L3Engram.LivePadding

/-!
# Hashing request streams batch by batch

A request's tokens reach the hasher in extend chunks, decode steps and verify
blocks, mixed with other requests' in one batch; what a chunk needs of the tokens
before it is in the request's history row, or comes from the scheduler.

* `Serves`, `Accepts`: what the callers of `forward` and `commit_after_verify`
  give them.
* `Inv`: every committed token has the ids of the whole stream, and the history
  row of a request that has committed holds its stream.
* `inv_inductive`: one lemma for each kind of step.
`IncrementalHash.lean` reads the invariant.
-/
namespace FlashSpark.L3.Engram

/-! ## The system -/

/-- The history tensor, and for each request slot: the committed tokens from
position 0, how many of them a prefix hit covered, the ids computed for the rest,
whether the slot's history row is the request's, and a verified block (its tokens
and their ids) that waits for acceptance. -/
structure State where
  history : Nat → Nat → Int
  stream : Nat → List Int
  base : Nat → Nat
  hashes : Nat → List HashIds
  held : Nat → Bool
  pending : Nat → Option (List Int × List HashIds)

inductive Op where
  /-- Slot `r` is given to a request with `cached` tokens already in the KV cache. -/
  | assign (r : Nat) (cached : List Int)
  /-- `EngramHasher.forward`; `live b` tells requests from graph padding. -/
  | forward (fb : ForwardBatch) (ids : Nat → Int) (numTokens : Nat) (live : Nat → Bool)
  /-- `commit_after_verify`. -/
  | commit (bs width : Nat) (req : Nat → Nat) (verifyIds : Nat → Nat → Int) (commitLens : Nat → Nat)

/-- The hash ids of the run of request `b`. -/
def runHashes (fb : ForwardBatch) (hashes : Nat → HashIds) (b : Nat) : List HashIds :=
  (List.range (fb.len b)).map fun i => hashes (fb.first b + i)

/-- The entry of slot `r` among those that `sel` selects. -/
def entry (bs : Nat) (req : Nat → Nat) (sel : Nat → Bool) (r : Nat) : Option Nat :=
  (List.range bs).find? fun b => sel b && req b == r

/-- Where the history of request `b` comes from: the true predecessors from the
scheduler, or a slot row that is the request's. -/
def State.Source (H : Hasher) (s : State) (fb : ForwardBatch) (b : Nat) : Prop :=
  match fb.mode with
  | .extend _ _ (some ngramHistory) => H.Holds (ngramHistory b) (s.stream (fb.reqPoolIndices b))
  | _ => s.held (fb.reqPoolIndices b) = true

/-- Live requests have slots of their own and continue their streams; in a
committing mode padding is what has no rows, or location 0 for its last one. -/
structure Serves (H : Hasher) (s : State) (fb : ForwardBatch) (ids : Nat → Int) (numTokens : Nat)
    (live : Nat → Bool) : Prop where
  wf : fb.WF numTokens
  slot_lt : ∀ b, b < fb.batchSize → live b = true → fb.reqPoolIndices b < H.padRow
  distinct : ∀ b b', b < fb.batchSize → b' < fb.batchSize → live b = true → live b' = true →
    fb.reqPoolIndices b = fb.reqPoolIndices b' → b = b'
  len_pos : ∀ b, b < fb.batchSize → live b = true → 1 ≤ fb.len b
  positions : ∀ b i, b < fb.batchSize → live b = true → i < fb.len b →
    fb.positions (fb.first b + i) = ((s.stream (fb.reqPoolIndices b)).length + i : Nat)
  fits : ∀ b i, b < fb.batchSize → live b = true → i < fb.len b → Fits32 (ids (fb.first b + i))
  source : ∀ b, b < fb.batchSize → live b = true → s.Source H fb b
  padding : fb.mode.commits = true → ∀ b, b < fb.batchSize → (live b = true ↔ 1 ≤ fb.len b ∧
    ∀ outLoc, fb.outCacheLoc = some outLoc → outLoc (fb.first b + (fb.len b - 1)) ≠ 0)

/-- A request that accepts something has a verified block that its dense row starts
with, and of which it accepts the first `commitLens b`. -/
structure Accepts (H : Hasher) (s : State) (bs width : Nat) (req : Nat → Nat)
    (verifyIds : Nat → Nat → Int) (commitLens : Nat → Nat) : Prop where
  slot_lt : ∀ b, b < bs → req b < H.padRow
  distinct : ∀ b b', b < bs → b' < bs → req b = req b' → b = b'
  verified : ∀ b, b < bs → commitLens b = 0 ∨ ∃ vs hs, s.pending (req b) = some (vs, hs) ∧
    commitLens b ≤ vs.length ∧ vs.length ≤ width ∧ ∀ j, j < vs.length → verifyIds b j = vs.getD j 0

def State.assign (s : State) (r : Nat) (cached : List Int) : State where
  history := s.history
  stream := Function.update s.stream r cached
  base := Function.update s.base r cached.length
  hashes := Function.update s.hashes r []
  held := Function.update s.held r cached.isEmpty
  pending := Function.update s.pending r none

/-- Extend and decode commit their runs; a draft that waited is stale. -/
def State.advance (s : State) (fb : ForwardBatch) (ids : Nat → Int) (live : Nat → Bool)
    (hashes : Nat → HashIds) (history' : Nat → Nat → Int) : State where
  history := history'
  stream r := match entry fb.batchSize fb.reqPoolIndices live r with
    | none => s.stream r
    | some b => s.stream r ++ runIds fb ids b
  base := s.base
  hashes r := match entry fb.batchSize fb.reqPoolIndices live r with
    | none => s.hashes r
    | some b => s.hashes r ++ runHashes fb hashes b
  held r := match entry fb.batchSize fb.reqPoolIndices live r with
    | none => s.held r
    | some _ => true
  pending r := match entry fb.batchSize fb.reqPoolIndices live r with
    | none => s.pending r
    | some _ => none

/-- Verify leaves its runs waiting. -/
def State.draft (s : State) (fb : ForwardBatch) (ids : Nat → Int) (live : Nat → Bool)
    (hashes : Nat → HashIds) (history' : Nat → Nat → Int) : State where
  history := history'
  stream := s.stream
  base := s.base
  hashes := s.hashes
  held := s.held
  pending r := match entry fb.batchSize fb.reqPoolIndices live r with
    | none => s.pending r
    | some b => some (runIds fb ids b, runHashes fb hashes b)

/-- The accepted part of what waited is committed. -/
def State.accept (s : State) (bs : Nat) (req commitLens : Nat → Nat)
    (history' : Nat → Nat → Int) : State where
  history := history'
  stream r := match entry bs req (fun _ => true) r, s.pending r with
    | some b, some (vs, _) => s.stream r ++ vs.take (commitLens b)
    | _, _ => s.stream r
  base := s.base
  hashes r := match entry bs req (fun _ => true) r, s.pending r with
    | some b, some (_, hs) => s.hashes r ++ hs.take (commitLens b)
    | _, _ => s.hashes r
  held := s.held
  pending r := match entry bs req (fun _ => true) r with
    | none => s.pending r
    | some _ => none

def system (H : Hasher) : LTS State Op where
  init s := ∀ r, s.stream r = [] ∧ s.base r = 0 ∧ s.hashes r = [] ∧ s.pending r = none
  step s op s' := match op with
    | .assign r cached => r < H.padRow ∧ (∀ token ∈ cached, Fits32 token) ∧ s' = s.assign r cached
    | .forward fb ids numTokens live => Serves H s fb ids numTokens live ∧
        ∃ hashes commit history', forward H fb ids numTokens s.history = some (hashes, commit) ∧
          Commits fb.batchSize commit s.history history' ∧
          s' = if fb.mode.commits then s.advance fb ids live hashes history'
            else s.draft fb ids live hashes history'
    | .commit bs width req verifyIds commitLens =>
        Accepts H s bs width req verifyIds commitLens ∧
        ∃ history', commitAfterVerify H bs width req verifyIds commitLens s.history history' ∧
          s' = s.accept bs req commitLens history'

/-! ## What one step does -/

theorem entry_some {bs : Nat} {req : Nat → Nat} {sel : Nat → Bool} {r b : Nat}
    (h : entry bs req sel r = some b) : b < bs ∧ sel b = true ∧ req b = r := by
  refine ⟨List.mem_range.mp (List.mem_of_find?_eq_some h), ?_⟩
  simpa using List.find?_some h

theorem entry_none {bs : Nat} {req : Nat → Nat} {sel : Nat → Bool} {r : Nat}
    (h : entry bs req sel r = none) : ∀ b, b < bs → sel b = true → req b ≠ r := by
  intro b hb hsel he
  have := List.find?_eq_none.mp h b (List.mem_range.mpr hb)
  simp [hsel, he] at this

/-- Where entries of one slot are one entry, it is found. -/
theorem entry_eq {bs : Nat} {req : Nat → Nat} {sel : Nat → Bool} {b : Nat}
    (hd : ∀ b b', b < bs → b' < bs → sel b = true → sel b' = true → req b = req b' → b = b')
    (hb : b < bs) (hsel : sel b = true) : entry bs req sel (req b) = some b := by
  cases hent : entry bs req sel (req b) with
  | none => exact absurd rfl (entry_none hent b hb hsel)
  | some b' =>
    obtain ⟨hb', hsel', he⟩ := entry_some hent
    rw [hd b' b hb' hb hsel' hsel he]

section Forward
variable {H : Hasher} {s : State} {fb : ForwardBatch} {ids : Nat → Int} {numTokens : Nat}
  {live : Nat → Bool} (hs : Serves H s fb ids numTokens live)
include hs

/-- The history row a live request's run follows is its stream's. -/
theorem Serves.holds (hheld : ∀ r, r < H.padRow → s.held r = true →
      H.Holds (s.history r) (s.stream r)) {b : Nat} (hb : b < fb.batchSize) (hl : live b = true) :
    H.Holds (fb.batchHistory s.history b) (s.stream (fb.reqPoolIndices b)) := by
  have hsrc := hs.source b hb hl
  have hslot := hheld _ (hs.slot_lt b hb hl)
  unfold State.Source at hsrc
  unfold ForwardBatch.batchHistory
  cases hm : fb.mode with
  | decode | targetVerify _ | compactVerify _ =>
    simp only [hm] at hsrc ⊢
    exact hslot hsrc
  | extend lens starts ngramHistory =>
    cases ngramHistory with
    | none =>
      simp only [hm] at hsrc ⊢
      exact hslot hsrc
    | some ngramHistory =>
      simp only [hm] at hsrc ⊢
      exact hsrc

theorem Serves.runIds_fits {b : Nat} (hb : b < fb.batchSize) (hl : live b = true) :
    ∀ token ∈ runIds fb ids b, Fits32 token := by
  intro token hmem
  obtain ⟨i, hi, rfl⟩ := List.mem_map.mp hmem
  exact hs.fits b i hb hl (List.mem_range.mp hi)

/-- The ids of a live request's run are those of its stream with the run appended. -/
theorem Serves.run_hashes (hheld : ∀ r, r < H.padRow → s.held r = true →
      H.Holds (s.history r) (s.stream r)) {hashes : Nat → HashIds} {commit : Option Commit}
    (hfwd : forward H fb ids numTokens s.history = some (hashes, commit)) {b : Nat}
    (hb : b < fb.batchSize) (hl : live b = true) :
    (runHashes fb hashes b).length = (runIds fb ids b).length ∧
      ∀ i, i < (runIds fb ids b).length → (runHashes fb hashes b)[i]? =
        some (specHash H (s.stream (fb.reqPoolIndices b) ++ runIds fb ids b)
          ((s.stream (fb.reqPoolIndices b)).length + i)) := by
  refine ⟨by simp [runHashes, runIds], fun i hi => ?_⟩
  have hlen : i < fb.len b := by simpa [runIds] using hi
  rw [runHashes, List.getElem?_map, List.getElem?_range hlen, Option.map_some,
    forward_run hs.wf hfwd hb hlen, hs.positions b i hb hl hlen]
  exact congrArg some (run_hash (hs.holds hheld hb hl) (fun j hj => runIds_getD hj) hi)

/-- In a committing mode the slots of live requests get the row after their runs, and
no other request's row changes. -/
theorem Serves.commits (hc : fb.mode.commits = true) {hashes : Nat → HashIds}
    {commit : Option Commit} {history' : Nat → Nat → Int}
    (hfwd : forward H fb ids numTokens s.history = some (hashes, commit))
    (hcommit : Commits fb.batchSize commit s.history history') :
    (∀ b, b < fb.batchSize → live b = true → history' (fb.reqPoolIndices b) = rowAfter H fb ids s.history b) ∧
    ∀ r, r < H.padRow → (∀ b, b < fb.batchSize → live b = true → fb.reqPoolIndices b ≠ r) →
      history' r = s.history r := by
  have hlive (b : Nat) (hb : b < fb.batchSize) : live b = true ↔ fb.Live b := hs.padding hc b hb
  obtain ⟨hrows, hkept⟩ := forward_commits hc hs.wf
    (fun b hb hl => hs.slot_lt b hb ((hlive b hb).mpr hl))
    (fun b b' hb hb' hl hl' => hs.distinct b b' hb hb' ((hlive b hb).mpr hl) ((hlive b' hb').mpr hl'))
    hfwd hcommit
  exact ⟨fun b hb hl => hrows b hb ((hlive b hb).mp hl),
    fun r hr hfree => hkept r (Nat.ne_of_lt hr) fun b hb hl => hfree b hb ((hlive b hb).mpr hl)⟩

end Forward

/-! ## The invariant -/

structure Inv (H : Hasher) (s : State) : Prop where
  fits : ∀ r, ∀ token ∈ s.stream r, Fits32 token
  held : ∀ r, r < H.padRow → s.held r = true → H.Holds (s.history r) (s.stream r)
  recorded : ∀ r, Recorded H (s.stream r) (s.base r) (s.hashes r)
  pending : ∀ r vs hs, s.pending r = some (vs, hs) → s.held r = true ∧
    (∀ token ∈ vs, Fits32 token) ∧ hs.length = vs.length ∧
    ∀ i, i < vs.length → hs[i]? = some (specHash H (s.stream r ++ vs) ((s.stream r).length + i))

theorem assign_inv {H : Hasher} {s : State} (hi : Inv H s) {r : Nat} {cached : List Int}
    (hfit : ∀ token ∈ cached, Fits32 token) : Inv H (s.assign r cached) := by
  refine ⟨fun r' => ?_, fun r' hr' hheld => ?_, fun r' => ?_, fun r' vs hs hp => ?_⟩ <;>
    by_cases hne : r' = r
  · subst hne
    simpa [State.assign] using hfit
  · simpa [State.assign, hne] using hi.fits r'
  · subst hne
    simp only [State.assign, Function.update_self, List.isEmpty_iff] at hheld ⊢
    rw [hheld]
    exact holds_nil H _
  · simp only [State.assign, Function.update_of_ne hne] at hheld ⊢
    exact hi.held r' hr' hheld
  · subst hne
    simp [State.assign, Recorded]
  · simpa [State.assign, hne] using hi.recorded r'
  · subst hne
    simp [State.assign] at hp
  · simp only [State.assign, Function.update_of_ne hne] at hp ⊢
    exact hi.pending r' vs hs hp

section Forward
variable {H : Hasher} {s : State} {fb : ForwardBatch} {ids : Nat → Int} {numTokens : Nat}
  {live : Nat → Bool} {hashes : Nat → HashIds} {commit : Option Commit}
  {history' : Nat → Nat → Int} (hi : Inv H s) (hs : Serves H s fb ids numTokens live)
  (hfwd : forward H fb ids numTokens s.history = some (hashes, commit))
  (hcommit : Commits fb.batchSize commit s.history history')
include hi hs hfwd hcommit

/-- A committing forward leaves a live request's stream in its history row. -/
theorem advance_holds (hc : fb.mode.commits = true) {b : Nat} (hb : b < fb.batchSize)
    (hl : live b = true) : H.Holds (history' (fb.reqPoolIndices b))
      (s.stream (fb.reqPoolIndices b) ++ runIds fb ids b) := by
  rw [(hs.commits hc hfwd hcommit).1 b hb hl]
  refine rowAfter_holds (hs.len_pos b hb hl) (hs.holds hi.held hb hl) fun token hmem => ?_
  rcases List.mem_append.mp hmem with hmem | hmem
  · exact hi.fits _ token hmem
  · exact hs.runIds_fits hb hl token hmem

theorem advance_inv (hc : fb.mode.commits = true) :
    Inv H (s.advance fb ids live hashes history') := by
  refine ⟨fun r => ?_, fun r hr hheld => ?_, fun r => ?_, fun r vs hs' hp => ?_⟩
  · simp only [State.advance]
    split
    · exact hi.fits r
    · rename_i b hent
      obtain ⟨hb, hl, rfl⟩ := entry_some hent
      intro token hmem
      rcases List.mem_append.mp hmem with hmem | hmem
      · exact hi.fits _ token hmem
      · exact hs.runIds_fits hb hl token hmem
  · simp only [State.advance] at hheld ⊢
    split at hheld
    · rename_i hent
      rw [(hs.commits hc hfwd hcommit).2 r hr fun b hb hl => entry_none hent b hb hl]
      exact hi.held r hr hheld
    · rename_i b hent
      obtain ⟨hb, hl, rfl⟩ := entry_some hent
      exact advance_holds hi hs hfwd hcommit hc hb hl
  · simp only [State.advance]
    split
    · exact hi.recorded r
    · rename_i b hent
      obtain ⟨hb, hl, rfl⟩ := entry_some hent
      obtain ⟨hlen, hhs⟩ := hs.run_hashes hi.held hfwd hb hl
      exact (hi.recorded _).append hlen hhs
  · simp only [State.advance] at hp ⊢
    split at hp
    · exact hi.pending r vs hs' hp
    · cases hp

/-- A verify forward leaves the history alone and its blocks waiting. -/
theorem draft_inv (hc : fb.mode.commits = false) :
    history' = s.history ∧ Inv H (s.draft fb ids live hashes history') := by
  obtain rfl := forward_no_commit hc hfwd
  obtain rfl : history' = s.history := hcommit
  refine ⟨rfl, hi.fits, hi.held, hi.recorded, fun r vs hs' hp => ?_⟩
  simp only [State.draft] at hp ⊢
  split at hp
  · exact hi.pending r vs hs' hp
  · rename_i b hent
    obtain ⟨hb, hl, rfl⟩ := entry_some hent
    obtain ⟨rfl, rfl⟩ := Prod.mk.inj (Option.some.inj hp)
    obtain ⟨hlen, hhs⟩ := hs.run_hashes hi.held hfwd hb hl
    refine ⟨?_, hs.runIds_fits hb hl, hlen, hhs⟩
    have hsrc := hs.source b hb hl
    unfold State.Source at hsrc
    split at hsrc
    · rename_i hm
      rw [hm] at hc
      cases hc
    · exact hsrc

end Forward

section Accept
variable {H : Hasher} {s : State} {bs width : Nat} {req : Nat → Nat} {verifyIds : Nat → Nat → Int}
  {commitLens : Nat → Nat} {history' : Nat → Nat → Int} (hi : Inv H s)
  (ha : Accepts H s bs width req verifyIds commitLens)
  (hcommit : commitAfterVerify H bs width req verifyIds commitLens s.history history')
include ha hcommit

theorem accept_row {b : Nat} (hb : b < bs) : history' (req b) = fun c =>
    if commitLens b + c < H.maxNgramSize - 1 then s.history (req b) (commitLens b + c)
    else toInt32 (verifyIds b (commitLens b + c - (H.maxNgramSize - 1))) :=
  hcommit.2.1 b hb fun b' hb' he => ha.distinct b' b hb' hb he

omit ha in
theorem accept_kept {r : Nat} (hr : ∀ b, b < bs → req b ≠ r) : history' r = s.history r :=
  hcommit.2.2 r hr

omit hcommit in
include hi in
/-- What acceptance appends: the first `commitLens b` tokens of a block, with the ids
they have after the stream. -/
theorem accept_block {b : Nat} (hb : b < bs) (history' : Nat → Nat → Int) :
    ∃ (vs : List Int) (hs : List HashIds), commitLens b ≤ vs.length ∧
      (∀ j, j < vs.length → verifyIds b j = vs.getD j 0) ∧
      (∀ token ∈ vs, Fits32 token) ∧ hs.length = vs.length ∧
      (∀ i, i < vs.length →
        hs[i]? = some (specHash H (s.stream (req b) ++ vs) ((s.stream (req b)).length + i))) ∧
      (s.accept bs req commitLens history').stream (req b) =
        s.stream (req b) ++ vs.take (commitLens b) ∧
      (s.accept bs req commitLens history').hashes (req b) =
        s.hashes (req b) ++ hs.take (commitLens b) := by
  have hent : entry bs req (fun _ => true) (req b) = some b :=
    entry_eq (fun b b' hb hb' _ _ he => ha.distinct b b' hb hb' he) hb rfl
  rcases ha.verified b hb with h0 | ⟨vs, hs, hp, hk, -, hids⟩
  · -- nothing is accepted, whatever waits
    refine ⟨[], [], by simp [h0], by simp, by simp, rfl, by simp, ?_, ?_⟩
    · cases hp : s.pending (req b) <;> simp [State.accept, hent, hp, h0]
    · cases hp : s.pending (req b) <;> simp [State.accept, hent, hp, h0]
  · obtain ⟨-, hfit, hlen, hhs⟩ := hi.pending _ _ _ hp
    exact ⟨vs, hs, hk, hids, hfit, hlen, hhs, by simp only [State.accept, hent, hp],
      by simp only [State.accept, hent, hp]⟩

include hi in
/-- The history row after acceptance holds the stream after acceptance. -/
theorem accept_holds {b : Nat} (hb : b < bs) (hheld : s.held (req b) = true) :
    H.Holds (history' (req b)) ((s.accept bs req commitLens history').stream (req b)) := by
  obtain ⟨vs, hs, hk, hids, hfit, -, -, hstream, -⟩ := accept_block hi ha hb history'
  rw [hstream, accept_row ha hcommit hb]
  exact verify_holds (hi.held _ (ha.slot_lt b hb) hheld) hk hids hfit

include hi in
theorem accept_inv : Inv H (s.accept bs req commitLens history') := by
  refine ⟨fun r => ?_, fun r hr hheld => ?_, fun r => ?_, fun r vs hs hp => ?_⟩
  · cases hent : entry bs req (fun _ => true) r with
    | none => simpa [State.accept, hent] using hi.fits r
    | some b =>
      obtain ⟨hb, -, rfl⟩ := entry_some hent
      obtain ⟨vs, hs, -, -, hfit, -, -, hstream, -⟩ := accept_block hi ha hb history'
      rw [hstream]
      intro token hmem
      rcases List.mem_append.mp hmem with hmem | hmem
      · exact hi.fits _ token hmem
      · exact hfit token (List.mem_of_mem_take hmem)
  · cases hent : entry bs req (fun _ => true) r with
    | none =>
      simp only [State.accept, hent] at hheld ⊢
      rw [accept_kept hcommit fun b hb => entry_none hent b hb rfl]
      exact hi.held r hr hheld
    | some b =>
      obtain ⟨hb, -, rfl⟩ := entry_some hent
      exact accept_holds hi ha hcommit hb hheld
  · cases hent : entry bs req (fun _ => true) r with
    | none => simpa [State.accept, hent] using hi.recorded r
    | some b =>
      obtain ⟨hb, -, rfl⟩ := entry_some hent
      obtain ⟨vs, hs, hk, -, -, hlen, hhs, hstream, hhashes⟩ := accept_block hi ha hb history'
      rw [hstream, hhashes]
      refine (hi.recorded _).append (by simp [hlen]) fun i hik => ?_
      rw [List.length_take] at hik
      rw [List.getElem?_take, if_pos (by omega), hhs i (by omega)]
      -- the rejected tail does not reach back
      conv_lhs => rw [← List.take_append_drop (commitLens b) vs, ← List.append_assoc]
      rw [specHash_append (by rw [List.length_append, List.length_take]; omega)]
  · cases hent : entry bs req (fun _ => true) r with
    | none =>
      simp only [State.accept, hent] at hp ⊢
      exact hi.pending r vs hs hp
    | some b => simp [State.accept, hent] at hp

end Accept

theorem inv_inductive (H : Hasher) : (system H).Inductive (Inv H) where
  init s h := by
    refine ⟨fun r => ?_, fun r _ _ => ?_, fun r => ?_, fun r vs hs hp => ?_⟩
    · simp [(h r).1]
    · rw [(h r).1]
      exact holds_nil H _
    · simp [Recorded, (h r).1, (h r).2.1, (h r).2.2.1]
    · rw [(h r).2.2.2] at hp
      cases hp
  step s op s' hi hstep := by
    cases op with
    | assign r cached =>
      obtain ⟨-, hfit, rfl⟩ := hstep
      exact assign_inv hi hfit
    | forward fb ids numTokens live =>
      obtain ⟨hs, hashes, commit, history', hfwd, hcommit, rfl⟩ := hstep
      by_cases hc : fb.mode.commits = true
      · rw [if_pos hc]
        exact advance_inv hi hs hfwd hcommit hc
      · rw [if_neg hc]
        exact (draft_inv hi hs hfwd hcommit (by simpa using hc)).2
    | commit bs width req verifyIds commitLens =>
      obtain ⟨ha, history', hcommit, rfl⟩ := hstep
      exact accept_inv hi ha hcommit

end FlashSpark.L3.Engram
