import FlashSpark.L3Engram.History

/-!
# Padding and the history rows

A committing `forward` (extend or decode) sets one history row for each request of the
batch: its slot's, or the spare one when the request has no rows or its last row is
padding, which `out_cache_loc` 0 tells. A padded request may carry any slot, that of a
live request included.

* `commitRow_eq`: where a request's row goes.
* `forward_commits`: the slots of live requests get their own last tokens, and no other
  row but the spare one changes.
* `padding_keeps_history`: the same of the batches that carry locations.
-/
namespace FlashSpark.L3.Engram

/-- The last row of the request is a row of its own. -/
def ForwardBatch.Live (fb : ForwardBatch) (b : Nat) : Prop :=
  1 ≤ fb.len b ∧ ∀ outLoc, fb.outCacheLoc = some outLoc → outLoc (fb.first b + (fb.len b - 1)) ≠ 0

/-- The tokens of the run of request `b`. -/
def runIds (fb : ForwardBatch) (ids : Nat → Int) (b : Nat) : List Int :=
  (List.range (fb.len b)).map fun i => ids (fb.first b + i)

/-- The history row after the run of request `b`: its last `n - 1` tokens, oldest first. -/
def rowAfter (H : Hasher) (fb : ForwardBatch) (ids : Nat → Int) (history : Nat → Nat → Int) (b c : Nat) :
    Int :=
  toInt32 (H.fillImages (runTokens H (fb.batchHistory history b) (fun j => ids (fb.first b + j))
    (fb.len b - 1) (H.maxNgramSize - 2 - c)))

section Batch
variable {H : Hasher} {fb : ForwardBatch} {ids : Nat → Int} {numTokens : Nat} {history : Nat → Nat → Int}

theorem runIds_getD {b j : Nat} (hj : j < (runIds fb ids b).length) :
    ids (fb.first b + j) = (runIds fb ids b).getD j 0 := by
  rw [runIds, List.length_map, List.length_range] at hj
  rw [List.getD_eq_getElem?_getD, runIds, List.getElem?_map, List.getElem?_range hj]
  rfl

/-- The row after a run holds the stream with the run appended. -/
theorem rowAfter_holds {b : Nat} (hlen : 1 ≤ fb.len b) {stream : List Int}
    (hrow : H.Holds (fb.batchHistory history b) stream)
    (hfits : ∀ token ∈ stream ++ runIds fb ids b, Fits32 token) :
    H.Holds (rowAfter H fb ids history b) (stream ++ runIds fb ids b) := by
  have hruns : (runIds fb ids b).length = fb.len b := by rw [runIds, List.length_map, List.length_range]
  have hholds := forward_holds hrow (fun j hj => runIds_getD hj) (by rw [hruns]; exact hlen) hfits
  rw [hruns] at hholds
  exact hholds

/-- Padding goes to the spare row, a live request to its own. -/
theorem commitRow_eq {b row last : Nat}
    (hrun : 1 ≤ fb.len b → row = fb.reqPoolIndices b ∧ last = fb.first b + (fb.len b - 1))
    (hempty : fb.len b = 0 → row = H.padRow) :
    (fb.Live b → fb.commitRow H.padRow row last = fb.reqPoolIndices b) ∧
      (¬fb.Live b → fb.commitRow H.padRow row last = H.padRow) := by
  unfold ForwardBatch.commitRow
  constructor
  · intro ⟨hlen, hout⟩
    rw [(hrun hlen).1, (hrun hlen).2]
    cases hloc : fb.outCacheLoc with
    | none => rfl
    | some outLoc => exact if_neg (hout outLoc hloc)
  · intro hpadded
    rcases Nat.eq_zero_or_pos (fb.len b) with h0 | h1
    · rw [hempty h0]
      split
      · rfl
      · split <;> rfl
    · have hzero : ∃ outLoc, fb.outCacheLoc = some outLoc ∧ outLoc (fb.first b + (fb.len b - 1)) = 0 := by
        by_contra hno
        exact hpadded ⟨h1, fun outLoc hloc h0 => hno ⟨outLoc, hloc, h0⟩⟩
      obtain ⟨outLoc, hloc, hzero⟩ := hzero
      rw [hloc]
      dsimp only
      rw [(hrun h1).2, if_pos hzero]

/-- The slots of live requests get the row after their runs, and no other request's row
changes. -/
theorem forward_commits (hc : fb.mode.commits = true) (hwf : fb.WF numTokens)
    (hslot : ∀ b, b < fb.batchSize → fb.Live b → fb.reqPoolIndices b < H.padRow)
    (hdistinct : ∀ b b', b < fb.batchSize → b' < fb.batchSize → fb.Live b → fb.Live b' →
      fb.reqPoolIndices b = fb.reqPoolIndices b' → b = b')
    {hashes : Nat → HashIds} {commit : Option Commit} {history' : Nat → Nat → Int}
    (hfwd : forward H fb ids numTokens history = some (hashes, commit))
    (hcommit : Commits fb.batchSize commit history history') :
    (∀ b, b < fb.batchSize → fb.Live b → history' (fb.reqPoolIndices b) = rowAfter H fb ids history b) ∧
    ∀ r, r ≠ H.padRow → (∀ b, b < fb.batchSize → fb.Live b → fb.reqPoolIndices b ≠ r) →
      history' r = history r := by
  have hn := H.two_le
  unfold forward at hfwd
  split at hfwd
  · obtain ⟨-, rfl⟩ := Prod.mk.inj (Option.some.inj hfwd)
    refine ⟨fun b hb hl => ?_, fun r _ _ => congrFun hcommit r⟩
    have hlt := hwf.row_lt hb hl.1
    omega
  · obtain ⟨P, hplan, hP⟩ := Option.map_eq_some_iff.mp hfwd
    obtain ⟨rows, last, hrl, hrows⟩ := plan_commit hc hwf hplan
    rw [← (Prod.mk.inj hP).2, hrl] at hcommit
    have hdest (b : Nat) (hb : b < fb.batchSize) := @commitRow_eq H fb b (rows b) (last b) (hrows b hb).1
      (hrows b hb).2
    refine ⟨fun b hb hl => ?_, fun r hr hfree => ?_⟩
    · have hset := hcommit.1 b hb fun b' hb' he => ?_
      · dsimp only at hset
        rw [(hdest b hb).1 hl] at hset
        rw [hset]
        funext c
        unfold rowAfter
        have hlast : fb.len b - 1 < fb.len b := Nat.sub_lt hl.1 Nat.one_pos
        rw [((hrows b hb).1 hl.1).2,
          (plan_reads hwf hplan hb hlast (fb.batchHistory history)).2.2 _ (by omega)]
      · -- a padded request goes to the spare row, which is no slot
        dsimp only at he
        rw [(hdest b hb).1 hl] at he
        by_cases hl' : fb.Live b'
        · rw [(hdest b' hb').1 hl'] at he
          exact hdistinct b' b hb' hb hl' hl he
        · rw [(hdest b' hb').2 hl'] at he
          exact absurd he (Nat.ne_of_gt (hslot b hb hl))
    · refine hcommit.2 r fun b hb he => ?_
      dsimp only at he
      by_cases hl : fb.Live b
      · rw [(hdest b hb).1 hl] at he
        exact hfree b hb hl he
      · rw [(hdest b hb).2 hl] at he
        exact hr he.symm

end Batch

/-- **Padding never touches a live history row.** Of an extend or decode batch with cache
locations, whatever slots its padded requests carry and wherever its empty ones stand: the
row of a request whose last row is not padding becomes that request's own last tokens, and
no other row but the spare one changes. -/
theorem padding_keeps_history {H : Hasher} {fb : ForwardBatch} {numTokens : Nat} {outLoc : Nat → Int}
    (hc : fb.mode.commits = true) (hwf : fb.WF numTokens) (hout : fb.outCacheLoc = some outLoc)
    (hslot : ∀ b, b < fb.batchSize → fb.Live b → fb.reqPoolIndices b < H.padRow)
    (hdistinct : ∀ b b', b < fb.batchSize → b' < fb.batchSize → fb.Live b → fb.Live b' →
      fb.reqPoolIndices b = fb.reqPoolIndices b' → b = b')
    (ids : Nat → Int) (history : Nat → Nat → Int) :
    (∀ b, fb.Live b ↔ 1 ≤ fb.len b ∧ outLoc (fb.first b + (fb.len b - 1)) ≠ 0) ∧
    ∃ hashes commit, forward H fb ids numTokens history = some (hashes, commit) ∧
      ∀ history', Commits fb.batchSize commit history history' →
        (∀ r, r ≠ H.padRow → (∀ b, b < fb.batchSize → fb.Live b → fb.reqPoolIndices b ≠ r) →
          history' r = history r) ∧
        ∀ b, b < fb.batchSize → fb.Live b →
          history' (fb.reqPoolIndices b) = rowAfter H fb ids history b ∧
          ∀ stream, H.Holds (fb.batchHistory history b) stream →
            (∀ token ∈ stream ++ runIds fb ids b, Fits32 token) →
            H.Holds (history' (fb.reqPoolIndices b)) (stream ++ runIds fb ids b) := by
  refine ⟨fun b => ?_, ?_⟩
  · unfold ForwardBatch.Live
    simp only [hout, Option.some.injEq, forall_eq']
  · obtain ⟨hashes, commit, hfwd⟩ := @forward_total H fb ids numTokens hwf history
    refine ⟨hashes, commit, hfwd, fun history' hcommit => ?_⟩
    obtain ⟨hlive, hkept⟩ := forward_commits hc hwf hslot hdistinct hfwd hcommit
    refine ⟨hkept, fun b hb hl => ⟨hlive b hb hl, fun stream hrow hfits => ?_⟩⟩
    rw [hlive b hb hl]
    exact rowAfter_holds hl.1 hrow hfits

/-- Two rows of a live request in slot 2; an empty request and a padded one, both of which
carry slot 2 as well; and a row of graph padding. -/
def aliased : ForwardBatch where
  mode := .extend ([2, 0, 1].getD · 0) ([0, 2, 2].getD · 0) none
  batchSize := 3
  reqPoolIndices := fun _ => 2
  positions := fun t => t
  outCacheLoc := some ([5, 6, 0, 0].getD · 0)

theorem aliased_live {b : Nat} (hb : b < 3) (h : aliased.Live b) : b = 0 := by
  obtain ⟨hlen, hout⟩ := h
  have hout := hout _ rfl
  match b, hb with
  | 0, _ => rfl
  | 1, _ => exact absurd hlen (by decide)
  | 2, _ => exact absurd rfl hout

theorem aliased_kept : ∃ hashes commit, forward smallHasher aliased (fun t => 10 + t) 4 (fun _ _ => 7) =
      some (hashes, commit) ∧
    ∀ history', Commits 3 commit (fun _ _ => 7) history' → ∀ r, r ≠ 4 → r ≠ 2 → history' r = fun _ => 7 := by
  have hwf : aliased.WF 4 := show (∀ b, b < 3 → [0, 2, 2].getD b 0 = prefixSum ([2, 0, 1].getD · 0) b) ∧
    prefixSum ([2, 0, 1].getD · 0) 3 ≤ 4 by decide
  obtain ⟨-, hashes, commit, hfwd, h⟩ := @padding_keeps_history smallHasher aliased 4 _ rfl hwf rfl
    (fun _ _ _ => show 2 < 4 by decide)
    (fun b b' hb hb' hl hl' _ => (aliased_live hb hl).trans (aliased_live hb' hl').symm)
    (fun t => 10 + t) fun _ _ => 7
  refine ⟨hashes, commit, hfwd, fun history' hcommit r hr hr2 => ?_⟩
  exact (h history' hcommit).1 r hr fun _ _ _ he => hr2 he.symm

end FlashSpark.L3.Engram
