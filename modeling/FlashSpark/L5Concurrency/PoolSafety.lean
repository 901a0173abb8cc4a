import FlashSpark.L5Concurrency.PoolInv

/-!
# Every ticket of every job is served exactly once

* `progress`: while a job is in progress its caller, or a worker already on it, can
  bring it nearer its end, so no wake-up is needed.
* `run_returns`: from every reachable state the current `run` can return.
* `pool_serves_once`: the property, over every run.
-/
namespace FlashSpark.L5.Pool
open L2.RowStore (Call kChunk serveCalls kSerialBelow)

/-! ## Reading the invariant -/

/-- The indices of job `w` passed to `serve`, call by call. -/
def State.indices (σ : State) (w : Nat) : List Nat :=
  (σ.sh.log.filter fun c => c.work == w).flatMap fun c => List.range' c.start (c.stop - c.start)

/-- The `run` of job `w` has returned. -/
def State.Returned (σ : State) (w : Nat) : Prop := w < σ.works.length ∧ σ.caller.work ≠ some w

theorem chunksOf_eq (count : Nat) : chunksOf count = count := by simp [chunksOf, kChunk]

/-- The `serve` calls of job `w` are those of its tickets. -/
theorem Inv.calls_eq {σ : State} (h : Inv σ) (w : Nat) :
    (σ.sh.log.filter fun c => c.work == w) =
      (tickets σ.sh.log w).map (ticketCall w (σ.count w)) := by
  unfold tickets
  rw [List.map_map]
  conv_lhs => rw [← List.map_id (σ.sh.log.filter fun c => c.work == w)]
  refine List.map_congr_left fun c hc => ?_
  obtain ⟨hmem, hwork⟩ := List.mem_filter.mp hc
  rw [beq_iff_eq] at hwork
  have := (h.log c hmem).2
  rw [hwork] at this
  exact this

theorem Inv.tickets_below {σ : State} (h : Inv σ) {w : Nat} (hw : w < σ.works.length) :
    (tickets σ.sh.log w).Nodup ∧ ∀ t ∈ tickets σ.sh.log w, t < σ.count w := by
  by_cases hcur : σ.caller.work = some w
  · cases hrun : σ.caller.running with
    | true =>
      have hl := h.ledger w hcur hrun
      rw [← chunksOf_eq (σ.count w), ← h.chunks w hcur hrun]
      exact ⟨hl.nodup, hl.below⟩
    | false =>
      cases hc : σ.caller with
      | publish v store =>
        rw [hc] at hcur
        obtain rfl := Option.some.inj hcur
        rw [(h.stored _ _ hc).2]
        exact ⟨List.nodup_nil, fun t ht => by cases ht⟩
      | idle => rw [hc] at hcur; cases hcur
      | drain v pc => rw [hc] at hrun; cases hrun
      | wait v => rw [hc] at hrun; cases hrun
      | waitActive v => rw [hc] at hrun; cases hrun
  · have hp := h.finished w hw hcur
    rw [chunksOf_eq] at hp
    exact ⟨hp.nodup_iff.mpr List.nodup_range, fun t ht => List.mem_range.mp (hp.mem_iff.mp ht)⟩

theorem Inv.indices_eq {σ : State} (h : Inv σ) {w : Nat} (hw : w < σ.works.length) :
    σ.indices w = tickets σ.sh.log w := by
  rw [State.indices, h.calls_eq w, List.flatMap_map]
  conv_rhs => rw [← List.flatMap_singleton' (tickets σ.sh.log w)]
  refine List.flatMap_congr fun t ht => ?_
  have hlt := (h.tickets_below hw).2 t ht
  simp only [ticketCall, kChunk, Nat.mul_one]
  rw [show min (t + 1) (σ.count w) - t = 1 by omega]
  rfl

/-! ## A job in progress can return -/

/-- Steps a thread inside `drain` has to take before it draws another ticket or
returns. -/
def DrainPc.todo (chunks : Nat) : DrainPc → Nat
  | .fetch => 2
  | .check ticket => if chunks ≤ ticket then 1 else 6
  | .serve _ => 5
  | .sub _ => 4
  | .notify => 3

def todoOf (chunks : Nat) : Option DrainPc → Nat
  | none => 0
  | some pc => pc.todo chunks

def Worker.todo (chunks : Nat) : Worker → Nat
  | .sleep _ => 0
  | .drain _ _ pc => 2 + pc.todo chunks
  | .leave _ => 1

def Store.todo : Store → Nat
  | .job => 11
  | .next => 10
  | .chunks => 9
  | .remaining => 8
  | .generation => 7

def Caller.todo (chunks : Nat) : Caller → Nat
  | .idle => 0
  | .publish _ store => store.todo
  | .drain _ pc => 4 + pc.todo chunks
  | .wait _ => 3
  | .waitActive _ => 4

/-- The tickets of the current job that have not been drawn. -/
def State.left (σ : State) : Nat :=
  match σ.caller with
  | .idle => 0
  | .publish w _ => chunksOf (σ.count w)
  | _ => σ.sh.chunks - σ.sh.next

def State.todo (σ : State) : Nat :=
  5 * σ.left + σ.caller.todo σ.sh.chunks + (σ.workers.map (Worker.todo σ.sh.chunks)).sum

/-- With `mutex_` free `drain` is never stuck. -/
theorem drainStep_todo (sh : Shared) (w count : Nat) (pc : DrainPc) :
    ∃ sh' pc', drainStep true sh w count pc = some (sh', pc') ∧ sh'.chunks = sh.chunks ∧
      5 * (sh'.chunks - sh'.next) + todoOf sh.chunks pc' <
        5 * (sh.chunks - sh.next) + pc.todo sh.chunks := by
  cases pc with
  | fetch =>
    refine ⟨_, _, rfl, rfl, ?_⟩
    simp only [todoOf, DrainPc.todo]
    split <;> omega
  | check ticket =>
    by_cases hdead : sh.chunks ≤ ticket
    · exact ⟨sh, none, if_pos hdead, rfl, by simp [todoOf, DrainPc.todo, hdead]⟩
    · exact ⟨sh, some (.serve ticket), if_neg hdead, rfl, by simp [todoOf, DrainPc.todo, hdead]⟩
  | serve ticket => exact ⟨_, _, rfl, rfl, by simp [todoOf, DrainPc.todo]⟩
  | sub ticket =>
    refine ⟨_, _, rfl, rfl, ?_⟩
    simp only [todoOf]
    split <;> simp [DrainPc.todo]
  | notify => exact ⟨sh, some .fetch, rfl, rfl, by simp [todoOf, DrainPc.todo]⟩

/-- `drain` returns only past the last ticket. -/
structure Drawn (σ : State) : Prop where
  ticket : ∀ w t, σ.caller = .drain w (.check t) → t < σ.sh.next
  drained : ∀ w, σ.caller = .wait w ∨ σ.caller = .waitActive w → σ.sh.chunks ≤ σ.sh.next

theorem drawn_caller {σ σ' : State} (h : Drawn σ) (hstep : callerStep σ = some σ') : Drawn σ' := by
  cases hc : σ.caller with
  | idle => simp [callerStep, hc] at hstep
  | publish w store =>
    have hstep : publishStep σ w store = some σ' := by rw [← hstep, callerStep, hc]
    cases store with
    | job =>
      simp only [publishStep] at hstep
      split at hstep
      · cases hstep
      · obtain rfl := Option.some.inj hstep
        exact ⟨by simp, by simp⟩
    | next | chunks | remaining | generation =>
      obtain rfl := Option.some.inj hstep
      exact ⟨by simp, by simp⟩
  | drain w pc =>
    unfold callerStep at hstep
    rw [hc] at hstep
    dsimp only at hstep
    split at hstep
    · cases hstep
    · rename_i sh p hd
      obtain rfl := Option.some.inj hstep
      refine ⟨fun v t hv => ?_, by simp⟩
      obtain ⟨rfl, rfl⟩ := Caller.drain.inj hv
      exact (drainStep_effect hd).check t rfl
    · rename_i sh hd
      obtain rfl := Option.some.inj hstep
      have heff := drainStep_effect hd
      obtain ⟨t, rfl, hdead⟩ := heff.ret rfl
      refine ⟨by simp, fun _ _ => ?_⟩
      have hdrawn := h.ticket w t hc
      have hnext := heff.next
      dsimp only
      rw [heff.chunks]
      omega
  | wait w =>
    have hdrained := h.drained w (.inl hc)
    unfold callerStep at hstep
    rw [hc] at hstep
    dsimp only at hstep
    split at hstep
    · cases hstep
    · obtain rfl := Option.some.inj hstep
      exact ⟨by simp, fun _ _ => hdrained⟩
  | waitActive w =>
    have hdrained := h.drained w (.inr hc)
    unfold callerStep at hstep
    rw [hc] at hstep
    dsimp only at hstep
    split at hstep <;> obtain rfl := Option.some.inj hstep
    · exact ⟨by simp, by simp⟩
    · exact ⟨by simp, fun _ _ => hdrained⟩

/-- A worker moves only the counter, and only forward. -/
theorem worker_next {σ σ' : State} {i : Nat} (hstep : workerStep σ i = some σ') :
    σ'.caller = σ.caller ∧ σ.sh.next ≤ σ'.sh.next ∧ σ'.sh.chunks = σ.sh.chunks := by
  unfold workerStep at hstep
  split at hstep
  · cases hstep
  · split at hstep
    · cases hstep
    split at hstep <;> obtain rfl := Option.some.inj hstep <;> exact ⟨rfl, Nat.le_refl _, rfl⟩
  · split at hstep
    · cases hstep
    · rename_i hd
      obtain rfl := Option.some.inj hstep
      exact ⟨rfl, (drainStep_effect hd).next, (drainStep_effect hd).chunks⟩
    · rename_i hd
      obtain rfl := Option.some.inj hstep
      exact ⟨rfl, (drainStep_effect hd).next, (drainStep_effect hd).chunks⟩
  · split at hstep
    · cases hstep
    obtain rfl := Option.some.inj hstep
    exact ⟨rfl, Nat.le_refl _, rfl⟩

theorem drawn_inductive (n : Nat) : (pool n).Inductive Drawn where
  init σ hσ := by
    subst hσ
    exact ⟨by simp [initial], by simp [initial]⟩
  step σ l σ' h hstep := by
    cases l with
    | call count =>
      simp only [pool, LTS.ofFn, step, callStep] at hstep
      split at hstep
      · obtain rfl := Option.some.inj hstep
        exact ⟨by simp, by simp⟩
      · cases hstep
    | caller => exact drawn_caller h hstep
    | worker i =>
      obtain ⟨hcaller, hnext, hchunks⟩ := worker_next hstep
      refine ⟨fun w t hw => ?_, fun w hw => ?_⟩
      · rw [hcaller] at hw
        exact Nat.lt_of_lt_of_le (h.ticket w t hw) hnext
      · rw [hcaller] at hw
        have := h.drained w hw
        omega

section Progress
variable {σ : State} (h : Inv σ)
include h

theorem publish_todo {w : Nat} {store : Store} (hcaller : σ.caller = .publish w store) :
    ∃ σ', callerStep σ = some σ' ∧ σ'.works = σ.works ∧ σ'.todo < σ.todo := by
  have hzero := h.idle_workers (by rw [hcaller]; rfl)
  have hidle : ∀ chunks, (σ.workers.map (Worker.todo chunks)).sum = 0 := fun chunks => by
    refine List.sum_eq_zero fun k hk => ?_
    obtain ⟨x, hx, rfl⟩ := List.mem_map.mp hk
    have hin := inside_zero hzero hx
    cases x with
    | sleep seen => rfl
    | drain seen v pc => simp [Worker.inside] at hin
    | leave seen => simp [Worker.inside] at hin
  have hstored := (h.stored w store hcaller).1
  have hmutex := h.mutex
  rw [hcaller] at hmutex
  unfold callerStep
  rw [hcaller]
  cases store with
  | job =>
    refine ⟨_, if_neg (by rw [hmutex]; exact Bool.false_ne_true), rfl, ?_⟩
    simp only [State.todo, State.left, hcaller, Caller.todo, Store.todo, hidle]
    exact Nat.lt_succ_self _
  | next | chunks | remaining =>
    refine ⟨_, rfl, rfl, ?_⟩
    simp only [State.todo, State.left, hcaller, Caller.todo, Store.todo, hidle]
    exact Nat.lt_succ_self _
  | generation =>
    obtain ⟨hnext, hchunks, -⟩ := hstored
    refine ⟨_, rfl, rfl, ?_⟩
    simp only [State.todo, State.left, hcaller, Caller.todo, Store.todo, DrainPc.todo, hidle, hnext,
      hchunks]
    exact Nat.lt_succ_self _

theorem callerDrain_todo {w : Nat} {pc : DrainPc} (hcaller : σ.caller = .drain w pc) :
    ∃ σ', callerStep σ = some σ' ∧ σ'.works = σ.works ∧ σ'.todo < σ.todo := by
  have hmutex : (!σ.mutex) = true := by rw [h.mutex, hcaller]; rfl
  obtain ⟨sh', pc', hstep, hchunks, hlt⟩ := drainStep_todo σ.sh w (σ.count w) pc
  unfold callerStep
  rw [hcaller]
  dsimp only
  rw [hmutex, hstep]
  cases pc' with
  | none =>
    refine ⟨_, rfl, rfl, ?_⟩
    simp only [State.todo, State.left, hcaller, Caller.todo, hchunks, todoOf] at hlt ⊢
    omega
  | some p =>
    refine ⟨_, rfl, rfl, ?_⟩
    simp only [State.todo, State.left, hcaller, Caller.todo, hchunks, todoOf] at hlt ⊢
    omega

/-- While the caller waits, a worker inside can move. -/
theorem worker_todo {w : Nat} (hcaller : σ.caller = .wait w) {i : Nat} {x : Worker}
    (hi : σ.workers[i]? = some x) (hin : x.inside ≠ 0) :
    ∃ σ', workerStep σ i = some σ' ∧ σ'.works = σ.works ∧ σ'.todo < σ.todo := by
  have hmutex : (!σ.mutex) = true := by rw [h.mutex, hcaller]; rfl
  obtain ⟨rest, hrest, hset⟩ := sum_map_set (Worker.todo σ.sh.chunks) hi
  unfold workerStep
  rw [hi]
  cases x with
  | sleep seen => exact absurd rfl hin
  | drain seen v pc =>
    obtain ⟨sh', pc', hstep, hchunks, hlt⟩ := drainStep_todo σ.sh v (σ.count v) pc
    dsimp only
    rw [hmutex, hstep]
    cases pc' with
    | none =>
      refine ⟨_, rfl, rfl, ?_⟩
      simp only [State.todo, State.left, hcaller, Caller.todo, hchunks, todoOf, hset, hrest,
        Worker.todo] at hlt ⊢
      omega
    | some p =>
      refine ⟨_, rfl, rfl, ?_⟩
      simp only [State.todo, State.left, hcaller, Caller.todo, hchunks, todoOf, hset, hrest,
        Worker.todo] at hlt ⊢
      omega
  | leave seen =>
    refine ⟨_, if_neg (by simpa using hmutex), rfl, ?_⟩
    simp only [State.todo, State.left, hcaller, hset, hrest, Worker.todo]
    omega

/-- With every ticket drawn and no worker inside, nothing remains. -/
theorem remaining_eq_zero (hd : Drawn σ) {w : Nat} (hcaller : σ.caller = .wait w)
    (hact : σ.active = 0) : σ.sh.remaining = 0 := by
  have hledger := h.ledger w (by rw [hcaller]; rfl) (by rw [hcaller]; rfl)
  have hhold : σ.hold = 0 := by
    rw [State.hold, hcaller, hold_of_inside_zero (h.active.symm.trans hact)]
    rfl
  rw [hhold] at hledger
  have hall : (List.range σ.sh.chunks).Subperm (tickets σ.sh.log w) := by
    refine List.nodup_range.subperm fun t ht => ?_
    have hlt := List.mem_range.mp ht
    have hone := hledger.once t hlt
    have hdrawn := hd.drained w (.inl hcaller)
    rw [if_pos (by omega)] at hone
    exact List.count_pos_iff.mp (by simp at hone; omega)
  have hlen := hall.length_le
  have hrest := hledger.rest
  rw [List.length_range] at hlen
  simp only [Prod.snd_zero] at hrest
  omega

end Progress

/-- While a job is in progress it can be brought nearer its end, by its caller or
by a worker that is on it already. -/
theorem progress {n : Nat} {σ : State} (hσ : (pool n).Reachable σ) (hbusy : σ.caller ≠ .idle) :
    ∃ ls σ', (pool n).Run σ ls σ' ∧ σ'.works = σ.works ∧ σ'.todo < σ.todo := by
  have h := (inv_inductive n).reachable σ hσ
  have one : ∀ l, (∃ σ', step σ l = some σ' ∧ σ'.works = σ.works ∧ σ'.todo < σ.todo) →
      ∃ ls σ', (pool n).Run σ ls σ' ∧ σ'.works = σ.works ∧ σ'.todo < σ.todo := by
    rintro l ⟨σ', hstep, hworks, hlt⟩
    exact ⟨[l], σ', .cons hstep (.nil _), hworks, hlt⟩
  cases hc : σ.caller with
  | idle => exact absurd hc hbusy
  | publish w store => exact one .caller (publish_todo h hc)
  | drain w pc => exact one .caller (callerDrain_todo h hc)
  | wait w =>
    by_cases hact : σ.active = 0
    · have hmutex : σ.mutex = false := by rw [h.mutex, hc]; rfl
      have hrem := remaining_eq_zero h ((drawn_inductive n).reachable σ hσ) hc hact
      have hlook : step σ .caller = some { σ with mutex := true, caller := .waitActive w } := by
        simp [step, callerStep, hc, hmutex, hrem]
      refine ⟨[.caller, .caller], { σ with mutex := false, job := none, caller := .idle },
        .cons hlook (.cons ?_ (.nil _)), rfl, ?_⟩
      · simp [pool, LTS.ofFn, step, callerStep, hact]
      · simp only [State.todo, State.left, hc, Caller.todo]
        omega
    · obtain ⟨x, hx, hin⟩ : ∃ x ∈ σ.workers, x.inside ≠ 0 := by
        by_contra hnone
        push Not at hnone
        refine hact (h.active.trans (List.sum_eq_zero fun k hk => ?_))
        obtain ⟨x, hx, rfl⟩ := List.mem_map.mp hk
        exact hnone x hx
      obtain ⟨i, hi⟩ := List.getElem?_of_mem hx
      exact one (.worker i) (worker_todo h hc hi hin)
  | waitActive w =>
    refine one .caller ?_
    simp only [step, callerStep, hc]
    split
    · refine ⟨_, rfl, rfl, ?_⟩
      simp only [State.todo, State.left, hc, Caller.todo]
      omega
    · refine ⟨_, rfl, rfl, ?_⟩
      simp only [State.todo, State.left, hc, Caller.todo]
      omega

/-- From every reachable state the `run` of the current job can return. -/
theorem run_returns {n : Nat} {σ : State} (hσ : (pool n).Reachable σ) :
    ∃ ls σ', (pool n).Run σ ls σ' ∧ σ'.works = σ.works ∧ σ'.caller = .idle := by
  have hnearer : ∀ s, (pool n).Reachable s ∧ s.works = σ.works → s.caller = .idle ∨
      ∃ ls s', (pool n).Run s ls s' ∧ ((pool n).Reachable s' ∧ s'.works = σ.works) ∧
        s'.todo < s.todo := by
    rintro s ⟨hs, hworks⟩
    by_cases hidle : s.caller = .idle
    · exact .inl hidle
    · obtain ⟨ls, s', hrun, hworks', hlt⟩ := progress hs hidle
      exact .inr ⟨ls, s', hrun, ⟨hs.run hrun, hworks'.trans hworks⟩, hlt⟩
  obtain ⟨ls, σ', hrun, ⟨-, hworks⟩, hidle⟩ := LTS.exists_run_of_lt State.todo hnearer ⟨hσ, rfl⟩
  exact ⟨ls, σ', hrun, hworks, hidle⟩

/-! ## Headline -/

/-- **Every index of every job, exactly once.** In every state any schedule
reaches: no index of a job was served twice or lies outside it; once the job's
`run` has returned all its indices were served, by exactly the `serve` calls of
its lookup; then no worker can reach the job's `Work` any more; while a job is
being published no worker is inside `drain`, and a worker inside `drain` draws
from the counter of the job it works on; and the current `run` can still return. -/
theorem pool_serves_once {n : Nat} {σ : State} (hσ : (pool n).Reachable σ) :
    (∀ w, w < σ.works.length → (σ.indices w).Nodup ∧ ∀ i ∈ σ.indices w, i < σ.count w) ∧
    (∀ w, σ.Returned w → (σ.indices w).Perm (List.range (σ.count w))) ∧
    (∀ w, σ.Returned w → kSerialBelow ≤ σ.count w →
      (σ.sh.log.filter fun c => c.work == w).Perm (serveCalls true w (σ.count w))) ∧
    (∀ w, σ.Returned w → σ.job ≠ some w ∧ ∀ x ∈ σ.workers, x.work ≠ some w) ∧
    (∀ w store, σ.caller = .publish w store → ∀ x ∈ σ.workers, x.work = none) ∧
    (∀ x ∈ σ.workers, ∀ w, x.work = some w →
      σ.caller.work = some w ∧ σ.caller.running = true ∧ σ.sh.chunks = chunksOf (σ.count w)) ∧
    ∃ ls σ', (pool n).Run σ ls σ' ∧ σ'.works = σ.works ∧ σ'.caller = .idle := by
  have h := (inv_inductive n).reachable σ hσ
  have hrunning : ∀ x ∈ σ.workers, ∀ w, x.work = some w → σ.caller.running = true := by
    intro x hx w hxw
    refine h.running_of_inside hx ?_
    cases x with
    | sleep seen => cases hxw
    | drain seen v pc => rfl
    | leave seen => rfl
  refine ⟨fun w hw => ?_, fun w ⟨hw, hret⟩ => ?_, fun w ⟨hw, hret⟩ hbig => ?_, fun w ⟨hw, hret⟩ => ?_,
    fun w store hcaller x hx => ?_, fun x hx w hxw => ?_, run_returns hσ⟩
  · rw [h.indices_eq hw]
    exact h.tickets_below hw
  · have hp := h.finished w hw hret
    rw [chunksOf_eq] at hp
    rw [h.indices_eq hw]
    exact hp
  · rw [h.calls_eq w, serveCalls, if_neg (by rw [not_or]; exact ⟨by decide, Nat.not_lt.mpr hbig⟩)]
    exact (h.finished w hw hret).map _
  · refine ⟨fun hjob => hret ?_, fun x hx hxw => hret (h.inside x hx w hxw)⟩
    rw [h.job] at hjob
    cases hc : σ.caller with
    | idle => rw [hc] at hjob; cases hjob
    | publish v store => rw [hc] at hjob; cases store <;> cases hjob <;> rfl
    | drain v pc => rw [hc] at hjob; exact hjob
    | wait v => rw [hc] at hjob; exact hjob
    | waitActive v => rw [hc] at hjob; exact hjob
  · by_contra hsome
    obtain ⟨v, hv⟩ := Option.ne_none_iff_exists'.mp hsome
    have := hrunning x hx v hv
    rw [hcaller] at this
    cases this
  · have hcur := h.inside x hx w hxw
    have hrun := hrunning x hx w hxw
    exact ⟨hcur, hrun, h.chunks w hcur hrun⟩

/-- Two indices, one served by the caller and one by the only worker. -/
def sharedJob : List Label :=
  [Label.call 2] ++ List.replicate 5 Label.caller ++
    [Label.worker 0, Label.worker 0, Label.caller, Label.caller, Label.worker 0] ++
    List.replicate 4 (Label.worker 0) ++ List.replicate 7 Label.caller ++
    [Label.worker 0, Label.caller, Label.caller]

theorem sharedJob_served : ∃ σ, (pool 1).Reachable σ ∧ σ.caller.work = none ∧ σ.works = [2] ∧
    (σ.indices 0).Perm [0, 1] := by
  have hrun : (sharedJob.foldlM step (initial 1)).isSome = true := by decide +kernel
  obtain ⟨σ, hσ⟩ := Option.isSome_iff_exists.mp hrun
  have hend : (sharedJob.foldlM step (initial 1)).map (fun σ => (σ.caller.work, σ.works)) =
      some (none, [2]) := by decide +kernel
  rw [hσ] at hend
  obtain ⟨hidle, hworks⟩ := Prod.mk.inj (Option.some.inj hend)
  have hreach : (pool 1).Reachable σ := ⟨_, sharedJob, rfl, LTS.run_of_foldlM hσ⟩
  have hserved := (pool_serves_once hreach).2.1 0 ⟨by rw [hworks]; decide, by rw [hidle]; simp⟩
  refine ⟨σ, hreach, hidle, hworks, ?_⟩
  rw [State.count, hworks] at hserved
  exact hserved

end FlashSpark.L5.Pool
