import FlashSpark.L5Concurrency.Pool

/-!
# The invariant of the I/O pool

`Inv` ties the caller's program point to the shared fields: while no job is being
drained no worker is inside `drain` (`quiet`), so the reset of `next_` is seen by
nobody; while one is, every worker inside works on it (`inside`) and the ledger of
its tickets balances (`ledger`). The caller leaves only when nothing remains and
`active_`, the number of workers inside, is zero.

* `drainStep_effect`: what any step of `drain` does to the shared fields.
* `callerDrain_inv`, `workerDrain_inv`, `publish_inv`, `wait_inv`,
  `waitActive_inv`, `call_inv`, `sleep_inv`, `leave_inv`: one lemma per kind of step.
* `inv_inductive`: all of them.
-/
namespace FlashSpark.L5.Pool
open L2.RowStore (Call kChunk)

def Caller.work : Caller → Option Nat
  | .idle => none
  | .publish w _ => some w
  | .drain w _ => some w
  | .wait w => some w
  | .waitActive w => some w

/-- Between the publication of a job and the end of its `run`. -/
def Caller.running : Caller → Bool
  | .idle => false
  | .publish _ _ => false
  | _ => true

/-- The caller is inside a `mutex_` section. -/
def Caller.locked : Caller → Bool
  | .publish _ .job => false
  | .publish _ _ => true
  | .waitActive _ => true
  | _ => false

def Caller.hold : Caller → (Nat → Nat) × Nat
  | .drain _ pc => pc.hold
  | _ => 0

def Worker.hold : Worker → (Nat → Nat) × Nat
  | .drain _ _ pc => pc.hold
  | _ => 0

/-- Counted in `active_`. -/
def Worker.inside : Worker → Nat
  | .sleep _ => 0
  | _ => 1

def Worker.work : Worker → Option Nat
  | .drain _ w _ => some w
  | _ => none

def Worker.Ok (chunks : Nat) : Worker → Prop
  | .drain _ _ pc => pc.Ok chunks
  | _ => True

def State.hold (σ : State) : (Nat → Nat) × Nat := σ.caller.hold + (σ.workers.map Worker.hold).sum

/-- `job_`, at each program point of the caller. -/
def Caller.job : Caller → Option Nat
  | .idle => none
  | .publish _ .job => none
  | c => c.work

/-- The fields already stored for the new job. -/
def Store.Done (σ : State) (w : Nat) : Store → Prop
  | .job => True
  | .next => True
  | .chunks => σ.sh.next = 0
  | .remaining => σ.sh.next = 0 ∧ σ.sh.chunks = chunksOf (σ.count w)
  | .generation => σ.sh.next = 0 ∧ σ.sh.chunks = chunksOf (σ.count w) ∧
      σ.sh.remaining = chunksOf (σ.count w)

structure Inv (σ : State) : Prop where
  current : ∀ w, σ.caller.work = some w → w + 1 = σ.works.length
  mutex : σ.mutex = σ.caller.locked
  job : σ.job = σ.caller.job
  active : σ.active = (σ.workers.map Worker.inside).sum
  quiet : σ.caller.running = false → σ.active = 0
  inside : ∀ x ∈ σ.workers, ∀ w, x.work = some w → σ.caller.work = some w
  ok : ∀ x ∈ σ.workers, x.Ok σ.sh.chunks
  callerOk : ∀ w pc, σ.caller = .drain w pc → pc.Ok σ.sh.chunks
  stored : ∀ w store, σ.caller = .publish w store → store.Done σ w ∧ tickets σ.sh.log w = []
  chunks : ∀ w, σ.caller.work = some w → σ.caller.running = true →
    σ.sh.chunks = chunksOf (σ.count w)
  ledger : ∀ w, σ.caller.work = some w → σ.caller.running = true → Ledger σ.sh w σ.hold
  zero : ∀ w, σ.caller = .waitActive w → σ.sh.remaining = 0
  finished : ∀ w, w < σ.works.length → σ.caller.work ≠ some w →
    (tickets σ.sh.log w).Perm (List.range (chunksOf (σ.count w)))
  log : ∀ c ∈ σ.sh.log, c.work < σ.works.length ∧
    c = ticketCall c.work (σ.count c.work) (c.start / kChunk)

theorem inside_zero {l : List Worker} (h : (l.map Worker.inside).sum = 0) {x : Worker} (hx : x ∈ l) :
    x.inside = 0 := by
  have := List.sum_eq_zero_iff.mp h
  exact this _ (List.mem_map.mpr ⟨x, hx, rfl⟩)

/-- When no worker is inside, none of them holds a ticket. -/
theorem hold_of_inside_zero {l : List Worker} (h : (l.map Worker.inside).sum = 0) :
    (l.map Worker.hold).sum = 0 := by
  have : ∀ x ∈ l, x.hold = 0 := by
    intro x hx
    have := inside_zero h hx
    cases x with
    | sleep seen => rfl
    | drain seen w pc => simp [Worker.inside] at this
    | leave seen => rfl
  rw [List.map_congr_left this]
  simp

/-! ## `drain` steps -/

/-- What any step of `drain` does to the shared fields: nothing moves back, and
`drain` returns only past the last ticket. -/
structure DrainEffect (sh sh' : Shared) (w count : Nat) (pc : DrainPc) (pc' : Option DrainPc) :
    Prop where
  chunks : sh'.chunks = sh.chunks
  next : sh.next ≤ sh'.next
  remaining : sh'.remaining ≤ sh.remaining
  log : sh'.log = sh.log ∨ ∃ t, sh'.log = sh.log ++ [ticketCall w count t]
  check : ∀ t, pc' = some (.check t) → t < sh'.next
  ret : pc' = none → ∃ t, pc = .check t ∧ sh.chunks ≤ t

theorem drainStep_effect {free : Bool} {sh sh' : Shared} {w count : Nat} {pc : DrainPc}
    {pc' : Option DrainPc} (h : drainStep free sh w count pc = some (sh', pc')) :
    DrainEffect sh sh' w count pc pc' := by
  -- a step that touches no field and draws no ticket
  have idle : ∀ pc', (∀ t, pc' ≠ some (.check t)) → (pc' = none → ∃ t, pc = .check t ∧ sh.chunks ≤ t) →
      DrainEffect sh sh w count pc pc' := fun pc' hcheck hret =>
    ⟨rfl, Nat.le_refl _, Nat.le_refl _, .inl rfl, fun t ht => absurd ht (hcheck t), hret⟩
  cases pc with
  | fetch =>
    obtain ⟨rfl, rfl⟩ := Prod.mk.inj (Option.some.inj h)
    refine ⟨rfl, Nat.le_succ _, Nat.le_refl _, .inl rfl, fun t ht => ?_, fun hn => by cases hn⟩
    obtain rfl := DrainPc.check.inj (Option.some.inj ht)
    exact Nat.lt_succ_self _
  | check ticket =>
    simp only [drainStep] at h
    split at h
    · rename_i hdead
      obtain ⟨rfl, rfl⟩ := Prod.mk.inj (Option.some.inj h)
      exact idle _ (by simp) fun _ => ⟨ticket, rfl, hdead⟩
    · obtain ⟨rfl, rfl⟩ := Prod.mk.inj (Option.some.inj h)
      exact idle _ (by simp) (by simp)
  | serve ticket =>
    obtain ⟨rfl, rfl⟩ := Prod.mk.inj (Option.some.inj h)
    exact ⟨rfl, Nat.le_refl _, Nat.le_refl _, .inr ⟨ticket, rfl⟩, by simp, by simp⟩
  | sub ticket =>
    obtain ⟨rfl, rfl⟩ := Prod.mk.inj (Option.some.inj h)
    refine ⟨rfl, Nat.le_refl _, Nat.sub_le _ _, .inl rfl, fun t ht => ?_, by simp⟩
    split at ht <;> cases ht
  | notify =>
    simp only [drainStep] at h
    split at h
    · obtain ⟨rfl, rfl⟩ := Prod.mk.inj (Option.some.inj h)
      exact idle _ (by simp) (by simp)
    · cases h

/-- A step on job `w` leaves the tickets of every other job alone. -/
theorem drainStep_other {free : Bool} {sh sh' : Shared} {w count : Nat} {pc : DrainPc}
    {pc' : Option DrainPc} (h : drainStep free sh w count pc = some (sh', pc')) {w' : Nat}
    (hne : w ≠ w') : tickets sh'.log w' = tickets sh.log w' := by
  rcases (drainStep_effect h).log with hlog | ⟨t, hlog⟩
  · rw [hlog]
  · rw [hlog, tickets_append_other _ _ _ hne]

theorem ticketCall_start (w count t : Nat) : (ticketCall w count t).start / kChunk = t := by
  simp [ticketCall, kChunk]

/-- The parts of the invariant about the shared fields, after a `drain` step on
the job `w` being run. The caller and the workers are put back by the two users. -/
theorem drain_shared {σ : State} (h : Inv σ) {w : Nat} (hw : σ.caller.work = some w)
    (hrun : σ.caller.running = true) {free : Bool} {sh' : Shared} {pc : DrainPc} {pc' : Option DrainPc}
    (hok : pc.Ok σ.sh.chunks) {rest : (Nat → Nat) × Nat} (hhold : σ.hold = rest + pc.hold)
    (hstep : drainStep free σ.sh w (σ.count w) pc = some (sh', pc')) :
    Ledger sh' w (rest + holdOf pc') ∧ sh'.chunks = σ.sh.chunks ∧
      (∀ p, pc' = some p → p.Ok sh'.chunks) ∧
      (∀ w', w' < σ.works.length → σ.caller.work ≠ some w' →
        (tickets sh'.log w').Perm (List.range (chunksOf (σ.count w')))) ∧
      (∀ c ∈ sh'.log, c.work < σ.works.length ∧
        c = ticketCall c.work (σ.count c.work) (c.start / kChunk)) := by
  have hledger := h.ledger w hw hrun
  rw [hhold] at hledger
  obtain ⟨hl, hc, hp⟩ := drainStep_ticket hledger hok hstep
  refine ⟨hl, hc, hp, fun w' hlt hne => ?_, fun c hcmem => ?_⟩
  · have hww : w ≠ w' := fun he => hne (he ▸ hw)
    rw [drainStep_other hstep hww]
    exact h.finished w' hlt hne
  · rcases (drainStep_effect hstep).log with hlog | ⟨t, hlog⟩
    · exact h.log c (hlog ▸ hcmem)
    · rw [hlog, List.mem_append, List.mem_singleton] at hcmem
      rcases hcmem with hcmem | rfl
      · exact h.log c hcmem
      · refine ⟨by have := h.current w hw; show w < _; omega, ?_⟩
        rw [ticketCall_start]; rfl

/-- The caller takes a step of `drain`, or returns from it. -/
theorem callerDrain_inv {σ : State} (h : Inv σ) {w : Nat} {pc : DrainPc}
    (hcaller : σ.caller = .drain w pc) {free : Bool} {sh' : Shared} {pc' : Option DrainPc}
    (hstep : drainStep free σ.sh w (σ.count w) pc = some (sh', pc')) {caller' : Caller}
    (hnew : ∀ p, pc' = some p → caller' = .drain w p) (hret : pc' = none → caller' = .wait w) :
    Inv { σ with sh := sh', caller := caller' } := by
  have hw : σ.caller.work = some w := by rw [hcaller]; rfl
  have hrun : σ.caller.running = true := by rw [hcaller]; rfl
  have hhold : σ.hold = (σ.workers.map Worker.hold).sum + pc.hold := by
    rw [State.hold, hcaller, add_comm]; rfl
  obtain ⟨hl, hc, hp, hfin, hlog⟩ := drain_shared h hw hrun (h.callerOk w pc hcaller) hhold hstep
  have hwork : caller'.work = some w ∧ caller'.running = true ∧ caller'.locked = false ∧
      caller'.job = some w ∧ caller'.hold = holdOf pc' ∧ (∀ v, caller' ≠ .waitActive v) ∧
      (∀ v st, caller' ≠ .publish v st) ∧
      (∀ v p, caller' = .drain v p → p.Ok sh'.chunks) := by
    cases pc' with
    | none =>
      rw [hret rfl]
      exact ⟨rfl, rfl, rfl, rfl, rfl, by simp, by simp, by simp⟩
    | some p =>
      rw [hnew p rfl]
      refine ⟨rfl, rfl, rfl, rfl, rfl, by simp, by simp, ?_⟩
      rintro v p' ⟨⟩
      exact hp p rfl
  obtain ⟨hwork, hrun', hlocked', hjob', hhold', hwaits, hpubs, hpc⟩ := hwork
  have hlocked : σ.caller.locked = false := by rw [hcaller]; rfl
  have hjob : σ.caller.job = some w := by rw [hcaller]; rfl
  exact {
    current := fun v hv => h.current v (hw.trans (hwork.symm.trans hv))
    mutex := h.mutex.trans (hlocked.trans hlocked'.symm)
    job := h.job.trans (hjob.trans hjob'.symm)
    active := h.active
    quiet := fun hr => by
      dsimp only at hr
      rw [hrun'] at hr
      cases hr
    inside := fun x hx v hv => hwork.trans (hw.symm.trans (h.inside x hx v hv))
    ok := fun x hx => by
      dsimp only
      rw [hc]
      exact h.ok x hx
    callerOk := hpc
    stored := fun v st hv => absurd hv (hpubs v st)
    chunks := fun v hv _ => by
      dsimp only
      rw [hc]
      exact h.chunks v (hw.trans (hwork.symm.trans hv)) hrun
    ledger := fun v hv _ => by
      obtain rfl := Option.some.inj (hwork.symm.trans hv)
      have hsum : ({ σ with sh := sh', caller := caller' } : State).hold =
          (σ.workers.map Worker.hold).sum + holdOf pc' := by
        rw [State.hold, hhold', add_comm]
      rw [hsum]
      exact hl
    zero := fun v hv => absurd hv (hwaits v)
    finished := fun v hlt hne => hfin v hlt fun hv => hne (hwork.trans (hw.symm.trans hv))
    log := hlog }

/-- A worker inside `drain` means a job is being run. -/
theorem Inv.running_of_inside {σ : State} (h : Inv σ) {x : Worker} (hx : x ∈ σ.workers)
    (hin : x.inside = 1) : σ.caller.running = true := by
  by_contra hr
  have hz := h.quiet (by simpa using hr)
  rw [h.active] at hz
  have := inside_zero hz hx
  omega

/-- A worker takes a step of `drain`, or returns from it. -/
theorem workerDrain_inv {σ : State} (h : Inv σ) {i seen w : Nat} {pc : DrainPc}
    (hi : σ.workers[i]? = some (.drain seen w pc)) {free : Bool} {sh' : Shared} {pc' : Option DrainPc}
    (hstep : drainStep free σ.sh w (σ.count w) pc = some (sh', pc')) {x' : Worker}
    (hnew : ∀ p, pc' = some p → x' = .drain seen w p) (hret : pc' = none → x' = .leave seen) :
    Inv { σ with sh := sh', workers := σ.workers.set i x' } := by
  have hmem := List.mem_of_getElem? hi
  have hw : σ.caller.work = some w := h.inside _ hmem w rfl
  have hrun := h.running_of_inside hmem rfl
  obtain ⟨rest, hrest, hset⟩ := sum_map_set Worker.hold hi
  obtain ⟨others, hothers, hset'⟩ := sum_map_set Worker.inside hi
  have hhold : σ.hold = (σ.caller.hold + rest) + pc.hold := by
    rw [State.hold, hrest, add_assoc]; rfl
  obtain ⟨hl, hc, hp, hfin, hlog⟩ := drain_shared h hw hrun (h.ok _ hmem) hhold hstep
  have hx' : x'.hold = holdOf pc' ∧ x'.inside = 1 ∧ (∀ v, x'.work = some v → v = w) ∧
      x'.Ok sh'.chunks := by
    cases pc' with
    | none => rw [hret rfl]; exact ⟨rfl, rfl, by simp [Worker.work], trivial⟩
    | some p =>
      rw [hnew p rfl]
      exact ⟨rfl, rfl, by rintro v ⟨⟩; rfl, hp p rfl⟩
  obtain ⟨hhold', hinside, hwork, hok⟩ := hx'
  exact {
    current := h.current
    mutex := h.mutex
    job := h.job
    active := by
      dsimp only
      rw [hset', hinside, h.active, hothers]
      rfl
    quiet := h.quiet
    inside := fun x hx v hv => by
      rcases List.mem_or_eq_of_mem_set hx with hx | rfl
      · exact h.inside x hx v hv
      · obtain rfl := hwork v hv
        exact hw
    ok := fun x hx => by
      dsimp only
      rcases List.mem_or_eq_of_mem_set hx with hx | rfl
      · rw [hc]
        exact h.ok x hx
      · exact hok
    callerOk := fun v p hv => by
      dsimp only
      rw [hc]
      exact h.callerOk v p hv
    stored := fun v st hv => by
      dsimp only at hv
      rw [hv] at hrun
      cases hrun
    chunks := fun v hv hr => by
      dsimp only
      rw [hc]
      exact h.chunks v hv hr
    ledger := fun v hv _ => by
      obtain rfl := Option.some.inj (hw.symm.trans hv)
      have hsum : ({ σ with sh := sh', workers := σ.workers.set i x' } : State).hold =
          (σ.caller.hold + rest) + holdOf pc' := by
        rw [State.hold, hset, hhold', add_assoc]
      rw [hsum]
      exact hl
    zero := fun v hv => Nat.le_zero.mp (h.zero v hv ▸ (drainStep_effect hstep).remaining)
    finished := hfin
    log := hlog }

/-! ## A worker's critical sections -/

/-- A worker moves without touching the shared fields but `active_`. -/
theorem worker_move {σ : State} (h : Inv σ) {i : Nat} {x x' : Worker} (hi : σ.workers[i]? = some x)
    {active' : Nat} (hhold : x'.hold = x.hold) (hact : active' + x.inside = σ.active + x'.inside)
    (hquiet : σ.caller.running = false → active' = 0)
    (hwork : ∀ w, x'.work = some w → σ.caller.work = some w) (hok : x'.Ok σ.sh.chunks) :
    Inv { σ with active := active', workers := σ.workers.set i x' } := by
  obtain ⟨rest, hrest, hset⟩ := sum_map_set Worker.hold hi
  obtain ⟨others, hothers, hset'⟩ := sum_map_set Worker.inside hi
  have hsum : ({ σ with active := active', workers := σ.workers.set i x' } : State).hold = σ.hold := by
    rw [State.hold, State.hold, hset, hhold, hrest]
  refine ⟨h.current, h.mutex, h.job, ?_, hquiet, fun y hy w hw => ?_, fun y hy => ?_, h.callerOk,
    h.stored, h.chunks, fun w hw hr => ?_, h.zero, h.finished, h.log⟩
  · dsimp only
    have := h.active
    rw [hset']
    omega
  · rcases List.mem_or_eq_of_mem_set hy with hy | rfl
    · exact h.inside y hy w hw
    · exact hwork w hw
  · rcases List.mem_or_eq_of_mem_set hy with hy | rfl
    · exact h.ok y hy
    · exact hok
  · rw [hsum]; exact h.ledger w hw hr

theorem sleep_inv {σ σ' : State} (h : Inv σ) {i seen : Nat} (hi : σ.workers[i]? = some (.sleep seen))
    (hstep : workerStep σ i = some σ') : Inv σ' := by
  unfold workerStep at hstep
  rw [hi] at hstep
  dsimp only at hstep
  split at hstep
  · cases hstep
  rename_i hwake
  split at hstep
  · obtain rfl := Option.some.inj hstep
    exact worker_move h hi rfl rfl h.quiet (by simp [Worker.work]) trivial
  · rename_i w hjob
    obtain rfl := Option.some.inj hstep
    -- the mutex is free and `job_` is set: the caller has published `w` and runs it
    have hmutex : σ.caller.locked = false := by
      rw [← h.mutex]; simpa using fun hm => hwake (.inl hm)
    have hcaller := h.job
    rw [hjob] at hcaller
    have hrun : σ.caller.running = true ∧ σ.caller.work = some w := by
      cases hc : σ.caller with
      | idle => rw [hc] at hcaller; cases hcaller
      | publish v store => rw [hc] at hcaller hmutex; cases store <;> cases hcaller <;> cases hmutex
      | drain v pc => rw [hc] at hcaller; exact ⟨rfl, hcaller.symm⟩
      | wait v => rw [hc] at hcaller; exact ⟨rfl, hcaller.symm⟩
      | waitActive v => rw [hc] at hmutex; cases hmutex
    refine worker_move h hi rfl rfl (fun hr => ?_) (fun v hv => ?_) trivial
    · rw [hrun.1] at hr; cases hr
    · obtain rfl := Option.some.inj hv
      exact hrun.2

theorem leave_inv {σ σ' : State} (h : Inv σ) {i seen : Nat} (hi : σ.workers[i]? = some (.leave seen))
    (hstep : workerStep σ i = some σ') : Inv σ' := by
  unfold workerStep at hstep
  rw [hi] at hstep
  dsimp only at hstep
  split at hstep
  · cases hstep
  · obtain rfl := Option.some.inj hstep
    have hrun := h.running_of_inside (List.mem_of_getElem? hi) rfl
    have hpos : 0 < σ.active := by
      obtain ⟨others, hothers, -⟩ := sum_map_set Worker.inside hi
      rw [h.active, hothers]
      exact Nat.succ_pos _
    refine worker_move h hi rfl ?_ (fun hr => ?_) (by simp [Worker.work]) trivial
    · show σ.active - 1 + 1 = σ.active + 0
      omega
    · rw [hrun] at hr; cases hr

/-! ## The caller -/

theorem Inv.idle_workers {σ : State} (h : Inv σ) (hr : σ.caller.running = false) :
    (σ.workers.map Worker.inside).sum = 0 := h.active ▸ h.quiet hr

/-- A worker that is not inside is fine with any number of chunks. -/
theorem ok_of_inside_zero {x : Worker} (hx : x.inside = 0) (chunks : Nat) : x.Ok chunks := by
  cases x with
  | sleep seen => trivial
  | drain seen w pc => simp [Worker.inside] at hx
  | leave seen => trivial

/-- One store of the publication, up to the last: no worker is inside, and nothing
is known of the new job but what is stored already. -/
theorem publishing_inv {σ : State} (h : Inv σ) {w : Nat} {store store' : Store}
    (hcaller : σ.caller = .publish w store) {mutex : Bool} {job : Option Nat} {sh : Shared}
    (hm : mutex = (Caller.publish w store').locked) (hj : job = (Caller.publish w store').job)
    (hlog : sh.log = σ.sh.log)
    (hdone : store'.Done { σ with mutex := mutex, job := job, sh := sh, caller := .publish w store' } w) :
    Inv { σ with mutex := mutex, job := job, sh := sh, caller := .publish w store' } := by
  have hw : σ.caller.work = some w := by rw [hcaller]; rfl
  have hzero := h.idle_workers (by rw [hcaller]; rfl)
  exact {
    current := fun v hv => h.current v (hw.trans hv)
    mutex := hm
    job := hj
    active := h.active
    quiet := fun _ => h.active.trans hzero
    inside := fun x hx v hv => hw.symm.trans (h.inside x hx v hv)
    ok := fun x hx => ok_of_inside_zero (inside_zero hzero hx) _
    callerOk := by simp
    stored := fun v st hv => by
      obtain ⟨rfl, rfl⟩ := Caller.publish.inj hv
      exact ⟨hdone, (congrArg (tickets · w) hlog).trans (h.stored w store hcaller).2⟩
    chunks := fun _ _ hr => by cases hr
    ledger := fun _ _ hr => by cases hr
    zero := by simp
    finished := fun v hlt hne => by
      rw [hlog]
      exact h.finished v hlt (by rw [hw]; exact hne)
    log := fun c hc => h.log c (hlog ▸ hc) }

theorem publish_inv {σ σ' : State} (h : Inv σ) {w : Nat} {store : Store}
    (hcaller : σ.caller = .publish w store) (hstep : publishStep σ w store = some σ') : Inv σ' := by
  obtain ⟨hdone, hnone⟩ := h.stored w store hcaller
  have hmutex := h.mutex
  have hjob := h.job
  rw [hcaller] at hmutex hjob
  cases store with
  | job =>
    simp only [publishStep] at hstep
    split at hstep
    · cases hstep
    · obtain rfl := Option.some.inj hstep
      exact publishing_inv h hcaller rfl rfl rfl trivial
  | next =>
    obtain rfl := Option.some.inj hstep
    exact publishing_inv h hcaller hmutex hjob rfl rfl
  | chunks =>
    obtain rfl := Option.some.inj hstep
    exact publishing_inv h hcaller hmutex hjob rfl ⟨hdone, rfl⟩
  | remaining =>
    obtain rfl := Option.some.inj hstep
    exact publishing_inv h hcaller hmutex hjob rfl ⟨hdone.1, hdone.2, rfl⟩
  | generation =>
    obtain ⟨hnext, hchunks, hrem⟩ := hdone
    obtain rfl := Option.some.inj hstep
    have hw : σ.caller.work = some w := by rw [hcaller]; rfl
    have hzero := h.idle_workers (by rw [hcaller]; rfl)
    -- every ticket is still to be drawn, and no thread holds one
    have hledger : Ledger σ.sh w 0 := by
      refine ⟨fun t _ => ?_, fun t ht => ?_, ?_⟩
      · rw [hnone, hnext]
        simp
      · rw [hnone] at ht
        cases ht
      · rw [hnone, hrem, hchunks]
        rfl
    exact {
      current := fun v hv => h.current v (hw.trans hv)
      mutex := rfl
      job := hjob
      active := h.active
      quiet := fun hr => by cases hr
      inside := fun x hx v hv => hw.symm.trans (h.inside x hx v hv)
      ok := h.ok
      callerOk := fun v pc hv => by
        obtain ⟨-, rfl⟩ := Caller.drain.inj hv
        trivial
      stored := by simp
      chunks := fun v hv _ => by
        obtain rfl := Option.some.inj hv
        exact hchunks
      ledger := fun v hv _ => by
        obtain rfl := Option.some.inj hv
        show Ledger σ.sh w (0 + (σ.workers.map Worker.hold).sum)
        rw [hold_of_inside_zero hzero]
        exact hledger
      zero := by simp
      finished := fun v hlt hne => h.finished v hlt (by rw [hw]; exact hne)
      log := h.log }

/-- The caller moves between the two reads of its wait. -/
theorem waiting_inv {σ : State} (h : Inv σ) {w : Nat} {mutex : Bool} {caller' : Caller}
    (hcaller : σ.caller = .wait w ∨ σ.caller = .waitActive w)
    (hnew : caller' = .wait w ∨ caller' = .waitActive w) (hm : mutex = caller'.locked)
    (hzero : ∀ v, caller' = .waitActive v → σ.sh.remaining = 0) :
    Inv { σ with mutex := mutex, caller := caller' } := by
  have waits : ∀ c : Caller, c = .wait w ∨ c = .waitActive w →
      c.work = some w ∧ c.running = true ∧ c.job = some w ∧ c.hold = 0 := by
    intro c hc
    rcases hc with rfl | rfl
    · exact ⟨rfl, rfl, rfl, rfl⟩
    · exact ⟨rfl, rfl, rfl, rfl⟩
  obtain ⟨hw, hrun, hjob, hhold⟩ := waits _ hcaller
  obtain ⟨hw', hrun', hjob', hhold'⟩ := waits _ hnew
  have hsum : ({ σ with mutex := mutex, caller := caller' } : State).hold = σ.hold := by
    rw [State.hold, State.hold, hhold, hhold']
  exact {
    current := fun v hv => h.current v (hw.trans (hw'.symm.trans hv))
    mutex := hm
    job := h.job.trans (hjob.trans hjob'.symm)
    active := h.active
    quiet := fun hr => by
      dsimp only at hr
      rw [hrun'] at hr
      cases hr
    inside := fun x hx v hv => hw'.trans (hw.symm.trans (h.inside x hx v hv))
    ok := h.ok
    callerOk := fun v pc hv => by rcases hnew with rfl | rfl <;> cases hv
    stored := fun v st hv => by rcases hnew with rfl | rfl <;> cases hv
    chunks := fun v hv _ => h.chunks v (hw.trans (hw'.symm.trans hv)) hrun
    ledger := fun v hv _ => by
      rw [hsum]
      exact h.ledger v (hw.trans (hw'.symm.trans hv)) hrun
    zero := hzero
    finished := fun v hlt hne => h.finished v hlt fun hv => hne (hw'.trans (hw.symm.trans hv))
    log := h.log }

theorem wait_inv {σ σ' : State} (h : Inv σ) {w : Nat} (hcaller : σ.caller = .wait w)
    (hstep : callerStep σ = some σ') : Inv σ' := by
  unfold callerStep at hstep
  rw [hcaller] at hstep
  dsimp only at hstep
  split at hstep
  · cases hstep
  · rename_i hgo
    obtain rfl := Option.some.inj hstep
    rw [not_or, not_not] at hgo
    exact waiting_inv h (.inl hcaller) (.inr rfl) rfl fun _ _ => hgo.2

theorem waitActive_inv {σ σ' : State} (h : Inv σ) {w : Nat} (hcaller : σ.caller = .waitActive w)
    (hstep : callerStep σ = some σ') : Inv σ' := by
  unfold callerStep at hstep
  rw [hcaller] at hstep
  dsimp only at hstep
  split at hstep
  · rename_i hact
    obtain rfl := Option.some.inj hstep
    have hw : σ.caller.work = some w := by rw [hcaller]; rfl
    have hrun : σ.caller.running = true := by rw [hcaller]; rfl
    exact {
      current := by simp [Caller.work]
      mutex := rfl
      job := rfl
      active := h.active
      quiet := fun _ => hact
      inside := fun x hx v hv => by
        have hz := inside_zero (h.active.symm.trans hact) hx
        cases x with
        | sleep seen => cases hv
        | drain seen u pc => simp [Worker.inside] at hz
        | leave seen => cases hv
      ok := h.ok
      callerOk := by simp
      stored := by simp
      chunks := by simp [Caller.work]
      ledger := by simp [Caller.work]
      zero := by simp
      finished := fun v hlt _ => by
        by_cases hvw : w = v
        · -- nothing remains: the ledger of `w` is complete
          subst hvw
          have hall := (h.ledger w hw hrun).complete (h.zero w hcaller)
          rw [h.chunks w hw hrun] at hall
          exact hall
        · exact h.finished v hlt (by rw [hw]; simpa using hvw)
      log := h.log }
  · obtain rfl := Option.some.inj hstep
    exact waiting_inv h (.inr hcaller) (.inl rfl) rfl (by simp)

theorem call_inv {σ σ' : State} (h : Inv σ) {count : Nat} (hstep : callStep σ count = some σ') :
    Inv σ' := by
  unfold callStep at hstep
  split at hstep
  · rename_i hcaller
    obtain rfl := Option.some.inj hstep
    have hzero := h.idle_workers (by rw [hcaller]; rfl)
    have hact : σ.active = 0 := h.active.trans hzero
    have hmutex := h.mutex
    have hjob := h.job
    rw [hcaller] at hmutex hjob
    have hcount : ∀ v, v < σ.works.length →
        ({ σ with works := σ.works ++ [count], caller := .publish σ.works.length .job } : State).count v =
          σ.count v := by
      intro v hv
      simp only [State.count, List.getD_eq_getElem?_getD]
      rw [List.getElem?_append_left hv]
    have hnew : tickets σ.sh.log σ.works.length = [] := by
      unfold tickets
      rw [List.map_eq_nil_iff, List.filter_eq_nil_iff]
      intro c hc
      have := (h.log c hc).1
      simp only [beq_iff_eq]; omega
    exact {
      current := fun v hv => by
        obtain rfl := Option.some.inj hv
        simp
      mutex := hmutex
      job := hjob
      active := h.active
      quiet := fun _ => hact
      inside := fun x hx v hv => by
        have hin := h.inside x hx v hv
        rw [hcaller] at hin
        cases hin
      ok := h.ok
      callerOk := by simp
      stored := fun v st hv => by
        obtain ⟨rfl, rfl⟩ := Caller.publish.inj hv
        exact ⟨trivial, hnew⟩
      chunks := fun _ _ hr => by cases hr
      ledger := fun _ _ hr => by cases hr
      zero := by simp
      finished := fun v hlt hne => by
        have hlt' : v < σ.works.length := by
          simp only [List.length_append, List.length_singleton] at hlt
          rcases Nat.lt_or_eq_of_le (Nat.le_of_lt_succ hlt) with hlt | rfl
          · exact hlt
          · exact absurd rfl hne
        rw [hcount v hlt']
        exact h.finished v hlt' (by rw [hcaller]; simp [Caller.work])
      log := fun c hc => by
        obtain ⟨hlt, heq⟩ := h.log c hc
        rw [hcount _ hlt]
        exact ⟨by simp only [List.length_append]; omega, heq⟩ }
  · cases hstep

/-! ## Every run -/

theorem callerStep_inv {σ σ' : State} (h : Inv σ) (hstep : callerStep σ = some σ') : Inv σ' := by
  cases hc : σ.caller with
  | idle => simp [callerStep, hc] at hstep
  | publish w store =>
    refine publish_inv h hc ?_
    rw [← hstep, callerStep, hc]
  | drain w pc =>
    unfold callerStep at hstep
    rw [hc] at hstep
    dsimp only at hstep
    split at hstep
    · cases hstep
    · rename_i sh p hd
      obtain rfl := Option.some.inj hstep
      exact callerDrain_inv h hc hd (by rintro q ⟨⟩; rfl) (by rintro ⟨⟩)
    · rename_i sh hd
      obtain rfl := Option.some.inj hstep
      exact callerDrain_inv h hc hd (by rintro q ⟨⟩) (fun _ => rfl)
  | wait w => exact wait_inv h hc hstep
  | waitActive w => exact waitActive_inv h hc hstep

theorem workerStep_inv {σ σ' : State} (h : Inv σ) {i : Nat} (hstep : workerStep σ i = some σ') :
    Inv σ' := by
  cases hi : σ.workers[i]? with
  | none => simp [workerStep, hi] at hstep
  | some x =>
    cases x with
    | sleep seen => exact sleep_inv h hi hstep
    | leave seen => exact leave_inv h hi hstep
    | drain seen w pc =>
      unfold workerStep at hstep
      rw [hi] at hstep
      dsimp only at hstep
      split at hstep
      · cases hstep
      · rename_i sh p hd
        obtain rfl := Option.some.inj hstep
        exact workerDrain_inv h hi hd (by rintro q ⟨⟩; rfl) (by rintro ⟨⟩)
      · rename_i sh hd
        obtain rfl := Option.some.inj hstep
        exact workerDrain_inv h hi hd (by rintro q ⟨⟩) (fun _ => rfl)

theorem inv_inductive (n : Nat) : (pool n).Inductive Inv where
  init σ hσ := by
    subst hσ
    have hsleep : ((List.replicate n (Worker.sleep 0)).map Worker.inside).sum = 0 := by
      simp [Worker.inside]
    unfold initial
    refine ⟨by simp [Caller.work], rfl, rfl, hsleep.symm, fun _ => rfl, fun x hx v hv => ?_, fun x hx => ?_,
      by simp, by simp, by simp [Caller.work], by simp [Caller.work], by simp, by simp, by simp⟩
    · rw [List.eq_of_mem_replicate hx] at hv; cases hv
    · rw [List.eq_of_mem_replicate hx]; trivial
  step σ l σ' h hstep := by
    cases l with
    | call count => exact call_inv h hstep
    | caller => exact callerStep_inv h hstep
    | worker i => exact workerStep_inv h hstep

end FlashSpark.L5.Pool
