import FlashSpark.Core.LTS
import FlashSpark.Core.Threads
import FlashSpark.L2Store.Lookup

/-!
# The shared I/O pool

`adapter/row_store.cpp:168-258`. One job at a time (`caller_`); its tickets are
drawn from `next_` by the caller and any number of workers. What is not atomic in
the source is not atomic here: publishing a job is five stores under `mutex_`,
the final wait reads `remaining_` and then `active_`, and `drain` is one step per
atomic operation. A worker's two critical sections are one step each, taken while
`mutex_` is free. A wait that is woken and finds its predicate false changes
nothing, so any wake-up, late, spurious or missed, is a choice of the schedule.
The pool is never destroyed (`static Pool *instance`), so `stop_` stays false.

The ghosts are `works` (the `count` of every job so far, a job being named by its
position) and `log` (the `serve` calls made).

* `drainStep_ticket`: one step of `drain` keeps the ticket ledger.
* `Ledger.complete`: a ledger with nothing remaining has every ticket served.
-/
namespace FlashSpark.L5.Pool
open L2.RowStore (Call kChunk serveCalls kSerialBelow)

/-- Inside `drain`, mirrors adapter/row_store.cpp:215-227. -/
inductive DrainPc where
  | fetch
  | check (ticket : Nat)
  | serve (ticket : Nat)
  | sub (ticket : Nat)
  | notify

/-- `next_`, `remaining_`, `chunks_`, and the ghost log. -/
structure Shared where
  next : Nat
  remaining : Nat
  chunks : Nat
  log : List Call

/-- The `serve` call of a ticket. -/
def ticketCall (w count ticket : Nat) : Call :=
  ⟨w, ticket * kChunk, min (ticket * kChunk + kChunk) count⟩

/-- One step of `drain(work)`; the second component is `none` on return.
mirrors adapter/row_store.cpp:217-226 -/
def drainStep (mutexFree : Bool) (sh : Shared) (w count : Nat) :
    DrainPc → Option (Shared × Option DrainPc)
  | .fetch => some ({ sh with next := sh.next + 1 }, some (.check sh.next))
  | .check ticket => if sh.chunks ≤ ticket then some (sh, none) else some (sh, some (.serve ticket))
  | .serve ticket =>
    some ({ sh with log := sh.log ++ [ticketCall w count ticket] }, some (.sub ticket))
  | .sub _ =>
    some ({ sh with remaining := sh.remaining - 1 },
      some (if sh.remaining = 1 then .notify else .fetch))
  | .notify => if mutexFree then some (sh, some .fetch) else none

/-- The stores of `run` under `mutex_`, in order. -/
inductive Store where
  | job
  | next
  | chunks
  | remaining
  | generation

/-- The thread that holds `caller_`. -/
inductive Caller where
  | idle
  | publish (w : Nat) (store : Store)
  | drain (w : Nat) (pc : DrainPc)
  | wait (w : Nat)
  | waitActive (w : Nat)

/-- `seen` is the worker's local. -/
inductive Worker where
  | sleep (seen : Nat)
  | drain (seen w : Nat) (pc : DrainPc)
  | leave (seen : Nat)

structure State where
  job : Option Nat
  active : Nat
  generation : Nat
  mutex : Bool
  sh : Shared
  caller : Caller
  workers : List Worker
  works : List Nat

def State.count (σ : State) (w : Nat) : Nat := σ.works.getD w 0

/-- `(work->count + kChunk - 1) / kChunk`. -/
def chunksOf (count : Nat) : Nat := (count + kChunk - 1) / kChunk

/-- A caller gets `caller_` with a new job. -/
def callStep (σ : State) (count : Nat) : Option State :=
  match σ.caller with
  | .idle => some { σ with works := σ.works ++ [count], caller := .publish σ.works.length .job }
  | _ => none

/-- mirrors adapter/row_store.cpp:188-195, one store a step -/
def publishStep (σ : State) (w : Nat) : Store → Option State
  | .job =>
    if σ.mutex = true then none
    else some { σ with mutex := true, job := some w, caller := .publish w .next }
  | .next => some { σ with sh := { σ.sh with next := 0 }, caller := .publish w .chunks }
  | .chunks =>
    some { σ with sh := { σ.sh with chunks := chunksOf (σ.count w) }, caller := .publish w .remaining }
  | .remaining =>
    some { σ with sh := { σ.sh with remaining := chunksOf (σ.count w) },
                  caller := .publish w .generation }
  | .generation =>
    some { σ with generation := σ.generation + 1, mutex := false, caller := .drain w .fetch }

/-- mirrors adapter/row_store.cpp:183-207 (`run`) -/
def callerStep (σ : State) : Option State :=
  match σ.caller with
  | .idle => none
  | .publish w store => publishStep σ w store
  | .drain w pc =>
    match drainStep (!σ.mutex) σ.sh w (σ.count w) pc with
    | none => none
    | some (sh, some pc) => some { σ with sh := sh, caller := .drain w pc }
    | some (sh, none) => some { σ with sh := sh, caller := .wait w }
  | .wait w =>
    if σ.mutex = true ∨ σ.sh.remaining ≠ 0 then none
    else some { σ with mutex := true, caller := .waitActive w }
  | .waitActive w =>
    if σ.active = 0 then some { σ with mutex := false, job := none, caller := .idle }
    else some { σ with mutex := false, caller := .wait w }

/-- mirrors adapter/row_store.cpp:229-249 (`loop`) -/
def workerStep (σ : State) (i : Nat) : Option State :=
  match σ.workers[i]? with
  | none => none
  | some (.sleep seen) =>
    if σ.mutex = true ∨ σ.generation = seen then none
    else
      match σ.job with
      | none => some { σ with workers := σ.workers.set i (.sleep σ.generation) }
      | some w =>
        some { σ with active := σ.active + 1,
                      workers := σ.workers.set i (.drain σ.generation w .fetch) }
  | some (.drain seen w pc) =>
    match drainStep (!σ.mutex) σ.sh w (σ.count w) pc with
    | none => none
    | some (sh, some pc) => some { σ with sh := sh, workers := σ.workers.set i (.drain seen w pc) }
    | some (sh, none) => some { σ with sh := sh, workers := σ.workers.set i (.leave seen) }
  | some (.leave seen) =>
    if σ.mutex = true then none
    else some { σ with active := σ.active - 1, workers := σ.workers.set i (.sleep seen) }

inductive Label where
  | call (count : Nat)
  | caller
  | worker (i : Nat)

def step (σ : State) : Label → Option State
  | .call count => callStep σ count
  | .caller => callerStep σ
  | .worker i => workerStep σ i

/-- A new pool of `n` workers. -/
def initial (n : Nat) : State :=
  ⟨none, 0, 0, false, ⟨0, 0, 0, []⟩, .idle, List.replicate n (.sleep 0), []⟩

def pool (n : Nat) : LTS State Label := .ofFn (· = initial n) step

/-! ## The ticket ledger -/

/-- The tickets of job `w` that have been served. -/
def tickets (log : List Call) (w : Nat) : List Nat :=
  (log.filter fun c => c.work == w).map fun c => c.start / kChunk

theorem tickets_append_self (log : List Call) (w count ticket : Nat) :
    tickets (log ++ [ticketCall w count ticket]) w = tickets log w ++ [ticket] := by
  simp [tickets, ticketCall, kChunk]

theorem tickets_append_other (log : List Call) {w w' : Nat} (count ticket : Nat) (h : w ≠ w') :
    tickets (log ++ [ticketCall w count ticket]) w' = tickets log w' := by
  simp [tickets, ticketCall, h]

/-- What a thread at `pc` owes the ledger: the tickets it has drawn and not yet
served, and how many it has served and not yet subtracted. -/
def DrainPc.hold : DrainPc → (Nat → Nat) × Nat
  | .fetch => 0
  | .check ticket => (Pi.single ticket 1, 0)
  | .serve ticket => (Pi.single ticket 1, 0)
  | .sub _ => (0, 1)
  | .notify => 0

def holdOf : Option DrainPc → (Nat → Nat) × Nat
  | none => 0
  | some pc => pc.hold

/-- Every ticket of job `w` drawn so far is served or held, exactly once. -/
structure Ledger (sh : Shared) (w : Nat) (hold : (Nat → Nat) × Nat) : Prop where
  once : ∀ t, t < sh.chunks → (tickets sh.log w).count t + hold.1 t = if t < sh.next then 1 else 0
  below : ∀ t ∈ tickets sh.log w, t < sh.chunks
  rest : sh.remaining + (tickets sh.log w).length = sh.chunks + hold.2

def DrainPc.Ok (chunks : Nat) : DrainPc → Prop
  | .serve ticket => ticket < chunks
  | _ => True

theorem Ledger.nodup {sh : Shared} {w : Nat} {hold : (Nat → Nat) × Nat} (h : Ledger sh w hold) :
    (tickets sh.log w).Nodup := by
  rw [List.nodup_iff_count_le_one]
  intro t
  by_cases ht : t ∈ tickets sh.log w
  · have := h.once t (h.below t ht)
    split at this <;> omega
  · rw [List.count_eq_zero_of_not_mem ht]; omega

theorem Ledger.length_le {sh : Shared} {w : Nat} {hold : (Nat → Nat) × Nat} (h : Ledger sh w hold) :
    (tickets sh.log w).length ≤ sh.chunks := by
  have hsub : (tickets sh.log w).Subperm (List.range sh.chunks) :=
    h.nodup.subperm fun t ht => List.mem_range.mpr (h.below t ht)
  simpa using hsub.length_le

/-- Nothing remaining: every ticket was served, and no thread holds one. -/
theorem Ledger.complete {sh : Shared} {w : Nat} {hold : (Nat → Nat) × Nat} (h : Ledger sh w hold)
    (hrem : sh.remaining = 0) : (tickets sh.log w).Perm (List.range sh.chunks) := by
  have hrest := h.rest
  have hsub : (tickets sh.log w).Subperm (List.range sh.chunks) :=
    h.nodup.subperm fun t ht => List.mem_range.mpr (h.below t ht)
  exact hsub.perm_of_length_le (by rw [List.length_range]; omega)

/-- One step of `drain`, by a thread whose share of the ledger is `pc.hold`. -/
theorem drainStep_ticket {free : Bool} {sh sh' : Shared} {w count : Nat} {pc : DrainPc}
    {pc' : Option DrainPc} {rest : (Nat → Nat) × Nat} (h : Ledger sh w (rest + pc.hold))
    (hok : pc.Ok sh.chunks) (hstep : drainStep free sh w count pc = some (sh', pc')) :
    Ledger sh' w (rest + holdOf pc') ∧ sh'.chunks = sh.chunks ∧ ∀ p, pc' = some p → p.Ok sh'.chunks := by
  cases pc with
  | fetch =>
    obtain ⟨rfl, rfl⟩ := Prod.mk.inj (Option.some.inj hstep)
    refine ⟨⟨fun t ht => ?_, h.below, h.rest⟩, rfl, by rintro p ⟨⟩; trivial⟩
    have hone := h.once t ht
    simp only [holdOf, DrainPc.hold, Prod.fst_add, Pi.add_apply, add_zero] at hone ⊢
    rw [← Nat.add_assoc, hone]
    by_cases htn : t = sh.next
    · subst htn; simp
    · rw [Pi.single_eq_of_ne htn]
      split <;> split <;> omega
  | check ticket =>
    simp only [drainStep] at hstep
    split at hstep
    · rename_i hdone
      obtain ⟨rfl, rfl⟩ := Prod.mk.inj (Option.some.inj hstep)
      refine ⟨⟨fun t ht => ?_, h.below, h.rest⟩, rfl, fun p hp => by cases hp⟩
      have hone := h.once t ht
      simp only [holdOf, DrainPc.hold, Prod.fst_add, Pi.add_apply] at hone ⊢
      rw [Pi.single_eq_of_ne (by omega)] at hone
      exact hone
    · rename_i hlive
      obtain ⟨rfl, rfl⟩ := Prod.mk.inj (Option.some.inj hstep)
      exact ⟨h, rfl, by rintro p ⟨⟩; exact Nat.not_le.mp hlive⟩
  | serve ticket =>
    obtain ⟨rfl, rfl⟩ := Prod.mk.inj (Option.some.inj hstep)
    refine ⟨⟨fun t ht => ?_, fun t ht => ?_, ?_⟩, rfl, by rintro p ⟨⟩; trivial⟩
    · have hone := h.once t ht
      dsimp only
      rw [tickets_append_self, List.count_append, List.count_singleton]
      simp only [holdOf, DrainPc.hold, Prod.fst_add, Pi.add_apply, Pi.zero_apply] at hone ⊢
      by_cases htt : ticket = t
      · subst htt
        rw [Pi.single_eq_same] at hone
        simp only [beq_self_eq_true, if_true]; omega
      · rw [Pi.single_eq_of_ne (Ne.symm htt)] at hone
        rw [if_neg (by simpa using htt)]; omega
    · dsimp only at ht
      rw [tickets_append_self, List.mem_append, List.mem_singleton] at ht
      rcases ht with ht | rfl
      · exact h.below t ht
      · exact hok
    · have hrest := h.rest
      dsimp only
      rw [tickets_append_self, List.length_append, List.length_singleton]
      simp only [holdOf, DrainPc.hold, Prod.snd_add] at hrest ⊢
      omega
  | sub ticket =>
    obtain ⟨rfl, rfl⟩ := Prod.mk.inj (Option.some.inj hstep)
    have hlen := h.length_le
    have hrest := h.rest
    have hzero : holdOf (some (if sh.remaining = 1 then DrainPc.notify else .fetch)) = 0 := by
      split <;> rfl
    rw [hzero]
    refine ⟨⟨h.once, h.below, ?_⟩, rfl, by rintro p ⟨⟩; split <;> trivial⟩
    simp only [DrainPc.hold, Prod.snd_add, Prod.snd_zero] at hrest ⊢
    omega
  | notify =>
    simp only [drainStep] at hstep
    split at hstep
    · obtain ⟨rfl, rfl⟩ := Prod.mk.inj (Option.some.inj hstep)
      exact ⟨h, rfl, by rintro p ⟨⟩; trivial⟩
    · cases hstep

end FlashSpark.L5.Pool
