import FlashSpark.L6Operations.Cluster

/-!
# The memory guard

`scripts/memory-guard.py:26-56`: the record it saves, one sample after the other until the
stop file is there, and the handler that records the failure and stops the cluster. What
the files, the clock and the nodes answer is an `Env`; its samples are the turns of the
loop, each of them before the stop file was found.

* `turn_ends`, `monitor_ends`: when a turn and the whole monitoring raise; neither stops
  the cluster.
* `guard_ends`: what a run of the guard did.
-/
namespace FlashSpark.L6.Guard
open Cluster

/-! ## Data -/

inductive Status where
  | running | complete | failed
  deriving DecidableEq

/-- A dict from ranks to GiB. -/
abbrev ByRank (V : Type) := Int → Option V

/-- What `save` writes, but for the times. mirrors scripts/memory-guard.py:27-30 -/
structure Record (V : Type) where
  status : Status
  sampleCount : Nat
  minimum : ByRank V
  initialSwap : ByRank V
  maximumSwap : ByRank V
  minimumReserve : V
  error : Option (Exc V)

/-- The two steps of `save`. -/
structure Save (V : Type) where
  writeText : Option (Exc V)
  replace : Option (Exc V)

def Save.Ok {V : Type} (w : Save V) : Prop := w.writeText = none ∧ w.replace = none

/-- One turn of the loop. -/
structure Sample (V : Type) where
  /-- `stopfile.exists()` was false, or raised. -/
  check : Option (Exc V)
  /-- `time.time() < started + a.seconds`. -/
  inTime : Bool
  status : Except (Exc V) (List (Rank V))
  append : Option (Exc V)
  save : Save V
  sleep : Option (Exc V)

structure Env (V : Type) where
  samples : List (Sample V)
  /-- The `stopfile.exists()` that ends the loop was true, or raised. -/
  check : Option (Exc V)
  complete : Save V
  failed : Save V
  stop : Option (Exc V)

inductive Event where
  /-- The stop file was found. -/
  | stopFile
  /-- `cluster.stop` was called. -/
  | stop
  deriving DecidableEq

structure Guarding (V : Type) where
  count : Nat
  minimum : ByRank V
  maximumSwap : ByRank V
  initialSwap : ByRank V
  record : Option (Record V)
  temporary : Option (Record V)
  log : List Event

abbrev Run (V α : Type) := EStateM (Exc V) (Guarding V) α

variable {V : Type}

def Guarding.init : Guarding V := ⟨0, fun _ => none, fun _ => none, fun _ => none, none, none, []⟩

def Guarding.note (ev : Event) (s : Guarding V) : Guarding V := { s with log := s.log ++ [ev] }

def Guarding.counted (s : Guarding V) : Guarding V := { s with count := s.count + 1 }

def Guarding.write (r : Record V) (s : Guarding V) : Guarding V := { s with temporary := some r }

/-- `temporary.replace(record)`. -/
def Guarding.publish (r : Record V) (s : Guarding V) : Guarding V :=
  { s with record := some r, temporary := none }

section Observe
variable [LinearOrder V] [Zero V]

/-- mirrors scripts/memory-guard.py:44-47 -/
def Guarding.observe (s : Guarding V) (row : Rank V) : Guarding V :=
  { s with
    minimum := Function.update s.minimum row.rank
      (some (((s.minimum row.rank).map (min · row.availableGib)).getD row.availableGib))
    maximumSwap := Function.update s.maximumSwap row.rank
      (some (max ((s.maximumSwap row.rank).getD 0) row.swapUsedGib))
    initialSwap := Function.update s.initialSwap row.rank
      (some ((s.initialSwap row.rank).getD row.swapUsedGib)) }

def Guarding.observeAll (s : Guarding V) (rows : List (Rank V)) : Guarding V := rows.foldl Guarding.observe s

theorem Guarding.observeAll_log (s : Guarding V) (rows : List (Rank V)) : (s.observeAll rows).log = s.log := by
  unfold Guarding.observeAll
  induction rows generalizing s with
  | nil => rfl
  | cons row rows ih =>
    rw [List.foldl_cons, ih]
    rfl

end Observe

/-! ## The code -/

/-- The record that `save` writes in a state. -/
def Guarding.toRecord (reserve : V) (status : Status) (error : Option (Exc V)) (s : Guarding V) : Record V :=
  ⟨status, s.count, s.minimum, s.initialSwap, s.maximumSwap, reserve, error⟩

/-- mirrors scripts/memory-guard.py:26-33 -/
def save (reserve : V) (status : Status) (error : Option (Exc V)) (w : Save V) : Run V Unit := do
  let s ← get
  raiseIf w.writeText
  modify (·.write (s.toRecord reserve status error))
  raiseIf w.replace
  modify (·.publish (s.toRecord reserve status error))

/-- A save writes no event; where both of its steps succeed the record is published. -/
theorem save_ends {reserve : V} {status : Status} {error : Option (Exc V)} {w : Save V} {log : List Event} :
    Ends (fun s : Guarding V => s.log = log) (save reserve status error w)
      (fun _ s => w.Ok ∧ s.log = log ∧ ∃ r, s.record = some r ∧ r.status = status)
      (fun _ s => ¬w.Ok ∧ s.log = log) := by
  refine Ends.get_then fun s₀ hs₀ => ?_
  refine Ends.raiseIf_then (fun hwrite => ?_) fun e he s hs => ⟨fun hok => ?_, by rw [hs, hs₀]⟩
  · refine Ends.update_then (fun s => s.log = log) (fun s hs => by rw [hs]; exact hs₀) ?_
    refine Ends.raiseIf_then (fun hreplace => ?_) fun e he s hs => ⟨fun hok => ?_, hs⟩
    · exact Ends.update fun s hs => ⟨⟨hwrite, hreplace⟩, hs, _, rfl, rfl⟩
    · simp [hok.2] at he
  · simp [hok.1] at he

/-- mirrors scripts/memory-guard.py:53-56 -/
def handler (reserve : V) (env : Env V) (e : Exc V) : Run V Unit := do
  save reserve .failed (some e) env.failed
  modify (·.note .stop)
  raiseIf env.stop
  throw e

/-- The handler raises; it stops the cluster where its own record was saved. -/
theorem handler_ends {reserve : V} {env : Env V} {e : Exc V} :
    Ends (fun s => .stop ∉ s.log) (handler reserve env e) (fun _ _ => False)
      (fun _ s => .stop ∈ s.log ↔ env.failed.Ok) := by
  intro s hs
  refine Ends.bind (fun _ s' => env.failed.Ok ∧ s'.log = s.log)
    ((@save_ends V reserve .failed (some e) env.failed s.log).mono (fun _ h => h)
      (fun _ _ h => ⟨h.1, h.2.1⟩) fun _ s' h => ?_) (fun _ => ?_) s rfl
  · simp [h.2, hs, h.1]
  · refine Ends.given fun hok => ?_
    refine Ends.update_then (fun s => .stop ∈ s.log) (fun s _ => by simp [Guarding.note]) ?_
    refine Ends.raiseIf_then (fun _ => Ends.raise fun s hs => ?_) fun _ _ s hs => ?_
    · simp [hs, hok]
    · simp [hs, hok]

section Monitor
variable [LinearOrder V] [Zero V]

def Healthy (rows : List (Rank V)) : Prop := rows.length = 4 ∧ rows.all (·.ok) = true

instance (rows : List (Rank V)) : Decidable (Healthy rows) := inferInstanceAs (Decidable (_ ∧ _))

/-- `min(row['available_gib'] for row in rows) >= c['minimum_available_gib']`. -/
def InReserve (reserve : V) (rows : List (Rank V)) : Prop := ∀ row ∈ rows, reserve ≤ row.availableGib

instance (reserve : V) (rows : List (Rank V)) : Decidable (InReserve reserve rows) :=
  inferInstanceAs (Decidable (∀ row ∈ rows, _))

/-- mirrors scripts/memory-guard.py:37-51 -/
def turn (reserve : V) (p : Sample V) : Run V Unit := do
  raiseIf p.check
  require (p.inTime = true) (.assertionError "Benchmark exceeded the guard deadline" [])
  let rows ← perform p.status
  modify (·.counted)
  raiseIf p.append
  modify (·.observeAll rows)
  require (Healthy rows) (.assertionError "" rows)
  require (InReserve reserve rows) (.assertionError "" rows)
  save reserve .running none p.save
  raiseIf p.sleep

/-- The `try` body. -/
def monitor (reserve : V) (env : Env V) : Run V Unit := do
  each env.samples (turn reserve)
  raiseIf env.check
  modify (·.note .stopFile)
  save reserve .complete none env.complete

/-- mirrors scripts/memory-guard.py:36-56 -/
def guard (reserve : V) (env : Env V) : Run V Unit := tryCatch (monitor reserve env) (handler reserve env)

/-! ## What makes a turn raise -/

def Sample.Fails (reserve : V) (p : Sample V) : Prop :=
  p.check ≠ none ∨ p.inTime = false ∨
  (match p.status with
    | .error _ => True
    | .ok rows => ¬Healthy rows ∨ ¬InReserve reserve rows) ∨
  p.append ≠ none ∨ ¬p.save.Ok ∨ p.sleep ≠ none

/-- The monitoring raises before it ends. -/
def Env.Fails (reserve : V) (env : Env V) : Prop :=
  (∃ p ∈ env.samples, p.Fails reserve) ∨ env.check ≠ none ∨ ¬env.complete.Ok

/-! ## What the parts do -/

variable {reserve : V} {p : Sample V} {log : List Event} {env : Env V}

theorem turn_ends : Ends (fun s => s.log = log) (turn reserve p)
    (fun _ s => ¬p.Fails reserve ∧ s.log = log) (fun _ s => p.Fails reserve ∧ s.log = log) := by
  refine Ends.raiseIf_then (fun hcheck => ?_) fun e he s hs => ⟨Or.inl (by simp [he]), hs⟩
  refine Ends.require_then (fun htime => ?_) fun hno s hs => ⟨Or.inr (Or.inl (by simpa using hno)), hs⟩
  refine Ends.perform_then (fun rows hrows => ?_) fun e he s hs => ⟨by simp [Sample.Fails, he], hs⟩
  refine Ends.update_then (fun s => s.log = log) (fun s hs => hs) ?_
  refine Ends.raiseIf_then (fun happend => ?_) fun e he s hs => ⟨by simp [Sample.Fails, he], hs⟩
  refine Ends.update_then (fun s => s.log = log) (fun s hs => (s.observeAll_log rows).trans hs) ?_
  refine Ends.require_then (fun hhealthy => ?_) fun hno s hs => ⟨by simp [Sample.Fails, hrows, hno], hs⟩
  refine Ends.require_then (fun hreserve => ?_) fun hno s hs => ⟨by simp [Sample.Fails, hrows, hno], hs⟩
  refine Ends.bind (fun _ s => p.save.Ok ∧ s.log = log)
    (save_ends.mono (fun _ h => h) (fun _ _ h => ⟨h.1, h.2.1⟩) fun _ s h => ⟨?_, h.2⟩) fun _ => ?_
  · simp [Sample.Fails, h.1]
  · refine Ends.given fun hsave => ?_
    refine Ends.raiseIf (fun hsleep s hs => ⟨?_, hs⟩) fun e he s hs => ⟨by simp [Sample.Fails, he], hs⟩
    simp [Sample.Fails, hcheck, htime, hrows, happend, hhealthy, hreserve, hsave, hsleep]

/-- Behind the loop: the stop file was found and the record says so. -/
theorem monitor_ends : Ends (fun s => s.log = []) (monitor reserve env)
    (fun _ s => ¬env.Fails reserve ∧ s.log = [.stopFile] ∧ ∃ r, s.record = some r ∧ r.status = .complete)
    (fun _ s => env.Fails reserve ∧ .stop ∉ s.log) := by
  -- the turns made so far did not fail
  have hloop : Ends (fun s => s.log = []) (each env.samples (turn reserve))
      (fun _ s => (∀ p ∈ env.samples, ¬p.Fails reserve) ∧ s.log = [])
      (fun _ s => env.Fails reserve ∧ .stop ∉ s.log) := by
    refine (Ends.each (fun ps s => (∃ done, env.samples = done ++ ps ∧ ∀ p ∈ done, ¬p.Fails reserve) ∧
      s.log = []) fun p ps => Ends.given fun hdone => ?_).mono (fun s hs => ⟨⟨[], rfl, by simp⟩, hs⟩)
      (fun _ s hs => ?_) fun _ _ h => h
    · obtain ⟨done, hsamples, hdone⟩ := hdone
      refine turn_ends.mono (fun _ h => h) (fun _ s h => ⟨⟨done ++ [p], by simp [hsamples], ?_⟩, h.2⟩)
        fun _ s h => ⟨Or.inl ⟨p, by simp [hsamples], h.1⟩, by simp [h.2]⟩
      intro q hq
      rcases List.mem_append.mp hq with hq | hq
      · exact hdone q hq
      · obtain rfl := List.mem_singleton.mp hq
        exact h.1
    · obtain ⟨⟨done, hsamples, hdone⟩, hlog⟩ := hs
      rw [List.append_nil] at hsamples
      exact ⟨by rwa [hsamples], hlog⟩
  refine Ends.bind _ hloop fun _ => Ends.given fun hsamples => ?_
  refine Ends.raiseIf_then (fun hcheck => ?_)
    fun e he s hs => ⟨Or.inr (Or.inl (by simp [he])), by simp [hs]⟩
  refine Ends.update_then (fun s => s.log = [.stopFile]) (fun s hs => by simp [Guarding.note, hs]) ?_
  refine save_ends.mono (fun _ h => h) (fun _ s h => ⟨?_, h.2⟩)
    fun _ s h => ⟨Or.inr (Or.inr h.1), by simp [h.2]⟩
  rintro (⟨p, hp, hfails⟩ | hfails | hfails)
  · exact hsamples p hp hfails
  · exact hfails hcheck
  · exact hfails h.1

theorem guard_ends : Ends (fun s => s.log = []) (guard reserve env)
    (fun _ s => ¬env.Fails reserve ∧ s.log = [.stopFile] ∧ ∃ r, s.record = some r ∧ r.status = .complete)
    (fun _ s => env.Fails reserve ∧ (.stop ∈ s.log ↔ env.failed.Ok)) := by
  refine Ends.tryCatch _ monitor_ends fun e => Ends.given fun hfails => ?_
  exact handler_ends.mono (fun _ h => h) (fun _ _ h => h.elim) fun _ s h => ⟨hfails, h⟩

end Monitor

end FlashSpark.L6.Guard
