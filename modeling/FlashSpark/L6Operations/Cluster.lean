import FlashSpark.Core.Raise

/-!
# Serving on the cluster

`serve` (scripts/cluster.py:213-266): the checks of image and idleness, one start command
after the other, the polling until the server is ready, and the handler that records the
failure and stops what was started. What the nodes, the files and the server answer is an
`Env`; a remote command may fail before or after it took effect on its node. The polls of
an `Env` are the turns for which the clock is before the deadline.

* `launch_ends`: a failed launch was at the first start that was not done; `started` holds
  the nodes before it.
* `poll_ends`: when the polling raises; it launches and stops nothing.
* `attempt_ends`: the two together.
* `serve_ends`: what a whole call did to the nodes.
-/
namespace FlashSpark.L6.Cluster

/-! ## Data -/

/-- A rank as `status` reports it; the memory is in GiB.
mirrors scripts/cluster.py:167-176 -/
structure Rank (V : Type) where
  rank : Int
  running : Bool
  oomKilled : Bool
  restarts : Int
  availableGib : V
  swapUsedGib : V

/-- What Python raises, with the ranks that stand in its text. -/
inductive Exc (V : Type) where
  | osError (code : Int)
  | timeoutError (msg : String)
  /-- `CalledProcessError` and `TimeoutExpired`. -/
  | subprocessError (code : Int)
  | runtimeError (msg : String) (ranks : List (Rank V))
  | assertionError (msg : String) (ranks : List (Rank V))
  | valueError
  | other (kind : Nat)

/-- `except (OSError, TimeoutError)`. -/
def Exc.unreachable {V : Type} : Exc V → Bool
  | .osError _ => true
  | .timeoutError _ => true
  | _ => false

structure Node where
  rank : Int
  deriving DecidableEq

/-- A value of the server's `/server_info`. -/
inductive Value where
  | int (n : Int)
  | str (s : String)
  deriving DecidableEq

structure Config (V : Type) where
  workers : List Node
  minimumAvailableGib : V
  contextLength : Int
  maxTotalTokens : Int

/-- `c['workers'][1:] + c['workers'][:1]`: rank zero is started last. -/
def Config.order {V : Type} (c : Config V) : List Node := c.workers.drop 1 ++ c.workers.take 1

/-- mirrors scripts/cluster.py:246-248 -/
def Config.expected {V : Type} (c : Config V) : List (String × Value) :=
  [("tp_size", .int 4), ("ep_size", .int 4), ("context_length", .int c.contextLength),
    ("max_total_tokens", .int c.maxTotalTokens), ("max_running_requests", .int 8),
    ("speculative_dspark_block_size", .int 5), ("chunked_prefill_size", .int 2048),
    ("moe_runner_backend", .str "flashinfer_mxfp4"),
    ("speculative_moe_runner_backend", .str "flashinfer_mxfp4")]

/-- How a remote command ends. `lost`: it took effect, and the call failed or timed out. -/
inductive Outcome (V : Type) where
  | done
  | refused (e : Exc V)
  | lost (e : Exc V)

def Outcome.effect {V : Type} : Outcome V → Bool
  | .refused _ => false
  | _ => true

/-- One start: `command` reads the manifest of the overlays, then the node is called. -/
structure Start (V : Type) where
  command : Option (Exc V)
  outcome : Outcome V

/-- One turn of the polling loop. -/
structure Poll (V : Type) where
  status : Except (Exc V) (List (Rank V))
  saveSamples : Option (Exc V)
  /-- The status code of `/health`. -/
  health : Except (Exc V) Int
  print : Option (Exc V)
  serverInfo : Except (Exc V) (String → Option Value)
  layouts : Option (Exc V)
  saveLayout : Option (Exc V)
  saveInfo : Option (Exc V)
  saveReady : Option (Exc V)
  printReady : Option (Exc V)
  sleep : Option (Exc V)

structure Env (V : Type) where
  imageCheck : Option (Exc V)
  idle : Option (Exc V)
  start : Nat → Start V
  polls : List (Poll V)
  /-- The handler's write of `boot-state.json`. -/
  saveFailed : Option (Exc V)
  stop : Nat → Option (Exc V)

inductive BootState (V : Type) where
  | ready (minimum : V)
  | failed (e : Exc V)

/-- What happened on the nodes. -/
inductive Event where
  | launched (node : Node)
  | stopTried (node : Node)
  deriving DecidableEq

structure Serving (V : Type) where
  started : List Node
  samples : List (List (Rank V))
  bootState : Option (BootState V)
  log : List Event

abbrev Run (V α : Type) := EStateM (Exc V) (Serving V) α

variable {V : Type}

def Serving.init : Serving V := ⟨[], [], none, []⟩

def Serving.record (ev : Event) (s : Serving V) : Serving V := { s with log := s.log ++ [ev] }

def Serving.push (node : Node) (s : Serving V) : Serving V := { s with started := s.started ++ [node] }

def Serving.sample (ranks : List (Rank V)) (s : Serving V) : Serving V :=
  { s with samples := s.samples ++ [ranks] }

def Serving.boot (b : BootState V) (s : Serving V) : Serving V := { s with bootState := some b }

@[simp] theorem Serving.record_started (ev : Event) (s : Serving V) : (s.record ev).started = s.started := rfl
@[simp] theorem Serving.record_log (ev : Event) (s : Serving V) : (s.record ev).log = s.log ++ [ev] := rfl
@[simp] theorem Serving.push_started (n : Node) (s : Serving V) : (s.push n).started = s.started ++ [n] := rfl
@[simp] theorem Serving.push_log (n : Node) (s : Serving V) : (s.push n).log = s.log := rfl
@[simp] theorem Serving.sample_started (r : List (Rank V)) (s : Serving V) :
    (s.sample r).started = s.started := rfl
@[simp] theorem Serving.sample_log (r : List (Rank V)) (s : Serving V) : (s.sample r).log = s.log := rfl
@[simp] theorem Serving.boot_started (b : BootState V) (s : Serving V) : (s.boot b).started = s.started := rfl
@[simp] theorem Serving.boot_log (b : BootState V) (s : Serving V) : (s.boot b).log = s.log := rfl

/-! ## The code -/

/-- A command on a node. mirrors scripts/cluster.py:28-36 -/
def remote (o : Outcome V) (ev : Event) : Run V Unit :=
  match o with
  | .done => modify (·.record ev)
  | .refused e => throw e
  | .lost e => do
    modify (·.record ev)
    throw e

/-- mirrors scripts/cluster.py:219-225 -/
def launch (restart : Bool) (env : Env V) : Nat → List Node → Run V Unit
  | _, [] => pure ()
  | i, node :: nodes => do
    raiseIf (if restart then none else (env.start i).command)
    remote (env.start i).outcome (.launched node)
    modify (·.push node)
    launch restart env (i + 1) nodes

/-- mirrors scripts/cluster.py:237-241 -/
def probe (p : Poll V) : Run V Bool :=
  match p.health with
  | .ok status => pure (decide (status = 200))
  | .error e => if e.unreachable then pure false else throw e

/-- mirrors scripts/cluster.py:244-255 -/
def announce (c : Config V) (p : Poll V) (m : V) : Run V Unit := do
  let info ← perform p.serverInfo
  require (∀ kv ∈ c.expected, info kv.1 = some kv.2)
    (.runtimeError "Resolved server configuration differs" [])
  raiseIf p.layouts
  raiseIf p.saveLayout
  raiseIf p.saveInfo
  raiseIf p.saveReady
  modify (·.boot (.ready m))
  raiseIf p.printReady

section Polling
variable [LinearOrder V]

def minimum (ranks : List (Rank V)) : Option V := (ranks.map (·.availableGib)).min?

def Rank.ok (x : Rank V) : Bool := x.running && !x.oomKilled && x.restarts == 0

/-- mirrors scripts/cluster.py:230-236 -/
def observe (c : Config V) (p : Poll V) : Run V V := do
  let ranks ← perform p.status
  modify (·.sample ranks)
  raiseIf p.saveSamples
  match minimum ranks with
  | none => throw .valueError
  | some m => do
    require (ranks.all (·.ok) = true ∧ ¬m < c.minimumAvailableGib)
      (.runtimeError "Container health or OS reserve failed" ranks)
    pure m

def turn (c : Config V) (p : Poll V) : Run V Bool := do
  let m ← observe c p
  let ready ← probe p
  raiseIf p.print
  if ready then announce c p m else raiseIf p.sleep
  pure ready

/-- mirrors scripts/cluster.py:229-258 -/
def poll (c : Config V) : List (Poll V) → Run V Unit
  | [] => throw (.timeoutError "TP4 startup exceeded forty minutes")
  | p :: ps => do
    let ready ← turn c p
    if ready then pure () else poll c ps

/-- The `try` body. -/
def attempt (restart : Bool) (c : Config V) (env : Env V) : Run V Unit := do
  launch restart env 0 c.order
  poll c env.polls

end Polling

/-- What a command raises is an `Exception`, which the loop ignores.
mirrors scripts/cluster.py:261-265 -/
def stopStarted (env : Env V) : Nat → List Node → Run V Unit
  | _, [] => pure ()
  | k, node :: nodes => do
    modify (·.record (.stopTried node))
    tryCatch (raiseIf (env.stop k)) fun _ => pure ()
    stopStarted env (k + 1) nodes

/-- mirrors scripts/cluster.py:259-266 -/
def handler (env : Env V) (e : Exc V) : Run V Unit := do
  raiseIf env.saveFailed
  modify (·.boot (.failed e))
  let s ← get
  stopStarted env 0 s.started
  throw e

/-- mirrors scripts/cluster.py:213-266 -/
def serve [LinearOrder V] (restart : Bool) (c : Config V) (env : Env V) : Run V Unit := do
  raiseIf env.imageCheck
  raiseIf env.idle
  tryCatch (attempt restart c env) (handler env)

/-! ## What makes the `try` body raise -/

def Start.Built (restart : Bool) (st : Start V) : Prop := restart = true ∨ st.command = none

/-- The start command returned. -/
def Start.Done (restart : Bool) (st : Start V) : Prop := st.Built restart ∧ st.outcome = .done

/-- The container may run. -/
def Start.TakesEffect (restart : Bool) (st : Start V) : Prop :=
  st.Built restart ∧ st.outcome.effect = true

theorem Start.Done.takesEffect {restart : Bool} {st : Start V} (h : st.Done restart) :
    st.TakesEffect restart := ⟨h.1, by rw [h.2]; rfl⟩

/-- Every start before number `i` returned. -/
def Env.Reached (restart : Bool) (env : Env V) (i : Nat) : Prop := ∀ j < i, (env.start j).Done restart

def Poll.Ready (p : Poll V) : Prop := p.health = .ok 200

def Poll.ProbeFails (p : Poll V) : Prop := ∃ e, p.health = .error e ∧ e.unreachable = false

def Poll.AnnounceFails (c : Config V) (p : Poll V) : Prop :=
  (match p.serverInfo with
    | .error _ => True
    | .ok info => ¬∀ kv ∈ c.expected, info kv.1 = some kv.2) ∨
  p.layouts ≠ none ∨ p.saveLayout ≠ none ∨ p.saveInfo ≠ none ∨ p.saveReady ≠ none ∨ p.printReady ≠ none

section Polling
variable [LinearOrder V]

def Poll.ObserveFails (c : Config V) (p : Poll V) : Prop :=
  match p.status with
  | .error _ => True
  | .ok ranks => p.saveSamples ≠ none ∨ match minimum ranks with
    | none => True
    | some m => ¬(ranks.all (·.ok) = true ∧ ¬m < c.minimumAvailableGib)

def Poll.Fails (c : Config V) (p : Poll V) : Prop :=
  p.ObserveFails c ∨ p.ProbeFails ∨ p.print ≠ none ∨
    (p.Ready ∧ p.AnnounceFails c) ∨ (¬p.Ready ∧ p.sleep ≠ none)

/-- The server is not ready before the clock runs out, or a turn fails before. -/
def PollFails (c : Config V) : List (Poll V) → Prop
  | [] => True
  | p :: ps => p.Fails c ∨ (¬p.Ready ∧ PollFails c ps)

def Env.AttemptFails (restart : Bool) (c : Config V) (env : Env V) : Prop :=
  (∃ i < c.order.length, ¬(env.start i).Done restart) ∨ PollFails c env.polls

end Polling

/-! ## What the parts do -/

/-- What the polling leaves alone. -/
def Kept (nodes : List Node) (log : List Event) (s : Serving V) : Prop := s.started = nodes ∧ s.log = log

theorem Kept.sample {nodes : List Node} {log : List Event} {s : Serving V} (h : Kept nodes log s)
    (r : List (Rank V)) : Kept nodes log (s.sample r) := h

theorem Kept.boot {nodes : List Node} {log : List Event} {s : Serving V} (h : Kept nodes log s)
    (b : BootState V) : Kept nodes log (s.boot b) := h

variable {c : Config V} {p : Poll V} {nodes : List Node} {log : List Event}

theorem probe_ends : Ends (Kept nodes log) (probe p)
    (fun ready s => ¬p.ProbeFails ∧ (ready = true ↔ p.Ready) ∧ Kept nodes log s)
    (fun _ s => p.ProbeFails ∧ Kept nodes log s) := by
  unfold probe Poll.ProbeFails Poll.Ready
  cases p.health with
  | ok status => exact Ends.ret fun s hs => ⟨by simp, by simp, hs⟩
  | error e =>
    by_cases he : e.unreachable = true
    · simp only [he, if_true]
      exact Ends.ret fun s hs => ⟨by simp [he], by simp, hs⟩
    · simp only [he]
      exact Ends.raise fun s hs => ⟨⟨e, rfl, by simpa using he⟩, hs⟩

theorem announce_ends {m : V} : Ends (Kept nodes log) (announce c p m)
    (fun _ s => ¬p.AnnounceFails c ∧ Kept nodes log s) (fun _ s => p.AnnounceFails c ∧ Kept nodes log s) := by
  refine Ends.perform_then (fun info hinfo => ?_) fun e he s hs => ⟨Or.inl (by simp [he]), hs⟩
  refine Ends.require_then (fun hexpected => ?_) fun hno s hs => ⟨Or.inl (by simpa [hinfo] using hno), hs⟩
  refine Ends.raiseIf_then (fun hlayouts => ?_) fun e he s hs => ⟨by simp [Poll.AnnounceFails, he], hs⟩
  refine Ends.raiseIf_then (fun hlayout => ?_) fun e he s hs => ⟨by simp [Poll.AnnounceFails, he], hs⟩
  refine Ends.raiseIf_then (fun hsaved => ?_) fun e he s hs => ⟨by simp [Poll.AnnounceFails, he], hs⟩
  refine Ends.raiseIf_then (fun hready => ?_) fun e he s hs => ⟨by simp [Poll.AnnounceFails, he], hs⟩
  refine Ends.update_then (Kept nodes log) (fun s hs => hs.boot (.ready m)) ?_
  refine Ends.raiseIf (fun hprint s hs => ⟨?_, hs⟩) fun e he s hs => ⟨by simp [Poll.AnnounceFails, he], hs⟩
  simpa [Poll.AnnounceFails, hinfo, hlayouts, hlayout, hsaved, hready, hprint] using hexpected

section Polling
variable [LinearOrder V]

theorem observe_ends : Ends (Kept nodes log) (observe c p)
    (fun _ s => ¬p.ObserveFails c ∧ Kept nodes log s) (fun _ s => p.ObserveFails c ∧ Kept nodes log s) := by
  refine Ends.perform_then (fun ranks hranks => ?_) fun e he s hs => ⟨by simp [Poll.ObserveFails, he], hs⟩
  refine Ends.update_then (Kept nodes log) (fun s hs => hs.sample ranks) ?_
  refine Ends.raiseIf_then (fun hsave => ?_) fun e he s hs => ⟨by simp [Poll.ObserveFails, hranks, he], hs⟩
  cases hmin : minimum ranks with
  | none => exact Ends.raise fun s hs => ⟨by simp [Poll.ObserveFails, hranks, hmin], hs⟩
  | some m =>
    apply Ends.require_then
    · intro hok
      exact Ends.ret fun s hs => ⟨by simpa [Poll.ObserveFails, hranks, hmin, hsave] using hok, hs⟩
    · intro hno s hs
      exact ⟨by simpa [Poll.ObserveFails, hranks, hmin, hsave] using hno, hs⟩

theorem turn_ends : Ends (Kept nodes log) (turn c p)
    (fun ready s => ¬p.Fails c ∧ (ready = true ↔ p.Ready) ∧ Kept nodes log s)
    (fun _ s => p.Fails c ∧ Kept nodes log s) := by
  refine Ends.bind (fun _ s => ¬p.ObserveFails c ∧ Kept nodes log s)
    (observe_ends.mono (fun _ h => h) (fun _ _ h => h) fun _ _ h => ⟨Or.inl h.1, h.2⟩) fun m => ?_
  refine Ends.given fun hobserve => ?_
  refine Ends.bind (fun ready s => ¬p.ProbeFails ∧ (ready = true ↔ p.Ready) ∧ Kept nodes log s)
    (probe_ends.mono (fun _ h => h) (fun _ _ h => h) fun _ _ h => ⟨Or.inr (Or.inl h.1), h.2⟩) fun ready => ?_
  refine Ends.given fun hprobe => Ends.given fun hready => ?_
  refine Ends.raiseIf_then (fun hprint => ?_)
    fun e he s hs => ⟨Or.inr (Or.inr (Or.inl (by simp [he]))), hs⟩
  cases ready with
  | true =>
    have hp : p.Ready := hready.mp rfl
    refine Ends.bind (fun _ s => ¬p.AnnounceFails c ∧ Kept nodes log s)
      (announce_ends.mono (fun _ h => h) (fun _ _ h => h) fun _ _ h => ⟨?_, h.2⟩)
      fun _ => Ends.ret fun s hs => ⟨?_, hready, hs.2⟩
    · exact Or.inr (Or.inr (Or.inr (Or.inl ⟨hp, h.1⟩)))
    · simp [Poll.Fails, hobserve, hprobe, hprint, hp, hs.1]
  | false =>
    have hp : ¬p.Ready := fun h => Bool.false_ne_true (hready.mpr h)
    refine Ends.raiseIf_then (fun hsleep => Ends.ret fun s hs => ⟨?_, hready, hs⟩)
      fun e he s hs => ⟨?_, hs⟩
    · simp [Poll.Fails, hobserve, hprobe, hprint, hp, hsleep]
    · exact Or.inr (Or.inr (Or.inr (Or.inr ⟨hp, by simp [he]⟩)))

/-- Polling launches and stops nothing. -/
theorem poll_ends {ps : List (Poll V)} : Ends (Kept nodes log) (poll c ps)
    (fun _ s => ¬PollFails c ps ∧ Kept nodes log s) (fun _ s => PollFails c ps ∧ Kept nodes log s) := by
  induction ps with
  | nil => exact Ends.raise fun s hs => ⟨trivial, hs⟩
  | cons p ps ih =>
    refine Ends.bind _ (turn_ends.mono (fun _ h => h) (fun _ _ h => h) fun _ _ h => ⟨Or.inl h.1, h.2⟩)
      fun ready => ?_
    refine Ends.given fun hp => Ends.given fun hready => ?_
    cases ready with
    | true =>
      refine Ends.ret fun s hs => ⟨fun hfail => ?_, hs⟩
      rcases hfail with hfail | ⟨hno, -⟩
      · exact hp hfail
      · exact hno (hready.mp rfl)
    | false =>
      have hno : ¬p.Ready := fun h => Bool.false_ne_true (hready.mpr h)
      refine ih.mono (fun _ h => h) (fun _ s h => ⟨?_, h.2⟩) fun _ s h => ⟨Or.inr ⟨hno, h.1⟩, h.2⟩
      simp [PollFails, hp, h.1]

end Polling

/-! ## Starts and stops -/

section Nodes
variable {restart : Bool} {env : Env V}

/-- The nodes of `done` were started, one after the other, and nothing else happened. -/
structure Launched (restart : Bool) (env : Env V) (done : List Node) (s : Serving V) : Prop where
  reached : env.Reached restart done.length
  started : s.started = done
  launched : ∀ n, .launched n ∈ s.log ↔ n ∈ done
  untouched : ∀ n, .stopTried n ∉ s.log

/-- The start of `node`, after the ones of `done`, was the first that did not return. -/
structure LaunchFailed (restart : Bool) (env : Env V) (done : List Node) (node : Node) (s : Serving V) :
    Prop where
  reached : env.Reached restart done.length
  not_done : ¬(env.start done.length).Done restart
  started : s.started = done
  launched : ∀ n, .launched n ∈ s.log ↔
    n ∈ done ∨ (n = node ∧ (env.start done.length).TakesEffect restart)
  untouched : ∀ n, .stopTried n ∉ s.log

theorem Launched.init : Launched restart env [] (Serving.init : Serving V) :=
  ⟨fun j hj => absurd hj (Nat.not_lt_zero j), rfl, by simp [Serving.init], by simp [Serving.init]⟩

variable {done : List Node} {node : Node} {s : Serving V}

theorem Launched.next (h : Launched restart env done s) (hdone : (env.start done.length).Done restart) :
    Launched restart env (done ++ [node]) ((s.record (.launched node)).push node) := by
  refine ⟨fun j hj => ?_, by simp [h.started], fun n => ?_, fun n => ?_⟩
  · rw [List.length_append, List.length_singleton] at hj
    rcases Nat.lt_succ_iff_lt_or_eq.mp hj with hj | rfl
    · exact h.reached j hj
    · exact hdone
  · simp [h.launched n]
  · simp [h.untouched n]

/-- It did not reach the node. -/
theorem Launched.refused (h : Launched restart env done s)
    (hno : ¬(env.start done.length).TakesEffect restart) : LaunchFailed restart env done node s :=
  ⟨h.reached, fun hdone => hno hdone.takesEffect, h.started, fun n => by simp [h.launched n, hno], h.untouched⟩

theorem Launched.lost (h : Launched restart env done s)
    (heffect : (env.start done.length).TakesEffect restart) (hno : ¬(env.start done.length).Done restart) :
    LaunchFailed restart env done node (s.record (.launched node)) :=
  ⟨h.reached, hno, h.started, fun n => by simp [h.launched n, heffect], fun n => by simp [h.untouched n]⟩

theorem launch_ends {nodes : List Node} :
    Ends (Launched restart env done) (launch restart env done.length nodes)
      (fun _ => Launched restart env (done ++ nodes))
      (fun _ s => ∃ before node after, nodes = before ++ node :: after ∧
        LaunchFailed restart env (done ++ before) node s) := by
  induction nodes generalizing done with
  | nil =>
    refine Ends.ret fun s hs => ?_
    rw [List.append_nil]
    exact hs
  | cons node nodes ih =>
    have hhere {s : Serving V} (h : LaunchFailed restart env done node s) :
        ∃ before n after, node :: nodes = before ++ n :: after ∧
          LaunchFailed restart env (done ++ before) n s :=
      ⟨[], node, nodes, rfl, by rwa [List.append_nil]⟩
    refine Ends.raiseIf_then (fun hbuilt => ?_) fun e he s hs => hhere (hs.refused fun heffect => ?_)
    · have hb : (env.start done.length).Built restart := by
        cases restart with
        | true => exact Or.inl rfl
        | false => exact Or.inr hbuilt
      refine Ends.bind (fun _ s => (env.start done.length).Done restart ∧
        ∃ s₀, Launched restart env done s₀ ∧ s = s₀.record (.launched node)) ?_ fun _ => ?_
      · unfold remote
        cases houtcome : (env.start done.length).outcome with
        | done => exact Ends.update fun s hs => ⟨⟨hb, houtcome⟩, s, hs, rfl⟩
        | refused e =>
          refine Ends.raise fun s hs => hhere (hs.refused fun heffect => ?_)
          have := heffect.2
          simp [houtcome, Outcome.effect] at this
        | lost e =>
          refine Ends.update_then (LaunchFailed restart env done node) (fun s hs => ?_)
            (Ends.raise fun s hs => hhere hs)
          refine hs.lost ⟨hb, by simp [houtcome, Outcome.effect]⟩ fun hdone => ?_
          have := hdone.2
          simp [houtcome] at this
      · refine Ends.given fun hdone => Ends.update_then (Launched restart env (done ++ [node])) ?_ ?_
        · intro s ⟨s₀, hs₀, heq⟩
          rw [heq]
          exact hs₀.next hdone
        · have hrest := @ih (done ++ [node])
          rw [List.length_append, List.length_singleton] at hrest
          refine hrest.mono (fun _ h => h) (fun _ s h => ?_) fun _ s h => ?_
          · rwa [List.append_assoc] at h
          · obtain ⟨before, n, after, hnodes, h⟩ := h
            rw [List.append_assoc] at h
            exact ⟨node :: before, n, after, by rw [hnodes]; rfl, h⟩
    · cases restart with
      | true => simp at he
      | false =>
        rcases heffect.1 with h | h
        · cases h
        · simp [h] at he

/-- The loop tries every stop, whatever the commands give, and never raises. -/
theorem stopStarted_ends {k : Nat} {nodes : List Node} {log : List Event} :
    Ends (fun s : Serving V => s.log = log) (stopStarted env k nodes)
      (fun _ s => s.log = log ++ nodes.map .stopTried) (fun _ _ => False) := by
  induction nodes generalizing k log with
  | nil =>
    refine Ends.ret fun s hs => ?_
    rw [List.map_nil, List.append_nil]
    exact hs
  | cons node nodes ih =>
    refine Ends.update_then (fun s => s.log = log ++ [.stopTried node]) (fun s hs => by simp [hs]) ?_
    refine Ends.bind (fun _ s => s.log = log ++ [.stopTried node]) ?_ fun _ => ?_
    · apply Ends.tryCatch fun _ s => s.log = log ++ [.stopTried node]
      · exact Ends.raiseIf (fun _ s hs => hs) fun _ _ s hs => hs
      · exact fun _ => Ends.ret fun s hs => hs
    · refine ih.mono (fun _ h => h) (fun _ s h => ?_) fun _ _ h => h
      rw [h, List.append_assoc, List.map_cons, List.singleton_append]

/-- What the handler adds to the log of the state it is entered with. -/
def Handled (env : Env V) (s₀ s : Serving V) : Prop :=
  (env.saveFailed = none → s.log = s₀.log ++ s₀.started.map .stopTried) ∧
    (env.saveFailed ≠ none → s.log = s₀.log)

theorem Handled.launched {s₀ s : Serving V} (h : Handled env s₀ s) (n : Node) :
    .launched n ∈ s.log ↔ .launched n ∈ s₀.log := by
  by_cases hsave : env.saveFailed = none
  · simp [h.1 hsave]
  · rw [h.2 hsave]

theorem Handled.stopTried {s₀ s : Serving V} (h : Handled env s₀ s)
    (huntouched : ∀ n, .stopTried n ∉ s₀.log) (n : Node) :
    .stopTried n ∈ s.log ↔ env.saveFailed = none ∧ n ∈ s₀.started := by
  by_cases hsave : env.saveFailed = none
  · simp [h.1 hsave, huntouched n, hsave]
  · simp [h.2 hsave, huntouched n, hsave]

theorem handler_ends {e : Exc V} {s₀ : Serving V} :
    Ends (· = s₀) (handler env e) (fun _ _ => False) (fun _ => Handled env s₀) := by
  refine Ends.raiseIf_then (fun hsave => ?_) fun e' he s hs => ⟨fun h => ?_, fun _ => by rw [hs]⟩
  · refine Ends.update_then (· = s₀.boot (.failed e)) (fun s hs => by rw [hs]) ?_
    refine Ends.get_then fun s hs => ?_
    rw [hs]
    refine Ends.bind (fun _ s => s.log = s₀.log ++ s₀.started.map .stopTried) ?_ fun _ => ?_
    · exact stopStarted_ends.mono (fun s h => by rw [h]; rfl) (fun _ _ h => h) fun _ _ h => h.elim
    · exact Ends.raise fun s hs => ⟨fun _ => hs, fun h => absurd hsave h⟩
  · rw [h] at he
    cases he

section Serve
variable [LinearOrder V]

/-- What the `try` body did when it raised. -/
def AttemptFailed (restart : Bool) (c : Config V) (env : Env V) (s : Serving V) : Prop :=
  (∃ before node after, c.order = before ++ node :: after ∧ LaunchFailed restart env before node s) ∨
    (Launched restart env c.order s ∧ PollFails c env.polls)

theorem AttemptFailed.fails {s : Serving V} (h : AttemptFailed restart c env s) :
    env.AttemptFails restart c := by
  rcases h with ⟨before, node, after, horder, h⟩ | ⟨-, h⟩
  · exact Or.inl ⟨before.length, by simp [horder], h.not_done⟩
  · exact Or.inr h

theorem attempt_ends : Ends (Launched restart env []) (attempt restart c env)
    (fun _ s => Launched restart env c.order s ∧ ¬PollFails c env.polls)
    (fun _ => AttemptFailed restart c env) := by
  refine Ends.bind (fun _ => Launched restart env c.order)
    (launch_ends.mono (fun _ h => h) (fun _ _ h => h) fun _ _ h => Or.inl h) fun _ s hs => ?_
  -- polling keeps the nodes and the log, which is all that `Launched` reads
  have hkeep {s' : Serving V} (h : Kept s.started s.log s') : Launched restart env c.order s' :=
    ⟨hs.reached, h.1.trans hs.started, fun n => by rw [h.2]; exact hs.launched n,
      fun n => by rw [h.2]; exact hs.untouched n⟩
  have hpoll : Ends (Kept s.started s.log) (poll c env.polls)
      (fun _ s => Launched restart env c.order s ∧ ¬PollFails c env.polls)
      (fun _ => AttemptFailed restart c env) :=
    poll_ends.mono (fun _ h => h) (fun _ s' h => ⟨hkeep h.2, h.1⟩) fun _ s' h => Or.inr ⟨hkeep h.2, h.1⟩
  exact hpoll s ⟨rfl, rfl⟩

def Env.Admitted (env : Env V) : Prop := env.imageCheck = none ∧ env.idle = none

theorem serve_ends : Ends (Launched restart env []) (serve restart c env)
    (fun _ s => Launched restart env c.order s ∧ ¬PollFails c env.polls)
    (fun _ s => (¬env.Admitted ∧ Launched restart env [] s) ∨
      (env.Admitted ∧ ∃ s₀, AttemptFailed restart c env s₀ ∧ Handled env s₀ s)) := by
  refine Ends.raiseIf_then (fun himage => ?_) fun e he s hs => Or.inl ⟨fun h => ?_, hs⟩
  · refine Ends.raiseIf_then (fun hidle => ?_) fun e he s hs => Or.inl ⟨fun h => ?_, hs⟩
    · refine Ends.tryCatch (fun _ => AttemptFailed restart c env) attempt_ends fun e s hs => ?_
      have hhandler := @handler_ends V env e s s rfl
      cases hr : handler env e s with
      | ok a s' =>
        rw [hr] at hhandler
        exact hhandler.elim
      | error e' s' =>
        rw [hr] at hhandler
        exact Or.inr ⟨⟨himage, hidle⟩, s, hs, hhandler⟩
    · simp [h.2] at he
  · simp [h.1] at he

/-- A call that is admitted and whose attempt fails raises, behind the handler. -/
theorem serve_raises (hadmitted : env.Admitted) (hfails : env.AttemptFails restart c) :
    ∃ e s₀ s, serve restart c env Serving.init = .error e s ∧ AttemptFailed restart c env s₀ ∧
      Handled env s₀ s := by
  have hends := @serve_ends V c restart env _ Serving.init Launched.init
  cases hr : serve restart c env Serving.init with
  | ok a s =>
    rw [hr] at hends
    obtain ⟨hlaunched, hpoll⟩ := hends
    rcases hfails with ⟨i, hi, hno⟩ | hfails
    · exact absurd (hlaunched.reached i hi) hno
    · exact absurd hfails hpoll
  | error e s =>
    rw [hr] at hends
    rcases hends with ⟨hno, -⟩ | ⟨-, s₀, hfailed, hhandled⟩
    · exact absurd hadmitted hno
    · exact ⟨e, s₀, s, rfl, hfailed, hhandled⟩

end Serve
end Nodes

end FlashSpark.L6.Cluster
