import FlashSpark.L6Operations.Cluster

/-!
# `serve` can fail and leave a container running

`scripts/cluster.py:213-266`. The handler stops the nodes of `started`, and a node is
appended to it after its start command returned: a command that times out after the
container was started leaves it out. And the handler writes `boot-state.json` before it
stops anything, so that a write that fails leaves every container running. The loop of the
stops ignores what fails, which says what it is for.

Counterexamples: one node whose start command is lost; one node whose server never gets
ready, and a full disk.

* `serve_stops_iff`: exactly when a call that fails leaves no container unstopped.
-/
namespace FlashSpark.Bugs.UnstoppedLaunch
open L6.Cluster

variable {V : Type}

/-- Where `serve` raises, every node on which a container may run was told to stop. -/
def StopsLaunched [LinearOrder V] (restart : Bool) (c : Config V) (env : Env V) : Prop :=
  ∀ e s, serve restart c env Serving.init = .error e s →
    ∀ node, .launched node ∈ s.log → .stopTried node ∈ s.log

/-- The command took effect, and the call failed. -/
def Lost (restart : Bool) (st : Start V) : Prop := st.TakesEffect restart ∧ ¬st.Done restart

/-- The first start takes effect. -/
def Launches (restart : Bool) (c : Config V) (env : Env V) : Prop :=
  c.order ≠ [] ∧ (env.start 0).TakesEffect restart

/-- Where no start of a node that is not yet in `started` is lost, and a record of the
failure can be written when there is something to stop. -/
def Safe [LinearOrder V] (restart : Bool) (c : Config V) (env : Env V) : Prop :=
  (∀ i node, c.order[i]? = some node → env.Reached restart i → Lost restart (env.start i) →
    node ∈ c.order.take i) ∧
  (env.AttemptFails restart c → Launches restart c env → env.saveFailed = none)

section Call
variable {restart : Bool} {c : Config V} {env : Env V}

theorem launches_of_mem {done : List Node} {n : Node} (hreached : env.Reached restart done.length)
    (hdone : ∀ m ∈ done, m ∈ c.order) (hn : n ∈ done) : Launches restart c env :=
  ⟨List.ne_nil_of_mem (hdone n hn), (hreached 0 (List.length_pos_of_mem hn)).takesEffect⟩

/-- The first start that did not return: there is one such number only. -/
theorem lost_at_first {done : List Node} {i : Nat} (hreached : env.Reached restart done.length)
    (hno : ¬(env.start done.length).Done restart) (hi : env.Reached restart i)
    (hlost : Lost restart (env.start i)) : i = done.length := by
  rcases Nat.lt_trichotomy i done.length with hlt | heq | hgt
  · exact absurd (hreached i hlt) hlost.2
  · exact heq
  · exact absurd (hi done.length hgt) hno

variable [LinearOrder V] {s₀ s : Serving V}

theorem launchFailed_stops_iff {before after : List Node} {node : Node}
    (horder : c.order = before ++ node :: after) (hfailed : LaunchFailed restart env before node s₀)
    (hhandled : Handled env s₀ s) (hfails : env.AttemptFails restart c) :
    (∀ n, .launched n ∈ s.log → .stopTried n ∈ s.log) ↔ Safe restart c env := by
  have hne : c.order ≠ [] := by simp [horder]
  have hat : c.order[before.length]? = some node := by simp [horder]
  have htake : c.order.take before.length = before := by simp [horder]
  have hlaunched (n : Node) : .launched n ∈ s.log ↔
      n ∈ before ∨ (n = node ∧ (env.start before.length).TakesEffect restart) :=
    (hhandled.launched n).trans (hfailed.launched n)
  have hstopped (n : Node) : .stopTried n ∈ s.log ↔ env.saveFailed = none ∧ n ∈ before := by
    rw [hhandled.stopTried hfailed.untouched n, hfailed.started]
  constructor
  · intro h
    refine ⟨fun i n hn hi hlost => ?_, fun _ hlaunch => ?_⟩
    · obtain rfl := lost_at_first hfailed.reached hfailed.not_done hi hlost
      obtain rfl : node = n := Option.some.inj (hat.symm.trans hn)
      rw [htake]
      exact ((hstopped node).mp (h node ((hlaunched node).mpr (Or.inr ⟨rfl, hlost.1⟩)))).2
    · cases hbefore : before with
      | nil =>
        have hmem := (hlaunched node).mpr (Or.inr ⟨rfl, by simpa [hbefore] using hlaunch.2⟩)
        exact ((hstopped node).mp (h node hmem)).1
      | cons n rest =>
        have hmem := (hlaunched n).mpr (Or.inl (by simp [hbefore]))
        exact ((hstopped n).mp (h n hmem)).1
  · intro hsafe n hn
    rw [hstopped]
    have hin (m : Node) (hm : m ∈ before) : m ∈ c.order := by simp [horder, hm]
    rcases (hlaunched n).mp hn with hmem | ⟨rfl, heffect⟩
    · exact ⟨hsafe.2 hfails (launches_of_mem hfailed.reached hin hmem), hmem⟩
    · have hmem := hsafe.1 before.length n hat hfailed.reached ⟨heffect, hfailed.not_done⟩
      rw [htake] at hmem
      exact ⟨hsafe.2 hfails (launches_of_mem hfailed.reached hin hmem), hmem⟩

theorem pollFailed_stops_iff (hlaunched : Launched restart env c.order s₀) (hhandled : Handled env s₀ s)
    (hfails : env.AttemptFails restart c) :
    (∀ n, .launched n ∈ s.log → .stopTried n ∈ s.log) ↔ Safe restart c env := by
  have hmem (n : Node) : .launched n ∈ s.log ↔ n ∈ c.order :=
    (hhandled.launched n).trans (hlaunched.launched n)
  have hstopped (n : Node) : .stopTried n ∈ s.log ↔ env.saveFailed = none ∧ n ∈ c.order := by
    rw [hhandled.stopTried hlaunched.untouched n, hlaunched.started]
  constructor
  · intro h
    refine ⟨fun i n hn _ hlost => ?_, fun _ hlaunch => ?_⟩
    · exact absurd (hlaunched.reached i (List.getElem?_eq_some_iff.mp hn).1) hlost.2
    · obtain ⟨n, hn⟩ := List.exists_mem_of_ne_nil _ hlaunch.1
      exact ((hstopped n).mp (h n ((hmem n).mpr hn))).1
  · intro hsafe n hn
    have hn := (hmem n).mp hn
    exact (hstopped n).mpr ⟨hsafe.2 hfails (launches_of_mem hlaunched.reached (fun _ hm => hm) hn), hn⟩

theorem failed_stops_iff (hfailed : AttemptFailed restart c env s₀) (hhandled : Handled env s₀ s) :
    (∀ n, .launched n ∈ s.log → .stopTried n ∈ s.log) ↔ Safe restart c env := by
  have hfails := hfailed.fails
  rcases hfailed with ⟨before, node, after, horder, hfailed⟩ | ⟨hlaunched, -⟩
  · exact launchFailed_stops_iff horder hfailed hhandled hfails
  · exact pollFailed_stops_iff hlaunched hhandled hfails

/-- **When a failed `serve` leaves no container unstopped.** Exactly when no start of a
node is lost, and the handler's record can be written whenever an attempt fails that has
launched something. -/
theorem serve_stops_iff :
    StopsLaunched restart c env ↔ (env.Admitted → Safe restart c env) := by
  constructor
  · intro h hadmitted
    by_cases hfails : env.AttemptFails restart c
    · obtain ⟨e, s₀, s, hrun, hfailed, hhandled⟩ := serve_raises hadmitted hfails
      exact (failed_stops_iff hfailed hhandled).mp (h e s hrun)
    · refine ⟨fun i n hn _ hlost => ?_, fun h => absurd h hfails⟩
      exact absurd (Or.inl ⟨i, (List.getElem?_eq_some_iff.mp hn).1, hlost.2⟩) hfails
  · intro hsafe e s hrun
    have hends := @serve_ends V c restart env _ Serving.init Launched.init
    rw [hrun] at hends
    rcases hends with ⟨-, hnone⟩ | ⟨hadmitted, s₀, hfailed, hhandled⟩
    · intro n hn
      exact absurd ((hnone.launched n).mp hn) List.not_mem_nil
    · exact (failed_stops_iff hfailed hhandled).mpr (hsafe hadmitted)

end Call

/-! ## Runs that go wrong -/

def oneNode : Config Nat := ⟨[⟨0⟩], 8, 0, 0⟩

/-- The checks pass; the start command ends as said; the server is never asked. -/
def oneStart (o : Outcome Nat) (saveFailed : Option (Exc Nat)) : Env Nat :=
  ⟨none, none, fun _ => ⟨none, o⟩, [], saveFailed, fun _ => none⟩

def timedOut : Exc Nat := .subprocessError 0

def diskFull : Exc Nat := .osError 28

/-- A start that timed out after it took effect, and a failure that could not be recorded. -/
theorem container_left_running :
    ¬StopsLaunched false oneNode (oneStart (.lost timedOut) none) ∧
      ¬StopsLaunched false oneNode (oneStart .done (some diskFull)) := by
  constructor
  · intro h
    have hstop := h timedOut ⟨[], [], some (.failed timedOut), [.launched ⟨0⟩]⟩ rfl ⟨0⟩ (by simp)
    simp at hstop
  · intro h
    have hstop := h diskFull ⟨[⟨0⟩], [], none, [.launched ⟨0⟩]⟩ rfl ⟨0⟩ (by simp)
    simp at hstop

end FlashSpark.Bugs.UnstoppedLaunch
