import FlashSpark.Core.LTS

/-!
# Unordered launches

A launch runs tasks concurrently. A task loads once and then performs a list of
stores computed from what it loaded; nothing orders the tasks, so any interleaving
of their loads and stores may happen. When no task stores where another loads
(`ReadFree`), every complete interleaving leaves, at an address only one task
stores to, what that task computes from the initial memory (`completes_stored`).
When no two tasks store to one address either (`RaceFree`), that is the whole
memory (`completes_effects`, `Effects.unique`), and some interleaving completes
(`exists_completes`). Launches that follow one another compose (`Effects.seq`).

Memories are dependent: a location `l` holds a `β l`.
-/
namespace FlashSpark.Launch

variable {Loc : Type*} {β : Loc → Type*} {ι : Type*}

abbrev Memory (β : Loc → Type*) := (l : Loc) → β l

abbrev Stores (β : Loc → Type*) := List (Σ l, β l)

/-- `reads` are the locations the stores depend on. -/
structure Task (β : Loc → Type*) where
  reads : Set Loc
  stores : Memory β → Stores β
  depends : ∀ m m', (∀ l ∈ reads, m l = m' l) → stores m = stores m'

variable [DecidableEq Loc]

def applyStores (ss : Stores β) (m : Memory β) : Memory β :=
  ss.foldl (fun m s => Function.update m s.1 s.2) m

def locs (ss : Stores β) : List Loc := ss.map Sigma.fst

/-- `none`: not yet loaded; `some ss`: `ss` remain to be stored. -/
abbrev Status (ι : Type*) (β : Loc → Type*) := ι → Option (Stores β)

/-- Task `i` loads, or performs its next store. -/
def launch [DecidableEq ι] (tasks : ι → Task β) (m₀ : Memory β) : LTS (Memory β × Status ι β) ι where
  init s := s = (m₀, fun _ => none)
  step s i s' :=
    (s.2 i = none ∧ s' = (s.1, Function.update s.2 i (some ((tasks i).stores s.1)))) ∨
    ∃ st rest, s.2 i = some (st :: rest) ∧
      s' = (Function.update s.1 st.1 st.2, Function.update s.2 i (some rest))

/-- Some interleaving of all the tasks, run to the end, turns `m` into `m'`. -/
def Completes [DecidableEq ι] (tasks : ι → Task β) (m m' : Memory β) : Prop :=
  ∃ status, (launch tasks m).Reachable (m', status) ∧ ∀ i, status i = some []

/-- Task `i` alone stores to `l`. -/
def Owns (tasks : ι → Task β) (m : Memory β) (i : ι) (l : Loc) : Prop :=
  l ∈ locs ((tasks i).stores m) ∧ ∀ j, j ≠ i → l ∉ locs ((tasks j).stores m)

def ReadFree (tasks : ι → Task β) (m : Memory β) : Prop :=
  ∀ i j, i ≠ j → ∀ l ∈ locs ((tasks i).stores m), l ∉ (tasks j).reads

structure RaceFree (tasks : ι → Task β) (m : Memory β) : Prop where
  reads : ReadFree tasks m
  stores : ∀ i j, i ≠ j → ∀ l ∈ locs ((tasks i).stores m), l ∉ locs ((tasks j).stores m)

/-- `m'` is `m` with every store of `ss i`, for the `i` in `on`. -/
structure Effects (on : ι → Prop) (ss : ι → Stores β) (m m' : Memory β) : Prop where
  stored : ∀ i, on i → ∀ l ∈ locs (ss i), m' l = applyStores (ss i) m l
  kept : ∀ l, (∀ i, on i → l ∉ locs (ss i)) → m' l = m l

/-! ## Lists of stores -/

theorem applyStores_append (a b : Stores β) (m : Memory β) :
    applyStores (a ++ b) m = applyStores b (applyStores a m) := List.foldl_append

theorem applyStores_miss {ss : Stores β} {m : Memory β} {l : Loc} (h : l ∉ locs ss) :
    applyStores ss m l = m l := by
  induction ss generalizing m with
  | nil => rfl
  | cons s ss ih =>
    rw [locs, List.map_cons, List.mem_cons, not_or] at h
    exact (ih h.2).trans (Function.update_of_ne h.1 _ _)

/-- A stored location holds its last value, whatever was there. -/
theorem applyStores_hit {ss : Stores β} {m m' : Memory β} {l : Loc} (h : l ∈ locs ss) :
    applyStores ss m l = applyStores ss m' l := by
  induction ss generalizing m m' with
  | nil => cases h
  | cons s ss ih =>
    by_cases hl : l ∈ locs ss
    · exact ih hl
    · have hs : l = s.1 := by
        rw [locs, List.map_cons, List.mem_cons] at h
        exact h.resolve_right hl
      subst hs
      exact (applyStores_miss hl).trans ((Function.update_self _ _ _).trans
        ((applyStores_miss hl).trans (Function.update_self _ _ _)).symm)

/-- A store no later one overwrites. -/
theorem applyStores_head {l : Loc} {v : β l} {ss : Stores β} {m : Memory β} (h : l ∉ locs ss) :
    applyStores (⟨l, v⟩ :: ss) m l = v :=
  (applyStores_miss (m := Function.update m l v) h).trans (Function.update_self _ _ _)

theorem applyStores_mem {ss : Stores β} (hnd : (locs ss).Nodup) {m : Memory β} {l : Loc} {v : β l}
    (h : ⟨l, v⟩ ∈ ss) : applyStores ss m l = v := by
  induction ss generalizing m with
  | nil => cases h
  | cons s ss ih =>
    rw [locs, List.map_cons, List.nodup_cons] at hnd
    rcases List.mem_cons.mp h with rfl | h
    · exact applyStores_head hnd.1
    · exact ih hnd.2 h

/-! ## Effects -/

variable {on : ι → Prop} {ss : ι → Stores β} {m m₁ m₂ : Memory β}

theorem Effects.unique (h₁ : Effects on ss m m₁) (h₂ : Effects on ss m m₂) : m₁ = m₂ := by
  funext l
  by_cases hl : ∃ i, on i ∧ l ∈ locs (ss i)
  · obtain ⟨i, hi, hmem⟩ := hl
    rw [h₁.stored i hi l hmem, h₂.stored i hi l hmem]
  · have hnone : ∀ i, on i → l ∉ locs (ss i) := fun i hi hmem => hl ⟨i, hi, hmem⟩
    rw [h₁.kept l hnone, h₂.kept l hnone]

/-- One launch after another, the second storing nowhere the first did. -/
theorem Effects.seq {on' : ι → Prop} (h₁ : Effects on ss m m₁) (h₂ : Effects on' ss m₁ m₂)
    (hdis : ∀ i j, on i → on' j → ∀ l ∈ locs (ss i), l ∉ locs (ss j)) :
    Effects (fun i => on i ∨ on' i) ss m m₂ where
  stored i hi l hl := by
    rcases hi with hi | hi
    · rw [h₂.kept l fun j hj => hdis i j hi hj l hl]
      exact h₁.stored i hi l hl
    · rw [h₂.stored i hi l hl]
      exact applyStores_hit hl
  kept l hl := by
    rw [h₂.kept l fun i hi => hl i (.inr hi), h₁.kept l fun i hi => hl i (.inl hi)]

/-- The same stores under other task names. -/
theorem Effects.reindex {κ : Type*} {on' : κ → Prop} {ss' : κ → Stores β} (f : ι → κ)
    (h : Effects on ss m m₁) (hon : ∀ k, on' k ↔ ∃ i, on i ∧ f i = k)
    (hss : ∀ i, on i → ss' (f i) = ss i) : Effects on' ss' m m₁ where
  stored k hk l hl := by
    obtain ⟨i, hi, rfl⟩ := (hon k).mp hk
    rw [hss i hi] at hl ⊢
    exact h.stored i hi l hl
  kept l hl := h.kept l fun i hi => by
    rw [← hss i hi]
    exact hl (f i) ((hon _).mpr ⟨i, hi, rfl⟩)

/-! ## Every interleaving -/

variable [DecidableEq ι]

/-- Where a launch stands: each task has not loaded, and would still load what it
would have loaded first; or it has stored a prefix of its stores. -/
structure Progress (tasks : ι → Task β) (m₀ : Memory β) (s : Memory β × Status ι β) : Prop where
  pending : ∀ i, s.2 i = none → ∀ l ∈ (tasks i).reads, s.1 l = m₀ l
  untouched : ∀ i, s.2 i = none → ∀ l, Owns tasks m₀ i l → s.1 l = m₀ l
  running : ∀ i rest, s.2 i = some rest → ∃ done, (tasks i).stores m₀ = done ++ rest ∧
    ∀ l, Owns tasks m₀ i l → s.1 l = applyStores done m₀ l
  kept : ∀ l, (∀ i, l ∉ locs ((tasks i).stores m₀)) → s.1 l = m₀ l

omit [DecidableEq Loc] in
/-- A task that has still not loaded is not the one that moved. -/
theorem pending_of_update {status : Status ι β} {i j : ι} {ss : Stores β}
    (h : Function.update status i (some ss) j = none) : j ≠ i ∧ status j = none := by
  have hij : j ≠ i := by
    intro he
    rw [he, Function.update_self] at h
    cases h
  exact ⟨hij, by rwa [Function.update_of_ne hij] at h⟩

theorem progress_inductive {tasks : ι → Task β} {m₀ : Memory β} (hrf : ReadFree tasks m₀) :
    (launch tasks m₀).Inductive (Progress tasks m₀) where
  init s hs := by
    subst hs
    exact ⟨fun _ _ _ _ => rfl, fun _ _ _ _ => rfl, fun _ _ h => by (cases h), fun _ _ => rfl⟩
  step s i s' h hstep := by
    rcases hstep with ⟨hnone, rfl⟩ | ⟨st, rest, hrun, rfl⟩
    · -- the load: what it sees is what the initial memory held
      have hsame : (tasks i).stores s.1 = (tasks i).stores m₀ :=
        (tasks i).depends _ _ fun l hl => h.pending i hnone l hl
      refine ⟨fun j hj => h.pending j (pending_of_update hj).2,
        fun j hj => h.untouched j (pending_of_update hj).2, fun j r hj => ?_, h.kept⟩
      · by_cases hij : j = i
        · subst hij
          simp only [Function.update_self, Option.some.injEq] at hj
          subst hj
          exact ⟨[], by rw [hsame]; rfl, fun l hl => h.untouched j hnone l hl⟩
        · exact h.running j r (by simpa [hij] using hj)
    · -- a store: no other task loads there, and what others own is elsewhere
      obtain ⟨done, hsplit, hdone⟩ := h.running i (st :: rest) hrun
      have hmem : st.1 ∈ locs ((tasks i).stores m₀) := by rw [hsplit]; simp [locs]
      have hother : ∀ j, j ≠ i → ∀ l, Owns tasks m₀ j l →
          Function.update s.1 st.1 st.2 l = s.1 l := fun j hj l hl =>
        Function.update_of_ne (fun he : l = st.1 => hl.2 i hj.symm (by rw [he]; exact hmem)) _ _
      refine ⟨fun j hj l hl => ?_, fun j hj l hl => ?_, fun j r hj => ?_, fun l hl => ?_⟩
      · obtain ⟨hij, hnone⟩ := pending_of_update hj
        dsimp only
        rw [Function.update_of_ne
          (fun he : l = st.1 => hrf i j hij.symm _ hmem (by rw [← he]; exact hl))]
        exact h.pending j hnone l hl
      · obtain ⟨hij, hnone⟩ := pending_of_update hj
        dsimp only
        rw [hother j hij l hl]
        exact h.untouched j hnone l hl
      · by_cases hij : j = i
        · subst hij
          simp only [Function.update_self, Option.some.injEq] at hj
          subst hj
          refine ⟨done ++ [st], by rw [hsplit]; simp, fun l hl => ?_⟩
          rw [applyStores_append]
          show Function.update s.1 st.1 st.2 l = Function.update (applyStores done m₀) st.1 st.2 l
          by_cases hl' : l = st.1
          · subst hl'; rw [Function.update_self, Function.update_self]
          · rw [Function.update_of_ne hl', Function.update_of_ne hl']
            exact hdone l hl
        · obtain ⟨d, hd, hval⟩ := h.running j r (by simpa [hij] using hj)
          refine ⟨d, hd, fun l hl => ?_⟩
          dsimp only
          rw [hother j hij l hl]
          exact hval l hl
      · dsimp only
        rw [Function.update_of_ne (fun he => hl i (by rw [he]; exact hmem))]
        exact h.kept l hl

/-- What only task `i` stores to holds what `i` computes from the initial memory. -/
theorem completes_stored {tasks : ι → Task β} {m m' : Memory β} (hrf : ReadFree tasks m)
    (h : Completes tasks m m') {i : ι} {l : Loc} (hl : Owns tasks m i l) :
    m' l = applyStores ((tasks i).stores m) m l := by
  obtain ⟨status, hreach, hdone⟩ := h
  obtain ⟨done, hsplit, hval⟩ :=
    ((progress_inductive hrf).reachable _ hreach).running i [] (hdone i)
  rw [List.append_nil] at hsplit
  rw [hsplit]
  exact hval l hl

theorem completes_kept {tasks : ι → Task β} {m m' : Memory β} (hrf : ReadFree tasks m)
    (h : Completes tasks m m') {l : Loc} (hl : ∀ i, l ∉ locs ((tasks i).stores m)) :
    m' l = m l := by
  obtain ⟨status, hreach, -⟩ := h
  exact ((progress_inductive hrf).reachable _ hreach).kept l hl

/-- What no task stores to, whatever it loads. -/
theorem completes_frame {tasks : ι → Task β} {m m' : Memory β} (h : Completes tasks m m') {l : Loc}
    (hl : ∀ i seen, l ∉ locs ((tasks i).stores seen)) : m' l = m l := by
  obtain ⟨status, hreach, -⟩ := h
  have hind : (launch tasks m).Inductive fun s =>
      s.1 l = m l ∧ ∀ i rest, s.2 i = some rest → l ∉ locs rest := by
    refine ⟨fun s hs => ?_, fun s i s' hs hstep => ?_⟩
    · subst hs
      exact ⟨rfl, fun i rest hi => by cases hi⟩
    · have hothers : ∀ ss : Stores β, l ∉ locs ss → ∀ j rest,
          Function.update s.2 i (some ss) j = some rest → l ∉ locs rest := by
        intro ss hss j rest hj
        by_cases hij : j = i
        · subst hij
          rw [Function.update_self, Option.some.injEq] at hj
          rwa [← hj]
        · rw [Function.update_of_ne hij] at hj
          exact hs.2 j rest hj
      rcases hstep with ⟨-, rfl⟩ | ⟨st, rest, hrun, rfl⟩
      · exact ⟨hs.1, hothers _ (hl i s.1)⟩
      · have hmem := hs.2 i _ hrun
        rw [locs, List.map_cons, List.mem_cons, not_or] at hmem
        exact ⟨(Function.update_of_ne hmem.1 _ _).trans hs.1, hothers rest hmem.2⟩
  exact (hind.reachable _ hreach).1

/-! ## Some interleaving -/

theorem reachable_stores {tasks : ι → Task β} {m₀ : Memory β} {i : ι} {rest : Stores β}
    {m : Memory β} {status : Status ι β} (hr : (launch tasks m₀).Reachable (m, status))
    (hi : status i = some rest) : (launch tasks m₀).Reachable
      (applyStores rest m, Function.update status i (some [])) := by
  induction rest generalizing m status with
  | nil => rwa [← hi, Function.update_eq_self]
  | cons st rest ih =>
    have hnext := ih (hr.step (l := i) (.inr ⟨st, rest, hi, rfl⟩)) (Function.update_self _ _ _)
    rwa [Function.update_idem] at hnext

/-- Running the tasks of a list one after another. -/
theorem reachable_tasks {tasks : ι → Task β} {m₀ : Memory β} (is : List ι) (hnd : is.Nodup)
    {m : Memory β} {status : Status ι β} (hr : (launch tasks m₀).Reachable (m, status))
    (hnone : ∀ i ∈ is, status i = none) : ∃ m' status', (launch tasks m₀).Reachable (m', status') ∧
      (∀ j, status' j = if j ∈ is then some [] else status j) ∧
      ∀ l, (∀ i ∈ is, ∀ seen, l ∉ locs ((tasks i).stores seen)) → m' l = m l := by
  induction is generalizing m status with
  | nil => exact ⟨m, status, hr, fun j => by simp, fun _ _ => rfl⟩
  | cons i is ih =>
    obtain ⟨hi, hnd⟩ := List.nodup_cons.mp hnd
    have hload := hr.step (l := i) (.inl ⟨hnone i List.mem_cons_self, rfl⟩)
    have hrun := reachable_stores hload (Function.update_self _ _ _)
    rw [Function.update_idem] at hrun
    obtain ⟨m', status', hr', hst, hkept⟩ := ih hnd hrun fun j hj => by
      rw [Function.update_of_ne (by rintro rfl; exact hi hj)]
      exact hnone j (List.mem_cons_of_mem i hj)
    refine ⟨m', status', hr', fun j => ?_, fun l hl => ?_⟩
    · rw [hst j]
      by_cases hj : j = i
      · subst hj; simp
      · simp [hj]
    · rw [hkept l fun j hj => hl j (List.mem_cons_of_mem i hj)]
      exact applyStores_miss (hl i List.mem_cons_self m)

theorem exists_completes [Fintype ι] (tasks : ι → Task β) (m : Memory β) :
    ∃ m', Completes tasks m m' := by
  have hinit : (launch tasks m).Reachable (m, fun _ => none) := ⟨_, [], rfl, .nil _⟩
  obtain ⟨m', status, hr, hst, -⟩ :=
    reachable_tasks Finset.univ.toList (Finset.nodup_toList _) hinit fun _ _ => rfl
  exact ⟨m', status, hr, fun i => by rw [hst i]; simp⟩

/-- Some interleaving runs task `i` first; no other task's stores undo what it did. -/
theorem exists_completes_first [Fintype ι] (tasks : ι → Task β) (m : Memory β) (i : ι) :
    ∃ m', Completes tasks m m' ∧ ∀ l, (∀ j, j ≠ i → ∀ seen, l ∉ locs ((tasks j).stores seen)) →
      m' l = applyStores ((tasks i).stores m) m l := by
  have hinit : (launch tasks m).Reachable (m, fun _ => none) := ⟨_, [], rfl, .nil _⟩
  have hload := hinit.step (l := i) (.inl ⟨rfl, rfl⟩)
  have hrun := reachable_stores hload (Function.update_self _ _ _)
  rw [Function.update_idem] at hrun
  obtain ⟨m', status, hr, hst, hkept⟩ := reachable_tasks (Finset.univ.toList.erase i)
    ((Finset.nodup_toList _).erase i) hrun fun j hj => Function.update_of_ne
      ((Finset.nodup_toList _).mem_erase_iff.mp hj).1 _ _
  refine ⟨m', ⟨status, hr, fun j => ?_⟩, fun l hl => hkept l fun j hj seen =>
    hl j ((Finset.nodup_toList _).mem_erase_iff.mp hj).1 seen⟩
  rw [hst j]
  by_cases hj : j = i
  · subst hj; simp
  · simp [(Finset.nodup_toList _).mem_erase_iff, hj]

/-- A complete interleaving of a race-free launch has performed the stores that
each task computes from the initial memory. -/
theorem completes_effects {tasks : ι → Task β} {m m' : Memory β} (hrf : RaceFree tasks m)
    (h : Completes tasks m m') : Effects (fun _ => True) (fun i => (tasks i).stores m) m m' where
  stored i _ l hl := completes_stored hrf.reads h
    ⟨hl, fun j hj hl' => hrf.stores i j hj.symm l hl hl'⟩
  kept _ hl := completes_kept hrf.reads h fun i => hl i trivial

/-- A race-free launch has exactly one outcome. -/
theorem completes_iff [Fintype ι] {tasks : ι → Task β} (hrf : RaceFree tasks m)
    (he : Effects (fun _ => True) (fun i => (tasks i).stores m) m m₁) :
    Completes tasks m m₂ ↔ m₂ = m₁ := by
  constructor
  · intro h
    exact (completes_effects hrf h).unique he
  · rintro rfl
    obtain ⟨m', h⟩ := exists_completes tasks m
    rwa [(completes_effects hrf h).unique he] at h

end FlashSpark.Launch
