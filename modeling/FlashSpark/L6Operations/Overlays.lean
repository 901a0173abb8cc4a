import FlashSpark.Core.Raise
import FlashSpark.Core.PosixPath
import FlashSpark.Core.Mem

/-!
# Installing the overlays

`scripts/apply-overlays.py` checks every entry of `manifest.json` and then copies the files
(:8-28). The file system keeps its links while it runs: `locate` says which file or directory
a path leads to, once the directories on its way exist, and two paths may lead to one file.

* `verified_reads`: the checks change nothing.
* `copyOne_writes`, `install_writes`: what one copy and what all of them leave.
* `apply_verifies_then_copies`: a run that raises in the checks leaves the disk as it was; a
  run that returns leaves every entry's hash at its target if and only if no two entries with
  different hashes share their file, as in a tree without links.
-/
namespace FlashSpark.L6.Overlays
open Py

/-- A path, part by part from the root. -/
abbrev Place := List Str

structure Disk (Loc : Type) where
  files : Loc → Option Bytes
  dirs : Loc → Bool

/-- The calls the system may refuse. -/
inductive Call where
  | stat
  | read
  | mkdir
  | copy

/-- What stays the same while the script runs. `refuses i call place`: the system refuses the
call that entry `i` makes there; `torn i`: what an unfinished copy has left. -/
structure World (Loc : Type) where
  source : Place
  target : Place
  locate : Place → Loc
  sha256 : Bytes → Str
  refuses : Nat → Call → Place → Bool
  torn : Nat → Option Bytes

variable {Loc : Type}

/-! ## The file system -/

/-- The directories above a place, from the root down. -/
def above (place : Place) : List Place := (List.range place.length).map place.take

/-- The directories on the way exist. -/
def World.reaches (w : World Loc) (disk : Disk Loc) (place : Place) : Bool :=
  (above place).all fun dir => disk.dirs (w.locate dir)

/-- `path.exists()` -/
def World.exists (w : World Loc) (i : Nat) (place : Place) : EStateM Error (Disk Loc) Bool := do
  require (w.refuses i .stat place = false) .os
  let disk ← get
  pure (w.reaches disk place && ((disk.files (w.locate place)).isSome || disk.dirs (w.locate place)))

/-- `path.read_bytes()` -/
def World.readBytes (w : World Loc) (i : Nat) (place : Place) : EStateM Error (Disk Loc) Bytes := do
  require (w.refuses i .read place = false) .os
  let disk ← get
  require (w.reaches disk place) .os
  unwrap (disk.files (w.locate place)) .os

/-- `os.mkdir(path)`, where there is no directory yet. -/
def World.mkdir [DecidableEq Loc] (w : World Loc) (i : Nat) (place : Place) : EStateM Error (Disk Loc) Unit := do
  let disk ← get
  if disk.dirs (w.locate place) then pure ()
  else
    require ((disk.files (w.locate place)).isNone ∧ w.refuses i .mkdir place = false) .os
    modify fun disk => { disk with dirs := Function.update disk.dirs (w.locate place) true }

/-- `shutil.copyfile(src, dst)`: the same file is refused, and a copy that fails may have
written already. -/
def World.copyfile [DecidableEq Loc] (w : World Loc) (i : Nat) (src dst : Place) : EStateM Error (Disk Loc) Unit := do
  let bytes ← w.readBytes i src
  require (w.locate src ≠ w.locate dst) .os
  let disk ← get
  require (w.reaches disk dst ∧ disk.dirs (w.locate dst) = false ∧ w.refuses i .copy dst = false) .os
  let write b : EStateM Error (Disk Loc) Unit :=
    modify fun disk => { disk with files := Function.update disk.files (w.locate dst) (some b) }
  match w.torn i with
  | some b => do
    write b
    throw .os
  | none => write bytes

/-! ## The script -/

structure Checked where
  replacement : Place
  original : Place
  expected : Json

def World.original (w : World Loc) (name : Str) : Place := w.target ++ (Path.parse name).parts

def World.replacement (w : World Loc) (name : Str) : Place := w.source ++ py "source" :: (Path.parse name).parts

/-- mirrors scripts/apply-overlays.py:16-20 -/
def World.checkBase (w : World Loc) (i : Nat) (name : Str) (before : Json) : EStateM Error (Disk Loc) Unit :=
  match before with
  | .null => do
    let present ← w.exists i (w.original name)
    require (present = false) (.value (py "New source already exists: " ++ name))
  | before => do
    let bytes ← w.readBytes i (w.original name)
    require (before.eqStr (w.sha256 bytes)) (.value (py "Base source differs: " ++ name))

/-- mirrors scripts/apply-overlays.py:12-23, one turn -/
def World.check (w : World Loc) (i : Nat) (name : Str) (hashes : Json) : EStateM Error (Disk Loc) Checked := do
  let relative := Path.parse name
  require (relative.isAbsolute = false ∧ relative.hasDotDot = false) (.value (py "Unsafe overlay path: " ++ name))
  let before ← perform (hashes.item (py "before_sha256"))
  w.checkBase i name before
  let bytes ← w.readBytes i (w.replacement name)
  let after ← perform (hashes.item (py "after_sha256"))
  require (after.eqStr (w.sha256 bytes)) (.value (py "Overlay source differs: " ++ name))
  pure ⟨w.replacement name, w.original name, after⟩

/-- mirrors scripts/apply-overlays.py:9-23 -/
def World.verified (w : World Loc) (manifest : Json) : EStateM Error (Disk Loc) (List Checked) := do
  let entries ← perform manifest.items
  gather (fun i entry => w.check i entry.1 entry.2) 0 entries

/-- mirrors scripts/apply-overlays.py:24-27, one turn -/
def World.copyOne [DecidableEq Loc] (w : World Loc) (i : Nat) (c : Checked) : EStateM Error (Disk Loc) Unit := do
  each (above c.original) (w.mkdir i)
  w.copyfile i c.replacement c.original
  let bytes ← w.readBytes i c.original
  require (c.expected.eqStr (w.sha256 bytes)) .assertion

def World.install [DecidableEq Loc] (w : World Loc) : Nat → List Checked → EStateM Error (Disk Loc) Unit
  | _, [] => pure ()
  | i, c :: cs => do
    w.copyOne i c
    w.install (i + 1) cs

/-- mirrors scripts/apply-overlays.py:8-28 (`apply`); `manifest`: what `json.loads` gives -/
def World.apply [DecidableEq Loc] (w : World Loc) (manifest : Json) : EStateM Error (Disk Loc) Nat := do
  let checked ← w.verified manifest
  w.install 0 checked
  pure checked.length

/-! ## The checks read only -/

section Checks
variable {w : World Loc} {d : Disk Loc} {i : Nat}

theorem readBytes_reads (place : Place) :
    Reads d (w.readBytes i place) fun bytes => d.files (w.locate place) = some bytes := by
  refine Reads.require.bind fun _ _ => ?_
  refine Reads.get.bind fun disk hdisk => ?_
  subst hdisk
  exact Reads.require.bind fun _ _ => Reads.unwrap

theorem exists_reads (place : Place) : Reads d (w.exists i place) fun _ => True :=
  Reads.require.bind fun _ _ => Reads.get.bind fun _ _ => Reads.ret trivial

theorem checkBase_reads (name : Str) (before : Json) : Reads d (w.checkBase i name before) fun _ => True := by
  have hread : Reads d (do
      let bytes ← w.readBytes i (w.original name)
      require (before.eqStr (w.sha256 bytes)) (.value (py "Base source differs: " ++ name))) fun _ => True :=
    (readBytes_reads _).bind fun _ _ => Reads.require.weaken fun _ _ => trivial
  cases before with
  | null => exact (exists_reads _).bind fun _ _ => Reads.require.weaken fun _ _ => trivial
  | _ => exact hread

/-- An entry passed its checks on the disk `d`. -/
structure Passed (w : World Loc) (d : Disk Loc) (entry : Str × Json) (c : Checked) : Prop where
  original : c.original = w.original entry.1
  replacement : c.replacement = w.replacement entry.1
  expected : entry.2.item (py "after_sha256") = .ok c.expected
  source : ∃ bytes, d.files (w.locate c.replacement) = some bytes ∧ c.expected.eqStr (w.sha256 bytes) = true

theorem check_reads (name : Str) (hashes : Json) :
    Reads d (w.check i name hashes) (Passed w d (name, hashes)) := by
  refine Reads.require.bind fun _ _ => ?_
  refine Reads.perform.bind fun before _ => ?_
  refine (checkBase_reads name before).bind fun _ _ => ?_
  refine (readBytes_reads _).bind fun bytes hbytes => ?_
  refine Reads.perform.bind fun after hafter => ?_
  refine Reads.require.bind fun _ hsha => ?_
  exact Reads.ret ⟨rfl, rfl, hafter, bytes, hbytes, hsha⟩

theorem verified_reads (manifest : Json) :
    Reads d (w.verified manifest) fun checked =>
      ∃ entries, manifest.items = .ok entries ∧ List.Forall₂ (Passed w d) entries checked := by
  refine Reads.perform.bind fun entries hentries => ?_
  refine (Reads.gather (fun i entry => ?_) 0 entries).weaken fun checked hchecked => ⟨entries, hentries, hchecked⟩
  exact check_reads entry.1 entry.2

end Checks

/-! ## What the copies leave -/

section Copies
variable [DecidableEq Loc] {w : World Loc} {files : Loc → Option Bytes}

theorem mkdir_files (i : Nat) (place : Place) :
    Ends (fun d => d.files = files) (w.mkdir i place) (fun _ d => d.files = files) (fun _ _ => True) := by
  refine .get_then fun s₀ hs₀ => ?_
  split
  · exact .ret fun s hs => hs ▸ hs₀
  · refine .require_then (fun _ => ?_) fun _ _ _ => trivial
    exact .update fun s hs => hs ▸ hs₀

theorem copyfile_files (i : Nat) (src dst : Place) :
    Ends (fun d => d.files = files) (w.copyfile i src dst)
      (fun _ d => ∃ bytes, d.files = Function.update files (w.locate dst) (some bytes)) (fun _ _ => True) := by
  refine .bind _ (Reads.ends (fun _ _ => readBytes_reads src) fun _ _ _ => trivial) fun bytes => ?_
  refine .require_then (fun _ => ?_) fun _ _ _ => trivial
  refine .get_then fun s₀ hs₀ => ?_
  refine .require_then (fun _ => ?_) fun _ _ _ => trivial
  cases w.torn i with
  | some b => exact .bind (fun _ _ => True) (.update fun _ _ => trivial) fun _ => .raise fun _ _ => trivial
  | none => exact .update fun s hs => ⟨bytes, by rw [hs, hs₀.1]⟩

/-- One copy writes one file, and what it wrote has the digest. -/
theorem copyOne_writes (i : Nat) (c : Checked) :
    Ends (fun d => d.files = files) (w.copyOne i c)
      (fun _ d => ∃ bytes, d.files = Function.update files (w.locate c.original) (some bytes) ∧
        c.expected.eqStr (w.sha256 bytes) = true)
      (fun _ _ => True) := by
  refine .bind _ (Ends.each (fun _ (d : Disk Loc) => d.files = files) fun place _ => mkdir_files i place) fun _ => ?_
  refine .bind _ (copyfile_files i c.replacement c.original) fun _ => ?_
  refine .bind _ (Reads.ends (fun _ _ => readBytes_reads c.original) fun _ _ _ => trivial) fun read => ?_
  refine .mono (Reads.ends (fun _ _ => Reads.require) fun _ _ _ => trivial) (fun _ hs => hs) (fun _ d hd => ?_)
    fun _ _ h => h
  obtain ⟨⟨⟨bytes, hfiles⟩, hread⟩, hsha⟩ := hd
  rw [hfiles, Function.update_self] at hread
  obtain rfl := Option.some.inj hread
  exact ⟨bytes, hfiles, hsha⟩

/-- The files after some copies, from the files before. A file that several of them wrote is as
one of them, the last, left it. -/
structure Installed (w : World Loc) (files : Loc → Option Bytes) (checked : List Checked)
    (after : Loc → Option Bytes) : Prop where
  outside : ∀ loc, (∀ c ∈ checked, w.locate c.original ≠ loc) → after loc = files loc
  inside : ∀ c ∈ checked, ∃ c' ∈ checked, w.locate c'.original = w.locate c.original ∧
    ∃ bytes, after (w.locate c.original) = some bytes ∧ c'.expected.eqStr (w.sha256 bytes) = true

theorem Installed.cons {c : Checked} {cs : List Checked} {bytes : Bytes} {after : Loc → Option Bytes}
    (hsha : c.expected.eqStr (w.sha256 bytes) = true)
    (h : Installed w (Function.update files (w.locate c.original) (some bytes)) cs after) :
    Installed w files (c :: cs) after where
  outside loc hloc := by
    have hc := hloc c List.mem_cons_self
    rw [h.outside loc fun x hx => hloc x (List.mem_cons_of_mem _ hx), Function.update_of_ne (Ne.symm hc)]
  inside x hx := by
    by_cases hlater : ∃ y ∈ cs, w.locate y.original = w.locate x.original
    · obtain ⟨y, hy, hsame⟩ := hlater
      obtain ⟨z, hz, hloc, b, hfile, hb⟩ := h.inside y hy
      exact ⟨z, List.mem_cons_of_mem _ hz, hloc.trans hsame, b, hsame ▸ hfile, hb⟩
    · -- no later copy writes this file, so it is the one just written
      have hnone (y : Checked) (hy : y ∈ cs) : w.locate y.original ≠ w.locate x.original :=
        fun hsame => hlater ⟨y, hy, hsame⟩
      obtain rfl : x = c := by
        rcases List.mem_cons.mp hx with rfl | hx
        · rfl
        · exact absurd rfl (hnone x hx)
      refine ⟨x, List.mem_cons_self, rfl, bytes, ?_, hsha⟩
      rw [h.outside _ hnone, Function.update_self]

theorem install_writes (i : Nat) (checked : List Checked) :
    Ends (fun d => d.files = files) (w.install i checked) (fun _ d => Installed w files checked d.files)
      (fun _ _ => True) := by
  induction checked generalizing i files with
  | nil =>
    refine .ret fun d hd => ⟨fun loc _ => by rw [hd], fun c hc => ?_⟩
    cases hc
  | cons c cs ih =>
    refine .bind _ (copyOne_writes i c) fun _ d hd => ?_
    obtain ⟨bytes, hfiles, hsha⟩ := hd
    have hrest := ih (i + 1) d hfiles
    cases hr : w.install (i + 1) cs d with
    | ok _ d' =>
      rw [hr] at hrest
      exact hrest.cons hsha
    | error _ _ => trivial

end Copies

/-! ## A whole run -/

/-- The target of the entry has the hash the manifest gives it. -/
def HasAfter (w : World Loc) (disk : Disk Loc) (entry : Str × Json) : Prop :=
  ∃ bytes, disk.files (w.locate (w.original entry.1)) = some bytes ∧
    entry.2.item (py "after_sha256") = .ok (.str (w.sha256 bytes))

/-- Entries whose targets are one file agree on its hash. -/
def SameAfter (w : World Loc) (entries : List (Str × Json)) : Prop :=
  ∀ a ∈ entries, ∀ b ∈ entries, w.locate (w.original a.1) = w.locate (w.original b.1) →
    a.2.item (py "after_sha256") = b.2.item (py "after_sha256")

/-- Different paths are different files. -/
def Unlinked (w : World Loc) (entries : List (Str × Json)) : Prop :=
  ∀ a ∈ entries, ∀ b ∈ entries, w.locate (w.original a.1) = w.locate (w.original b.1) →
    w.original a.1 = w.original b.1

section Run
variable {w : World Loc} {d : Disk Loc} {entries : List (Str × Json)} {checked : List Checked}

theorem eqStr_iff {v : Json} {s : Str} : v.eqStr s = true ↔ v = .str s := by
  cases v with
  | str t => simp [Json.eqStr]
  | _ => simp [Json.eqStr]

/-- Names that normalize to one path have one source file, and so one hash. -/
theorem Unlinked.sameAfter (hpassed : List.Forall₂ (Passed w d) entries checked) (h : Unlinked w entries) :
    SameAfter w entries := by
  intro a ha b hb hloc
  obtain ⟨ca, -, hca⟩ := forall₂_left_mem hpassed ha
  obtain ⟨cb, -, hcb⟩ := forall₂_left_mem hpassed hb
  have hparts : (Path.parse a.1).parts = (Path.parse b.1).parts := List.append_cancel_left (h a ha b hb hloc)
  have hsame : ca.replacement = cb.replacement := by
    rw [hca.replacement, hcb.replacement, World.replacement, World.replacement, hparts]
  obtain ⟨bytes, hfile, hsha⟩ := hca.source
  obtain ⟨bytes', hfile', hsha'⟩ := hcb.source
  rw [hsame, hfile'] at hfile
  obtain rfl := Option.some.inj hfile
  rw [hca.expected, hcb.expected, eqStr_iff.mp hsha, eqStr_iff.mp hsha']

/-- All targets have their hash if and only if the entries that share a file agree. -/
theorem Installed.hasAfter_iff {files after : Loc → Option Bytes} {dirs : Loc → Bool}
    (hpassed : List.Forall₂ (Passed w d) entries checked) (h : Installed w files checked after) :
    (∀ entry ∈ entries, HasAfter w ⟨after, dirs⟩ entry) ↔ SameAfter w entries := by
  constructor
  · intro hall a ha b hb hloc
    obtain ⟨bytes, hfile, hsha⟩ := hall a ha
    obtain ⟨bytes', hfile', hsha'⟩ := hall b hb
    dsimp only at hfile hfile'
    rw [hloc, hfile'] at hfile
    obtain rfl := Option.some.inj hfile
    rw [hsha, hsha']
  · intro hsame entry hentry
    obtain ⟨c, hc, hpass⟩ := forall₂_left_mem hpassed hentry
    obtain ⟨c', hc', hloc, bytes, hfile, hsha⟩ := h.inside c hc
    obtain ⟨entry', hentry', hpass'⟩ := forall₂_left_mem hpassed.flip hc'
    rw [hpass.original] at hloc hfile
    rw [hpass'.original] at hloc
    refine ⟨bytes, hfile, ?_⟩
    rw [← hsame entry' hentry' entry hentry hloc, hpass'.expected, eqStr_iff.mp hsha]

end Run

/-- **Verify all, then copy.** A run that raises in the checks leaves the disk as it was. A run
that returns has counted the entries and changed no file but their targets; the targets have
their hashes exactly when entries that share a file agree on it, as they do where different
paths are different files. -/
theorem apply_verifies_then_copies [DecidableEq Loc] (w : World Loc) (manifest : Json) (d : Disk Loc) :
    (∀ e d', w.verified manifest d = .error e d' → w.apply manifest d = .error e d' ∧ d' = d) ∧
    ∀ n d', w.apply manifest d = .ok n d' → ∃ entries, manifest.items = .ok entries ∧ n = entries.length ∧
      (∀ loc, (∀ entry ∈ entries, w.locate (w.original entry.1) ≠ loc) → d'.files loc = d.files loc) ∧
      ((∀ entry ∈ entries, HasAfter w d' entry) ↔ SameAfter w entries) ∧
      (Unlinked w entries → SameAfter w entries) := by
  have hverified := verified_reads (w := w) manifest d rfl
  refine ⟨fun e d' hraise => ?_, fun n d' hret => ?_⟩
  · rw [hraise] at hverified
    exact ⟨bind_error hraise, hverified⟩
  · cases hr : w.verified manifest d with
    | error e d' => cases (bind_error hr).symm.trans hret
    | ok checked s =>
      rw [hr] at hverified
      obtain ⟨⟨entries, hentries, hpassed⟩, rfl⟩ := hverified
      have hret := (bind_ok hr).symm.trans hret
      have hinstall := install_writes (w := w) 0 checked s rfl
      cases hi : w.install 0 checked s with
      | error e d' => cases (bind_error hi).symm.trans hret
      | ok _ s' =>
        rw [hi] at hinstall
        rw [bind_ok hi] at hret
        obtain ⟨rfl, rfl⟩ := EStateM.Result.ok.inj hret
        refine ⟨entries, hentries, hpassed.length_eq.symm, fun loc hloc => ?_, hinstall.hasAfter_iff hpassed,
          Unlinked.sameAfter hpassed⟩
        refine hinstall.outside loc fun c hc => ?_
        obtain ⟨entry, hentry, hpass⟩ := forall₂_left_mem hpassed.flip hc
        rw [hpass.original]
        exact hloc entry hentry

/-! ## A target tree with a link -/

/-- `/t/b` is a link to `/t/a`. -/
def linkedWorld : World Nat where
  source := [py "s"]
  target := [py "t"]
  locate place :=
    if place = [] then 0
    else if place = [py "s"] then 1
    else if place = [py "s", py "source"] then 2
    else if place = [py "t"] then 3
    else if place = [py "t", py "a"] ∨ place = [py "t", py "b"] then 4
    else if place = [py "s", py "source", py "a"] then 5
    else if place = [py "s", py "source", py "b"] then 6
    else 7
  -- the digests of the three files below
  sha256 bytes :=
    if bytes = [0] then py "6e340b9cffb37a989ca544e6bb780a2c78901d3fb33738768511a30617afa01d"
    else if bytes = [1] then py "4bf5122f344554c53bde2ebb8cd2b7e3d1600ad631c385a5d7cce23c7785459a"
    else py "dbc1b4c900ffe48d575b5da5c638040125f65db0fe3e24494b76ea986457d986"
  refuses _ _ _ := false
  torn _ := none

def linkedDisk : Disk Nat where
  files loc := if loc = 4 then some [0] else if loc = 5 then some [1] else if loc = 6 then some [2] else none
  dirs loc := loc < 4

def linkedEntry (name : String) (after : Bytes) : Str × Json :=
  (py name, .obj
    [(py "before_sha256", .str (linkedWorld.sha256 [0])), (py "after_sha256", .str (linkedWorld.sha256 after))])

def linkedManifest : Json := .obj [linkedEntry "a" [1], linkedEntry "b" [2]]

/-- Both entries are installed, and the first one's target has the second one's hash. -/
theorem linked_targets : ∃ d', linkedWorld.apply linkedManifest linkedDisk = .ok 2 d' ∧
    ¬HasAfter linkedWorld d' (linkedEntry "a" [1]) := by
  refine ⟨_, rfl, ?_⟩
  rintro ⟨bytes, hfile, hsha⟩
  obtain rfl : [2] = bytes := Option.some.inj hfile
  have hsame : linkedWorld.sha256 [1] = linkedWorld.sha256 [2] := Json.str.inj (Except.ok.inj hsha)
  exact absurd hsame (by decide)

end FlashSpark.L6.Overlays
