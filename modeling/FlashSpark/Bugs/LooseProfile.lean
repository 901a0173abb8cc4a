import FlashSpark.L6Operations.Profile

/-!
# A profile may spell its numbers otherwise

`runtime/configuration.py:11-13, 43-44`. Ranks and fixed keys are compared with `!=`, which
holds an integer, a double and a boolean equal, and `IPv4Address` also takes an integer; the
ports (:35) and `roce_enabled` (:46) are checked with `type(...) is`. What was accepted is
rendered with `str`.

Counterexample: the example profile with `"context_length": 1000000.0`.

* `values_rendered`: what follows each option of the rendered arguments.
* `canonical_iff`: exactly when an accepted profile is rendered as the fixed one.
-/
namespace FlashSpark.Bugs.LooseProfile
open Py L6.Profile

/-! ## Options and their values -/

/-- What follows an option, wherever it stands. -/
def valuesOf (flag : Str) : List Json → List Json
  | a :: b :: rest => if a.eqStr flag then b :: valuesOf flag (b :: rest) else valuesOf flag (b :: rest)
  | _ => []

/-- What follows it among the literals of a chunk: one of them, or the computed argument. -/
def literalMatches (flag : Str) : List String → List (Option String)
  | [] => []
  | [a] => if py a = flag then [none] else []
  | a :: b :: rest =>
    if py a = flag then some b :: literalMatches flag (b :: rest) else literalMatches flag (b :: rest)

def pick (v : Json) : Option String → Json
  | none => v
  | some b => lit b

/-- The matches in a list of chunks, with the number of the chunk. -/
def places (flag : Str) : Nat → List (List String) → List (Nat × Option String)
  | _, [] => []
  | k, literals :: rest => (literalMatches flag literals).map (k, ·) ++ places flag (k + 1) rest

theorem valuesOf_cons {flag : Str} {v : Json} (hv : v.eqStr flag = false) (rest : List Json) :
    valuesOf flag (v :: rest) = valuesOf flag rest := by
  cases rest with
  | nil => rfl
  | cons b rest => rw [valuesOf, hv, if_neg Bool.false_ne_true]

theorem lit_eqStr (a : String) (flag : Str) : (lit a).eqStr flag = decide (py a = flag) := rfl

theorem lit_ne {a : String} {flag : Str} (h : ¬py a = flag) : (lit a).eqStr flag = false := decide_eq_false h

theorem valuesOf_literals {flag : Str} {v : Json} (hv : v.eqStr flag = false) (literals : List String)
    (rest : List Json) :
    valuesOf flag (literals.map lit ++ v :: rest) =
      (literalMatches flag literals).map (pick v) ++ valuesOf flag rest := by
  fun_induction literalMatches flag literals with
  | case1 => exact valuesOf_cons hv rest
  | case2 a ha =>
    rw [List.map_singleton, List.singleton_append, valuesOf, lit_eqStr, if_pos (decide_eq_true ha), valuesOf_cons hv]
    rfl
  | case3 a ha =>
    rw [List.map_singleton, List.singleton_append, valuesOf_cons (lit_ne ha), valuesOf_cons hv]
    rfl
  | case4 a b literals ha ih =>
    rw [List.map_cons, List.map_cons, List.cons_append, List.cons_append, valuesOf, lit_eqStr,
      if_pos (decide_eq_true ha)]
    exact congrArg (lit b :: ·) ih
  | case5 a b literals ha ih =>
    rw [List.map_cons, List.cons_append, valuesOf_cons (lit_ne ha)]
    exact ih

/-- Where no computed argument is the option, the literals tell its values. -/
theorem valuesOf_render {flag : Str} {chunks : List Chunk} (h : ∀ chunk ∈ chunks, chunk.2.eqStr flag = false)
    {value : Nat → Json} {k : Nat}
    (hvalue : ∀ (j : Nat) (chunk : Chunk), chunks[j]? = some chunk → value (k + j) = chunk.2) :
    valuesOf flag (render chunks) = (places flag k (chunks.map Prod.fst)).map fun p => pick (value p.1) p.2 := by
  induction chunks generalizing k with
  | nil => rfl
  | cons chunk chunks ih =>
    obtain ⟨hchunk, hchunks⟩ := List.forall_mem_cons.mp h
    have hrender : render (chunk :: chunks) = chunk.1.map lit ++ chunk.2 :: render chunks := by
      simp [render]
    have hhead : value k = chunk.2 := hvalue 0 chunk rfl
    have htail := @ih hchunks (k + 1) fun j next hj => by
      rw [show k + 1 + j = k + (j + 1) by omega]
      exact hvalue (j + 1) next hj
    rw [hrender, valuesOf_literals hchunk, htail, List.map_cons, places, List.map_append, List.map_map, ← hhead]
    rfl

/-! ## The fixed profile -/

/-- The options of the fixed keys, as the fixed profile spells them. -/
def fixedFlags : List (String × String) :=
  [("--tp-size", "4"), ("--ep-size", "4"), ("--context-length", "1000000"), ("--max-running-requests", "8"),
   ("--max-total-tokens", "4000000"), ("--chunked-prefill-size", "2048"), ("--max-prefill-tokens", "2048"),
   ("--mem-fraction-static", "0.8"), ("--speculative-dspark-block-size", "5"), ("--min-free-slots-delay", "1")]

def fixedVariables : List (String × String) :=
  [("DSV41_IO_THREADS", "96"), ("DSV41_CACHE_GIB", "0"), ("DSV41_RESIDENT_SCALES", "0"), ("NNODES", "4")]

/-- Worker `i` of a profile, and what is rendered for it. -/
structure CanonicalNode (c : Json) (i : Nat) (node : Json) : Prop where
  rank : node.item (py "rank") = .ok (.int i)
  ip : ∃ a, node.item (py "ip") = .ok (.str (ipv4Text a)) ∧ ipv4Address (.str (ipv4Text a)) = .ok a
  args : ∃ rank args, node.item (py "rank") = .ok rank ∧ engineArgs c rank = .ok args ∧
    (∀ f ∈ fixedFlags, valuesOf (py f.1) args = [lit f.2]) ∧ valuesOf (py "--node-rank") args = [.str (natText i)]
  env : ∃ rank env, node.item (py "rank") = .ok rank ∧ environment c rank = .ok env ∧
    ∀ f ∈ fixedVariables, env.lookup (py f.1) = some (lit f.2)

def Canonical (c : Json) : Prop := ∃ nodes, c.item (py "workers") = .ok (.arr nodes) ∧ nodes.length = 4 ∧
  ∀ (i : Nat) (node : Json), nodes[i]? = some node → CanonicalNode c i node

/-- The fixed profile spells the integers as `str` does. -/
theorem fixed_texts : py "1000000" = natText 1000000 ∧ py "8" = natText 8 ∧ py "4000000" = natText 4000000 ∧
    py "2048" = natText 2048 ∧ py "96" = natText 96 := by decide +kernel

def IsInt (c : Json) (key : String) : Prop := ∃ n, c.item (py key) = .ok (.int n)

/-- The types the checks do not look at. -/
structure Strict (doc : Json) : Prop where
  workers : ∀ workers raw, doc.item (py "workers") = .ok workers → workers.iter = .ok raw →
    ∀ node ∈ raw, IsInt node "rank" ∧ IsStr node "ip"
  numbers : ∀ key ∈ ["context_length", "max_running_requests", "max_total_tokens", "chunked_prefill_size",
    "max_prefill_tokens", "io_threads"], IsInt doc key

/-! ## What follows each option -/

/-- The options of the fixed keys and of the rank: each stands in one chunk, before a literal or
at its end. -/
def standing : List (String × List (Nat × Option String)) :=
  [("--tp-size", [(1, some "4")]), ("--ep-size", [(1, some "4")]), ("--context-length", [(3, none)]),
   ("--max-running-requests", [(4, none)]), ("--max-total-tokens", [(7, none)]),
   ("--chunked-prefill-size", [(5, none)]), ("--max-prefill-tokens", [(6, none)]),
   ("--mem-fraction-static", [(8, none)]),
   ("--speculative-dspark-block-size", [(9, some "5")]), ("--min-free-slots-delay", [(0, some "1")]),
   ("--node-rank", [(1, none)])]

def flags : List String := standing.map Prod.fst

/-- The literals are the same for all texts. -/
def blank : Texts := ⟨[], [], [], [], [], [], [], [], [], .null, []⟩

theorem standing_places (t : Texts) : ∀ s ∈ standing, places (py s.1) 0 (t.chunks.map Prod.fst) = s.2 := by
  have hblank : ∀ s ∈ standing, places (py s.1) 0 (blank.chunks.map Prod.fst) = s.2 := by decide +kernel
  exact hblank

theorem spellings_not_flag : ∀ n ∈ [0, 1, 2, 3, 8, 2048, 1000000, 4000000], ∀ flag ∈ flags,
    ∀ s ∈ natText n :: Json.otherTexts n, (Json.str s).eqStr (py flag) = false := by decide +kernel

theorem spelling_not_flag {n : Nat} {v : Json} {s : Str} (h : Json.Spelling n v s)
    (hn : n ∈ [0, 1, 2, 3, 8, 2048, 1000000, 4000000]) {flag : String} (hflag : flag ∈ flags) :
    (Json.str s).eqStr (py flag) = false := by
  refine spellings_not_flag n hn flag hflag s ?_
  cases h with
  | int => exact List.mem_cons_self
  | other _ hs => exact List.mem_cons_of_mem _ hs

/-- A string with a character that no option has. -/
theorem not_flag_of_mem {s : Str} {a : Nat} (ha : a ∈ s) (hflags : ∀ flag ∈ flags, a ∉ py flag) {flag : String}
    (hflag : flag ∈ flags) : (Json.str s).eqStr (py flag) = false :=
  decide_eq_false fun h => hflags flag hflag (h ▸ ha)

section Values
variable {c rank : Json} {i : Nat} {t : Texts}

theorem chunk_not_flag (h : Rendering c rank i t) (hi : i < 4) {flag : String} (hflag : flag ∈ flags) :
    ∀ chunk ∈ t.chunks, chunk.2.eqStr (py flag) = false := by
  obtain ⟨_, -, hcontext⟩ := h.context
  obtain ⟨_, -, hrunning⟩ := h.running
  obtain ⟨_, -, hchunked⟩ := h.chunked
  obtain ⟨_, -, hprefill⟩ := h.prefill
  obtain ⟨_, -, htotal⟩ := h.total
  have hrank : i ∈ [0, 1, 2, 3, 8, 2048, 1000000, 4000000] := by
    have : i = 0 ∨ i = 1 ∨ i = 2 ∨ i = 3 := by omega
    rcases this with rfl | rfl | rfl | rfl <;> decide
  have hfraction : ∀ flag ∈ flags, (lit "0.8").eqStr (py flag) = false := by decide
  have hhost : t.host.eqStr (py flag) = false := by
    have hnone : ∀ flag ∈ flags, (ipAddress (.str (py flag))).isOk = false := by decide
    cases hhost : t.host with
    | str s =>
      refine decide_eq_false fun hs => ?_
      have haddress := h.host
      rw [hhost, hs] at haddress
      have hflagged := hnone flag hflag
      rw [haddress] at hflagged
      cases hflagged
    | _ => rfl
  have hport : (Json.str t.port).eqStr (py flag) = false := by
    obtain ⟨n, hn⟩ := h.port
    refine decide_eq_false fun hs => ?_
    have hdash : ∀ flag ∈ flags, '-'.toNat ∈ py flag := by decide
    have hmem : '-'.toNat ∈ natText n := hn ▸ hs ▸ hdash flag hflag
    exact absurd (Json.natText_digit hmem).1 (by decide)
  simp only [Texts.chunks, List.forall_mem_cons, h.fraction]
  exact ⟨not_flag_of_mem h.model (by decide) hflag, spelling_not_flag h.rank hrank hflag,
    not_flag_of_mem h.address (by decide) hflag, spelling_not_flag hcontext (by decide) hflag,
    spelling_not_flag hrunning (by decide) hflag, spelling_not_flag hchunked (by decide) hflag,
    spelling_not_flag hprefill (by decide) hflag, spelling_not_flag htotal (by decide) hflag,
    hfraction flag hflag, hhost, hport, nofun⟩

/-- The computed argument at the end of a chunk. -/
def computed (t : Texts) (k : Nat) : Json := (t.chunks[k]?).elim .null Prod.snd

theorem values_rendered (h : Rendering c rank i t) (hi : i < 4) {s : String × List (Nat × Option String)}
    (hs : s ∈ standing) : valuesOf (py s.1) (render t.chunks) = s.2.map fun p => pick (computed t p.1) p.2 := by
  have hflag : s.1 ∈ flags := List.mem_map_of_mem hs
  have hvalue (j : Nat) (chunk : Chunk) (hj : t.chunks[j]? = some chunk) : computed t (0 + j) = chunk.2 := by
    rw [Nat.zero_add, computed, hj]
    rfl
  rw [valuesOf_render (chunk_not_flag h hi hflag) hvalue, standing_places t s hs]

end Values

/-! ## When an accepted profile is canonical -/

section Canonical
variable {doc c : Json} {nodes : List Json}

/-- A rendered integer key is spelled as the integer if and only if it is one. -/
theorem spelled_iff {key : String} {n : Nat} {s : Str} (h : ∃ v, c.item (py key) = .ok v ∧ Json.Spelling n v s) :
    s = natText n ↔ IsInt c key := by
  obtain ⟨v, hv, hspelling⟩ := h
  rw [hspelling.int_iff]
  constructor
  · rintro ⟨m, rfl⟩
    exact ⟨m, hv⟩
  · rintro ⟨m, hm⟩
    rw [hv] at hm
    exact ⟨m, Except.ok.inj hm⟩

theorem canonicalNode_of_ints (h : Accepted c nodes) {i : Nat} {node : Json} (hnode : nodes[i]? = some node)
    (hints : IsInt node "rank" ∧ IsStr node "ip")
    (hnumbers : ∀ key ∈ ["context_length", "max_running_requests", "max_total_tokens", "chunked_prefill_size",
      "max_prefill_tokens", "io_threads"], IsInt c key) : CanonicalNode c i node := by
  have hi : i < 4 := h.length ▸ (List.getElem?_eq_some_iff.mp hnode).1
  obtain ⟨⟨n, hn⟩, s, hs⟩ := hints
  obtain ⟨rank, hrank, heq⟩ := h.rank i node hnode
  obtain rfl : Json.int n = rank := Except.ok.inj (hn.symm.trans hrank)
  obtain rfl : n = i := by
    rcases Json.eqNum_cases heq with ⟨m, hm, hmi⟩ | ⟨b, hb, -⟩ | ⟨x, hx, -⟩
    · obtain rfl := Json.int.inj hm
      exact_mod_cast hmi
    · cases hb
    · cases hx
  obtain ⟨t, ht⟩ := engineArgs_accepted h hi heq
  obtain ⟨roce, source, threads, socket, interface, hcas, v, henv, hv, hthreads⟩ := environment_accepted h hi heq
  refine ⟨hn, ?_, ⟨_, _, hn, ht.args, ?_, ?_⟩, ⟨_, _, hn, henv, ?_⟩⟩
  · obtain ⟨ip, a, hip, ha⟩ := h.ip node (List.mem_of_getElem? hnode)
    obtain rfl : Json.str s = ip := Except.ok.inj (hs.symm.trans hip)
    have htext : ipv4Text a = s := ipv4Address_text ha
    exact ⟨a, htext ▸ hs, htext ▸ ha⟩
  · have hcontext := (spelled_iff ht.context).mpr (hnumbers _ (by decide))
    have hrunning := (spelled_iff ht.running).mpr (hnumbers _ (by decide))
    have htotal := (spelled_iff ht.total).mpr (hnumbers _ (by decide))
    have hchunked := (spelled_iff ht.chunked).mpr (hnumbers _ (by decide))
    have hprefill := (spelled_iff ht.prefill).mpr (hnumbers _ (by decide))
    have hvalues (j : Nat) {flag : String} {ps : List (Nat × Option String)} (hj : standing[j]? = some (flag, ps)) :
        valuesOf (py flag) (render t.chunks) = ps.map fun p => pick (computed t p.1) p.2 :=
      values_rendered ht hi (List.mem_of_getElem? hj)
    have hspelled {s s' : Str} (hs : s = s') : [Json.str s] = [Json.str s'] := by rw [hs]
    obtain ⟨hmillion, height, hfour, htwo, -⟩ := fixed_texts
    simp only [fixedFlags, List.forall_mem_cons]
    exact ⟨hvalues 0 rfl, hvalues 1 rfl, (hvalues 2 rfl).trans (hspelled (hcontext.trans hmillion.symm)),
      (hvalues 3 rfl).trans (hspelled (hrunning.trans height.symm)),
      (hvalues 4 rfl).trans (hspelled (htotal.trans hfour.symm)),
      (hvalues 5 rfl).trans (hspelled (hchunked.trans htwo.symm)),
      (hvalues 6 rfl).trans (hspelled (hprefill.trans htwo.symm)), (hvalues 7 rfl).trans (hspelled ht.fraction),
      hvalues 8 rfl, hvalues 9 rfl, nofun⟩
  · have hrankText := ht.rank.int_iff.mpr ⟨_, rfl⟩
    have hvalues := values_rendered ht hi (List.mem_of_getElem? (show standing[10]? = _ from rfl))
    exact hvalues.trans (congrArg (fun s => [Json.str s]) hrankText)
  · have hthreads := (spelled_iff ⟨v, hv, hthreads⟩).mpr (hnumbers "io_threads" (by decide))
    subst hthreads
    simp only [fixedVariables, List.forall_mem_cons, envVars, List.map_cons]
    exact ⟨rfl, rfl, rfl, rfl, nofun⟩

theorem ints_of_canonicalNode (h : Accepted c nodes) {i : Nat} {node : Json} (hnode : nodes[i]? = some node)
    (hcanonical : CanonicalNode c i node) :
    ∀ key ∈ ["context_length", "max_running_requests", "max_total_tokens", "chunked_prefill_size",
      "max_prefill_tokens", "io_threads"], IsInt c key := by
  have hi : i < 4 := h.length ▸ (List.getElem?_eq_some_iff.mp hnode).1
  obtain ⟨rank, hrank, heq⟩ := h.rank i node hnode
  obtain ⟨t, ht⟩ := engineArgs_accepted h hi heq
  obtain ⟨roce, source, threads, socket, interface, hcas, v, henv, hv, hthreads⟩ := environment_accepted h hi heq
  obtain ⟨rank', args, hrank', hargs, hflags, -⟩ := hcanonical.args
  obtain ⟨rank'', env, hrank'', henv', hvariables⟩ := hcanonical.env
  obtain rfl : rank = rank' := Except.ok.inj (hrank.symm.trans hrank')
  obtain rfl : rank = rank'' := Except.ok.inj (hrank.symm.trans hrank'')
  obtain rfl : render t.chunks = args := Except.ok.inj (ht.args.symm.trans hargs)
  obtain rfl : envVars roce source threads socket interface hcas = env := Except.ok.inj (henv.symm.trans henv')
  -- the option is followed by what was computed, and by the fixed spelling
  have hspelled (j : Nat) {flag text : String} {k n : Nat} {s : Str} (hj : standing[j]? = some (flag, [(k, none)]))
      (hk : computed t k = .str s) (hfixed : fixedFlags[j]? = some (flag, text)) (htext : py text = natText n) :
      s = natText n := by
    have hvalues := hflags _ (List.mem_of_getElem? hfixed)
    rw [values_rendered ht hi (List.mem_of_getElem? hj), List.map_singleton, List.singleton_inj, pick, hk] at hvalues
    exact (Json.str.inj hvalues).trans htext
  have hvariable := hvariables ("DSV41_IO_THREADS", "96") List.mem_cons_self
  simp only [envVars, List.map_cons] at hvariable
  obtain ⟨hmillion, height, hfour, htwo, hninetySix⟩ := fixed_texts
  simp only [List.forall_mem_cons]
  exact ⟨(spelled_iff ht.context).mp (hspelled 2 rfl rfl rfl hmillion),
    (spelled_iff ht.running).mp (hspelled 3 rfl rfl rfl height),
    (spelled_iff ht.total).mp (hspelled 4 rfl rfl rfl hfour),
    (spelled_iff ht.chunked).mp (hspelled 5 rfl rfl rfl htwo),
    (spelled_iff ht.prefill).mp (hspelled 6 rfl rfl rfl htwo),
    (spelled_iff ⟨v, hv, hthreads⟩).mp ((Json.str.inj (Option.some.inj hvariable)).trans hninetySix), nofun⟩

/-- The fields that `load` returns unchanged, and the workers it has ordered. -/
theorem load_items (h : load doc = .ok c) : ∃ nodes,
    (∃ workers raw, doc.item (py "workers") = .ok workers ∧ workers.iter = .ok raw ∧ nodes.Perm raw) ∧
      Accepted c nodes ∧ c.item (py "workers") = .ok (.arr nodes) ∧
      ∀ key ∈ ["context_length", "max_running_requests", "max_total_tokens", "chunked_prefill_size",
        "max_prefill_tokens", "io_threads"], c.item (py key) = doc.item (py key) := by
  obtain ⟨nodes, hraw, haccepted, hitem⟩ := load_accepted h
  have hsame (key : Str) (hkey : key ≠ py "workers") : c.item key = doc.item key := by rw [hitem, if_neg hkey]
  have hkeys : ∀ key ∈ ["context_length", "max_running_requests", "max_total_tokens", "chunked_prefill_size",
      "max_prefill_tokens", "io_threads"], py key ≠ py "workers" := by decide
  exact ⟨nodes, hraw, haccepted.of_items hsame, by rw [hitem, if_pos rfl], fun key hkey => hsame _ (hkeys key hkey)⟩

theorem strict_of_canonical (h : load doc = .ok c) (hcanonical : Canonical c) : Strict doc := by
  obtain ⟨nodes, ⟨workers, raw, hworkers, hraw, hperm⟩, haccepted, hnodes, hsame⟩ := load_items h
  obtain ⟨nodes', hnodes', -, hcanonical⟩ := hcanonical
  obtain rfl : nodes = nodes' := Json.arr.inj (Except.ok.inj (hnodes.symm.trans hnodes'))
  refine ⟨fun workers' raw' hworkers' hraw' node hnode => ?_, fun key hkey => ?_⟩
  · obtain rfl : workers = workers' := Except.ok.inj (hworkers.symm.trans hworkers')
    obtain rfl : raw = raw' := Except.ok.inj (hraw.symm.trans hraw')
    obtain ⟨i, hi⟩ := List.mem_iff_getElem?.mp (hperm.mem_iff.mpr hnode)
    obtain ⟨a, ha, -⟩ := (hcanonical i node hi).ip
    exact ⟨⟨i, (hcanonical i node hi).rank⟩, ipv4Text a, ha⟩
  · have hlength : 0 < nodes.length := by rw [haccepted.length]; decide
    have hfirst : nodes[0]? = some nodes[0] := List.getElem?_eq_getElem hlength
    rw [IsInt, ← hsame key hkey]
    exact ints_of_canonicalNode haccepted hfirst (hcanonical 0 _ hfirst) key hkey

theorem canonical_of_strict (h : load doc = .ok c) (hstrict : Strict doc) : Canonical c := by
  obtain ⟨nodes, ⟨workers, raw, hworkers, hraw, hperm⟩, haccepted, hnodes, hsame⟩ := load_items h
  refine ⟨nodes, hnodes, haccepted.length, fun i node hnode => ?_⟩
  have hmem := hperm.mem_iff.mp (List.mem_of_getElem? hnode)
  have hints := hstrict.workers workers raw hworkers hraw node hmem
  refine canonicalNode_of_ints haccepted hnode hints fun key hkey => ?_
  rw [IsInt, hsame key hkey]
  exact hstrict.numbers key hkey

end Canonical

/-- **When an accepted profile is canonical.** Exactly when the ranks and the rendered fixed
keys are integers and the addresses are strings in the document. -/
theorem canonical_iff {doc c : Json} (h : load doc = .ok c) : Canonical c ↔ Strict doc :=
  ⟨strict_of_canonical h, canonical_of_strict h⟩

/-! ## A profile that is accepted -/

def worker (rank : Int) (ip : String) : Json :=
  .obj [(py "rank", .int rank), (py "host", .str (py "operator@" ++ py ip)), (py "ip", lit ip)]

def fourWorkers : List Json :=
  [worker 0 "192.0.2.11", worker 1 "192.0.2.12", worker 2 "192.0.2.13", worker 3 "192.0.2.14"]

/-- `configs/cluster.example.json`, but for the context length. -/
def exampleProfile (context : Json) : Json :=
  .obj ([("name", lit "nvme-roce-01"), ("image", lit "deepseek-v41-sglang4:tp4-nvme"),
    ("expected_image_id", .null), ("model_store", lit "/srv/models"),
    ("model_subpath", lit "DeepSeek-V4.1-Flash"), ("run_dir", lit "/srv/sglang4/nvme-roce-01"),
    ("engram_dir", lit "/srv/sglang4/engram-tp4"), ("head_ip", lit "192.0.2.11"),
    ("fabric_interface", lit "enp1s0f0np0"), ("nccl_hcas", lit "=rocep1s0f0:1,roceP2p1s0f0:1"),
    ("dist_port", .int 29649), ("api_host", lit "127.0.0.1"), ("api_port", .int 8004), ("nccl_test_port", .int 29659),
    ("tp_size", .int 4), ("ep_size", .int 4), ("context_length", context), ("max_running_requests", .int 8),
    ("max_total_tokens", .int 4000000), ("chunked_prefill_size", .int 2048), ("max_prefill_tokens", .int 2048),
    ("mem_fraction_static", .float (.finite fraction80)), ("draft_length", .int 5), ("min_free_slots_delay", .int 1),
    ("minimum_available_gib", .int 2), ("io_threads", .int 96), ("row_cache_gib", .int 0),
    ("resident_scales", .bool false), ("roce_enabled", .bool true), ("workers", .arr fourWorkers)].map
      fun field => (py field.1, field.2))

theorem load_of_isOk {doc : Json} (h : (load doc).isOk = true) : ∃ c, load doc = .ok c := by
  cases hload : load doc with
  | ok c => exact ⟨c, rfl⟩
  | error e =>
    rw [hload] at h
    cases h

theorem exampleProfile_canonical : ∃ c, load (exampleProfile (.int 1000000)) = .ok c ∧ Canonical c := by
  have hok : (load (exampleProfile (.int 1000000))).isOk = true := by decide +kernel
  obtain ⟨c, hc⟩ := load_of_isOk hok
  refine ⟨c, hc, (canonical_iff hc).mpr ⟨fun workers raw hworkers hraw => ?_, ?_⟩⟩
  · obtain rfl : Json.arr fourWorkers = workers := Except.ok.inj hworkers
    obtain rfl : fourWorkers = raw := Except.ok.inj hraw
    simp only [fourWorkers, List.forall_mem_cons]
    exact ⟨⟨⟨_, rfl⟩, _, rfl⟩, ⟨⟨_, rfl⟩, _, rfl⟩, ⟨⟨_, rfl⟩, _, rfl⟩, ⟨⟨_, rfl⟩, _, rfl⟩, nofun⟩
  · simp only [List.forall_mem_cons]
    exact ⟨⟨_, rfl⟩, ⟨_, rfl⟩, ⟨_, rfl⟩, ⟨_, rfl⟩, ⟨_, rfl⟩, ⟨_, rfl⟩, nofun⟩

def million : Finite where
  neg := false
  mag := 1000000
  exact := ⟨1000000, 0, by decide, by decide, by decide, by norm_num⟩

/-- With a double for the context length the profile is accepted, and it is not canonical: the
text of the double is `1000000.0`. -/
theorem million_not_canonical : ∃ c, load (exampleProfile (.float (.finite million))) = .ok c ∧ ¬Canonical c := by
  have hok : (load (exampleProfile (.float (.finite million)))).isOk = true := by decide +kernel
  obtain ⟨c, hc⟩ := load_of_isOk hok
  refine ⟨c, hc, fun hcanonical => ?_⟩
  obtain ⟨n, hn⟩ := (strict_of_canonical hc hcanonical).numbers "context_length" List.mem_cons_self
  have hfloat :
      (exampleProfile (.float (.finite million))).item (py "context_length") = .ok (.float (.finite million)) := rfl
  rw [hfloat] at hn
  cases hn

end FlashSpark.Bugs.LooseProfile
