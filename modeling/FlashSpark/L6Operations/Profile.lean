import FlashSpark.Core.Raise
import FlashSpark.Core.IpAddress

/-!
# The cluster profile

`runtime/configuration.py`: `load` validates a profile and orders its workers (:8-49), and
`engine_args` (:52-81) and `environment` (:84-115) render it for one rank.

* `sortedByRank_perm`: the workers are ordered, none is lost.
* `load_accepted`: what holds of a profile that `load` accepts.
* `engineArgs_accepted`, `environment_accepted`: such a profile is rendered for every worker.
-/
namespace FlashSpark.L6.Profile
open Py

/-! ## Patterns -/

def alnum (c : Nat) : Bool := isDigit c || (65 ≤ c && c ≤ 90) || (97 ≤ c && c ≤ 122)

/-- `[A-Za-z0-9…]` -/
def among (others : String) (c : Nat) : Bool := alnum c || (py others).contains c

/-- One character of `first` and any number of `rest`. -/
def fullmatch (first rest : Nat → Bool) : Str → Bool
  | [] => false
  | c :: cs => first c && cs.all rest

/-- `[A-Za-z0-9_.-]+@[A-Za-z0-9_.-]+` -/
def isDestination (s : Str) : Bool :=
  let user := s.takeWhile (among "_.-")
  match s.drop user.length with
  | [] => false
  | c :: host => user ≠ [] && c = '@'.toNat && fullmatch (among "_.-") (among "_.-") host

def matchOrRaise (p : Str → Bool) (v : Json) (message : String) : Except Error Unit :=
  match v with
  | .str s => demand (p s) (.value (py message))
  | _ => .error .type

/-! ## The workers -/

/-- `insort` by rank, after those that are not greater. -/
def insertByRank (x : Json × Json) : List (Json × Json) → Except Error (List (Json × Json))
  | [] => .ok [x]
  | y :: ys => do
    if ← x.1.lt y.1 then pure (x :: y :: ys)
    else
      let rest ← insertByRank x ys
      pure (y :: rest)

def keyedByRank (node : Json) : Except Error (Json × Json) := do
  let rank ← node.item (py "rank")
  pure (rank, node)

/-- `sorted(workers, key=lambda node: node['rank'])` -/
def sortedByRank (workers : List Json) : Except Error (List Json) := do
  let keyed ← workers.mapM keyedByRank
  let sorted ← keyed.foldlM (fun sorted x => insertByRank x sorted) []
  pure (sorted.map Prod.snd)

def addressOf (node : Json) : Except Error Str := do
  let ip ← node.item (py "ip")
  let address ← ipv4Address ip
  pure (ipv4Text address)

/-- mirrors runtime/configuration.py:10-18 -/
def checkedWorkers (c : Json) : Except Error (List Json) := do
  let workers ← c.item (py "workers")
  let workers ← workers.iter
  let nodes ← sortedByRank workers
  let ranks ← nodes.mapM fun node => node.item (py "rank")
  demand (nodes.length = 4 ∧ ranks.zipIdx.all (fun rank => rank.1.eqNum rank.2) = true)
    (.value (py "Exactly four ranks 0..3 are required"))
  let ips ← nodes.mapM addressOf
  let distinct := "Unique node addresses and the rank-zero head address are required"
  demand ips.Nodup (.value (py distinct))
  let head ← c.item (py "head_ip")
  demand (head.eqStr (ips.headD [])) (.value (py distinct))
  nodes.forM fun node => do
    let host ← node.item (py "host")
    matchOrRaise isDestination host "Invalid SSH destination"
  pure nodes

/-! ## The other fields -/

def checkDirectory (v : Json) : Except Error Unit := do
  let p ← Path.ofJson v
  demand (p.isAbsolute ∧ p.text ≠ py "/" ∧ p.hasDotDot = false ∧ (py "\n\r\x00,").any p.text.contains = false)
    (.value (py "Use dedicated absolute paths without traversal or commas"))

def checkSubpath (v : Json) : Except Error Unit := do
  let sub ← Path.ofJson v
  demand (sub.isAbsolute = false ∧ sub.hasDotDot = false ∧ sub.parts ≠ [])
    (.value (py "Invalid model subdirectory"))

/-- `type(v) is int and 1024 <= v <= 65535` -/
def isPort : Json → Bool
  | .int n => 1024 ≤ n && n ≤ 65535
  | _ => false

def isBool : Json → Bool
  | .bool _ => true
  | _ => false

/-- mirrors runtime/configuration.py:19-35 -/
def checkFields (c : Json) : Except Error Unit := do
  ["model_store", "run_dir", "engram_dir"].forM fun key => do
    let value ← c.item (py key)
    checkDirectory value
  let sub ← c.item (py "model_subpath")
  checkSubpath sub
  ["name", "fabric_interface"].forM fun key => do
    let value ← c.item (py key)
    matchOrRaise (fullmatch alnum (among "_.-")) value "Invalid profile name or interface"
  let hcas ← c.item (py "nccl_hcas")
  matchOrRaise (fullmatch (among "=_:,.-") (among "=_:,.-")) hcas "Invalid HCA selection"
  let image ← c.item (py "image")
  matchOrRaise (fullmatch alnum (among "._/:@-")) image "Invalid image reference"
  let host ← c.item (py "api_host")
  ipAddress host
  ["dist_port", "api_port", "nccl_test_port"].forM fun key => do
    let value ← c.item (py key)
    demand (isPort value) (.value (py "Invalid port"))

/-- The double `0.80`. -/
def fraction80 : Finite where
  neg := false
  mag := 3602879701896397 / 4503599627370496
  exact := ⟨3602879701896397, -52, by decide, by decide, by decide, by norm_num⟩

/-- mirrors runtime/configuration.py:36-42 -/
def fixed : List (String × Json) :=
  [("tp_size", .int 4), ("ep_size", .int 4), ("context_length", .int 1000000), ("max_running_requests", .int 8),
   ("max_total_tokens", .int 4000000), ("chunked_prefill_size", .int 2048), ("max_prefill_tokens", .int 2048),
   ("mem_fraction_static", .float (.finite fraction80)), ("draft_length", .int 5), ("min_free_slots_delay", .int 1),
   ("minimum_available_gib", .int 2), ("io_threads", .int 96), ("row_cache_gib", .int 0),
   ("resident_scales", .bool false)]

/-- `v == value`, of a number `value` -/
def equals (v value : Json) : Bool :=
  match value.num? with
  | some (.rat q) => v.eqNum q
  | _ => false

/-- mirrors runtime/configuration.py:43-45 -/
def checkFixed (c : Json) : Except Error Unit :=
  fixed.forM fun entry => do
    let got ← c.get (py entry.1)
    let text ← entry.2.text
    demand (equals got entry.2)
      (.value (py "The initial TP4/NVMe profile requires " ++ py entry.1 ++ py "=" ++ text))

/-- mirrors runtime/configuration.py:8-49 (`load`); `c`: what `json.loads` gives -/
def load (c : Json) : Except Error Json := do
  let nodes ← checkedWorkers c
  checkFields c
  checkFixed c
  let roce ← c.item (py "roce_enabled")
  demand (isBool roce) (.value (py "roce_enabled must be a boolean"))
  c.setItem (py "workers") (.arr nodes)

/-! ## Rendering -/

def lit (s : String) : Json := .str (py s)

/-- `s + v` -/
def concat (s : Str) (v : Json) : Except Error Str :=
  match v with
  | .str t => .ok (s ++ t)
  | _ => .error .type

/-- `rank not in range(4)` raises. -/
def checkRank (rank : Json) : Except Error Unit :=
  demand ((List.range 4).any fun i => rank.eqNum i) (.value (py "Invalid TP4 rank"))

/-- Literal arguments, and the computed one that follows them. -/
abbrev Chunk := List String × Json

def render (chunks : List Chunk) : List Json := chunks.flatMap fun chunk => chunk.1.map lit ++ [chunk.2]

/-- What is computed of the arguments. -/
structure Texts where
  model : Str
  rank : Str
  address : Str
  context : Str
  running : Str
  chunked : Str
  prefill : Str
  total : Str
  fraction : Str
  host : Json
  port : Str

/-- mirrors runtime/configuration.py:56-81 -/
def Texts.chunks (t : Texts) : List Chunk :=
  [(["--min-free-slots-delay", "1", "--model-path"], .str t.model),
   (["--served-model-name", "deepseek-v41-flash", "--load-format", "safetensors", "--dtype", "bfloat16",
     "--trust-remote-code", "--tp-size", "4", "--ep-size", "4", "--nnodes", "4", "--node-rank"], .str t.rank),
   (["--dist-init-addr"], .str t.address),
   (["--attention-backend", "dsv4", "--moe-runner-backend", "flashinfer_mxfp4",
     "--speculative-moe-runner-backend", "flashinfer_mxfp4", "--fp8-gemm-backend", "flashinfer_cutlass",
     "--kv-cache-dtype", "auto", "--context-length"], .str t.context),
   (["--max-running-requests"], .str t.running),
   (["--chunked-prefill-size"], .str t.chunked),
   (["--max-prefill-tokens"], .str t.prefill),
   (["--max-total-tokens"], .str t.total),
   (["--mem-fraction-static"], .str t.fraction),
   (["--cuda-graph-max-bs-decode", "8", "--cuda-graph-bs-decode", "1", "2", "3", "4", "5", "6", "7", "8",
     "--enable-decoder-swa-bounded-replay", "--disable-custom-all-reduce", "--speculative-algorithm", "DSPARK",
     "--speculative-dspark-block-size", "5", "--speculative-accept-threshold-single", "1.0",
     "--speculative-accept-threshold-acc", "1.0", "--random-seed", "0", "--enable-multimodal",
     "--limit-mm-data-per-request", "\x7b\"image\":4,\"video\":0,\"audio\":0\x7d",
     "--default-chat-template-kwargs", "\x7b\"thinking\":false\x7d", "--tool-call-parser", "deepseekv41",
     "--reasoning-parser", "deepseek-v41", "--enable-cache-report", "--watchdog-timeout", "1800", "--host"], t.host),
   (["--port"], .str t.port)]

/-- `str(c[key])` -/
def textOf (c : Json) (key : String) : Except Error Str := do
  let value ← c.item (py key)
  value.text

/-- mirrors runtime/configuration.py:52-81 (`engine_args`) -/
def engineArgs (c rank : Json) : Except Error (List Json) := do
  checkRank rank
  let sub ← c.item (py "model_subpath")
  let model ← concat (py "/models/") sub
  let rank ← rank.text
  let head ← textOf c "head_ip"
  let port ← textOf c "dist_port"
  let context ← textOf c "context_length"
  let running ← textOf c "max_running_requests"
  let chunked ← textOf c "chunked_prefill_size"
  let prefill ← textOf c "max_prefill_tokens"
  let total ← textOf c "max_total_tokens"
  let fraction ← textOf c "mem_fraction_static"
  let host ← c.item (py "api_host")
  let api ← textOf c "api_port"
  let address := head ++ py ":" ++ port
  let texts : Texts := ⟨model, rank, address, context, running, chunked, prefill, total, fraction, host, api⟩
  pure (render texts.chunks)

/-- mirrors runtime/configuration.py:87-115 -/
def envVars (roce : Json) (source threads socket : Str) (interface hcas : Json) : List (Str × Json) :=
  [("SGLANG4_NVME_PROFILE", lit "1"), ("SGLANG8_RESIDENT_PROFILE", lit "0"),
   ("PYTHONPATH", lit "/opt/sglang4/adapter:/opt/sglang4/runtime:/opt/sglang4/b12x"),
   ("SGLANG4_ROCE_ALLREDUCE", if roce.truthy then lit "1" else lit "0"),
   ("DSV41_SOURCE", .str source),
   ("DSV41_PACKED_DIR", lit "/engram"), ("OFFLOAD_MODE", lit "nvme"),
   ("DSV41_CACHE_GIB", lit "0"), ("DSV41_RESIDENT_SCALES", lit "0"),
   ("DSV41_IO_THREADS", .str threads), ("DSV41_STATS_SECONDS", lit "60"), ("NNODES", lit "4"),
   ("SGLANG8_RETRY_FREE_ADMISSION", lit "0"),
   ("SGLANG_ENABLE_DSV41_ENGRAM_HOST_TABLE", lit "0"),
   ("SGLANG_ENABLE_DSV41_ENGRAM_KV_PREFETCH", lit "0"),
   ("DSV41_TP_PAD", lit "0"), ("DSV41_MXFP8_BACKEND", lit "b12x"),
   ("DSV41_PREFILL_EMPTY_CACHE_TOKENS", lit "8192"),
   ("SGLANG_FLASHINFER_MOE_FUSED_FINALIZE", lit "0"),
   ("PYTORCH_CUDA_ALLOC_CONF", lit "expandable_segments:False"),
   ("SGLANG_RAGGED_VERIFY_MODE", lit "static"),
   ("NCCL_SOCKET_IFNAME", .str socket),
   ("GLOO_SOCKET_IFNAME", interface), ("NCCL_IB_HCA", hcas),
   ("NCCL_IB_DISABLE", lit "0"), ("NCCL_IB_ADDR_FAMILY", lit "AF_INET"), ("NCCL_NET", lit "IB"),
   ("NCCL_CUMEM_ENABLE", lit "0"), ("NCCL_NVLS_ENABLE", lit "0"),
   ("NCCL_BUFFSIZE", lit "1048576"), ("NCCL_LL128_BUFFSIZE", lit "262144"),
   ("NCCL_PROTO", lit "^LL128"), ("NCCL_MAX_NCHANNELS", lit "8"),
   ("NCCL_DEBUG", lit "INFO"), ("NCCL_DEBUG_SUBSYS", lit "INIT,NET"),
   ("CUDA_VISIBLE_DEVICES", lit "0"), ("HF_HUB_OFFLINE", lit "1"), ("TRANSFORMERS_OFFLINE", lit "1"),
   ("HF_HOME", lit "/cache/huggingface"), ("XDG_CACHE_HOME", lit "/cache"),
   ("TRITON_CACHE_DIR", lit "/cache/triton"), ("B12X_ROCE_CACHE_DIR", lit "/cache/roce"),
   ("B12X_COMPILE_CACHE_DIR", lit "/cache/b12x"), ("CUTE_DSL_CACHE_DIR", lit "/cache/cute"),
   ("FLASHINFER_CUDA_ARCH_LIST", lit "12.1a"), ("TORCH_CUDA_ARCH_LIST", lit "12.1a"),
   ("MAX_JOBS", lit "2")].map fun entry => (py entry.1, entry.2)

/-- mirrors runtime/configuration.py:84-115 (`environment`) -/
def environment (c rank : Json) : Except Error (List (Str × Json)) := do
  checkRank rank
  let roce ← c.item (py "roce_enabled")
  let sub ← c.item (py "model_subpath")
  let source ← concat (py "/models/") sub
  let threads ← textOf c "io_threads"
  let interface ← c.item (py "fabric_interface")
  let socket ← concat (py "=") interface
  let hcas ← c.item (py "nccl_hcas")
  pure (envVars roce source threads socket interface hcas)

/-! ## Sorting -/

theorem insertByRank_perm {x : Json × Json} {ys zs : List (Json × Json)} (h : insertByRank x ys = .ok zs) :
    zs.Perm (x :: ys) := by
  induction ys generalizing zs with
  | nil =>
    obtain rfl := Except.ok.inj h
    exact .refl _
  | cons y ys ih =>
    obtain ⟨less, -, h⟩ := except_bind_ok.mp h
    split at h
    · obtain rfl := Except.ok.inj h
      exact .refl _
    · obtain ⟨rest, hrest, h⟩ := except_bind_ok.mp h
      obtain rfl := Except.ok.inj h
      exact ((ih hrest).cons y).trans (.swap x y ys)

theorem insertAll_perm {xs ys zs : List (Json × Json)}
    (h : xs.foldlM (fun sorted x => insertByRank x sorted) ys = .ok zs) : zs.Perm (xs ++ ys) := by
  induction xs generalizing ys with
  | nil =>
    obtain rfl := Except.ok.inj h
    exact .refl _
  | cons x xs ih =>
    rw [List.foldlM_cons] at h
    obtain ⟨ys', hys, h⟩ := except_bind_ok.mp h
    calc zs.Perm (xs ++ ys') := ih h
      _ |>.Perm (xs ++ x :: ys) := (insertByRank_perm hys).append_left xs
      _ |>.Perm (x :: xs ++ ys) := List.perm_middle

theorem keyedByRank_snd {workers : List Json} {keyed : List (Json × Json)}
    (h : workers.mapM keyedByRank = .ok keyed) : keyed.map Prod.snd = workers := by
  have hpairs := except_mapM_ok h
  clear h
  induction hpairs with
  | nil => rfl
  | cons hpair _ ih =>
    obtain ⟨rank, -, hpair⟩ := except_bind_ok.mp hpair
    obtain rfl := Except.ok.inj hpair
    rw [List.map_cons, ih]

theorem sortedByRank_perm {workers nodes : List Json} (h : sortedByRank workers = .ok nodes) :
    nodes.Perm workers := by
  obtain ⟨keyed, hkeyed, h⟩ := except_bind_ok.mp h
  obtain ⟨sorted, hsorted, h⟩ := except_bind_ok.mp h
  obtain rfl := Except.ok.inj h
  have hperm := (insertAll_perm hsorted).map Prod.snd
  rwa [List.append_nil, keyedByRank_snd hkeyed] at hperm

/-! ## Accepted profiles -/

def IsStr (c : Json) (key : String) : Prop := ∃ s, c.item (py key) = .ok (.str s)

/-- The rank equals `i`. -/
def HasRank (node : Json) (i : Nat) : Prop := ∃ rank, node.item (py "rank") = .ok rank ∧ rank.eqNum i = true

def HasAddress (node : Json) : Prop := ∃ ip a, node.item (py "ip") = .ok ip ∧ ipv4Address ip = .ok a

/-- What the checks say of the fields that are rendered, and of the ordered workers. -/
structure Accepted (c : Json) (nodes : List Json) : Prop where
  length : nodes.length = 4
  rank : ∀ (i : Nat) (node : Json), nodes[i]? = some node → HasRank node i
  ip : ∀ node ∈ nodes, HasAddress node
  head : IsStr c "head_ip"
  sub : IsStr c "model_subpath"
  interface : IsStr c "fabric_interface"
  hcas : IsStr c "nccl_hcas"
  host : ∃ v, c.item (py "api_host") = .ok v ∧ ipAddress v = .ok ()
  port : ∀ key ∈ ["dist_port", "api_port"], ∃ n : Int, c.item (py key) = .ok (.int n) ∧ 0 ≤ n
  constants : ∀ entry ∈ fixed, ∃ v, c.item (py entry.1) = .ok v ∧ equals v entry.2 = true
  roce : ∃ b, c.item (py "roce_enabled") = .ok (.bool b)

theorem matchOrRaise_ok {p : Str → Bool} {v : Json} {message : String} {u : Unit}
    (h : matchOrRaise p v message = .ok u) : ∃ s, v = .str s := by
  cases v with
  | str s => exact ⟨s, rfl⟩
  | _ => cases h

theorem ofJson_ok {v : Json} {p : Path} (h : Path.ofJson v = .ok p) : ∃ s, v = .str s := by
  cases v with
  | str s => exact ⟨s, rfl⟩
  | _ => cases h

/-- A value that is a number was found, not the default. -/
theorem get_equals {c v value : Json} {key : Str} (hget : c.get key = .ok v) (heq : equals v value = true) :
    c.item key = .ok v := by
  cases c with
  | obj fields =>
    obtain rfl := Except.ok.inj hget
    unfold Json.item
    dsimp only at heq ⊢
    cases hlookup : fields.lookup key with
    | some v => rfl
    | none =>
      rw [hlookup, Option.getD_none] at heq
      unfold equals at heq
      split at heq
      · simp [Json.eqNum, Json.num?] at heq
      · cases heq
  | _ => cases hget

theorem checkedWorkers_ok {c : Json} {nodes : List Json} (h : checkedWorkers c = .ok nodes) :
    (∃ workers raw, c.item (py "workers") = .ok workers ∧ workers.iter = .ok raw ∧ nodes.Perm raw) ∧
      nodes.length = 4 ∧ (∀ (i : Nat) (node : Json), nodes[i]? = some node → HasRank node i) ∧
      (∀ node ∈ nodes, HasAddress node) ∧ IsStr c "head_ip" := by
  obtain ⟨workers, hworkers, h⟩ := except_bind_ok.mp h
  obtain ⟨raw, hraw, h⟩ := except_bind_ok.mp h
  obtain ⟨nodes', hsorted, h⟩ := except_bind_ok.mp h
  obtain ⟨ranks, hranks, h⟩ := except_bind_ok.mp h
  obtain ⟨_, hlength, h⟩ := except_bind_ok.mp h
  obtain ⟨ips, hips, h⟩ := except_bind_ok.mp h
  obtain ⟨_, -, h⟩ := except_bind_ok.mp h
  obtain ⟨head, hhead, h⟩ := except_bind_ok.mp h
  obtain ⟨_, hfirst, h⟩ := except_bind_ok.mp h
  obtain ⟨_, -, h⟩ := except_bind_ok.mp h
  obtain rfl := Except.ok.inj h
  obtain ⟨hlength, hall⟩ := demand_ok.mp hlength
  refine ⟨⟨workers, raw, hworkers, hraw, sortedByRank_perm hsorted⟩, hlength, fun i node hnode => ?_,
    fun node hnode => ?_, ?_⟩
  · obtain ⟨rank, hrank, hitem⟩ := forall₂_getElem? (except_mapM_ok hranks) hnode
    have hmem : (rank, i) ∈ ranks.zipIdx := List.mk_mem_zipIdx_iff_getElem?.mpr hrank
    exact ⟨rank, hitem, List.all_eq_true.mp hall _ hmem⟩
  · obtain ⟨ip, -, haddress⟩ := forall₂_left_mem (except_mapM_ok hips) hnode
    obtain ⟨v, hv, haddress⟩ := except_bind_ok.mp haddress
    obtain ⟨a, ha, -⟩ := except_bind_ok.mp haddress
    exact ⟨v, a, hv, ha⟩
  · have hstr := demand_ok.mp hfirst
    cases head with
    | str s => exact ⟨s, hhead⟩
    | _ => cases hstr

theorem checkFields_ok {c : Json} {u : Unit} (h : checkFields c = .ok u) :
    IsStr c "model_subpath" ∧ IsStr c "fabric_interface" ∧ IsStr c "nccl_hcas" ∧
      (∃ v, c.item (py "api_host") = .ok v ∧ ipAddress v = .ok ()) ∧
      ∀ key ∈ ["dist_port", "api_port"], ∃ n : Int, c.item (py key) = .ok (.int n) ∧ 0 ≤ n := by
  obtain ⟨_, -, h⟩ := except_bind_ok.mp h
  obtain ⟨sub, hsub, h⟩ := except_bind_ok.mp h
  obtain ⟨_, hpath, h⟩ := except_bind_ok.mp h
  obtain ⟨_, hnames, h⟩ := except_bind_ok.mp h
  obtain ⟨hcas, hhcas, h⟩ := except_bind_ok.mp h
  obtain ⟨_, hmatch, h⟩ := except_bind_ok.mp h
  obtain ⟨image, -, h⟩ := except_bind_ok.mp h
  obtain ⟨_, -, h⟩ := except_bind_ok.mp h
  obtain ⟨host, hhost, h⟩ := except_bind_ok.mp h
  obtain ⟨_, haddress, hall⟩ := except_bind_ok.mp h
  obtain ⟨p, hp, -⟩ := except_bind_ok.mp hpath
  obtain ⟨s, rfl⟩ := ofJson_ok hp
  obtain ⟨t, rfl⟩ := matchOrRaise_ok hmatch
  refine ⟨⟨s, hsub⟩, ?_, ⟨t, hhcas⟩, ⟨host, hhost, haddress⟩, fun key hkey => ?_⟩
  · obtain ⟨v, hv, hname⟩ := except_bind_ok.mp (except_forM_ok.mp hnames "fabric_interface" (by decide))
    obtain ⟨name, rfl⟩ := matchOrRaise_ok hname
    exact ⟨name, hv⟩
  · have hmem : key ∈ ["dist_port", "api_port", "nccl_test_port"] := List.mem_append_left ["nccl_test_port"] hkey
    obtain ⟨v, hv, hport⟩ := except_bind_ok.mp (except_forM_ok.mp hall key hmem)
    have hport := demand_ok.mp hport
    cases v with
    | int n =>
      simp only [isPort, Bool.and_eq_true, decide_eq_true_eq] at hport
      exact ⟨n, hv, by omega⟩
    | _ => cases hport

theorem checkFixed_ok {c : Json} {u : Unit} (h : checkFixed c = .ok u) :
    ∀ entry ∈ fixed, ∃ v, c.item (py entry.1) = .ok v ∧ equals v entry.2 = true := by
  intro entry hentry
  obtain ⟨v, hget, h⟩ := except_bind_ok.mp (except_forM_ok.mp h entry hentry)
  obtain ⟨_, -, h⟩ := except_bind_ok.mp h
  have heq := demand_ok.mp h
  exact ⟨v, get_equals hget heq, heq⟩

/-- What `load` returns is the profile with its workers in order. -/
theorem load_accepted {doc c : Json} (h : load doc = .ok c) : ∃ nodes,
    (∃ workers raw, doc.item (py "workers") = .ok workers ∧ workers.iter = .ok raw ∧ nodes.Perm raw) ∧
      Accepted doc nodes ∧
      ∀ key, c.item key = if key = py "workers" then .ok (.arr nodes) else doc.item key := by
  obtain ⟨nodes, hworkers, h⟩ := except_bind_ok.mp h
  obtain ⟨_, hfields, h⟩ := except_bind_ok.mp h
  obtain ⟨_, hfixed, h⟩ := except_bind_ok.mp h
  obtain ⟨roce, hroce, h⟩ := except_bind_ok.mp h
  obtain ⟨_, hbool, hset⟩ := except_bind_ok.mp h
  have hbool := demand_ok.mp hbool
  obtain ⟨hraw, hlength, hrank, hip, hhead⟩ := checkedWorkers_ok hworkers
  obtain ⟨hsub, hinterface, hhcas, hhost, hport⟩ := checkFields_ok hfields
  have hroce : ∃ b, doc.item (py "roce_enabled") = .ok (.bool b) := by
    cases roce with
    | bool b => exact ⟨b, hroce⟩
    | _ => cases hbool
  have haccepted : Accepted doc nodes :=
    ⟨hlength, hrank, hip, hhead, hsub, hinterface, hhcas, hhost, hport, checkFixed_ok hfixed, hroce⟩
  exact ⟨nodes, hraw, haccepted, Json.setItem_item hset⟩

/-! ## Accepted profiles are rendered -/

section Rendered
variable {c doc : Json} {nodes : List Json}

theorem Accepted.of_items (h : Accepted doc nodes) (hitem : ∀ key, key ≠ py "workers" → c.item key = doc.item key) :
    Accepted c nodes where
  length := h.length
  rank := h.rank
  ip := h.ip
  head := by rw [IsStr, hitem _ (by decide)]; exact h.head
  sub := by rw [IsStr, hitem _ (by decide)]; exact h.sub
  interface := by rw [IsStr, hitem _ (by decide)]; exact h.interface
  hcas := by rw [IsStr, hitem _ (by decide)]; exact h.hcas
  host := by rw [hitem _ (by decide)]; exact h.host
  port key hkey := by
    have hne : ∀ key ∈ ["dist_port", "api_port"], py key ≠ py "workers" := by decide
    rw [hitem _ (hne key hkey)]
    exact h.port key hkey
  constants entry hentry := by
    have hne : ∀ key ∈ fixed.map Prod.fst, py key ≠ py "workers" := by decide
    rw [hitem _ (hne entry.1 (List.mem_map_of_mem hentry))]
    exact h.constants entry hentry
  roce := by rw [hitem _ (by decide)]; exact h.roce

theorem textOf_ok {key : String} {v : Json} {s : Str} (hitem : c.item (py key) = .ok v) (htext : v.text = .ok s) :
    textOf c key = .ok s := by
  rw [textOf, hitem]
  exact htext

/-- A fixed integer key, as it stands in the profile and as it is rendered. -/
theorem Accepted.spelling (h : Accepted c nodes) {key : String} {n : Nat} (hmem : (key, Json.int n) ∈ fixed) :
    ∃ v s, c.item (py key) = .ok v ∧ textOf c key = .ok s ∧ Json.Spelling n v s := by
  obtain ⟨v, hv, heq⟩ := h.constants _ hmem
  have heq : v.eqNum n = true := heq
  obtain ⟨s, hs, hspelling⟩ := Json.spelling heq
  exact ⟨v, s, hv, textOf_ok hv hs, hspelling⟩

/-- `0.80` equals no integer and no boolean. -/
theorem Accepted.fraction (h : Accepted c nodes) : textOf c "mem_fraction_static" = .ok (py "0.8") := by
  have hmem : ("mem_fraction_static", .float (.finite fraction80)) ∈ fixed := List.mem_of_getElem? (i := 7) rfl
  obtain ⟨v, hv, heq⟩ := h.constants _ hmem
  have heq : v.eqNum (3602879701896397 / 4503599627370496) = true := heq
  refine textOf_ok hv ?_
  rcases Json.eqNum_cases heq with ⟨n, -, hn⟩ | ⟨b, -, hb⟩ | ⟨x, rfl, hx⟩
  · have hden := congrArg Rat.den hn
    rw [Rat.den_intCast] at hden
    exact absurd hden (by decide +kernel)
  · cases b
    · exact absurd hb (by decide +kernel)
    · exact absurd hb (by decide +kernel)
  · have hneg := Finite.pos_of_value (by norm_num) hx
    have hmag := Finite.mag_of_value (by norm_num) hx
    have htext : ofChars (Double.magText (3602879701896397 / 4503599627370496)) = py "0.8" := by decide +kernel
    rw [Json.text, Double.text, hneg, hmag]
    exact congrArg Except.ok htext

theorem checkRank_ok {rank : Json} {i : Nat} (hi : i < 4) (hrank : rank.eqNum i = true) : checkRank rank = .ok () :=
  demand_ok.mpr (List.any_eq_true.mpr ⟨i, List.mem_range.mpr hi, hrank⟩)

/-- The arguments of an accepted profile, for a rank that equals one of `0..3`. -/
structure Rendering (c rank : Json) (i : Nat) (t : Texts) : Prop where
  args : engineArgs c rank = .ok (render t.chunks)
  rank : Json.Spelling i rank t.rank
  context : ∃ v, c.item (py "context_length") = .ok v ∧ Json.Spelling 1000000 v t.context
  running : ∃ v, c.item (py "max_running_requests") = .ok v ∧ Json.Spelling 8 v t.running
  chunked : ∃ v, c.item (py "chunked_prefill_size") = .ok v ∧ Json.Spelling 2048 v t.chunked
  prefill : ∃ v, c.item (py "max_prefill_tokens") = .ok v ∧ Json.Spelling 2048 v t.prefill
  total : ∃ v, c.item (py "max_total_tokens") = .ok v ∧ Json.Spelling 4000000 v t.total
  fraction : t.fraction = py "0.8"
  model : '/'.toNat ∈ t.model
  address : ':'.toNat ∈ t.address
  host : ipAddress t.host = .ok ()
  port : ∃ n : Nat, t.port = natText n

theorem engineArgs_accepted (h : Accepted c nodes) {rank : Json} {i : Nat} (hi : i < 4)
    (hrank : rank.eqNum i = true) : ∃ t, Rendering c rank i t := by
  obtain ⟨head, hhead⟩ := h.head
  obtain ⟨sub, hsub⟩ := h.sub
  obtain ⟨host, hhost, haddress⟩ := h.host
  obtain ⟨dist, hdist, -⟩ := h.port "dist_port" (by decide)
  obtain ⟨api, hapi, hpos⟩ := h.port "api_port" (by decide)
  obtain ⟨rankText, hrankText, hrankSpelling⟩ := Json.spelling hrank
  obtain ⟨context, contextText, hcontext, hcontextText, hcontextSpelling⟩ :=
    @Accepted.spelling c nodes h "context_length" 1000000 (List.mem_of_getElem? (i := 2) rfl)
  obtain ⟨running, runningText, hrunning, hrunningText, hrunningSpelling⟩ :=
    @Accepted.spelling c nodes h "max_running_requests" 8 (List.mem_of_getElem? (i := 3) rfl)
  obtain ⟨total, totalText, htotal, htotalText, htotalSpelling⟩ :=
    @Accepted.spelling c nodes h "max_total_tokens" 4000000 (List.mem_of_getElem? (i := 4) rfl)
  obtain ⟨chunked, chunkedText, hchunked, hchunkedText, hchunkedSpelling⟩ :=
    @Accepted.spelling c nodes h "chunked_prefill_size" 2048 (List.mem_of_getElem? (i := 5) rfl)
  obtain ⟨prefill, prefillText, hprefill, hprefillText, hprefillSpelling⟩ :=
    @Accepted.spelling c nodes h "max_prefill_tokens" 2048 (List.mem_of_getElem? (i := 6) rfl)
  have hapiText : textOf c "api_port" = .ok (natText api.toNat) := by
    refine textOf_ok hapi ?_
    rw [Json.text, Json.intText, if_neg (by omega), show api.natAbs = api.toNat by omega]
  refine ⟨⟨py "/models/" ++ sub, rankText, head ++ py ":" ++ Json.intText dist, contextText, runningText, chunkedText,
    prefillText, totalText, py "0.8", host, natText api.toNat⟩, ?_⟩
  constructor
  · unfold engineArgs
    simp only [checkRank_ok hi hrank, hsub, concat, hrankText, textOf_ok hhead rfl, textOf_ok hdist rfl, hcontextText,
      hrunningText, hchunkedText, hprefillText, htotalText, h.fraction, hhost, hapiText]
    rfl
  · exact hrankSpelling
  · exact ⟨context, hcontext, hcontextSpelling⟩
  · exact ⟨running, hrunning, hrunningSpelling⟩
  · exact ⟨chunked, hchunked, hchunkedSpelling⟩
  · exact ⟨prefill, hprefill, hprefillSpelling⟩
  · exact ⟨total, htotal, htotalSpelling⟩
  · rfl
  · exact List.mem_append_left sub (by decide)
  · exact List.mem_append_left _ (List.mem_append_right head (by decide))
  · exact haddress
  · exact ⟨api.toNat, rfl⟩

theorem environment_accepted (h : Accepted c nodes) {rank : Json} {i : Nat} (hi : i < 4)
    (hrank : rank.eqNum i = true) : ∃ roce source threads socket interface hcas v,
      environment c rank = .ok (envVars roce source threads socket interface hcas) ∧
        c.item (py "io_threads") = .ok v ∧ Json.Spelling 96 v threads := by
  obtain ⟨roce, hroce⟩ := h.roce
  obtain ⟨sub, hsub⟩ := h.sub
  obtain ⟨interface, hinterface⟩ := h.interface
  obtain ⟨hcas, hhcas⟩ := h.hcas
  obtain ⟨v, threads, hv, hthreads, hspelling⟩ :=
    @Accepted.spelling c nodes h "io_threads" 96 (List.mem_of_getElem? (i := 11) rfl)
  refine ⟨.bool roce, py "/models/" ++ sub, threads, py "=" ++ interface, .str interface, .str hcas, v, ?_, hv,
    hspelling⟩
  unfold environment
  simp only [checkRank_ok hi hrank, hroce, hsub, concat, hthreads, hinterface, hhcas]
  rfl

end Rendered

end FlashSpark.L6.Profile
