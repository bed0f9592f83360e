import ReedCode.MetricsIdentity.Client
import Mathlib.Data.List.Dedup

/-!
# The sidecar and its client agree

* `InTree`, `Listens`, `BootIs` — what the sidecar watches, as sets.
* `observe_spec` — an observation holds just that, in sorted order.
* `observed_accepted` — what was observed is accepted by the client.
* `identity_agrees` — **every snapshot is accepted with one fingerprint, a change of what is watched
  is reported, and the fingerprint tells different identities apart, whatever their order**.
-/

set_option autoImplicit false

namespace ReedCode.MetricsIdentity

open Descendants

section Watch

variable (P : Python) (proc : Proc)

/-! ## What is watched -/

/-- A process that can be read and descends from the backend. -/
def InTree (backendPid : Int) (p : Process) : Prop :=
  p ∈ found P proc ∧ Descends Process.pid Process.parentPid (found P proc) backendPid p.pid

/-- A socket listens on the port. -/
def Listens (port : Int) (inode : Text) : Prop :=
  ∃ content, (proc.tcp = .text content ∨ proc.tcp6 = .text content) ∧
    ∃ line ∈ (Lines.splitlines content).drop 1, listening P port line = .ok (some inode)

def BootIs (id : Text) : Prop := ∃ content, proc.bootId = .text content ∧ id = PyText.strip content

/-- Pids, parents, start ticks and socket inodes as the kernel writes them. -/
structure Kernel : Prop where
  processes : ∀ p ∈ found P proc, 0 < p.pid ∧ 0 ≤ p.parentPid ∧ 0 ≤ p.startTicks
  sockets : ∀ pid descriptors target inode, proc.fd pid = some descriptors →
    .link target ∈ descriptors → socketInode P target = some inode →
      ∃ n, P.int inode = some n ∧ 0 < n

end Watch

/-- The same is watched in both. -/
structure SameWatch (P : Python) (proc proc' : Proc) (backendPid port : Int) : Prop where
  processes : ∀ p, InTree P proc backendPid p ↔ InTree P proc' backendPid p
  bootId : ∀ id, BootIs proc id ↔ BootIs proc' id
  sockets : ∀ inode, Listens P proc port inode ↔ Listens P proc' port inode

section Observe

variable {P : Python} {proc proc' : Proc}

/-! ## The tree -/

theorem readProcess_pid {pid : Int} {p : Process} (h : readProcess P proc pid = some p) :
    p.pid = pid := by
  unfold readProcess at h
  split at h
  · simp only [Option.bind_eq_bind, Option.bind_eq_some_iff] at h
    obtain ⟨first, -, h⟩ := h
    split at h
    · cases h
    · simp only [Option.bind_eq_some_iff, Option.pure_def, Option.some.injEq] at h
      obtain ⟨parent, -, start, -, rfl⟩ := h
      rfl
  · cases h

theorem mem_found {p : Process} : p ∈ found P proc ↔ ∃ name ∈ proc.names,
    isDecimal P name = true ∧ ∃ pid, P.int name = some pid ∧ readProcess P proc pid = some p := by
  unfold found
  rw [List.mem_filterMap]
  refine exists_congr fun name => and_congr_right fun _ => ?_
  split
  · rename_i hdecimal
    rw [Option.bind_eq_some_iff]
    exact ⟨fun h => ⟨hdecimal, h⟩, fun h => h.2⟩
  · rename_i hdecimal
    exact ⟨fun h => (by cases h), fun h => absurd h.1 hdecimal⟩

/-- A pid is read once. -/
theorem found_unique {p q : Process} (hp : p ∈ found P proc) (hq : q ∈ found P proc)
    (h : p.pid = q.pid) : p = q := by
  obtain ⟨-, -, -, pid, -, hp⟩ := mem_found.1 hp
  obtain ⟨-, -, -, pid', -, hq⟩ := mem_found.1 hq
  have hpid := readProcess_pid hp
  have hpid' := readProcess_pid hq
  rw [← hpid, h, hpid', hq, Option.some.injEq] at hp
  exact hp.symm

/-- The dictionary holds the processes that were found, under their pids. -/
theorem mem_processes {k : Int} {p : Process} :
    (processes P proc).get? k = some p ↔ p ∈ found P proc ∧ p.pid = k := by
  have hvalue : ∀ {k p}, (processes P proc).get? k = some p → p ∈ found P proc := by
    intro k p h
    refine FinMap.get?_ofList_all (P := fun p => p ∈ found P proc) ?_ h
    intro e he
    obtain ⟨q, hq, rfl⟩ := List.mem_map.1 he
    exact hq
  have hkey : ∀ {es : List Process} {m : FinMap Int Process},
      (∀ k p, m.get? k = some p → p.pid = k) → ∀ k p,
        ((es.map fun p => (p.pid, p)).foldl (fun m e => m.insert e.1 e.2) m).get? k = some p →
          p.pid = k := by
    intro es
    induction es with
    | nil => exact fun hm => hm
    | cons q es ih =>
      intro m hm
      refine ih fun k p h => ?_
      rw [FinMap.get?_insert] at h
      split at h
      · rename_i heq
        cases h
        exact heq
      · exact hm k p h
  constructor
  · intro h
    refine ⟨hvalue h, hkey (fun k p h => ?_) k p h⟩
    rw [FinMap.get?_empty] at h
    cases h
  · rintro ⟨hp, rfl⟩
    have hsome : ((processes P proc).get? p.pid).isSome := by
      rw [processes, FinMap.isSome_get?_ofList, List.map_map]
      exact List.mem_map_of_mem (f := fun p : Process => p.pid) hp
    obtain ⟨q, hq⟩ := Option.isSome_iff_exists.1 hsome
    have hpid : q.pid = p.pid := by
      refine hkey (fun k p h => ?_) p.pid q hq
      rw [FinMap.get?_empty] at h
      cases h
    rw [hq, found_unique (hvalue hq) hp hpid]

theorem mem_entries_processes {p : Process} :
    p ∈ (processes P proc).entries.map Prod.snd ↔ p ∈ found P proc := by
  rw [List.mem_map]
  constructor
  · rintro ⟨⟨k, q⟩, hmem, rfl⟩
    exact (mem_processes.1 (FinMap.mem_entries.1 hmem)).1
  · intro hp
    exact ⟨(p.pid, p), FinMap.mem_entries.2 (mem_processes.2 ⟨hp, rfl⟩), rfl⟩

theorem processes_nodup : (((processes P proc).entries.map Prod.snd).map (·.pid)).Nodup := by
  have hkeys : ((processes P proc).entries.map Prod.snd).map (·.pid) =
      (processes P proc).entries.map Prod.fst := by
    rw [List.map_map]
    refine List.map_congr_left ?_
    rintro ⟨k, p⟩ hmem
    exact (mem_processes.1 (FinMap.mem_entries.1 hmem)).2
  rw [hkeys]
  exact (processes P proc).nodup

/-- **The tree consists of the descendants of the backend.** -/
theorem processTree_spec {backendPid : Int} {tree : List Process}
    (h : processTree P proc backendPid = .ok tree) :
    (∀ p, p ∈ tree ↔ InTree P proc backendPid p) ∧ (tree.map (·.pid)).Nodup ∧
      backendPid ∈ tree.map (·.pid) ∧
      ∀ pid ∈ tree.map (·.pid), Descends Process.pid Process.parentPid tree backendPid pid := by
  simp only [processTree] at h
  split at h
  · cases h
  · rename_i hbackend
    rw [not_not] at hbackend
    cases h
    generalize hprocs : (processes P proc).entries.map Prod.snd = procs at hbackend ⊢
    have hmem : ∀ p, p ∈ procs ↔ p ∈ found P proc := fun p => hprocs ▸ mem_entries_processes
    have hsort : ∀ p, p ∈ (procs.filter (fun p => decide (p.pid ∈ closure Process.pid
        Process.parentPid procs backendPid))).insertionSort (fun a b => a.pid ≤ b.pid) ↔
          p ∈ procs ∧ Descends Process.pid Process.parentPid procs backendPid p.pid := by
      intro p
      rw [List.mem_insertionSort, List.mem_filter, decide_eq_true_eq, mem_closure]
    refine ⟨?_, ?_, ?_, ?_⟩
    · intro p
      rw [hsort, hmem]
      exact and_congr_right fun _ => ⟨fun hd => hd.mono fun a ha => (hmem a).1 ha,
        fun hd => hd.mono fun a ha => (hmem a).2 ha⟩
    · have hnodup : (procs.map (·.pid)).Nodup := hprocs ▸ processes_nodup
      exact ((List.perm_insertionSort _ _).map _).nodup_iff.2
        (hnodup.sublist (List.filter_sublist.map _))
    · obtain ⟨p, hp, hpid⟩ := List.mem_map.1 hbackend
      refine List.mem_map.2 ⟨p, (hsort p).2 ⟨hp, ?_⟩, hpid⟩
      rw [hpid]
      exact .root
    · intro pid hpid
      obtain ⟨p, hp, rfl⟩ := List.mem_map.1 hpid
      refine Descends.mono ?_ ((hsort p).1 hp).2.restrict
      intro a ha
      rwa [List.mem_insertionSort]

/-! ## Sockets -/

theorem tableListeners_spec {port : Int} {file : File} {inodes : List Text}
    (h : tableListeners P port file = .ok inodes) (inode : Text) :
    inode ∈ inodes ↔ ∃ content, file = .text content ∧
      ∃ line ∈ (Lines.splitlines content).drop 1, listening P port line = .ok (some inode) := by
  cases file with
  | absent =>
    cases h
    simp
  | unreadable => cases h
  | text content =>
    obtain ⟨found, hfound, h⟩ := Except.bind_eq_ok_iff.1 h
    simp only [pure, Except.pure, Except.ok.injEq] at h
    subst h
    simp only [List.mem_filterMap, id, File.text.injEq]
    constructor
    · rintro ⟨_, hmem, rfl⟩
      obtain ⟨line, hline, hok⟩ := Except.exists_of_mem_mapM hfound hmem
      exact ⟨content, rfl, line, hline, hok⟩
    · rintro ⟨_, rfl, line, hline, hok⟩
      obtain ⟨out, hout, hok'⟩ := Except.exists_mem_of_mapM hfound hline
      rw [hok, Except.ok.injEq] at hok'
      exact ⟨out, hout, hok'.symm⟩

theorem listeners_spec {port : Int} {inodes : List Text} (h : listeners P proc port = .ok inodes)
    (inode : Text) : inode ∈ inodes ↔ Listens P proc port inode := by
  obtain ⟨four, hfour, h⟩ := Except.bind_eq_ok_iff.1 h
  obtain ⟨six, hsix, h⟩ := Except.bind_eq_ok_iff.1 h
  simp only [pure, Except.pure, Except.ok.injEq] at h
  subst h
  rw [List.mem_append, tableListeners_spec hfour, tableListeners_spec hsix]
  constructor
  · rintro (⟨content, hfile, hline⟩ | ⟨content, hfile, hline⟩)
    · exact ⟨content, Or.inl hfile, hline⟩
    · exact ⟨content, Or.inr hfile, hline⟩
  · rintro ⟨content, hfile | hfile, hline⟩
    · exact Or.inl ⟨content, hfile, hline⟩
    · exact Or.inr ⟨content, hfile, hline⟩

theorem mem_sortedSet {texts : List Text} {s : String} :
    s ∈ sortedSet texts ↔ s.toList ∈ texts := by
  rw [sortedSet, List.mem_insertionSort, List.mem_dedup, List.mem_map]
  constructor
  · rintro ⟨text, htext, rfl⟩
    rwa [String.toList_ofList]
  · intro h
    exact ⟨s.toList, h, String.ofList_toList⟩

theorem owned_spec {pids : List Int} {owned : List (List Text)} {inode : Text}
    (h : pids.mapM (ownedBy P proc) = .ok owned) (hmem : inode ∈ owned.flatten) :
    ∃ pid descriptors target, proc.fd pid = some descriptors ∧ .link target ∈ descriptors ∧
      socketInode P target = some inode := by
  obtain ⟨inodes, hinodes, hmem⟩ := List.mem_flatten.1 hmem
  obtain ⟨pid, -, hpid⟩ := Except.exists_of_mem_mapM h hinodes
  unfold ownedBy at hpid
  cases hfd : proc.fd pid with
  | none => simp [hfd] at hpid
  | some descriptors =>
    simp only [hfd] at hpid
    obtain ⟨found, hfound, hpid⟩ := Except.bind_eq_ok_iff.1 hpid
    simp only [pure, Except.pure, Except.ok.injEq] at hpid
    subst hpid
    obtain ⟨out, hout, hid⟩ := List.mem_filterMap.1 hmem
    obtain ⟨descriptor, hdescriptor, hok⟩ := Except.exists_of_mem_mapM hfound hout
    cases descriptor with
    | gone =>
      cases hok
      cases hid
    | unreadable => cases hok
    | link target =>
      simp only [descriptorInode, Except.ok.injEq] at hok
      exact ⟨pid, descriptors, target, hfd, hdescriptor, hok.trans hid⟩

theorem socketInode_decimal {target inode : Text} (h : socketInode P target = some inode) :
    isDecimal P inode = true := by
  unfold socketInode at h
  simp only at h
  split at h
  · rename_i hmatch
    cases h
    exact hmatch.2.2
  · cases h

/-! ## Observations -/

/-- What an observation holds. -/
structure Observes (P : Python) (proc : Proc) (o : Observed) : Prop where
  processes : ∀ p, p ∈ o.processes ↔ InTree P proc o.backendPid p
  unique : (o.processes.map (·.pid)).Nodup
  backend : o.backendPid ∈ o.processes.map (·.pid)
  reachable : ∀ pid ∈ o.processes.map (·.pid),
    Descends Process.pid Process.parentPid o.processes o.backendPid pid
  engines : o.enginePids ⊆ o.processes.map (·.pid)
  bootId : BootIs proc o.bootId.toList
  uuid : P.uuid o.bootId.toList = true
  sockets : ∀ s : String, s ∈ o.metricsSocketInodes ↔ Listens P proc o.metricsPort s.toList
  listens : o.metricsSocketInodes ≠ []
  owned : ∀ s ∈ o.metricsSocketInodes, ∃ pid descriptors target, proc.fd pid = some descriptors ∧
    .link target ∈ descriptors ∧ socketInode P target = some s.toList

theorem observe_spec {backendPid port : Int} {enginePids : List Int} {o : Observed}
    (h : observe P proc backendPid enginePids port = .ok o) :
    Observes P proc o ∧ o.backendPid = backendPid ∧ o.enginePids = enginePids ∧
      o.metricsPort = port := by
  simp only [observe, Except.bind_eq_ok_iff, Except.failIf_eq_ok, pure, Except.pure] at h
  obtain ⟨tree, htree, -, hengines, h⟩ := h
  cases hboot : proc.bootId with
  | absent =>
    simp only [hboot, Except.bind_eq_ok_iff] at h
    obtain ⟨_, hbad, -⟩ := h
    cases hbad
  | unreadable =>
    simp only [hboot, Except.bind_eq_ok_iff] at h
    obtain ⟨_, hbad, -⟩ := h
    cases hbad
  | text content =>
    simp only [hboot, Except.bind_eq_ok_iff, Except.failIf_eq_ok, Except.ok.injEq] at h
    obtain ⟨bootId, rfl, -, huuid, inodes, hinodes, rfl⟩ := h
    obtain ⟨hmem, hunique, hbackend, hreachable⟩ := processTree_spec htree
    obtain ⟨listening, hlistening, hinodes⟩ := Except.bind_eq_ok_iff.1 hinodes
    obtain ⟨owned, howned, hinodes⟩ := Except.bind_eq_ok_iff.1 hinodes
    split at hinodes
    · cases hinodes
    · rename_i hbound
      cases hinodes
      rw [not_or, not_not] at hbound
      refine ⟨⟨hmem, hunique, hbackend, hreachable, not_not.1 hengines, ⟨content, hboot, ?_⟩, ?_, ?_,
        ?_, ?_⟩, rfl, rfl, rfl⟩
      · exact String.toList_ofList
      · simp only [String.toList_ofList]
        exact Bool.not_eq_false _ ▸ huuid
      · intro s
        rw [mem_sortedSet]
        exact listeners_spec hlistening s.toList
      · obtain ⟨text, htext⟩ := List.exists_mem_of_ne_nil _ hbound.1
        refine List.ne_nil_of_mem (a := String.ofList text) (mem_sortedSet.2 ?_)
        rwa [String.toList_ofList]
      · intro s hs
        exact owned_spec howned (hbound.2 (mem_sortedSet.1 hs))

/-! ## Snapshots -/

open ProcessMonitor

/-- The identity that the client reads from a snapshot. -/
def identityOf (m : ProcessMonitor) (o : Observed) : Identity :=
  ⟨.int 1, o.bootId, m.monitorId, o.backendPid, o.enginePids, o.processes, o.metricsPort,
    o.metricsSocketInodes⟩

/-- The body of an observation. -/
def bodyOf (m : ProcessMonitor) (o : Observed) : List (String × Value) :=
  [("schema_version", .int 1), ("monitor_id", .str m.monitorId),
    ("boot_id", .str o.bootId), ("processes", .list (o.processes.map processValue)),
    ("backend_pid", .int o.backendPid), ("engine_pids", .list (o.enginePids.map .int)),
    ("metrics_port", .int o.metricsPort),
    ("metrics_socket_inodes", .list (o.metricsSocketInodes.map .str))]

theorem snapshot_eq_ok_iff {m : ProcessMonitor} {body : List (String × Value)} :
    m.snapshot P proc = .ok body ↔
      observe P proc m.backendPid m.enginePids m.metricsPort = .ok m.pinned ∧
        body = bodyOf m m.pinned := by
  simp only [snapshot, Except.bind_eq_ok_iff, Except.failIf_eq_ok, not_not, pure, Except.pure,
    Except.ok.injEq]
  constructor
  · rintro ⟨o, ho, -, rfl, rfl⟩
    exact ⟨ho, rfl⟩
  · rintro ⟨ho, rfl⟩
    exact ⟨m.pinned, ho, (), rfl, rfl⟩

/-- What is written item by item is read back. -/
theorem mapM_map {α : Type} {f : Value → Option α} {g : α → Value} (h : ∀ a, f (g a) = some a) :
    ∀ as : List α, (as.map g).mapM f = some as
  | [] => rfl
  | a :: as => by
    rw [List.map_cons, List.mapM_cons, h, mapM_map h as]
    rfl

/-- A monitor that was created. -/
structure Created (P : Python) (proc : Proc) (m : ProcessMonitor) : Prop where
  observed : Observes P proc m.pinned
  backendPid : m.pinned.backendPid = m.backendPid
  enginePids : m.pinned.enginePids = m.enginePids
  metricsPort : m.pinned.metricsPort = m.metricsPort
  port : 1 ≤ m.metricsPort ∧ m.metricsPort ≤ 65535
  engines : m.enginePids ≠ [] ∧ m.enginePids.Nodup ∧ ∀ pid ∈ m.enginePids, pid ≠ m.backendPid

theorem create_spec {monitorId : String} {backendPid port : Int} {enginePids : List Int}
    {m : ProcessMonitor} (h : create P proc monitorId backendPid enginePids port = .ok m) :
    Created P proc m ∧ m.monitorId = monitorId ∧ m.backendPid = backendPid ∧
      m.metricsPort = port := by
  simp only [create, Except.bind_eq_ok_iff, Except.failIf_eq_ok, pure, Except.pure,
    Except.ok.injEq] at h
  obtain ⟨-, hpids, -, hport, pinned, hpinned, rfl⟩ := h
  simp only [not_or, not_exists, not_and] at hpids
  rw [not_or, not_not, not_not] at hport
  obtain ⟨hobserved, hbackend, hengines, hmetrics⟩ := observe_spec hpinned
  refine ⟨⟨hobserved, hbackend, hengines, hmetrics, hport.2, ?_, ?_, ?_⟩, rfl, rfl, rfl⟩
  · intro hnil
    have hlen := congrArg List.length hnil
    rw [List.length_insertionSort] at hlen
    exact hpids.2.1 (List.length_eq_zero_iff.1 hlen)
  · exact (List.perm_insertionSort _ _).nodup_iff.2 hport.1
  · intro pid hpid
    exact (hpids.2.2 pid (List.mem_insertionSort _ |>.1 hpid)).2

/-- **What was observed is accepted.** -/
theorem observed_accepted {m : ProcessMonitor} (hkernel : Kernel P proc) (h : Created P proc m)
    (huuid : P.uuid m.monitorId.toList = true) (challenge : String) :
    Accepts P (challenged (bodyOf m m.pinned) challenge) challenge (identityOf m m.pinned) := by
  have ho := h.observed
  have hpids : m.pinned.processes ≠ [] := by
    intro hnil
    have hbackend := ho.backend
    rw [hnil] at hbackend
    cases hbackend
  have hprocesses : ∀ ps : List Process, (ps.map processValue).mapM asProcess = some ps :=
    mapM_map fun p => rfl
  have hints : ∀ ns : List Int, (ns.map Value.int).mapM asInt = some ns := mapM_map fun n => rfl
  have hstrings : ∀ ss : List String, asStrings (ss.map Value.str) = some ss :=
    mapM_map fun s => rfl
  constructor
  · rfl
  · exact Value.pyEq_iff.2 ⟨.str challenge, rfl, rfl⟩
  · exact Value.pyEq_iff.2 ⟨.float 1, rfl, rfl⟩
  · rfl
  · exact if_pos ho.uuid
  · exact if_pos huuid
  · rfl
  · have hport := h.port
    rwa [← h.metricsPort] at hport
  · exact ⟨_, rfl, fun hnil => hpids (List.map_eq_nil_iff.1 hnil), hprocesses _⟩
  · intro p hp
    exact hkernel.processes p ((ho.processes p).1 hp).1
  · exact ho.unique
  · rfl
  · exact ho.backend
  · refine ⟨_, rfl, fun hnil => h.engines.1 ?_, hints _⟩
    rw [← h.enginePids]
    exact List.map_eq_nil_iff.1 hnil
  · intro pid hpid
    have hmine : pid ∈ m.enginePids := h.enginePids ▸ hpid
    exact ⟨ho.engines hpid, fun heq => h.engines.2.2 pid hmine (heq.trans h.backendPid)⟩
  · have hnodup := h.engines.2.1
    rwa [← h.enginePids] at hnodup
  · exact ho.reachable
  · exact ⟨_, rfl, fun hnil => ho.listens (List.map_eq_nil_iff.1 hnil), hstrings _⟩
  · intro inode hinode
    obtain ⟨pid, descriptors, target, hfd, hmem, hsocket⟩ := ho.owned inode hinode
    obtain ⟨n, hn, hpos⟩ := hkernel.sockets pid descriptors target inode.toList hfd hmem hsocket
    rw [isInode, socketInode_decimal hsocket, hn, Bool.true_and, Option.any_some]
    exact decide_eq_true hpos

/-- Where the same was observed, the same is watched. -/
theorem sameWatch_of_observes {o : Observed} (h : Observes P proc o) (h' : Observes P proc' o) :
    SameWatch P proc proc' o.backendPid o.metricsPort := by
  refine ⟨fun p => (h.processes p).symm.trans (h'.processes p), fun id => ?_, fun inode => ?_⟩
  · obtain ⟨content, hcontent, hid⟩ := h.bootId
    obtain ⟨content', hcontent', hid'⟩ := h'.bootId
    constructor
    · rintro ⟨text, htext, rfl⟩
      rw [hcontent, File.text.injEq] at htext
      subst htext
      exact ⟨content', hcontent', hid.symm.trans hid'⟩
    · rintro ⟨text, htext, rfl⟩
      rw [hcontent', File.text.injEq] at htext
      subst htext
      exact ⟨content, hcontent, hid'.symm.trans hid⟩
  · have hs := h.sockets (String.ofList inode)
    rw [h'.sockets (String.ofList inode), String.toList_ofList] at hs
    exact hs.symm

end Observe

/-- **The identity sidecar and its client agree.** -/
theorem identity_agrees {D : Type} (P : Python) (fingerprint : Value → D)
    (hinjective : Function.Injective fingerprint) :
    (∀ proc monitorId backendPid enginePids port m, Kernel P proc →
      P.uuid monitorId.toList = true →
      ProcessMonitor.create P proc monitorId backendPid enginePids port = .ok m →
        (∃ f, ∀ proc' body challenge, m.snapshot P proc' = .ok body →
          validateIdentity P fingerprint (ProcessMonitor.challenged body challenge) challenge =
            .ok f) ∧
        ∀ proc', ¬ SameWatch P proc proc' backendPid port → ∃ e, m.snapshot P proc' = .error e) ∧
    (∀ body body' challenge, Reordered body body' →
      validateIdentity P fingerprint body' challenge =
        validateIdentity P fingerprint body challenge) ∧
    ∀ body body' challenge challenge' f f', validateIdentity P fingerprint body challenge = .ok f →
      validateIdentity P fingerprint body' challenge' = .ok f' → ¬ SameIdentity body body' →
        f ≠ f' := by
  refine ⟨?_, fun body body' challenge h => validateIdentity_reordered fingerprint h, ?_⟩
  · intro proc monitorId backendPid enginePids port m hkernel huuid hcreate
    obtain ⟨hcreated, rfl, rfl, rfl⟩ := create_spec hcreate
    refine ⟨⟨fingerprint (identityOf m m.pinned).value, ?_⟩, ?_⟩
    · intro proc' body challenge hbody
      obtain ⟨-, rfl⟩ := snapshot_eq_ok_iff.1 hbody
      have haccepted := observed_accepted hkernel hcreated huuid challenge
      exact Except.bind_eq_ok_iff.2 ⟨_, received_eq_ok_iff.2 haccepted, rfl⟩
    · intro proc' hchanged
      cases hsnapshot : m.snapshot P proc' with
      | error e => exact ⟨e, rfl⟩
      | ok body =>
        obtain ⟨hobserved, -⟩ := snapshot_eq_ok_iff.1 hsnapshot
        have hsame := sameWatch_of_observes hcreated.observed (observe_spec hobserved).1
        rw [hcreated.backendPid, hcreated.metricsPort] at hsame
        exact absurd hsame hchanged
  · intro body body' challenge challenge' f f' h h' hdiffer heq
    obtain ⟨id, hid, hf⟩ := Except.bind_eq_ok_iff.1 h
    obtain ⟨id', hid', hf'⟩ := Except.bind_eq_ok_iff.1 h'
    simp only [pure, Except.pure, Except.ok.injEq] at hf hf'
    refine hdiffer (sameIdentity_of_eq (received_eq_ok_iff.1 hid) (received_eq_ok_iff.1 hid') ?_)
    exact hinjective (hf.trans (heq.trans hf'.symm))

/-! ## Example

A backend with one engine, and a socket of the backend that listens on port 8081. -/

def exampleDigit (c : Char) : Int :=
  if c.isDigit then c.toNat - '0'.toNat else c.toNat - 'A'.toNat + 10

def exampleNumber (base : Int) (text : Text) : Option Int :=
  if text.all fun c => c.isDigit || (base == 16 && 'A' ≤ c && c ≤ 'F') then
    some (text.foldl (fun n c => base * n + exampleDigit c) 0)
  else none

def examplePython : Python :=
  ⟨exampleNumber 10, exampleNumber 16, Char.isDigit, fun text => text.length == 36⟩

def exampleStat (pid parent start : String) : File :=
  .text (pid ++ " (vllm (x)) S " ++ parent ++ " 0 0 0 0 0 0 0 0 0 0 0 0 0 0 0 0 0 " ++ start).toList

def exampleProc : Proc where
  names := ["self".toList, "20".toList, "10".toList, "7".toList]
  stat := fun pid =>
    if pid = 10 then exampleStat "10" "1" "100"
    else if pid = 20 then exampleStat "20" "10" "200"
    else if pid = 7 then exampleStat "7" "1" "5"
    else .absent
  tcp := .text "head\n 0: 00000000:1F91 00000000:0000 0A 0 0 0 0 0 123 1\n".toList
  tcp6 := .absent
  fd := fun pid => some (if pid = 10 then [.gone, .link "socket:[123]".toList] else [])
  bootId := .text "00000000-0000-4000-8000-000000000001\n".toList

def exampleMonitor : ProcessMonitor where
  backendPid := 10
  enginePids := [20]
  metricsPort := 8081
  monitorId := "00000000-0000-4000-8000-000000000002"
  pinned := ⟨"00000000-0000-4000-8000-000000000001", [⟨10, 1, 100⟩, ⟨20, 10, 200⟩], 10, [20], 8081,
    ["123"]⟩

theorem exampleProc_kernel : Kernel examplePython exampleProc := by
  refine ⟨by decide +kernel, ?_⟩
  intro pid descriptors target inode hfd hmem hinode
  cases hfd
  split at hmem
  · simp only [List.mem_cons, reduceCtorEq, Descriptor.link.injEq, List.not_mem_nil, or_false,
      false_or] at hmem
    subst hmem
    have hsocket : socketInode examplePython "socket:[123]".toList = some "123".toList := by
      decide +kernel
    rw [hsocket, Option.some.injEq] at hinode
    subst hinode
    exact ⟨123, by decide +kernel, by decide⟩
  · cases hmem

theorem identity_agrees_example :
    ProcessMonitor.create examplePython exampleProc "00000000-0000-4000-8000-000000000002" 10 [20]
      8081 = .ok exampleMonitor ∧
    ∃ f, validateIdentity examplePython (fun v => v)
      (ProcessMonitor.challenged (bodyOf exampleMonitor exampleMonitor.pinned) "c") "c" = .ok f := by
  have hcreate : ProcessMonitor.create examplePython exampleProc
      "00000000-0000-4000-8000-000000000002" 10 [20] 8081 = .ok exampleMonitor := by decide +kernel
  have hsnapshot : exampleMonitor.snapshot examplePython exampleProc =
      .ok (bodyOf exampleMonitor exampleMonitor.pinned) :=
    snapshot_eq_ok_iff.2 ⟨by decide +kernel, rfl⟩
  obtain ⟨⟨f, hf⟩, -⟩ := (identity_agrees examplePython (fun v => v) Function.injective_id).1
    _ _ _ _ _ _ exampleProc_kernel (by decide +kernel) hcreate
  exact ⟨hcreate, f, hf exampleProc _ "c" hsnapshot⟩

end ReedCode.MetricsIdentity
