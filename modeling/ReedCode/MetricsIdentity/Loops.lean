import ReedCode.MetricsIdentity.Agreement
import ReedCode.Lib.Saturation
import Mathlib.Data.Finset.Sort

/-!
# The loops over the processes

`process_tree` and `validate_identity` of `metrics_identity.py` add children until nothing changes.

* `expandTree`, `TreeLoop` — the loop of `process_tree`, over its dictionary, and what it returns.
* `expandReachable`, `ReachableLoop` — the loop of `validate_identity`, over its list.
* `processTree_loop`, `closure_loop` — the loops give what the model of these functions reads.
* `closures_exact` — **both loops end, with the processes that descend from the backend**.
-/

set_option autoImplicit false

namespace ReedCode.MetricsIdentity

open Descendants Saturation

/-! ## The loops -/

/-- `selected | {pid for pid, process in processes.items() if process["parent_pid"] in selected}`. -/
def expandTree (processes : FinMap Int Process) (selected : Finset Int) : Finset Int :=
  selected ∪ ((processes.entries.filter fun e => e.2.parentPid ∈ selected).map Prod.fst).toFinset

/-- The loop of `process_tree` ends and returns `tree`; `none` is a missing key. -/
def TreeLoop (processes : FinMap Int Process) (backend : Int) (tree : List Process) : Prop :=
  ∃ selected, Ends (expandTree processes) {backend} selected ∧
    selected.sort.mapM processes.get? = some tree

/-- `reachable | {p["pid"] for p in processes if p["parent_pid"] in reachable}`. -/
def expandReachable (processes : List Process) (reachable : Finset Int) : Finset Int :=
  reachable ∪ ((processes.filter fun p => p.parentPid ∈ reachable).map (·.pid)).toFinset

/-- The loop of `validate_identity` ends with `reachable`. -/
def ReachableLoop (processes : List Process) (backend : Int) (reachable : Finset Int) : Prop :=
  Ends (expandReachable processes) {backend} reachable

/-- The dictionary of `process_tree`: every process stands under its pid. -/
def Keyed (processes : FinMap Int Process) : Prop :=
  ∀ k p, processes.get? k = some p → p.pid = k

def values (processes : FinMap Int Process) : List Process := processes.entries.map Prod.snd

/-- A process that is reached from the backend along parent links. -/
def Reached (processes : List Process) (backend pid : Int) : Prop :=
  Descends Process.pid Process.parentPid processes backend pid

/-! ## The loop of the dictionary -/

section Tree

variable {processes : FinMap Int Process} {backend : Int}

theorem Keyed.pid (hkeyed : Keyed processes) {e : Int × Process} (he : e ∈ processes.entries) :
    e.2.pid = e.1 := hkeyed e.1 e.2 (FinMap.mem_entries.1 he)

theorem Keyed.mem_values (hkeyed : Keyed processes) {p : Process} :
    p ∈ values processes ↔ processes.get? p.pid = some p := by
  rw [values, List.mem_map]
  constructor
  · rintro ⟨e, he, rfl⟩
    rw [hkeyed.pid he]
    exact FinMap.mem_entries.1 he
  · exact fun h => ⟨(p.pid, p), FinMap.mem_entries.2 h, rfl⟩

/-- The loop over the dictionary is the one over its values. -/
theorem Keyed.expandTree_eq (hkeyed : Keyed processes) :
    expandTree processes = expandReachable (values processes) := by
  funext selected
  ext k
  simp only [expandTree, expandReachable, Finset.mem_union, List.mem_toFinset, List.mem_map,
    List.mem_filter, decide_eq_true_eq]
  refine or_congr_right ?_
  constructor
  · rintro ⟨e, ⟨he, hparent⟩, rfl⟩
    exact ⟨e.2, ⟨List.mem_map_of_mem he, hparent⟩, hkeyed.pid he⟩
  · rintro ⟨p, ⟨hp, hparent⟩, rfl⟩
    exact ⟨(p.pid, p), ⟨FinMap.mem_entries.2 (hkeyed.mem_values.1 hp), hparent⟩, rfl⟩

theorem mem_reachableLoop {processes : List Process} {reachable : Finset Int}
    (h : ReachableLoop processes backend reachable) {pid : Int} :
    pid ∈ reachable ↔ Reached processes backend pid := mem_of_ends h

theorem reachableLoop_ends (processes : List Process) (backend : Int) :
    ∃ reachable, ReachableLoop processes backend reachable := expand_ends _ _ processes backend

/-- What is reached from a known backend is known. -/
theorem Reached.known {processes : List Process} {pid : Int}
    (hbackend : backend ∈ processes.map (·.pid)) (h : Reached processes backend pid) :
    pid ∈ processes.map (·.pid) := closure_subset hbackend (mem_closure.2 h)

theorem mapM_get?_eq_some {processes : FinMap Int Process} (hkeyed : Keyed processes) :
    ∀ {pids : List Int} {tree : List Process}, pids.mapM processes.get? = some tree →
      tree.map (·.pid) = pids ∧ ∀ p ∈ tree, processes.get? p.pid = some p
  | [], tree, h => by
    cases h
    exact ⟨rfl, nofun⟩
  | pid :: pids, tree, h => by
    rw [List.mapM_cons] at h
    obtain ⟨p, hp, h⟩ := Option.bind_eq_some_iff.1 h
    obtain ⟨rest, hrest, h⟩ := Option.bind_eq_some_iff.1 h
    cases h
    obtain ⟨hpids, hmem⟩ := mapM_get?_eq_some hkeyed hrest
    have hpid := hkeyed pid p hp
    refine ⟨by rw [List.map_cons, hpids, hpid], List.forall_mem_cons.2 ⟨?_, hmem⟩⟩
    rw [hpid]
    exact hp

theorem exists_mapM_get? {processes : FinMap Int Process} : ∀ {pids : List Int},
    (∀ pid ∈ pids, (processes.get? pid).isSome) → ∃ tree, pids.mapM processes.get? = some tree
  | [], _ => ⟨[], rfl⟩
  | pid :: pids, h => by
    rw [List.forall_mem_cons] at h
    obtain ⟨p, hp⟩ := Option.isSome_iff_exists.1 h.1
    obtain ⟨tree, htree⟩ := exists_mapM_get? h.2
    refine ⟨p :: tree, ?_⟩
    rw [List.mapM_cons, hp, htree]
    rfl

/-- **The loop of `process_tree` ends** with the descendants of the backend, in the order of pids. -/
theorem treeLoop_spec (hkeyed : Keyed processes) (hbackend : backend ∈ processes.keys) :
    ∃ tree, TreeLoop processes backend tree ∧ (∀ tree', TreeLoop processes backend tree' → tree' = tree) ∧
      tree.Pairwise (fun p q => p.pid < q.pid) ∧
      (∀ p, p ∈ tree ↔ p ∈ values processes ∧ Reached (values processes) backend p.pid) ∧
      ReachableLoop tree backend (tree.map (·.pid)).toFinset := by
  obtain ⟨selected, hends⟩ := reachableLoop_ends (values processes) backend
  have hloop : Ends (expandTree processes) {backend} selected := by
    rw [hkeyed.expandTree_eq]
    exact hends
  have hpids : ∀ pid, (processes.get? pid).isSome ↔ pid ∈ (values processes).map (·.pid) := by
    intro pid
    rw [List.mem_map]
    constructor
    · intro hsome
      obtain ⟨p, hp⟩ := Option.isSome_iff_exists.1 hsome
      have hpid := hkeyed pid p hp
      exact ⟨p, hkeyed.mem_values.2 (hpid ▸ hp), hpid⟩
    · rintro ⟨p, hp, rfl⟩
      rw [hkeyed.mem_values.1 hp]
      rfl
  have hknown : ∀ pid ∈ selected.sort, (processes.get? pid).isSome := by
    intro pid hpid
    refine (hpids pid).2 (Reached.known ?_ ((mem_reachableLoop hends).1 ((Finset.mem_sort _).1 hpid)))
    exact (hpids backend).1 (FinMap.mem_keys.1 hbackend)
  obtain ⟨tree, htree⟩ := exists_mapM_get? hknown
  obtain ⟨hmap, hvalues⟩ := mapM_get?_eq_some hkeyed htree
  have hmem : ∀ p, p ∈ tree ↔ p ∈ values processes ∧ Reached (values processes) backend p.pid := by
    intro p
    have hiff : p.pid ∈ tree.map (·.pid) ↔ Reached (values processes) backend p.pid := by
      rw [hmap, Finset.mem_sort, mem_reachableLoop hends]
    constructor
    · intro hp
      exact ⟨hkeyed.mem_values.2 (hvalues p hp), hiff.1 (List.mem_map_of_mem hp)⟩
    · rintro ⟨hp, hreached⟩
      obtain ⟨q, hq, hpid⟩ := List.mem_map.1 (hiff.2 hreached)
      have hget := hvalues q hq
      rw [hpid, hkeyed.mem_values.1 hp] at hget
      cases hget
      exact hq
  refine ⟨tree, ⟨selected, hloop, htree⟩, ?_, ?_, hmem, ?_⟩
  · rintro tree' ⟨selected', hloop', htree'⟩
    rw [hloop'.unique hloop, htree] at htree'
    exact (Option.some.inj htree').symm
  · have hsorted := selected.sortedLT_sort.pairwise
    rw [← hmap, List.pairwise_map] at hsorted
    exact hsorted
  · obtain ⟨reachable, hreachable⟩ := reachableLoop_ends tree backend
    have hsame : (tree.map (·.pid)).toFinset = reachable := by
      ext pid
      rw [List.mem_toFinset, mem_reachableLoop hreachable, hmap, Finset.mem_sort,
        mem_reachableLoop hends]
      constructor
      · intro hreached
        refine Descends.mono ?_ (Descends.restrict hreached)
        intro p hp
        obtain ⟨hp, hselected⟩ := List.mem_filter.1 hp
        exact (hmem p).2 ⟨hp, mem_closure.1 (of_decide_eq_true hselected)⟩
      · exact fun hreached => hreached.mono fun p hp => ((hmem p).1 hp).1
    rw [hsame]
    exact hreachable

end Tree

/-! ## The model of the functions -/

theorem keyed_processes (P : Python) (proc : Proc) : Keyed (processes P proc) :=
  fun _ _ h => (mem_processes.1 h).2

/-- `process_tree` returns what its loop ends with. -/
theorem processTree_loop (P : Python) (proc : Proc) {backend : Int}
    (hbackend : backend ∈ (processes P proc).keys) {tree : List Process}
    (h : processTree P proc backend = .ok tree) : TreeLoop (processes P proc) backend tree := by
  obtain ⟨tree', htree', -, hsorted, hmem, -⟩ := treeLoop_spec (keyed_processes P proc) hbackend
  obtain ⟨hspec, hnodup, -, -⟩ := processTree_spec h
  have hsame : ∀ p, p ∈ tree ↔ p ∈ tree' := by
    intro p
    rw [hspec, hmem, InTree, values, mem_entries_processes]
    refine and_congr_right fun _ => ?_
    exact ⟨fun hd => hd.mono fun a ha => mem_entries_processes.2 ha,
      fun hd => hd.mono fun a ha => mem_entries_processes.1 ha⟩
  have hperm : tree.Perm tree' := by
    refine (List.perm_ext_iff_of_nodup (List.Nodup.of_map _ hnodup) ?_).2 hsame
    exact hsorted.imp fun {p q} (hlt : p.pid < q.pid) (heq : p = q) =>
      hlt.ne (congrArg Process.pid heq)
  have hle : tree.Pairwise fun p q => p.pid ≤ q.pid := by
    have : Std.Total fun a b : Process => a.pid ≤ b.pid := ⟨fun a b => le_total a.pid b.pid⟩
    have : IsTrans Process fun a b => a.pid ≤ b.pid := ⟨fun _ _ _ hab hbc => le_trans hab hbc⟩
    simp only [processTree] at h
    split at h
    · cases h
    · cases h
      exact List.pairwise_insertionSort _ _
  have heq : tree = tree' := by
    refine List.Perm.eq_of_pairwise ?_ hle (hsorted.imp le_of_lt) hperm
    intro p q hp hq hpq hqp
    exact found_unique ((hspec p).1 hp).1 ((hspec q).1 ((hsame q).2 hq)).1 (le_antisymm hpq hqp)
  rw [heq]
  exact htree'

/-- The descendants that `validate_identity` compares with the listed pids. -/
theorem closure_loop (processes : List Process) (backend : Int) :
    ReachableLoop processes backend (closure Process.pid Process.parentPid processes backend).toFinset := by
  obtain ⟨reachable, hreachable⟩ := reachableLoop_ends processes backend
  have hsame : (closure Process.pid Process.parentPid processes backend).toFinset = reachable := by
    ext pid
    rw [List.mem_toFinset, mem_closure, mem_reachableLoop hreachable]
    rfl
  rw [hsame]
  exact hreachable

/-- **Both loops end with the processes that are reached from the backend.** -/
theorem closures_exact :
    (∀ processes : FinMap Int Process, Keyed processes → ∀ backend ∈ processes.keys,
      ∃ tree, TreeLoop processes backend tree ∧
        (∀ tree', TreeLoop processes backend tree' → tree' = tree) ∧
        tree.Pairwise (fun p q => p.pid < q.pid) ∧
        (∀ p, p ∈ tree ↔ p ∈ values processes ∧ Reached (values processes) backend p.pid) ∧
        ReachableLoop tree backend (tree.map (·.pid)).toFinset) ∧
    ∀ processes : List Process, (processes.map (·.pid)).Nodup →
      ∀ backend ∈ processes.map (·.pid), ∃ reachable, ReachableLoop processes backend reachable ∧
        (∀ reachable', ReachableLoop processes backend reachable' → reachable' = reachable) ∧
        (reachable = (processes.map (·.pid)).toFinset ↔
          ∀ p ∈ processes, Reached processes backend p.pid) := by
  refine ⟨fun processes hkeyed backend hbackend => treeLoop_spec hkeyed hbackend, ?_⟩
  intro processes _ backend hbackend
  obtain ⟨reachable, hreachable⟩ := reachableLoop_ends processes backend
  refine ⟨reachable, hreachable, fun reachable' h' => h'.unique hreachable, ?_⟩
  constructor
  · rintro rfl p hp
    exact (mem_reachableLoop hreachable).1 (List.mem_toFinset.2 (List.mem_map_of_mem hp))
  · intro hall
    ext pid
    rw [mem_reachableLoop hreachable, List.mem_toFinset]
    constructor
    · exact Reached.known hbackend
    · intro hpid
      obtain ⟨p, hp, rfl⟩ := List.mem_map.1 hpid
      exact hall p hp

/-! ## Example -/

/-- A backend that is its own ancestor, its child, and a process that is its own parent. -/
def cyclicProcesses : FinMap Int Process :=
  .ofList [(5, ⟨5, 5, 0⟩), (3, ⟨3, 2, 7⟩), (2, ⟨2, 3, 9⟩), (4, ⟨4, 99, 1⟩)]

theorem closures_exact_cyclic :
    (∃ tree, TreeLoop cyclicProcesses 3 tree ∧
      (∀ p, p ∈ tree ↔ p ∈ values cyclicProcesses ∧ Reached (values cyclicProcesses) 3 p.pid) ∧
      ReachableLoop tree 3 (tree.map (·.pid)).toFinset) ∧
    ∃ reachable, ReachableLoop [⟨2, 3, 9⟩, ⟨3, 2, 7⟩] 3 reachable := by
  have hkeyed : Keyed cyclicProcesses := by
    intro k p h
    have hall : ∀ e ∈ cyclicProcesses.entries, e.2.pid = e.1 := by decide +kernel
    exact hall (k, p) (FinMap.mem_entries.2 h)
  obtain ⟨tree, htree, -, -, hmem, hreachable⟩ :=
    closures_exact.1 cyclicProcesses hkeyed 3 (by decide +kernel)
  obtain ⟨reachable, hends, -⟩ :=
    closures_exact.2 [⟨2, 3, 9⟩, ⟨3, 2, 7⟩] (by decide) 3 (by decide)
  exact ⟨⟨tree, htree, hmem, hreachable⟩, reachable, hends⟩

end ReedCode.MetricsIdentity
