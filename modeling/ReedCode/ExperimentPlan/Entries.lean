import Mathlib.Data.List.Nodup
import Mathlib.Data.List.Count
import ReedCode.ExperimentPlan.Plan

/-!
# What a plan of blocks contains

Both plans are blocks laid out one after another, each with the runs of one task and repeat.

* `Entry`, `Block.entries` — what the statements read of a run.
* `Complete` — every task, repeat and condition once, and the runs of a task and repeat together.
* `orderOf_blocks`, `firsts_blocks` — the order of a task and repeat is that of its block.
* `complete_of_blocks` — blocks for every task and repeat, in any order, make a complete plan.
-/

set_option autoImplicit false

universe u

namespace ReedCode.ExperimentPlan

structure Entry (C : Type u) where
  task : String
  repeatNumber : Nat
  position : Nat
  condition : C
  deriving DecidableEq, Repr

variable {C : Type u}

def Block.entries (block : Block C) : List (Entry C) :=
  (enumerate block.order).map fun entry => ⟨block.task, block.repeatNumber, entry.2, entry.1⟩

def Block.key (block : Block C) : String × Nat := (block.task, block.repeatNumber)

/-- The order of the conditions of a task and repeat. -/
def orderOf (entries : List (Entry C)) (task : String) (repeatNumber : Nat) : List C :=
  (entries.filter fun e => e.task = task ∧ e.repeatNumber = repeatNumber).map Entry.condition

structure Complete [DecidableEq C] (tasks : List String) (repeats : Nat) (conditions : List C)
    (entries : List (Entry C)) : Prop where
  once : ∀ task ∈ tasks, ∀ r, 1 ≤ r → r ≤ repeats → ∀ c ∈ conditions,
    entries.countP (fun e => e.task = task ∧ e.repeatNumber = r ∧ e.condition = c) = 1
  only : ∀ e ∈ entries, e.task ∈ tasks ∧ 1 ≤ e.repeatNumber ∧ e.repeatNumber ≤ repeats ∧
    e.condition ∈ conditions
  consecutive : ∀ task ∈ tasks, ∀ r, 1 ≤ r → r ≤ repeats → ∃ before group after,
    entries = before ++ group ++ after ∧ (∀ e ∈ group, e.task = task ∧ e.repeatNumber = r) ∧
    group.map Entry.position = List.range' 1 conditions.length

/-! ## One block -/

theorem entries_key {block : Block C} {e : Entry C} (h : e ∈ block.entries) :
    e.task = block.task ∧ e.repeatNumber = block.repeatNumber := by
  obtain ⟨entry, -, rfl⟩ := List.mem_map.1 h
  exact ⟨rfl, rfl⟩

theorem entries_condition (block : Block C) :
    block.entries.map Entry.condition = block.order := by
  rw [Block.entries, List.map_map]
  exact List.zipIdx_map_fst 1 block.order

theorem entries_position (block : Block C) :
    block.entries.map Entry.position = List.range' 1 block.order.length := by
  rw [Block.entries, List.map_map]
  exact List.zipIdx_map_snd 1 block.order

/-! ## All blocks -/

theorem orderOf_append (xs ys : List (Entry C)) (task : String) (r : Nat) :
    orderOf (xs ++ ys) task r = orderOf xs task r ++ orderOf ys task r := by
  rw [orderOf, List.filter_append, List.map_append]
  rfl

theorem orderOf_entries (block : Block C) (task : String) (r : Nat) :
    orderOf block.entries task r = if block.key = (task, r) then block.order else [] := by
  unfold orderOf
  split
  · rename_i h
    obtain ⟨htask, hr⟩ := Prod.mk.inj h
    rw [List.filter_eq_self.2, entries_condition]
    intro e he
    rw [(entries_key he).1, (entries_key he).2, htask, hr]
    simp
  · rename_i h
    rw [List.filter_eq_nil_iff.2, List.map_nil]
    intro e he hmatch
    rw [decide_eq_true_eq, (entries_key he).1, (entries_key he).2] at hmatch
    exact h (Prod.ext hmatch.1 hmatch.2)

theorem orderOf_missing : ∀ {blocks : List (Block C)} {task : String} {r : Nat},
    (task, r) ∉ blocks.map Block.key → orderOf (blocks.flatMap Block.entries) task r = []
  | [], _, _, _ => rfl
  | block :: blocks, task, r, h => by
    rw [List.map_cons, List.mem_cons, not_or] at h
    rw [List.flatMap_cons, orderOf_append, orderOf_entries, if_neg (Ne.symm h.1),
      orderOf_missing h.2]
    rfl

/-- The order of a task and repeat is that of its block. -/
theorem orderOf_blocks : ∀ {blocks : List (Block C)} {block : Block C},
    (blocks.map Block.key).Nodup → block ∈ blocks →
      orderOf (blocks.flatMap Block.entries) block.task block.repeatNumber = block.order
  | first :: blocks, block, hnodup, hblock => by
    rw [List.map_cons, List.nodup_cons] at hnodup
    rw [List.flatMap_cons, orderOf_append, orderOf_entries]
    by_cases hfirst : block = first
    · subst hfirst
      have hkey : block.key = (block.task, block.repeatNumber) := rfl
      rw [if_pos hkey, orderOf_missing hnodup.1, List.append_nil]
    · have hin : block ∈ blocks := (List.mem_cons.1 hblock).resolve_left hfirst
      rw [if_neg, List.nil_append, orderOf_blocks hnodup.2 hin]
      intro hkey
      exact hnodup.1 (hkey ▸ List.mem_map_of_mem hin)

/-- The tasks and repeats of a plan. -/
def keys (tasks : List String) (repeats : Nat) : List (String × Nat) :=
  tasks.flatMap fun task => (List.range' 1 repeats).map (task, ·)

theorem mem_keys {tasks : List String} {repeats : Nat} {task : String} {r : Nat} :
    (task, r) ∈ keys tasks repeats ↔ task ∈ tasks ∧ 1 ≤ r ∧ r ≤ repeats := by
  rw [keys, List.mem_flatMap]
  constructor
  · rintro ⟨task', htask, hin⟩
    obtain ⟨r', hr, he⟩ := List.mem_map.1 hin
    cases he
    rw [List.mem_range'_1] at hr
    exact ⟨htask, hr.1, by omega⟩
  · rintro ⟨htask, hpos, hle⟩
    exact ⟨task, htask, List.mem_map.2 ⟨r, List.mem_range'_1.2 ⟨hpos, by omega⟩, rfl⟩⟩

theorem keys_nodup {tasks : List String} (h : tasks.Nodup) (repeats : Nat) :
    (keys tasks repeats).Nodup := by
  rw [keys, List.nodup_flatMap]
  constructor
  · exact fun task _ => (List.nodup_range' 1).map fun r r' he => (Prod.mk.inj he).2
  · refine h.imp fun hne => ?_
    intro key hkey hkey'
    obtain ⟨r, -, rfl⟩ := List.mem_map.1 hkey
    obtain ⟨r', -, he⟩ := List.mem_map.1 hkey'
    exact hne (Prod.mk.inj he).1.symm

/-- The blocks of one task. -/
def ofTask (task : String) (blocks : List (Block C)) : List (Block C) :=
  blocks.filter fun block => block.task = task

theorem ofTask_append (task : String) (xs ys : List (Block C)) :
    ofTask task (xs ++ ys) = ofTask task xs ++ ofTask task ys := List.filter_append ..

theorem ofTask_all {task : String} {blocks : List (Block C)}
    (h : ∀ block ∈ blocks, block.task = task) : ofTask task blocks = blocks :=
  List.filter_eq_self.2 fun block hblock => decide_eq_true (h block hblock)

theorem ofTask_none {task : String} {blocks : List (Block C)}
    (h : ∀ block ∈ blocks, block.task ≠ task) : ofTask task blocks = [] :=
  List.filter_eq_nil_iff.2 fun block hblock he => h block hblock (of_decide_eq_true he)

theorem mem_ofTask {block : Block C} {blocks : List (Block C)} (h : block ∈ blocks) :
    block ∈ ofTask block.task blocks := List.mem_filter.2 ⟨h, decide_eq_true rfl⟩

/-- The blocks of one more task in front. -/
theorem ofTask_cons {tasks : List String} {repeats : Nat} {task : String}
    {first rest : List (Block C)} (hfirst : first.map Block.key = (List.range' 1 repeats).map (task, ·))
    (hrest : rest.map Block.key = keys tasks repeats) (hnot : task ∉ tasks) :
    (first ++ rest).map Block.key = keys (task :: tasks) repeats ∧
    ofTask task (first ++ rest) = first ∧
    ∀ task' ∈ tasks, ofTask task' (first ++ rest) = ofTask task' rest := by
  have hin : ∀ block ∈ first, block.task = task := by
    intro block hblock
    obtain ⟨r, -, hkey⟩ := List.mem_map.1 (hfirst ▸ List.mem_map_of_mem hblock)
    exact (Prod.mk.inj hkey).1.symm
  have hout : ∀ block ∈ rest, block.task ∈ tasks := fun block hblock =>
    (mem_keys.1 (hrest ▸ List.mem_map_of_mem hblock : block.key ∈ keys tasks repeats)).1
  refine ⟨by rw [List.map_append, hfirst, hrest]; rfl, ?_, fun task' htask' => ?_⟩
  · rw [ofTask_append, ofTask_all hin, ofTask_none, List.append_nil]
    intro block hblock he
    exact hnot (he ▸ hout block hblock)
  · rw [ofTask_append, ofTask_none, List.nil_append]
    intro block hblock he
    rw [← hin block hblock, he] at hnot
    exact hnot htask'

theorem filter_keys {repeats : Nat} {task : String} : ∀ {tasks : List String}, tasks.Nodup →
    task ∈ tasks → ((keys tasks repeats).filter fun key => key.1 = task) =
      (List.range' 1 repeats).map (task, ·)
  | first :: tasks, hnodup, htask => by
    obtain ⟨hnot, hrest⟩ := List.nodup_cons.1 hnodup
    rw [keys, List.flatMap_cons, List.filter_append]
    by_cases he : first = task
    · subst he
      rw [List.filter_eq_self.2, List.filter_eq_nil_iff.2, List.append_nil]
      · rintro ⟨task, r⟩ hkey he
        rw [decide_eq_true_eq] at he
        subst he
        exact hnot (@mem_keys tasks repeats task r |>.1 hkey).1
      · intro key hkey
        obtain ⟨r, -, rfl⟩ := List.mem_map.1 hkey
        exact decide_eq_true rfl
    · have hin : task ∈ tasks := (List.mem_cons.1 htask).resolve_left (Ne.symm he)
      rw [List.filter_eq_nil_iff.2, List.nil_append]
      · exact filter_keys hrest hin
      · intro key hkey
        obtain ⟨r, -, rfl⟩ := List.mem_map.1 hkey
        simpa using he

section OfTask

variable {tasks : List String} {repeats : Nat} {blocks blocks' : List (Block C)} {task : String}

theorem key_ofTask (htasks : tasks.Nodup) (hkeys : blocks.map Block.key = keys tasks repeats)
    (htask : task ∈ tasks) :
    (ofTask task blocks).map Block.key = (List.range' 1 repeats).map (task, ·) := by
  rw [← filter_keys htasks htask, ← hkeys, List.filter_map]
  rfl

theorem length_ofTask (htasks : tasks.Nodup) (hkeys : blocks.map Block.key = keys tasks repeats)
    (htask : task ∈ tasks) : (ofTask task blocks).length = repeats := by
  have hlength := congrArg List.length (key_ofTask htasks hkeys htask)
  rwa [List.length_map, List.length_map, List.length_range'] at hlength

/-- The orders of a task, however the blocks are rearranged. -/
theorem orderOf_ofTask {r : Nat} (htasks : tasks.Nodup)
    (hkeys : blocks.map Block.key = keys tasks repeats) (hperm : blocks'.Perm blocks)
    (htask : task ∈ tasks) (hr : r < repeats) :
    ((ofTask task blocks).map Block.order)[r]? =
      some (orderOf (blocks'.flatMap Block.entries) task (r + 1)) := by
  have hnodup : (blocks'.map Block.key).Nodup := by
    rw [(hperm.map Block.key).nodup_iff, hkeys]
    exact keys_nodup htasks repeats
  have hkey : ((ofTask task blocks).map Block.key)[r]? = some (task, 1 + 1 * r) := by
    rw [key_ofTask htasks hkeys htask, List.getElem?_map, List.getElem?_range' hr]
    rfl
  obtain ⟨block, hblock, he⟩ := Option.map_eq_some_iff.1 ((List.getElem?_map ..).symm.trans hkey)
  obtain ⟨rfl, hnumber⟩ := Prod.mk.inj he
  have hin : block ∈ blocks' :=
    hperm.mem_iff.2 (List.mem_of_mem_filter (List.mem_of_getElem? hblock))
  have hr' : r + 1 = block.repeatNumber := by omega
  rw [List.getElem?_map, hblock, hr', orderOf_blocks hnodup hin]
  rfl

end OfTask

/-- **Blocks for every task and repeat**, in any order, make a complete plan. -/
theorem complete_of_blocks [DecidableEq C] {tasks : List String} {repeats : Nat}
    {conditions : List C} {blocks : List (Block C)} (htasks : tasks.Nodup)
    (hconditions : conditions.Nodup) (hkeys : (blocks.map Block.key).Perm (keys tasks repeats))
    (horders : ∀ block ∈ blocks, block.order.Perm conditions) :
    Complete tasks repeats conditions (blocks.flatMap Block.entries) := by
  have hnodup : (blocks.map Block.key).Nodup := hkeys.nodup_iff.2 (keys_nodup htasks repeats)
  have hblock : ∀ task ∈ tasks, ∀ r, 1 ≤ r → r ≤ repeats →
      ∃ block ∈ blocks, block.task = task ∧ block.repeatNumber = r := by
    intro task htask r hpos hle
    obtain ⟨block, hin, hkey⟩ :=
      List.mem_map.1 (hkeys.mem_iff.2 (mem_keys.2 ⟨htask, hpos, hle⟩))
    exact ⟨block, hin, (Prod.mk.inj hkey).1, (Prod.mk.inj hkey).2⟩
  refine ⟨?_, ?_, ?_⟩
  · intro task htask r hpos hle c hc
    obtain ⟨block, hin, rfl, rfl⟩ := hblock task htask r hpos hle
    have hcount : (blocks.flatMap Block.entries).countP (fun e => e.task = block.task ∧
        e.repeatNumber = block.repeatNumber ∧ e.condition = c) =
          (orderOf (blocks.flatMap Block.entries) block.task block.repeatNumber).count c := by
      rw [orderOf, List.count, List.countP_map, List.countP_filter]
      refine List.countP_congr fun e _ => ?_
      simp only [Function.comp_apply, beq_iff_eq, decide_eq_true_eq, Bool.and_eq_true]
      tauto
    rw [hcount, orderOf_blocks hnodup hin, (horders block hin).count_eq,
      List.count_eq_one_of_mem hconditions hc]
  · intro e he
    obtain ⟨block, hin, hentry⟩ := List.mem_flatMap.1 he
    obtain ⟨htask, hr⟩ := entries_key hentry
    have hkey := mem_keys.1 (hkeys.mem_iff.1 (List.mem_map_of_mem hin))
    rw [htask, hr]
    refine ⟨hkey.1, hkey.2.1, hkey.2.2, (horders block hin).mem_iff.1 ?_⟩
    rw [← entries_condition]
    exact List.mem_map_of_mem hentry
  · intro task htask r hpos hle
    obtain ⟨block, hin, rfl, rfl⟩ := hblock task htask r hpos hle
    obtain ⟨before, after, rfl⟩ := List.append_of_mem hin
    refine ⟨before.flatMap Block.entries, block.entries, after.flatMap Block.entries, ?_,
      fun e he => entries_key he, ?_⟩
    · rw [List.flatMap_append, List.flatMap_cons, List.append_assoc]
    · rw [entries_position, (horders block (by simp)).length_eq]

end ReedCode.ExperimentPlan
