import Mathlib.Data.List.Permutation
import ReedCode.ExperimentPlan.Entries

/-!
# The plans are complete and balanced

* `Pooled` — orders that come in groups of six, each group the front of a rearranged pool.
* `Retention.taskBlocks_spec`, `Retention.allBlocks_spec` — the pool is refilled when empty.
* `Prefill.firsts_task` — as many orders begin with off as with on, but for one.
* `buildPlans_balanced` — **whatever the shuffles, both plans are complete, have distinct run ids
  and are balanced.**
-/

set_option autoImplicit false

namespace ReedCode.ExperimentPlan

namespace Retention

def Run.entry (run : Run) : Entry Condition :=
  ⟨run.task, run.repeatNumber, run.position, run.condition⟩

/-- Groups of six, each the front of a rearrangement of the six orders. -/
def Pooled (orders : List (List Condition)) : Prop :=
  ∀ k, ∃ pool : List (List Condition), pool.Perm permutations ∧
    (orders.drop (6 * k)).take 6 <+: pool

theorem pooled_nil : Pooled [] := fun _ => ⟨permutations, .refl _, by simp⟩

/-- A new pool in front. -/
theorem pooled_of_take {orders pool : List (List Condition)} (hpool : pool.Perm permutations)
    (hfront : orders.take 6 <+: pool) (hrest : Pooled (orders.drop 6)) : Pooled orders
  | 0 => ⟨pool, hpool, hfront⟩
  | k + 1 => by
    obtain ⟨pool', hperm, hgroup⟩ := hrest k
    refine ⟨pool', hperm, ?_⟩
    rw [List.drop_drop] at hgroup
    rw [Nat.mul_succ, Nat.add_comm]
    exact hgroup

/-- The orders of a task: what is left of the pool, from its end, and then new pools. -/
theorem taskBlocks_spec (shuffles : Nat → Shuffle (List Condition)) (task : String) :
    ∀ (rest : List Nat) (draws : Nat) (orders : List (List Condition)), ∃ draws' blocks,
      taskBlocks shuffles task rest draws orders = .ok (draws', blocks) ∧
      blocks.map Block.key = rest.map (task, ·) ∧
      (blocks.map Block.order).take orders.length <+: orders.reverse ∧
      Pooled ((blocks.map Block.order).drop orders.length)
  | [], draws, orders => ⟨draws, [], rfl, rfl, by simp, by simpa using pooled_nil⟩
  | repeatNumber :: rest, draws, orders => by
    -- one order is taken from the end of a pool
    have hpop : ∀ draws front order, ∃ draws' blocks,
        taskBlocks shuffles task rest draws front = .ok (draws', blocks) ∧
        (⟨task, repeatNumber, order⟩ :: blocks).map Block.key = (repeatNumber :: rest).map (task, ·) ∧
        ((⟨task, repeatNumber, order⟩ :: blocks).map Block.order).take (front.length + 1) <+:
          (front ++ [order]).reverse ∧
        Pooled (((⟨task, repeatNumber, order⟩ :: blocks).map Block.order).drop
          (front.length + 1)) := by
      intro draws front order
      obtain ⟨draws', blocks, hblocks, hkeys, hfront, hpooled⟩ :=
        taskBlocks_spec shuffles task rest draws front
      refine ⟨draws', blocks, hblocks, by rw [List.map_cons, List.map_cons, hkeys]; rfl, ?_, ?_⟩
      · rw [List.map_cons, List.take_succ_cons, List.reverse_append]
        exact List.prefix_cons_inj order |>.2 hfront
      · rw [List.map_cons, List.drop_succ_cons]
        exact hpooled
    rw [taskBlocks]
    by_cases hempty : orders = []
    · have hperm := (shuffles draws).perm permutations
      have hlength : ((shuffles draws).run permutations).length = 6 := hperm.length_eq
      rcases List.eq_nil_or_concat' ((shuffles draws).run permutations) with hnil | ⟨front, order, hrun⟩
      · rw [hnil] at hlength
        cases hlength
      · obtain ⟨draws', blocks, hblocks, hkeys, hfront, hpooled⟩ := hpop (draws + 1) front order
        rw [hrun, List.length_append, List.length_singleton] at hlength
        have hsix : front.length + 1 = 6 := hlength
        rw [hsix] at hfront hpooled
        rw [if_pos hempty]
        dsimp only
        rw [hrun, List.getLast?_concat, List.dropLast_concat, hempty]
        dsimp only
        refine ⟨draws', ⟨task, repeatNumber, order⟩ :: blocks, by rw [hblocks]; rfl, hkeys,
          by simp, ?_⟩
        refine pooled_of_take ?_ hfront hpooled
        rw [← hrun]
        exact (List.reverse_perm _).trans hperm
    · obtain ⟨front, order, rfl⟩ := (List.eq_nil_or_concat' orders).resolve_left hempty
      obtain ⟨draws', blocks, hblocks, hkeys, hfront, hpooled⟩ := hpop draws front order
      rw [if_neg hempty]
      dsimp only
      rw [List.getLast?_concat, List.dropLast_concat]
      dsimp only
      rw [List.length_append, List.length_singleton]
      exact ⟨draws', ⟨task, repeatNumber, order⟩ :: blocks, by rw [hblocks]; rfl, hkeys, hfront,
        hpooled⟩

/-! ## Groups of six -/

theorem permutations_nodup : permutations.Nodup := by decide

theorem mem_permutations {order : List Condition} : order ∈ permutations ↔ order.Perm conditions := by
  have hperm : ∀ order ∈ permutations, order.Perm conditions := by decide
  have hall : ∀ order ∈ conditions.permutations', order ∈ permutations := by decide
  exact ⟨hperm order, fun h => hall order (List.mem_permutations'.2 h)⟩

/-- The place of an order in its group. -/
theorem getElem?_group {orders : List (List Condition)} {k i : Nat} (hi : i < 6) :
    ((orders.drop (6 * k)).take 6)[i]? = orders[6 * k + i]? := by
  rw [List.getElem?_take_of_lt hi, List.getElem?_drop]

theorem Pooled.mem {orders : List (List Condition)} (h : Pooled orders) {order : List Condition}
    (horder : order ∈ orders) : order ∈ permutations := by
  obtain ⟨n, hn⟩ := List.mem_iff_getElem?.1 horder
  obtain ⟨pool, hperm, hgroup⟩ := h (n / 6)
  have hplace : ((orders.drop (6 * (n / 6))).take 6)[n % 6]? = some order := by
    rw [getElem?_group (Nat.mod_lt n (by decide)), Nat.div_add_mod, hn]
  exact hperm.mem_iff.1 (hgroup.subset (List.mem_of_getElem? hplace))

/-- No order comes twice in a group. -/
theorem Pooled.distinct {orders : List (List Condition)} (h : Pooled orders) {k i j : Nat}
    (hij : i < j) (hj : j < 6) (hlength : 6 * k + j < orders.length) :
    orders[6 * k + i]? ≠ orders[6 * k + j]? := by
  obtain ⟨pool, hperm, hgroup⟩ := h k
  have hnodup : ((orders.drop (6 * k)).take 6).Nodup :=
    hgroup.sublist.nodup (hperm.nodup_iff.2 permutations_nodup)
  rw [← getElem?_group (hij.trans hj), ← getElem?_group hj]
  refine List.nodup_iff_getElem?_ne_getElem?.1 hnodup i j hij ?_
  rw [List.length_take, List.length_drop]
  omega

/-- A full group has all six orders. -/
theorem Pooled.all {orders : List (List Condition)} (h : Pooled orders) {k : Nat}
    (hlength : 6 * k + 6 ≤ orders.length) {order : List Condition} (horder : order ∈ permutations) :
    ∃ i < 6, orders[6 * k + i]? = some order := by
  obtain ⟨pool, hperm, hgroup⟩ := h k
  have hfull : (orders.drop (6 * k)).take 6 = pool := by
    refine hgroup.eq_of_length ?_
    rw [hperm.length_eq, List.length_take, List.length_drop, permutations]
    simp only [List.length_cons, List.length_nil]
    omega
  obtain ⟨i, hi⟩ := List.mem_iff_getElem?.1 (hfull ▸ hperm.mem_iff.2 horder)
  have hlt : i < 6 := by
    have hsome := (List.getElem?_eq_some_iff.1 hi).1
    rw [List.length_take] at hsome
    omega
  exact ⟨i, hlt, by rw [← getElem?_group hlt, hi]⟩

/-! ## All tasks -/

theorem allBlocks_spec (shuffles : Nat → Shuffle (List Condition)) (repeats : Nat) :
    ∀ (tasks : List String) (draws : Nat), tasks.Nodup → ∃ blocks,
      allBlocks shuffles repeats tasks draws = .ok blocks ∧
      blocks.map Block.key = keys tasks repeats ∧
      ∀ task ∈ tasks, Pooled ((ofTask task blocks).map Block.order)
  | [], draws, _ => ⟨[], rfl, rfl, fun _ h => (by cases h)⟩
  | task :: tasks, draws, hnodup => by
    obtain ⟨hnot, hrest⟩ := List.nodup_cons.1 hnodup
    obtain ⟨draws', first, hfirst, hkeys, -, hpooled⟩ :=
      taskBlocks_spec shuffles task (List.range' 1 repeats) draws []
    obtain ⟨rest, hblocks, hrestKeys, hrestPooled⟩ :=
      allBlocks_spec shuffles repeats tasks draws' hrest
    obtain ⟨hall, hown, hothers⟩ := ofTask_cons hkeys hrestKeys hnot
    refine ⟨first ++ rest, ?_, hall, ?_⟩
    · rw [allBlocks, hfirst]
      change (allBlocks shuffles repeats tasks draws').bind _ = _
      rw [hblocks]
      rfl
    · refine List.forall_mem_cons.2 ⟨?_, fun task' htask' => ?_⟩
      · rw [hown]
        simpa using hpooled
      · rw [hothers task' htask']
        exact hrestPooled task' htask'

/-- For each task the repeats `6k+1 … 6k+6` use different orders, and all six if there are six. -/
structure Balanced (tasks : List String) (repeats : Nat) (entries : List (Entry Condition)) :
    Prop where
  distinct : ∀ task ∈ tasks, ∀ k i j, i < j → j < 6 → 6 * k + j + 1 ≤ repeats →
    orderOf entries task (6 * k + i + 1) ≠ orderOf entries task (6 * k + j + 1)
  all : ∀ task ∈ tasks, ∀ k, 6 * k + 6 ≤ repeats → ∀ order : List Condition,
    order.Perm conditions → ∃ i < 6, orderOf entries task (6 * k + i + 1) = order

theorem balanced_of_pooled {tasks : List String} {repeats : Nat}
    {blocks blocks' : List (Block Condition)} (htasks : tasks.Nodup)
    (hkeys : blocks.map Block.key = keys tasks repeats) (hperm : blocks'.Perm blocks)
    (hpooled : ∀ task ∈ tasks, Pooled ((ofTask task blocks).map Block.order)) :
    Balanced tasks repeats (blocks'.flatMap Block.entries) := by
  have hget := fun task htask r => @orderOf_ofTask _ _ _ _ _ task r htasks hkeys hperm htask
  have hlength : ∀ task ∈ tasks, ((ofTask task blocks).map Block.order).length = repeats :=
    fun task htask => by rw [List.length_map, length_ofTask htasks hkeys htask]
  constructor
  · intro task htask k i j hij hj hle heq
    refine (hpooled task htask).distinct (k := k) hij hj (by rw [hlength task htask]; omega) ?_
    rw [hget task htask _ (by omega), hget task htask _ (by omega)]
    exact congrArg some heq
  · intro task htask k hle order horder
    obtain ⟨i, hi, hsome⟩ := (hpooled task htask).all (k := k) (by rw [hlength task htask]; omega)
      (mem_permutations.2 horder)
    rw [hget task htask _ (by omega)] at hsome
    exact ⟨i, hi, Option.some.inj hsome⟩

/-! ## Run ids -/

theorem name_injective {c c' : Condition} (h : c.name = c'.name) : c = c' := by
  cases c <;> cases c' <;> first | rfl | exact absurd h (by decide)

theorem runId_injective {i j r r' : Nat} {c c' : Condition} (h : runId i r c = runId j r' c') :
    i = j ∧ c = c' := by
  have hchars := congrArg String.toList h
  simp only [runId, String.toList_append, String.toList_ofList, List.append_assoc] at hchars
  have hstart : 'b' :: (Digits.zeroPad 3 i ++ '_' :: 'r' :: (Digits.zeroPad 0 r ++
      '_' :: c.name.toList)) = 'b' :: (Digits.zeroPad 3 j ++ '_' :: 'r' ::
        (Digits.zeroPad 0 r' ++ '_' :: c'.name.toList)) := hchars
  obtain ⟨hblock, hrest⟩ := Digits.append_cons_inj (Digits.zeroPad_ne rfl) (Digits.zeroPad_ne rfl)
    (List.cons.inj hstart).2
  obtain ⟨-, hname⟩ := Digits.append_cons_inj (Digits.zeroPad_ne rfl) (Digits.zeroPad_ne rfl)
    (List.cons.inj hrest).2
  exact ⟨Digits.zeroPad_inj hblock, name_injective (String.toList_injective hname)⟩

theorem runIds_nodup {blocks : List (Block Condition)}
    (horders : ∀ block ∈ blocks, block.order.Nodup) :
    (((enumerate blocks).flatMap blockRuns).map Run.runId).Nodup := by
  rw [List.map_flatMap, List.nodup_flatMap]
  constructor
  · intro block hblock
    have hin : block.1 ∈ blocks := List.fst_mem_of_mem_zipIdx hblock
    have hids : (blockRuns block).map Run.runId =
        block.1.order.map (runId block.2 block.1.repeatNumber) := by
      conv_rhs => rw [← List.zipIdx_map_fst 1 block.1.order, List.map_map]
      rw [blockRuns, List.map_map]
      rfl
    rw [hids]
    exact (horders block.1 hin).map fun c c' he => (runId_injective he).2
  · have hnumbers : (enumerate blocks).Pairwise fun a b => a.2 ≠ b.2 := by
      rw [← @List.pairwise_map _ _ Prod.snd (· ≠ ·), enumerate, List.zipIdx_map_snd]
      exact List.nodup_range' 1
    refine hnumbers.imp fun hne => ?_
    intro id hid hid'
    obtain ⟨run, hrun, rfl⟩ := List.mem_map.1 hid
    obtain ⟨run', hrun', he⟩ := List.mem_map.1 hid'
    obtain ⟨e, -, rfl⟩ := List.mem_map.1 hrun
    obtain ⟨e', -, rfl⟩ := List.mem_map.1 hrun'
    exact hne (runId_injective he).1.symm

theorem entry_blockRuns (blocks : List (Block Condition)) :
    ((enumerate blocks).flatMap blockRuns).map Run.entry = blocks.flatMap Block.entries := by
  rw [List.map_flatMap]
  conv_rhs => rw [← List.zipIdx_map_fst 1 blocks, List.flatMap_map]
  refine congrArg (List.flatMap · (enumerate blocks)) (funext fun block => ?_)
  rw [blockRuns, List.map_map]
  rfl

/-- What a plan is. -/
theorem buildPlan_spec (shuffles : Nat → Shuffle (List Condition))
    (shuffle : Shuffle (Block Condition)) (tasks : List String) (repeats : Nat) :
    ((∃ plan, buildPlan shuffles shuffle tasks repeats = .ok plan) ↔
      1 ≤ repeats ∧ tasks ≠ [] ∧ tasks.Nodup) ∧
    ∀ plan, buildPlan shuffles shuffle tasks repeats = .ok plan →
      Complete tasks repeats conditions (plan.map Run.entry) ∧ (plan.map Run.runId).Nodup ∧
        Balanced tasks repeats (plan.map Run.entry) := by
  have hcheck : ¬ (repeats < 1 ∨ tasks = [] ∨ ¬ tasks.Nodup) ↔
      1 ≤ repeats ∧ tasks ≠ [] ∧ tasks.Nodup := by
    rw [not_or, not_or, Nat.not_lt, Classical.not_not]
  unfold buildPlan
  simp only [Except.bind_eq_ok_iff, Except.failIf_eq_ok, exists_const, hcheck]
  constructor
  · constructor
    · rintro ⟨plan, hok, -⟩
      exact hok
    · intro hok
      obtain ⟨blocks, hblocks, -, -⟩ := allBlocks_spec shuffles repeats tasks 0 hok.2.2
      exact ⟨_, hok, blocks, hblocks, rfl⟩
  · rintro plan ⟨⟨hrepeats, -, htasks⟩, blocks, hblocks, hplan⟩
    cases hplan
    obtain ⟨blocks', hblocks', hkeys, hpooled⟩ := allBlocks_spec shuffles repeats tasks 0 htasks
    rw [hblocks] at hblocks'
    cases hblocks'
    have hperm := shuffle.perm blocks
    have horders : ∀ block ∈ shuffle.run blocks, block.order.Perm conditions := by
      intro block hblock
      have hin := hperm.mem_iff.1 hblock
      have htask := (mem_keys.1 (hkeys ▸ List.mem_map_of_mem hin : block.key ∈ keys tasks repeats)).1
      exact mem_permutations.1 ((hpooled block.task htask).mem
        (List.mem_map_of_mem (mem_ofTask hin)))
    rw [entry_blockRuns]
    exact ⟨complete_of_blocks htasks (by decide) (hkeys ▸ hperm.map Block.key) horders,
      runIds_nodup fun block hblock => (horders block hblock).nodup_iff.2 (by decide),
      balanced_of_pooled htasks hkeys hperm hpooled⟩

end Retention

/-! ## Off and on -/

/-- How often a condition comes first in the pairs of a task. -/
def firsts {C : Type} [DecidableEq C] (entries : List (Entry C)) (task : String) (c : C) : Nat :=
  entries.countP fun e => e.task = task ∧ e.position = 1 ∧ e.condition = c

theorem firsts_entries {C : Type} [DecidableEq C] (block : Block C) (task : String) (c : C) :
    firsts block.entries task c =
      if block.task = task ∧ block.order.head? = some c then 1 else 0 := by
  have hlate : ∀ (rest : List C) (k : Nat), 1 < k → firsts ((rest.zipIdx k).map fun entry =>
      (⟨block.task, block.repeatNumber, entry.2, entry.1⟩ : Entry C)) task c = 0 := by
    intro rest k hk
    rw [firsts, List.countP_eq_zero]
    intro e he
    obtain ⟨entry, hentry, rfl⟩ := List.mem_map.1 he
    have hle := List.le_snd_of_mem_zipIdx hentry
    rw [decide_eq_true_eq]
    rintro ⟨-, hone, -⟩
    dsimp only at hone
    omega
  unfold Block.entries enumerate
  cases block.order with
  | nil => simp [firsts]
  | cons first rest =>
    rw [List.zipIdx_cons, List.map_cons]
    have hrest := hlate rest 2 (by decide)
    unfold firsts at hrest ⊢
    rw [List.countP_cons, hrest]
    simp

theorem firsts_blocks {C : Type} [DecidableEq C] (task : String) (c : C) :
    ∀ blocks : List (Block C), firsts (blocks.flatMap Block.entries) task c =
      ((ofTask task blocks).map Block.order).countP fun order => order.head? = some c
  | [] => rfl
  | block :: blocks => by
    have hhead : firsts (block.entries ++ blocks.flatMap Block.entries) task c =
        firsts block.entries task c + firsts (blocks.flatMap Block.entries) task c :=
      List.countP_append
    rw [List.flatMap_cons, hhead, firsts_entries, firsts_blocks task c blocks]
    by_cases htask : block.task = task
    · have hcons : ofTask task (block :: blocks) = block :: ofTask task blocks :=
        List.filter_cons_of_pos (decide_eq_true htask)
      rw [hcons, List.map_cons, List.countP_cons, Nat.add_comm]
      simp [htask]
    · have hskip : ofTask task (block :: blocks) = ofTask task blocks :=
        List.filter_cons_of_neg (by simpa using htask)
      rw [hskip, if_neg fun h => htask h.1, Nat.zero_add]

namespace Prefill

def conditions : List Condition := [.off, .on]

def Run.entry (run : Run) : Entry Condition :=
  ⟨run.task, run.repeatNumber, run.position, run.condition⟩

theorem mem_orders {repeats : Nat} {order : List Condition} (h : order ∈ orders repeats) :
    order = [.off, .on] ∨ order = [.on, .off] := by
  obtain ⟨pair, hpair, hin⟩ := List.mem_flatten.1 h
  rw [List.eq_of_mem_replicate hpair] at hin
  simpa using hin

theorem length_orders (repeats : Nat) : (orders repeats).length = 2 * ((repeats + 1) / 2) := by
  simp [orders, Nat.mul_comm]

/-- As many begin with off as with on. -/
theorem countP_orders (repeats : Nat) (c : Condition) :
    (orders repeats).countP (fun order => order.head? = some c) = (repeats + 1) / 2 := by
  rw [orders]
  induction (repeats + 1) / 2 with
  | zero => rfl
  | succ n ih =>
    rw [List.replicate_succ, List.flatten_cons, List.countP_append, ih, Nat.add_comm]
    cases c <;> rfl

/-- Cut to the number of repeats, they differ by at most one. -/
theorem firsts_task (shuffle : Shuffle (List Condition)) (repeats : Nat) :
    let cut := (shuffle.run (orders repeats)).take repeats
    let off := cut.countP fun order => order.head? = some Condition.off
    let on := cut.countP fun order => order.head? = some Condition.on
    off ≤ on + 1 ∧ on ≤ off + 1 := by
  have hperm := shuffle.perm (orders repeats)
  have hsplit : ∀ c : Condition,
      ((shuffle.run (orders repeats)).take repeats).countP (fun order => order.head? = some c) +
      ((shuffle.run (orders repeats)).drop repeats).countP (fun order => order.head? = some c) =
        (repeats + 1) / 2 := by
    intro c
    rw [← List.countP_append, List.take_append_drop, hperm.countP_eq, countP_orders]
  have hlength : ((shuffle.run (orders repeats)).drop repeats).length ≤ 1 := by
    rw [List.length_drop, hperm.length_eq, length_orders]
    omega
  have hoff := hsplit .off
  have hon := hsplit .on
  have hoffRest := (@List.countP_le_length _ (fun order => order.head? = some Condition.off)
    ((shuffle.run (orders repeats)).drop repeats)).trans hlength
  have honRest := (@List.countP_le_length _ (fun order => order.head? = some Condition.on)
    ((shuffle.run (orders repeats)).drop repeats)).trans hlength
  dsimp only
  omega

theorem taskBlocks_spec (shuffle : Shuffle (List Condition)) (repeats : Nat) (task : String) :
    (taskBlocks shuffle repeats task).map Block.key = (List.range' 1 repeats).map (task, ·) ∧
    (taskBlocks shuffle repeats task).map Block.order =
      (shuffle.run (orders repeats)).take repeats := by
  have hlength : ((shuffle.run (orders repeats)).take repeats).length = repeats := by
    rw [List.length_take, (shuffle.perm _).length_eq, length_orders]
    omega
  constructor
  · rw [taskBlocks, enumerate, List.map_map]
    conv_rhs => rw [← hlength, ← List.zipIdx_map_snd 1, List.map_map]
    rfl
  · rw [taskBlocks, enumerate, List.map_map]
    exact List.zipIdx_map_fst 1 _

theorem allBlocks_spec (shuffles : Nat → Shuffle (List Condition)) (repeats : Nat) :
    ∀ (tasks : List String) (n : Nat), tasks.Nodup →
      let blocks := (tasks.zipIdx n).flatMap fun entry =>
        taskBlocks (shuffles entry.2) repeats entry.1
      blocks.map Block.key = keys tasks repeats ∧
      ∀ task ∈ tasks, ∃ shuffle : Shuffle (List Condition),
        (ofTask task blocks).map Block.order = (shuffle.run (orders repeats)).take repeats
  | [], _, _ => ⟨rfl, fun _ h => (by cases h)⟩
  | task :: tasks, n, hnodup => by
    obtain ⟨hnot, hrest⟩ := List.nodup_cons.1 hnodup
    obtain ⟨hkeys, horders⟩ := taskBlocks_spec (shuffles n) repeats task
    obtain ⟨hrestKeys, hrestOrders⟩ := allBlocks_spec shuffles repeats tasks (n + 1) hrest
    dsimp only
    rw [List.zipIdx_cons, List.flatMap_cons]
    obtain ⟨hall, hown, hothers⟩ := ofTask_cons hkeys hrestKeys hnot
    refine ⟨hall, List.forall_mem_cons.2 ⟨⟨shuffles n, ?_⟩, fun task' htask' => ?_⟩⟩
    · rw [hown, horders]
    · rw [hothers task' htask']
      exact hrestOrders task' htask'

theorem name_injective {c c' : Condition} (h : c.name = c'.name) : c = c' := by
  cases c <;> cases c' <;> first | rfl | exact absurd h (by decide)

/-- The name of a task may hold anything, so an id is read from its end. -/
theorem runId_injective {task task' : String} {r r' : Nat} {c c' : Condition}
    (h : runId task r c = runId task' r' c') : (task, r) = (task', r') ∧ c = c' := by
  have hchars := congrArg String.toList h
  simp only [runId, String.toList_append, String.toList_ofList, List.append_assoc] at hchars
  have hjoined : (task.toList ++ '_' :: 'r' :: Digits.zeroPad 2 r) ++ '_' :: c.name.toList =
      (task'.toList ++ '_' :: 'r' :: Digits.zeroPad 2 r') ++ '_' :: c'.name.toList := by
    simp only [List.append_assoc, List.cons_append]
    exact hchars
  have hname : ∀ c : Condition, '_' ∉ c.name.toList := fun c => by cases c <;> decide
  obtain ⟨hleft, hright⟩ := Digits.append_cons_inj_right (hname c) (hname c') hjoined
  have hnumber : ∀ r, '_' ∉ 'r' :: Digits.zeroPad 2 r := fun r hmem =>
    Digits.zeroPad_ne rfl ((List.mem_cons.1 hmem).resolve_left (by decide))
  obtain ⟨htask, hr⟩ := Digits.append_cons_inj_right (hnumber r) (hnumber r') hleft
  rw [String.toList_injective htask, Digits.zeroPad_inj (List.cons.inj hr).2]
  exact ⟨rfl, name_injective (String.toList_injective hright)⟩

theorem runIds_nodup {blocks : List (Block Condition)} (hkeys : (blocks.map Block.key).Nodup)
    (horders : ∀ block ∈ blocks, block.order.Nodup) :
    ((blocks.flatMap blockRuns).map Run.runId).Nodup := by
  rw [List.map_flatMap, List.nodup_flatMap]
  constructor
  · intro block hblock
    have hids : (blockRuns block).map Run.runId =
        block.order.map (runId block.task block.repeatNumber) := by
      conv_rhs => rw [← List.zipIdx_map_fst 1 block.order, List.map_map]
      rw [blockRuns, List.map_map]
      rfl
    rw [hids]
    exact (horders block hblock).map fun c c' he => (runId_injective he).2
  · refine (List.pairwise_map.1 hkeys).imp fun hne => ?_
    intro id hid hid'
    obtain ⟨run, hrun, rfl⟩ := List.mem_map.1 hid
    obtain ⟨run', hrun', he⟩ := List.mem_map.1 hid'
    obtain ⟨e, -, rfl⟩ := List.mem_map.1 hrun
    obtain ⟨e', -, rfl⟩ := List.mem_map.1 hrun'
    exact hne (runId_injective he).1.symm

theorem entry_blockRuns (blocks : List (Block Condition)) :
    (blocks.flatMap blockRuns).map Run.entry = blocks.flatMap Block.entries := by
  rw [List.map_flatMap]
  refine congrArg (List.flatMap · blocks) (funext fun block => ?_)
  rw [blockRuns, List.map_map]
  rfl

/-- For each task the pairs that begin with off and with on differ by at most one. -/
def Balanced (tasks : List String) (entries : List (Entry Condition)) : Prop :=
  ∀ task ∈ tasks, firsts entries task .off ≤ firsts entries task .on + 1 ∧
    firsts entries task .on ≤ firsts entries task .off + 1

theorem buildPlan_spec (shuffles : Nat → Shuffle (List Condition))
    (shuffle : Shuffle (Block Condition)) (tasks : List String) (repeats : Nat) :
    ((∃ plan, buildPlan shuffles shuffle tasks repeats = .ok plan) ↔
      1 ≤ repeats ∧ tasks ≠ [] ∧ tasks.Nodup) ∧
    ∀ plan, buildPlan shuffles shuffle tasks repeats = .ok plan →
      Complete tasks repeats conditions (plan.map Run.entry) ∧ (plan.map Run.runId).Nodup ∧
        Balanced tasks (plan.map Run.entry) := by
  have hcheck : ¬ (repeats < 1 ∨ tasks = [] ∨ ¬ tasks.Nodup) ↔
      1 ≤ repeats ∧ tasks ≠ [] ∧ tasks.Nodup := by
    rw [not_or, not_or, Nat.not_lt, Classical.not_not]
  unfold buildPlan
  simp only [Except.bind_eq_ok_iff, Except.failIf_eq_ok, exists_const, hcheck]
  constructor
  · constructor
    · rintro ⟨plan, hok, -⟩
      exact hok
    · exact fun hok => ⟨_, hok, rfl⟩
  · rintro plan ⟨⟨hrepeats, -, htasks⟩, hplan⟩
    cases hplan
    obtain ⟨hkeys, horders⟩ := allBlocks_spec shuffles repeats tasks 0 htasks
    change (allBlocks shuffles repeats tasks).map Block.key = _ at hkeys
    have hperm : (if 1 < tasks.length then shuffle.run (allBlocks shuffles repeats tasks)
        else allBlocks shuffles repeats tasks).Perm (allBlocks shuffles repeats tasks) := by
      split
      · exact shuffle.perm _
      · exact .refl _
    generalize (if 1 < tasks.length then shuffle.run (allBlocks shuffles repeats tasks)
      else allBlocks shuffles repeats tasks) = blocks at hperm
    have hconditions : ∀ block ∈ blocks, block.order.Perm conditions := by
      intro block hblock
      have hin := hperm.mem_iff.1 hblock
      have htask := (mem_keys.1 (hkeys ▸ List.mem_map_of_mem hin : block.key ∈ keys tasks repeats)).1
      obtain ⟨cut, hcut⟩ := horders block.task htask
      have hmem : block.order ∈ (cut.run (orders repeats)).take repeats :=
        hcut ▸ List.mem_map_of_mem (mem_ofTask hin)
      rcases mem_orders ((cut.perm _).mem_iff.1 (List.mem_of_mem_take hmem)) with he | he <;>
        rw [he] <;> decide
    have hnodup : (blocks.map Block.key).Nodup := by
      rw [(hperm.map Block.key).nodup_iff, hkeys]
      exact keys_nodup htasks repeats
    rw [entry_blockRuns]
    refine ⟨complete_of_blocks htasks (by decide) (hkeys ▸ hperm.map Block.key) hconditions,
      runIds_nodup hnodup fun block hblock => (hconditions block hblock).nodup_iff.2 (by decide), ?_⟩
    intro task htask
    obtain ⟨cut, hcut⟩ := horders task htask
    have hfirsts : ∀ c : Condition, firsts (blocks.flatMap Block.entries) task c =
        ((cut.run (orders repeats)).take repeats).countP fun order => order.head? = some c := by
      intro c
      rw [firsts_blocks, ← hcut]
      exact ((hperm.filter _).map Block.order).countP_eq _
    rw [hfirsts, hfirsts]
    exact firsts_task cut repeats

end Prefill

/-- **Both plans are complete and balanced**, for every task list, every number of repeats and
every outcome of the shuffles. -/
theorem buildPlans_balanced (tasks : List String) (repeats : Nat)
    (retentionOrders : Nat → Shuffle (List Retention.Condition))
    (retentionBlocks : Shuffle (Block Retention.Condition))
    (prefillOrders : Nat → Shuffle (List Prefill.Condition))
    (prefillBlocks : Shuffle (Block Prefill.Condition)) :
    (((∃ plan, Retention.buildPlan retentionOrders retentionBlocks tasks repeats = .ok plan) ↔
        1 ≤ repeats ∧ tasks ≠ [] ∧ tasks.Nodup) ∧
      ∀ plan, Retention.buildPlan retentionOrders retentionBlocks tasks repeats = .ok plan →
        Complete tasks repeats Retention.conditions (plan.map Retention.Run.entry) ∧
        (plan.map Retention.Run.runId).Nodup ∧
        Retention.Balanced tasks repeats (plan.map Retention.Run.entry)) ∧
    (((∃ plan, Prefill.buildPlan prefillOrders prefillBlocks tasks repeats = .ok plan) ↔
        1 ≤ repeats ∧ tasks ≠ [] ∧ tasks.Nodup) ∧
      ∀ plan, Prefill.buildPlan prefillOrders prefillBlocks tasks repeats = .ok plan →
        Complete tasks repeats Prefill.conditions (plan.map Prefill.Run.entry) ∧
        (plan.map Prefill.Run.runId).Nodup ∧
        Prefill.Balanced tasks (plan.map Prefill.Run.entry)) :=
  ⟨Retention.buildPlan_spec retentionOrders retentionBlocks tasks repeats,
    Prefill.buildPlan_spec prefillOrders prefillBlocks tasks repeats⟩

end ReedCode.ExperimentPlan
