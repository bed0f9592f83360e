import Mathlib.Algebra.Order.BigOperators.Group.List
import ReedCode.ServerMetrics.Delta

/-!
# Deltas under sampling

`_delta` of `server_metrics.py` over fewer snapshots, and over the parts of a run.

* `delta_ok_iff` — **when a delta is ok**, and which value it has.
* `Increase.eq_total`, `increments_eq` — the value is the difference of two totals, and the sum of
  the increments between consecutive snapshots.
* `delta_resampled` — **the laws of deltas**: leaving out snapshots, and splitting where the same
  counter is chosen.
-/

set_option autoImplicit false

namespace ReedCode.ServerMetrics

/-! ## Totals -/

/-- The sum of a series. -/
def total (series : Series) : Rat := (series.entries.map Prod.snd).sum

theorem sum_map_sub {α : Type} (f g : α → Rat) : ∀ as : List α,
    (as.map fun a => f a - g a).sum = (as.map f).sum - (as.map g).sum
  | [] => (sub_zero 0).symm
  | a :: as => by
    simp only [List.map_cons, List.sum_cons]
    rw [sum_map_sub f g as]
    ring

/-- The sum over the keys of one series of the values of another one with the same keys. -/
theorem sum_get? {a b : Series} (h : ∀ k, a.contains k = b.contains k) :
    (a.entries.map fun e => (b.get? e.1).getD 0).sum = total b := by
  have hperm : a.keys.Perm b.keys := by
    refine (List.perm_ext_iff_of_nodup a.keys_nodup b.keys_nodup).2 fun k => ?_
    rw [FinMap.mem_keys, FinMap.mem_keys, ← FinMap.contains_eq_isSome, ← FinMap.contains_eq_isSome, h k]
  have hvalues : b.keys.map (fun k => (b.get? k).getD 0) = b.entries.map Prod.snd := by
    rw [FinMap.keys, List.map_map]
    refine List.map_congr_left fun e he => ?_
    rw [Function.comp_apply, FinMap.mem_entries.1 he, Option.getD_some]
  have hsum := (hperm.map fun k => (b.get? k).getD 0).sum_eq
  rw [hvalues, FinMap.keys, List.map_map] at hsum
  exact hsum

/-- The increase between two series with the same keys is the difference of their totals. -/
theorem increase_eq {a b : Series} (h : ∀ k, a.contains k = b.contains k) :
    increase a b = total b - total a := by
  rw [← sum_get? h, increase, total, sum_map_sub]

/-- Nothing falls between two series with the same keys. -/
theorem total_le {a b : Series} (h : ∀ k, a.contains k = b.contains k)
    (hrises : ∀ k x y, a.get? k = some x → b.get? k = some y → x ≤ y) : total a ≤ total b := by
  rw [← sum_get? h, total]
  refine List.sum_le_sum fun e he => ?_
  have hx := FinMap.mem_entries.1 he
  have hcontains : b.contains e.1 = true := by
    rw [← h e.1, FinMap.contains_eq_isSome, hx]
    rfl
  rw [FinMap.contains_eq_isSome] at hcontains
  obtain ⟨y, hy⟩ := Option.isSome_iff_exists.1 hcontains
  rw [hy, Option.getD_some]
  exact hrises e.1 e.2 y hx hy

/-! ## Rising counters -/

variable {snapshots : List Snapshot} {name : Text}

/-- No series of the counter is smaller in the second snapshot. -/
def Rises (name : Text) (m m' : Snapshot) : Prop :=
  ∀ a b k x y, m.get? name = some a → m'.get? name = some b → a.get? k = some x →
    b.get? k = some y → x ≤ y

theorem Steady.chain (h : Steady snapshots name) : snapshots.IsChain (Rises name) := by
  refine List.isChain_iff_getElem.2 fun i hi => ?_
  exact h.rises i _ _ (List.getElem?_eq_getElem (by omega)) (List.getElem?_eq_getElem hi)

/-- A present counter with unchanging keys that rises between neighbours rises throughout. -/
theorem rises_pairwise : ∀ {snapshots : List Snapshot}, Present snapshots name →
    (∀ m ∈ snapshots, ∀ m' ∈ snapshots, ∀ a b, m.get? name = some a → m'.get? name = some b →
      ∀ k, a.contains k = b.contains k) →
    snapshots.IsChain (Rises name) → snapshots.Pairwise (Rises name)
  | [], _, _, _ => .nil
  | [_], _, _, _ => List.pairwise_singleton _ _
  | m :: m' :: rest, hpresent, hkeys, hchain => by
    rw [List.isChain_cons_cons] at hchain
    have hrest := rises_pairwise (fun v hv => hpresent v (List.mem_cons_of_mem _ hv))
      (fun v hv v' hv' => hkeys v (List.mem_cons_of_mem _ hv) v' (List.mem_cons_of_mem _ hv')) hchain.2
    refine List.pairwise_cons.2 ⟨?_, hrest⟩
    intro v hv
    rcases List.mem_cons.1 hv with rfl | hv'
    · exact hchain.1
    · intro a b k x y ha hb hx hy
      obtain ⟨c, hc⟩ := hpresent m' (by simp)
      have hcontains : c.contains k = true := by
        rw [← hkeys m (by simp) m' (by simp) a c ha hc k, FinMap.contains_eq_isSome, hx]
        rfl
      rw [FinMap.contains_eq_isSome] at hcontains
      obtain ⟨z, hz⟩ := Option.isSome_iff_exists.1 hcontains
      exact (hchain.1 a c k x z ha hc hx hz).trans
        ((List.pairwise_cons.1 hrest).1 v hv' c b k z y hc hb hz hy)

theorem Steady.pairwise (h : Steady snapshots name) (hpresent : Present snapshots name) :
    snapshots.Pairwise (Rises name) := rises_pairwise hpresent h.keys h.chain

/-- **Leaving out snapshots keeps a counter steady.** -/
theorem Steady.sublist (h : Steady snapshots name) (hpresent : Present snapshots name)
    {fewer : List Snapshot} (hsub : fewer.Sublist snapshots) :
    Present fewer name ∧ Steady fewer name := by
  have hmem : ∀ m ∈ fewer, m ∈ snapshots := fun m hm => hsub.subset hm
  refine ⟨fun m hm => hpresent m (hmem m hm), ?_, ?_, ?_⟩
  · exact fun m hm m' hm' => h.keys m (hmem m hm) m' (hmem m' hm')
  · exact fun m hm m' hm' => h.created m (hmem m hm) m' (hmem m' hm')
  · intro i m m' hm hm' a b k x y
    have hpairs := List.pairwise_iff_getElem.1 ((h.pairwise hpresent).sublist hsub)
    obtain ⟨hi, rfl⟩ := List.getElem?_eq_some_iff.1 hm
    obtain ⟨hi', rfl⟩ := List.getElem?_eq_some_iff.1 hm'
    exact hpairs i (i + 1) hi hi' (Nat.lt_succ_self i) a b k x y

/-! ## Values -/

/-- The total of a counter in a snapshot. -/
def totalOf (name : Text) (m : Snapshot) : Rat := ((m.get? name).map total).getD 0

/-- The increase of a counter between two snapshots. -/
def increment (name : Text) (m m' : Snapshot) : Rat :=
  increase ((m.get? name).getD .empty) ((m'.get? name).getD .empty)

/-- The increases between consecutive snapshots. -/
def increments (snapshots : List Snapshot) (name : Text) : List Rat :=
  (snapshots.zip snapshots.tail).map fun p => increment name p.1 p.2

theorem increment_eq (hpresent : Present snapshots name) (h : Steady snapshots name) {m m' : Snapshot}
    (hm : m ∈ snapshots) (hm' : m' ∈ snapshots) :
    increment name m m' = totalOf name m' - totalOf name m := by
  obtain ⟨a, ha⟩ := hpresent m hm
  obtain ⟨b, hb⟩ := hpresent m' hm'
  rw [increment, totalOf, totalOf, ha, hb]
  exact increase_eq (h.keys m hm m' hm' a b ha hb)

/-- The value of a steady counter is the difference of its first and its last total. -/
theorem Increase.eq_total (hpresent : Present snapshots name) (h : Steady snapshots name)
    {first last : Snapshot} (hfirst : snapshots.head? = some first)
    (hlast : snapshots.getLast? = some last) {value : Rat} :
    Increase snapshots name value ↔ value = totalOf name last - totalOf name first := by
  have hmem : first ∈ snapshots := List.mem_of_mem_head? hfirst
  have hmem' : last ∈ snapshots := List.mem_of_mem_getLast? hlast
  obtain ⟨a, ha⟩ := hpresent first hmem
  obtain ⟨b, hb⟩ := hpresent last hmem'
  have heq := increase_eq (h.keys first hmem last hmem' a b ha hb)
  rw [Increase, hfirst, hlast, totalOf, totalOf, ha, hb]
  simp only [Option.bind_some, ha, hb, Option.some.injEq, Option.map_some, Option.getD_some]
  constructor
  · rintro ⟨a', b', rfl, rfl, rfl⟩
    exact heq
  · rintro rfl
    exact ⟨a, b, rfl, rfl, heq.symm⟩

theorem sum_increments : ∀ {snapshots : List Snapshot} {first last : Snapshot},
    Present snapshots name → Steady snapshots name → snapshots.head? = some first →
    snapshots.getLast? = some last →
    (increments snapshots name).sum = totalOf name last - totalOf name first
  | [], _, _, _, _, hfirst, _ => by cases hfirst
  | [m], first, last, _, _, hfirst, hlast => by
    cases hfirst
    cases hlast
    exact (sub_self _).symm
  | m :: m' :: rest, first, last, hpresent, h, hfirst, hlast => by
    cases hfirst
    have hsub := h.sublist hpresent (List.sublist_cons_self m (m' :: rest))
    have ih := sum_increments hsub.1 hsub.2 rfl (by rwa [List.getLast?_cons_cons] at hlast)
    have hone : increment name m m' = totalOf name m' - totalOf name m :=
      increment_eq hpresent h (by simp) (by simp)
    rw [increments, List.tail_cons, List.zip_cons_cons, List.map_cons, List.sum_cons]
    rw [increments, List.tail_cons] at ih
    rw [ih, hone]
    ring

theorem totalOf_le (hpresent : Present snapshots name) (h : Steady snapshots name)
    {first last : Snapshot} (hfirst : snapshots.head? = some first)
    (hlast : snapshots.getLast? = some last) : totalOf name first ≤ totalOf name last := by
  cases snapshots with
  | nil => cases hfirst
  | cons m rest =>
    obtain rfl : first = m := (Option.some.inj hfirst).symm
    rw [List.getLast?_cons] at hlast
    cases hend : rest.getLast? with
    | none =>
      rw [hend] at hlast
      cases hlast
      exact le_rfl
    | some m' =>
      rw [hend] at hlast
      cases hlast
      have hm' : m' ∈ rest := List.mem_of_mem_getLast? hend
      obtain ⟨a, ha⟩ := hpresent first List.mem_cons_self
      obtain ⟨b, hb⟩ := hpresent m' (List.mem_cons_of_mem _ hm')
      rw [totalOf, totalOf, Option.getD_some, ha, hb]
      refine total_le (h.keys first List.mem_cons_self m' (List.mem_cons_of_mem _ hm') a b ha hb) ?_
      exact fun k x y => (List.pairwise_cons.1 (h.pairwise hpresent)).1 m' hm' a b k x y ha hb

/-! ## When a delta is ok -/

/-- The delta of a steady counter is ok. -/
theorem delta_of_steady {first : Snapshot} {rest : List Snapshot} {aliases : List Text}
    (hname : chosenName first aliases = some name) (hpresent : Present (first :: rest) name)
    (h : Steady (first :: rest) name) :
    ∃ value, delta (first :: rest) aliases = ⟨some value, .ok⟩ := by
  obtain ⟨⟨start, hstart⟩, hrest⟩ := List.forall_mem_cons.1 hpresent
  obtain ⟨others, hothers⟩ := exists_mapM_eq_some hrest
  have hmap := mapM_eq_some.1 hothers
  have hmem : ∀ v ∈ others, ∃ m ∈ rest, m.get? name = some v := by
    intro v hv
    have hin : some v ∈ rest.map (FinMap.get? · name) := hmap ▸ List.mem_map_of_mem hv
    exact List.mem_map.1 hin
  have hkeys : (others.any fun values => !sameKeys values start) = false := by
    refine List.any_eq_false.2 fun v hv => ?_
    obtain ⟨m, hm, hget⟩ := hmem v hv
    have hsame := sameKeys_iff.2
      (h.keys m (List.mem_cons_of_mem _ hm) first List.mem_cons_self v start hget hstart)
    rw [hsame]
    decide
  have hcreated : (rest.any fun sample => !sameSeries? (sample.get? (createdName name))
      (first.get? (createdName name))) = false := by
    refine List.any_eq_false.2 fun m hm => ?_
    have hsame := sameSeries?_iff.2
      (h.created m (List.mem_cons_of_mem _ hm) first List.mem_cons_self)
    rw [hsame]
    decide
  have hfalls : (((start :: others).zip others).any fun p => falls p.1 p.2) = false := by
    refine List.any_eq_false.2 fun p hp hfall => ?_
    obtain ⟨i, hi⟩ := List.mem_iff_getElem?.1 hp
    obtain ⟨ha, hb⟩ := List.getElem?_zip_eq_some.1 hi
    have hall : (first :: rest).map (FinMap.get? · name) = (start :: others).map some := by
      rw [List.map_cons, List.map_cons, hstart, hmap]
    have hsnapshot : ∀ {j : Nat} {v : Series}, (start :: others)[j]? = some v →
        ∃ m, (first :: rest)[j]? = some m ∧ m.get? name = some v := by
      intro j v hv
      have hj := congrArg (·[j]?) hall
      simp only [List.getElem?_map, hv, Option.map_some] at hj
      exact Option.map_eq_some_iff.1 hj
    obtain ⟨m, hm, hma⟩ := hsnapshot ha
    obtain ⟨m', hm', hmb⟩ := hsnapshot (j := i + 1) hb
    obtain ⟨k, x, y, hx, hy, hlt⟩ := falls_iff.1 hfall
    exact absurd (h.rises i m m' hm hm' p.1 p.2 k x y hma hmb hx hy) (not_le.2 hlt)
  refine ⟨increase start (others.getLast?.getD start), ?_⟩
  unfold delta
  simp only [hname, hstart, hothers]
  rw [if_neg (by rw [hkeys]; decide), if_neg (by rw [hcreated]; decide),
    if_neg (by rw [hfalls]; decide)]

/-- **A delta is ok exactly for a steady counter**, and then has its increase as its value. -/
theorem delta_ok_iff {first : Snapshot} {rest : List Snapshot} {aliases : List Text} {value : Rat} :
    delta (first :: rest) aliases = ⟨some value, .ok⟩ ↔
      ∃ name, chosenName first aliases = some name ∧ Present (first :: rest) name ∧
        Steady (first :: rest) name ∧ Increase (first :: rest) name value := by
  constructor
  · intro h
    rcases delta_cases first rest aliases with ⟨hmissing, -⟩ | ⟨name, hname, hpresent, hcases⟩
    · rw [hmissing] at h
      cases h
    · rcases hcases with hbad | ⟨hsteady, value', hvalue, hincrease⟩
      · rcases hbad with hbad | hbad <;> rw [h] at hbad <;> cases hbad
      · rw [h] at hvalue
        cases hvalue
        exact ⟨name, hname, hpresent, hsteady, hincrease⟩
  · rintro ⟨name, hname, hpresent, hsteady, hincrease⟩
    obtain ⟨value', hvalue'⟩ := delta_of_steady hname hpresent hsteady
    rcases delta_cases first rest aliases with ⟨hmissing, -⟩ | ⟨name', hname', -, hcases⟩
    · rw [hmissing] at hvalue'
      cases hvalue'
    · rw [hname] at hname'
      cases hname'
      rcases hcases with hbad | ⟨-, value'', hvalue'', hincrease'⟩
      · rcases hbad with hbad | hbad <;> rw [hvalue'] at hbad <;> cases hbad
      · rw [hvalue'']
        obtain ⟨last, hlast⟩ : ∃ last, (first :: rest).getLast? = some last :=
          ⟨_, List.getLast?_eq_some_getLast (List.cons_ne_nil first rest)⟩
        rw [(Increase.eq_total hpresent hsteady rfl hlast).1 hincrease,
          (Increase.eq_total hpresent hsteady rfl hlast).1 hincrease']

/-! ## The laws -/

/-- The name that a delta over some snapshots is about. -/
def chosen (snapshots : List Snapshot) (aliases : List Text) : Option Text :=
  snapshots.head?.bind (chosenName · aliases)

theorem delta_ok {snapshots : List Snapshot} (hne : snapshots ≠ []) {aliases : List Text}
    {value : Rat} : delta snapshots aliases = ⟨some value, .ok⟩ ↔
      ∃ name, chosen snapshots aliases = some name ∧ Present snapshots name ∧
        Steady snapshots name ∧ Increase snapshots name value := by
  cases snapshots with
  | nil => exact absurd rfl hne
  | cons first rest => exact delta_ok_iff

/-- Fewer snapshots of a steady counter, with the same first one, have an ok delta. -/
theorem delta_fewer {snapshots fewer : List Snapshot} {aliases : List Text} {value : Rat}
    (h : delta snapshots aliases = ⟨some value, .ok⟩) (hsub : fewer.Sublist snapshots)
    (hhead : chosen fewer aliases = chosen snapshots aliases) {first last : Snapshot}
    (hfirst : fewer.head? = some first) (hlast : fewer.getLast? = some last) :
    ∃ name, chosen snapshots aliases = some name ∧
      delta fewer aliases = ⟨some (totalOf name last - totalOf name first), .ok⟩ := by
  have hne : fewer ≠ [] := by
    rintro rfl
    cases hfirst
  have hne' : snapshots ≠ [] := by
    rintro rfl
    exact hne (List.sublist_nil.1 hsub)
  obtain ⟨name, hname, hpresent, hsteady, -⟩ := (delta_ok hne').1 h
  obtain ⟨hpresent', hsteady'⟩ := hsteady.sublist hpresent hsub
  refine ⟨name, hname, (delta_ok hne).2 ⟨name, hhead.trans hname, hpresent', hsteady', ?_⟩⟩
  exact (Increase.eq_total hpresent' hsteady' hfirst hlast).2 rfl

/-- The value of an ok delta in totals. -/
theorem delta_total {snapshots : List Snapshot} {aliases : List Text} {value : Rat}
    (h : delta snapshots aliases = ⟨some value, .ok⟩) {first last : Snapshot}
    (hfirst : snapshots.head? = some first) (hlast : snapshots.getLast? = some last) {name : Text}
    (hname : chosen snapshots aliases = some name) : value = totalOf name last - totalOf name first := by
  have hne : snapshots ≠ [] := by
    rintro rfl
    cases hfirst
  obtain ⟨name', hname', hpresent, hsteady, hincrease⟩ := (delta_ok hne).1 h
  rw [hname] at hname'
  cases hname'
  exact (Increase.eq_total hpresent hsteady hfirst hlast).1 hincrease

/-- What is asked of the deltas over some snapshots. -/
structure Resampled (snapshots : List Snapshot) (aliases : List Text) : Prop where
  ok_iff : (delta snapshots aliases).status = .ok ↔ ∃ name, chosen snapshots aliases = some name ∧
    Present snapshots name ∧ Steady snapshots name
  value : (delta snapshots aliases).status = .ok → ∃ name value,
    chosen snapshots aliases = some name ∧ delta snapshots aliases = ⟨some value, .ok⟩ ∧
      Increase snapshots name value ∧ value = (increments snapshots name).sum ∧ 0 ≤ value
  fewer : (delta snapshots aliases).status = .ok → ∀ fewer : List Snapshot,
    fewer.Sublist snapshots → fewer.head? = snapshots.head? → fewer.getLast? = snapshots.getLast? →
      delta fewer aliases = delta snapshots aliases
  split : (delta snapshots aliases).status = .ok → ∀ before m after,
    snapshots = before ++ m :: after →
      (delta (before ++ [m]) aliases).status = .ok ∧
      (chosenName m aliases = chosen snapshots aliases → ∃ value value',
        delta (before ++ [m]) aliases = ⟨some value, .ok⟩ ∧
        delta (m :: after) aliases = ⟨some value', .ok⟩ ∧
        delta snapshots aliases = ⟨some (value + value'), .ok⟩)

theorem exists_ok {snapshots : List Snapshot} (hne : snapshots ≠ []) {aliases : List Text}
    (h : (delta snapshots aliases).status = .ok) :
    ∃ value, delta snapshots aliases = ⟨some value, .ok⟩ := by
  cases snapshots with
  | nil => exact absurd rfl hne
  | cons first rest =>
    rcases delta_cases first rest aliases with ⟨hmissing, -⟩ | ⟨name, -, -, hcases⟩
    · rw [hmissing] at h
      cases h
    · rcases hcases with hbad | ⟨-, value, hvalue, -⟩
      · rcases hbad with hbad | hbad <;> rw [h] at hbad <;> cases hbad
      · exact ⟨value, hvalue⟩

/-- **Deltas are sound and stable under sampling.** -/
theorem delta_resampled (snapshots : List Snapshot) (hne : snapshots ≠ []) (aliases : List Text) :
    Resampled snapshots aliases := by
  obtain ⟨first, hfirst⟩ : ∃ first, snapshots.head? = some first :=
    ⟨_, List.head?_eq_some_head hne⟩
  obtain ⟨last, hlast⟩ : ∃ last, snapshots.getLast? = some last :=
    ⟨_, List.getLast?_eq_some_getLast hne⟩
  refine ⟨⟨fun h => ?_, ?_⟩, fun h => ?_, fun h fewer hsub hhead hend => ?_, fun h => ?_⟩
  · obtain ⟨value, hvalue⟩ := exists_ok hne h
    obtain ⟨name, hname, hpresent, hsteady, -⟩ := (delta_ok hne).1 hvalue
    exact ⟨name, hname, hpresent, hsteady⟩
  · rintro ⟨name, hname, hpresent, hsteady⟩
    rw [(delta_ok hne).2 ⟨name, hname, hpresent, hsteady,
      (Increase.eq_total hpresent hsteady hfirst hlast).2 rfl⟩]
  · obtain ⟨value, hvalue⟩ := exists_ok hne h
    obtain ⟨name, hname, hpresent, hsteady, hincrease⟩ := (delta_ok hne).1 hvalue
    have htotal := (Increase.eq_total hpresent hsteady hfirst hlast).1 hincrease
    refine ⟨name, value, hname, hvalue, hincrease, ?_, ?_⟩
    · rw [sum_increments hpresent hsteady hfirst hlast, htotal]
    · rw [htotal]
      exact sub_nonneg.2 (totalOf_le hpresent hsteady hfirst hlast)
  · obtain ⟨value, hvalue⟩ := exists_ok hne h
    obtain ⟨name, hname, hdelta⟩ := delta_fewer hvalue hsub
      (by rw [chosen, chosen, hhead]) (hhead.trans hfirst) (hend.trans hlast)
    rw [hdelta, hvalue, delta_total hvalue hfirst hlast hname]
  · rintro before m after rfl
    obtain ⟨value, hvalue⟩ := exists_ok hne h
    have hhead : (before ++ [m]).head? = some first := by
      rw [← hfirst]
      cases before <;> rfl
    have hfront : (before ++ [m]).Sublist (before ++ m :: after) :=
      List.Sublist.append (List.Sublist.refl before)
        (List.cons_sublist_cons.2 (List.nil_sublist after))
    obtain ⟨name, hname, hdelta⟩ := delta_fewer hvalue hfront
      (by rw [chosen, chosen, hhead, hfirst]) hhead List.getLast?_concat
    refine ⟨by rw [hdelta], fun hsame => ?_⟩
    have hend : (m :: after).getLast? = some last := by
      rw [← hlast, List.getLast?_append, List.getLast?_cons]
      rfl
    obtain ⟨name', hname', hdelta'⟩ := delta_fewer hvalue
      (List.sublist_append_right before (m :: after)) hsame rfl hend
    rw [hname] at hname'
    cases hname'
    refine ⟨_, _, hdelta, hdelta', ?_⟩
    rw [hvalue, delta_total hvalue hfirst hlast hname]
    refine congrArg (fun v : Rat => (⟨some v, .ok⟩ : Delta)) ?_
    ring

/-! ## Another counter behind the split -/

/-- A snapshot with one series each. -/
def counted (entries : List (String × Rat)) : Snapshot :=
  .ofList (entries.map fun e => (e.1.toList, .ofList [([], e.2)]))

/-- Where the snapshot at which the list is split has an earlier alias than the first one, the second
part is about another counter. -/
theorem split_missing :
    (delta [counted [("b", 1)], counted [("a", 10), ("b", 2)], counted [("b", 3)]]
      ["a".toList, "b".toList]) = ⟨some 2, .ok⟩ ∧
    (delta [counted [("a", 10), ("b", 2)], counted [("b", 3)]] ["a".toList, "b".toList]) =
      ⟨none, .missing⟩ :=
  ⟨by decide +kernel, by decide +kernel⟩

theorem delta_resampled_rising :
    delta [counted [("b", 1)], counted [("b", 2)], counted [("b", 5)]] ["a".toList, "b".toList] =
      ⟨some 4, .ok⟩ ∧
    Resampled [counted [("b", 1)], counted [("b", 2)], counted [("b", 5)]]
      ["a".toList, "b".toList] :=
  ⟨by decide +kernel, delta_resampled _ (List.cons_ne_nil _ _) _⟩

end ReedCode.ServerMetrics
