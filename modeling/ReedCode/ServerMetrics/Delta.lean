import ReedCode.ServerMetrics.Window

/-!
# What a counter delta says

* `Present`, `Steady` — a counter is in every snapshot, and is neither reset nor changed.
* `Increase` — the last minus the first values of a counter, over all its series.
* `delta_cases` — **the status and the value of a delta.**
* `restarted_eq_false` — no snapshot shows another process start.
-/

set_option autoImplicit false

namespace ReedCode.ServerMetrics

/-! ## Series -/

theorem sameSeries_iff {a b : Series} : sameSeries a b = true ↔ ∀ k, a.get? k = b.get? k := by
  rw [sameSeries, Bool.and_eq_true, List.all_eq_true, List.all_eq_true]
  constructor
  · rintro ⟨ha, hb⟩ k
    by_cases hk : k ∈ a.keys
    · exact (of_decide_eq_true (ha k hk)).symm
    · by_cases hk' : k ∈ b.keys
      · exact of_decide_eq_true (hb k hk')
      · rw [FinMap.not_mem_keys.1 hk, FinMap.not_mem_keys.1 hk']
  · intro h
    exact ⟨fun k _ => decide_eq_true (h k).symm, fun k _ => decide_eq_true (h k)⟩

/-- Two series that may be missing have the same values. -/
def Same (a b : Option Series) : Prop := a.map FinMap.get? = b.map FinMap.get?

theorem sameSeries?_iff {a b : Option Series} : sameSeries? a b = true ↔ Same a b := by
  cases a <;> cases b <;> simp [sameSeries?, Same, sameSeries_iff, funext_iff]

theorem sameKeys_iff {a b : Series} :
    sameKeys a b = true ↔ ∀ k, a.contains k = b.contains k := by
  have hkeys : ∀ (x : Series) (k : Labels), k ∈ x.keys ↔ x.contains k = true := by
    intro x k
    rw [FinMap.mem_keys, FinMap.contains_eq_isSome]
  rw [sameKeys, Bool.and_eq_true, List.all_eq_true, List.all_eq_true]
  simp only [hkeys]
  constructor
  · rintro ⟨ha, hb⟩ k
    exact Bool.eq_iff_iff.2 ⟨ha k, hb k⟩
  · intro h
    exact ⟨fun k hk => h k ▸ hk, fun k hk => (h k).symm ▸ hk⟩

theorem falls_iff {before after : Series} : falls before after = true ↔
    ∃ k x y, before.get? k = some x ∧ after.get? k = some y ∧ y < x := by
  rw [falls, List.any_eq_true]
  constructor
  · rintro ⟨e, he, h⟩
    cases hy : after.get? e.1 with
    | none =>
      rw [hy] at h
      cases h
    | some y =>
      rw [hy] at h
      exact ⟨e.1, e.2, y, FinMap.mem_entries.1 he, hy, of_decide_eq_true h⟩
  · rintro ⟨k, x, y, hx, hy, hlt⟩
    refine ⟨(k, x), FinMap.mem_entries.2 hx, ?_⟩
    rw [hy]
    exact decide_eq_true hlt

/-! ## Snapshots -/

variable {snapshots : List Snapshot} {name : Text}

/-- Every snapshot has the counter. -/
def Present (snapshots : List Snapshot) (name : Text) : Prop :=
  ∀ m ∈ snapshots, ∃ series, m.get? name = some series

/-- The counter keeps its series and the time of its creation, and never falls. -/
structure Steady (snapshots : List Snapshot) (name : Text) : Prop where
  keys : ∀ m ∈ snapshots, ∀ m' ∈ snapshots, ∀ a b, m.get? name = some a → m'.get? name = some b →
    ∀ k, a.contains k = b.contains k
  created : ∀ m ∈ snapshots, ∀ m' ∈ snapshots,
    Same (m.get? (createdName name)) (m'.get? (createdName name))
  rises : ∀ i m m', snapshots[i]? = some m → snapshots[i + 1]? = some m' → ∀ a b k x y,
    m.get? name = some a → m'.get? name = some b → a.get? k = some x → b.get? k = some y → x ≤ y

/-- The last minus the first values of a counter, over all its series. -/
def Increase (snapshots : List Snapshot) (name : Text) (value : Rat) : Prop :=
  ∃ first last, snapshots.head?.bind (FinMap.get? · name) = some first ∧
    snapshots.getLast?.bind (FinMap.get? · name) = some last ∧
    value = (first.entries.map fun e => (last.get? e.1).getD 0 - e.2).sum

/-! ## Deltas -/

theorem mapM_eq_some {α β : Type} {f : α → Option β} : ∀ {as : List α} {bs : List β},
    as.mapM f = some bs ↔ as.map f = bs.map some
  | [], bs => by
    cases bs <;> simp
  | a :: as, bs => by
    rw [List.mapM_cons, Option.bind_eq_bind, Option.bind_eq_some_iff]
    constructor
    · rintro ⟨b, hb, h⟩
      obtain ⟨bs, hbs, h⟩ := Option.bind_eq_some_iff.1 h
      cases h
      rw [List.map_cons, List.map_cons, hb, mapM_eq_some.1 hbs]
    · intro h
      cases bs with
      | nil => cases h
      | cons b bs =>
        rw [List.map_cons, List.map_cons, List.cons.injEq] at h
        refine ⟨b, h.1, ?_⟩
        rw [mapM_eq_some.2 h.2]
        rfl

theorem exists_mapM_eq_some {α β : Type} {f : α → Option β} : ∀ {as : List α},
    (∀ a ∈ as, ∃ b, f a = some b) → ∃ bs, as.mapM f = some bs
  | [], _ => ⟨[], rfl⟩
  | a :: as, h => by
    obtain ⟨b, hb⟩ := h a List.mem_cons_self
    obtain ⟨bs, hbs⟩ := exists_mapM_eq_some fun a' ha' => h a' (List.mem_cons_of_mem _ ha')
    refine ⟨b :: bs, mapM_eq_some.2 ?_⟩
    rw [List.map_cons, List.map_cons, hb, mapM_eq_some.1 hbs]

/-- The series of a counter in the snapshots, one by one. -/
def SeriesOf (snapshots : List Snapshot) (name : Text) (series : List Series) : Prop :=
  snapshots.map (FinMap.get? · name) = series.map some

section SeriesOf

variable {series : List Series} (h : SeriesOf snapshots name series)

include h

theorem SeriesOf.get? {i : Nat} {m : Snapshot} (hm : snapshots[i]? = some m) :
    ∃ a, m.get? name = some a ∧ series[i]? = some a := by
  have hi := congrArg (·[i]?) h
  simp only [List.getElem?_map, hm, Option.map_some] at hi
  obtain ⟨a, ha, he⟩ := Option.map_eq_some_iff.1 hi.symm
  exact ⟨a, he.symm, ha⟩

theorem SeriesOf.mem {m : Snapshot} (hm : m ∈ snapshots) : ∃ a ∈ series, m.get? name = some a := by
  obtain ⟨i, hi⟩ := List.mem_iff_getElem?.1 hm
  obtain ⟨a, ha, hs⟩ := h.get? hi
  exact ⟨a, List.mem_iff_getElem?.2 ⟨i, hs⟩, ha⟩

theorem SeriesOf.getLast? : snapshots.getLast?.bind (FinMap.get? · name) = series.getLast? := by
  have hlast := congrArg List.getLast? h
  rw [List.getLast?_map, List.getLast?_map] at hlast
  cases hs : snapshots.getLast? with
  | none =>
    rw [hs] at hlast
    cases hv : series.getLast? with
    | none => rfl
    | some v =>
      rw [hv] at hlast
      cases hlast
  | some m =>
    rw [hs] at hlast
    cases hv : series.getLast? with
    | none =>
      rw [hv] at hlast
      cases hlast
    | some v =>
      rw [hv] at hlast
      exact Option.some.inj hlast

end SeriesOf

/-- **A delta**: nothing to compare, a change, or an increase of a steady counter. -/
theorem delta_cases (first : Snapshot) (rest : List Snapshot) (aliases : List Text) :
    (delta (first :: rest) aliases = ⟨none, .missing⟩ ∧
      ∀ name, chosenName first aliases = some name → ¬ Present (first :: rest) name) ∨
    ∃ name, chosenName first aliases = some name ∧ Present (first :: rest) name ∧
      (((delta (first :: rest) aliases).status = .seriesChanged ∨
          (delta (first :: rest) aliases).status = .counterReset) ∨
        Steady (first :: rest) name ∧ ∃ value, delta (first :: rest) aliases = ⟨some value, .ok⟩ ∧
          Increase (first :: rest) name value) := by
  unfold delta
  dsimp only
  cases hname : chosenName first aliases with
  | none => exact Or.inl ⟨rfl, nofun⟩
  | some name =>
    dsimp only
    split
    · rename_i start others hstart hothers
      have hseries : SeriesOf (first :: rest) name (start :: others) := by
        rw [SeriesOf, List.map_cons, List.map_cons, hstart, mapM_eq_some.1 hothers]
      have hpresent : Present (first :: rest) name := by
        intro m hm
        obtain ⟨a, -, ha⟩ := hseries.mem hm
        exact ⟨a, ha⟩
      refine Or.inr ⟨name, rfl, hpresent, ?_⟩
      split
      · exact Or.inl (Or.inl rfl)
      split
      · exact Or.inl (Or.inr rfl)
      split
      · exact Or.inl (Or.inr rfl)
      · rename_i hkeys hcreated hfalls
        rw [Bool.not_eq_true, List.any_eq_false] at hkeys hcreated hfalls
        refine Or.inr ⟨⟨?_, ?_, ?_⟩, _, rfl, ?_⟩
        · have hstartKeys : ∀ v ∈ start :: others, ∀ k, v.contains k = start.contains k := by
            refine List.forall_mem_cons.2 ⟨fun k => rfl, fun v hv => ?_⟩
            exact sameKeys_iff.1 (by simpa using hkeys v hv)
          intro m hm m' hm' a b ha hb k
          obtain ⟨v, hv, hmv⟩ := hseries.mem hm
          obtain ⟨v', hv', hmv'⟩ := hseries.mem hm'
          rw [ha] at hmv
          rw [hb] at hmv'
          cases hmv
          cases hmv'
          rw [hstartKeys a hv, hstartKeys b hv']
        · have hfirst : ∀ m ∈ first :: rest,
              Same (m.get? (createdName name)) (first.get? (createdName name)) := by
            refine List.forall_mem_cons.2 ⟨rfl, fun m hm => ?_⟩
            exact sameSeries?_iff.1 (by simpa using hcreated m hm)
          exact fun m hm m' hm' => (hfirst m hm).trans (hfirst m' hm').symm
        · intro i m m' hm hm' a b k x y ha hb hx hy
          obtain ⟨v, hmv, hi⟩ := hseries.get? hm
          obtain ⟨v', hmv', hi'⟩ := hseries.get? hm'
          rw [ha] at hmv
          rw [hb] at hmv'
          cases hmv
          cases hmv'
          have hpair : (a, b) ∈ (start :: others).zip others :=
            List.mem_iff_getElem?.2 ⟨i, List.getElem?_zip_eq_some.2 ⟨hi, hi'⟩⟩
          by_contra hlt
          exact hfalls _ hpair (falls_iff.2 ⟨k, x, y, hx, hy, not_le.1 hlt⟩)
        · refine ⟨start, others.getLast?.getD start, ?_, ?_, rfl⟩
          · exact hstart
          · rw [hseries.getLast?, List.getLast?_cons]
    · rename_i hnone
      refine Or.inl ⟨rfl, ?_⟩
      intro name' he hpresent
      cases he
      obtain ⟨⟨start, hstart⟩, hrest⟩ := List.forall_mem_cons.1 hpresent
      obtain ⟨others, hothers⟩ := exists_mapM_eq_some hrest
      exact hnone start others hstart hothers

/-- No snapshot shows another process start. -/
theorem restarted_eq_false {snapshots : List Snapshot} (h : restarted snapshots = false) :
    ∀ m ∈ snapshots, ∀ m' ∈ snapshots, Same (m.get? processStart) (m'.get? processStart) := by
  cases snapshots with
  | nil => exact nofun
  | cons first rest =>
    rw [restarted, List.any_eq_false] at h
    have hfirst : ∀ m ∈ first :: rest, Same (m.get? processStart) (first.get? processStart) := by
      refine List.forall_mem_cons.2 ⟨rfl, fun m hm => ?_⟩
      exact sameSeries?_iff.1 (by simpa using h m hm)
    exact fun m hm m' hm' => (hfirst m hm).trans (hfirst m' hm').symm

end ReedCode.ServerMetrics
