import ReedCode.Reporting.Conserve

/-!
# Reports do not depend on record order

* `pairedResults_perm` — rows and plan in another order give the same list.
* `pooledResults_perm` — results in another order give the same entries, in some order.
* `pairedEstimate_bounds` — the interval lies between the smallest and the largest value.
* `reports_order` — **the order of the records does not matter**, and the intervals are sound.
-/

set_option autoImplicit false

namespace ReedCode.Reporting

/-! ## Rows and plan -/

section Paired

variable {rows rows' : List Row} {plan plan' : List Planned}

theorem foldlM_indexRow_error : ∀ {rows : List Row} {m : FinMap Key Row} {e : String},
    rows.foldlM indexRow m = .error e → e = "Duplicate condition in block"
  | [], m, e, h => by cases h
  | row :: rows, m, e, h => by
    rw [List.foldlM_cons] at h
    by_cases hin : m.contains row.key = true
    · have hfails : indexRow m row = .error "Duplicate condition in block" := if_pos hin
      rw [hfails] at h
      cases h
      rfl
    · have hstep : indexRow m row = .ok (m.insert row.key row) := if_neg hin
      rw [hstep] at h
      exact foldlM_indexRow_error h

/-- The index of rearranged rows: both fail in the same way, or hold the same rows. -/
theorem indexRows_perm (h : rows.Perm rows') :
    (∃ e, indexRows rows = .error e ∧ indexRows rows' = .error e) ∨
    ∃ index index', indexRows rows = .ok index ∧ indexRows rows' = .ok index' ∧
      ∀ k, index.get? k = index'.get? k := by
  have hkeys := h.map Row.key
  by_cases hnodup : (rows.map Row.key).Nodup
  · obtain ⟨index, hindex⟩ := indexRows_spec.1.2 hnodup
    obtain ⟨index', hindex'⟩ := indexRows_spec.1.2 (hkeys.nodup_iff.1 hnodup)
    refine Or.inr ⟨index, index', hindex, hindex', fun k => Option.ext fun row => ?_⟩
    rw [indexRows_spec.2 index hindex, indexRows_spec.2 index' hindex', h.mem_iff]
  · refine Or.inl ⟨"Duplicate condition in block", ?_, ?_⟩
    · cases he : indexRows rows with
      | ok index => exact absurd (indexRows_spec.1.1 ⟨index, he⟩) hnodup
      | error e => rw [foldlM_indexRow_error he]
    · cases he : indexRows rows' with
      | ok index => exact absurd (hkeys.nodup_iff.2 (indexRows_spec.1.1 ⟨index, he⟩)) hnodup
      | error e => rw [foldlM_indexRow_error he]

theorem compare_congr {index index' : FinMap Key Row} (h : ∀ k, index.get? k = index'.get? k)
    (rngs : Int → Rng) (repeats : String → List Int) :
    compare rngs index repeats = compare rngs index' repeats := by
  have hrepeat : compareRepeat index = compareRepeat index' := by
    funext task baseline candidate metric st r
    rw [compareRepeat, compareRepeat, h, h]
  funext entry
  rw [compare, compare, hrepeat]

theorem plannedRepeats_perm (h : plan.Perm plan') : plannedRepeats plan = plannedRepeats plan' := by
  funext task
  refine Grouping.sortedSet_congr fun r => ?_
  exact ((h.filter _).map Planned.repeatNumber).mem_iff

theorem metricsOf_perm (h : rows.Perm rows') (serverMetricsEnabled : Bool) :
    metricsOf rows serverMetricsEnabled = metricsOf rows' serverMetricsEnabled := by
  rw [metricsOf, metricsOf, includesServer, includesServer, h.any_eq]

/-- **Rows and plan in another order give the same list**, or the same failure. -/
theorem pairedResults_perm (rngs : Int → Rng) (hrows : rows.Perm rows') (hplan : plan.Perm plan')
    (serverMetricsEnabled : Bool) : pairedResults rngs rows plan serverMetricsEnabled =
      pairedResults rngs rows' plan' serverMetricsEnabled := by
  have htasks : Grouping.sortedSet (plan.map Planned.task) =
      Grouping.sortedSet (plan'.map Planned.task) :=
    Grouping.sortedSet_congr fun task => (hplan.map Planned.task).mem_iff
  unfold pairedResults
  rw [htasks, metricsOf_perm hrows, plannedRepeats_perm hplan]
  obtain ⟨e, he, he'⟩ | ⟨index, index', hindex, hindex', hget⟩ := indexRows_perm hrows
  · rw [he, he']
  · rw [hindex, hindex']
    change List.mapM (compare rngs index _) _ = List.mapM (compare rngs index' _) _
    rw [compare_congr hget]

end Paired

/-! ## Results -/

section Pooled

variable {rngs : Int → Rng} {samples : Nat} {seed : Int}

theorem sortGroup_sorted (group : List Result) :
    (sortGroup group).Pairwise fun r r' => r.task ≤ r'.task :=
  List.pairwise_insertionSort (fun r r' : Result => r.task ≤ r'.task) group

/-- A group with every task once is sorted in one way. -/
theorem poolGroup_perm {k : String × String × Metric} {group group' : List Result}
    (h : group.Perm group') {p : Pooled} (hp : poolGroup rngs samples seed (k, group) = .ok p) :
    poolGroup rngs samples seed (k, group') = .ok p := by
  have hnodup : ((sortGroup group).map Result.task).Nodup := by
    by_contra hdup
    have hfails : Except.failIf (¬ ((sortGroup group).map Result.task).Nodup)
        "Duplicate task in pooled comparison" = .error "Duplicate task in pooled comparison" :=
      if_pos hdup
    unfold poolGroup at hp
    change (Except.failIf (¬ ((sortGroup group).map Result.task).Nodup)
      "Duplicate task in pooled comparison" >>= fun _ => _) = _ at hp
    rw [hfails] at hp
    cases hp
  have hsorted : sortGroup group = sortGroup group' := by
    refine Grouping.eq_of_sorted ?_ hnodup (sortGroup_sorted group) (sortGroup_sorted group')
    exact (sortGroup_perm group).trans (h.trans (sortGroup_perm group').symm)
  have hinsert : group.insertionSort (fun r r' => r.task ≤ r'.task) =
      group'.insertionSort fun r r' => r.task ≤ r'.task := hsorted
  unfold poolGroup at hp ⊢
  dsimp only at hp ⊢
  rw [← hinsert]
  exact hp

/-- **Results in another order give the same entries.** -/
theorem pooledResults_perm {results results' : List Result} (h : results.Perm results')
    {pooled : List Pooled} (hpooled : pooledResults rngs results samples seed = .ok pooled) :
    ∃ pooled', pooledResults rngs results' samples seed = .ok pooled' ∧ pooled.Perm pooled' := by
  unfold pooledResults at hpooled ⊢
  rw [Grouping.entries_groups] at hpooled ⊢
  rw [List.mapM_map] at hpooled ⊢
  obtain ⟨pooled', hpooled', hperm⟩ := Grouping.mapM_perm (Grouping.keys_perm _ h) hpooled
  refine ⟨pooled', ?_, hperm⟩
  rw [Except.mapM_eq_ok] at hpooled' ⊢
  refine (List.map_congr_left fun k hk => ?_).trans hpooled'
  have hmem : poolGroup rngs samples seed (k, Grouping.group Result.comparison results k) ∈
      pooled'.map .ok :=
    hpooled' ▸ List.mem_map_of_mem hk
  obtain ⟨p, -, hp⟩ := List.mem_map.1 hmem
  have hgroup := poolGroup_perm (h.filter fun r => r.comparison = k) hp.symm
  exact hgroup.trans hp

end Pooled

/-! ## The interval -/

section Interval

variable {lo hi : Rat}

theorem length_smul_le_sum : ∀ {values : List Rat}, (∀ v ∈ values, lo ≤ v) →
    values.length * lo ≤ values.sum
  | [], _ => by simp
  | v :: values, h => by
    obtain ⟨hv, hrest⟩ := List.forall_mem_cons.1 h
    have ih := length_smul_le_sum hrest
    rw [List.length_cons, List.sum_cons]
    push_cast
    linarith

theorem sum_le_length_smul : ∀ {values : List Rat}, (∀ v ∈ values, v ≤ hi) →
    values.sum ≤ values.length * hi
  | [], _ => by simp
  | v :: values, h => by
    obtain ⟨hv, hrest⟩ := List.forall_mem_cons.1 h
    have ih := sum_le_length_smul hrest
    rw [List.length_cons, List.sum_cons]
    push_cast
    linarith

/-- A mean lies between the bounds of its values. -/
theorem mean_bounds {values : List Rat} (hne : values ≠ []) (hlo : ∀ v ∈ values, lo ≤ v)
    (hhi : ∀ v ∈ values, v ≤ hi) : lo ≤ mean values ∧ mean values ≤ hi := by
  have hpos : (0 : Rat) < values.length := by
    exact_mod_cast List.length_pos_iff.2 hne
  constructor
  · rw [mean, le_div_iff₀ hpos, mul_comm]
    exact length_smul_le_sum hlo
  · rw [mean, div_le_iff₀ hpos, mul_comm]
    exact sum_le_length_smul hhi

variable {rng : Rng} {values : List Rat} {hpos : 0 < values.length}

theorem mem_resample {number : Nat} {v : Rat} (hv : v ∈ resample rng hpos number) : v ∈ values := by
  obtain ⟨i, -, rfl⟩ := List.mem_map.1 hv
  exact List.get_mem _ _

theorem resample_ne_nil (number : Nat) : resample rng hpos number ≠ [] := by
  intro hnil
  have hlength : (resample rng hpos number).length = values.length := by simp [resample]
  rw [hnil, List.length_nil] at hlength
  omega

theorem mem_sampleMeans {count : Nat} {m : Rat} (hm : m ∈ sampleMeans rng hpos count) :
    ∃ number, m = mean (resample rng hpos number) := by
  rw [sampleMeans, List.mem_insertionSort] at hm
  obtain ⟨number, -, rfl⟩ := List.mem_map.1 hm
  exact ⟨number, rfl⟩

/-- The means are sorted, so an earlier one is not larger. -/
theorem sampleMeans_le {count i j : Nat} (hij : i ≤ j) {x y : Rat}
    (hx : (sampleMeans rng hpos count)[i]? = some x)
    (hy : (sampleMeans rng hpos count)[j]? = some y) : x ≤ y := by
  obtain ⟨hi, rfl⟩ := List.getElem?_eq_some_iff.1 hx
  obtain ⟨hj, rfl⟩ := List.getElem?_eq_some_iff.1 hy
  have hsorted : (sampleMeans rng hpos count).Pairwise (· ≤ ·) :=
    List.pairwise_insertionSort (· ≤ ·) _
  rcases Nat.lt_or_eq_of_le hij with hlt | rfl
  · exact List.pairwise_iff_getElem.1 hsorted i j hi hj hlt
  · exact le_refl _

end Interval

/-- **The interval** lies between the smallest and the largest value, and is degenerate exactly if
its ends are equal. -/
theorem pairedEstimate_bounds {rngs : Int → Rng} {values : List Rat} {samples : Nat} {seed : Int}
    (hvalues : 5 ≤ values.length) (hsamples : 2 ≤ samples) :
    ∃ estimate lo lower upper hi, pairedEstimate rngs values samples seed = .ok estimate ∧
      estimate.ci95 = some (lower, upper) ∧ values.min? = some lo ∧ values.max? = some hi ∧
      lo ≤ lower ∧ lower ≤ upper ∧ upper ≤ hi ∧
      (estimate.status = .degenerate ↔ lower = upper) := by
  obtain ⟨lower, upper, hok, hlower, hupper⟩ :=
    @pairedEstimate_interval rngs values samples seed hvalues hsamples
  have hne : values ≠ [] := by
    rintro rfl
    simp at hvalues
  obtain ⟨lo, hlo⟩ := Option.isSome_iff_exists.1 (List.isSome_min?_of_ne_nil hne)
  obtain ⟨hi, hhi⟩ := Option.isSome_iff_exists.1 (List.isSome_max?_of_ne_nil hne)
  have hleast : ∀ v ∈ values, lo ≤ v := (List.min?_eq_some_iff.1 hlo).2
  have hgreatest : ∀ v ∈ values, v ≤ hi := (List.max?_eq_some_iff.1 hhi).2
  have hbounds : ∀ m ∈ sampleMeans (rngs seed) (Nat.lt_of_lt_of_le (by decide) hvalues) samples,
      lo ≤ m ∧ m ≤ hi := by
    intro m hm
    obtain ⟨number, rfl⟩ := mem_sampleMeans hm
    exact mean_bounds (resample_ne_nil number) (fun v hv => hleast v (mem_resample hv))
      fun v hv => hgreatest v (mem_resample hv)
  refine ⟨_, lo, lower, upper, hi, hok, rfl, hlo, hhi, ?_, ?_, ?_, ?_⟩
  · exact (hbounds lower (List.mem_of_getElem? hlower)).1
  · exact sampleMeans_le (by omega) hlower hupper
  · exact (hbounds upper (List.mem_of_getElem? hupper)).2
  · split
    · rename_i he
      exact iff_of_true rfl he
    · rename_i hneq
      exact iff_of_false (by simp) hneq

/-- **The order of the records does not matter**, and every interval is within its values. -/
theorem reports_order (rngs : Int → Rng) :
    (∀ (rows rows' : List Row) (plan plan' : List Planned) (serverMetricsEnabled : Bool),
      rows.Perm rows' → plan.Perm plan' → pairedResults rngs rows plan serverMetricsEnabled =
        pairedResults rngs rows' plan' serverMetricsEnabled) ∧
    (∀ (results results' : List Result) (samples : Nat) (seed : Int), results.Perm results' →
      ∀ pooled, pooledResults rngs results samples seed = .ok pooled →
        ∃ pooled', pooledResults rngs results' samples seed = .ok pooled' ∧ pooled.Perm pooled') ∧
    ∀ (values : List Rat) (samples : Nat) (seed : Int), 5 ≤ values.length → 2 ≤ samples →
      ∃ estimate lo lower upper hi, pairedEstimate rngs values samples seed = .ok estimate ∧
        estimate.ci95 = some (lower, upper) ∧ values.min? = some lo ∧ values.max? = some hi ∧
        lo ≤ lower ∧ lower ≤ upper ∧ upper ≤ hi ∧
        (estimate.status = .degenerate ↔ lower = upper) :=
  ⟨fun _ _ _ _ serverMetricsEnabled hrows hplan =>
      pairedResults_perm rngs hrows hplan serverMetricsEnabled,
    fun _ _ _ _ h _ hpooled => pooledResults_perm h hpooled,
    fun _ _ _ hvalues hsamples => pairedEstimate_bounds hvalues hsamples⟩

/-- Two tasks planned in either order, no results, and five differences resampled twice. -/
theorem reports_order_two :
    (pairedResults (fun _ => halfRng) [] [⟨"t", 1⟩, ⟨"u", 1⟩] false =
      pairedResults (fun _ => halfRng) [] [⟨"u", 1⟩, ⟨"t", 1⟩] false) ∧
    (∃ pooled, pooledResults (fun _ => halfRng) [] 2 0 = .ok pooled ∧ [].Perm pooled) ∧
    ∃ estimate lo lower upper hi,
      pairedEstimate (fun _ => halfRng) [1, 2, 3, 4, 5] 2 0 = .ok estimate ∧
      estimate.ci95 = some (lower, upper) ∧
      ([1, 2, 3, 4, 5] : List Rat).min? = some lo ∧ ([1, 2, 3, 4, 5] : List Rat).max? = some hi ∧
      lo ≤ lower ∧ lower ≤ upper ∧ upper ≤ hi ∧ (estimate.status = .degenerate ↔ lower = upper) :=
  ⟨(reports_order fun _ => halfRng).1 [] [] [⟨"t", 1⟩, ⟨"u", 1⟩] [⟨"u", 1⟩, ⟨"t", 1⟩] false
      (List.Perm.refl []) (List.Perm.swap _ _ _),
    (reports_order fun _ => halfRng).2.1 [] [] 2 0 (List.Perm.refl []) [] rfl,
    (reports_order fun _ => halfRng).2.2 [1, 2, 3, 4, 5] 2 0 (by decide) (by decide)⟩

end ReedCode.Reporting
