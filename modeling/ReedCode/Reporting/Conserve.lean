import ReedCode.Reporting.Paired

/-!
# Paired reports lose and invent no pairs

* `indexRows_spec` — the index is the rows by key.
* `compareAll_spec` — the loop over the repeats: the deltas are those of the eligible pairs, and the
  exclusions count the others by reason.
* `pairedEstimate_ok` — the estimate of some differences.
* `ResultOf`, `PooledOf` — what an entry of either list is.
* `reports_conserve` — **every entry of both lists accounts for every planned pair.**
-/

set_option autoImplicit false

namespace ReedCode.Reporting

/-! ## The index -/

theorem indexFrom_spec : ∀ {rows : List Row} {m : FinMap Key Row},
    ((∃ index, rows.foldlM indexRow m = .ok index) ↔
      (rows.map Row.key).Nodup ∧ ∀ row ∈ rows, m.get? row.key = none) ∧
    ∀ index, rows.foldlM indexRow m = .ok index →
      ∀ k row, index.get? k = some row ↔ m.get? k = some row ∨ (row ∈ rows ∧ row.key = k)
  | [], m => by
    refine ⟨iff_of_true ⟨m, rfl⟩ ⟨List.nodup_nil, fun _ h => (by cases h)⟩, fun index h => ?_⟩
    cases h
    simp
  | row :: rows, m => by
    obtain ⟨hok, hget⟩ := @indexFrom_spec rows (m.insert row.key row)
    rw [List.foldlM_cons]
    by_cases hin : m.contains row.key = true
    · have hfails : indexRow m row = .error "Duplicate condition in block" := if_pos hin
      rw [hfails]
      refine ⟨iff_of_false ?_ fun h => ?_, fun index h => (by cases h)⟩
      · rintro ⟨index, h⟩
        cases h
      · rw [FinMap.contains_eq_isSome, h.2 row (by simp)] at hin
        cases hin
    · have hstep : indexRow m row = .ok (m.insert row.key row) := if_neg hin
      have hnone : m.get? row.key = none := by
        rw [FinMap.contains_eq_isSome] at hin
        exact Option.not_isSome_iff_eq_none.1 hin
      rw [hstep]
      change ((∃ index, rows.foldlM indexRow (m.insert row.key row) = .ok index) ↔ _) ∧
        ∀ index, rows.foldlM indexRow (m.insert row.key row) = .ok index → _
      constructor
      · rw [hok, List.map_cons, List.nodup_cons]
        constructor
        · rintro ⟨hnodup, hrows⟩
          have hne : ∀ row' ∈ rows, row.key ≠ row'.key := by
            intro row' hrow' he
            have hcontra := hrows row' hrow'
            rw [← he, FinMap.get?_insert_self] at hcontra
            cases hcontra
          refine ⟨⟨fun hmem => ?_, hnodup⟩, List.forall_mem_cons.2 ⟨hnone, fun row' hrow' => ?_⟩⟩
          · obtain ⟨row', hrow', he⟩ := List.mem_map.1 hmem
            exact hne row' hrow' he.symm
          · rw [← hrows row' hrow', FinMap.get?_insert_ne _ _ (hne row' hrow')]
        · rintro ⟨⟨hnot, hnodup⟩, hrows⟩
          refine ⟨hnodup, fun row' hrow' => ?_⟩
          rw [FinMap.get?_insert_ne]
          · exact (List.forall_mem_cons.1 hrows).2 row' hrow'
          · exact fun he => hnot (he ▸ List.mem_map_of_mem hrow')
      · intro index h k row'
        rw [hget index h, FinMap.get?_insert, List.mem_cons]
        by_cases hk : row.key = k
        · subst hk
          rw [if_pos rfl, hnone]
          constructor
          · rintro (he | ⟨hin', he⟩)
            · obtain rfl := Option.some.inj he
              exact Or.inr ⟨Or.inl rfl, rfl⟩
            · exact Or.inr ⟨Or.inr hin', he⟩
          · rintro (he | ⟨rfl | hin', he⟩)
            · cases he
            · exact Or.inl rfl
            · exact Or.inr ⟨hin', he⟩
        · rw [if_neg hk]
          constructor
          · rintro (he | ⟨hin', he⟩)
            · exact Or.inl he
            · exact Or.inr ⟨Or.inr hin', he⟩
          · rintro (he | ⟨rfl | hin', he⟩)
            · exact Or.inl he
            · exact absurd he hk
            · exact Or.inr ⟨hin', he⟩

/-- **The index**: it is built exactly if no key comes twice, and holds the rows by key. -/
theorem indexRows_spec {rows : List Row} :
    ((∃ index, indexRows rows = .ok index) ↔ (rows.map Row.key).Nodup) ∧
    ∀ index, indexRows rows = .ok index →
      ∀ k row, index.get? k = some row ↔ row ∈ rows ∧ row.key = k := by
  obtain ⟨hok, hget⟩ := @indexFrom_spec rows .empty
  refine ⟨hok.trans (and_iff_left fun _ _ => rfl), fun index h k row => ?_⟩
  rw [hget index h]
  exact or_iff_right (by simp)

/-! ## The loop over the repeats -/

section Loop

variable (index : FinMap Key Row) (task baseline candidate : String) (metric : Metric)

def reasonAt (r : Int) : Option Reason :=
  pairExclusion (index.get? (task, r, baseline)) (index.get? (task, r, candidate)) metric

/-- The difference of an eligible pair. -/
def deltaAt (r : Int) : Option Rat :=
  if reasonAt index task baseline candidate metric r = none then
    delta? (index.get? (task, r, baseline)) (index.get? (task, r, candidate)) metric
  else none

end Loop

/-- What two rows must be to make a pair. -/
structure EligibleRows (metric : Metric) (a b : Row) : Prop where
  noException : given a.exceptionType = false ∧ given b.exceptionType = false
  telemetry : metric ≠ .reward → a.telemetryComplete = true ∧ b.telemetryComplete = true
  known : ∃ x y, a.metric metric = some x ∧ b.metric metric = some y
  checksum : ∃ s, s ≠ "" ∧ a.taskChecksum = some s ∧ b.taskChecksum = some s

theorem pairExclusion_eq_none {a b : Option Row} {metric : Metric} :
    pairExclusion a b metric = none ↔ ∃ x y, a = some x ∧ b = some y ∧ EligibleRows metric x y := by
  cases a with
  | none =>
    refine iff_of_false (fun h => (by cases h)) ?_
    rintro ⟨x, y, h, -, -⟩
    cases h
  | some a =>
    cases b with
    | none =>
      refine iff_of_false (fun h => (by cases h)) ?_
      rintro ⟨x, y, -, h, -⟩
      cases h
    | some b =>
      have hsome : (∃ x y, some a = some x ∧ some b = some y ∧ EligibleRows metric x y) ↔
          EligibleRows metric a b := by
        constructor
        · rintro ⟨x, y, hx, hy, h⟩
          cases hx
          cases hy
          exact h
        · exact fun h => ⟨a, b, rfl, rfl, h⟩
      rw [hsome]
      unfold pairExclusion
      dsimp only
      split
      · rename_i hexception
        refine iff_of_false (fun h => (by cases h)) fun h => ?_
        rw [h.noException.1, h.noException.2] at hexception
        simp at hexception
      split
      · rename_i htelemetry
        exact iff_of_false (fun h => (by cases h)) fun h => htelemetry.2 (h.telemetry htelemetry.1)
      split
      · rename_i hmissing
        refine iff_of_false (fun h => (by cases h)) fun h => ?_
        obtain ⟨x, y, hx, hy⟩ := h.known
        rw [hx, hy] at hmissing
        simp at hmissing
      split
      · rename_i hchecksum
        refine iff_of_false (fun h => (by cases h)) fun h => ?_
        obtain ⟨s, hs, ha, hb⟩ := h.checksum
        rw [ha, hb] at hchecksum
        simp [given, hs] at hchecksum
      split
      · rename_i hdiffer
        refine iff_of_false (fun h => (by cases h)) fun h => ?_
        obtain ⟨s, hs, ha, hb⟩ := h.checksum
        exact hdiffer (ha.trans hb.symm)
      · rename_i hexception htelemetry hmissing hchecksum hdiffer
        rw [not_or] at hexception hmissing hchecksum
        obtain ⟨x, hx⟩ := Option.ne_none_iff_exists'.1 hmissing.1
        obtain ⟨y, hy⟩ := Option.ne_none_iff_exists'.1 hmissing.2
        refine iff_of_true rfl ⟨⟨Bool.eq_false_iff.2 hexception.1, Bool.eq_false_iff.2 hexception.2⟩,
          fun hreward => Classical.not_not.1 fun h => htelemetry ⟨hreward, h⟩, ⟨x, y, hx, hy⟩, ?_⟩
        have hgiven := Classical.not_not.1 hchecksum.1
        rw [Classical.not_not] at hdiffer
        cases ha : a.taskChecksum with
        | none =>
          rw [ha] at hgiven
          cases hgiven
        | some s =>
          rw [ha] at hgiven
          exact ⟨s, by simpa [given] using hgiven, rfl, hdiffer.symm.trans ha⟩

theorem delta?_some {a b : Row} {metric : Metric} {x y : Rat} (hx : a.metric metric = some x)
    (hy : b.metric metric = some y) : delta? (some a) (some b) metric = some (y - x) := by
  rw [delta?, Option.bind_some, Option.bind_some, hx, Option.bind_some, hy, Option.map_some]

section Loop

variable {index : FinMap Key Row} {task baseline candidate : String} {metric : Metric}

/-- Exactly the eligible pairs have a difference. -/
theorem deltaAt_isSome {r : Int} : (deltaAt index task baseline candidate metric r).isSome ↔
    reasonAt index task baseline candidate metric r = none := by
  unfold deltaAt
  split
  · rename_i hnone
    obtain ⟨a, b, ha, hb, h⟩ := pairExclusion_eq_none.1 hnone
    obtain ⟨x, y, hx, hy⟩ := h.known
    rw [ha, hb, delta?_some hx hy]
    exact iff_of_true rfl hnone
  · rename_i hsome
    exact iff_of_false (by simp) hsome

theorem compareRepeat_spec (st : List Rat × (Reason → Nat)) (r : Int) :
    compareRepeat index task baseline candidate metric st r = .ok
      (st.1 ++ (deltaAt index task baseline candidate metric r).toList,
        fun reason => st.2 reason +
          if reasonAt index task baseline candidate metric r = some reason then 1 else 0) := by
  have hdelta := @deltaAt_isSome index task baseline candidate metric r
  have hreasonAt : pairExclusion (index.get? (task, r, baseline)) (index.get? (task, r, candidate))
      metric = reasonAt index task baseline candidate metric r := rfl
  unfold compareRepeat
  dsimp only
  rw [hreasonAt]
  cases hreason : reasonAt index task baseline candidate metric r with
  | some reason =>
    have hnone : deltaAt index task baseline candidate metric r = none := by
      rw [← Option.not_isSome_iff_eq_none, hdelta, hreason]
      simp
    rw [hnone]
    dsimp only
    rw [Option.toList_none, List.append_nil]
    refine congrArg (fun exclusions => Except.ok (st.1, exclusions)) (funext fun reason' => ?_)
    by_cases he : reason' = reason
    · rw [if_pos he, if_pos (by rw [he])]
    · rw [if_neg he, if_neg fun h => he (Option.some.inj h).symm, Nat.add_zero]
  | none =>
    obtain ⟨delta, hsome⟩ := Option.isSome_iff_exists.1 (hdelta.2 hreason)
    have hvalue : delta? (index.get? (task, r, baseline)) (index.get? (task, r, candidate)) metric =
        some delta := by
      rw [← hsome, deltaAt, if_pos hreason]
    rw [hsome]
    dsimp only
    rw [hvalue]
    rfl

/-- **The loop**: the deltas of the eligible pairs, and the others counted by their reasons. -/
theorem compareAll_spec : ∀ (repeats : List Int) (st : List Rat × (Reason → Nat)),
    repeats.foldlM (compareRepeat index task baseline candidate metric) st = .ok
      (st.1 ++ repeats.filterMap (deltaAt index task baseline candidate metric),
        fun reason => st.2 reason +
          repeats.countP fun r => reasonAt index task baseline candidate metric r = some reason)
  | [], st => by
    rw [List.filterMap_nil, List.append_nil]
    rfl
  | r :: repeats, st => by
    rw [List.foldlM_cons, compareRepeat_spec]
    change List.foldlM _ _ repeats = _
    rw [compareAll_spec repeats]
    refine congrArg Except.ok (Prod.ext ?_ (funext fun reason => ?_))
    · cases hdelta : deltaAt index task baseline candidate metric r with
      | none => rw [List.filterMap_cons_none hdelta, Option.toList_none, List.append_nil]
      | some delta =>
        rw [List.filterMap_cons_some hdelta, Option.toList_some]
        exact List.append_assoc ..
    · dsimp only
      rw [List.countP_cons, Nat.add_assoc, Nat.add_comm (ite _ _ _)]
      simp

/-- No repeat is lost: it has a difference or one reason. -/
theorem conserved : ∀ repeats : List Int,
    (repeats.filterMap (deltaAt index task baseline candidate metric)).length +
      (Reason.all.map fun reason => repeats.countP fun r =>
        reasonAt index task baseline candidate metric r = some reason).sum = repeats.length
  | [] => rfl
  | r :: repeats => by
    have hrest := conserved repeats
    have hdelta := @deltaAt_isSome index task baseline candidate metric r
    rw [List.length_cons, ← hrest]
    simp only [List.countP_cons]
    cases hreason : reasonAt index task baseline candidate metric r with
    | none =>
      obtain ⟨delta, hsome⟩ := Option.isSome_iff_exists.1 (hdelta.2 hreason)
      rw [List.filterMap_cons_some hsome, List.length_cons]
      simp
      omega
    | some reason =>
      have hnone : deltaAt index task baseline candidate metric r = none := by
        rw [← Option.not_isSome_iff_eq_none, hdelta, hreason]
        simp
      rw [List.filterMap_cons_none hnone]
      cases reason <;> simp [Reason.all] <;> omega

end Loop

/-! ## The estimate -/

theorem length_sampleMeans {rng : Rng} {values : List Rat} {hpos : 0 < values.length} {count : Nat} :
    (sampleMeans rng hpos count).length = count := by
  rw [sampleMeans, List.length_insertionSort, List.length_map, List.length_range]

theorem pyIndex_lt {xs : List Rat} {i : Int} (hpos : 0 ≤ i) (hlt : i < xs.length) :
    ∃ x, pyIndex xs i = some x ∧ xs[i.toNat]? = some x := by
  have hnat : i.toNat < xs.length := by omega
  refine ⟨xs[i.toNat], ?_, List.getElem?_eq_getElem hnat⟩
  rw [pyIndex, if_pos hpos, List.getElem?_eq_getElem hnat]

/-- The interval is read off the sorted means. -/
theorem pairedEstimate_interval {rngs : Int → Rng} {values : List Rat} {samples : Nat} {seed : Int}
    (hvalues : 5 ≤ values.length) (hsamples : 2 ≤ samples) : ∃ lower upper,
      pairedEstimate rngs values samples seed = .ok ⟨values.length, some (mean values),
        some (lower, upper), if lower = upper then .degenerate else .estimated⟩ ∧
      (sampleMeans (rngs seed) (Nat.lt_of_lt_of_le (by decide) hvalues) samples)[samples / 40]? =
        some lower ∧
      (sampleMeans (rngs seed) (Nat.lt_of_lt_of_le (by decide) hvalues) samples)[
        39 * samples / 40 - 1]? = some upper := by
  have hlength := @length_sampleMeans (rngs seed) values (Nat.lt_of_lt_of_le (by decide) hvalues)
    samples
  generalize hmeans : sampleMeans (rngs seed) (Nat.lt_of_lt_of_le (by decide) hvalues) samples =
    means at hlength
  obtain ⟨lower, hlower, hlowerAt⟩ := @pyIndex_lt means (samples / 40) (by omega) (by omega)
  obtain ⟨upper, hupper, hupperAt⟩ := @pyIndex_lt means (39 * samples / 40 - 1) (by omega) (by omega)
  have hfirst : ((samples : Int) / 40).toNat = samples / 40 := by omega
  have hlast : (39 * (samples : Int) / 40 - 1).toNat = 39 * samples / 40 - 1 := by omega
  rw [hfirst] at hlowerAt
  rw [hlast] at hupperAt
  refine ⟨lower, upper, ?_, hlowerAt, hupperAt⟩
  have hne : values ≠ [] := by
    rintro rfl
    simp at hvalues
  unfold pairedEstimate
  rw [if_neg hne, dif_pos hvalues]
  dsimp only
  rw [hmeans, hlower, hupper]

theorem pairedEstimate_ok {rngs : Int → Rng} {values : List Rat} {samples : Nat} {seed : Int}
    (hsamples : 2 ≤ samples) : ∃ estimate, pairedEstimate rngs values samples seed = .ok estimate ∧
      estimate.pairs = values.length ∧
      estimate.meanDelta = if values = [] then none else some (mean values) := by
  by_cases hempty : values = []
  · subst hempty
    exact ⟨_, rfl, rfl, rfl⟩
  · rw [if_neg hempty]
    by_cases hvalues : 5 ≤ values.length
    · obtain ⟨lower, upper, h, -, -⟩ := pairedEstimate_interval hvalues hsamples
      exact ⟨_, h, rfl, rfl⟩
    · refine ⟨⟨values.length, some (mean values), none, .insufficientPairs⟩, ?_, rfl, rfl⟩
      rw [pairedEstimate, if_neg hempty, dif_neg hvalues]

/-! ## One entry for a task -/

/-- A repeat of a task that the plan has. -/
def IsPlanned (plan : List Planned) (task : String) (r : Int) : Prop :=
  ∃ p ∈ plan, p.task = task ∧ p.repeatNumber = r

/-- Two rows of a repeat that make a pair. -/
structure Pair (rows : List Row) (e : Result) (r : Int) (a b : Row) : Prop where
  baseline : a ∈ rows ∧ a.key = (e.task, r, e.baseline)
  candidate : b ∈ rows ∧ b.key = (e.task, r, e.candidate)
  eligible : EligibleRows e.metric a b

/-- An entry accounts for every planned repeat of its task; its deltas are those of the pairs. -/
structure ResultOf (rngs : Int → Rng) (rows : List Row) (plan : List Planned) (e : Result) :
    Prop where
  planned : ∃ repeats : List Int, repeats.Nodup ∧ (∀ r, r ∈ repeats ↔ IsPlanned plan e.task r) ∧
    e.plannedPairs = repeats.length
  conserved : e.estimate.pairs + (Reason.all.map e.excludedPairs).sum = e.plannedPairs
  deltas : ∃ deltas : List (Int × Rat),
    pairedEstimate rngs (deltas.map Prod.snd) 10000 0 = .ok e.estimate ∧
    e.estimate.pairs = deltas.length ∧ (deltas.map Prod.fst).Nodup ∧
    (∀ r, r ∈ deltas.map Prod.fst ↔ IsPlanned plan e.task r ∧ ∃ a b, Pair rows e r a b) ∧
    ∀ d ∈ deltas, ∃ a b x y, Pair rows e d.1 a b ∧ a.metric e.metric = some x ∧
      b.metric e.metric = some y ∧ d.2 = y - x

theorem mem_plannedRepeats {plan : List Planned} {task : String} {r : Int} :
    r ∈ plannedRepeats plan task ↔ IsPlanned plan task r := by
  rw [plannedRepeats, Grouping.mem_sortedSet, List.mem_map]
  constructor
  · rintro ⟨p, hp, hr⟩
    obtain ⟨hin, htask⟩ := List.mem_filter.1 hp
    exact ⟨p, hin, of_decide_eq_true htask, hr⟩
  · rintro ⟨p, hin, htask, hr⟩
    exact ⟨p, List.mem_filter.2 ⟨hin, decide_eq_true htask⟩, hr⟩

/-- The eligible repeats with their differences. -/
theorem filterMap_pairs {α β : Type} (f : α → Option β) : ∀ as : List α,
    ∃ pairs : List (α × β), pairs.map Prod.snd = as.filterMap f ∧
      pairs.map Prod.fst = as.filter (fun a => (f a).isSome) ∧ ∀ p ∈ pairs, f p.1 = some p.2
  | [] => ⟨[], rfl, rfl, fun _ h => (by cases h)⟩
  | a :: as => by
    obtain ⟨pairs, hsnd, hfst, hall⟩ := filterMap_pairs f as
    cases ha : f a with
    | none =>
      refine ⟨pairs, ?_, ?_, hall⟩
      · rw [List.filterMap_cons_none ha, hsnd]
      · rw [List.filter_cons_of_neg (by simp [ha]), hfst]
    | some b =>
      refine ⟨(a, b) :: pairs, ?_, ?_, List.forall_mem_cons.2 ⟨ha, hall⟩⟩
      · rw [List.filterMap_cons_some ha, List.map_cons, hsnd]
      · rw [List.filter_cons_of_pos (by simp [ha]), List.map_cons, hfst]

theorem compare_spec {rngs : Int → Rng} {rows : List Row} {plan : List Planned}
    {index : FinMap Key Row} (hindex : indexRows rows = .ok index)
    (entry : String × (String × String) × Metric) : ∃ e,
      compare rngs index (plannedRepeats plan) entry = .ok e ∧
      (e.task, (e.baseline, e.candidate), e.metric) = entry ∧ ResultOf rngs rows plan e := by
  obtain ⟨task, ⟨baseline, candidate⟩, metric⟩ := entry
  have hget := indexRows_spec.2 index hindex
  have hloop := @compareAll_spec index task baseline candidate metric (plannedRepeats plan task)
    ([], fun _ => 0)
  obtain ⟨estimate, hestimate, hpairs, -⟩ := @pairedEstimate_ok rngs
    ((plannedRepeats plan task).filterMap (deltaAt index task baseline candidate metric)) 10000 0
    (by decide)
  obtain ⟨deltas, hvalues, hrepeats, hdeltas⟩ :=
    filterMap_pairs (deltaAt index task baseline candidate metric) (plannedRepeats plan task)
  refine ⟨⟨task, baseline, candidate, metric, (plannedRepeats plan task).length, fun reason =>
    (plannedRepeats plan task).countP fun r =>
      reasonAt index task baseline candidate metric r = some reason, estimate⟩, ?_, rfl, ?_⟩
  · rw [compare]
    dsimp only
    rw [hloop]
    change (pairedEstimate rngs ([] ++ _) 10000 0).bind _ = _
    rw [List.nil_append, hestimate]
    refine congrArg (fun exclusions => Except.ok (⟨task, baseline, candidate, metric,
      (plannedRepeats plan task).length, exclusions, estimate⟩ : Result)) (funext fun reason => ?_)
    exact Nat.zero_add _
  · have hnodup := Grouping.nodup_sortedSet
      ((plan.filter fun p => p.task = task).map Planned.repeatNumber)
    change (plannedRepeats plan task).Nodup at hnodup
    refine ⟨⟨plannedRepeats plan task, hnodup, fun r => mem_plannedRepeats, rfl⟩, ?_, deltas, ?_, ?_,
      ?_, fun r => ?_, fun d hd => ?_⟩
    · exact (congrArg (· + _) hpairs).trans (conserved _)
    · rw [hvalues]
      exact hestimate
    · exact hpairs.trans (by rw [← hvalues, List.length_map])
    · rw [hrepeats]
      exact hnodup.filter _
    · rw [hrepeats, List.mem_filter, mem_plannedRepeats, deltaAt_isSome, reasonAt,
        pairExclusion_eq_none]
      refine and_congr_right fun _ => ?_
      constructor
      · rintro ⟨a, b, ha, hb, h⟩
        exact ⟨a, b, (hget _ _).1 ha, (hget _ _).1 hb, h⟩
      · rintro ⟨a, b, h⟩
        exact ⟨a, b, (hget _ _).2 h.baseline, (hget _ _).2 h.candidate, h.eligible⟩
    · have hsome := hdeltas d hd
      have hnone := deltaAt_isSome.1 (Option.isSome_iff_exists.2 ⟨_, hsome⟩)
      obtain ⟨a, b, ha, hb, h⟩ := pairExclusion_eq_none.1 hnone
      obtain ⟨x, y, hx, hy⟩ := h.known
      rw [deltaAt, if_pos hnone, ha, hb, delta?_some hx hy] at hsome
      exact ⟨a, b, x, y, ⟨(hget _ _).1 ha, (hget _ _).1 hb, h⟩, hx, hy,
        (Option.some.inj hsome).symm⟩

/-! ## All entries -/

/-- What an entry is about. -/
def Result.entry (e : Result) : String × (String × String) × Metric :=
  (e.task, (e.baseline, e.candidate), e.metric)

theorem entriesOf_eq (tasks : List String) (metrics : List Metric) :
    entriesOf tasks metrics = tasks.product (comparisons.product metrics) := by
  refine congrArg (List.flatMap · tasks) (funext fun task => ?_)
  change _ = (comparisons.flatMap fun c => metrics.map (Prod.mk c)).map (Prod.mk task)
  rw [List.map_flatMap]
  refine congrArg (List.flatMap · comparisons) (funext fun c => ?_)
  rw [List.map_map]
  rfl

theorem mem_entriesOf {tasks : List String} {metrics : List Metric} {task : String}
    {comparison : String × String} {metric : Metric} :
    (task, comparison, metric) ∈ entriesOf tasks metrics ↔
      task ∈ tasks ∧ comparison ∈ comparisons ∧ metric ∈ metrics := by
  rw [entriesOf_eq, List.pair_mem_product, List.pair_mem_product]

theorem entriesOf_nodup {tasks : List String} {metrics : List Metric} (htasks : tasks.Nodup)
    (hmetrics : metrics.Nodup) : (entriesOf tasks metrics).Nodup := by
  have hcomparisons : comparisons.Nodup := by decide
  rw [entriesOf_eq]
  exact htasks.product (hcomparisons.product hmetrics)

theorem metricsOf_nodup (rows : List Row) (serverMetricsEnabled : Bool) :
    (metricsOf rows serverMetricsEnabled).Nodup := by
  unfold metricsOf
  split <;> decide

/-- **One entry for every task, comparison and metric.** -/
theorem pairedResults_spec {rngs : Int → Rng} {rows : List Row} {plan : List Planned}
    {serverMetricsEnabled : Bool} {index : FinMap Key Row} (hindex : indexRows rows = .ok index) :
    ∃ results, pairedResults rngs rows plan serverMetricsEnabled = .ok results ∧
      results.map Result.entry = entriesOf (Grouping.sortedSet (plan.map Planned.task))
        (metricsOf rows serverMetricsEnabled) ∧
      ∀ e ∈ results, ResultOf rngs rows plan e := by
  have hall : ∀ entries : List (String × (String × String) × Metric), ∃ results,
      entries.mapM (compare rngs index (plannedRepeats plan)) = .ok results ∧
      results.map Result.entry = entries ∧ ∀ e ∈ results, ResultOf rngs rows plan e := by
    intro entries
    induction entries with
    | nil => exact ⟨[], rfl, rfl, fun _ h => (by cases h)⟩
    | cons entry entries ih =>
      obtain ⟨results, hresults, hentries, hof⟩ := ih
      obtain ⟨e, he, hentry, heof⟩ := @compare_spec rngs rows plan index hindex entry
      refine ⟨e :: results, ?_, ?_, List.forall_mem_cons.2 ⟨heof, hof⟩⟩
      · rw [List.mapM_cons, he, hresults]
        rfl
      · rw [List.map_cons, hentries]
        exact congrArg (· :: entries) hentry
  obtain ⟨results, hresults, hrest⟩ := hall (entriesOf (Grouping.sortedSet (plan.map Planned.task))
    (metricsOf rows serverMetricsEnabled))
  exact ⟨results, Except.bind_eq_ok_iff.2 ⟨index, hindex, hresults⟩, hrest⟩

/-! ## One entry over the tasks -/

/-- An entry over the tasks accounts for the entries of its comparison and metric. -/
structure PooledOf (plan : List Planned) (group : List Result) (p : Pooled) : Prop where
  pairs : p.pairs = (group.map fun e => e.estimate.pairs).sum
  plannedPairs : p.plannedPairs = (group.map Result.plannedPairs).sum
  excludedPairs : ∀ reason, p.excludedPairs reason = (group.map fun e => e.excludedPairs reason).sum
  partition : (p.includedTasks ++ p.excludedTasks).Nodup ∧
    ∀ task, task ∈ p.includedTasks ++ p.excludedTasks ↔ ∃ q ∈ plan, q.task = task
  included : ∀ task, task ∈ p.includedTasks ↔ ∃ e ∈ group, e.task = task ∧ 0 < e.estimate.pairs
  meanDelta : ∃ means : List Rat,
    ((group.filter Result.isIncluded).map fun e => e.estimate.meanDelta).Perm (means.map some) ∧
    p.meanDelta = if means = [] then none else some (mean means)
  coverage : p.coverage = .complete ↔ ∀ e ∈ group, ∀ reason, e.excludedPairs reason = 0

section Group

variable {rngs : Int → Rng} {rows : List Row} {plan : List Planned} {e : Result}

theorem ResultOf.meanDelta (h : ResultOf rngs rows plan e) (hpairs : 0 < e.estimate.pairs) :
    ∃ d, e.estimate.meanDelta = some d := by
  obtain ⟨deltas, hestimate, hlength, -⟩ := h.deltas
  obtain ⟨estimate, hok, -, hmean⟩ := @pairedEstimate_ok rngs (deltas.map Prod.snd) 10000 0
    (by decide)
  rw [hestimate] at hok
  cases hok
  refine ⟨_, hmean.trans (if_neg fun hnil => ?_)⟩
  rw [List.map_eq_nil_iff] at hnil
  rw [hlength, hnil] at hpairs
  exact absurd hpairs (by decide)

theorem ResultOf.planned_pos (h : ResultOf rngs rows plan e) {q : Planned} (hq : q ∈ plan)
    (htask : q.task = e.task) : 0 < e.plannedPairs := by
  obtain ⟨repeats, -, hmem, hlength⟩ := h.planned
  rw [hlength]
  exact List.length_pos_of_mem ((hmem q.repeatNumber).2 ⟨q, hq, htask, rfl⟩)

theorem ResultOf.complete_iff (h : ResultOf rngs rows plan e) :
    e.isComplete = true ↔ ∀ reason, e.excludedPairs reason = 0 := by
  have hconserved := h.conserved
  rw [Result.isComplete, decide_eq_true_eq]
  have hsum : (Reason.all.map e.excludedPairs).sum = 0 ↔ ∀ reason, e.excludedPairs reason = 0 := by
    simp only [Reason.all, List.map_cons, List.map_nil, List.sum_cons, List.sum_nil]
    constructor
    · intro hzero reason
      cases reason <;> omega
    · intro hall
      simp only [hall, Nat.add_zero]
  rw [← hsum]
  omega

end Group

/-- A group as `poolGroup` goes through it. -/
def sortGroup (group : List Result) : List Result :=
  group.insertionSort fun e e' => e.task ≤ e'.task

theorem sortGroup_perm (group : List Result) : (sortGroup group).Perm group :=
  List.perm_insertionSort _ group

/-- What is pooled of a group whose tasks are the planned ones. -/
theorem poolGroup_spec {rngs : Int → Rng} {rows : List Row} {plan : List Planned}
    {samples : Nat} {seed : Int} {key : String × String × Metric} {group : List Result}
    (hsamples : 2 ≤ samples) (hof : ∀ e ∈ group, ResultOf rngs rows plan e) (hne : group ≠ [])
    (hnodup : (group.map Result.task).Nodup)
    (htasks : ∀ task, task ∈ group.map Result.task ↔ ∃ q ∈ plan, q.task = task) :
    ∃ p, poolGroup rngs samples seed (key, group) = .ok p ∧
      (p.baseline, p.candidate, p.metric) = key ∧ PooledOf plan group p := by
  have hperm := sortGroup_perm group
  have hsortedNodup : ((sortGroup group).map Result.task).Nodup :=
    (hperm.map Result.task).nodup_iff.2 hnodup
  have hmeans : ∃ means, ((sortGroup group).filter Result.isIncluded).mapM Result.meanDelta =
      .ok means := by
    obtain ⟨means, h, -⟩ := @Except.exists_mapM_ok String Rat _ Result.meanDelta (fun _ => True)
      ((sortGroup group).filter Result.isIncluded) fun e he => by
        obtain ⟨hin, hincluded⟩ := List.mem_filter.1 he
        obtain ⟨d, hd⟩ := (hof e (hperm.mem_iff.1 hin)).meanDelta (of_decide_eq_true hincluded)
        exact ⟨d, by rw [Result.meanDelta, hd], trivial⟩
    exact ⟨means, h⟩
  obtain ⟨means, hmeans⟩ := hmeans
  obtain ⟨estimate, hestimate, -, hmean⟩ := @pairedEstimate_ok rngs means samples seed hsamples
  have hmeansOf : ((sortGroup group).filter Result.isIncluded).map (fun e => e.estimate.meanDelta) =
      means.map some := by
    rw [Except.mapM_eq_ok] at hmeans
    have hoption := congrArg (List.map Except.toOption) hmeans
    rw [List.map_map, List.map_map] at hoption
    refine Eq.trans (List.map_congr_left fun e _ => ?_) hoption
    rw [Function.comp_apply, Result.meanDelta]
    cases e.estimate.meanDelta <;> rfl
  have htasksPerm : (((sortGroup group).filter Result.isIncluded).map Result.task ++
      ((sortGroup group).filter fun e => e.estimate.pairs = 0).map Result.task).Perm
        (group.map Result.task) := by
    have hrest : ((sortGroup group).filter fun e => e.estimate.pairs = 0) =
        (sortGroup group).filter fun e => !e.isIncluded := by
      refine List.filter_congr fun e _ => ?_
      rw [Bool.eq_iff_iff]
      simp [Result.isIncluded]
    rw [← List.map_append, hrest]
    exact ((List.filter_append_perm Result.isIncluded (sortGroup group)).trans hperm).map _
  refine ⟨_, Except.bind_eq_ok_iff.2 ⟨(), Except.failIf_eq_ok.2 (not_not_intro hsortedNodup),
    Except.bind_eq_ok_iff.2 ⟨means, hmeans, Except.bind_eq_ok_iff.2 ⟨estimate, hestimate, rfl⟩⟩⟩,
    rfl, ⟨?_, ?_, fun reason => ?_, ?_, fun task => ?_, ⟨means, ?_, hmean⟩, ?_⟩⟩
  · exact (hperm.map _).sum_eq
  · exact (hperm.map _).sum_eq
  · exact (hperm.map _).sum_eq
  · exact ⟨htasksPerm.nodup_iff.2 hnodup, fun task => htasksPerm.mem_iff.trans (htasks task)⟩
  · rw [List.mem_map]
    constructor
    · rintro ⟨e, he, rfl⟩
      obtain ⟨hin, hincluded⟩ := List.mem_filter.1 he
      exact ⟨e, hperm.mem_iff.1 hin, rfl, of_decide_eq_true hincluded⟩
    · rintro ⟨e, hin, rfl, hpairs⟩
      exact ⟨e, List.mem_filter.2 ⟨hperm.mem_iff.2 hin, decide_eq_true hpairs⟩, rfl⟩
  · rw [← hmeansOf]
    exact ((hperm.filter _).map _).symm
  · have hall : (sortGroup group).all Result.isComplete = true ↔
        ∀ e ∈ group, ∀ reason, e.excludedPairs reason = 0 := by
      rw [List.all_eq_true]
      constructor
      · exact fun h e he => (hof e he).complete_iff.1 (h e (hperm.mem_iff.2 he))
      · exact fun h e he => (hof e (hperm.mem_iff.1 he)).complete_iff.2 (h e (hperm.mem_iff.1 he))
    rw [← hall]
    change (if (sortGroup group).filter Result.isIncluded = [] then Coverage.none
      else if (sortGroup group).all Result.isComplete = true then .complete else .partly) =
        .complete ↔ _
    by_cases hcomplete : (sortGroup group).all Result.isComplete = true
    · -- nothing is excluded, so the planned pairs are there
      obtain ⟨e, rest, rfl⟩ := List.exists_cons_of_ne_nil hne
      obtain ⟨q, hq, htask⟩ := (htasks e.task).1 (by simp)
      have hin : e ∈ sortGroup (e :: rest) := hperm.mem_iff.2 (by simp)
      have hpairs : e.estimate.pairs = e.plannedPairs :=
        of_decide_eq_true (List.all_eq_true.1 hcomplete e hin)
      have hincluded : e ∈ (sortGroup (e :: rest)).filter Result.isIncluded := by
        refine List.mem_filter.2 ⟨hin, decide_eq_true ?_⟩
        rw [hpairs]
        exact (hof e (by simp)).planned_pos hq htask
      rw [if_neg (List.ne_nil_of_mem hincluded), if_pos hcomplete]
      exact iff_of_true rfl hcomplete
    · refine iff_of_false ?_ hcomplete
      split <;> simp

/-- Half of the unit interval at every call. -/
def halfRng : Rng := ⟨fun _ => 1 / 2, fun _ => by norm_num, fun _ => by norm_num⟩

end ReedCode.Reporting
