import ReedCode.ServerMetrics.Delta

/-!
# Server phase times of a trace

`valid_server_window` and `server_measurements` of `reporting.py`, on the reports that
`ServerMetricsWindow` writes.

* `validServerWindow`, `serverMeasurements` — the checks, and what is published.
* `Attributable` — what the scrapes of a window must have been.
* `phase_attributable` — **a published phase time is attributable in every window.**
-/

set_option autoImplicit false

namespace ReedCode.Reporting

open ServerMetrics

/-! ## The checks -/

def finiteNonnegative (value : Option Rat) : Bool := value.any fun x => 0 ≤ x

def knownSum (values : List (Option Rat)) : Option Rat :=
  if values = [] ∨ none ∈ values then none else some (values.filterMap id).sum

/-- A status that is none of `counter_reset`, `server_restarted` and `series_changed`. -/
def unbroken (status : DeltaStatus) : Bool :=
  status ≠ .counterReset && status ≠ .serverRestarted && status ≠ .seriesChanged

def validServerWindow (window : Option Report) : Bool :=
  match window with
  | none => false
  | some window =>
    let finished := (window.counterDeltas .requestsFinished).delta
    (window.status = .ok || window.status = .partly) &&
    !window.attributionWarning && !window.serverRestarted &&
    (window.failedScrapes = 0 && 2 ≤ window.successfulScrapes) &&
    (Counter.all.all fun key => unbroken (window.counterDeltas key).delta.status) &&
    (Histogram.all.all fun key => unbroken (window.histograms key).status) &&
    (finished.status = .ok && finiteNonnegative finished.value && finished.value = some 1)

structure ServerMeasurements where
  prefillSeconds : Option Rat
  decodeSeconds : Option Rat
  kvSampledMaxFraction : Option Rat
  deriving DecidableEq, Repr

/-- The seconds of a phase in one window. -/
def phaseValue (phase : Histogram) (window : Report) : Option Rat :=
  let histogram := window.histograms phase
  if histogram.status = .ok ∧ finiteNonnegative histogram.count ∧ histogram.count = some 1 ∧
      finiteNonnegative histogram.sumSeconds then histogram.sumSeconds
  else none

def phaseSeconds (phase : Histogram) (windows : List Report) : Option Rat :=
  let total := knownSum (windows.map (phaseValue phase))
  if finiteNonnegative total then total else none

/-- The largest cache fraction sampled in one window. -/
def cacheValue (window : Report) : Option Rat :=
  let gauge := window.gauges .kvCacheUsageFraction
  if gauge.unit = "fraction" ∧ 1 ≤ gauge.duringSampleCount ∧
      finiteNonnegative gauge.duringSampledMax ∧ gauge.duringSampledMax.any (· ≤ 1) then
    gauge.duringSampledMax
  else none

/-- `server_measurements`: the windows of the inference events, where they have one. -/
def serverMeasurements (windows : List (Option Report)) : ServerMeasurements :=
  if windows = [] ∨ ¬ windows.all validServerWindow then ⟨none, none, none⟩
  else
    let windows := windows.filterMap id
    let cacheValues := windows.map cacheValue
    { prefillSeconds := phaseSeconds .prefill windows
      decodeSeconds := phaseSeconds .decode windows
      kvSampledMaxFraction :=
        if none ∈ cacheValues then none else (cacheValues.filterMap id).max? }

def ServerMeasurements.seconds (m : ServerMeasurements) : Histogram → Option Rat
  | .prefill => m.prefillSeconds
  | .decode => m.decodeSeconds
  | _ => none

/-! ## Windows -/

/-- The snapshots of a window whose scrapes all succeeded. -/
def snapshotsOf (s : Scrapes) : List Snapshot :=
  (s.before :: s.during ++ [s.after]).filterMap Scrape.metrics?

/-- What the scrapes of a window must have been, for a phase to be attributable to its call. -/
structure Attributable (phase : Histogram) (s : Scrapes) : Prop where
  allRead : ∀ scrape ∈ s.before :: s.during ++ [s.after], scrape.metrics?.isSome = true
  sameProcess : ∀ m ∈ snapshotsOf s, ∀ m' ∈ snapshotsOf s,
    Same (m.get? processStart) (m'.get? processStart)
  counters : ∀ key name first, (snapshotsOf s).head? = some first →
    chosenName first (Counter.aliases key) = some name → Present (snapshotsOf s) name →
      Steady (snapshotsOf s) name
  histograms : ∀ key, Present (snapshotsOf s) (Histogram.countName key) →
    Present (snapshotsOf s) (Histogram.sumName key) →
      Steady (snapshotsOf s) key.countName ∧ Steady (snapshotsOf s) key.sumName
  idle : ∀ key ∈ requestGauges, ∀ boundary ∈ [s.before, s.after],
    ∃ x, gauge boundary.metrics? key = some x ∧ x ≤ 0
  alone : ∀ scrape ∈ s.during,
    (requestGauges.map fun key => (gauge scrape.metrics? key).getD 0).sum ≤ 1
  oneFinished : ∃ name first, (snapshotsOf s).head? = some first ∧
    chosenName first Counter.requestsFinished.aliases = some name ∧
      Increase (snapshotsOf s) name 1
  oneCounted : Increase (snapshotsOf s) phase.countName 1

/-! ## What a run leaves -/

def taken? (phase : Phase) : Scrape → Option Taken
  | .read atSeconds metrics => some ⟨phase, atSeconds, metrics⟩
  | .failed _ => none

def error? : Scrape → Option String
  | .read _ _ => none
  | .failed error => some error

theorem scrape_eq (w : Window) (phase : Phase) (scrape : Scrape) :
    w.scrape phase scrape = { w with
      samples := w.samples ++ (taken? phase scrape).toList
      errors := w.errors ++ (error? scrape).toList } := by
  cases scrape <;> simp [Window.scrape, taken?, error?]

theorem foldl_scrape (phase : Phase) : ∀ (scrapes : List Scrape) (w : Window),
    scrapes.foldl (fun w s => w.scrape phase s) w = { w with
      samples := w.samples ++ scrapes.filterMap (taken? phase)
      errors := w.errors ++ scrapes.filterMap error? }
  | [], w => by simp
  | scrape :: scrapes, w => by
    rw [List.foldl_cons, foldl_scrape phase scrapes, scrape_eq]
    cases scrape <;> simp [List.filterMap_cons, taken?, error?]

theorem run_samples (s : Scrapes) : (Window.run s).samples =
    (taken? .before s.before).toList ++ s.during.filterMap (taken? .during) ++
      (taken? .after s.after).toList := by
  rw [Window.run]
  dsimp only
  rw [foldl_scrape, scrape_eq, scrape_eq]
  rfl

theorem run_errors (s : Scrapes) :
    (Window.run s).errors = (s.before :: s.during ++ [s.after]).filterMap error? := by
  have hrun : (Window.run s).errors =
      (error? s.before).toList ++ s.during.filterMap error? ++ (error? s.after).toList := by
    rw [Window.run]
    dsimp only
    rw [foldl_scrape, scrape_eq, scrape_eq]
    rfl
  rw [hrun]
  cases s.before <;> cases s.after <;> simp [List.filterMap_cons, error?]

theorem metrics_taken? (phase : Phase) (scrape : Scrape) :
    (taken? phase scrape).map Taken.metrics = scrape.metrics? := by
  cases scrape <;> rfl

theorem run_snapshots (s : Scrapes) : (Window.run s).snapshots = snapshotsOf s := by
  have hmap : ∀ scrapes : List Scrape, (scrapes.filterMap (taken? .during)).map Taken.metrics =
      scrapes.filterMap Scrape.metrics? := by
    intro scrapes
    rw [List.map_filterMap]
    exact List.filterMap_congr fun scrape _ => metrics_taken? .during scrape
  rw [Window.snapshots, run_samples, snapshotsOf, List.map_append, List.map_append, hmap]
  cases s.before <;> cases s.after <;> simp [List.filterMap_cons, taken?, Scrape.metrics?]

theorem run_during (s : Scrapes) : (Window.run s).during = s.during.filterMap Scrape.metrics? := by
  have hkeep : ∀ scrapes : List Scrape, ((scrapes.filterMap (taken? .during)).filter fun t =>
      t.phase = .during).map Taken.metrics = scrapes.filterMap Scrape.metrics? := by
    intro scrapes
    have hall : (scrapes.filterMap (taken? .during)).filter (fun t => t.phase = .during) =
        scrapes.filterMap (taken? .during) := by
      refine List.filter_eq_self.2 fun t ht => ?_
      obtain ⟨scrape, -, hscrape⟩ := List.mem_filterMap.1 ht
      cases scrape with
      | read =>
        cases hscrape
        rfl
      | failed => cases hscrape
    rw [hall, List.map_filterMap]
    exact List.filterMap_congr fun scrape _ => metrics_taken? .during scrape
  rw [Window.during, run_samples, List.filter_append, List.filter_append, List.map_append,
    List.map_append, hkeep]
  cases s.before <;> cases s.after <;> simp [taken?]

/-! ## A valid window -/

/-- What the checks of a window say. -/
structure Checked (w : Window) : Prop where
  noError : w.errors = []
  boundaries : w.boundariesValid = true
  sameProcess : restarted w.snapshots = false
  counters : ∀ key, unbroken (w.delta (Counter.aliases key)).status = true
  histograms : ∀ key, unbroken (w.histogram key).status = true
  notBusy : w.busy = false
  notConcurrent : w.concurrent = false
  idleKnown : w.idleUnknown = false
  finished : w.delta Counter.requestsFinished.aliases = ⟨some 1, .ok⟩

theorem checked_of_valid {w : Window} {interval : Rat}
    (h : validServerWindow (some (w.report interval)) = true) : Checked w := by
  simp only [validServerWindow, Window.report, Bool.and_eq_true, Bool.not_eq_true',
    Bool.or_eq_false_iff, decide_eq_true_eq, decide_eq_false_iff_not, List.all_eq_true,
    Classical.not_not] at h
  obtain ⟨⟨⟨⟨⟨⟨-, ⟨⟨hbusy, hconcurrent⟩, hidle⟩, hone⟩, hrestarted⟩, hfailed, -⟩, hcounters⟩,
    hhistograms⟩, ⟨hok, -⟩, -⟩ := h
  have hstatus : (w.delta Counter.requestsFinished.aliases).status = .ok := hok
  refine ⟨List.length_eq_zero_iff.1 hfailed, ?_, hrestarted, fun key => hcounters key ?_,
    fun key => hhistograms key ?_, hbusy, hconcurrent, hidle, ?_⟩
  · by_contra hnot
    rw [Window.delta, if_pos (by simpa using hnot)] at hstatus
    cases hstatus
  · cases key <;> simp [Counter.all]
  · cases key <;> simp [Histogram.all]
  · have hvalue : (w.delta Counter.requestsFinished.aliases).value = some 1 := hone
    cases hdelta : w.delta Counter.requestsFinished.aliases
    rw [hdelta] at hstatus hvalue
    cases hstatus
    cases hvalue
    rfl

theorem unbroken_iff {status : DeltaStatus} : unbroken status = true ↔
    status ≠ .counterReset ∧ status ≠ .serverRestarted ∧ status ≠ .seriesChanged := by
  simp [unbroken, and_assoc]

/-- A series that every snapshot has goes by its own name. -/
theorem chosenName_singleton {s : Scrapes} {first : Snapshot} {name : Text}
    (hfirst : (snapshotsOf s).head? = some first) (hpresent : Present (snapshotsOf s) name) :
    chosenName first [name] = some name := by
  have hin : first ∈ snapshotsOf s := List.mem_of_mem_head? (Option.mem_def.2 hfirst)
  obtain ⟨series, hseries⟩ := hpresent first hin
  have hcontains : first.contains name = true := by
    rw [FinMap.contains_eq_isSome, hseries]
    rfl
  rw [chosenName, List.find?_cons_of_pos hcontains]

section Valid

variable {s : Scrapes} (h : Checked (Window.run s))

include h

theorem Checked.allRead :
    ∀ scrape ∈ s.before :: s.during ++ [s.after], scrape.metrics?.isSome = true := by
  intro scrape hscrape
  have hnone := h.noError
  rw [run_errors, List.filterMap_eq_nil_iff] at hnone
  have hread := hnone scrape hscrape
  cases scrape with
  | read => rfl
  | failed => cases hread

theorem Checked.snapshots : ∃ first rest, snapshotsOf s = first :: rest ∧
    ∀ aliases, (Window.run s).delta aliases = delta (first :: rest) aliases := by
  obtain ⟨first, hfirst⟩ := Option.isSome_iff_exists.1 (h.allRead s.before List.mem_cons_self)
  have hsnapshots : snapshotsOf s =
      first :: (s.during ++ [s.after]).filterMap Scrape.metrics? := by
    rw [snapshotsOf, List.cons_append, List.filterMap_cons_some hfirst]
  refine ⟨first, _, hsnapshots, fun aliases => ?_⟩
  rw [Window.delta, if_neg (by simp [h.boundaries]), if_neg (by simp [h.sameProcess]),
    run_snapshots, hsnapshots]

/-- A counter of one name that is not broken is steady. -/
theorem Checked.steady {first : Snapshot} {aliases : List Text} {name : Text}
    (hfirst : (snapshotsOf s).head? = some first) (hname : chosenName first aliases = some name)
    (hpresent : Present (snapshotsOf s) name) :
    ((Window.run s).delta aliases).status = .seriesChanged ∨
      ((Window.run s).delta aliases).status = .counterReset ∨
      Steady (snapshotsOf s) name ∧ ∃ value, (Window.run s).delta aliases = ⟨some value, .ok⟩ ∧
        Increase (snapshotsOf s) name value := by
  obtain ⟨first', rest, hsnapshots, hdelta⟩ := h.snapshots
  rw [hsnapshots] at hfirst hpresent ⊢
  cases hfirst
  rw [hdelta]
  rcases delta_cases first rest aliases with ⟨-, hnone⟩ | ⟨name', hname', -, hcases⟩
  · exact absurd hpresent (hnone name hname)
  · rw [hname] at hname'
    cases hname'
    rcases hcases with (hchanged | hreset) | hsteady
    · exact Or.inl hchanged
    · exact Or.inr (Or.inl hreset)
    · exact Or.inr (Or.inr hsteady)

theorem Checked.head : ∃ first, (snapshotsOf s).head? = some first := by
  obtain ⟨first, rest, hsnapshots, -⟩ := h.snapshots
  exact ⟨first, by rw [hsnapshots]; rfl⟩

theorem Checked.histogram (key : Histogram) (hcount : Present (snapshotsOf s) key.countName)
    (hsum : Present (snapshotsOf s) key.sumName) :
    Steady (snapshotsOf s) key.countName ∧ Steady (snapshotsOf s) key.sumName := by
  obtain ⟨first, hfirst⟩ := h.head
  obtain ⟨hreset, -, hchanged⟩ := unbroken_iff.1 (h.histograms key)
  have hstatus : ((Window.run s).histogram key).status =
      if ((Window.run s).delta [key.countName]).status ≠ .ok then
        ((Window.run s).delta [key.countName]).status
      else ((Window.run s).delta [key.sumName]).status := rfl
  rw [hstatus] at hreset hchanged
  rcases h.steady hfirst (chosenName_singleton hfirst hcount) hcount with hc | hc | ⟨hc, n, hn, -⟩
  · rw [hc] at hchanged
    exact absurd rfl hchanged
  · rw [hc] at hreset
    exact absurd rfl hreset
  · rw [hn, if_neg (by simp)] at hreset hchanged
    rcases h.steady hfirst (chosenName_singleton hfirst hsum) hsum with ht | ht | ⟨ht, -⟩
    · exact absurd ht hchanged
    · exact absurd ht hreset
    · exact ⟨hc, ht⟩

/-- A delta that is `ok` is the increase of the counter. -/
theorem Checked.increase {aliases : List Text}
    (hok : ((Window.run s).delta aliases).status = .ok) : ∃ name first value,
      (snapshotsOf s).head? = some first ∧ chosenName first aliases = some name ∧
      (Window.run s).delta aliases = ⟨some value, .ok⟩ ∧ Increase (snapshotsOf s) name value := by
  obtain ⟨first, rest, hsnapshots, hdelta⟩ := h.snapshots
  rw [hdelta] at hok ⊢
  rw [hsnapshots]
  rcases delta_cases first rest aliases with ⟨hmissing, -⟩ | ⟨name, hname, -, hcases⟩
  · rw [hmissing] at hok
    cases hok
  · rcases hcases with (hchanged | hreset) | ⟨-, value, hvalue, hincrease⟩
    · rw [hchanged] at hok
      cases hok
    · rw [hreset] at hok
      cases hok
    · exact ⟨name, first, value, rfl, hname, hvalue, hincrease⟩

/-- A phase with a value has one request counted, and the increase of its sum. -/
theorem Checked.phase {phase : Histogram} {interval value : Rat}
    (hvalue : phaseValue phase ((Window.run s).report interval) = some value) :
    Increase (snapshotsOf s) phase.countName 1 ∧ Increase (snapshotsOf s) phase.sumName value := by
  have hsingle : ∀ {first : Snapshot} {name name' : Text}, chosenName first [name] = some name' →
      name' = name := by
    intro first name name' hname
    have hin := List.mem_of_find?_eq_some hname
    exact List.mem_singleton.1 hin
  unfold phaseValue at hvalue
  dsimp only at hvalue
  split at hvalue
  · rename_i hchecks
    obtain ⟨hstatus, -, hone, -⟩ := hchecks
    change (if ((Window.run s).delta [phase.countName]).status ≠ .ok then
      ((Window.run s).delta [phase.countName]).status
        else ((Window.run s).delta [phase.sumName]).status) = .ok at hstatus
    have hcountOk : ((Window.run s).delta [phase.countName]).status = .ok := by
      by_contra hne
      rw [if_pos hne] at hstatus
      exact hne hstatus
    rw [if_neg (Classical.not_not.2 hcountOk)] at hstatus
    change (if _ ∧ _ then ((Window.run s).delta [phase.countName]).value else none) = _ at hone
    change (if _ ∧ _ then ((Window.run s).delta [phase.sumName]).value else none) = _ at hvalue
    rw [if_pos ⟨hcountOk, hstatus⟩] at hone hvalue
    obtain ⟨name, first, n, -, hname, hdelta, hincrease⟩ := h.increase hcountOk
    obtain ⟨name', first', t, -, hname', hdelta', hincrease'⟩ := h.increase hstatus
    cases hsingle hname
    cases hsingle hname'
    rw [hdelta] at hone
    rw [hdelta'] at hvalue
    cases hone
    cases hvalue
    exact ⟨hincrease, hincrease'⟩
  · cases hvalue

theorem Checked.attributable {phase : Histogram}
    (hcount : Increase (snapshotsOf s) phase.countName 1) : Attributable phase s := by
  refine ⟨h.allRead, ?_, ?_, h.histogram, ?_, ?_, ?_, hcount⟩
  · rw [← run_snapshots]
    exact restarted_eq_false h.sameProcess
  · intro key name first hfirst hname hpresent
    obtain ⟨hreset, -, hchanged⟩ := unbroken_iff.1 (h.counters key)
    rcases h.steady hfirst hname hpresent with hc | hc | ⟨hc, -⟩
    · exact absurd hc hchanged
    · exact absurd hc hreset
    · exact hc
  · intro key hkey boundary hboundary
    have hunknown := h.idleKnown
    have hbusy := h.notBusy
    rw [Window.idleUnknown, List.any_eq_false] at hunknown
    rw [Window.busy, List.any_eq_false] at hbusy
    have hknown := hunknown key hkey
    have hidle := hbusy key hkey
    simp only [Bool.or_eq_true, not_or, decide_eq_true_eq] at hknown hidle
    have hnotPositive : ∀ value : Option Rat, value ≠ none → ¬ positive value = true →
        ∃ x, value = some x ∧ x ≤ 0 := by
      intro value hne hnot
      obtain ⟨x, rfl⟩ := Option.ne_none_iff_exists'.1 hne
      exact ⟨x, rfl, not_lt.1 fun hlt => hnot (decide_eq_true hlt)⟩
    rcases List.mem_cons.1 hboundary with rfl | hboundary
    · exact hnotPositive _ hknown.1 hidle.1
    · cases List.mem_singleton.1 hboundary
      exact hnotPositive _ hknown.2 hidle.2
  · intro scrape hscrape
    have hconcurrent := h.notConcurrent
    rw [Window.concurrent, run_during, List.any_eq_false] at hconcurrent
    obtain ⟨m, hm⟩ := Option.isSome_iff_exists.1 (h.allRead scrape (by simp [hscrape]))
    have hone := hconcurrent m (List.mem_filterMap.2 ⟨scrape, hscrape, hm⟩)
    rw [hm]
    simpa using hone
  · obtain ⟨name, first, n, hfirst, hname, hdelta, hincrease⟩ :=
      h.increase (congrArg Delta.status h.finished)
    rw [h.finished] at hdelta
    cases hdelta
    exact ⟨name, first, hfirst, hname, hincrease⟩

end Valid

/-! ## Published totals -/

theorem knownSum_eq_some {values : List (Option Rat)} {total : Rat}
    (h : knownSum values = some total) : ∃ xs : List Rat, values = xs.map some ∧ total = xs.sum := by
  unfold knownSum at h
  split at h
  · cases h
  · rename_i hknown
    cases h
    refine ⟨values.filterMap id, ?_, rfl⟩
    have hall : ∀ v ∈ values, v ≠ none := by
      rintro v hv rfl
      exact hknown (Or.inr hv)
    clear hknown
    induction values with
    | nil => rfl
    | cons v values ih =>
      obtain ⟨hhead, htail⟩ := List.forall_mem_cons.1 hall
      obtain ⟨x, rfl⟩ := Option.ne_none_iff_exists'.1 hhead
      have hcons : (some x :: values).filterMap id = x :: values.filterMap id :=
        List.filterMap_cons_some rfl
      rw [hcons, List.map_cons, ← ih htail]

/-- **A published phase time is attributable**: each window is, the total is the sum of what the
phase took in each window, and is not negative. -/
theorem phase_attributable (runs : List (Scrapes × Rat)) {phase : Histogram} {total : Rat}
    (h : (serverMeasurements (runs.map fun run =>
      some ((Window.run run.1).report run.2))).seconds phase = some total) :
    (∀ run ∈ runs, Attributable phase run.1) ∧ 0 ≤ total ∧
      ∃ seconds : Scrapes × Rat → Rat, total = (runs.map seconds).sum ∧
        ∀ run ∈ runs, Increase (snapshotsOf run.1) phase.sumName (seconds run) := by
  unfold serverMeasurements at h
  split at h
  · cases phase <;> cases h
  · rename_i hvalid
    have hall : ∀ run ∈ runs, Checked (Window.run run.1) := by
      intro run hrun
      have hwindows := (not_or.1 hvalid).2
      rw [Classical.not_not, List.all_eq_true] at hwindows
      exact checked_of_valid (hwindows _ (List.mem_map_of_mem hrun))
    have hwindows : (runs.map fun run => some ((Window.run run.1).report run.2)).filterMap id =
        runs.map fun run => (Window.run run.1).report run.2 := by
      rw [List.filterMap_map]
      exact congrFun List.filterMap_eq_map' runs
    have hphase : phaseSeconds phase (runs.map fun run => (Window.run run.1).report run.2) =
        some total := by
      dsimp only at h
      rw [hwindows] at h
      cases phase <;> first | exact h | cases h
    unfold phaseSeconds at hphase
    dsimp only at hphase
    split at hphase
    · rename_i hnonneg
      rw [hphase] at hnonneg
      obtain ⟨values, hvalues, rfl⟩ := knownSum_eq_some hphase
      rw [List.map_map] at hvalues
      have hvalue : ∀ run ∈ runs, ∃ x,
          phaseValue phase ((Window.run run.1).report run.2) = some x := by
        intro run hrun
        have hin : phaseValue phase ((Window.run run.1).report run.2) ∈ values.map some :=
          hvalues ▸ List.mem_map_of_mem hrun
        obtain ⟨x, -, hx⟩ := List.mem_map.1 hin
        exact ⟨x, hx.symm⟩
      refine ⟨fun run hrun => ?_, of_decide_eq_true hnonneg,
        fun run => (phaseValue phase ((Window.run run.1).report run.2)).getD 0, ?_,
        fun run hrun => ?_⟩
      · obtain ⟨x, hx⟩ := hvalue run hrun
        exact (hall run hrun).attributable ((hall run hrun).phase hx).1
      · have hread := congrArg (List.map fun v : Option Rat => v.getD 0) hvalues
        rw [List.map_map, List.map_map] at hread
        rw [show values = values.map ((fun v : Option Rat => v.getD 0) ∘ some) from
          (List.map_id values).symm, ← hread]
        rfl
      · obtain ⟨x, hx⟩ := hvalue run hrun
        dsimp only
        rw [hx]
        exact ((hall run hrun).phase hx).2
    · cases hphase

/-- One series of each metric that a prefill time needs. -/
def idleSnapshot (finished count seconds : Rat) : Snapshot :=
  .ofList [("vllm:request_success_total".toList, .ofList [([], finished)]),
    (Histogram.prefill.countName, .ofList [([], count)]),
    (Histogram.prefill.sumName, .ofList [([], seconds)]),
    ("vllm:num_requests_running".toList, .ofList [([], 0)]),
    ("vllm:num_requests_waiting".toList, .ofList [([], 0)])]

/-- A call that took half a second of prefill. -/
def halfSecond : Scrapes := ⟨.read 0 (idleSnapshot 3 3 1), [], .read 2 (idleSnapshot 4 4 (3 / 2))⟩

theorem phase_attributable_half :
    (∀ run ∈ [(halfSecond, (1 / 10 : Rat))], Attributable .prefill run.1) ∧ (0 : Rat) ≤ 1 / 2 ∧
      ∃ seconds : Scrapes × Rat → Rat,
        1 / 2 = ([(halfSecond, (1 / 10 : Rat))].map seconds).sum ∧
        ∀ run ∈ [(halfSecond, (1 / 10 : Rat))],
          Increase (snapshotsOf run.1) Histogram.prefill.sumName (seconds run) :=
  phase_attributable [(halfSecond, 1 / 10)] (by decide +kernel)

end ReedCode.Reporting
