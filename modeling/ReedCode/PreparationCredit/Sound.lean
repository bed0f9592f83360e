import ReedCode.PreparationCredit.Ceiling

/-!
# Preparation credit is sound

* `analyzeTrial_valid` — what a report without errors was computed from.
* `Earned` — what a positive credit promises.
* `Adds` — a trial with one more ordinary request.
* `credit_sound` — **every positive credit is earned, and a further ordinary request never raises
  one**.
-/

set_option autoImplicit false

namespace ReedCode.PreparationCredit

section Analyze

variable {sets : SetOrder} {renderIds : Option (Value → Except String Value)} {ix : Index}
  {trial : Trial} {salt : String} {prepared : List String}

theorem errorWhen_eq_nil {c : Prop} [Decidable c] {error : String} :
    errorWhen c error = [] ↔ ¬ c := by
  unfold errorWhen
  split <;> simp_all

/-! ## Rows -/

theorem creditOf_eq_some {errors : List String} {ceiling promptTokens : Option Int}
    {cached : Value} {matching k : Int} :
    creditOf errors ceiling cached promptTokens matching = some k ↔
      errors = [] ∧ ∃ c n p, ceiling = some c ∧ cached = .int n ∧ promptTokens = some p ∧
        0 ≤ n ∧ n ≤ p ∧ k = max 0 (min (aligned n) matching - c) := by
  unfold creditOf
  split
  · rename_i c n p
    split
    · rename_i h
      rw [Option.some.injEq]
      constructor
      · rintro rfl
        exact ⟨h.1, c, n, p, rfl, rfl, rfl, h.2.1, h.2.2, rfl⟩
      · rintro ⟨-, c', n', p', hc, hn, -, -, -, rfl⟩
        cases hc
        cases hn
        rfl
    · rename_i h
      constructor
      · intro hk
        cases hk
      · rintro ⟨he, c', n', p', hc, hn, hp, h0, hle, -⟩
        cases hc
        cases hn
        cases hp
        exact absurd ⟨he, h0, hle⟩ h
  · rename_i h
    constructor
    · intro hk
      cases hk
    · rintro ⟨-, c, n, p, rfl, rfl, rfl, -⟩
      exact (h c n p rfl rfl rfl).elim

/-- The cached tokens of a request, `null` without a terminal record. -/
def cachedOf (ix : Index) (rid : String) : Value :=
  ((ix.results.get? rid).map (·.cachedTokens)).getD .null

/-- The row of a request that entered the engine. -/
structure Entered (sets : SetOrder) (ix : Index) (trial : Trial) (salt : String)
    (prepared errors : List String) (entry : Entry) (row : Row) (prompt : Tokens) : Prop where
  promptIds : entry.promptIds = some prompt
  ceiling : foregroundCeiling ix row.requestId (sets.order trial.normalIds) =
    .ok row.foregroundHistoryCeilingTokens
  matching : matchingFrom ix salt entry 0 prepared = .ok row.matchingCompletedPreparationTokens
  promptTokens : row.promptTokens = some (prompt.length : Int)
  cachedTokens : row.cachedTokens = cachedOf ix row.requestId
  credit : row.preparationCreditLowerBoundTokens = creditOf errors
    row.foregroundHistoryCeilingTokens row.cachedTokens row.promptTokens
    row.matchingCompletedPreparationTokens

theorem requestRow_requestId {errors : List String} {client : Client} {row : Row}
    (h : requestRow sets ix trial salt prepared errors client = .ok row) :
    row.requestId = client.clientRequestId := by
  unfold requestRow at h
  obtain ⟨turn, -, h⟩ := Except.bind_eq_ok_iff.1 h
  cases hentry : ix.entries.get? client.clientRequestId with
  | none =>
    simp only [hentry, Except.bind_eq_ok_iff, pure, Except.pure, Except.ok.injEq] at h
    obtain ⟨_, rfl, h⟩ := h
    rw [← h]
  | some entry =>
    simp only [hentry, Except.bind_eq_ok_iff, pure, Except.pure, Except.ok.injEq] at h
    obtain ⟨_, -, _, -, _, -, _, rfl, h⟩ := h
    rw [← h]

theorem requestRow_entered {errors : List String} {client : Client} {row : Row} {entry : Entry}
    (hentry : ix.entries.get? client.clientRequestId = some entry)
    (h : requestRow sets ix trial salt prepared errors client = .ok row) :
    ∃ prompt, Entered sets ix trial salt prepared errors entry row prompt := by
  have hid := requestRow_requestId h
  unfold requestRow at h
  obtain ⟨turn, -, h⟩ := Except.bind_eq_ok_iff.1 h
  simp only [hentry, Except.bind_eq_ok_iff, pure, Except.pure, Except.ok.injEq] at h
  obtain ⟨ceiling, hceiling, matching, hmatching, prompt, hprompt, _, rfl, h⟩ := h
  rw [tokensOf_eq_ok] at hprompt
  refine ⟨prompt, ?_⟩
  subst h
  exact ⟨hprompt, hceiling, hmatching, rfl, rfl, rfl⟩

/-- Only a request that entered the engine has credit. -/
theorem requestRow_absent {errors : List String} {client : Client} {row : Row}
    (hentry : ix.entries.get? client.clientRequestId = none)
    (h : requestRow sets ix trial salt prepared errors client = .ok row) :
    row.preparationCreditLowerBoundTokens = none := by
  unfold requestRow at h
  obtain ⟨turn, -, h⟩ := Except.bind_eq_ok_iff.1 h
  simp only [hentry, Except.bind_eq_ok_iff, pure, Except.pure, Except.ok.injEq] at h
  obtain ⟨_, rfl, h⟩ := h
  subst h
  rfl

/-- Without an error the loop over the clients is a traversal. -/
theorem addRows_ok : ∀ {clients : List Client} {found found' : List String × List Row},
    clients.foldlM (addRow sets ix trial salt prepared) found = .ok found' → found'.1 = [] →
      found.1 = [] ∧ ∃ rows, clients.mapM (requestRow sets ix trial salt prepared []) = .ok rows ∧
        found'.2 = found.2 ++ rows
  | [], found, found', h, herrors => by
    simp only [List.foldlM_nil, pure, Except.pure, Except.ok.injEq] at h
    subst h
    exact ⟨herrors, [], rfl, (List.append_nil _).symm⟩
  | client :: clients, found, found', h, herrors => by
    rw [List.foldlM_cons] at h
    obtain ⟨next, hnext, h⟩ := Except.bind_eq_ok_iff.1 h
    obtain ⟨row, hrow, hadd⟩ := Except.bind_eq_ok_iff.1 hnext
    simp only [pure, Except.pure, Except.ok.injEq] at hadd
    obtain ⟨hempty, rows, hrows, hall⟩ := addRows_ok h herrors
    rw [← hadd] at hempty hall
    have hfound : found.1 = [] := (List.append_eq_nil_iff.1 hempty).1
    rw [hfound] at hrow
    refine ⟨hfound, row :: rows, ?_, ?_⟩
    · rw [Except.mapM_eq_ok] at hrows ⊢
      rw [List.map_cons, List.map_cons, hrow, hrows]
    · rw [hall, List.append_assoc, List.singleton_append]

/-! ## Reports without errors -/

/-- What a report without errors was computed from. -/
structure Valid (sets : SetOrder) (renderIds : Option (Value → Except String Value)) (ix : Index)
    (trial : Trial) (report : Report) (prepared : List String) : Prop where
  unique : (trial.normalIds ++ trial.prepIds).Nodup
  checked : trialErrors renderIds ix trial = .ok []
  finished : completedPreps ix (sets.order trial.prepIds) = .ok prepared
  rows : trial.clients.mapM (requestRow sets ix trial (engineCacheSalt trial.manifest.trialId)
    (sets.order prepared) []) = .ok report.normalRequests
  preps : trial.preps.mapM (prepRow ix prepared) = .ok report.preparationRequests
  salt : report.engineCacheSalt = engineCacheSalt trial.manifest.trialId
  total : report.preparationCreditLowerBoundTokens =
    some (report.normalRequests.map fun row => row.preparationCreditLowerBoundTokens.getD 0).sum

theorem attributionValid_iff {report : Report} (h : analyzeTrial sets renderIds ix trial = .ok report) :
    report.attributionValid = true ↔ report.errors = [] := by
  unfold analyzeTrial at h
  simp only [Except.bind_eq_ok_iff, pure, Except.pure, Except.ok.injEq] at h
  obtain ⟨-, -, -, -, -, -, errors, -, prepared, -, found, -, prepRows, -, rfl⟩ := h
  exact List.isEmpty_iff

/-- An error takes all credit away. -/
theorem errors_of_credit {report : Report} (h : analyzeTrial sets renderIds ix trial = .ok report)
    {row : Row} (hrow : row ∈ report.normalRequests) {k : Int}
    (hk : row.preparationCreditLowerBoundTokens = some k) : report.errors = [] := by
  unfold analyzeTrial at h
  simp only [Except.bind_eq_ok_iff, pure, Except.pure, Except.ok.injEq] at h
  obtain ⟨-, -, -, -, -, -, errors, -, prepared, -, found, -, prepRows, -, rfl⟩ := h
  by_contra herrors
  simp only [if_neg herrors] at hrow
  obtain ⟨before, -, rfl⟩ := List.mem_map.1 hrow
  cases hk

theorem analyzeTrial_valid {report : Report}
    (h : analyzeTrial sets renderIds ix trial = .ok report) (herrors : report.errors = []) :
    ∃ prepared, Valid sets renderIds ix trial report prepared := by
  unfold analyzeTrial at h
  simp only [Except.bind_eq_ok_iff, Except.failIf_eq_ok, not_not, pure, Except.pure,
    Except.ok.injEq] at h
  obtain ⟨-, -, -, -, -, hunique, errors, hchecked, prepared, hprepared, found, hfound, prepRows,
    hpreps, rfl⟩ := h
  have hfirst : found.1 = [] := (List.append_eq_nil_iff.1 herrors).1
  obtain ⟨hnone, rows, hrows, hall⟩ := addRows_ok hfound hfirst
  rw [List.nil_append] at hall
  refine ⟨prepared, hunique, ?_, hprepared, ?_, hpreps, rfl, ?_⟩
  · rw [hchecked]
    exact congrArg Except.ok hnone
  · simp only [if_pos herrors, hall]
    exact hrows
  · simp only [if_pos herrors]

/-- Without an error every request of the trial has the trial's cache salt. -/
theorem checkClient_salt {client : Sent} {entry : Entry}
    (h : checkClient renderIds ix salt client = .ok [])
    (hentry : ix.entries.get? client.clientRequestId = some entry) :
    entry.cacheSalt = some salt := by
  unfold checkClient at h
  simp only [hentry] at h
  have hfound : ∃ rest, errorWhen (entry.cacheSalt ≠ some salt)
      (client.clientRequestId ++ ": cache salt mismatch") ++ rest = [] := by
    split at h
    all_goals
      simp only [Except.bind_eq_ok_iff, pure, Except.pure, Except.ok.injEq] at h
      obtain ⟨expected, -, h⟩ := h
      exact ⟨_, h⟩
  obtain ⟨rest, h⟩ := hfound
  have hsalt := errorWhen_eq_nil.1 (List.append_eq_nil_iff.1 h).1
  exact not_not.1 hsalt

theorem trialErrors_checked (h : trialErrors renderIds ix trial = .ok []) {client : Sent}
    (hmem : client ∈ trial.clients.map (·.toSent) ++ trial.preps.map (·.toSent)) :
    checkClient renderIds ix (engineCacheSalt trial.manifest.trialId) client = .ok [] := by
  unfold trialErrors at h
  obtain ⟨checks, hchecks, h⟩ := Except.bind_eq_ok_iff.1 h
  simp only [pure, Except.pure, Except.ok.injEq, List.append_eq_nil_iff,
    List.flatten_eq_nil_iff] at h
  obtain ⟨errors, herrors, hok⟩ := Except.exists_mem_of_mapM hchecks hmem
  rw [hok, h.2.2.2 errors herrors]

theorem Valid.client_salt {report : Report} (h : Valid sets renderIds ix trial report prepared)
    {client : Client} (hmem : client ∈ trial.clients) {entry : Entry}
    (hentry : ix.entries.get? client.clientRequestId = some entry) :
    entry.cacheSalt = some (engineCacheSalt trial.manifest.trialId) :=
  checkClient_salt (trialErrors_checked h.checked
    (List.mem_append_left _ (List.mem_map_of_mem hmem))) hentry

/-! ## Finished preparations -/

theorem completed_eq_true {rid : String} : completed ix rid = .ok true ↔
    ∃ result ids, ix.results.get? rid = some result ∧ result.terminal = "finished" ∧
      generated result = .ok (some ids) ∧ ids ≠ [] := by
  unfold completed
  cases hresult : ix.results.get? rid with
  | none => simp
  | some result =>
    by_cases hfinished : result.terminal = "finished"
    · simp only [if_pos hfinished]
      cases hgen : generated result with
      | error e => simp [hgen, bind, Except.bind]
      | ok out => cases out <;> simp [hgen, hfinished, bind, Except.bind, pure, Except.pure]
    · simp [hfinished]

theorem Valid.mem_prepared {report : Report} (h : Valid sets renderIds ix trial report prepared)
    {prepId : String} :
    prepId ∈ sets.order prepared ↔ prepId ∈ trial.prepIds ∧ completed ix prepId = .ok true := by
  rw [(sets.perm prepared).mem_iff, Except.mem_filterM h.finished,
    (sets.perm trial.prepIds).mem_iff]

end Analyze

/-! ## Earned credit -/

/-- What a positive credit of the request `rid` promises. -/
structure Earned (ix : Index) (trial : Trial) (rid : String) (entry : Entry) (prompt : Tokens)
    (ceiling k : Int) : Prop where
  /-- A preparation finished before the request entered and shares that many tokens with it. -/
  prepared : ∃ prep ∈ trial.preps, ∃ prepEntry result ids own,
    ix.entries.get? prep.clientRequestId = some prepEntry ∧
    prepEntry.cacheSalt = entry.cacheSalt ∧ prepEntry.promptIds = some own ∧
    ix.results.get? prep.clientRequestId = some result ∧ result.terminal = "finished" ∧
    generated result = .ok (some ids) ∧ ids ≠ [] ∧
    result.workerMonotonicNs < entry.workerMonotonicNs ∧
    ∃ n : Nat, ceiling + k ≤ n ∧ Lists.Shared prompt own n
  /-- The engine reported that many cached tokens in whole blocks. -/
  reported : ∃ result cached, ix.results.get? rid = some result ∧ result.cachedTokens = .int cached ∧
    ceiling + k ≤ aligned cached
  /-- No ordinary request can have left more than the ceiling. -/
  dominated : ∃ output, ix.firstOutput.get? rid = some output ∧
    ∀ other ∈ trial.normalIds, ∀ otherEntry,
      Earlier ix rid entry output.workerMonotonicNs other otherEntry →
        Dominated ix entry ceiling other otherEntry

/-- What the credit of a row of a valid report was computed from. -/
structure Credited (sets : SetOrder) (ix : Index) (trial : Trial) (prepared : List String)
    (row : Row) (entry : Entry) (prompt : Tokens) (ceiling cached : Int) : Prop where
  entered : ix.entries.get? row.requestId = some entry
  salt : entry.cacheSalt = some (engineCacheSalt trial.manifest.trialId)
  rowOf : Entered sets ix trial (engineCacheSalt trial.manifest.trialId) (sets.order prepared) []
    entry row prompt
  known : row.foregroundHistoryCeilingTokens = some ceiling
  reported : row.cachedTokens = .int cached
  nonneg : 0 ≤ cached
  bounded : cached ≤ prompt.length

section Sound

variable {sets sets' : SetOrder} {renderIds renderIds' : Option (Value → Except String Value)}
  {ix ix' : Index} {trial trial' : Trial} {report report' : Report} {prepared prepared' : List String}

theorem Valid.credited (h : Valid sets renderIds ix trial report prepared) {row : Row}
    (hrow : row ∈ report.normalRequests) {k : Int}
    (hk : row.preparationCreditLowerBoundTokens = some k) :
    ∃ entry prompt ceiling cached, Credited sets ix trial prepared row entry prompt ceiling cached ∧
      k = max 0 (min (aligned cached) row.matchingCompletedPreparationTokens - ceiling) := by
  obtain ⟨client, hmem, hok⟩ := Except.exists_of_mem_mapM h.rows hrow
  have hid := requestRow_requestId hok
  cases hentry : ix.entries.get? client.clientRequestId with
  | none =>
    rw [requestRow_absent hentry hok] at hk
    cases hk
  | some entry =>
    obtain ⟨prompt, hrowOf⟩ := requestRow_entered hentry hok
    rw [hrowOf.credit, creditOf_eq_some] at hk
    obtain ⟨-, ceiling, cached, length, hceiling, hcached, hlength, hnonneg, hbounded, hvalue⟩ := hk
    rw [hrowOf.promptTokens, Option.some.injEq] at hlength
    refine ⟨entry, prompt, ceiling, cached, ?_, hvalue⟩
    exact ⟨hid ▸ hentry, h.client_salt hmem hentry, hrowOf, hceiling, hcached, hnonneg,
      hlength ▸ hbounded⟩

/-- The request of a credited row is among the ordinary ones. -/
theorem Valid.mem_normalIds (h : Valid sets renderIds ix trial report prepared) {row : Row}
    (hrow : row ∈ report.normalRequests) : row.requestId ∈ trial.normalIds := by
  obtain ⟨client, hmem, hok⟩ := Except.exists_of_mem_mapM h.rows hrow
  rw [requestRow_requestId hok]
  exact List.mem_map_of_mem hmem

/-- The ceiling of a row dominates every ordinary request before its first output. -/
theorem Credited.dominated {row : Row} {entry : Entry} {prompt : Tokens} {ceiling cached : Int}
    (h : Credited sets ix trial prepared row entry prompt ceiling cached) :
    0 ≤ ceiling ∧ ∃ output, ix.firstOutput.get? row.requestId = some output ∧
      ∀ other ∈ trial.normalIds, ∀ otherEntry,
        Earlier ix row.requestId entry output.workerMonotonicNs other otherEntry →
          Dominated ix entry ceiling other otherEntry := by
  have hok := h.rowOf.ceiling
  rw [h.known] at hok
  obtain ⟨current, output, hcurrent, houtput, hzero, hall⟩ := foregroundCeiling_spec hok
  rw [h.entered, Option.some.injEq] at hcurrent
  subst hcurrent
  refine ⟨hzero, output, houtput, fun other hother => ?_⟩
  exact hall other ((sets.perm trial.normalIds).mem_iff.2 hother)

/-- **A positive credit is earned.** -/
theorem Valid.earned (h : Valid sets renderIds ix trial report prepared) {row : Row}
    (hrow : row ∈ report.normalRequests) {k : Int} (hpos : 0 < k)
    (hk : row.preparationCreditLowerBoundTokens = some k) :
    ∃ entry prompt ceiling, ix.entries.get? row.requestId = some entry ∧
      entry.promptIds = some prompt ∧ row.foregroundHistoryCeilingTokens = some ceiling ∧
      Earned ix trial row.requestId entry prompt ceiling k := by
  obtain ⟨entry, prompt, ceiling, cached, hcredited, hvalue⟩ := h.credited hrow hk
  obtain ⟨hzero, hdominated⟩ := hcredited.dominated
  have hcached : ceiling + k ≤ aligned cached := by omega
  have hmatching : ceiling + k ≤ row.matchingCompletedPreparationTokens := by omega
  refine ⟨entry, prompt, ceiling, hcredited.entered, hcredited.rowOf.promptIds, hcredited.known,
    ?_, ?_, hdominated⟩
  · rcases matchingFrom_attained hcredited.rowOf.matching with hnone | ⟨prepId, hmem, hfound⟩
    · omega
    obtain ⟨prompt', own, hprompt', ⟨prepEntry, result, hprep, hresult, hsalt, hbefore, hown⟩,
      hshared⟩ := hfound
    rw [hcredited.rowOf.promptIds, Option.some.injEq] at hprompt'
    subst hprompt'
    obtain ⟨hprepId, hcompleted⟩ := h.mem_prepared.1 hmem
    obtain ⟨prep, hprepMem, rfl⟩ := List.mem_map.1 hprepId
    obtain ⟨result', ids, hresult', hfinished, hgen, hne⟩ := completed_eq_true.1 hcompleted
    rw [hresult, Option.some.injEq] at hresult'
    subst hresult'
    refine ⟨prep, hprepMem, prepEntry, result, ids, own, hprep, hsalt.trans hcredited.salt.symm,
      hown, hresult, hfinished, hgen, hne, hbefore, prefixLength prompt own, ?_,
      Lists.shared_iff.2 le_rfl⟩
    have hle := aligned_le (prefixLength prompt own)
    omega
  · have hreported := hcredited.rowOf.cachedTokens
    rw [hcredited.reported, cachedOf] at hreported
    cases hresult : ix.results.get? row.requestId with
    | none =>
      rw [hresult] at hreported
      cases hreported
    | some result =>
      rw [hresult] at hreported
      exact ⟨result, cached, rfl, hreported.symm, hcached⟩

/-! ## One more ordinary request -/

/-- The trial `trial'` has the ordinary request `client` besides those of `trial`. -/
structure Adds (ix ix' : Index) (trial trial' : Trial) (client : Client) : Prop where
  trialId : trial'.manifest.trialId = trial.manifest.trialId
  clients : trial'.clients.Perm (client :: trial.clients)
  preps : trial'.preps.Perm trial.preps
  /-- The engine has the same rows for the others. -/
  rows : ∀ id ∈ trial.normalIds ++ trial.prepIds, ix'.entries.get? id = ix.entries.get? id ∧
    ix'.results.get? id = ix.results.get? id ∧ ix'.firstOutput.get? id = ix.firstOutput.get? id

variable {client : Client}

theorem Adds.normalIds (h : Adds ix ix' trial trial' client) {id : String}
    (hid : id ∈ trial.normalIds) : id ∈ trial'.normalIds := by
  obtain ⟨old, hold, rfl⟩ := List.mem_map.1 hid
  exact List.mem_map_of_mem (h.clients.mem_iff.2 (List.mem_cons_of_mem _ hold))

theorem Adds.prepIds (h : Adds ix ix' trial trial' client) {id : String} :
    id ∈ trial'.prepIds ↔ id ∈ trial.prepIds :=
  (h.preps.map fun p => p.clientRequestId).mem_iff

/-- A ceiling that dominates the larger foreground dominates the smaller one. -/
theorem Adds.dominated (h : Adds ix ix' trial trial' client) {rid : String} {entry : Entry}
    {bound ceiling : Int} (hall : ∀ other ∈ trial'.normalIds, ∀ otherEntry,
      Earlier ix' rid entry bound other otherEntry → Dominated ix' entry ceiling other otherEntry) :
    ∀ other ∈ trial.normalIds, ∀ otherEntry,
      Earlier ix rid entry bound other otherEntry → Dominated ix entry ceiling other otherEntry := by
  intro other hother otherEntry hearlier
  obtain ⟨hentries, hresults, -⟩ := h.rows other (List.mem_append_left _ hother)
  have hearlier' : Earlier ix' rid entry bound other otherEntry :=
    ⟨hearlier.ne, hentries.trans hearlier.entered, hearlier.salt, hearlier.before⟩
  obtain ⟨prompt, tokens, hprompt, ⟨result, own, ids, hresult, hrest⟩, hshared⟩ :=
    hall other (h.normalIds hother) otherEntry hearlier'
  exact ⟨prompt, tokens, hprompt, ⟨result, own, ids, hresults.symm.trans hresult, hrest⟩, hshared⟩

/-- The finished preparations are the same, so they share as much with a prompt as before. -/
theorem Adds.matching (h : Adds ix ix' trial trial' client)
    (hvalid : Valid sets renderIds ix trial report prepared)
    (hvalid' : Valid sets' renderIds' ix' trial' report' prepared') {entry : Entry} {m m' : Int}
    (hm : matchingFrom ix (engineCacheSalt trial.manifest.trialId) entry 0 (sets.order prepared) =
      .ok m)
    (hm' : matchingFrom ix' (engineCacheSalt trial'.manifest.trialId) entry 0
      (sets'.order prepared') = .ok m') : m' ≤ m := by
  obtain ⟨hzero, hall⟩ := matchingFrom_spec hm
  rcases matchingFrom_attained hm' with hnone | ⟨prepId, hmem, prompt, own, hprompt, hprep, hattained⟩
  · omega
  obtain ⟨hprepId, hcompleted⟩ := hvalid'.mem_prepared.1 hmem
  rw [h.prepIds] at hprepId
  obtain ⟨hentries, hresults, -⟩ := h.rows prepId (List.mem_append_right _ hprepId)
  have hcompletedHere : completed ix prepId = .ok true := by
    rw [completed_eq_true] at hcompleted ⊢
    rwa [hresults] at hcompleted
  have hprepHere : Prepared ix (engineCacheSalt trial.manifest.trialId) entry prepId own := by
    obtain ⟨prepEntry, result, hentry, hresult, hsalt, hrest⟩ := hprep
    exact ⟨prepEntry, result, hentries.symm.trans hentry, hresults.symm.trans hresult,
      h.trialId ▸ hsalt, hrest⟩
  obtain ⟨prompt', hprompt', hle⟩ :=
    hall prepId (hvalid.mem_prepared.2 ⟨hprepId, hcompletedHere⟩) own hprepHere
  rw [hprompt, Option.some.injEq] at hprompt'
  subst hprompt'
  rw [hattained]
  exact hle

/-- **No credit is larger with one more ordinary request.** -/
theorem Adds.credit_le (h : Adds ix ix' trial trial' client)
    (hvalid : Valid sets renderIds ix trial report prepared)
    (hvalid' : Valid sets' renderIds' ix' trial' report' prepared') {row row' : Row}
    (hrow : row ∈ report.normalRequests) (hrow' : row' ∈ report'.normalRequests)
    (hid : row'.requestId = row.requestId) {k' : Int}
    (hk' : row'.preparationCreditLowerBoundTokens = some k') :
    ∃ k, row.preparationCreditLowerBoundTokens = some k ∧ k' ≤ k := by
  obtain ⟨entry, prompt, ceiling', cached, hcredited, rfl⟩ := hvalid'.credited hrow' hk'
  obtain ⟨hzero, output, houtput, hall⟩ := hcredited.dominated
  obtain ⟨old, hold, hok⟩ := Except.exists_of_mem_mapM hvalid.rows hrow
  have holdId := requestRow_requestId hok
  obtain ⟨hentries, hresults, houtputs⟩ :=
    h.rows row.requestId (List.mem_append_left _ (hvalid.mem_normalIds hrow))
  have hentry : ix.entries.get? row.requestId = some entry := by
    rw [← hentries, ← hid]
    exact hcredited.entered
  obtain ⟨prompt', hentered⟩ := requestRow_entered (holdId ▸ hentry) hok
  have hprompt := hentered.promptIds
  rw [hcredited.rowOf.promptIds, Option.some.injEq] at hprompt
  subst hprompt
  -- the ceiling is the least one, and the larger trial's dominates here too
  rw [hid] at houtput hall
  rw [houtputs] at houtput
  have hdominated : ∀ other ∈ sets.order trial.normalIds, ∀ otherEntry,
      Earlier ix row.requestId entry output.workerMonotonicNs other otherEntry →
        Dominated ix entry ceiling' other otherEntry := fun other hother =>
    h.dominated hall other ((sets.perm trial.normalIds).mem_iff.1 hother)
  obtain ⟨ceiling, hceiling, hle⟩ := foregroundCeiling_least hentry houtput hzero hdominated
  have hrowCeiling : row.foregroundHistoryCeilingTokens = some ceiling := by
    have hok := hentered.ceiling
    rw [hceiling, Except.ok.injEq] at hok
    exact hok.symm
  have hrowCached : row.cachedTokens = .int cached := by
    rw [hentered.cachedTokens, cachedOf, ← hresults, ← hid]
    exact hcredited.rowOf.cachedTokens.symm.trans hcredited.reported
  have hmatching := h.matching hvalid hvalid' hentered.matching hcredited.rowOf.matching
  refine ⟨max 0 (min (aligned cached) row.matchingCompletedPreparationTokens - ceiling), ?_,
    by omega⟩
  rw [hentered.credit, creditOf_eq_some]
  exact ⟨rfl, ceiling, cached, prompt.length, hrowCeiling, hrowCached, hentered.promptTokens,
    hcredited.nonneg, hcredited.bounded, rfl⟩

/-- **Preparation credit is sound.**  A positive credit is earned, in a report without errors; and
with one more ordinary request no integer credit is larger. -/
theorem credit_sound (h : analyzeTrial sets renderIds ix trial = .ok report) :
    (∀ row ∈ report.normalRequests, ∀ k, 0 < k →
      row.preparationCreditLowerBoundTokens = some k →
        report.errors = [] ∧ ∃ entry prompt ceiling, ix.entries.get? row.requestId = some entry ∧
          entry.promptIds = some prompt ∧ row.foregroundHistoryCeilingTokens = some ceiling ∧
          Earned ix trial row.requestId entry prompt ceiling k) ∧
    ∀ sets' renderIds' ix' trial' report' client,
      Adds ix ix' trial trial' client → analyzeTrial sets' renderIds' ix' trial' = .ok report' →
      report.attributionValid = true → report'.attributionValid = true →
      ∀ row ∈ report.normalRequests, ∀ row' ∈ report'.normalRequests,
        row'.requestId = row.requestId → ∀ k',
        row'.preparationCreditLowerBoundTokens = some k' →
          ∃ k, row.preparationCreditLowerBoundTokens = some k ∧ k' ≤ k := by
  constructor
  · intro row hrow k hpos hk
    have herrors := errors_of_credit h hrow hk
    obtain ⟨prepared, hvalid⟩ := analyzeTrial_valid h herrors
    exact ⟨herrors, hvalid.earned hrow hpos hk⟩
  · intro sets' renderIds' ix' trial' report' client hadds h' hattributed hattributed' row hrow row'
      hrow' hid k' hk'
    obtain ⟨prepared, hvalid⟩ := analyzeTrial_valid h ((attributionValid_iff h).1 hattributed)
    obtain ⟨prepared', hvalid'⟩ := analyzeTrial_valid h' ((attributionValid_iff h').1 hattributed')
    exact hadds.credit_le hvalid hvalid' hrow hrow' hid hk'

end Sound

/-! ## Example

`later` comes after `first` and a preparation; `extra` is an ordinary request between them. -/

def exampleTokens (length : Nat) : Tokens := (List.range length).map Int.ofNat

def exampleEntry (rid : String) (time : Int) (length : Nat) : String × Entry :=
  (rid, ⟨rid, "capture-" ++ rid, time, some (engineCacheSalt "t"), some (exampleTokens length)⟩)

def exampleLink (rid : String) (length : Nat) : Option String × List Link :=
  (some rid, [⟨some rid, some ("capture-" ++ rid), some (exampleTokens length)⟩])

def exampleResult (rid : String) (time cached : Int) : String × Result :=
  (rid, ⟨rid, time, "finished", "reported", [("0", [100])], .int cached⟩)

def exampleIndex : Index where
  entries := .ofList [exampleEntry "first" 0 16, exampleEntry "prep" 3 40,
    exampleEntry "later" 10 48, exampleEntry "extra" 6 32]
  links := .ofList [exampleLink "first" 16, exampleLink "prep" 40, exampleLink "later" 48,
    exampleLink "extra" 32]
  results := .ofList [exampleResult "first" 2 0, exampleResult "prep" 5 16,
    exampleResult "later" 12 48, exampleResult "extra" 8 32]
  firstOutput := .ofList [("first", ⟨"first", 1⟩), ("later", ⟨"later", 11⟩),
    ("extra", ⟨"extra", 7⟩)]

/-- The engine without the request `extra`. -/
def exampleBefore : Index where
  entries := exampleIndex.entries.erase "extra"
  links := exampleIndex.links
  results := exampleIndex.results.erase "extra"
  firstOutput := exampleIndex.firstOutput.erase "extra"

def exampleSent (rid : String) (length : Nat) : Sent :=
  ⟨rid, .bool true, .str "completed", .dict [("messages", .list [.dict [("role", .str "user")]]),
    ("prompt", .list ((exampleTokens length).map Value.int))]⟩

def exampleClient (rid : String) (length : Nat) : Client :=
  ⟨exampleSent rid length, .str "s", .null, .str "stop", .null⟩

/-- A trial with these ordinary requests and the preparation. -/
def exampleTrial (clients : List Client) : Trial where
  manifest := ⟨"live", "t", "on", .bool false⟩
  reset := .dict [("backend_reset_reported", .bool true), ("kv_clear_event_verified", .bool true),
    ("idle_verified", .bool true)]
  clients
  preps := [⟨exampleSent "prep" 40, "a1"⟩]
  attempts := [⟨"a1", .str "sent", some "first", .null⟩]
  clientEvents := some (("prep" :: clients.map fun c => c.clientRequestId).map fun rid =>
    ⟨"http_request_link", rid⟩)
  sessions := [[.str "written"]]

def exampleSets : SetOrder := ⟨id, fun _ => .refl _⟩

def exampleClients : List Client := [exampleClient "first" 16, exampleClient "later" 48]

def exampleValid (credits : List (String × Option Int)) : Except String Report → Bool
  | .ok report => report.attributionValid && decide (report.normalRequests.map (fun row =>
      (row.requestId, row.preparationCreditLowerBoundTokens)) = credits)
  | .error _ => false

theorem exists_of_exampleValid (result : Except String Report)
    (credits : List (String × Option Int)) {rid : String} {k : Int} (h : exampleValid credits result = true)
    (hmem : (rid, some k) ∈ credits) :
    ∃ report, result = .ok report ∧ report.attributionValid = true ∧
      ∃ row ∈ report.normalRequests, row.requestId = rid ∧
        row.preparationCreditLowerBoundTokens = some k := by
  cases result with
  | error e => cases h
  | ok report =>
    rw [exampleValid, Bool.and_eq_true, decide_eq_true_eq] at h
    rw [← h.2, List.mem_map] at hmem
    obtain ⟨row, hrow, heq⟩ := hmem
    rw [Prod.mk.injEq] at heq
    exact ⟨report, rfl, h.1, row, hrow, heq.1, heq.2⟩

theorem credit_sound_example :
    ∃ report row, analyzeTrial exampleSets none exampleBefore (exampleTrial exampleClients) =
        .ok report ∧ row ∈ report.normalRequests ∧
      row.preparationCreditLowerBoundTokens = some 16 ∧ report.errors = [] ∧
      (∃ entry prompt ceiling,
        Earned exampleBefore (exampleTrial exampleClients) row.requestId entry prompt ceiling 16) ∧
      ∃ report' row', analyzeTrial exampleSets none exampleIndex
          (exampleTrial (exampleClient "extra" 32 :: exampleClients)) = .ok report' ∧
        row' ∈ report'.normalRequests ∧ row'.preparationCreditLowerBoundTokens = some 0 ∧
        ∃ k, row.preparationCreditLowerBoundTokens = some k ∧ 0 ≤ k := by
  obtain ⟨report, h, hattributed, row, hrow, hid, hk⟩ :=
    exists_of_exampleValid
      (analyzeTrial exampleSets none exampleBefore (exampleTrial exampleClients))
      [("first", some 0), ("later", some 16)] (by decide +kernel) (List.mem_cons_of_mem _ List.mem_cons_self)
  obtain ⟨report', h', hattributed', row', hrow', hid', hk'⟩ :=
    exists_of_exampleValid
      (analyzeTrial exampleSets none exampleIndex
        (exampleTrial (exampleClient "extra" 32 :: exampleClients)))
      [("extra", some 16), ("first", some 0), ("later", some 0)] (by decide +kernel)
      (List.mem_cons_of_mem _ (List.mem_cons_of_mem _ List.mem_cons_self))
  obtain ⟨herrors, entry, prompt, ceiling, -, -, -, hearned⟩ :=
    (credit_sound h).1 row hrow 16 (by decide) hk
  have hadds : Adds exampleBefore exampleIndex (exampleTrial exampleClients)
      (exampleTrial (exampleClient "extra" 32 :: exampleClients)) (exampleClient "extra" 32) :=
    ⟨rfl, .refl _, .refl _, by decide +kernel⟩
  exact ⟨report, row, h, hrow, hk, herrors, ⟨entry, prompt, ceiling, hearned⟩, report', row', h',
    hrow', hk', (credit_sound h).2 _ _ _ _ _ _ hadds h' hattributed hattributed' row hrow row'
      hrow' (hid'.trans hid.symm) 0 hk'⟩

end ReedCode.PreparationCredit
