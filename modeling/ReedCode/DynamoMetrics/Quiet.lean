import ReedCode.DynamoMetrics.Epoch

/-!
# A valid epoch is quiet

* `Extends` — what brackets add to a window: snapshots, errors and fingerprints.
* `QuietTail`, `drainLoop_quiet` — the counter of the drain loop counts the idle scrapes at the end
  that have equal counters.
* `EpochRun.Quiet`, `Measured` — a quiet run, and a value measured over its scrapes.
* `validBoundaries_quiet`, `serverValues_measured` — **valid boundaries mean a quiet run**, whose
  published values are measured.
-/

set_option autoImplicit false

namespace ReedCode.DynamoMetrics

open ServerMetrics

/-! ## What a scrape adds -/

def IdentityCheck.errors : IdentityCheck → List String
  | .known _ _ => []
  | .failed error => ["Identity" ++ error]

def scrapeErrors : Scrape → List String
  | .read _ _ => []
  | .failed error => [error]

def Bracket.errors (identityUrl : Bool) (b : Bracket) : List String :=
  if identityUrl then b.before.errors ++ scrapeErrors b.scrape ++ b.after.errors
  else scrapeErrors b.scrape

def Bracket.fingerprints (identityUrl : Bool) (b : Bracket) : List (Option String) :=
  if identityUrl then [b.before.fingerprint?, b.after.fingerprint?] else []

/-- The window `w'` is `w` after the brackets `bs`. -/
structure Extends (identityUrl : Bool) (bs : List Bracket) (w w' : Epoch) : Prop where
  snapshots : w'.snapshots = w.snapshots ++ bs.filterMap (·.scrape.metrics?)
  errors : w'.errors = w.errors ++ bs.flatMap (Bracket.errors identityUrl)
  identityValues : w'.identityValues =
    w.identityValues ++ bs.flatMap (Bracket.fingerprints identityUrl)
  before : w'.before = w.before

theorem Extends.refl (identityUrl : Bool) (w : Epoch) : Extends identityUrl [] w w :=
  ⟨(List.append_nil _).symm, (List.append_nil _).symm, (List.append_nil _).symm, rfl⟩

theorem Extends.trans {identityUrl : Bool} {bs bs' : List Bracket} {w w' w'' : Epoch}
    (h : Extends identityUrl bs w w') (h' : Extends identityUrl bs' w' w'') :
    Extends identityUrl (bs ++ bs') w w'' where
  snapshots := by rw [h'.snapshots, h.snapshots, List.filterMap_append, List.append_assoc]
  errors := by rw [h'.errors, h.errors, List.flatMap_append, List.append_assoc]
  identityValues := by
    rw [h'.identityValues, h.identityValues, List.flatMap_append, List.append_assoc]
  before := h'.before.trans h.before

section Epoch

variable (w : Epoch) (phase : Phase)

theorem snapshots_read (s : Scrape) :
    (w.read phase s).snapshots = w.snapshots ++ s.metrics?.toList := by
  cases s with
  | read atSeconds metrics => exact List.map_append
  | failed error => exact (List.append_nil _).symm

theorem errors_read (s : Scrape) : (w.read phase s).errors = w.errors ++ scrapeErrors s := by
  cases s with
  | read atSeconds metrics => exact (List.append_nil _).symm
  | failed error => rfl

theorem errors_identity (check : IdentityCheck) :
    (w.identity check).errors = w.errors ++ check.errors := by
  cases check with
  | known fingerprint identity => exact (List.append_nil _).symm
  | failed error => rfl

theorem identity_frame (check : IdentityCheck) :
    (w.identity check).samples = w.samples ∧
      (w.identity check).identitySamples = w.identitySamples ∧
      (w.identity check).before = w.before ∧ (w.identity check).drained = w.drained := by
  cases check <;> exact ⟨rfl, rfl, rfl, rfl⟩

theorem read_frame (s : Scrape) :
    (w.read phase s).identitySamples = w.identitySamples ∧
      (w.read phase s).before = w.before ∧ (w.read phase s).drained = w.drained := by
  cases s <;> exact ⟨rfl, rfl, rfl⟩

/-- One scrape adds its bracket. -/
theorem scrape_extends (identityUrl : Bool) (b : Bracket) :
    Extends identityUrl [b] w (w.scrape identityUrl phase b) := by
  cases identityUrl with
  | false =>
    have hscrape : w.scrape false phase b = w.read phase b.scrape := rfl
    rw [hscrape]
    refine ⟨?_, ?_, ?_, (read_frame w phase b.scrape).2.1⟩
    · rw [snapshots_read]
      cases hmetrics : b.scrape.metrics? <;> simp [hmetrics]
    · rw [errors_read]
      simp [Bracket.errors]
    · rw [Epoch.identityValues, (read_frame w phase b.scrape).1]
      simp [Epoch.identityValues, Bracket.fingerprints]
  | true =>
    have hscrape : w.scrape true phase b =
        (((w.identity b.before).read phase b.scrape).identity b.after).observe phase
          b.before.fingerprint? b.after.fingerprint? := rfl
    obtain ⟨hs, hi, hb, -⟩ := identity_frame w b.before
    obtain ⟨hri, hrb, -⟩ := read_frame (w.identity b.before) phase b.scrape
    obtain ⟨has, hai, hab, -⟩ := identity_frame ((w.identity b.before).read phase b.scrape) b.after
    rw [hscrape]
    refine ⟨?_, ?_, ?_, ?_⟩
    · have hread := snapshots_read (w.identity b.before) phase b.scrape
      rw [Epoch.snapshots, Epoch.snapshots, hs] at hread
      rw [Epoch.snapshots, Epoch.observe, has, hread, Epoch.snapshots]
      cases hmetrics : b.scrape.metrics? <;> simp [hmetrics]
    · rw [Epoch.observe]
      dsimp only
      rw [errors_identity, errors_read, errors_identity]
      simp [Bracket.errors]
    · rw [Epoch.identityValues, Epoch.observe]
      dsimp only
      rw [hai, hri, hi]
      simp [Epoch.identityValues, Bracket.fingerprints]
    · exact hab.trans (hrb.trans hb)

theorem drained_scrape (identityUrl : Bool) (b : Bracket) :
    (w.scrape identityUrl phase b).drained = w.drained := by
  cases identityUrl with
  | false => exact (read_frame w phase b.scrape).2.2
  | true =>
    exact (identity_frame _ b.after).2.2.2.trans
      ((read_frame _ phase b.scrape).2.2.trans (identity_frame w b.before).2.2.2)

theorem drained_cut (identityUrl : Bool) (cut : Cut) : (w.cut identityUrl cut).drained = w.drained := by
  cases identityUrl with
  | false => rfl
  | true =>
    cases cut with
    | idle => rfl
    | firstCheck => rfl
    | scrape check => exact (identity_frame w check).2.2.2
    | secondCheck check s => exact (read_frame _ .during s).2.2.trans (identity_frame w check).2.2.2

end Epoch

/-- Scrapes one after the other add their brackets. -/
theorem foldl_scrape_extends (identityUrl : Bool) (phase : Phase) : ∀ (bs : List Bracket) (w : Epoch),
    Extends identityUrl bs w (bs.foldl (fun w b => w.scrape identityUrl phase b) w)
  | [], w => Extends.refl identityUrl w
  | b :: bs, w => (scrape_extends w phase identityUrl b).trans (foldl_scrape_extends identityUrl phase bs _)

theorem drained_foldl_scrape (identityUrl : Bool) (phase : Phase) : ∀ (bs : List Bracket) (w : Epoch),
    (bs.foldl (fun w b => w.scrape identityUrl phase b) w).drained = w.drained
  | [], _ => rfl
  | b :: bs, w =>
    (drained_foldl_scrape identityUrl phase bs _).trans (drained_scrape w phase identityUrl b)

/-! ## The drain loop -/

/-- Two snapshots have the same request and token counters. -/
def SameCounters (a b : Snapshot) : Prop :=
  ∀ key : Counter, ∀ name ∈ key.aliases, Same (a.get? name) (b.get? name)

/-- No requests are running or waiting. -/
def Idle (s : Snapshot) : Prop := ∀ key ∈ requestGauges, ServerMetrics.gauge (some s) key = some 0

theorem sameCounters_iff {a b : Snapshot} :
    sameCounters (some a) (some b) = true ↔ SameCounters a b := by
  rw [sameCounters, List.all_eq_true]
  constructor
  · intro h key name hname
    refine sameSeries?_iff.1 (h name (List.mem_flatMap.2 ⟨key, ?_, hname⟩))
    cases key <;> simp [Counter.all]
  · intro h name hname
    obtain ⟨key, -, hkey⟩ := List.mem_flatMap.1 hname
    exact sameSeries?_iff.2 (h key name hkey)

theorem SameCounters.trans {a b c : Snapshot} (h : SameCounters a b) (h' : SameCounters b c) :
    SameCounters a c := fun key name hname => (h key name hname).trans (h' key name hname)

theorem isIdle_iff {sample : Option Snapshot} :
    isIdle sample = true ↔ ∃ s, sample = some s ∧ Idle s := by
  cases sample with
  | none => exact ⟨nofun, nofun⟩
  | some s => simp [isIdle, Idle]

/-- An idle snapshot has series, and so its counters are kept. -/
theorem Idle.kept {s : Snapshot} (h : Idle s) : keptCounters (some s) = some s := by
  have hgauge := h .requestsRunning (by decide)
  have hne : s.entries ≠ [] := by
    intro hnil
    have hget : ∀ name, s.get? name = none := by
      intro name
      rw [FinMap.get?, hnil]
      rfl
    simp [ServerMetrics.gauge, gaugeValues, Gauge.aliases, hget] at hgauge
  rw [keptCounters, Option.filter_some]
  cases hentries : s.entries with
  | nil => exact absurd hentries hne
  | cons e es => rfl

/-- The scrapes seen so far end with `quiet` idle ones, whose counters are those of the scrape before
them; the last counters are kept. -/
inductive QuietTail : Nat → Option Snapshot → List (Option Snapshot) → Prop where
  | unseen (seen : List (Option Snapshot)) : QuietTail 0 none seen
  | counted (earlier : List (Option Snapshot)) (x : Snapshot) (tail : List Snapshot)
      (idle : ∀ m ∈ tail, Idle m ∧ SameCounters x m) :
      QuietTail tail.length (some (tail.getLastD x)) (earlier ++ (x :: tail).map some)

/-- An idle scrape with the counters of the last one makes the tail longer. -/
theorem QuietTail.snoc {quiet : Nat} {previous sample : Option Snapshot}
    {seen : List (Option Snapshot)} (h : QuietTail quiet previous seen)
    (hidle : isIdle sample = true) (hsame : sameCounters (keptCounters sample) previous = true) :
    QuietTail (quiet + 1) (keptCounters sample) (seen ++ [sample]) := by
  obtain ⟨m, rfl, hm⟩ := isIdle_iff.1 hidle
  rw [hm.kept] at hsame ⊢
  cases h with
  | unseen => cases hsame
  | counted earlier x tail hall =>
    have hlast : SameCounters x (tail.getLastD x) := by
      rcases List.eq_nil_or_concat' tail with rfl | ⟨init, b, rfl⟩
      · exact fun _ _ _ => rfl
      · rw [List.getLastD_concat]
        exact (hall b (by simp)).2
    have hcounters : SameCounters x m := by
      refine hlast.trans fun key name hname => ?_
      exact (sameCounters_iff.1 hsame key name hname).symm
    have hlong := QuietTail.counted earlier x (tail ++ [m]) (by
      intro m' hm'
      rcases List.mem_append.1 hm' with hm' | hm'
      · exact hall m' hm'
      · cases List.mem_singleton.1 hm'
        exact ⟨hm, hcounters⟩)
    rw [List.getLastD_concat, List.length_append] at hlong
    rw [List.append_assoc, show (x :: tail).map some ++ [some m] = (x :: (tail ++ [m])).map some by simp]
    exact hlong

/-- Any other scrape starts again. -/
theorem QuietTail.reset (seen : List (Option Snapshot)) (sample : Option Snapshot) :
    QuietTail 0 (keptCounters sample) (seen ++ [sample]) := by
  cases sample with
  | none => exact QuietTail.unseen _
  | some m =>
    cases hkept : keptCounters (some m) with
    | none => exact QuietTail.unseen _
    | some m' =>
      have hm : m = m' := (Option.mem_filter_iff.1 (Option.mem_def.2 hkept)).1 |> Option.some.inj
      subst hm
      exact QuietTail.counted seen m [] nofun

/-- The last four scrapes have the same counters, and the last three of them are idle. -/
def QuietEnd (seen : List (Option Snapshot)) : Prop :=
  ∃ earlier x b c d, seen = earlier ++ [some x, some b, some c, some d] ∧
    ∀ m ∈ [b, c, d], Idle m ∧ SameCounters x m

theorem QuietTail.end {previous : Option Snapshot} {seen : List (Option Snapshot)}
    (h : QuietTail 3 previous seen) : QuietEnd seen := by
  generalize hthree : 3 = n at h
  cases h with
  | unseen => cases hthree
  | counted earlier x tail hall =>
    match tail, hthree, hall with
    | [b, c, d], _, hall => exact ⟨earlier, x, b, c, d, rfl, hall⟩

/-- The drain loop adds its scrapes, and ends drained only after three quiet ones. -/
theorem drainLoop_quiet (identityUrl : Bool) : ∀ {steps : List (Bracket × Bool)}
    {seen : List (Option Snapshot)} {quiet : Nat} {previous : Option Snapshot} {w w' : Epoch},
    QuietTail quiet previous seen → quiet < 3 → w.drained = false →
    drainLoop identityUrl steps quiet previous w = some w' →
    Extends identityUrl (steps.map Prod.fst) w w' ∧
      (w'.drained = true → QuietEnd (seen ++ steps.map (·.1.scrape.metrics?)))
  | [], _, _, _, _, _, _, _, _, h => by cases h
  | (b, deadlinePassed) :: rest, seen, quiet, previous, w, w', htail, hquiet, hdrained, h => by
    rw [drainLoop] at h
    dsimp only at h
    have hone := scrape_extends w .drain identityUrl b
    have hlater := (drained_scrape w .drain identityUrl b).trans hdrained
    generalize hnext : (if isIdle b.scrape.metrics? &&
      sameCounters (keptCounters b.scrape.metrics?) previous then quiet + 1 else 0) = quiet' at h
    have htail' : QuietTail quiet' (keptCounters b.scrape.metrics?) (seen ++ [b.scrape.metrics?]) ∧
        quiet' ≤ 3 := by
      split at hnext
      · rename_i hidle
        rw [Bool.and_eq_true] at hidle
        subst hnext
        exact ⟨htail.snoc hidle.1 hidle.2, hquiet⟩
      · subst hnext
        exact ⟨QuietTail.reset seen _, Nat.zero_le 3⟩
    split at h
    · rename_i hthree
      split at h
      · rename_i hrest
        subst hrest
        cases h
        refine ⟨⟨hone.snapshots, hone.errors, hone.identityValues, hone.before⟩, fun _ => ?_⟩
        have hq : quiet' = 3 := le_antisymm htail'.2 hthree
        subst hq
        exact htail'.1.end
      · cases h
    split at h
    · split at h
      · rename_i hrest
        subst hrest
        cases h
        refine ⟨⟨hone.snapshots, hone.errors, hone.identityValues, hone.before⟩, fun htrue => ?_⟩
        rw [show _ = false from hlater] at htrue
        cases htrue
      · cases h
    · rename_i hthree _
      obtain ⟨hextends, hend⟩ := drainLoop_quiet identityUrl htail'.1 (not_le.1 hthree) (by exact hlater) h
      refine ⟨?_, fun htrue => ?_⟩
      · have hbefore : Extends identityUrl [b] w
            { w.scrape identityUrl .drain b with after := b.scrape.metrics? } :=
          ⟨hone.snapshots, hone.errors, hone.identityValues, hone.before⟩
        exact hbefore.trans hextends
      · have hend := hend htrue
        rwa [List.append_assoc] at hend

/-! ## Windows -/

/-- The brackets of a run, in order; a sampler that was cut off has another one. -/
def EpochRun.brackets (run : EpochRun) : List Bracket :=
  run.before :: run.during ++ run.drain.map Prod.fst

/-- The snapshots that the scrapes of a run give. -/
def EpochRun.snapshots (run : EpochRun) : List Snapshot :=
  run.brackets.filterMap (·.scrape.metrics?)

theorem window_of_stopped {run : EpochRun} {w : Epoch} (hstopped : run.sampler = .stopped)
    (h : run.window = some w) :
    w.snapshots = run.snapshots ∧
      w.errors = run.brackets.flatMap (Bracket.errors run.identityUrl) ∧
      w.identityValues = run.brackets.flatMap (Bracket.fingerprints run.identityUrl) ∧
      w.before = run.before.scrape.metrics? ∧
      (w.drained = true → QuietEnd (run.drain.map (·.1.scrape.metrics?))) := by
  rw [EpochRun.window, hstopped] at h
  have hfirst := scrape_extends Epoch.new .before run.identityUrl run.before
  obtain ⟨hlast, hend⟩ := drainLoop_quiet run.identityUrl (QuietTail.unseen []) (by decide)
    (by
      dsimp only
      rw [drained_foldl_scrape]
      exact drained_scrape Epoch.new .before run.identityUrl run.before) h
  have hduring := foldl_scrape_extends run.identityUrl .during run.during
    { Epoch.new.scrape run.identityUrl .before run.before with
      before := run.before.scrape.metrics? }
  have hall := hduring.trans hlast
  let later := run.during ++ run.drain.map Prod.fst
  refine ⟨?_, ?_, ?_, hall.before, hend⟩
  · refine hall.snapshots.trans ?_
    have hread := congrArg (· ++ later.filterMap (·.scrape.metrics?)) hfirst.snapshots
    exact hread.trans List.filterMap_append.symm
  · refine hall.errors.trans ?_
    have herrors := congrArg (· ++ later.flatMap (Bracket.errors run.identityUrl)) hfirst.errors
    exact herrors.trans List.flatMap_append.symm
  · refine hall.identityValues.trans ?_
    have hvalues :=
      congrArg (· ++ later.flatMap (Bracket.fingerprints run.identityUrl)) hfirst.identityValues
    exact hvalues.trans List.flatMap_append.symm

/-- The errors of a sampler that did not stop in time stay. -/
theorem errors_of_timedOut {run : EpochRun} {w : Epoch} {cut : Cut}
    (hsampler : run.sampler = .timedOut cut) (h : run.window = some w) : w.errors ≠ [] := by
  rw [EpochRun.window, hsampler] at h
  obtain ⟨hlast, -⟩ := drainLoop_quiet run.identityUrl (QuietTail.unseen []) (by decide)
    (by
      dsimp only
      rw [drained_cut, drained_foldl_scrape]
      exact drained_scrape Epoch.new .before run.identityUrl run.before) h
  rw [hlast.errors]
  simp

/-! ## Valid boundaries -/

/-- Nothing failed and nothing restarted in a run, which begins and ends idle. -/
structure EpochRun.Quiet (run : EpochRun) : Prop where
  idleBefore : ∃ atSeconds s, run.before.scrape = .read atSeconds s ∧ Idle s
  scrapes : ∀ b ∈ run.brackets, ∃ atSeconds s, b.scrape = .read atSeconds s
  sampler : run.sampler = .stopped
  identities : run.identityUrl = true → ∃ fingerprint, fingerprint ≠ "" ∧ ∀ b ∈ run.brackets,
    (∃ identity, b.before = .known fingerprint identity) ∧
      ∃ identity, b.after = .known fingerprint identity
  processStart : run.identityUrl = false → ∀ m ∈ run.snapshots,
    ∃ series, m.get? ServerMetrics.processStart = some series ∧ series.entries ≠ []
  sameStart : ∀ m ∈ run.snapshots, ∀ m' ∈ run.snapshots,
    Same (m.get? ServerMetrics.processStart) (m'.get? ServerMetrics.processStart)
  drained : QuietEnd (run.drain.map (·.1.scrape.metrics?))

/-- The last minus the first value of a counter that is in every snapshot, keeps its series and never
falls. -/
def Measured (snapshots : List Snapshot) (aliases : List Text) (value : Rat) : Prop :=
  ∃ name ∈ aliases, Present snapshots name ∧ Steady snapshots name ∧ Increase snapshots name value

theorem validBoundaries_iff {w : Epoch} {identityUrl : Bool} :
    w.validBoundaries identityUrl = true ↔
      w.boundaries = true ∧ w.idleBefore = true ∧ w.drained = true ∧
        w.restartObservable identityUrl = true ∧ w.restarted = false ∧ w.errors = [] := by
  simp [Epoch.validBoundaries, and_assoc]

/-- A bracket without errors has read its metrics. -/
theorem Bracket.scrape_read {identityUrl : Bool} {b : Bracket} (h : b.errors identityUrl = []) :
    ∃ atSeconds s, b.scrape = .read atSeconds s := by
  have hscrape : scrapeErrors b.scrape = [] := by
    cases identityUrl with
    | false => exact h
    | true =>
      have hparts := List.append_eq_nil_iff.1 h
      exact (List.append_eq_nil_iff.1 hparts.1).2
  cases hread : b.scrape with
  | read atSeconds s => exact ⟨atSeconds, s, rfl⟩
  | failed error =>
    rw [hread] at hscrape
    cases hscrape

theorem IdentityCheck.known_of_fingerprint {check : IdentityCheck} {fingerprint : String}
    (h : check.fingerprint? = some fingerprint) : ∃ identity, check = .known fingerprint identity := by
  cases check with
  | known _ identity =>
    cases h
    exact ⟨identity, rfl⟩
  | failed error => cases h

/-- Values that are all there and of which no two differ are one value. -/
theorem one_of_dedup {values : List (Option String)} (hne : values ≠ [])
    (hall : ∀ v ∈ values, v.any (· ≠ "") = true) (hone : ¬ 1 < (values.filterMap id).dedup.length) :
    ∃ fingerprint, fingerprint ≠ "" ∧ ∀ v ∈ values, v = some fingerprint := by
  have hsome : ∀ v ∈ values, ∃ x, v = some x ∧ x ≠ "" := by
    intro v hv
    obtain ⟨x, hx, hne⟩ := Option.any_eq_true _ _ |>.1 (hall v hv)
    exact ⟨x, hx, of_decide_eq_true hne⟩
  obtain ⟨v, hv⟩ := List.exists_mem_of_ne_nil values hne
  obtain ⟨x, rfl, hx⟩ := hsome v hv
  refine ⟨x, hx, fun v' hv' => ?_⟩
  obtain ⟨y, rfl, -⟩ := hsome v' hv'
  have hmem : ∀ z, some z ∈ values → z ∈ (values.filterMap id).dedup := by
    intro z hz
    exact List.mem_dedup.2 (List.mem_filterMap.2 ⟨some z, hz, rfl⟩)
  match hd : (values.filterMap id).dedup with
  | [] => exact absurd (hd ▸ hmem x hv) List.not_mem_nil
  | [z] =>
    have hxz := List.mem_singleton.1 (hd ▸ hmem x hv)
    have hyz := List.mem_singleton.1 (hd ▸ hmem y hv')
    rw [hxz, hyz]
  | z :: z' :: rest =>
    rw [hd] at hone
    exact absurd (by simp) hone

section Valid

variable {run : EpochRun} {w : Epoch}

theorem sampler_of_valid (h : run.window = some w)
    (hvalid : w.validBoundaries run.identityUrl = true) : run.sampler = .stopped := by
  cases hsampler : run.sampler with
  | stopped => rfl
  | timedOut cut =>
    obtain ⟨-, -, -, -, -, herrors⟩ := validBoundaries_iff.1 hvalid
    exact absurd herrors (errors_of_timedOut hsampler h)

/-- **Valid boundaries mean a quiet run.** -/
theorem validBoundaries_quiet (h : run.window = some w)
    (hvalid : w.validBoundaries run.identityUrl = true) : run.Quiet := by
  have hstopped := sampler_of_valid h hvalid
  obtain ⟨hsnapshots, herrors, hvalues, hbefore, hend⟩ := window_of_stopped hstopped h
  obtain ⟨-, hidle, hdrained, hobservable, hrestarted, hnone⟩ := validBoundaries_iff.1 hvalid
  rw [herrors, List.flatMap_eq_nil_iff] at hnone
  rw [Epoch.restarted, Bool.or_eq_false_iff] at hrestarted
  have hread : ∀ b ∈ run.brackets, ∃ atSeconds s, b.scrape = .read atSeconds s :=
    fun b hb => Bracket.scrape_read (hnone b hb)
  refine ⟨?_, hread, hstopped, ?_, ?_, ?_, hend hdrained⟩
  · obtain ⟨atSeconds, s, hs⟩ := hread run.before List.mem_cons_self
    rw [Epoch.idleBefore, hbefore, hs] at hidle
    obtain ⟨s', he, hs'⟩ := isIdle_iff.1 hidle
    cases he
    exact ⟨atSeconds, s, hs, hs'⟩
  · intro hurl
    rw [Epoch.restartObservable, if_pos hurl, Epoch.identityObservable, Bool.and_eq_true,
      List.all_eq_true] at hobservable
    have hone := of_decide_eq_false hrestarted.2
    obtain ⟨fingerprint, hne, hall⟩ := one_of_dedup (by simpa using hobservable.1) hobservable.2 hone
    refine ⟨fingerprint, hne, fun b hb => ?_⟩
    have hcheck : ∀ v ∈ b.fingerprints run.identityUrl, v = some fingerprint := by
      intro v hv
      exact hall v (hvalues ▸ List.mem_flatMap.2 ⟨b, hb, hv⟩)
    rw [Bracket.fingerprints, if_pos hurl] at hcheck
    exact ⟨IdentityCheck.known_of_fingerprint (hcheck _ (by simp)),
      IdentityCheck.known_of_fingerprint (hcheck _ (by simp))⟩
  · intro hurl m hm
    rw [Epoch.restartObservable, hurl, if_neg (by decide), Epoch.processObservable, Bool.and_eq_true,
      List.all_eq_true, hsnapshots] at hobservable
    obtain ⟨series, hseries, hne⟩ := Option.any_eq_true _ _ |>.1 (hobservable.2 m hm)
    exact ⟨series, hseries, by simpa using hne⟩
  · rw [← hsnapshots]
    exact restarted_eq_false hrestarted.1

/-- A delta that is published is measured. -/
theorem delta_measured {identityUrl : Bool} {aliases : List Text} {value : Rat}
    (h : published true (w.delta identityUrl aliases) = some value) :
    Measured w.snapshots aliases value := by
  rw [published] at h
  split at h
  · rename_i hok
    rw [Epoch.delta] at h hok
    split at h
    · cases h
    split at h
    · cases h
    split at h
    · cases h
    · rename_i h₁ h₂ h₃
      rw [if_neg h₁, if_neg h₂, if_neg h₃] at hok
      cases hsnapshots : w.snapshots with
      | nil =>
        rw [hsnapshots] at h
        cases h
      | cons first rest =>
        rw [hsnapshots] at h hok
        rcases delta_cases first rest aliases with ⟨hmissing, -⟩ | ⟨name, hname, hpresent, hcases⟩
        · rw [hmissing] at h
          cases h
        · rcases hcases with hbad | ⟨hsteady, value', hvalue, hincrease⟩
          · rcases hbad with hbad | hbad <;> rw [hbad] at hok <;> cases hok.2
          · rw [hvalue] at h
            cases h
            exact ⟨name, List.mem_of_find?_eq_some hname, hpresent, hsteady, hincrease⟩
  · cases h

end Valid

/-- No server field is published. -/
def ServerValues.unpublished : ServerValues := ⟨fun _ => none, none, none, fun _ => none⟩

theorem serverValues_of_invalid {metrics : Option EpochReport}
    (h : metrics.any EpochReport.validBoundaries = false) :
    serverValues metrics = .unpublished := by
  have hnone : ∀ value : EpochReport → Delta,
      (metrics.bind fun m => published false (value m)) = none := by
    intro value
    cases metrics with
    | none => rfl
    | some m => rw [Option.bind_some, published, if_neg (by simp)]
  rw [serverValues, h, ServerValues.unpublished]
  simp only [hnone, ite_self, Bool.false_eq_true, if_false]

/-- **A valid epoch is quiet and its values are measured**; nothing is published of another one. -/
theorem epoch_values_measured (run : EpochRun) (sampleInterval : Rat) (w : Epoch)
    (h : run.window = some w) :
    ((w.report run.identityUrl sampleInterval).validBoundaries = true →
      run.Quiet ∧
        (∀ phase value,
          (serverValues (some (w.report run.identityUrl sampleInterval))).seconds phase = some value →
          Measured run.snapshots [phase.sumName] value) ∧
        ∀ key value,
          (serverValues (some (w.report run.identityUrl sampleInterval))).counters key = some value →
          Measured run.snapshots key.aliases value) ∧
      ∀ metrics : Option EpochReport, metrics.any EpochReport.validBoundaries = false →
        serverValues metrics = .unpublished := by
  refine ⟨fun hvalid => ?_, fun metrics => serverValues_of_invalid⟩
  have hquiet := validBoundaries_quiet h hvalid
  have hsnapshots := (window_of_stopped hquiet.sampler h).1
  refine ⟨hquiet, fun phase value hvalue => ?_, fun key value hvalue => ?_⟩
  · rw [← hsnapshots]
    rw [serverValues, Option.any_some, hvalid] at hvalue
    dsimp only at hvalue
    split at hvalue
    · exact delta_measured hvalue
    · cases hvalue
  · rw [← hsnapshots]
    rw [serverValues, Option.any_some, hvalid] at hvalue
    dsimp only at hvalue
    split at hvalue
    · exact delta_measured hvalue
    · cases hvalue

/-- An idle server after `tokens` prompt tokens. -/
def idleServer (tokens : Rat) : Snapshot :=
  .ofList [(processStart, .ofList [([], 7)]),
    ("vllm:prompt_tokens_total".toList, .ofList [([], tokens)]),
    ("vllm:num_requests_running".toList, .ofList [([], 0)]),
    ("vllm:num_requests_waiting".toList, .ofList [([], 0)])]

def readBracket (atSeconds tokens : Rat) : Bracket :=
  ⟨.known "f" .null, .read atSeconds (idleServer tokens), .known "f" .null⟩

/-- Twelve tokens, and then four quiet scrapes. -/
def twelveTokens : EpochRun where
  identityUrl := true
  before := readBracket 0 3
  during := [readBracket 1 8]
  sampler := .stopped
  drain := [(readBracket 2 15, false), (readBracket 3 15, false), (readBracket 4 15, false),
    (readBracket 5 15, false)]

theorem epoch_values_measured_twelve : ∃ w, twelveTokens.window = some w ∧
    (serverValues (some (w.report true (1 / 2)))).counters .promptTokens = some 12 ∧
    twelveTokens.Quiet ∧ Measured twelveTokens.snapshots Counter.promptTokens.aliases 12 := by
  have hw : (twelveTokens.window.map fun w => w.validBoundaries true) = some true := by
    decide +kernel
  have hvalue : (twelveTokens.window.map fun w =>
      (serverValues (some (w.report true (1 / 2)))).counters .promptTokens) = some (some 12) := by
    decide +kernel
  obtain ⟨w, hwindow, hvalid⟩ := Option.map_eq_some_iff.1 hw
  rw [hwindow, Option.map_some, Option.some.injEq] at hvalue
  have hmeasured := (epoch_values_measured twelveTokens (1 / 2) w hwindow).1 hvalid
  exact ⟨w, hwindow, hvalue, hmeasured.1, hmeasured.2.2 .promptTokens 12 hvalue⟩

end ReedCode.DynamoMetrics
