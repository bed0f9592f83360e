import ReedCode.CaptureWorker.Writer

/-!
# Validation of a capture

`validate_capture.py`.

* `validateRows` — the checks on the close status and the rows, in the source's order.
* `validateCapture` — the two files in front of them.
* `validateRows_eq_ok` — what it takes to be accepted.
-/

set_option autoImplicit false

namespace ReedCode.CaptureWorker

/-! ## The checks -/

def isSummary (row : Value) : Bool := (row.get "kind").pyEq (.str "writer_summary")

def kindIs (row : Option Value) (kind : String) : Bool :=
  row.any fun row => (row.get "kind").pyEq (.str kind)

/-- `type(report.get(name)) is not int or report[name] != n`. -/
def countDiffers (report : Value) (n : Nat) (name : String) : Bool := report.get name != .int n

/-- The loop body over the close status and the summary. -/
def checkReport (events : Nat) (report : Value) : Except String Unit := do
  ["attempted_records", "queued_records", "persisted_records"].forM fun name =>
    Except.failIf (countDiffers report events name = true) ("Capture accounting differs: " ++ name)
  ["failed_writes", "dropped_records", "pending_records"].forM fun name =>
    Except.failIf (countDiffers report 0 name = true) ("Capture has failures or pending records: " ++ name)
  Except.failIf ((report.get "failures").pyEq (.list []) = false) "Capture recorded a failure"

/-- The checks behind the reading of both files; what is returned is the process and the number
of events. -/
def validateRows (status : Value) (rows : List Value) : Except String (String × Nat) := do
  Except.failIf (status.isObject = false) "AttributeError"
  Except.failIf (status.get "valid_capture" ≠ .bool true ∨ status.get "summary_written" ≠ .bool true ∨
    (status.get "drain_timeout").truthy = true)
    "Authoritative close status is invalid or incomplete"
  Except.failIf (rows.all Value.isObject = false) "AttributeError"
  let summaries := rows.filter isSummary
  let events := rows.filter fun row => !isSummary row
  -- the last row is the one summary, the same object
  Except.failIf (summaries.length ≠ 1 ∨ kindIs rows.getLast? "writer_summary" = false)
    "Expected exactly one terminal writer summary"
  let footer := summaries.headD .null
  Except.failIf (footer.get "valid_capture" ≠ .bool true) "Writer summary is invalid"
  Except.failIf (kindIs events.head? "capture_start" = false ∨ kindIs events.getLast? "capture_close" = false)
    "Capture start/close records are missing"
  match status.get "capture_process_id" with
  | .str processId =>
    Except.failIf (processId = "" ∨ rows.all (fun row =>
      (row.get "capture_process_id").pyEq (.str processId)) = false) "Capture process identity differs"
    Except.failIf ((Value.list (events.map fun row => row.get "sequence")).pyEq
      (.list ((List.range' 1 events.length).map fun i : Nat => .int i)) = false)
      "Capture event sequence is incomplete"
    [status, footer].forM (checkReport events.length)
    return (processId, events.length)
  | _ => .error "Capture process identity differs"

/-! ## What is accepted -/

def Reported (events : Nat) (report : Value) : Prop :=
  (∀ name ∈ ["attempted_records", "queued_records", "persisted_records"],
    report.get name = .int events) ∧
  (∀ name ∈ ["failed_writes", "dropped_records", "pending_records"], report.get name = .int 0) ∧
  (report.get "failures").pyEq (.list []) = true

theorem checkReport_eq_ok {events : Nat} {report : Value} {u : Unit} :
    checkReport events report = .ok u ↔ Reported events report := by
  simp [checkReport, Reported, Except.bind_eq_ok_iff, countDiffers, and_assoc]

theorem checkReports_eq_ok {events : Nat} {status footer : Value} {u : Unit} :
    [status, footer].forM (checkReport events) = .ok u ↔
      Reported events status ∧ Reported events footer := by
  simp [Except.bind_eq_ok_iff, checkReport_eq_ok]

/-- The rows of a capture: its events, and the summary behind them. -/
structure Accepted (status : Value) (events : List Value) (footer : Value)
    (processId : String) : Prop where
  statusObject : status.isObject = true
  statusValid : status.get "valid_capture" = .bool true
  statusSummary : status.get "summary_written" = .bool true
  noTimeout : (status.get "drain_timeout").truthy = false
  rowsObject : ∀ row ∈ events ++ [footer], row.isObject = true
  footerValid : footer.get "valid_capture" = .bool true
  start : kindIs events.head? "capture_start" = true
  close : kindIs events.getLast? "capture_close" = true
  process : status.get "capture_process_id" = .str processId
  processGiven : processId ≠ ""
  rowsProcess : ∀ row ∈ events ++ [footer],
    (row.get "capture_process_id").pyEq (.str processId) = true
  sequence : (Value.list (events.map fun row => row.get "sequence")).pyEq
    (.list ((List.range' 1 events.length).map fun i : Nat => .int i)) = true
  statusReport : Reported events.length status
  footerReport : Reported events.length footer

theorem validateRows_eq_ok {status footer : Value} {events : List Value} {result : String × Nat}
    (hevents : ∀ row ∈ events, isSummary row = false) (hfooter : isSummary footer = true) :
    validateRows status (events ++ [footer]) = .ok result ↔
      Accepted status events footer result.1 ∧ result.2 = events.length := by
  have hsummaries : (events ++ [footer]).filter isSummary = [footer] := by
    rw [List.filter_append, List.filter_eq_nil_iff.2 fun row hrow => by simp [hevents row hrow]]
    simp [hfooter]
  have hrest : (events ++ [footer]).filter (fun row => !isSummary row) = events := by
    rw [List.filter_append, List.filter_eq_self.2 fun row hrow => by simp [hevents row hrow]]
    simp [hfooter]
  have hlast : kindIs (events ++ [footer]).getLast? "writer_summary" = true := by
    rw [List.getLast?_concat]
    exact hfooter
  unfold validateRows
  simp only [hsummaries, hrest, hlast, Except.bind_eq_ok_iff, Except.failIf_eq_ok]
  constructor
  · rintro ⟨_, hobject, _, hstatus, _, hrows, _, -, _, hvalid, _, hends, h⟩
    split at h
    · rename_i processId hprocess
      simp only [Except.bind_eq_ok_iff, Except.failIf_eq_ok, List.headD_cons,
        checkReports_eq_ok] at h
      obtain ⟨_, hidentity, _, hsequence, _, ⟨hstatusReport, hfooterReport⟩, hresult⟩ := h
      cases hresult
      simp only [not_or, ne_eq, Bool.not_eq_false, Bool.not_eq_true, not_not] at hobject hstatus
      simp only [not_or, Bool.not_eq_false, not_not, ne_eq, List.headD_cons] at hrows hvalid hends
      simp only [not_or, Bool.not_eq_false] at hidentity hsequence
      exact ⟨⟨hobject, hstatus.1, hstatus.2.1, hstatus.2.2, List.all_eq_true.1 hrows, hvalid,
        hends.1, hends.2, hprocess, hidentity.1, List.all_eq_true.1 hidentity.2, hsequence,
        hstatusReport, hfooterReport⟩, rfl⟩
    · cases h
  · rintro ⟨h, hlength⟩
    obtain ⟨processId, n⟩ := result
    cases hlength
    refine ⟨(), by simp [h.statusObject], (), by simp [h.statusValid, h.statusSummary, h.noTimeout],
      (), by simpa using List.all_eq_true.2 h.rowsObject, (), by simp, (), by simp [h.footerValid],
      (), by simp [h.start, h.close], ?_⟩
    rw [h.process]
    simp only [Except.bind_eq_ok_iff, Except.failIf_eq_ok, List.headD_cons, checkReports_eq_ok]
    have hidentity := List.all_eq_true.2 h.rowsProcess
    exact ⟨(), by simp [h.processGiven, hidentity], (), by simp [h.sequence], (),
      ⟨h.statusReport, h.footerReport⟩, rfl⟩

/-! ## The files -/

/-- `validate_capture(path, status_path)`; `read` gives the text of a file. -/
def validateCapture (J : Json) (read : String → Except String Text) (path : String)
    (statusPath : Option String) : Except String Value := do
  let statusPath := match statusPath with
    | some statusPath => if statusPath = "" then path ++ ".close.json" else statusPath
    | none => path ++ ".close.json"
  let status ← J.loads (← read statusPath)
  let rows ← (Lines.splitlines (← read path)).mapM J.loads
  let (processId, events) ← validateRows status rows
  return .dict [("valid_capture", .bool true), ("capture_process_id", .str processId),
    ("event_records", .int events), ("events_path", .str path),
    ("close_status_path", .str statusPath)]

end ReedCode.CaptureWorker
