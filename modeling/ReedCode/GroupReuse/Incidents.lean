import ReedCode.GroupReuse.Index
import Mathlib.Data.List.DropRight

/-!
# Incidents of a worker

What happens to a worker over a run, as a log that is kept beside the index and that no call
reads.  The log of a worker names its registrations, every failure that a source can raise
and every event the boundary index accepted.

* `incidents` — the incidents a call adds to the log of each worker;
* `logs` — the logs of a run;
* `sinceRegister`, `sinceReset` — the part of a log after the latest registration, and after
  the later of that and the latest accepted clear.
-/

set_option autoImplicit false

namespace ReedCode.GroupReuse

open GroupBoundary (WorkerWithDpRank GroupEvent BlockHashing Unavailable)

inductive Incident where
  | registered (registration : GroupReuseRegistration)
  | retired
  | removed
  | invalidated
  /-- A batch of the current epoch arrived with a cursor above the expected one. -/
  | gap
  | undecoded
  | wrongRank
  /-- A raw event that is positional, has sliding-window data or does not decode. -/
  | unsupported
  /-- The boundary index refused the event. -/
  | rejected
  | accepted
  | cleared
  deriving DecidableEq

namespace Incident

def isRegistered : Incident → Bool
  | registered _ => true
  | _ => false

/-- From here on the boundary index is built anew. -/
def isReset : Incident → Bool
  | registered _ | cleared => true
  | _ => false

end Incident

/-- The incident of an event by the answer of the boundary index. -/
def answered (event : GroupEvent) : Option (Except Unavailable Unit) → Incident
  | some (.ok ()) =>
    match event with
    | .allBlocksCleared _ => .cleared
    | _ => .accepted
  | _ => .rejected

/-! ## Parts of a log -/

def sinceRegister (log : List Incident) : List Incident := log.rtakeWhile (!·.isRegistered)

def sinceReset (log : List Incident) : List Incident := log.rtakeWhile (!·.isReset)

/-- The registration in force. -/
def latestRegistration (log : List Incident) : Option GroupReuseRegistration :=
  log.reverse.findSome? fun
    | .registered registration => some registration
    | _ => none

theorem sinceRegister_append {log : List Incident} : ∀ {is : List Incident},
    (∀ i ∈ is, i.isRegistered = false) → sinceRegister (log ++ is) = sinceRegister log ++ is
  | [], _ => by simp
  | i :: is, h => by
    rw [List.append_cons, sinceRegister_append fun j hj => h j (List.mem_cons_of_mem _ hj),
      sinceRegister, List.rtakeWhile_concat_pos _ _ _ (by simp [h i])]
    simp [sinceRegister]

theorem sinceReset_concat {log : List Incident} {i : Incident} (h : i.isReset = false) :
    sinceReset (log ++ [i]) = sinceReset log ++ [i] := by
  rw [sinceReset, List.rtakeWhile_concat_pos _ _ _ (by simp [h])]
  rfl

theorem latestRegistration_concat {log : List Incident} {i : Incident}
    (h : i.isRegistered = false) : latestRegistration (log ++ [i]) = latestRegistration log := by
  cases i <;> simp_all [latestRegistration, Incident.isRegistered]

@[simp] theorem sinceRegister_registered (log : List Incident) (r : GroupReuseRegistration) :
    sinceRegister (log ++ [.registered r]) = [] :=
  List.rtakeWhile_concat_neg _ _ _ (by simp [Incident.isRegistered])

@[simp] theorem sinceReset_registered (log : List Incident) (r : GroupReuseRegistration) :
    sinceReset (log ++ [.registered r]) = [] :=
  List.rtakeWhile_concat_neg _ _ _ (by simp [Incident.isReset])

@[simp] theorem sinceReset_cleared (log : List Incident) : sinceReset (log ++ [.cleared]) = [] :=
  List.rtakeWhile_concat_neg _ _ _ (by simp [Incident.isReset])

@[simp] theorem latestRegistration_registered (log : List Incident)
    (r : GroupReuseRegistration) : latestRegistration (log ++ [.registered r]) = some r := by
  simp [latestRegistration]

/-! ## The incidents of a call -/

variable {H : Type} [DecidableEq H] (D : Decoding) (U : BlockHashing H)

/-- The outcome of one raw event of a batch. -/
def eventIncident (state : State H) (worker : WorkerWithDpRank) (epoch : UInt64) (raw : Value) :
    Incident :=
  match State.namedEvent D raw with
  | none => .unsupported
  | some event => answered event <| (state.sources.get? worker).bind fun source =>
      (state.index.apply U worker epoch source.nextEvent event).map (·.2)

def eventIncidents (worker : WorkerWithDpRank) (epoch : UInt64) :
    State H → List Value → List Incident
  | _, [] => []
  | state, raw :: raws =>
    eventIncident D U state worker epoch raw ::
      match state.applyEvent D U worker epoch raw with
      | none => []
      | some state' => eventIncidents worker epoch state' raws

/-- The incidents of a batch that is not ignored. -/
def batchIncidents (state : State H) (worker : WorkerWithDpRank) (epoch cursor : UInt64)
    (payload : List UInt8) : List Incident :=
  match state.sources.get? worker with
  | none => []
  | some source =>
    if source.epoch ≠ epoch then []
    else if cursor < source.nextBatch then []
    else
      (if cursor ≠ source.nextBatch then [.gap] else []) ++
        match D.fromSlice payload with
        | none => [.undecoded]
        | some (events, rank) =>
          if State.wrongRank worker rank then [.wrongRank]
          else eventIncidents D U worker epoch (state.receiveCursor worker epoch cursor source)
            events

/-- What a call adds to the log of each worker. -/
def incidents (state : State H) : Call → WorkerWithDpRank → List Incident
  | .register worker _ registration => fun w => if w = worker then [.registered registration] else []
  | .applyBatch worker epoch cursor payload => fun w =>
    if w = worker then batchIncidents D U state worker epoch cursor payload else []
  | .invalidate worker epoch => fun w =>
    if w = worker ∧ (state.sources.get? worker).any (fun s => decide (s.epoch = epoch)) then
      [.invalidated] else []
  | .retire worker => fun w => if w = worker then [.retired] else []
  | .remove worker => fun w => if w = worker then [.removed] else []
  | .removeWorker workerId => fun w => if w.workerId = workerId then [.removed] else []

def logsFrom : State H → (WorkerWithDpRank → List Incident) → List Call →
    WorkerWithDpRank → List Incident
  | _, log, [] => log
  | state, log, call :: calls =>
    match step D U state call with
    | none => log
    | some state' => logsFrom state' (fun w => log w ++ incidents D U state call w) calls

/-- The log of every worker over a run from the empty index. -/
def logs (calls : List Call) : WorkerWithDpRank → List Incident :=
  logsFrom D U .default (fun _ => []) calls

end ReedCode.GroupReuse
