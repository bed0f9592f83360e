import ReedCode.GroupReuse.Index

/-!
# Event endpoints

The endpoint history of the index (`check_source` and `bind_source`), under any interleaving of
their lock-protected sections.

* `Bindings` — the history, the calls between their two sections, and the calls that returned;
* `Rechecked` — the check of a call would still pass when its insert section runs;
* `endpoints_one_engine_iff` — an endpoint is bound to one engine, and the history keeps its
  limit, exactly in the runs whose insert sections are all rechecked.
-/

set_option autoImplicit false

namespace ReedCode.GroupReuse

open GroupBoundary (WorkerWithDpRank)

/-! ## The sections -/

/-- The arguments of `check_source` and of `bind_source`. -/
structure BindSource where
  worker : WorkerWithDpRank
  endpoint : String
  registration : GroupReuseRegistration
  deriving DecidableEq

abbrev EndpointHistory := FinMap String (WorkerWithDpRank × GroupReuseRegistration)

/-- `GroupReuseIndex::check_source`. -/
def checkSource (endpoints : EndpointHistory) (call : BindSource) : Except String Unit :=
  match endpoints.get? call.endpoint with
  | some (previousWorker, previous) =>
    Except.failIf (previousWorker ≠ call.worker || previous ≠ call.registration)
      "group_reuse requires an event endpoint unique to this engine incarnation and roster"
  | none => Except.failIf (endpoints.size ≥ 100000) "group_reuse endpoint history limit reached"

/-- The second section of `bind_source`: `entry(..).or_insert_with(..)`. -/
def insertSource (endpoints : EndpointHistory) (call : BindSource) : EndpointHistory :=
  if endpoints.contains call.endpoint then endpoints
  else endpoints.insert call.endpoint (call.worker, call.registration)

/-- The history with the calls of `bind_source` whose check passed, and those that returned
`Ok`. -/
structure Bindings where
  endpoints : EndpointHistory
  checked : List BindSource
  bound : List BindSource

namespace Bindings

def initial : Bindings := ⟨.empty, [], []⟩

/-- A lock-protected section: a lone check, or the first or the second of a `bind_source`. -/
inductive Section where
  | check (call : BindSource)
  | begin (call : BindSource)
  | insert (i : Nat)

/-- One section; there is no second section without a first. -/
def step (s : Bindings) : Section → Option Bindings
  | .check _ => some s
  | .begin call =>
    match checkSource s.endpoints call with
    | .ok () => some { s with checked := s.checked ++ [call] }
    | .error _ => some s
  | .insert i =>
    match s.checked[i]? with
    | none => none
    | some call => some
      { endpoints := insertSource s.endpoints call
        checked := s.checked.eraseIdx i
        bound := s.bound ++ [call] }

/-- Calls that returned `Ok` for one endpoint agree on its engine. -/
def OneEngine (s : Bindings) : Prop :=
  ∀ call ∈ s.bound, ∀ call' ∈ s.bound, call.endpoint = call'.endpoint →
    call.worker = call'.worker ∧ call.registration = call'.registration

/-- The check of a call still passes when its insert section runs. -/
def Rechecked (s : Bindings) : Section → Prop
  | .insert i => ∀ call, s.checked[i]? = some call → checkSource s.endpoints call = .ok ()
  | .check _ | .begin _ => True

/-! ## What a section changes -/

variable {s s' : Bindings} {call : BindSource}

theorem checkSource_eq_ok {endpoints : EndpointHistory} :
    checkSource endpoints call = .ok () ↔
      endpoints.get? call.endpoint = some (call.worker, call.registration) ∨
        endpoints.get? call.endpoint = none ∧ endpoints.size < 100000 := by
  unfold checkSource
  split
  · rename_i worker registration hfound
    rw [Except.failIf_eq_ok, hfound]
    simp
  · rename_i hnone
    rw [Except.failIf_eq_ok, hnone]
    simp

/-- **The outcomes of a section**: nothing, a call checked, or a call bound. -/
theorem step_cases {a : Section} (h : s.step a = some s') :
    s'.endpoints = s.endpoints ∧ s'.bound = s.bound ∧ (∀ i, a ≠ .insert i) ∨
    ∃ i call, a = .insert i ∧ s.checked[i]? = some call ∧
      s'.endpoints = insertSource s.endpoints call ∧ s'.bound = s.bound ++ [call] := by
  cases a with
  | check call =>
    cases h
    exact .inl ⟨rfl, rfl, fun _ h => by cases h⟩
  | begin call =>
    simp only [Bindings.step] at h
    split at h <;> cases h <;> exact .inl ⟨rfl, rfl, fun _ h => by cases h⟩
  | insert i =>
    simp only [Bindings.step] at h
    split at h
    · cases h
    · rename_i call hcall
      cases h
      exact .inr ⟨i, call, rfl, hcall, rfl, rfl⟩

theorem get?_insertSource (endpoints : EndpointHistory) (call : BindSource) (endpoint : String) :
    (insertSource endpoints call).get? endpoint =
      if call.endpoint = endpoint then
        some ((endpoints.get? endpoint).getD (call.worker, call.registration))
      else endpoints.get? endpoint := by
  unfold insertSource
  split
  · rename_i hthere
    split
    · rename_i he
      subst he
      rw [FinMap.contains_eq_isSome] at hthere
      obtain ⟨engine, hengine⟩ := Option.isSome_iff_exists.1 hthere
      rw [hengine]
      rfl
    · rfl
  · rename_i habsent
    rw [FinMap.get?_insert]
    split
    · rename_i he
      subst he
      rw [FinMap.contains_eq_isSome, Bool.not_eq_true, Option.isSome_eq_false_iff,
        Option.isNone_iff_eq_none] at habsent
      rw [habsent]
      rfl
    · rfl

theorem size_le_insertSource (endpoints : EndpointHistory) (call : BindSource) :
    endpoints.size ≤ (insertSource endpoints call).size := by
  unfold insertSource
  split
  · exact Nat.le_refl _
  · exact FinMap.size_le_size_insert _ _ _

/-- Every endpoint was bound by a call that returned. -/
def FromBound (s : Bindings) : Prop :=
  ∀ endpoint worker registration, s.endpoints.get? endpoint = some (worker, registration) →
    ⟨worker, endpoint, registration⟩ ∈ s.bound

theorem FromBound.step {a : Section} (hf : FromBound s) (h : s.step a = some s') :
    FromBound s' := by
  rcases step_cases h with ⟨hendpoints, hbound, -⟩ | ⟨i, call, -, -, hendpoints, hbound⟩
  · rw [FromBound, hendpoints, hbound]
    exact hf
  · intro endpoint worker registration hget
    rw [hendpoints, get?_insertSource] at hget
    rw [hbound]
    split at hget
    · rename_i he
      cases hold : s.endpoints.get? endpoint with
      | some engine =>
        rw [hold] at hget
        cases hget
        exact List.mem_append_left _ (hf endpoint worker registration hold)
      | none =>
        rw [hold] at hget
        cases hget
        subst he
        exact List.mem_append_right _ List.mem_cons_self
    · exact List.mem_append_left _ (hf endpoint worker registration hget)

/-- The bound calls and the history only grow. -/
theorem grows : ∀ {sections : List Section} {s s' : Bindings},
    Runs.run step s sections = some s' →
      (∀ call ∈ s.bound, call ∈ s'.bound) ∧ s.endpoints.size ≤ s'.endpoints.size
  | [], s, s', hr => by
    rw [Runs.run_nil, Option.some.injEq] at hr
    exact hr ▸ ⟨fun _ h => h, Nat.le_refl _⟩
  | a :: sections, s, s', hr => by
    obtain ⟨s₁, h₁, h₂⟩ := (Runs.run_cons_eq_some _).1 hr
    obtain ⟨hsub, hsize⟩ := grows h₂
    rcases step_cases h₁ with ⟨hendpoints, hbound, -⟩ | ⟨i, call, -, -, hendpoints, hbound⟩
    · rw [hbound] at hsub
      rw [hendpoints] at hsize
      exact ⟨hsub, hsize⟩
    · rw [hbound] at hsub
      rw [hendpoints] at hsize
      exact ⟨fun c hc => hsub c (List.mem_append_left _ hc),
        (size_le_insertSource _ _).trans hsize⟩

/-! ## Rechecked runs -/

/-- The history has every bound call, and its limit. -/
structure Kept (s : Bindings) : Prop where
  bound : ∀ call ∈ s.bound,
    s.endpoints.get? call.endpoint = some (call.worker, call.registration)
  limit : s.endpoints.size ≤ 100000

theorem Kept.step {a : Section} (hk : Kept s) (hc : Rechecked s a) (h : s.step a = some s') :
    Kept s' := by
  rcases step_cases h with ⟨hendpoints, hbound, -⟩ | ⟨i, call, rfl, hcall, hendpoints, hbound⟩
  · refine ⟨?_, hendpoints ▸ hk.limit⟩
    rw [hendpoints, hbound]
    exact hk.bound
  · have hcheck := checkSource_eq_ok.1 (hc call hcall)
    refine ⟨fun c hcb => ?_, ?_⟩
    · rw [hbound] at hcb
      rw [hendpoints, get?_insertSource]
      rcases List.mem_append.1 hcb with hold | hnew
      · have hget := hk.bound c hold
        split
        · rw [hget]
          rfl
        · exact hget
      · rw [List.mem_singleton.1 hnew, if_pos rfl]
        rcases hcheck with hsame | ⟨hnone, -⟩
        · rw [hsame]
          rfl
        · rw [hnone]
          rfl
    · rw [hendpoints]
      unfold insertSource
      rcases hcheck with hsame | ⟨hnone, hlt⟩
      · rw [FinMap.contains_eq_isSome, hsame]
        exact hk.limit
      · rw [FinMap.contains_eq_isSome, hnone, if_neg (by simp), FinMap.size_insert_of_none hnone]
        exact hlt

theorem Kept.oneEngine (hk : Kept s) : OneEngine s := by
  intro call hcall call' hcall' he
  have hget := hk.bound call hcall
  rw [he, hk.bound call' hcall', Option.some.injEq, Prod.mk.injEq] at hget
  exact ⟨hget.1.symm, hget.2.symm⟩

/-- A call bound without a second look breaks one of the two laws. -/
theorem rechecked_of_lawful {a : Section} (hf : FromBound s) (h : s.step a = some s')
    (hone : OneEngine s') (hlimit : s'.endpoints.size ≤ 100000) : Rechecked s a := by
  rcases step_cases h with ⟨-, -, hother⟩ | ⟨i, call, rfl, hcall, hendpoints, hbound⟩
  · cases a with
    | insert i => exact absurd rfl (hother i)
    | check call => trivial
    | begin call => trivial
  · intro c hc
    rw [hcall] at hc
    cases hc
    rw [checkSource_eq_ok]
    cases hget : s.endpoints.get? call.endpoint with
    | none =>
      refine .inr ⟨rfl, ?_⟩
      rw [hendpoints, insertSource, FinMap.contains_eq_isSome, hget, if_neg (by simp),
        FinMap.size_insert_of_none hget] at hlimit
      exact hlimit
    | some engine =>
      obtain ⟨worker, registration⟩ := engine
      have hold := hf call.endpoint worker registration hget
      rw [OneEngine, hbound] at hone
      obtain ⟨hworker, hregistration⟩ := hone _ (List.mem_append_left _ hold) call
        (List.mem_append_right _ List.mem_cons_self) rfl
      exact .inl (by rw [← hworker, ← hregistration])

theorem allRechecked_of_lawful : ∀ {sections : List Section} {s s' : Bindings}, FromBound s →
    Runs.run step s sections = some s' → OneEngine s' → s'.endpoints.size ≤ 100000 →
      Runs.AllSteps step Rechecked s sections
  | [], _, _, _, _, _, _ => trivial
  | a :: sections, s, s', hf, hr, hone, hlimit => by
    obtain ⟨s₁, h₁, h₂⟩ := (Runs.run_cons_eq_some _).1 hr
    obtain ⟨hsub, hsize⟩ := grows h₂
    have hone₁ : OneEngine s₁ := fun c hc c' hc' he => hone c (hsub c hc) c' (hsub c' hc') he
    refine ⟨rechecked_of_lawful hf h₁ hone₁ (hsize.trans hlimit), fun s₂ hs₂ => ?_⟩
    rw [h₁] at hs₂
    cases hs₂
    exact allRechecked_of_lawful (hf.step h₁) h₂ hone hlimit

/-- **An endpoint is bound to one engine only**, and the history keeps its limit, exactly in
the runs in which every insert section comes while its check would still pass. -/
theorem endpoints_one_engine_iff {sections : List Section} {s : Bindings}
    (hr : Runs.run step initial sections = some s) :
    OneEngine s ∧ s.endpoints.size ≤ 100000 ↔ Runs.AllSteps step Rechecked initial sections := by
  constructor
  · rintro ⟨hone, hlimit⟩
    exact allRechecked_of_lawful (fun _ _ _ h => by cases h) hr hone hlimit
  · intro hrechecked
    have hinitial : Kept initial := ⟨fun _ h => (by cases h), Nat.zero_le _⟩
    have hkept := Runs.allSteps_induction (fun _ _ _ hk hc h => Kept.step hk hc h) hinitial
      hrechecked hr
    exact ⟨hkept.oneEngine, hkept.limit⟩

/-! ## Two callers -/

/-- An engine of worker `workerId` behind one endpoint. -/
def tcpSource (workerId : UInt64) : BindSource :=
  ⟨⟨workerId, 0⟩, "tcp://127.0.0.1:12345", ⟨1, "9d32136b-84c4-4ddf-9ce4-f4a6813f1b64", 2,
    "vllm_44488_v1", [⟨0, .mamba, 2, none⟩]⟩⟩

/-- One caller after the other: the second is refused. -/
theorem endpoints_one_engine_iff_apart : ∃ s,
    Runs.run step initial [.begin (tcpSource 1), .insert 0, .begin (tcpSource 2)] = some s ∧
    OneEngine s ∧ s.endpoints.size ≤ 100000 := by
  obtain ⟨s, hr⟩ : ∃ s, Runs.run step initial
      [.begin (tcpSource 1), .insert 0, .begin (tcpSource 2)] = some s := ⟨_, rfl⟩
  refine ⟨s, hr, (endpoints_one_engine_iff hr).2 ⟨trivial, fun s₁ h₁ => ?_⟩⟩
  cases h₁
  refine ⟨fun call hcall => ?_, fun s₂ _ => ⟨trivial, fun _ _ => trivial⟩⟩
  cases hcall
  decide

/-- Two callers whose checks both come before their inserts: both return `Ok`. -/
theorem endpoint_bound_twice : ∃ s,
    Runs.run step initial
      [.begin (tcpSource 1), .begin (tcpSource 2), .insert 0, .insert 0] = some s ∧
    tcpSource 1 ∈ s.bound ∧ tcpSource 2 ∈ s.bound ∧
    (tcpSource 1).endpoint = (tcpSource 2).endpoint ∧
    (tcpSource 1).worker ≠ (tcpSource 2).worker :=
  ⟨_, rfl, by decide, by decide, rfl, by decide⟩

end Bindings

end ReedCode.GroupReuse
