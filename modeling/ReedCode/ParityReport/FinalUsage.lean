import ReedCode.ParityReport.SseRoundTrip

/-!
# The usage a response ends with

* `pyEq_get?` — equal objects have equal fields.
* `anthropicUsage`, `responsesUsage` — what the final event of a stream states.
* `finalAnthropic_ok`, `finalResponses_ok` — when it can be read.
-/

set_option autoImplicit false

namespace ReedCode

/-! ## Fields of equal values -/

namespace Value

theorem lookup_orderedInsert (key : String) (x : String × Value) : ∀ fields : List (String × Value),
    (fields.orderedInsert (fun a b => a.1 ≤ b.1) x).lookup key = (x :: fields).lookup key
  | [] => rfl
  | y :: fields => by
    rw [List.orderedInsert]
    split
    · rfl
    · rename_i hxy
      have hne : (x.1 == y.1) = false := by
        rw [beq_eq_false_iff_ne]
        rintro heq
        exact hxy (heq ▸ String.le_refl x.1)
      rw [List.lookup_cons, lookup_orderedInsert key x fields, List.lookup_cons, List.lookup_cons,
        List.lookup_cons]
      cases hkx : key == x.1 with
      | false => rfl
      | true =>
        rw [eq_of_beq hkx, hne]

theorem lookup_insertionSort (key : String) : ∀ fields : List (String × Value),
    (fields.insertionSort fun a b => a.1 ≤ b.1).lookup key = fields.lookup key
  | [] => rfl
  | x :: fields => by
    rw [List.insertionSort_cons, lookup_orderedInsert, List.lookup_cons, List.lookup_cons,
      lookup_insertionSort key fields]

theorem lookup_normFields (key : String) : ∀ {fields normal : List (String × Value)},
    normFields fields = some normal → normal.lookup key = (fields.lookup key).bind norm
  | [], normal, h => by
    rw [normFields, Option.some.injEq] at h
    rw [← h]
    rfl
  | (k, x) :: fields, normal, h => by
    rw [normFields] at h
    simp only [Option.bind_eq_some_iff, Option.map_eq_some_iff] at h
    obtain ⟨y, hy, rest, hrest, rfl⟩ := h
    rw [List.lookup_cons, List.lookup_cons]
    cases hk : key == k with
    | false => exact lookup_normFields key hrest
    | true => exact hy.symm

/-- **Equal objects have equal fields.** -/
theorem pyEq_get? {a b : Value} (h : a.pyEq b = true) (key : String) :
    (a.get? key).bind norm = (b.get? key).bind norm := by
  have hget : ∀ {v n : Value}, v.norm = some n → (v.get? key).bind norm = n.get? key := by
    intro v n hn
    cases v with
    | dict fields =>
      rw [norm, Option.map_eq_some_iff] at hn
      obtain ⟨normal, hnormal, rfl⟩ := hn
      rw [get?, get?, lookup_insertionSort, lookup_normFields key hnormal]
    | list items =>
      rw [norm, Option.map_eq_some_iff] at hn
      obtain ⟨_, -, rfl⟩ := hn
      rfl
    | ext tag =>
      rw [norm] at hn
      split at hn
      · cases hn
      · cases hn
        rfl
    | _ =>
      cases hn
      rfl
  obtain ⟨n, ha, hb⟩ := pyEq_iff.1 h
  rw [hget ha, hget hb]

theorem norm_eq_str {v : Value} {s : String} : v.norm = some (.str s) ↔ v = .str s := by
  cases v <;> simp [norm]

end Value

namespace ParityReport

theorem hasType_iff {type : String} {event : Value} :
    hasType type event = true ↔ event.get? "type" = some (.str type) := by
  rw [hasType, beq_iff_eq, Value.get]
  cases event.get? "type" <;> simp

/-- Equal events have the same type. -/
theorem hasType_of_pyEq {type : String} {a b : Value} (h : a.pyEq b = true)
    (hb : hasType type b = true) : hasType type a = true := by
  have hfield := Value.pyEq_get? h "type"
  rw [hasType_iff.1 hb, Option.bind_some, Value.norm, Option.bind_eq_some_iff] at hfield
  obtain ⟨v, hv, hnorm⟩ := hfield
  rw [hasType_iff, hv, Value.norm_eq_str.1 hnorm]

theorem isObject_of_hasType {type : String} {event : Value} (h : hasType type event = true) :
    event.isObject = true := by
  rw [hasType_iff] at h
  cases event <;> simp_all [Value.get?, Value.isObject]

/-! ## Fields that may be missing -/

/-- `v or {}`. -/
def orDict (v : Value) : Value := if v.truthy then v else .dict []

/-- What `(v or {}).get(…)` can read. -/
def Readable (v : Value) : Prop := v.truthy = true → v.isObject = true

instance : DecidablePred Readable := fun v =>
  inferInstanceAs (Decidable (v.truthy = true → v.isObject = true))

theorem isObject_orDict {v : Value} : (orDict v).isObject = true ↔ Readable v := by
  rw [orDict, Readable]
  split
  · rename_i h
    exact ⟨fun hobject _ => hobject, fun hread => hread h⟩
  · rename_i h
    exact ⟨fun _ htruthy => absurd htruthy h, fun _ => rfl⟩

theorem get_orDict (v : Value) (key : String) : (orDict v).get key = v.get key := by
  rw [orDict]
  split
  · rfl
  · rename_i h
    cases v with
    | dict fields => cases fields with
      | nil => rfl
      | cons f fields => exact absurd rfl h
    | _ => rfl

theorem fieldOrDict_eq {v : Value} (h : v.isObject = true) (key : String) :
    fieldOrDict v key = .ok (orDict (v.get key)) := by
  rw [fieldOrDict, field, if_pos h]
  rfl

theorem field_eq {v : Value} (h : v.isObject = true) (key : String) :
    field v key .null = .ok (v.get key) := if_pos h

theorem field_orDict {v : Value} (h : Readable v) (key : String) :
    field (orDict v) key .null = .ok (v.get key) := by
  rw [field_eq (isObject_orDict.2 h), get_orDict]

theorem fieldOrDict_orDict {v : Value} (h : Readable v) (key : String) :
    fieldOrDict (orDict v) key = .ok (orDict (v.get key)) := by
  rw [fieldOrDict_eq (isObject_orDict.2 h), get_orDict]

theorem field_error {v : Value} (h : ¬ Readable v) (key : String) :
    field (orDict v) key .null = .error .attributeError :=
  if_neg fun hobject => h (isObject_orDict.1 hobject)

theorem fieldOrDict_error {v : Value} (h : ¬ Readable v) (key : String) :
    fieldOrDict (orDict v) key = .error .attributeError := by
  rw [fieldOrDict, field_error h]
  rfl

/-! ## Final events -/

/-- What the final event of a Messages stream states. -/
def anthropicUsage (final : Value) : Usage :=
  let uncached := count ((final.get "usage").get "input_tokens")
  let cached := count ((final.get "usage").get "cache_read_input_tokens")
  let write := count ((final.get "usage").get "cache_creation_input_tokens")
  ⟨some "completed", (final.get "delta").get "stop_reason",
    match uncached, cached, write with
    | some a, some b, some c => some (a + b + c)
    | _, _, _ => none,
    cached, uncached, write, count ((final.get "usage").get "output_tokens")⟩

/-- What the final event of a Responses stream states. -/
def responsesUsage (final : Value) : Usage :=
  ⟨terminalStatus final, ((final.get "response").get "incomplete_details").get "reason",
    count (((final.get "response").get "usage").get "input_tokens"),
    count ((((final.get "response").get "usage").get "input_tokens_details").get "cached_tokens"),
    none, none, count (((final.get "response").get "usage").get "output_tokens")⟩

/-- The fields of a Messages event that are read. -/
def AnthropicReadable (final : Value) : Prop :=
  Readable (final.get "usage") ∧ Readable (final.get "delta")

/-- The fields of a Responses event that are read. -/
def ResponsesReadable (final : Value) : Prop :=
  Readable (final.get "response") ∧ Readable ((final.get "response").get "incomplete_details") ∧
    Readable ((final.get "response").get "usage") ∧
    Readable (((final.get "response").get "usage").get "input_tokens_details")

/-- The end of `response_usage` for a Messages event. -/
def finalAnthropic (final : Value) : Py (Usage × List String) := do
  let usage ← fieldOrDict final "usage"
  let change ← fieldOrDict final "delta"
  let stopReason ← field change "stop_reason" .null
  let uncached := count (← field usage "input_tokens" .null)
  let cached := count (← field usage "cache_read_input_tokens" .null)
  let write := count (← field usage "cache_creation_input_tokens" .null)
  let output := count (← field usage "output_tokens" .null)
  let input := match uncached, cached, write with
    | some a, some b, some c => some (a + b + c)
    | _, _, _ => none
  let result : Usage := ⟨some "completed", stopReason, input, cached, uncached, write, output⟩
  return (result, (if cached.isNone then
    ["Final Anthropic cache reads absent; stock omits both zero and unknown"] else []) ++
    responseUsage.unknowns result)

/-- The end of `response_usage` for a Responses event. -/
def finalResponses (final : Value) : Py (Usage × List String) := do
  let response ← fieldOrDict final "response"
  let details ← fieldOrDict response "incomplete_details"
  let stopReason ← field details "reason" .null
  let usage ← fieldOrDict response "usage"
  let input ← field usage "input_tokens" .null
  let inputDetails ← fieldOrDict usage "input_tokens_details"
  let cached ← field inputDetails "cached_tokens" .null
  let output ← field usage "output_tokens" .null
  let result : Usage := ⟨terminalStatus final, stopReason, count input, count cached, none,
    none, count output⟩
  return (result, responseUsage.unknowns result)

/-- **The usage is that of the event where its fields can be read, and otherwise nothing is
returned.** -/
theorem finalAnthropic_ok {final : Value} (hobject : final.isObject = true) :
    (∃ usage warnings, finalAnthropic final = .ok (usage, warnings)) ↔ AnthropicReadable final := by
  rw [finalAnthropic, fieldOrDict_eq hobject, fieldOrDict_eq hobject]
  constructor
  · rintro ⟨usage, warnings, h⟩
    by_cases hdelta : Readable (final.get "delta")
    · by_cases husage : Readable (final.get "usage")
      · exact ⟨husage, hdelta⟩
      · simp only [bind, Except.bind, field_orDict hdelta, field_error husage, reduceCtorEq] at h
    · simp only [bind, Except.bind, field_error hdelta, reduceCtorEq] at h
  · rintro ⟨husage, hdelta⟩
    simp only [bind, Except.bind, field_orDict hdelta, field_orDict husage, pure, Except.pure]
    exact ⟨_, _, rfl⟩

theorem finalAnthropic_eq {final : Value} (hobject : final.isObject = true) {usage : Usage}
    {warnings : List String} (h : finalAnthropic final = .ok (usage, warnings)) :
    usage = anthropicUsage final := by
  obtain ⟨husage, hdelta⟩ := (finalAnthropic_ok hobject).1 ⟨usage, warnings, h⟩
  rw [finalAnthropic, fieldOrDict_eq hobject, fieldOrDict_eq hobject] at h
  simp only [bind, Except.bind, field_orDict hdelta, field_orDict husage, pure, Except.pure,
    Except.ok.injEq, Prod.mk.injEq] at h
  exact h.1.symm

theorem finalResponses_ok {final : Value} (hobject : final.isObject = true) :
    (∃ usage warnings, finalResponses final = .ok (usage, warnings)) ↔ ResponsesReadable final := by
  rw [finalResponses, fieldOrDict_eq hobject]
  constructor
  · rintro ⟨usage, warnings, h⟩
    by_cases hresponse : Readable (final.get "response")
    · by_cases hreason : Readable ((final.get "response").get "incomplete_details")
      · by_cases husage : Readable ((final.get "response").get "usage")
        · by_cases hdetails : Readable (((final.get "response").get "usage").get "input_tokens_details")
          · exact ⟨hresponse, hreason, husage, hdetails⟩
          · simp only [bind, Except.bind, fieldOrDict_orDict hresponse, field_orDict hreason,
              field_orDict husage, fieldOrDict_orDict husage, field_error hdetails, reduceCtorEq] at h
        · simp only [bind, Except.bind, fieldOrDict_orDict hresponse, field_orDict hreason,
            field_error husage, reduceCtorEq] at h
      · simp only [bind, Except.bind, fieldOrDict_orDict hresponse, field_error hreason,
          reduceCtorEq] at h
    · simp only [bind, Except.bind, fieldOrDict_error hresponse, reduceCtorEq] at h
  · rintro ⟨hresponse, hreason, husage, hdetails⟩
    simp only [bind, Except.bind, fieldOrDict_orDict hresponse, field_orDict hreason,
      field_orDict husage, fieldOrDict_orDict husage, field_orDict hdetails, pure, Except.pure]
    exact ⟨_, _, rfl⟩

theorem finalResponses_eq {final : Value} (hobject : final.isObject = true) {usage : Usage}
    {warnings : List String} (h : finalResponses final = .ok (usage, warnings)) :
    usage = responsesUsage final := by
  obtain ⟨hresponse, hreason, husage, hdetails⟩ :=
    (finalResponses_ok hobject).1 ⟨usage, warnings, h⟩
  rw [finalResponses, fieldOrDict_eq hobject] at h
  simp only [bind, Except.bind, fieldOrDict_orDict hresponse, field_orDict hreason,
    field_orDict husage, fieldOrDict_orDict husage, field_orDict hdetails, pure, Except.pure,
    Except.ok.injEq, Prod.mk.injEq] at h
  exact h.1.symm

end ParityReport

end ReedCode
