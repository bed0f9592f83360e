import Mathlib.Data.List.Basic

/-!
# Reading items from a stream that arrives in chunks

A reader takes an item off the front of what has been received; what it takes does not depend on
what is received later.

* `drain`, `drain_append` — read all that can be read; reading in two parts is reading at once.
* `arrivals`, `arrivals_items` — every chunk is appended and the items it completes are read; the
  items and what is left do not depend on the chunks.
* `Encodes`, `arrivals_encoded` — encoded items arrive in the chunk that completes them.
-/

set_option autoImplicit false

namespace ReedCode.Streaming

universe u v w

variable {α : Type u} {β : Type v}

/-- A reader of items. -/
structure Reader (α : Type u) (β : Type v) where
  read : List α → Option (β × List α)
  shorter : ∀ {buffer x rest}, read buffer = some (x, rest) → rest.length < buffer.length
  more : ∀ {buffer x rest}, read buffer = some (x, rest) → ∀ later,
    read (buffer ++ later) = some (x, rest ++ later)

variable (R : Reader α β)

/-! ## Draining -/

def drainFor : Nat → List α → List β × List α
  | 0, buffer => ([], buffer)
  | fuel + 1, buffer =>
    match R.read buffer with
    | none => ([], buffer)
    | some (x, rest) => (x :: (drainFor fuel rest).1, (drainFor fuel rest).2)

def drain (buffer : List α) : List β × List α := drainFor R buffer.length buffer

variable {R}

theorem drainFor_none {buffer : List α} (h : R.read buffer = none) :
    ∀ fuel : Nat, drainFor R fuel buffer = ([], buffer)
  | 0 => rfl
  | fuel + 1 => by rw [drainFor, h]

/-- Any fuel does that is enough for the buffer. -/
theorem drainFor_eq : ∀ {fuel : Nat} {buffer : List α}, buffer.length ≤ fuel →
    drainFor R fuel buffer = drain R buffer
  | fuel, buffer, h => by
    cases hread : R.read buffer with
    | none => rw [drain, drainFor_none hread, drainFor_none hread]
    | some item =>
      obtain ⟨x, rest⟩ := item
      have hlen := R.shorter hread
      obtain ⟨n, hn⟩ : ∃ n, buffer.length = n + 1 := ⟨buffer.length - 1, by omega⟩
      obtain ⟨k, rfl⟩ : ∃ k, fuel = k + 1 := ⟨fuel - 1, by omega⟩
      have hk : drainFor R k rest = drain R rest := drainFor_eq (by omega)
      have hb : drainFor R n rest = drain R rest := drainFor_eq (by omega)
      rw [drain, hn, drainFor, drainFor, hread]
      simp only [hk, hb]
termination_by _ buffer => buffer.length

theorem drain_none {buffer : List α} (h : R.read buffer = none) : drain R buffer = ([], buffer) :=
  drainFor_none h _

theorem drain_some {buffer rest : List α} {x : β} (h : R.read buffer = some (x, rest)) :
    drain R buffer = (x :: (drain R rest).1, (drain R rest).2) := by
  have hlen := R.shorter h
  obtain ⟨n, hn⟩ : ∃ n, buffer.length = n + 1 := ⟨buffer.length - 1, by omega⟩
  rw [drain, hn, drainFor, h]
  simp only [drainFor_eq (R := R) (show rest.length ≤ n by omega)]

/-- What is left cannot be read. -/
theorem read_drain (buffer : List α) : R.read (drain R buffer).2 = none := by
  cases hread : R.read buffer with
  | none => rw [drain_none hread, hread]
  | some item =>
    obtain ⟨x, rest⟩ := item
    have hlen := R.shorter hread
    rw [drain_some hread]
    exact read_drain rest
termination_by buffer.length

/-- **Reading in two parts is reading at once.** -/
theorem drain_append (buffer later : List α) :
    drain R (buffer ++ later) =
      ((drain R buffer).1 ++ (drain R ((drain R buffer).2 ++ later)).1,
        (drain R ((drain R buffer).2 ++ later)).2) := by
  cases hread : R.read buffer with
  | none => rw [drain_none hread, List.nil_append]
  | some item =>
    obtain ⟨x, rest⟩ := item
    have hlen := R.shorter hread
    rw [drain_some (R.more hread later), drain_some hread, drain_append rest later]
    rfl
termination_by buffer.length

/-! ## Chunks -/

variable {τ : Type w}

variable (R) in
/-- The items, each with the time of the chunk that completed it, and what is left. -/
def arrivals : List (τ × List α) → List α → List (τ × β) × List α
  | [], buffer => ([], buffer)
  | (time, data) :: chunks, buffer =>
    let drained := drain R (buffer ++ data)
    let later := arrivals chunks drained.2
    (drained.1.map (fun x => (time, x)) ++ later.1, later.2)

/-- **The items do not depend on the chunks.** -/
theorem arrivals_items : ∀ (chunks : List (τ × List α)) {buffer : List α}, R.read buffer = none →
    ((arrivals R chunks buffer).1.map Prod.snd, (arrivals R chunks buffer).2) =
      drain R (buffer ++ (chunks.map Prod.snd).flatten)
  | [], buffer, h => by
    rw [List.map_nil, List.flatten_nil, List.append_nil, drain_none h]
    rfl
  | (time, data) :: chunks, buffer, _ => by
    have ih := arrivals_items chunks (read_drain (R := R) (buffer ++ data))
    rw [List.map_cons, List.flatten_cons, ← List.append_assoc, drain_append, ← ih]
    simp only [arrivals, List.map_append, List.map_map, Function.comp_def, List.map_id']

/-! ## Encoded items -/

/-- The time of the first chunk with which at least `n` symbols have been received. -/
def dueAt : Nat → List (τ × List α) → Nat → Option τ
  | _, [], _ => none
  | got, (time, data) :: chunks, n =>
    if n ≤ got + data.length then some time else dueAt (got + data.length) chunks n

variable {γ : Type w}

/-- Every item with the time it is due; `start` symbols stand in front of the items. -/
def schedule (encode : γ → List α) (out : γ → β) (got : Nat) (chunks : List (τ × List α)) :
    Nat → List γ → List (Option τ × β)
  | _, [] => []
  | start, g :: gs =>
    (dueAt got chunks (start + (encode g).length), out g) ::
      schedule encode out got chunks (start + (encode g).length) gs

theorem length_schedule {encode : γ → List α} {out : γ → β} {got : Nat}
    {chunks : List (τ × List α)} : ∀ {start : Nat} {gs : List γ},
      (schedule encode out got chunks start gs).length = gs.length
  | _, [] => rfl
  | _, g :: gs => by
    rw [schedule, List.length_cons, List.length_cons, length_schedule]

variable {encode : γ → List α} {out : γ → β}

/-- Items that lie in the first chunk are due with it. -/
theorem schedule_first {got : Nat} {time : τ} {data : List α} {chunks : List (τ × List α)}
    {todo : List γ} : ∀ {done : List γ} {start : Nat},
      start + (done.map encode).flatten.length ≤ got + data.length →
      schedule encode out got ((time, data) :: chunks) start (done ++ todo) =
        done.map (fun g => (some time, out g)) ++
          schedule encode out got ((time, data) :: chunks)
            (start + (done.map encode).flatten.length) todo
  | [], _, _ => rfl
  | g :: done, start, h => by
    rw [List.map_cons, List.flatten_cons, List.length_append, ← Nat.add_assoc] at h
    have hg : start + (encode g).length ≤ got + data.length := by omega
    rw [List.cons_append, schedule, dueAt, if_pos hg, schedule_first h, List.map_cons,
      List.map_cons, List.flatten_cons, List.length_append, ← Nat.add_assoc]
    rfl

/-- Items that end behind the first chunk are due later. -/
theorem schedule_later {got : Nat} {time : τ} {data : List α} {chunks : List (τ × List α)} :
    ∀ {todo : List γ} {start : Nat},
      (∀ g ∈ todo.head?, got + data.length < start + (encode g).length) →
      schedule encode out got ((time, data) :: chunks) start todo =
        schedule encode out (got + data.length) chunks start todo
  | [], _, _ => rfl
  | g :: todo, start, h => by
    have hg : got + data.length < start + (encode g).length := h g rfl
    have htodo : ∀ g' ∈ todo.head?,
        got + data.length < start + (encode g).length + (encode g').length := fun g' _ => by omega
    rw [schedule, schedule, dueAt, if_neg (by omega), schedule_later htodo]

/-- What was encoded is read, whatever follows. -/
def Encodes (R : Reader α β) (encode : γ → List α) (out : γ → β) (g : γ) : Prop :=
  ∀ later, R.read (encode g ++ later) = some (out g, later)

/-- Less than an encoded item cannot be read. -/
theorem read_part {g : γ} (hencodes : Encodes R encode out g) {part rest : List α}
    (h : encode g = part ++ rest) (hne : rest ≠ []) : R.read part = none := by
  cases hread : R.read part with
  | none => rfl
  | some item =>
    obtain ⟨x, left⟩ := item
    have hwhole := R.more hread rest
    have hitem := hencodes []
    rw [List.append_nil, h, hwhole, Option.some.injEq, Prod.mk.injEq] at hitem
    exact absurd (List.append_eq_nil_iff.1 hitem.2).2 hne

/-- The complete items at the front of what was received. -/
theorem drain_encoded {tail : List α}
    (htail : ∀ part rest, tail = part ++ rest → R.read part = none) :
    ∀ {gs : List γ} (received rest : List α), (∀ g ∈ gs, Encodes R encode out g) →
      received ++ rest = (gs.map encode).flatten ++ tail →
      ∃ done todo part, gs = done ++ todo ∧ received = (done.map encode).flatten ++ part ∧
        part ++ rest = (todo.map encode).flatten ++ tail ∧
        (∀ g ∈ todo.head?, part.length < (encode g).length) ∧
        drain R received = (done.map out, part)
  | [], received, rest, _, h => by
    refine ⟨[], [], received, rfl, rfl, h, (fun g hg => by cases hg), ?_⟩
    exact drain_none (htail received rest (by simpa using h.symm))
  | g :: gs, received, rest, hencodes, h => by
    have hg := hencodes g List.mem_cons_self
    have hgs : ∀ g' ∈ gs, Encodes R encode out g' :=
      fun g' hg' => hencodes g' (List.mem_cons_of_mem g hg')
    rw [List.map_cons, List.flatten_cons, List.append_assoc] at h
    rcases List.append_eq_append_iff.1 h with ⟨missing, hmissing, hrest⟩ | ⟨part, hpart, hrest⟩
    · by_cases hnil : missing = []
      · subst hnil
        rw [List.append_nil] at hmissing
        obtain ⟨done, todo, part, rfl, hdone, htodo, hhead, hdrain⟩ :=
          drain_encoded htail [] rest hgs (by simpa using hrest)
        refine ⟨g :: done, todo, part, rfl, ?_, htodo, hhead, ?_⟩
        · rw [List.map_cons, List.flatten_cons, List.append_assoc, ← hdone, List.append_nil,
            hmissing]
        · have hread := hg []
          rw [List.append_nil, hmissing] at hread
          rw [drain_some hread, hdrain]
          rfl
      · refine ⟨[], g :: gs, received, rfl, rfl, ?_, ?_, ?_⟩
        · rw [List.map_cons, List.flatten_cons, List.append_assoc]
          exact h
        · intro g' hg'
          cases hg'
          rw [hmissing, List.length_append]
          have hpos := List.length_pos_iff.2 hnil
          omega
        · exact drain_none (read_part hg hmissing hnil)
    · obtain ⟨done, todo, left, rfl, hdone, htodo, hhead, hdrain⟩ :=
        drain_encoded htail part rest hgs hrest.symm
      refine ⟨g :: done, todo, left, rfl, ?_, htodo, hhead, ?_⟩
      · rw [List.map_cons, List.flatten_cons, List.append_assoc, ← hdone, hpart]
      · rw [hpart, drain_some (hg part), hdrain]
        rfl

/-- **Every encoded item arrives in the chunk that completes it.** -/
theorem arrivals_encoded {tail : List α}
    (htail : ∀ part rest, tail = part ++ rest → R.read part = none) :
    ∀ {chunks : List (τ × List α)} {buffer : List α} {gs : List γ} (start : Nat),
      (∀ g ∈ gs, Encodes R encode out g) → R.read buffer = none →
      buffer ++ (chunks.map Prod.snd).flatten = (gs.map encode).flatten ++ tail →
      (arrivals R chunks buffer).1.map (fun x => (some x.1, x.2)) =
        schedule encode out (start + buffer.length) chunks start gs ∧
      (arrivals R chunks buffer).2 = tail
  | [], buffer, gs, start, hencodes, hbuffer, h => by
    cases gs with
    | nil =>
      refine ⟨rfl, ?_⟩
      show buffer = tail
      simpa using h
    | cons g gs =>
      have hread : R.read buffer = some (out g, (gs.map encode).flatten ++ tail) := by
        rw [List.map_nil, List.flatten_nil, List.append_nil] at h
        rw [h, List.map_cons, List.flatten_cons, List.append_assoc]
        exact hencodes g List.mem_cons_self _
      rw [hbuffer] at hread
      cases hread
  | (time, data) :: chunks, buffer, gs, start, hencodes, _, h => by
    rw [List.map_cons, List.flatten_cons, ← List.append_assoc] at h
    obtain ⟨done, todo, part, rfl, hreceived, hrest, hhead, hdrain⟩ :=
      drain_encoded htail (buffer ++ data) _ hencodes h
    have hpart : R.read part = none := by
      have hleft := read_drain (R := R) (buffer ++ data)
      rwa [hdrain] at hleft
    have hlen : buffer.length + data.length =
        (done.map encode).flatten.length + part.length := by
      rw [← List.length_append, hreceived, List.length_append]
    obtain ⟨hitems, hleft⟩ := arrivals_encoded htail
      (start + (done.map encode).flatten.length)
      (fun g hg => hencodes g (List.mem_append_right _ hg)) hpart hrest
    have hgot : start + (done.map encode).flatten.length + part.length =
        start + buffer.length + data.length := by omega
    rw [hgot] at hitems
    have hlater : ∀ g ∈ todo.head?, start + buffer.length + data.length <
        start + (done.map encode).flatten.length + (encode g).length := fun g hg => by
      have hg := hhead g hg
      omega
    refine ⟨?_, ?_⟩
    · rw [schedule_first (by omega), schedule_later hlater, ← hitems]
      simp only [arrivals, hdrain, List.map_append, List.map_map, Function.comp_def]
    · simpa only [arrivals, hdrain] using hleft

end ReedCode.Streaming
