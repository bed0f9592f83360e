import ReedCode.MetricsIdentity.Sidecar
import ReedCode.PyValue
import Mathlib.Data.String.Basic

/-!
# The client of the sidecar

`validate_identity` of `metrics_identity.py`.

* `Accepts` — what an accepted body holds; `received_eq_ok_iff` says that nothing else is accepted.
* `validateIdentity_reordered` — the order of processes, engines and inodes does not count.
* `sameIdentity_of_eq` — bodies with one fingerprint hold the same.

Every exception of the checks becomes one error.  `fingerprint` is SHA-256 of the JSON text with
sorted keys.
-/

set_option autoImplicit false

namespace ReedCode.MetricsIdentity

open Descendants

/-! ## The checks -/

/-- What is read from the items of a permuted list is permuted. -/
theorem mapM_perm {α β : Type} {f : α → Option β} {xs ys : List α} (h : xs.Perm ys) :
    ∀ {as : List β}, xs.mapM f = some as → ∃ bs, ys.mapM f = some bs ∧ as.Perm bs := by
  induction h with
  | nil =>
    intro as has
    exact ⟨as, has, .refl _⟩
  | @cons x xs ys _ ih =>
    intro as has
    simp only [List.mapM_cons, Option.bind_eq_bind, Option.bind_eq_some_iff, Option.pure_def,
      Option.some.injEq] at has ⊢
    obtain ⟨a, ha, rest, hrest, rfl⟩ := has
    obtain ⟨bs, hbs, hperm⟩ := ih hrest
    exact ⟨a :: bs, ⟨a, ha, bs, hbs, rfl⟩, hperm.cons a⟩
  | swap x y xs =>
    intro as has
    simp only [List.mapM_cons, Option.bind_eq_bind, Option.bind_eq_some_iff, Option.pure_def,
      Option.some.injEq] at has ⊢
    obtain ⟨a, ha, _, ⟨b, hb, rest, hrest, rfl⟩, rfl⟩ := has
    exact ⟨b :: a :: rest, ⟨b, hb, _, ⟨a, ha, rest, hrest, rfl⟩, rfl⟩, .swap b a rest⟩
  | trans _ _ ih ih' =>
    intro as has
    obtain ⟨bs, hbs, hperm⟩ := ih has
    obtain ⟨cs, hcs, hperm'⟩ := ih' hbs
    exact ⟨cs, hcs, hperm.trans hperm'⟩

def invalid : String := "Invalid identity response"

def need {α : Type} : Option α → Except String α
  | some a => .ok a
  | none => .error invalid

theorem need_eq_ok {α : Type} {x : Option α} {a : α} : need x = .ok a ↔ x = some a := by
  cases x <;> simp [need]

def asInt : Value → Option Int
  | .int n => some n
  | _ => none

def asList : Value → Option (List Value)
  | .list items => some items
  | _ => none

/-- An object with these three fields and no other, all of them integers. -/
def asProcess : Value → Option Process
  | .dict fields => do
    let pid ← (fields.lookup "pid").bind asInt
    let parentPid ← (fields.lookup "parent_pid").bind asInt
    let startTicks ← (fields.lookup "start_ticks").bind asInt
    if fields.all fun f => f.1 ∈ ["pid", "parent_pid", "start_ticks"] then
      return ⟨pid, parentPid, startTicks⟩
    else none
  | _ => none

def asStrings (items : List Value) : Option (List String) := items.mapM Value.asStr?

/-- What is read from a body. -/
structure Identity where
  schemaVersion : Value
  bootId : String
  monitorId : String
  backendPid : Int
  enginePids : List Int
  processes : List Process
  metricsPort : Int
  metricsSocketInodes : List String
  deriving DecidableEq, Repr

section Validate

variable (P : Python)

/-- A string that `uuid.UUID` takes. -/
def asUuid : Value → Option String
  | .str s => if P.uuid s.toList then some s else none
  | _ => none

/-- `i.isdecimal() and int(i) > 0`. -/
def isInode (inode : String) : Bool :=
  isDecimal P inode.toList && (P.int inode.toList).any (0 < ·)

def received (body : Value) (challenge : String) : Except String Identity := do
  Except.failIf (body.isObject = false ∨ (body.get "challenge").pyEq (.str challenge) = false ∨
    (body.get "schema_version").pyEq (.int 1) = false) invalid
  let bootId ← need ((body.get? "boot_id").bind (asUuid P))
  let monitorId ← need ((body.get? "monitor_id").bind (asUuid P))
  let metricsPort ← need ((body.get? "metrics_port").bind asInt)
  Except.failIf (¬ (1 ≤ metricsPort ∧ metricsPort ≤ 65535)) invalid
  let items ← need ((body.get? "processes").bind asList)
  Except.failIf (items = []) invalid
  let processes ← need (items.mapM asProcess)
  Except.failIf (∃ p ∈ processes, p.pid ≤ 0 ∨ p.parentPid < 0 ∨ p.startTicks < 0) invalid
  let pids := processes.map (·.pid)
  Except.failIf (¬ pids.Nodup) invalid
  let backendPid ← need ((body.get? "backend_pid").bind asInt)
  let engines ← need ((body.get? "engine_pids").bind asList)
  Except.failIf (backendPid ∉ pids ∨ engines = []) invalid
  let enginePids ← need (engines.mapM asInt)
  Except.failIf (∃ pid ∈ enginePids, pid ∉ pids ∨ pid = backendPid) invalid
  let reachable := closure Process.pid Process.parentPid processes backendPid
  Except.failIf (¬ (reachable ⊆ pids ∧ pids ⊆ reachable) ∨ ¬ enginePids.Nodup) invalid
  let sockets ← need ((body.get? "metrics_socket_inodes").bind asList)
  Except.failIf (sockets = []) invalid
  let metricsSocketInodes ← need (asStrings sockets)
  Except.failIf (∃ inode ∈ metricsSocketInodes, isInode P inode = false) invalid
  return ⟨body.get "schema_version", bootId, monitorId, backendPid, enginePids, processes,
    metricsPort, metricsSocketInodes⟩

/-- `identity`, its keys sorted as they are written. -/
def Identity.value (identity : Identity) : Value :=
  .dict [("backend_pid", .int identity.backendPid), ("boot_id", .str identity.bootId),
    ("engine_pids", .list ((identity.enginePids.insertionSort (· ≤ ·)).map .int)),
    ("metrics_port", .int identity.metricsPort),
    ("metrics_socket_inodes",
      .list ((identity.metricsSocketInodes.insertionSort (· ≤ ·)).map .str)),
    ("monitor_id", .str identity.monitorId),
    ("processes", .list ((identity.processes.insertionSort fun a b => a.pid ≤ b.pid).map fun p =>
      .dict [("parent_pid", .int p.parentPid), ("pid", .int p.pid),
        ("start_ticks", .int p.startTicks)])),
    ("schema_version", identity.schemaVersion)]

def validateIdentity {D : Type} (fingerprint : Value → D) (body : Value) (challenge : String) :
    Except String D := do
  let identity ← received P body challenge
  return fingerprint identity.value

end Validate

/-! ## Accepted bodies -/

/-- What an accepted body holds. -/
structure Accepts (P : Python) (body : Value) (challenge : String) (id : Identity) : Prop where
  object : body.isObject = true
  challenge : (body.get "challenge").pyEq (.str challenge) = true
  schema : (body.get "schema_version").pyEq (.int 1) = true
  schemaVersion : body.get "schema_version" = id.schemaVersion
  bootId : (body.get? "boot_id").bind (asUuid P) = some id.bootId
  monitorId : (body.get? "monitor_id").bind (asUuid P) = some id.monitorId
  metricsPort : (body.get? "metrics_port").bind asInt = some id.metricsPort
  port : 1 ≤ id.metricsPort ∧ id.metricsPort ≤ 65535
  processes : ∃ items, (body.get? "processes").bind asList = some items ∧ items ≠ [] ∧
    items.mapM asProcess = some id.processes
  numbers : ∀ p ∈ id.processes, 0 < p.pid ∧ 0 ≤ p.parentPid ∧ 0 ≤ p.startTicks
  unique : (id.processes.map (·.pid)).Nodup
  backendPid : (body.get? "backend_pid").bind asInt = some id.backendPid
  backend : id.backendPid ∈ id.processes.map (·.pid)
  enginePids : ∃ items, (body.get? "engine_pids").bind asList = some items ∧ items ≠ [] ∧
    items.mapM asInt = some id.enginePids
  engines : ∀ pid ∈ id.enginePids, pid ∈ id.processes.map (·.pid) ∧ pid ≠ id.backendPid
  engines_nodup : id.enginePids.Nodup
  reachable : ∀ pid ∈ id.processes.map (·.pid),
    Descends Process.pid Process.parentPid id.processes id.backendPid pid
  inodes : ∃ items, (body.get? "metrics_socket_inodes").bind asList = some items ∧ items ≠ [] ∧
    asStrings items = some id.metricsSocketInodes
  positive : ∀ inode ∈ id.metricsSocketInodes, isInode P inode = true

section Accepts

variable {P : Python} {body body' : Value} {challenge : String} {id : Identity}

/-- What descends from the backend is one of the processes, if the backend is. -/
theorem closure_subset {processes : List Process} {backend : Int}
    (h : backend ∈ processes.map (·.pid)) :
    closure Process.pid Process.parentPid processes backend ⊆ processes.map (·.pid) := by
  intro pid hpid
  cases mem_closure.1 hpid with
  | root => exact h
  | child ha _ => exact List.mem_map_of_mem ha

/-- **Nothing else is accepted.** -/
theorem received_eq_ok_iff : received P body challenge = .ok id ↔ Accepts P body challenge id := by
  simp only [received, Except.bind_eq_ok_iff, Except.failIf_eq_ok, need_eq_ok, pure, Except.pure,
    Except.ok.injEq]
  constructor
  · rintro ⟨-, hhead, bootId, hboot, monitorId, hmonitor, port, hport, -, hrange, items, hitems, -,
      hne, processes, hprocesses, -, hnumbers, -, hunique, backend, hbackend, engines, hengines, -,
      hmember, enginePids, hpids, -, hours, -, hreach, sockets, hsockets, -, hsome, inodes, hinodes,
      -, hpositive, rfl⟩
    simp only [not_or, not_exists, not_and, not_lt, not_le, Bool.not_eq_false] at hhead hnumbers
    simp only [not_or, not_exists, not_and, not_not] at hunique hmember hours
    rw [not_not] at hrange
    rw [not_or, not_not, not_not] at hreach
    simp only [not_exists, not_and, Bool.not_eq_false] at hpositive
    obtain ⟨⟨hsub, hreachable⟩, hnodup⟩ := hreach
    exact ⟨hhead.1, hhead.2.1, hhead.2.2, rfl, hboot, hmonitor, hport, hrange,
      ⟨items, hitems, hne, hprocesses⟩, hnumbers, hunique, hbackend, hmember.1,
      ⟨engines, hengines, hmember.2, hpids⟩, hours, hnodup,
      fun pid hpid => mem_closure.1 (hreachable hpid), ⟨sockets, hsockets, hsome, hinodes⟩,
      hpositive⟩
  · intro h
    obtain ⟨items, hitems, hne, hprocesses⟩ := h.processes
    obtain ⟨engines, hengines, hsomeEngine, hpids⟩ := h.enginePids
    obtain ⟨sockets, hsockets, hsome, hinodes⟩ := h.inodes
    refine ⟨(), ?_, id.bootId, h.bootId, id.monitorId, h.monitorId, id.metricsPort, h.metricsPort, (),
      not_not.2 h.port, items, hitems, (), hne, id.processes, hprocesses, (), ?_, (),
      not_not.2 h.unique, id.backendPid, h.backendPid, engines, hengines, (), ?_, id.enginePids,
      hpids, (), ?_, (), ?_, sockets, hsockets, (), hsome, id.metricsSocketInodes, hinodes, (), ?_, ?_⟩
    · simp only [not_or, Bool.not_eq_false]
      exact ⟨h.object, h.challenge, h.schema⟩
    · simp only [not_or, not_exists, not_and, not_lt, not_le]
      exact h.numbers
    · simp only [not_or, not_not]
      exact ⟨h.backend, hsomeEngine⟩
    · simp only [not_or, not_exists, not_and, not_not]
      exact h.engines
    · simp only [not_or, not_not]
      exact ⟨⟨closure_subset h.backend, fun pid hpid => mem_closure.2 (h.reachable pid hpid)⟩,
        h.engines_nodup⟩
    · simp only [not_exists, not_and, Bool.not_eq_false]
      exact h.positive
    · rw [h.schemaVersion]

/-- Every rejection is the same. -/
theorem validateIdentity_error {D : Type} {fingerprint : Value → D} {e : String}
    (h : validateIdentity P fingerprint body challenge = .error e) : e = invalid := by
  have hneed : ∀ {α : Type} {x : Option α} {e : String}, need x = .error e → e = invalid := by
    intro α x e hx
    cases x with
    | none =>
      cases hx
      rfl
    | some a => cases hx
  have hfail : ∀ {c : Prop} [Decidable c] {e : String},
      Except.failIf c invalid = .error e → e = invalid := by
    intro c _ e hc
    unfold Except.failIf at hc
    split at hc
    · cases hc
      rfl
    · cases hc
  rw [validateIdentity, Except.bind_eq_error_iff] at h
  rcases h with h | ⟨identity, -, h⟩
  · unfold received at h
    repeat
      rw [Except.bind_eq_error_iff] at h
      rcases h with h | ⟨_, -, h⟩
      · first
          | exact hneed h
          | exact hfail h
    cases h
  · cases h

/-! ## Reordered bodies -/

/-- The same body, up to the order of these lists. -/
structure Reordered (body body' : Value) : Prop where
  object : body'.isObject = body.isObject
  fields : ∀ key ∉ ["processes", "engine_pids", "metrics_socket_inodes"],
    body'.get? key = body.get? key
  lists : ∀ key ∈ ["processes", "engine_pids", "metrics_socket_inodes"],
    body'.get? key = body.get? key ∨ ∃ items items', body.get? key = some (.list items) ∧
      body'.get? key = some (.list items') ∧ items.Perm items'

theorem Reordered.symm (h : Reordered body body') : Reordered body' body := by
  refine ⟨h.object.symm, fun key hkey => (h.fields key hkey).symm, fun key hkey => ?_⟩
  rcases h.lists key hkey with heq | ⟨items, items', hitems, hitems', hperm⟩
  · exact Or.inl heq.symm
  · exact Or.inr ⟨items', items, hitems', hitems, hperm.symm⟩

/-- The items of a list that was reordered are a permutation, and so is what is read from them. -/
theorem Reordered.read {α : Type} {f : Value → Option α} (h : Reordered body body') {key : String}
    (hkey : key ∈ ["processes", "engine_pids", "metrics_socket_inodes"]) {items : List Value}
    {as : List α} (hitems : (body.get? key).bind asList = some items) (hne : items ≠ [])
    (has : items.mapM f = some as) :
    ∃ items' as', (body'.get? key).bind asList = some items' ∧ items' ≠ [] ∧
      items'.mapM f = some as' ∧ as.Perm as' := by
  rcases h.lists key hkey with heq | ⟨old, new, hold, hnew, hperm⟩
  · exact ⟨items, as, heq ▸ hitems, hne, has, .refl _⟩
  · rw [hold] at hitems
    cases hitems
    obtain ⟨as', has', hperm'⟩ := mapM_perm hperm has
    refine ⟨new, as', by rw [hnew]; rfl, ?_, has', hperm'⟩
    rintro rfl
    exact hne hperm.eq_nil

theorem Reordered.get (h : Reordered body body') (key : String)
    (hkey : key ∉ ["processes", "engine_pids", "metrics_socket_inodes"]) :
    body'.get key = body.get key := by
  rw [Value.get, Value.get, h.fields key hkey]

/-- A reordered body is accepted, with one identity. -/
theorem Accepts.reordered (h : Accepts P body challenge id) (hbody : Reordered body body') :
    ∃ id', Accepts P body' challenge id' ∧ id'.value = id.value := by
  obtain ⟨items, hitems, hne, hprocesses⟩ := h.processes
  obtain ⟨engines, hengines, hsomeEngine, hpids⟩ := h.enginePids
  obtain ⟨sockets, hsockets, hsome, hinodes⟩ := h.inodes
  obtain ⟨items', processes, hitems', hne', hprocesses', hpermP⟩ :=
    hbody.read (by decide) hitems hne hprocesses
  obtain ⟨engines', enginePids, hengines', hsomeEngine', hpids', hpermE⟩ :=
    hbody.read (by decide) hengines hsomeEngine hpids
  obtain ⟨sockets', inodes, hsockets', hsome', hinodes', hpermI⟩ :=
    hbody.read (by decide) hsockets hsome hinodes
  have hpidPerm := hpermP.map (·.pid)
  refine ⟨{ id with processes, enginePids, metricsSocketInodes := inodes }, ?_, ?_⟩
  · constructor
    · exact hbody.object.trans h.object
    · rw [hbody.get "challenge" (by decide)]
      exact h.challenge
    · rw [hbody.get "schema_version" (by decide)]
      exact h.schema
    · exact (hbody.get "schema_version" (by decide)).trans h.schemaVersion
    · rw [hbody.fields "boot_id" (by decide)]
      exact h.bootId
    · rw [hbody.fields "monitor_id" (by decide)]
      exact h.monitorId
    · rw [hbody.fields "metrics_port" (by decide)]
      exact h.metricsPort
    · exact h.port
    · exact ⟨items', hitems', hne', hprocesses'⟩
    · exact fun p hp => h.numbers p (hpermP.mem_iff.2 hp)
    · exact hpidPerm.nodup_iff.1 h.unique
    · rw [hbody.fields "backend_pid" (by decide)]
      exact h.backendPid
    · exact hpidPerm.mem_iff.1 h.backend
    · exact ⟨engines', hengines', hsomeEngine', hpids'⟩
    · intro pid hpid
      obtain ⟨hmem, hne⟩ := h.engines pid (hpermE.mem_iff.2 hpid)
      exact ⟨hpidPerm.mem_iff.1 hmem, hne⟩
    · exact hpermE.nodup_iff.1 h.engines_nodup
    · intro pid hpid
      exact (h.reachable pid (hpidPerm.mem_iff.2 hpid)).mono fun p hp => hpermP.mem_iff.1 hp
    · exact ⟨sockets', hsockets', hsome', hinodes'⟩
    · exact fun inode hinode => h.positive inode (hpermI.mem_iff.2 hinode)
  · have hsortP : processes.insertionSort (fun a b => a.pid ≤ b.pid) =
        id.processes.insertionSort (fun a b => a.pid ≤ b.pid) :=
      (insertionSort_perm _ hpermP fun a ha b hb heq =>
        List.inj_on_of_nodup_map h.unique ha hb heq).symm
    have hsortE : enginePids.insertionSort (· ≤ ·) = id.enginePids.insertionSort (· ≤ ·) :=
      (insertionSort_perm _ hpermE fun _ _ _ _ heq => heq).symm
    have hsortI : inodes.insertionSort (· ≤ ·) = id.metricsSocketInodes.insertionSort (· ≤ ·) :=
      (insertionSort_perm _ hpermI fun _ _ _ _ heq => heq).symm
    simp only [Identity.value, hsortP, hsortE, hsortI]

/-- **The order of processes, engines and inodes does not count.** -/
theorem validateIdentity_reordered {D : Type} (fingerprint : Value → D)
    (hbody : Reordered body body') :
    validateIdentity P fingerprint body' challenge = validateIdentity P fingerprint body challenge := by
  have hok : ∀ {b b' : Value} {f : D}, Reordered b b' →
      validateIdentity P fingerprint b challenge = .ok f →
        validateIdentity P fingerprint b' challenge = .ok f := by
    intro b b' f hb h
    obtain ⟨id, hid, hf⟩ := Except.bind_eq_ok_iff.1 h
    obtain ⟨id', hid', hvalue⟩ := (received_eq_ok_iff.1 hid).reordered hb
    refine Except.bind_eq_ok_iff.2 ⟨id', received_eq_ok_iff.2 hid', ?_⟩
    rw [hvalue]
    exact hf
  cases h : validateIdentity P fingerprint body challenge with
  | ok f => exact hok hbody h
  | error e =>
    cases h' : validateIdentity P fingerprint body' challenge with
    | ok f =>
      rw [hok hbody.symm h'] at h
      cases h
    | error e' => rw [validateIdentity_error h, validateIdentity_error h']

/-! ## Different bodies -/

/-- The list under the key has an item that is read as `a`. -/
def Lists {α : Type} (body : Value) (key : String) (f : Value → Option α) (a : α) : Prop :=
  ∃ items, body.get? key = some (.list items) ∧ ∃ item ∈ items, f item = some a

/-- The listed fields are the same, lists as sets. -/
structure SameIdentity (body body' : Value) : Prop where
  fields : ∀ key ∈ ["schema_version", "boot_id", "monitor_id", "backend_pid", "metrics_port"],
    body.get? key = body'.get? key
  enginePids : ∀ pid, Lists body "engine_pids" asInt pid ↔ Lists body' "engine_pids" asInt pid
  processes : ∀ p, Lists body "processes" asProcess p ↔ Lists body' "processes" asProcess p
  inodes : ∀ inode, Lists body "metrics_socket_inodes" Value.asStr? inode ↔
    Lists body' "metrics_socket_inodes" Value.asStr? inode

theorem mem_of_mapM {α β : Type} {f : α → Option β} : ∀ {xs : List α} {as : List β},
    xs.mapM f = some as → ∀ a, a ∈ as ↔ ∃ x ∈ xs, f x = some a
  | [], as, h, a => by
    simp only [List.mapM_nil, Option.pure_def, Option.some.injEq] at h
    subst h
    simp
  | x :: xs, as, h, a => by
    simp only [List.mapM_cons, Option.bind_eq_bind, Option.bind_eq_some_iff, Option.pure_def,
      Option.some.injEq] at h
    obtain ⟨b, hb, rest, hrest, rfl⟩ := h
    rw [List.mem_cons, mem_of_mapM hrest a]
    constructor
    · rintro (rfl | ⟨y, hy, hfy⟩)
      · exact ⟨x, List.mem_cons_self, hb⟩
      · exact ⟨y, List.mem_cons_of_mem _ hy, hfy⟩
    · rintro ⟨y, hy, hfy⟩
      rcases List.mem_cons.1 hy with rfl | hy
      · rw [hb, Option.some.injEq] at hfy
        exact Or.inl hfy.symm
      · exact Or.inr ⟨y, hy, hfy⟩

theorem asList_eq_some {v : Option Value} {items : List Value} (h : v.bind asList = some items) :
    v = some (.list items) := by
  cases v with
  | none => cases h
  | some v =>
    cases v with
    | list xs =>
      cases h
      rfl
    | _ => cases h

theorem asInt_eq_some {v : Option Value} {n : Int} (h : v.bind asInt = some n) :
    v = some (.int n) := by
  cases v with
  | none => cases h
  | some v =>
    cases v with
    | int m =>
      cases h
      rfl
    | _ => cases h

theorem asUuid_eq_some {v : Option Value} {s : String} (h : v.bind (asUuid P) = some s) :
    v = some (.str s) := by
  cases v with
  | none => cases h
  | some v =>
    cases v with
    | str t =>
      change (if P.uuid t.toList then some t else none) = some s at h
      split at h
      · cases h
        rfl
      · cases h
    | _ => cases h

/-- A list that was read has the items that were read. -/
theorem lists_iff {α : Type} {f : Value → Option α} {key : String} {as : List α}
    (h : ∃ items, (body.get? key).bind asList = some items ∧ items ≠ [] ∧ items.mapM f = some as)
    (a : α) : Lists body key f a ↔ a ∈ as := by
  obtain ⟨items, hitems, -, has⟩ := h
  have hget := asList_eq_some hitems
  rw [mem_of_mapM has]
  constructor
  · rintro ⟨items', hitems', hmem⟩
    rw [hget, Option.some.injEq, Value.list.injEq] at hitems'
    exact hitems' ▸ hmem
  · exact fun hmem => ⟨items, hget, hmem⟩

theorem Accepts.schema_get (h : Accepts P body challenge id) :
    body.get? "schema_version" = some id.schemaVersion := by
  have hget := h.schemaVersion
  cases hfield : body.get? "schema_version" with
  | none =>
    have hschema := h.schema
    rw [Value.get, hfield] at hschema
    cases hschema
  | some v =>
    rw [Value.get, hfield] at hget
    exact congrArg some hget

theorem map_injective {α : Type} {f : α → Value} (hf : ∀ a b, f a = f b → a = b) {xs ys : List α}
    (h : Value.list (xs.map f) = .list (ys.map f)) : xs = ys :=
  List.map_injective_iff.2 (fun a b hab => hf a b hab) (Value.list.inj h)

/-- **Accepted bodies with one fingerprint hold the same.** -/
theorem sameIdentity_of_eq {challenge' : String} {id' : Identity} (h : Accepts P body challenge id)
    (h' : Accepts P body' challenge' id') (hvalue : id.value = id'.value) :
    SameIdentity body body' := by
  simp only [Identity.value, Value.dict.injEq, List.cons.injEq, Prod.mk.injEq, true_and,
    Value.int.injEq, Value.str.injEq, and_true] at hvalue
  obtain ⟨hbackend, hboot, hengines, hport, hinodes, hmonitor, hprocesses, hschema⟩ := hvalue
  have hengineList := map_injective (fun a b hab => Value.int.inj hab) hengines
  have hinodeList := map_injective (fun a b hab => Value.str.inj hab) hinodes
  have hprocessList := map_injective (fun a b hab => by
    obtain ⟨p, q, r⟩ := a
    obtain ⟨p', q', r'⟩ := b
    simp only [Value.dict.injEq, List.cons.injEq, Prod.mk.injEq, true_and, Value.int.injEq,
      and_true] at hab
    rw [hab.1, hab.2.1, hab.2.2]) hprocesses
  constructor
  · intro key hkey
    simp only [List.mem_cons, List.not_mem_nil, or_false] at hkey
    rcases hkey with rfl | rfl | rfl | rfl | rfl
    · rw [h.schema_get, h'.schema_get, hschema]
    · rw [asUuid_eq_some h.bootId, asUuid_eq_some h'.bootId, hboot]
    · rw [asUuid_eq_some h.monitorId, asUuid_eq_some h'.monitorId, hmonitor]
    · rw [asInt_eq_some h.backendPid, asInt_eq_some h'.backendPid, hbackend]
    · rw [asInt_eq_some h.metricsPort, asInt_eq_some h'.metricsPort, hport]
  · intro pid
    rw [lists_iff h.enginePids, lists_iff h'.enginePids,
      ← List.mem_insertionSort (· ≤ ·), hengineList, List.mem_insertionSort]
  · intro p
    rw [lists_iff h.processes, lists_iff h'.processes,
      ← List.mem_insertionSort (fun a b : Process => a.pid ≤ b.pid), hprocessList,
      List.mem_insertionSort]
  · intro inode
    rw [lists_iff h.inodes, lists_iff h'.inodes,
      ← List.mem_insertionSort (· ≤ ·), hinodeList, List.mem_insertionSort]

end Accepts

end ReedCode.MetricsIdentity
