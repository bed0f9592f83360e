import ReedCode.Lib.Runs
import Mathlib.Algebra.BigOperators.Group.List.Basic
import Mathlib.Data.List.Perm.Basic

/-!
# Processes around a shared state

A system of any number of processes: each has a state of its own, they share one, and they take
steps in any order.  The world around them steps too, and new processes enter.

* `Rely` — what every step does to the shared state, whoever takes it;
* `Stable` — a property of one process that its own steps keep and the others cannot break, with
  `Stable.run`, **the rely rule** for one process, and `Stable.run_all` for all of them;
* `Account` — a resource that is passed between the shared state and the processes, with
  `Account.run`, **the accounting rule**;
* `Journal` — a shared log to which every process appends under its own key, with `Journal.run`,
  **the journal rule**: under each key it holds what that process accounts for, in order.
-/

set_option autoImplicit false

universe u v w x

namespace Processes

structure System (σ ℓ : Type u) (α β γ : Type v) where
  /-- A process takes a step. -/
  own : σ → ℓ → α → Option (σ × ℓ)
  /-- The world takes one. -/
  env : σ → β → Option σ
  /-- A process enters. -/
  enter : σ → γ → Option (σ × ℓ)

inductive Action (α β γ : Type v)
  | own (i : Nat) (a : α)
  | env (b : β)
  | enter (c : γ)

structure World (σ ℓ : Type u) where
  shared : σ
  processes : List ℓ

variable {σ ℓ : Type u} {α β γ : Type v}

namespace System

variable (S : System σ ℓ α β γ)

def step (w : World σ ℓ) : Action α β γ → Option (World σ ℓ)
  | .own i a => do
    let p ← w.processes[i]?
    let (s, p) ← S.own w.shared p a
    return ⟨s, w.processes.set i p⟩
  | .env b => do
    let s ← S.env w.shared b
    return { w with shared := s }
  | .enter c => do
    let (s, p) ← S.enter w.shared c
    return ⟨s, w.processes ++ [p]⟩

/-- What a step of the system is. -/
inductive Stepped (w : World σ ℓ) : Action α β γ → World σ ℓ → Prop
  | own {i : Nat} {a : α} {p p' : ℓ} {s : σ} (hget : w.processes[i]? = some p)
      (hown : S.own w.shared p a = some (s, p')) :
      Stepped w (.own i a) ⟨s, w.processes.set i p'⟩
  | env {b : β} {s : σ} (henv : S.env w.shared b = some s) :
      Stepped w (.env b) { w with shared := s }
  | enter {c : γ} {s : σ} {p : ℓ} (henter : S.enter w.shared c = some (s, p)) :
      Stepped w (.enter c) ⟨s, w.processes ++ [p]⟩

variable {S}

theorem step_stepped {w w' : World σ ℓ} {action : Action α β γ}
    (h : S.step w action = some w') : S.Stepped w action w' := by
  cases action with
  | own i a =>
    obtain ⟨p, hget, h⟩ := Option.bind_eq_some_iff.1 h
    obtain ⟨⟨s, p'⟩, hown, h⟩ := Option.bind_eq_some_iff.1 h
    cases h
    exact .own hget hown
  | env b =>
    obtain ⟨s, henv, h⟩ := Option.bind_eq_some_iff.1 h
    cases h
    exact .env henv
  | enter c =>
    obtain ⟨⟨s, p⟩, henter, h⟩ := Option.bind_eq_some_iff.1 h
    cases h
    exact .enter henter

theorem step_own {w : World σ ℓ} {i : Nat} {a : α} {p p' : ℓ} {s : σ}
    (hget : w.processes[i]? = some p) (hown : S.own w.shared p a = some (s, p')) :
    S.step w (.own i a) = some ⟨s, w.processes.set i p'⟩ := by
  simp only [step, hget, hown, Option.bind_eq_bind, Option.bind_some, Option.pure_def]

theorem step_env {w : World σ ℓ} {b : β} {s : σ} (henv : S.env w.shared b = some s) :
    S.step w (.env b) = some { w with shared := s } := by
  simp only [step, henv, Option.bind_eq_bind, Option.bind_some, Option.pure_def]

end System

variable (S : System σ ℓ α β γ)

/-! ## Rely and guarantee -/

/-- What every step does to the shared state. -/
structure Rely (R : σ → σ → Prop) : Prop where
  own : ∀ {s p a s' p'}, S.own s p a = some (s', p') → R s s'
  env : ∀ {s b s'}, S.env s b = some s' → R s s'
  enter : ∀ {s c s' p}, S.enter s c = some (s', p) → R s s'

/-- A property of a process that its own steps keep, and the steps of the others, who keep to
`R`. -/
structure Stable (R : σ → σ → Prop) (P : σ → ℓ → Prop) : Prop where
  own : ∀ {s p a s' p'}, P s p → S.own s p a = some (s', p') → P s' p'
  others : ∀ {s s' p}, P s p → R s s' → P s' p

variable {S} {R : σ → σ → Prop} {P : σ → ℓ → Prop}

theorem Rely.step (hR : Rely S R) {w w' : World σ ℓ} {action : Action α β γ}
    (h : S.step w action = some w') : R w.shared w'.shared := by
  cases System.step_stepped h with
  | own _ hown => exact hR.own hown
  | env henv => exact hR.env henv
  | enter henter => exact hR.enter henter

theorem Stable.step (hP : Stable S R P) (hR : Rely S R) {w w' : World σ ℓ} {action : Action α β γ}
    (h : S.step w action = some w') {i : Nat} {p : ℓ} (hget : w.processes[i]? = some p)
    (hp : P w.shared p) : ∃ p', w'.processes[i]? = some p' ∧ P w'.shared p' := by
  have hrely := hR.step h
  obtain ⟨hi, -⟩ := List.getElem?_eq_some_iff.1 hget
  cases System.step_stepped h with
  | @own j a q q' s hget' hown =>
    by_cases hij : j = i
    · subst hij
      cases hget.symm.trans hget'
      exact ⟨q', List.getElem?_set_self hi, hP.own hp hown⟩
    · exact ⟨p, (List.getElem?_set_ne hij).trans hget, hP.others hp hrely⟩
  | env _ => exact ⟨p, hget, hP.others hp hrely⟩
  | enter _ => exact ⟨p, (List.getElem?_append_left hi).trans hget, hP.others hp hrely⟩

/-- **The rely rule.**  What holds of a process and is stable holds of it ever after. -/
theorem Stable.run (hP : Stable S R P) (hR : Rely S R) {i : Nat} :
    ∀ {actions : List (Action α β γ)} {w w' : World σ ℓ} {p : ℓ}, w.processes[i]? = some p →
      P w.shared p → Runs.run S.step w actions = some w' →
        ∃ p', w'.processes[i]? = some p' ∧ P w'.shared p'
  | [], w, w', p, hget, hp, hrun => by
    rw [Runs.run_nil, Option.some.injEq] at hrun
    exact hrun ▸ ⟨p, hget, hp⟩
  | action :: actions, w, w', p, hget, hp, hrun => by
    obtain ⟨w₁, hstep, hrest⟩ := (Runs.run_cons_eq_some S.step).1 hrun
    obtain ⟨p₁, hget₁, hp₁⟩ := hP.step hR hstep hget hp
    exact hP.run hR hget₁ hp₁ hrest

/-- All processes have a stable property that they enter with. -/
theorem Stable.run_all (hP : Stable S R P) (hR : Rely S R)
    (henter : ∀ {s c s' p}, S.enter s c = some (s', p) → P s' p)
    {actions : List (Action α β γ)} {w w' : World σ ℓ} (hw : ∀ p ∈ w.processes, P w.shared p)
    (hrun : Runs.run S.step w actions = some w') : ∀ p ∈ w'.processes, P w'.shared p := by
  refine Runs.run_induction (P := fun w => ∀ p ∈ w.processes, P w.shared p) ?_ hw hrun
  intro w action w' hw hstep p hp
  have hrely := hR.step hstep
  cases System.step_stepped hstep with
  | @own i a q q' s hget hown =>
    rcases List.mem_or_eq_of_mem_set hp with hp | rfl
    · exact hP.others (hw p hp) hrely
    · exact hP.own (hw q (List.mem_of_getElem? hget)) hown
  | env _ => exact hP.others (hw p hp) hrely
  | enter hentered =>
    rcases List.mem_append.1 hp with hp | hp
    · exact hP.others (hw p hp) hrely
    · rw [List.mem_singleton.1 hp]
      exact henter hentered

/-! ## Accounts -/

/-- A resource: what is free of it, and what a process holds; `P` is known of the processes. -/
structure Account (S : System σ ℓ α β γ) (P : σ → ℓ → Prop) (free : σ → Nat) (held : ℓ → Nat) :
    Prop where
  own : ∀ {s p a s' p'}, P s p → S.own s p a = some (s', p') → free s' + held p' = free s + held p
  env : ∀ {s b s'}, S.env s b = some s' → free s' = free s
  enter : ∀ {s c s' p}, S.enter s c = some (s', p) → free s' + held p = free s

variable {free : σ → Nat} {held : ℓ → Nat}

/-- What is free and what is held of a resource. -/
def World.total (free : σ → Nat) (held : ℓ → Nat) (w : World σ ℓ) : Nat :=
  free w.shared + (w.processes.map held).sum

theorem sum_map_set {ps : List ℓ} {i : Nat} {p : ℓ} (hget : ps[i]? = some p) (p' : ℓ) :
    ((ps.set i p').map held).sum + held p = (ps.map held).sum + held p' := by
  induction ps generalizing i with
  | nil => cases hget
  | cons q ps ih =>
    cases i with
    | zero =>
      cases hget
      simp only [List.set_cons_zero, List.map_cons, List.sum_cons]
      omega
    | succ i =>
      have hrest := ih (i := i) hget
      simp only [List.set_cons_succ, List.map_cons, List.sum_cons]
      omega

theorem Account.step (h : Account S P free held) {w w' : World σ ℓ} {action : Action α β γ}
    (hw : ∀ p ∈ w.processes, P w.shared p) (hstep : S.step w action = some w') :
    w'.total free held = w.total free held := by
  unfold World.total
  cases System.step_stepped hstep with
  | @own i a p p' s hget hown =>
    have hsum : ((w.processes.set i p').map held).sum + held p =
        (w.processes.map held).sum + held p' := sum_map_set hget p'
    have hlocal := h.own (hw p (List.mem_of_getElem? hget)) hown
    dsimp only
    omega
  | env henv => rw [h.env henv]
  | enter hentered =>
    have hentry := h.enter hentered
    simp only [List.map_append, List.map_cons, List.map_nil, List.sum_append, List.sum_cons,
      List.sum_nil]
    omega

/-- **The accounting rule.**  Nothing of the resource is lost or made. -/
theorem Account.run (h : Account S P free held) (hP : Stable S R P) (hR : Rely S R)
    (henter : ∀ {s c s' p}, S.enter s c = some (s', p) → P s' p) :
    ∀ {actions : List (Action α β γ)} {w w' : World σ ℓ}, (∀ p ∈ w.processes, P w.shared p) →
      Runs.run S.step w actions = some w' → w'.total free held = w.total free held
  | [], w, w', _, hrun => by
    rw [Runs.run_nil, Option.some.injEq] at hrun
    rw [hrun]
  | action :: actions, w, w', hw, hrun => by
    obtain ⟨w₁, hstep, hrest⟩ := (Runs.run_cons_eq_some S.step).1 hrun
    have hone : Runs.run S.step w [action] = some w₁ :=
      (Runs.run_cons_eq_some S.step).2 ⟨w₁, hstep, rfl⟩
    have hw₁ := hP.run_all hR henter hw hone
    exact (h.run hP hR henter hw₁ hrest).trans (h.step hw hstep)

/-! ## Journals -/

/-- A shared log, the key of its entries, and the entries that a process accounts for; processes
enter with none, and under a key of their own. -/
structure Journal {κ : Type w} {ε : Type x} (S : System σ ℓ α β γ) (P : σ → ℓ → Prop)
    (log : σ → List ε) (author : ε → κ) (key : ℓ → κ) (entries : ℓ → List ε) : Prop where
  own : ∀ {s p a s' p'}, P s p → S.own s p a = some (s', p') → key p' = key p ∧
    ∃ new, log s' = log s ++ new ∧ (∀ e ∈ new, author e = key p) ∧ entries p' = entries p ++ new
  env : ∀ {s b s'}, S.env s b = some s' → log s' = log s
  enter : ∀ {s c s' p}, S.enter s c = some (s', p) → log s' = log s ∧ entries p = []

section Journal

variable {κ : Type w} {ε : Type x} {log : σ → List ε} {author : ε → κ} {key : ℓ → κ}
  {entries : ℓ → List ε}

theorem Journal.keys (h : Journal S P log author key entries) {w w' : World σ ℓ}
    {action : Action α β γ} (hw : ∀ p ∈ w.processes, P w.shared p)
    (hstep : S.step w action = some w') : w.processes.map key <+: w'.processes.map key := by
  cases System.step_stepped hstep with
  | @own i a p p' s hget hown =>
    have hkey := (h.own (hw p (List.mem_of_getElem? hget)) hown).1
    obtain ⟨hi, -⟩ := List.getElem?_eq_some_iff.1 hget
    have hsame : (w.processes.set i p').map key = w.processes.map key := by
      refine List.ext_getElem? fun j => ?_
      by_cases hij : i = j
      · subst hij
        rw [List.getElem?_map, List.getElem?_map, List.getElem?_set_self hi, hget,
          Option.map_some, Option.map_some, hkey]
      · rw [List.getElem?_map, List.getElem?_map, List.getElem?_set_ne hij]
    exact hsame ▸ List.prefix_refl _
  | env _ => exact List.prefix_refl _
  | enter _ => exact ⟨[key _], by rw [List.map_append]; rfl⟩

theorem Journal.run_keys (h : Journal S P log author key entries) (hP : Stable S R P)
    (hR : Rely S R) (henter : ∀ {s c s' p}, S.enter s c = some (s', p) → P s' p) :
    ∀ {actions : List (Action α β γ)} {w w' : World σ ℓ}, (∀ p ∈ w.processes, P w.shared p) →
      Runs.run S.step w actions = some w' → w.processes.map key <+: w'.processes.map key
  | [], w, w', _, hrun => by
    rw [Runs.run_nil, Option.some.injEq] at hrun
    exact hrun ▸ List.prefix_refl _
  | action :: actions, w, w', hw, hrun => by
    obtain ⟨w₁, hstep, hrest⟩ := (Runs.run_cons_eq_some S.step).1 hrun
    have hone : Runs.run S.step w [action] = some w₁ :=
      (Runs.run_cons_eq_some S.step).2 ⟨w₁, hstep, rfl⟩
    exact (h.keys hw hstep).trans (h.run_keys hP hR henter (hP.run_all hR henter hw hone) hrest)

variable [DecidableEq κ]

/-- The log holds, under every key, what its process accounts for; and nothing else. -/
structure World.Kept (log : σ → List ε) (author : ε → κ) (key : ℓ → κ) (entries : ℓ → List ε)
    (w : World σ ℓ) : Prop where
  kept : ∀ p ∈ w.processes, (log w.shared).filter (fun e => author e = key p) = entries p
  known : ∀ e ∈ log w.shared, author e ∈ w.processes.map key

/-- A list falls apart by keys that cover it. -/
theorem perm_flatMap_filter {κ : Type w} {ε : Type x} [DecidableEq κ] {author : ε → κ} :
    ∀ {keys : List κ} {l : List ε}, keys.Nodup → (∀ e ∈ l, author e ∈ keys) →
      l.Perm (keys.flatMap fun k => l.filter fun e => author e = k)
  | [], l, _, h => by
    cases l with
    | nil => exact .refl _
    | cons e l => exact absurd (h e List.mem_cons_self) List.not_mem_nil
  | k :: keys, l, hnodup, h => by
    obtain ⟨hk, hrest⟩ := List.nodup_cons.1 hnodup
    have hkeys : ∀ e ∈ l.filter fun e => !decide (author e = k), author e ∈ keys := by
      intro e he
      obtain ⟨hmem, hne⟩ := List.mem_filter.1 he
      exact (List.mem_cons.1 (h e hmem)).resolve_left fun heq => by simp [heq] at hne
    have hothers : (l.filter fun e => !decide (author e = k)).Perm
        (keys.flatMap fun k' => l.filter fun e => author e = k') := by
      refine (perm_flatMap_filter hrest hkeys).trans (List.Perm.of_eq ?_)
      refine List.flatMap_congr fun k' hk' => ?_
      rw [List.filter_filter]
      refine List.filter_congr fun e _ => ?_
      by_cases he : author e = k'
      · have hne : k' ≠ k := fun heq => hk (heq ▸ hk')
        simp [he, hne]
      · simp [he]
    rw [List.flatMap_cons]
    exact (List.filter_append_perm (fun e => decide (author e = k)) l).symm.trans
      (hothers.append_left _)
/-- A log that is kept is what the processes account for, in some order. -/
theorem World.Kept.perm {w : World σ ℓ} (h : w.Kept log author key entries)
    (hkeys : (w.processes.map key).Nodup) : (log w.shared).Perm (w.processes.flatMap entries) := by
  have hperm := perm_flatMap_filter hkeys h.known
  rw [List.flatMap_map] at hperm
  exact hperm.trans (List.Perm.of_eq (List.flatMap_congr fun p hp => h.kept p hp))

/-- One step keeps the journal, as long as the keys differ. -/
theorem Journal.step (h : Journal S P log author key entries) {w w' : World σ ℓ}
    {action : Action α β γ} (hw : ∀ p ∈ w.processes, P w.shared p)
    (hkeys : (w'.processes.map key).Nodup) (hkept : w.Kept log author key entries)
    (hstep : S.step w action = some w') : w'.Kept log author key entries := by
  have hprefix := h.keys hw hstep
  cases System.step_stepped hstep with
  | @own i a p p' s hget hown =>
    obtain ⟨hkey, new, hlog, hauthor, hentries⟩ := h.own (hw p (List.mem_of_getElem? hget)) hown
    obtain ⟨hi, hp⟩ := List.getElem?_eq_some_iff.1 hget
    have hsame : w.processes.map key = (w.processes.set i p').map key :=
      hprefix.eq_of_length (by rw [List.length_map, List.length_map, List.length_set])
    dsimp only at hkeys hsame ⊢
    refine ⟨fun q hq => ?_, fun e he => ?_⟩
    · obtain ⟨j, hj⟩ := List.mem_iff_getElem?.1 hq
      rw [hlog, List.filter_append]
      by_cases hij : i = j
      · subst hij
        rw [List.getElem?_set_self hi, Option.some.injEq] at hj
        rw [← hj, hkey, hkept.kept p (List.mem_of_getElem? hget), hentries,
          List.filter_eq_self.2 fun e he => by simpa using hauthor e he]
      · rw [List.getElem?_set_ne hij] at hj
        have hne : key p ≠ key q := by
          rw [← hsame] at hkeys
          intro heq
          have hgets : (w.processes.map key)[i]? = (w.processes.map key)[j]? := by
            rw [List.getElem?_map, List.getElem?_map, hget, hj, Option.map_some, Option.map_some,
              heq]
          exact hij ((List.getElem?_inj (by rwa [List.length_map]) hkeys).1 hgets)
        rw [hkept.kept q (List.mem_of_getElem? hj),
          List.filter_eq_nil_iff.2 fun e he => by simpa [hauthor e he] using hne,
          List.append_nil]
    · rw [hlog, List.mem_append] at he
      rw [← hsame]
      rcases he with he | he
      · exact hkept.known e he
      · rw [hauthor e he]
        exact List.mem_map_of_mem (List.mem_of_getElem? hget)
  | env henv => exact ⟨(h.env henv).symm ▸ hkept.kept, (h.env henv).symm ▸ hkept.known⟩
  | @enter c s p hentered =>
    obtain ⟨hlog, hnone⟩ := h.enter hentered
    dsimp only at hkeys ⊢
    rw [List.map_append, List.nodup_append] at hkeys
    refine ⟨fun q hq => ?_, fun e he => ?_⟩
    · rw [hlog]
      rcases List.mem_append.1 hq with hq | hq
      · exact hkept.kept q hq
      · rw [List.mem_singleton.1 hq, hnone]
        refine List.filter_eq_nil_iff.2 fun e he => ?_
        have hother := hkeys.2.2 _ (hkept.known e he) (key p) (List.mem_singleton_self _)
        simpa using hother
    · rw [hlog] at he
      rw [List.map_append]
      exact List.mem_append_left _ (hkept.known e he)

/-- **The journal rule.**  When all keys differ, the log holds what each process accounts for. -/
theorem Journal.run (h : Journal S P log author key entries) (hP : Stable S R P) (hR : Rely S R)
    (henter : ∀ {s c s' p}, S.enter s c = some (s', p) → P s' p) :
    ∀ {actions : List (Action α β γ)} {w w' : World σ ℓ}, (∀ p ∈ w.processes, P w.shared p) →
      Runs.run S.step w actions = some w' → (w'.processes.map key).Nodup →
      w.Kept log author key entries → w'.Kept log author key entries
  | [], w, w', _, hrun, _, hkept => by
    rw [Runs.run_nil, Option.some.injEq] at hrun
    exact hrun ▸ hkept
  | action :: actions, w, w', hw, hrun, hkeys, hkept => by
    obtain ⟨w₁, hstep, hrest⟩ := (Runs.run_cons_eq_some S.step).1 hrun
    have hone : Runs.run S.step w [action] = some w₁ :=
      (Runs.run_cons_eq_some S.step).2 ⟨w₁, hstep, rfl⟩
    have hw₁ := hP.run_all hR henter hw hone
    have hkeys₁ := hkeys.sublist (h.run_keys hP hR henter hw₁ hrest).sublist
    exact h.run hP hR henter hw₁ hrest hkeys (h.step hw hkeys₁ hkept hstep)

end Journal

end Processes
