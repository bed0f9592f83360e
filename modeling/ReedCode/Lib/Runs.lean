import Mathlib.Algebra.Order.Ring.Nat
import Mathlib.Data.List.Basic

/-!
# Runs of a partial step function

A system is a step function `σ → α → Option σ`; `none` is a step that aborts.  A run feeds
a list of inputs to it.

* `run_append` — a run over a concatenation is two runs;
* `run_induction` — the invariant rule: what holds at the start and survives every step
  holds at the end of every run;
* `AllSteps` — every step of a run satisfies a condition on the state before it and the
  input, with `allSteps_induction`, the invariant rule for such runs;
* `Reachable` — the states of a system that steps by itself, with its invariant rule;
* `exists_iterate_of_wf` — the measure rule, and `Trail.length_filterMap_le`, what it bounds;
* `Except.failIf`, `Except.bind_eq_ok_iff`, `Except.mapM_eq_ok`, `Except.foldlM_induction`,
  `Except.mem_filterM`, `Except.filterM_eq_ok`, `Except.forM_eq_ok` — guards, sequencing,
  traversals, folds, filters and checks of computations that may fail.
-/

set_option autoImplicit false

universe u v

namespace Runs

variable {σ : Type u} {α : Type v} (step : σ → α → Option σ)

/-- Feed a list of inputs; an aborted step aborts the run. -/
def run : σ → List α → Option σ
  | s, [] => some s
  | s, a :: as =>
    match step s a with
    | none => none
    | some s' => run s' as

@[simp] theorem run_nil (s : σ) : run step s [] = some s := rfl

theorem run_cons_eq_some {s t : σ} {a : α} {as : List α} :
    run step s (a :: as) = some t ↔ ∃ s', step s a = some s' ∧ run step s' as = some t := by
  simp only [run]
  cases step s a <;> simp

theorem run_append_eq_some {t : σ} {bs : List α} : ∀ {s : σ} {as : List α},
    run step s (as ++ bs) = some t ↔ ∃ s', run step s as = some s' ∧ run step s' bs = some t
  | s, [] => by simp
  | s, a :: as => by
    rw [List.cons_append, run_cons_eq_some]
    constructor
    · rintro ⟨s₁, h₁, h₂⟩
      obtain ⟨s₂, h₃, h₄⟩ := run_append_eq_some.1 h₂
      exact ⟨s₂, (run_cons_eq_some step).2 ⟨s₁, h₁, h₃⟩, h₄⟩
    · rintro ⟨s₂, h₁, h₂⟩
      obtain ⟨s₁, h₃, h₄⟩ := (run_cons_eq_some step).1 h₁
      exact ⟨s₁, h₃, run_append_eq_some.2 ⟨s₂, h₄, h₂⟩⟩

variable {step}

/-- **The invariant rule.** -/
theorem run_induction {P : σ → Prop} (hstep : ∀ s a s', P s → step s a = some s' → P s') :
    ∀ {as : List α} {s t : σ}, P s → run step s as = some t → P t
  | [], s, t, h, hr => by
    rw [run_nil, Option.some.injEq] at hr
    exact hr ▸ h
  | a :: as, s, t, h, hr => by
    obtain ⟨s', h₁, h₂⟩ := (run_cons_eq_some step).1 hr
    exact run_induction hstep (hstep s a s' h h₁) h₂

/-- Every step of the run from `s` satisfies `C`, a condition on the state before the step
and the input. -/
def AllSteps (step : σ → α → Option σ) (C : σ → α → Prop) : σ → List α → Prop
  | _, [] => True
  | s, a :: as => C s a ∧ ∀ s', step s a = some s' → AllSteps step C s' as

/-- The invariant rule for runs whose steps all satisfy a condition. -/
theorem allSteps_induction {C : σ → α → Prop} {P : σ → Prop}
    (hstep : ∀ s a s', P s → C s a → step s a = some s' → P s') :
    ∀ {as : List α} {s t : σ}, P s → AllSteps step C s as → run step s as = some t → P t
  | [], s, t, h, _, hr => by
    rw [run_nil, Option.some.injEq] at hr
    exact hr ▸ h
  | a :: as, s, t, h, hc, hr => by
    obtain ⟨s', h₁, h₂⟩ := (run_cons_eq_some step).1 hr
    exact allSteps_induction hstep (hstep s a s' h hc.1 h₁) (hc.2 s' h₁) h₂

/-- The states a system that steps by itself comes to. -/
inductive Reachable (next : σ → Option σ) (start : σ) : σ → Prop
  | start : Reachable next start start
  | step {s s' : σ} : Reachable next start s → next s = some s' → Reachable next start s'

/-- The invariant rule for reachable states. -/
theorem Reachable.invariant {next : σ → Option σ} {start : σ} {P : σ → Prop} (hstart : P start)
    (hstep : ∀ s s', P s → next s = some s' → P s') :
    ∀ {s : σ}, Reachable next start s → P s
  | _, .start => hstart
  | _, .step hs h => hstep _ _ (Reachable.invariant hstart hstep hs) h

/-- The states a run has come through, the latest in front. -/
inductive Trail (next : σ → Option σ) (start : σ) : List σ → Prop
  | start : Trail next start [start]
  | step {s s' : σ} {older : List σ} : Trail next start (s :: older) → next s = some s' →
      Trail next start (s' :: s :: older)

theorem Trail.reachable {next : σ → Option σ} {start s : σ} : ∀ {older : List σ},
    Trail next start (s :: older) → Reachable next start s
  | _, .start => .start
  | _, .step h hnext => .step (Trail.reachable h) hnext

/-- A number of steps; an aborted step aborts them all. -/
def iterate (next : σ → Option σ) : Nat → σ → Option σ
  | 0, s => some s
  | n + 1, s => (next s).bind (iterate next n)

theorem Reachable.iterate {next : σ → Option σ} {start : σ} : ∀ {n : Nat} {s t : σ},
    Reachable next start s → Runs.iterate next n s = some t → Reachable next start t
  | 0, _, _, hs, h => by
    cases h
    exact hs
  | n + 1, s, t, hs, h => by
    obtain ⟨s', hnext, hrest⟩ := Option.bind_eq_some_iff.1 h
    exact Reachable.iterate (.step hs hnext) hrest

theorem Trail.iterate {next : σ → Option σ} {start : σ} : ∀ {n : Nat} {s t : σ} {older : List σ},
    Trail next start (s :: older) → Runs.iterate next n s = some t →
      ∃ between, Trail next start (t :: between)
  | 0, _, _, older, hs, h => by
    cases h
    exact ⟨older, hs⟩
  | n + 1, s, t, older, hs, h => by
    obtain ⟨s', hnext, hrest⟩ := Option.bind_eq_some_iff.1 h
    exact Trail.iterate (.step hs hnext) hrest

theorem iterate_succ {next : σ → Option σ} : ∀ (n : Nat) (s : σ),
    iterate next (n + 1) s = (iterate next n s).bind next
  | 0, s => by simp [iterate]
  | n + 1, s => by
    rw [iterate]
    cases hnext : next s with
    | none => simp [iterate, hnext]
    | some s' => simpa [iterate, hnext] using iterate_succ n s'

/-- A run that cannot be stuck goes on. -/
theorem exists_iterate {next : σ → Option σ} {start : σ}
    (hnext : ∀ s, Reachable next start s → (next s).isSome) :
    ∀ n : Nat, ∃ t, iterate next n start = some t
  | 0 => ⟨start, rfl⟩
  | n + 1 => by
    obtain ⟨s, hs⟩ := exists_iterate hnext n
    obtain ⟨t, ht⟩ := Option.isSome_iff_exists.1 (hnext s (Reachable.iterate .start hs))
    exact ⟨t, by rw [iterate_succ, hs]; exact ht⟩

theorem Trail.iterate_eq {next : σ → Option σ} {start : σ} : ∀ {older : List σ} {s : σ},
    Trail next start (s :: older) → Runs.iterate next older.length start = some s
  | _, _, .start => rfl
  | _, _, .step h hnext => by
    rw [List.length_cons, iterate_succ, Trail.iterate_eq h]
    exact hnext

/-- The measure rule: a run whose steps lower a well-founded measure is over after some steps. -/
theorem exists_iterate_of_wf {next : σ → Option σ} {β : Type v} {r : β → β → Prop}
    (hwf : WellFounded r) (measure : σ → β) {P ended : σ → Prop}
    (hstep : ∀ s s', P s → ¬ ended s → next s = some s' → P s' ∧ r (measure s') (measure s)) :
    ∀ s, P s → ∃ n, ∀ t, iterate next n s = some t → ended t := by
  intro s
  induction hm : measure s using hwf.induction generalizing s with
  | _ m ih =>
    subst hm
    intro hs
    by_cases hended : ended s
    · refine ⟨0, fun t ht => ?_⟩
      cases ht
      exact hended
    · cases hnext : next s with
      | none =>
        refine ⟨1, fun t ht => ?_⟩
        obtain ⟨s', hs', -⟩ := Option.bind_eq_some_iff.1 ht
        cases hnext.symm.trans hs'
      | some s' =>
        obtain ⟨hs', hlower⟩ := hstep s s' hs hended hnext
        obtain ⟨n, hn⟩ := ih (measure s') hlower s' rfl hs'
        refine ⟨n + 1, fun t ht => ?_⟩
        obtain ⟨first, hfirst, hrest⟩ := Option.bind_eq_some_iff.1 ht
        cases hnext.symm.trans hfirst
        exact hn t hrest

section Ended

variable {next : σ → Option σ} {start : σ} {ended : σ → Prop} {n : Nat}

/-- A run that is over stays so. -/
theorem Trail.isEnded (hn : ∀ t, Runs.iterate next n start = some t → ended t)
    (hstay : ∀ s s', ended s → next s = some s' → ended s') : ∀ {older : List σ} {s : σ},
    Trail next start (s :: older) → n ≤ older.length → ended s
  | _, _, .start, h => hn _ (by rw [Nat.le_zero.1 h]; rfl)
  | _ :: older, _, .step h hnext, hlen => by
    rcases Nat.lt_or_eq_of_le hlen with hlt | heq
    · exact hstay _ _ (Trail.isEnded hn hstay h (Nat.le_of_lt_succ hlt)) hnext
    · exact hn _ (heq ▸ Trail.iterate_eq (.step h hnext))

/-- What happens before a run is over happens at most as often as it steps. -/
theorem Trail.length_filterMap_le {β : Type v} {f : σ → Option β}
    (hn : ∀ t, Runs.iterate next n start = some t → ended t)
    (hstay : ∀ s s', ended s → next s = some s' → ended s') (hf : ∀ s, ended s → f s = none) :
    ∀ {older : List σ} {s : σ}, Trail next start (s :: older) → (older.filterMap f).length ≤ n
  | _, _, .start => Nat.zero_le n
  | s :: older, _, .step h _ => by
    by_cases hlen : n ≤ older.length
    · rw [List.filterMap_cons_none (hf s (Trail.isEnded hn hstay h hlen))]
      exact Trail.length_filterMap_le hn hstay hf h
    · exact (List.length_filterMap_le f _).trans (Nat.lt_of_not_le hlen)

end Ended

end Runs

/-! ## Computations that may fail -/

section Except

variable {ε : Type u} {β γ : Type v}

/-- Fail with `e` if the condition holds. -/
def Except.failIf (c : Prop) [Decidable c] (e : ε) : Except ε Unit :=
  if c then .error e else .ok ()

@[simp] theorem Except.failIf_eq_ok {c : Prop} [Decidable c] {e : ε} {u : Unit} :
    Except.failIf c e = .ok u ↔ ¬ c := by
  unfold Except.failIf
  split <;> simp_all

theorem Except.ok_eq_iff {α : Type v} {P : Prop} {a b : α} (h : P) :
    (.ok a : Except ε α) = .ok b ↔ P ∧ b = a :=
  ⟨fun he => ⟨h, (Except.ok.inj he).symm⟩, fun he => by rw [he.2]⟩

theorem Except.bind_eq_ok_iff {x : Except ε β} {f : β → Except ε γ} {c : γ} :
    (x >>= f) = .ok c ↔ ∃ b, x = .ok b ∧ f b = .ok c := by
  cases x with
  | error e => simp [bind, Except.bind]
  | ok b => simp [bind, Except.bind]

theorem Except.bind_eq_error_iff {x : Except ε β} {f : β → Except ε γ} {e : ε} :
    (x >>= f) = .error e ↔ x = .error e ∨ ∃ b, x = .ok b ∧ f b = .error e := by
  cases x with
  | error e' => simp [bind, Except.bind]
  | ok b => simp [bind, Except.bind]

/-- The invariant rule for a fold that may fail. -/
theorem Except.foldlM_induction {α : Type v} {f : β → α → Except ε β} {P : β → Prop}
    (hstep : ∀ b a b', P b → f b a = .ok b' → P b') :
    ∀ {as : List α} {b b' : β}, P b → as.foldlM f b = .ok b' → P b'
  | [], b, b', h, hr => by
    simp only [List.foldlM_nil, pure, Except.pure, Except.ok.injEq] at hr
    exact hr ▸ h
  | a :: as, b, b', h, hr => by
    rw [List.foldlM_cons, Except.bind_eq_ok_iff] at hr
    obtain ⟨b₁, h₁, h₂⟩ := hr
    exact Except.foldlM_induction hstep (hstep b a b₁ h h₁) h₂

/-- A traversal succeeds exactly if every item does. -/
theorem Except.mapM_eq_ok {α : Type v} {f : α → Except ε β} : ∀ {as : List α} {bs : List β},
    as.mapM f = .ok bs ↔ as.map f = bs.map .ok
  | [], bs => by
    cases bs <;> simp [pure, Except.pure]
  | a :: as, bs => by
    simp only [List.mapM_cons, Except.bind_eq_ok_iff, pure, Except.pure, Except.ok.injEq]
    constructor
    · rintro ⟨b, hb, bs', hbs, rfl⟩
      rw [List.map_cons, List.map_cons, hb, Except.mapM_eq_ok.1 hbs]
    · intro h
      cases bs with
      | nil => simp at h
      | cons b bs =>
        rw [List.map_cons, List.map_cons, List.cons.injEq] at h
        exact ⟨b, h.1, bs, Except.mapM_eq_ok.2 h.2, rfl⟩

/-- Every value of a traversal comes from an item. -/
theorem Except.exists_of_mem_mapM {α : Type v} {f : α → Except ε β} {as : List α} {bs : List β}
    (h : as.mapM f = .ok bs) {b : β} (hb : b ∈ bs) : ∃ a ∈ as, f a = .ok b := by
  have hmem : Except.ok b ∈ as.map f := by
    rw [Except.mapM_eq_ok.1 h]
    exact List.mem_map_of_mem hb
  exact List.mem_map.1 hmem

/-- Every item of a traversal gives a value. -/
theorem Except.exists_mem_of_mapM {α : Type v} {f : α → Except ε β} {as : List α} {bs : List β}
    (h : as.mapM f = .ok bs) {a : α} (ha : a ∈ as) : ∃ b ∈ bs, f a = .ok b := by
  have hmem : f a ∈ bs.map .ok := by
    rw [← Except.mapM_eq_ok.1 h]
    exact List.mem_map_of_mem ha
  obtain ⟨b, hb, hok⟩ := List.mem_map.1 hmem
  exact ⟨b, hb, hok.symm⟩

/-- What is read off the values of a traversal is read off its items. -/
theorem Except.map_of_mapM {α γ : Type v} {f : α → Except ε β} {g : β → γ} {k : α → γ} :
    ∀ {as : List α} {bs : List β}, as.mapM f = .ok bs →
      (∀ a ∈ as, ∀ b, f a = .ok b → g b = k a) → bs.map g = as.map k
  | [], bs, h, _ => by
    rw [Except.mapM_eq_ok, List.map_nil, eq_comm, List.map_eq_nil_iff] at h
    rw [h]
    rfl
  | a :: as, [], h, _ => by
    rw [Except.mapM_eq_ok] at h
    cases h
  | a :: as, b :: bs, h, hk => by
    rw [Except.mapM_eq_ok, List.map_cons, List.map_cons, List.cons.injEq,
      ← Except.mapM_eq_ok] at h
    obtain ⟨hhead, htail⟩ := List.forall_mem_cons.1 hk
    rw [List.map_cons, List.map_cons, hhead b h.1, Except.map_of_mapM h.2 htail]

/-- A traversal whose items all succeed with values in `P`. -/
theorem Except.exists_mapM_ok {α : Type v} {f : α → Except ε β} {P : β → Prop} :
    ∀ {as : List α}, (∀ a ∈ as, ∃ b, f a = .ok b ∧ P b) →
      ∃ bs, as.mapM f = .ok bs ∧ ∀ b ∈ bs, P b
  | [], _ => ⟨[], rfl, fun _ h => (by cases h)⟩
  | a :: as, h => by
    obtain ⟨b, hb, hp⟩ := h a List.mem_cons_self
    obtain ⟨bs, hbs, hall⟩ := exists_mapM_ok fun a' ha' => h a' (List.mem_cons_of_mem _ ha')
    refine ⟨b :: bs, ?_, List.forall_mem_cons.2 ⟨hp, hall⟩⟩
    rw [Except.mapM_eq_ok] at hbs ⊢
    rw [List.map_cons, List.map_cons, hb, hbs]

/-- The worker of a filter whose test may fail: what it keeps, besides what it has kept. -/
theorem Except.mem_filterAuxM {α : Type} {p : α → Except ε Bool} {a : α} :
    ∀ {as kept out : List α}, as.filterAuxM p kept = .ok out →
      (a ∈ out ↔ a ∈ kept ∨ a ∈ as ∧ p a = .ok true)
  | [], kept, out, h => by
    simp only [List.filterAuxM, pure, Except.pure, Except.ok.injEq] at h
    subst h
    simp
  | b :: as, kept, out, h => by
    rw [List.filterAuxM, Except.bind_eq_ok_iff] at h
    obtain ⟨keep, hb, h⟩ := h
    rw [Except.mem_filterAuxM h]
    cases keep with
    | true =>
      rw [cond_true, List.mem_cons, List.mem_cons]
      constructor
      · rintro ((rfl | h) | h)
        · exact Or.inr ⟨Or.inl rfl, hb⟩
        · exact Or.inl h
        · exact Or.inr ⟨Or.inr h.1, h.2⟩
      · rintro (h | ⟨rfl | h, hp⟩)
        · exact Or.inl (Or.inr h)
        · exact Or.inl (Or.inl rfl)
        · exact Or.inr ⟨h, hp⟩
    | false =>
      rw [cond_false, List.mem_cons]
      constructor
      · rintro (h | h)
        · exact Or.inl h
        · exact Or.inr ⟨Or.inr h.1, h.2⟩
      · rintro (h | ⟨rfl | h, hp⟩)
        · exact Or.inl h
        · rw [hb] at hp
          cases hp
        · exact Or.inr ⟨h, hp⟩

/-- What a filter keeps whose test may fail. -/
theorem Except.mem_filterM {α : Type} {p : α → Except ε Bool} {a : α} {as out : List α}
    (h : as.filterM p = .ok out) : a ∈ out ↔ a ∈ as ∧ p a = .ok true := by
  rw [List.filterM, Except.bind_eq_ok_iff] at h
  obtain ⟨kept, hkept, h⟩ := h
  simp only [pure, Except.pure, Except.ok.injEq] at h
  rw [← h, List.mem_reverse, Except.mem_filterAuxM hkept]
  simp

/-- A filter whose test never fails. -/
theorem Except.filterM_eq_ok {α : Type} {p : α → Except ε Bool} {q : α → Bool} {as : List α}
    (h : ∀ a ∈ as, p a = .ok (q a)) : as.filterM p = .ok (as.filter q) := by
  have hworker : ∀ (as kept : List α), (∀ a ∈ as, p a = .ok (q a)) →
      as.filterAuxM p kept = .ok ((as.filter q).reverse ++ kept) := by
    intro as
    induction as with
    | nil => exact fun kept _ => rfl
    | cons a as ih =>
      intro kept h
      obtain ⟨ha, hrest⟩ := List.forall_mem_cons.1 h
      rw [List.filterAuxM, ha]
      refine (ih _ hrest).trans ?_
      cases hq : q a <;> simp [hq]
  rw [List.filterM, hworker as [] h]
  simp [bind, Except.bind, pure, Except.pure]

/-- A check of every item. -/
theorem Except.forM_eq_ok {α : Type v} {f : α → Except ε PUnit} : ∀ {as : List α},
    as.forM f = .ok ⟨⟩ ↔ ∀ a ∈ as, f a = .ok ⟨⟩
  | [] => ⟨fun _ _ h => (by cases h), fun _ => rfl⟩
  | a :: as => by
    have hcons : (a :: as).forM f = (f a >>= fun _ => as.forM f) := rfl
    rw [hcons, Except.bind_eq_ok_iff, List.forall_mem_cons, ← Except.forM_eq_ok]
    constructor
    · rintro ⟨_, hhead, htail⟩
      exact ⟨hhead, htail⟩
    · rintro ⟨hhead, htail⟩
      exact ⟨⟨⟩, hhead, htail⟩

end Except
