import ReedCode.Lib.Runs

/-!
# Noninterference of runs

An observer of a system sees only some of its inputs.  A relation on states says what the
observer can tell apart; `Unwinding` collects what a single step owes the observer:

* a hidden input leaves the state, for the observer, as it was;
* a visible input takes two states that look alike to two states that look alike.

`Unwinding.run` is the run rule: two runs with the same visible inputs, however many hidden
ones stand between them, end in states that look alike.  `Except.Related` compares two
computations that may fail, step by step; `Related.bind` and `Related.foldlM` compose it.
`Option.Rel` is an equivalence when the relation it lifts is one.  `Runs.lockstep` is the rule for
two systems that step side by side for a while.
-/

set_option autoImplicit false

universe u v

namespace Runs

variable {σ : Type u} {α : Type v}

/-- What one step owes an observer who sees the inputs `visible` and tells states apart by
`Alike`. -/
structure Unwinding (step : σ → α → Option σ) (visible : α → Bool) (Alike : σ → σ → Prop) :
    Prop where
  equivalence : Equivalence Alike
  hidden : ∀ {s a s'}, visible a = false → step s a = some s' → Alike s s'
  seen : ∀ {s t a s' t'}, Alike s t → visible a = true → step s a = some s' →
    step t a = some t' → Alike s' t'

variable {step : σ → α → Option σ} {visible : α → Bool} {Alike : σ → σ → Prop}

/-- A run of hidden inputs shows the observer nothing. -/
theorem Unwinding.run_hidden (hu : Unwinding step visible Alike) : ∀ {as : List α} {s s' : σ},
    (∀ a ∈ as, ¬ visible a = true) → run step s as = some s' → Alike s s'
  | [], s, s', _, hr => by
    rw [run_nil, Option.some.injEq] at hr
    exact hr ▸ hu.equivalence.refl s
  | a :: as, s, s', hall, hr => by
    obtain ⟨s₁, h₁, h₂⟩ := (run_cons_eq_some step).1 hr
    have hfirst : Alike s s₁ :=
      hu.hidden (Bool.eq_false_iff.2 (hall a List.mem_cons_self)) h₁
    exact hu.equivalence.trans hfirst
      (hu.run_hidden (fun b hb => hall b (List.mem_cons_of_mem a hb)) h₂)

/-- **The run rule.**  Runs that agree on the visible inputs end alike. -/
theorem Unwinding.run (hu : Unwinding step visible Alike) :
    ∀ {as bs : List α} {s t s' t' : σ}, Alike s t → as.filter visible = bs.filter visible →
      Runs.run step s as = some s' → Runs.run step t bs = some t' → Alike s' t'
  | [], bs, s, t, s', t', hst, hvis, hs, ht => by
    rw [run_nil, Option.some.injEq] at hs
    have hquiet : Alike t t' :=
      hu.run_hidden (List.filter_eq_nil_iff.1 (hvis.symm.trans List.filter_nil)) ht
    exact hs ▸ hu.equivalence.trans hst hquiet
  | a :: as, bs, s, t, s', t', hst, hvis, hs, ht => by
    obtain ⟨s₁, hs₁, hs₂⟩ := (run_cons_eq_some step).1 hs
    cases ha : visible a with
    | false =>
      have hst₁ : Alike s₁ t :=
        hu.equivalence.trans (hu.equivalence.symm (hu.hidden ha hs₁)) hst
      rw [List.filter_cons_of_neg (by simp [ha])] at hvis
      exact hu.run hst₁ hvis hs₂ ht
    | true =>
      -- the other run meets the same visible input after some hidden ones
      rw [List.filter_cons_of_pos ha] at hvis
      obtain ⟨before, after, rfl, hbefore, -, hafter⟩ := List.filter_eq_cons_iff.1 hvis.symm
      obtain ⟨t₁, ht₁, ht₂⟩ := (run_append_eq_some step).1 ht
      obtain ⟨t₂, ht₃, ht₄⟩ := (run_cons_eq_some step).1 ht₂
      have hst₁ : Alike s t₁ := hu.equivalence.trans hst (hu.run_hidden hbefore ht₁)
      exact hu.run (hu.seen hst₁ ha hs₁ ht₃) hafter.symm hs₂ ht₄

end Runs

/-! ## Optional values -/

namespace Option

variable {α : Type u} {R : α → α → Prop}

theorem Rel.refl (h : ∀ a, R a a) : ∀ x : Option α, Rel R x x
  | .none => .none
  | .some a => .some (h a)

theorem Rel.symm (h : ∀ {a b}, R a b → R b a) : ∀ {x y : Option α}, Rel R x y → Rel R y x
  | _, _, .none => .none
  | _, _, .some hab => .some (h hab)

theorem Rel.trans (h : ∀ {a b c}, R a b → R b c → R a c) :
    ∀ {x y z : Option α}, Rel R x y → Rel R y z → Rel R x z
  | _, _, _, .none, .none => .none
  | _, _, _, .some hab, .some hbc => .some (h hab hbc)

theorem Rel.exists_of_some {a : α} {y : Option α} (h : Rel R (Option.some a) y) :
    ∃ b, y = Option.some b ∧ R a b := by
  cases h with
  | some hab => exact ⟨_, rfl, hab⟩

theorem Rel.map {β γ δ : Type u} {R : α → β → Prop} {S : γ → δ → Prop} {f : α → γ} {g : β → δ}
    (h : ∀ a b, R a b → S (f a) (g b)) : ∀ {x : Option α} {y : Option β}, Rel R x y →
      Rel S (x.map f) (y.map g)
  | _, _, .none => .none
  | _, _, .some hab => .some (h _ _ hab)

theorem Rel.bind {β γ δ : Type u} {R : α → β → Prop} {S : γ → δ → Prop} {f : α → Option γ}
    {g : β → Option δ} (h : ∀ a b, R a b → Rel S (f a) (g b)) : ∀ {x : Option α} {y : Option β},
      Rel R x y → Rel S (x.bind f) (y.bind g)
  | _, _, .none => .none
  | _, _, .some hab => h _ _ hab

/-- Related optional values, with what they are. -/
theorem Rel.cases {β : Type u} {R : α → β → Prop} {x : Option α} {y : Option β} (h : Rel R x y) :
    x = Option.none ∧ y = Option.none ∨
      ∃ a b, x = Option.some a ∧ y = Option.some b ∧ R a b := by
  cases h with
  | none => exact .inl ⟨rfl, rfl⟩
  | some hab => exact .inr ⟨_, _, rfl, rfl, hab⟩

theorem Rel.swap {β : Type u} {R : α → β → Prop} : ∀ {x : Option α} {y : Option β}, Rel R x y →
    Rel (fun b a => R a b) y x
  | _, _, .none => .none
  | _, _, .some hab => .some hab

/-- Lists that are related element by element are so at every index. -/
theorem Rel.getElem? {β : Type u} {R : α → β → Prop} {xs : List α} {ys : List β}
    (h : List.Forall₂ R xs ys) (k : Nat) : Rel R xs[k]? ys[k]? := by
  induction h generalizing k with
  | nil => exact .none
  | cons hxy _ ih =>
    cases k with
    | zero => exact .some hxy
    | succ k => exact ih k

end Option

/-! ## Lockstep -/

namespace Runs

variable {σ : Type u} {next next' : σ → Option σ} {start start' : σ} {R : σ → σ → Prop}

/-- **The lockstep rule.**  While a run is early, the other is at a related point after as many
steps. -/
theorem lockstep {Early : σ → Prop} (hstart : R start start')
    (hback : ∀ s s', Reachable next start s → next s = some s' → Early s' → Early s)
    (hstep : ∀ s t, R s t → Option.Rel (fun s' t' => R s' t' ∨ ¬ Early s' ∧ ¬ Early t')
      (next s) (next' t)) : ∀ (n : Nat) (s : σ), iterate next n start = some s → Early s →
        ∃ t, iterate next' n start' = some t ∧ R s t
  | 0, s, h, _ => by
    cases h
    exact ⟨start', rfl, hstart⟩
  | n + 1, s', h, hearly => by
    rw [iterate_succ] at h
    obtain ⟨s, hs, hnext⟩ := Option.bind_eq_some_iff.1 h
    obtain ⟨t, ht, hst⟩ := lockstep hstart hback hstep n s hs
      (hback s s' (Reachable.iterate .start hs) hnext hearly)
    have hrel := hstep s t hst
    rw [hnext] at hrel
    cases hnext' : next' t with
    | none =>
      rw [hnext'] at hrel
      cases hrel
    | some t' =>
      rw [hnext'] at hrel
      refine ⟨t', by rw [iterate_succ, ht]; exact hnext', ?_⟩
      cases hrel with
      | some hor => exact hor.resolve_right fun hlate => hlate.1 hearly

/-- When a run is late after some steps, every early state comes before. -/
theorem exists_iterate_lt {Early : σ → Prop}
    (hback : ∀ s s', Reachable next start s → next s = some s' → Early s' → Early s) {k : Nat}
    {late : σ} (hk : iterate next k start = some late) (hlate : ¬ Early late) {s : σ}
    (hs : Reachable next start s) (hearly : Early s) :
    ∃ n < k, iterate next n start = some s := by
  induction hs with
  | start =>
    refine ⟨0, Nat.pos_of_ne_zero fun hzero => ?_, rfl⟩
    subst hzero
    cases hk
    exact hlate hearly
  | @step s s' hs hnext ih =>
    obtain ⟨n, hn, hiterate⟩ := ih (hback s s' hs hnext hearly)
    have hsucc : iterate next (n + 1) start = some s' := by
      rw [iterate_succ, hiterate]
      exact hnext
    refine ⟨n + 1, Nat.lt_of_le_of_ne hn fun heq => ?_, hsucc⟩
    subst heq
    cases hsucc.symm.trans hk
    exact hlate hearly

end Runs

/-! ## Computations that fail alike -/

namespace Except

variable {ε : Type u} {α β γ δ : Type v}

/-- Both fail with one error, or both succeed with related results. -/
inductive Related (R : α → β → Prop) : Except ε α → Except ε β → Prop
  | ok {a : α} {b : β} : R a b → Related R (.ok a) (.ok b)
  | error (e : ε) : Related R (.error e) (.error e)

variable {R : α → β → Prop} {S : γ → δ → Prop}

theorem Related.bind {x : Except ε α} {y : Except ε β} {f : α → Except ε γ} {g : β → Except ε δ}
    (h : Related R x y) (hfg : ∀ a b, R a b → Related S (f a) (g b)) :
    Related S (x >>= f) (y >>= g) := by
  cases h with
  | ok hab => exact hfg _ _ hab
  | error e => exact .error e

/-- The same computation first, related continuations after it. -/
theorem Related.bind_same {x : Except ε α} {f : α → Except ε γ} {g : α → Except ε δ}
    (hfg : ∀ a, Related S (f a) (g a)) : Related S (x >>= f) (x >>= g) := by
  cases x with
  | ok a => exact hfg a
  | error e => exact .error e

theorem Related.of_ok {x : Except ε α} {y : Except ε β} {a : α} {b : β} (h : Related R x y)
    (hx : x = .ok a) (hy : y = .ok b) : R a b := by
  cases h with
  | ok hab =>
    cases hx
    cases hy
    exact hab
  | error e => cases hx

/-- One succeeds if the other does. -/
theorem Related.ok_left {x : Except ε α} {y : Except ε β} {a : α} (h : Related R x y)
    (hx : x = .ok a) : ∃ b, y = .ok b ∧ R a b := by
  cases h with
  | ok hab =>
    cases hx
    exact ⟨_, rfl, hab⟩
  | error e => cases hx

theorem Related.foldlM {ι : Type v} {f : α → ι → Except ε α} {g : β → ι → Except ε β}
    (hfg : ∀ a b i, R a b → Related R (f a i) (g b i)) :
    ∀ {is : List ι} {a : α} {b : β}, R a b → Related R (is.foldlM f a) (is.foldlM g b)
  | [], _, _, h => .ok h
  | i :: is, a, b, h => by
    rw [List.foldlM_cons, List.foldlM_cons]
    exact (hfg a b i h).bind fun a' b' h' => Related.foldlM hfg h'

end Except
