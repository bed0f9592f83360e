import ReedCode.PreparationCredit.Analyze

/-!
# The ceiling and the matching preparation

* `foregroundCeiling_spec`, `foregroundCeiling_least` — the ceiling of a request is the least one
  that dominates every ordinary request that entered before its first output.
* `matchingFrom_spec`, `matchingFrom_attained` — the matching tokens are the most that a finished
  preparation shares with the prompt.
-/

set_option autoImplicit false

namespace ReedCode.PreparationCredit

/-! ## Whole blocks -/

theorem aligned_le (n : Int) : aligned n ≤ n := Int.ediv_mul_le n (by decide)

theorem aligned_mono {m n : Int} (h : m ≤ n) : aligned m ≤ aligned n :=
  Int.mul_le_mul_of_nonneg_right (Int.ediv_le_ediv (by decide) h) (by decide)

/-- The whole blocks that two prompts share. -/
theorem aligned_prefixLength_le_iff {prompt tokens : Tokens} {c : Int} :
    aligned (prefixLength prompt tokens) ≤ c ↔
      ∀ n : Nat, Lists.Shared prompt tokens n → aligned n ≤ c := by
  constructor
  · intro h n hn
    have hle : (n : Int) ≤ prefixLength prompt tokens := Int.ofNat_le.2 (Lists.shared_iff.1 hn)
    exact (aligned_mono hle).trans h
  · intro h
    exact h _ (Lists.shared_iff.2 le_rfl)

theorem tokensOf_eq_ok {ids : Option Tokens} {tokens : Tokens} :
    tokensOf ids = .ok tokens ↔ ids = some tokens := by
  cases ids <;> simp [tokensOf]

/-! ## The foreground -/

/-- The request `other`, of the same cache, entered before `bound`. -/
structure Earlier (ix : Index) (rid : String) (current : Entry) (bound : Int) (other : String)
    (entry : Entry) : Prop where
  ne : other ≠ rid
  entered : ix.entries.get? other = some entry
  salt : entry.cacheSalt = current.cacheSalt
  before : entry.workerMonotonicNs < bound

/-- What `other` can have left in the cache is `tokens`, its prompt and its output.  Where it did
not finish there can be more behind them, which `prompt` does not go on to. -/
structure Leaves (ix : Index) (prompt : Tokens) (other : String) (entry : Entry)
    (tokens : Tokens) : Prop where
  known : ∃ result own ids, ix.results.get? other = some result ∧
    generated result = .ok (some ids) ∧ entry.promptIds = some own ∧ tokens = own ++ ids ∧
    (result.terminal ≠ "finished" → ¬ (tokens <+: prompt ∧ tokens ≠ prompt))

/-- The cache holds at most `ceiling` tokens of the prompt of `current` because of `other`. -/
def Dominated (ix : Index) (current : Entry) (ceiling : Int) (other : String) (entry : Entry) :
    Prop :=
  ∃ prompt tokens, current.promptIds = some prompt ∧ Leaves ix prompt other entry tokens ∧
    ∀ n : Nat, Lists.Shared prompt tokens n → aligned n ≤ ceiling

section Ceiling

variable {ix : Index} {rid : String} {current : Entry} {bound best c : Int} {other : String}
  {rest : List String}

/-- Requests that are not earlier are passed over. -/
theorem ceilingFrom_cons_skip (h : ∀ entry, ¬ Earlier ix rid current bound other entry) :
    ceilingFrom ix rid current bound best (other :: rest) =
      ceilingFrom ix rid current bound best rest := by
  rw [ceilingFrom]
  split
  · rfl
  · rename_i hne
    cases hentry : ix.entries.get? other with
    | none => rfl
    | some entry =>
      refine if_pos ?_
      by_contra hcon
      rw [not_or, not_not, not_le] at hcon
      exact h entry ⟨hne, hentry, hcon.1, hcon.2⟩

/-- An earlier request raises the ceiling to the blocks it shares, or makes it unknown. -/
theorem ceilingFrom_cons_earlier {entry : Entry} (h : Earlier ix rid current bound other entry) :
    ceilingFrom ix rid current bound best (other :: rest) = .ok (some c) ↔
      ∃ prompt tokens, current.promptIds = some prompt ∧ Leaves ix prompt other entry tokens ∧
        ceilingFrom ix rid current bound (max best (aligned (prefixLength prompt tokens))) rest =
          .ok (some c) := by
  have hrelevant : ¬ (entry.cacheSalt ≠ current.cacheSalt ∨ bound ≤ entry.workerMonotonicNs) := by
    rw [not_or, not_not, not_le]
    exact ⟨h.salt, h.before⟩
  rw [ceilingFrom, if_neg h.ne, h.entered]
  simp only [if_neg hrelevant]
  constructor
  · intro hok
    cases hresult : ix.results.get? other with
    | none => simp [hresult] at hok
    | some result =>
      rw [hresult] at hok
      obtain ⟨out, hgen, hok⟩ := Except.bind_eq_ok_iff.1 hok
      cases out with
      | none => cases hok
      | some ids =>
        obtain ⟨own, hown, hok⟩ := Except.bind_eq_ok_iff.1 hok
        obtain ⟨prompt, hprompt, hok⟩ := Except.bind_eq_ok_iff.1 hok
        rw [tokensOf_eq_ok] at hown hprompt
        by_cases hhidden : result.terminal ≠ "finished" ∧
            prefixLength prompt (own ++ ids) = (own ++ ids).length ∧
              (own ++ ids).length < prompt.length
        · rw [if_pos hhidden] at hok
          cases hok
        · rw [if_neg hhidden] at hok
          refine ⟨prompt, own ++ ids, hprompt, ⟨result, own, ids, hresult, hgen, hown, rfl, ?_⟩, hok⟩
          intro hunfinished hproper
          exact hhidden ⟨hunfinished, Lists.properPrefix_iff.2 hproper⟩
  · rintro ⟨prompt, tokens, hprompt, ⟨result, own, ids, hresult, hgen, hown, rfl, hhidden⟩, hok⟩
    rw [hresult]
    refine Except.bind_eq_ok_iff.2 ⟨some ids, hgen, ?_⟩
    refine Except.bind_eq_ok_iff.2 ⟨own, tokensOf_eq_ok.2 hown, ?_⟩
    refine Except.bind_eq_ok_iff.2 ⟨prompt, tokensOf_eq_ok.2 hprompt, ?_⟩
    rw [if_neg ?_]
    · exact hok
    · rintro ⟨hunfinished, hproper⟩
      exact hhidden hunfinished (Lists.properPrefix_iff.1 hproper)

theorem ceilingFrom_spec : ∀ {ids : List String} {best : Int},
    ceilingFrom ix rid current bound best ids = .ok (some c) →
      best ≤ c ∧ ∀ other ∈ ids, ∀ entry, Earlier ix rid current bound other entry →
        Dominated ix current c other entry
  | [], best, h => by
    simp only [ceilingFrom, Except.ok.injEq, Option.some.injEq] at h
    exact ⟨le_of_eq h, fun _ hmem => by cases hmem⟩
  | other :: rest, best, h => by
    by_cases hearlier : ∃ entry, Earlier ix rid current bound other entry
    · obtain ⟨entry, hentry⟩ := hearlier
      obtain ⟨prompt, tokens, hprompt, hleaves, hrest⟩ := (ceilingFrom_cons_earlier hentry).1 h
      obtain ⟨hbest, hall⟩ := ceilingFrom_spec hrest
      refine ⟨(le_max_left _ _).trans hbest, List.forall_mem_cons.2 ⟨?_, hall⟩⟩
      intro entry' hentry'
      have hsame : entry' = entry := by
        have hget := hentry'.entered
        rw [hentry.entered, Option.some.injEq] at hget
        exact hget.symm
      subst hsame
      exact ⟨prompt, tokens, hprompt, hleaves,
        aligned_prefixLength_le_iff.1 ((le_max_right _ _).trans hbest)⟩
    · have hskip : ∀ entry, ¬ Earlier ix rid current bound other entry := not_exists.1 hearlier
      rw [ceilingFrom_cons_skip hskip] at h
      obtain ⟨hbest, hall⟩ := ceilingFrom_spec h
      exact ⟨hbest, List.forall_mem_cons.2
        ⟨fun entry hentry => absurd hentry (hskip entry), hall⟩⟩

theorem ceilingFrom_least : ∀ {ids : List String} {best : Int},
    (∀ other ∈ ids, ∀ entry, Earlier ix rid current bound other entry →
      Dominated ix current c other entry) → best ≤ c →
      ∃ least, ceilingFrom ix rid current bound best ids = .ok (some least) ∧ least ≤ c
  | [], best, _, hbest => ⟨best, rfl, hbest⟩
  | other :: rest, best, hall, hbest => by
    obtain ⟨hother, hrest⟩ := List.forall_mem_cons.1 hall
    by_cases hearlier : ∃ entry, Earlier ix rid current bound other entry
    · obtain ⟨entry, hentry⟩ := hearlier
      obtain ⟨prompt, tokens, hprompt, hleaves, hshared⟩ := hother entry hentry
      obtain ⟨least, hleast, hle⟩ := ceilingFrom_least hrest
        (max_le hbest (aligned_prefixLength_le_iff.2 hshared))
      exact ⟨least, (ceilingFrom_cons_earlier hentry).2 ⟨prompt, tokens, hprompt, hleaves, hleast⟩,
        hle⟩
    · rw [ceilingFrom_cons_skip (not_exists.1 hearlier)]
      exact ceilingFrom_least hrest hbest

/-- **A known ceiling dominates the foreground.** -/
theorem foregroundCeiling_spec {normalIds : List String}
    (h : foregroundCeiling ix rid normalIds = .ok (some c)) :
    ∃ current output, ix.entries.get? rid = some current ∧ ix.firstOutput.get? rid = some output ∧
      0 ≤ c ∧ ∀ other ∈ normalIds, ∀ entry,
        Earlier ix rid current output.workerMonotonicNs other entry →
          Dominated ix current c other entry := by
  unfold foregroundCeiling at h
  cases hcurrent : ix.entries.get? rid with
  | none => simp [hcurrent] at h
  | some current =>
    cases houtput : ix.firstOutput.get? rid with
    | none => simp [hcurrent, houtput] at h
    | some output =>
      simp only [hcurrent, houtput] at h
      obtain ⟨hzero, hall⟩ := ceilingFrom_spec h
      exact ⟨current, output, rfl, rfl, hzero, hall⟩

/-- No ceiling that dominates the foreground is lower. -/
theorem foregroundCeiling_least {output : Output} {normalIds : List String}
    (hcurrent : ix.entries.get? rid = some current) (houtput : ix.firstOutput.get? rid = some output)
    (hzero : 0 ≤ c) (hall : ∀ other ∈ normalIds, ∀ entry,
      Earlier ix rid current output.workerMonotonicNs other entry →
        Dominated ix current c other entry) :
    ∃ least, foregroundCeiling ix rid normalIds = .ok (some least) ∧ least ≤ c := by
  unfold foregroundCeiling
  simp only [hcurrent, houtput]
  exact ceilingFrom_least hall hzero

end Ceiling

/-! ## Finished preparations -/

/-- The preparation `prepId` finished before `entry` and can have left `own` in its cache. -/
structure Prepared (ix : Index) (salt : String) (entry : Entry) (prepId : String) (own : Tokens) :
    Prop where
  known : ∃ prep result, ix.entries.get? prepId = some prep ∧ ix.results.get? prepId = some result ∧
    prep.cacheSalt = some salt ∧ result.workerMonotonicNs < entry.workerMonotonicNs ∧
    prep.promptIds = some own

section Matching

variable {ix : Index} {salt : String} {entry : Entry}

/-- A preparation counts for the blocks that it shares with the prompt. -/
theorem matchingFrom_cons {best m : Int} {prepId : String} {rest : List String}
    (h : matchingFrom ix salt entry best (prepId :: rest) = .ok m) :
    (∃ prompt own, entry.promptIds = some prompt ∧ Prepared ix salt entry prepId own ∧
      matchingFrom ix salt entry (max best (aligned (prefixLength prompt own))) rest = .ok m) ∨
    (∀ own, ¬ Prepared ix salt entry prepId own) ∧
      matchingFrom ix salt entry best rest = .ok m := by
  rw [matchingFrom] at h
  cases hprep : ix.entries.get? prepId with
  | none => simp [hprep] at h
  | some prep =>
    cases hresult : ix.results.get? prepId with
    | none => simp [hprep, hresult] at h
    | some result =>
      simp only [hprep, hresult] at h
      by_cases hfits : prep.cacheSalt = some salt ∧
          result.workerMonotonicNs < entry.workerMonotonicNs
      · rw [if_pos hfits] at h
        obtain ⟨prompt, hprompt, h⟩ := Except.bind_eq_ok_iff.1 h
        obtain ⟨own, hown, h⟩ := Except.bind_eq_ok_iff.1 h
        rw [tokensOf_eq_ok] at hprompt hown
        exact Or.inl ⟨prompt, own, hprompt,
          ⟨prep, result, hprep, hresult, hfits.1, hfits.2, hown⟩, h⟩
      · rw [if_neg hfits] at h
        refine Or.inr ⟨?_, h⟩
        rintro own ⟨prep', result', hprep', hresult', hsalt, hbefore, -⟩
        rw [hprep, Option.some.injEq] at hprep'
        rw [hresult, Option.some.injEq] at hresult'
        subst hprep' hresult'
        exact hfits ⟨hsalt, hbefore⟩

theorem matchingFrom_spec {m : Int} : ∀ {ids : List String} {best : Int},
    matchingFrom ix salt entry best ids = .ok m →
      best ≤ m ∧ ∀ prepId ∈ ids, ∀ own, Prepared ix salt entry prepId own →
        ∃ prompt, entry.promptIds = some prompt ∧ aligned (prefixLength prompt own) ≤ m
  | [], best, h => by
    simp only [matchingFrom, Except.ok.injEq] at h
    exact ⟨le_of_eq h, fun _ hmem => by cases hmem⟩
  | prepId :: rest, best, h => by
    rcases matchingFrom_cons h with ⟨prompt, own, hprompt, hprep, hrest⟩ | ⟨hskip, hrest⟩
    · obtain ⟨hbest, hall⟩ := matchingFrom_spec hrest
      refine ⟨(le_max_left _ _).trans hbest, List.forall_mem_cons.2 ⟨?_, hall⟩⟩
      intro own' hprep'
      have hsame : own' = own := by
        obtain ⟨prep, result, hp, -, -, -, hown⟩ := hprep
        obtain ⟨prep', result', hp', -, -, -, hown'⟩ := hprep'
        rw [hp, Option.some.injEq] at hp'
        subst hp'
        rw [hown, Option.some.injEq] at hown'
        exact hown'.symm
      subst hsame
      exact ⟨prompt, hprompt, (le_max_right _ _).trans hbest⟩
    · obtain ⟨hbest, hall⟩ := matchingFrom_spec hrest
      exact ⟨hbest, List.forall_mem_cons.2 ⟨fun own hprep => absurd hprep (hskip own), hall⟩⟩

/-- The matching tokens are those of a preparation, unless there are none. -/
theorem matchingFrom_attained {m : Int} : ∀ {ids : List String} {best : Int},
    matchingFrom ix salt entry best ids = .ok m → m = best ∨
      ∃ prepId ∈ ids, ∃ prompt own, entry.promptIds = some prompt ∧
        Prepared ix salt entry prepId own ∧ m = aligned (prefixLength prompt own)
  | [], best, h => by
    simp only [matchingFrom, Except.ok.injEq] at h
    exact Or.inl h.symm
  | prepId :: rest, best, h => by
    rcases matchingFrom_cons h with ⟨prompt, own, hprompt, hprep, hrest⟩ | ⟨-, hrest⟩
    · rcases matchingFrom_attained hrest with hm | ⟨later, hmem, hlater⟩
      · rcases max_choice best (aligned (prefixLength prompt own)) with hmax | hmax
        · exact Or.inl (hm.trans hmax)
        · exact Or.inr ⟨prepId, List.mem_cons_self, prompt, own, hprompt, hprep, hm.trans hmax⟩
      · exact Or.inr ⟨later, List.mem_cons_of_mem _ hmem, hlater⟩
    · rcases matchingFrom_attained hrest with hm | ⟨later, hmem, hlater⟩
      · exact Or.inl hm
      · exact Or.inr ⟨later, List.mem_cons_of_mem _ hmem, hlater⟩

end Matching

end ReedCode.PreparationCredit
