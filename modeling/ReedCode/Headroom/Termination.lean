import ReedCode.Headroom.Work
import Mathlib.Data.Finset.Card
import Mathlib.Data.Prod.Lex

/-!
# Runs end

* `agenda`, `ahead` — the instants at which something can happen, and how many lie ahead.
* `rank`, `Stepped.rank_lt` — **every step lowers the work, the instants ahead or what is left of the
  instant**, in this order.
* `run_terminates` — **a run handles finitely many events**.
-/

set_option autoImplicit false

universe u

namespace ReedCode.Headroom

variable {T : Type u} [CommRing T] [LinearOrder T] {κ : Type u} [DecidableEq κ]

/-! ## The instants ahead -/

/-- The time from which an intent would be prepared as the cache stands. -/
def dueTime (S : Setup T κ) (s : Simulation T κ) (intent : Intent T κ) : T :=
  max intent.eligibleAt (intent.readyAt -
    (intent.keys.length - cachedPrefix s.cache intent.keys : Nat) * S.workload.prefillBlockMs)

/-- The times of the events and those from which the intents would be prepared. -/
def agenda (S : Setup T κ) (s : Simulation T κ) : Finset T :=
  (s.events.map (·.time) ++ s.intents.entries.map fun entry => dueTime S s entry.2).toFinset

def ahead (S : Setup T κ) (s : Simulation T κ) : Nat := ((agenda S s).filter (s.now < ·)).card

variable {S : Setup T κ} {s s' : Simulation T κ}

theorem mem_agenda {time : T} : time ∈ agenda S s ↔ (∃ e ∈ s.events, e.time = time) ∨
    ∃ entry ∈ s.intents.entries, dueTime S s entry.2 = time := by
  rw [agenda, List.mem_toFinset, List.mem_append, List.mem_map, List.mem_map]

theorem ahead_le (hagenda : ∀ time ∈ agenda S s', time ∈ agenda S s) (hnow : s.now ≤ s'.now) :
    ahead S s' ≤ ahead S s := by
  refine Finset.card_le_card fun time htime => ?_
  rw [Finset.mem_filter] at htime ⊢
  exact ⟨hagenda time htime.1, hnow.trans_lt htime.2⟩

/-- An instant that is reached lies ahead no longer. -/
theorem ahead_advance_lt {time : T} (hmem : time ∈ agenda S s) (hlater : s.now < time) :
    ahead S (s.advance time) < ahead S s := by
  have hsubset : (agenda S (s.advance time)).filter (time < ·) ⊆
      (agenda S s).filter (s.now < ·) := by
    intro t ht
    rw [Finset.mem_filter] at ht ⊢
    exact ⟨ht.1, hlater.trans ht.2⟩
  refine Finset.card_lt_card ((Finset.ssubset_iff_of_subset hsubset).2 ⟨time, ?_, ?_⟩)
  · exact Finset.mem_filter.2 ⟨hmem, hlater⟩
  · exact fun h => lt_irrefl time (Finset.mem_filter.1 h).2

/-- A wake-up is scheduled for the time from which its intent would be prepared. -/
theorem wakes_dueTime {intent : Intent T κ} {entry : T × Action T κ}
    (h : entry ∈ wakes S s intent) : entry.1 = dueTime S s intent := by
  unfold wakes at h
  split at h
  · dsimp only at h
    split at h
    · rename_i htime
      rw [List.mem_singleton.1 h]
      rw [max_assoc] at htime ⊢
      exact max_eq_right ((lt_max_iff.1 htime.1).resolve_left (lt_irrefl _)).le
    · cases h
  · cases h

theorem Waits.agenda (h : Waits S s s') {time : T} (htime : time ∈ agenda S s') :
    time ∈ agenda S s := by
  have hdue : ∀ intent, dueTime S s' intent = dueTime S s intent := fun intent => by
    rw [dueTime, dueTime, h.cache]
  rw [mem_agenda] at htime ⊢
  rcases htime with ⟨e, he, rfl⟩ | ⟨entry, hentry, rfl⟩
  · rcases h.events e he with he | ⟨-, entry, hentry, hmem⟩
    · exact .inl ⟨e, he, rfl⟩
    · exact .inr ⟨entry, hentry, (wakes_dueTime hmem).symm⟩
  · rw [h.intents] at hentry
    exact .inr ⟨entry, hentry, (hdue entry.2).symm⟩

/-! ## The rank -/

/-- The steps left in the instant. -/
def Config.left (c : Config T κ) : Nat :=
  match c.phase with
  | .done => 0
  | .loop => 1
  | .instant _ => c.sim.events.length + 2

def rank (S : Setup T κ) (c : Config T κ) : ℕ ×ₗ ℕ ×ₗ ℕ :=
  toLex (c.sim.work S, toLex (ahead S c.sim, c.left))

theorem rank_lt_of_work {c c' : Config T κ} (h : c'.sim.work S < c.sim.work S) :
    rank S c' < rank S c := Prod.Lex.toLex_lt_toLex.2 (.inl h)

theorem rank_lt_of_ahead {c c' : Config T κ} (hwork : c'.sim.work S ≤ c.sim.work S)
    (h : ahead S c'.sim < ahead S c.sim) : rank S c' < rank S c := by
  rcases hwork.lt_or_eq with hlt | heq
  · exact rank_lt_of_work hlt
  · exact Prod.Lex.toLex_lt_toLex.2 (.inr ⟨heq, Prod.Lex.toLex_lt_toLex.2 (.inl h)⟩)

theorem rank_lt_of_left {c c' : Config T κ} (hwork : c'.sim.work S ≤ c.sim.work S)
    (hahead : ahead S c'.sim ≤ ahead S c.sim) (h : c'.left < c.left) : rank S c' < rank S c := by
  rcases hahead.lt_or_eq with hlt | heq
  · exact rank_lt_of_ahead hwork hlt
  · rcases hwork.lt_or_eq with hlt' | heq'
    · exact rank_lt_of_work hlt'
    · refine Prod.Lex.toLex_lt_toLex.2 (.inr ⟨heq', Prod.Lex.toLex_lt_toLex.2 (.inr ⟨heq, h⟩)⟩)

/-! ## Steps -/

/-- Between instants all events lie ahead; only the first instant can be now. -/
structure Settled (S : Setup T κ) (c : Config T κ) : Prop where
  orderly : OrderlyAt S c
  later : c.phase = .loop → ∀ e ∈ c.sim.events, c.sim.now < e.time

/-- **Every step in front of the end lowers the rank.** -/
theorem Stepped.rank_lt (hw : S.workload.Valid) {c c' : Config T κ} (h : Settled S c)
    (hstep : Stepped S c c') (hphase : c.phase ≠ .done) : rank S c' < rank S c := by
  cases hstep with
  | @enter s event events hevents _ =>
    have hmem : event ∈ s.events := hevents ▸ List.mem_cons_self
    have hahead : ahead S (s.advance event.time) < ahead S s :=
      ahead_advance_lt (mem_agenda.2 (.inl ⟨event, hmem, rfl⟩)) (h.later rfl event hmem)
    exact rank_lt_of_ahead (work_congr rfl rfl rfl).le hahead
  | @leave s _ =>
    have hahead : ahead S (s.advance (observationEnd S.workload)) ≤ ahead S s :=
      ahead_le (fun _ ht => ht) h.orderly.now_le
    exact rank_lt_of_left (work_congr rfl rfl rfl).le hahead Nat.one_pos
  | @handle time s s' event events hevents _ hhandled =>
    have hsim := h.orderly.sim
    have hwork : s.work S = ({ s with events := events } : Simulation T κ).work S +
        event.action.work S := by
      rw [Simulation.work, Simulation.work, hevents, eventsWork_cons]
      dsimp only
      omega
    have hwf : WellFormed S { s with events := events } :=
      ⟨hsim.wellFormed.states, fun e he => hsim.wellFormed.events e (hevents ▸ List.mem_cons_of_mem _ he),
        hsim.wellFormed.queue, hsim.wellFormed.intents⟩
    have haction := hsim.wellFormed.events event (hevents ▸ List.mem_cons_self)
    rcases hhandled.work hwf hw haction with ⟨hwake, rfl⟩ | hlt
    · have hsame : s.work S = ({ s with events := events } : Simulation T κ).work S := by
        rw [hwork, hwake]
        rfl
      have hahead : ahead S { s with events := events } ≤ ahead S s := by
        refine ahead_le (fun t ht => ?_) le_rfl
        rw [mem_agenda] at ht ⊢
        refine ht.imp_left fun hevent => ?_
        obtain ⟨e, he, htime⟩ := hevent
        exact ⟨e, hevents ▸ List.mem_cons_of_mem _ he, htime⟩
      refine rank_lt_of_left hsame.ge hahead ?_
      show events.length + 2 < s.events.length + 2
      rw [hevents, List.length_cons]
      omega
    · exact rank_lt_of_work (hlt.trans_eq hwork.symm)
  | @dispatch time s s' _ hdispatched =>
    rcases hdispatched.work hw with hwaits | hlt
    · have hahead : ahead S s' ≤ ahead S s :=
        ahead_le (fun _ ht => hwaits.agenda ht) hdispatched.now.ge
      exact rank_lt_of_left hwaits.work hahead (Nat.lt_of_lt_of_le Nat.one_lt_two (Nat.le_add_left _ _))
    · exact rank_lt_of_work hlt
  | done => exact absurd rfl hphase

/-! ## Wake-ups -/

theorem Turned.wakes {ident : String} {index : Nat} (h : Turned S s ident index s')
    {e : Event T κ} (he : e ∈ s'.events) (hwake : e.action = .wake) :
    e ∈ s.events ∨ s.now < e.time := by
  cases h with
  | dead _ _ => exact .inl he
  | first _ _ _ _ =>
    rcases Simulation.mem_schedule he with he | ⟨entry, hentry, -, haction⟩
    · exact .inl he
    · rw [List.mem_singleton.1 hentry] at haction
      cases hwake.symm.trans haction
  | wait _ _ _ _ =>
    rcases Simulation.mem_schedule he with he | ⟨entry, hentry, htime, haction⟩
    · exact .inl he
    · rcases List.mem_append.1 hentry with hentry | hentry
      · rcases List.mem_cons.1 hentry with rfl | hentry
        · cases hwake.symm.trans haction
        · obtain ⟨update, -, rfl⟩ := List.mem_map.1 hentry
          cases hwake.symm.trans haction
      · rw [htime]
        exact .inr (mem_wakes hentry).2.1

theorem Handled.wakes {action : Action T κ} (h : Handled S s action s') {e : Event T κ}
    (he : e ∈ s'.events) (hwake : e.action = .wake) : e ∈ s.events ∨ s.now < e.time := by
  cases h with
  | arrival hturned => exact hturned.wakes he hwake
  | deadline _ _ =>
    rw [deactivate_eq] at he
    exact .inl he
  | revised _ _ _ _ =>
    rcases Simulation.mem_schedule he with he | ⟨entry, hentry, htime, -⟩
    · exact .inl he
    · rw [htime]
      exact .inr (mem_wakes hentry).2.1
  | requestNext _ _ _ hturned =>
    rcases hturned.wakes he hwake with he | hlater
    · exact .inl he
    · exact .inr hlater
  | _ => exact .inl he

theorem Dispatched.wakes (h : Dispatched S s s') {e : Event T κ} (he : e ∈ s'.events)
    (hwake : e.action = .wake) : e ∈ s.events ∨ s.now < e.time := by
  have hsearched : ∀ skipped, e ∈ (searched S s skipped).events → e ∈ s.events ∨ s.now < e.time := by
    intro skipped he
    rcases Simulation.mem_schedule he with he | ⟨entry, hentry, htime, -⟩
    · exact .inl he
    · obtain ⟨-, intent, -, hmem⟩ := flatMap_wakes hentry
      rw [htime]
      exact .inr (mem_wakes hmem).2.1
  cases h with
  | busy _ => exact .inl he
  | request _ _ _ _ _ _ _ _ _ =>
    rcases mem_push.1 he with rfl | he
    · cases hwake
    · exact .inl he
  | idle _ _ _ => exact hsearched _ he
  | preparation _ _ _ _ _ =>
    rcases mem_push.1 he with rfl | he
    · cases hwake
    · exact hsearched _ he

/-- **A new wake-up lies in the future.** -/
theorem Stepped.wakes {c c' : Config T κ} (h : Stepped S c c') {e : Event T κ}
    (he : e ∈ c'.sim.events) (hwake : e.action = .wake) :
    e ∈ c.sim.events ∨ c'.sim.now < e.time := by
  cases h with
  | enter _ _ => exact .inl he
  | leave _ => exact .inl he
  | handle hevents _ hhandled =>
    rcases hhandled.wakes he hwake with he | hlater
    · exact .inl (hevents ▸ List.mem_cons_of_mem _ he)
    · exact .inr ((le_of_eq hhandled.now).trans_lt hlater)
  | dispatch _ hdispatched =>
    rcases hdispatched.wakes he hwake with he | hlater
    · exact .inl he
    · exact .inr ((le_of_eq hdispatched.now).trans_lt hlater)
  | done => exact .inl he

/-! ## Runs -/

omit [DecidableEq κ] in
theorem handles_done {c : Config T κ} (h : c.phase = .done) : c.handles = none := by
  rw [Config.handles, h]

theorem next_done {c c' : Config T κ} (h : c.phase = .done) (hnext : next S c = some c') :
    c'.phase = .done := by
  cases next_stepped hnext with
  | done => rfl
  | _ => cases h

/-- A run is over after `n` steps: it handles at most `n` events, in whatever interval, and no wake-up
is scheduled for the instant that asks for it. -/
structure Terminates (S : Setup T κ) (n : Nat) : Prop where
  ends : ∀ c, Runs.iterate (next S) n (start S) = some c → c.phase = .done
  returns : S.digest.CollisionFree → ∃ c, Runs.iterate (next S) n (start S) = some c
  handled : ∀ c older, Runs.Trail (next S) (start S) (c :: older) →
    (older.filterMap Config.handles).length ≤ n
  wakes : ∀ c c', Reachable S c → next S c = some c' → ∀ e ∈ c'.sim.events, e ∉ c.sim.events →
    e.action = .wake → c'.sim.now < e.time

section Exact

variable [IsStrictOrderedRing T]

/-- What a dispatch schedules lies in the future. -/
theorem Dispatched.later (h : Orderly S s) (hw : S.workload.Valid) (hdispatched : Dispatched S s s')
    (hfuture : ∀ e ∈ s.events, s.now < e.time) : ∀ e ∈ s'.events, s.now < e.time := by
  have hsearched : ∀ skipped, ∀ e ∈ (searched S s skipped).events, s.now < e.time := by
    intro skipped e he
    rcases Simulation.mem_schedule he with he | ⟨entry, hentry, htime, -⟩
    · exact hfuture e he
    · obtain ⟨-, intent, -, hmem⟩ := flatMap_wakes hentry
      rw [htime]
      exact (mem_wakes hmem).2.1
  cases hdispatched with
  | busy _ => exact hfuture
  | @request dead rest request state turn useful victims cache _ hqueue _ hstate _ hturn _ _ _ =>
    have hindex : HasTurn S request.workflow request.index :=
      h.wellFormed.queue request (hqueue ▸ List.mem_append_right dead List.mem_cons_self)
    have hvalid := h.wellFormed.turn hw hindex.known hstate hturn
    have hcost : 0 < requestCost S s turn := by
      rw [requestCost]
      exact add_pos_of_nonneg_of_pos (Clock.mul_nonneg _ hw.prefill_pos.le) hvalid.decode_pos
    intro e he
    rcases mem_push.1 he with rfl | he
    · exact lt_add_of_pos_right s.now hcost
    · exact hfuture e he
  | idle _ _ _ => exact hsearched _
  | @preparation skipped ident intent victims cache _ _ _ hpreparable _ =>
    have hsame := searched_eq S s skipped
    have hnow : (searched S s skipped).now = s.now := by rw [hsame]
    have hchunk : chunk S (searched S s skipped) intent = chunk S s intent := by
      rw [hsame]
      rfl
    have hcost : 0 < (chunk S s intent : T) * S.workload.prefillBlockMs :=
      mul_pos (Nat.cast_pos.2 (hpreparable.chunk_pos hw)) hw.prefill_pos
    intro e he
    rcases mem_push.1 he with rfl | he
    · show s.now < (searched S s skipped).now +
        (chunk S (searched S s skipped) intent : T) * S.workload.prefillBlockMs
      rw [hnow, hchunk]
      exact lt_add_of_pos_right s.now hcost
    · exact hsearched skipped e he

theorem OrderlyAt.settled_next (hw : S.workload.Valid) {c c' : Config T κ} (h : OrderlyAt S c)
    (hstep : Stepped S c c') : Settled S c' := by
  refine ⟨h.stepped hw hstep, fun hphase => ?_⟩
  cases hstep with
  | enter _ _ => cases hphase
  | leave _ => cases hphase
  | handle _ _ _ => cases hphase
  | dispatch hlater hdispatched =>
    have hnow := hdispatched.now
    have hfuture := hdispatched.later h.sim hw (h.settled rfl hlater)
    exact fun e he => (le_of_eq hnow).trans_lt (hfuture e he)
  | done => cases hphase

theorem exists_ends (hw : S.workload.Valid) : ∃ n, ∀ c,
    Runs.iterate (next S) n (start S) = some c → c.phase = .done := by
  have hsettled : ∀ c, Settled S c → ∃ n, ∀ c', Runs.iterate (next S) n c = some c' →
      c'.phase = .done := by
    refine Runs.exists_iterate_of_wf wellFounded_lt (rank S) fun c c' h hphase hnext => ?_
    have hstep := next_stepped hnext
    exact ⟨h.orderly.settled_next hw hstep, hstep.rank_lt hw h hphase⟩
  -- the first instant can be that of the start
  cases hnext : next S (start S) with
  | none =>
    refine ⟨1, fun c h => ?_⟩
    obtain ⟨c', hc', -⟩ := Option.bind_eq_some_iff.1 h
    cases hnext.symm.trans hc'
  | some c =>
    obtain ⟨n, hn⟩ := hsettled c ((orderly_start hw).settled_next hw (next_stepped hnext))
    refine ⟨n + 1, fun c' h => ?_⟩
    obtain ⟨first, hfirst, hrest⟩ := Option.bind_eq_some_iff.1 h
    cases hnext.symm.trans hfirst
    exact hn c' hrest

/-- **`run` terminates**, whatever the workload and the policy. -/
theorem run_terminates (hvalid : validate S.workload = .ok ()) : ∃ n, Terminates S n := by
  have hw := validate_eq_ok.1 hvalid
  obtain ⟨n, hn⟩ := exists_ends hw
  refine ⟨n, hn, fun hD => ?_, fun c older htrail => ?_, fun c c' _ hnext e he hnew hwake => ?_⟩
  · refine Runs.exists_iterate (fun c hc => ?_) n
    obtain ⟨c', hc', -⟩ := (Reachable.inv hD hw hc).next hD hw
    rw [hc']
    rfl
  · exact htrail.length_filterMap_le hn (fun _ _ => next_done) fun _ => handles_done
  · exact ((next_stepped hnext).wakes he hwake).resolve_left hnew

/-- Wake-ups, revisions and preparations of the sample. -/
theorem run_terminates_sample : ∃ n, Terminates ⟨pathDigest, sampleWorkload, .futureTiming⟩ n :=
  run_terminates sampleWorkload_valid

end Exact

end ReedCode.Headroom
