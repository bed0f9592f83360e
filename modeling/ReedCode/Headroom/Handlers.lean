import ReedCode.Headroom.Invariant

/-!
# Every step keeps the invariant

* `Inv.handle`, `Inv.dispatch` — every handler and both kinds of dispatch succeed and keep the
  invariant.
* `Reachable.inv` — so it holds at every point of a run.
-/

set_option autoImplicit false

universe u

namespace ReedCode.Headroom

variable {T : Type u} [Zero T] {κ : Type u} [DecidableEq κ] {S : Setup T κ} {s : Simulation T κ}

/-- The computation succeeds and keeps the invariant. -/
def Keeps (S : Setup T κ) (result : Option (Simulation T κ)) : Prop :=
  ∃ s', result = some s' ∧ Inv S s'

theorem Inv.keeps (h : Inv S s) : Keeps S (some s) := ⟨s, rfl, h⟩

theorem Keeps.bind {β : Type u} {x : Option β} {b : β} {f : β → Option (Simulation T κ)}
    (hx : x = some b) (h : Keeps S (f b)) : Keeps S (x >>= f) := by
  subst hx
  exact h

/-! ## Handlers without a turn -/

theorem Inv.deactivate (h : Inv S s) (ident : String) : Inv S (s.deactivate ident) := by
  unfold Simulation.deactivate
  split
  · exact h
  · rename_i intent hintent
    obtain ⟨hknown, hkeys⟩ := h.wellFormed.intents ident intent hintent
    exact h.setIntent ⟨hknown, hkeys⟩

theorem Inv.setStatus (h : Inv S s) {ident : String} {state : WorkflowState T}
    (hstate : s.states.get? ident = some state) (status : Status) :
    Inv S (s.setStatus ident state status) :=
  h.setState hstate _ rfl

theorem Inv.handleDeadline (h : Inv S s) {ident : String} (hknown : Known S ident) :
    Keeps S (s.handleDeadline ident) := by
  obtain ⟨state, hstate, -⟩ := h.state hknown
  unfold Simulation.handleDeadline
  refine .bind hstate ?_
  split
  · exact (((h.setStatus hstate _).deactivate ident).log _).keeps
  · exact h.keeps

theorem Inv.handleReady (h : Inv S s) {ident : String} {index : Nat}
    (hturn : HasTurn S ident index) : Keeps S (s.handleReady ident index) := by
  obtain ⟨state, hstate, -⟩ := h.state hturn.known
  unfold Simulation.handleReady
  refine .bind hstate ?_
  split
  · have hdeactivated := h.deactivate ident
    refine ((hdeactivated.queue fun request hrequest => ?_).log _).keeps
    rcases List.mem_append.1 hrequest with hrequest | hrequest
    · exact hdeactivated.wellFormed.queue request hrequest
    · rw [List.mem_singleton.1 hrequest]
      exact hturn
  · exact h.keeps

variable [LinearOrder T]

theorem Inv.finishPreparation {workflow : String} {revision : Nat} {computed : List κ}
    (h : Inv S { s with cache := markAll .speculative computed s.cache })
    (hknown : Known S workflow) (hintent : (s.intents.get? workflow).isSome) :
    Keeps S (s.finishPreparation workflow revision computed) := by
  obtain ⟨state, hstate, -⟩ := h.state hknown
  obtain ⟨intent, hintent⟩ := Option.isSome_iff_exists.1 hintent
  unfold Simulation.finishPreparation
  exact .bind hintent (.bind hstate ((h.stats _).log _).keeps)

/-! ## Turns -/

/-- The turn of a known workflow. -/
theorem Inv.turn (h : Inv S s) (hw : S.workload.Valid) {ident : String} {index : Nat}
    (hturn : HasTurn S ident index) : ∃ state turn, s.states.get? ident = some state ∧
      state.workflow ∈ S.workload.workflows ∧ state.workflow.id = ident ∧
      state.workflow.turns[index]? = some turn ∧ turn.Valid S.workload.cacheBlocks index := by
  obtain ⟨workflow, hworkflow, rfl, hindex⟩ := hturn
  obtain ⟨state, hstate, rfl⟩ := h.wellFormed.states workflow hworkflow
  have hget := List.getElem?_eq_getElem hindex
  exact ⟨state, _, hstate, hworkflow, rfl, hget,
    (hw.workflows _ hworkflow).turns (_, index) (List.mk_mem_zipIdx_iff_getElem?.2 hget)⟩

theorem Inv.scheduleUpdates [Add T] {ident : String} (index : Nat) (hknown : Known S ident) :
    ∀ {updates : List (Update T)} {s : Simulation T κ},
      (∀ update ∈ updates, update.change.blocks.length ≤ S.workload.cacheBlocks) → Inv S s →
        Inv S (s.scheduleUpdates ident index updates)
  | [], _, _, h => h
  | update :: updates, s, hfit, h => by
    rw [List.forall_mem_cons] at hfit
    have hevent := h.event (.update ident index update) ⟨hknown, hfit.1⟩ nofun
      (s.now + update.atMs)
    have hrest := Inv.scheduleUpdates index hknown hfit.2 hevent
    exact hrest

variable [Sub T] [Mul T] [NatCast T]

theorem Inv.scheduleWakeup (h : Inv S s) (intent : Intent T κ) :
    Inv S (s.scheduleWakeup S intent) := by
  unfold Simulation.scheduleWakeup
  split
  · dsimp only
    split
    · exact h.event .wake trivial (fun _ heq => by cases heq) _
    · exact h
  · exact h

theorem Inv.handleUpdate (h : Inv S s) {ident : String} (index : Nat) {update : Update T}
    (hknown : Known S ident) (hfit : update.change.blocks.length ≤ S.workload.cacheBlocks) :
    Keeps S (s.handleUpdate S ident index update) := by
  obtain ⟨state, hstate, -⟩ := h.state hknown
  unfold Simulation.handleUpdate
  split
  · exact h.keeps
  · rename_i intent hintent
    split
    · exact h.keeps
    · refine .bind hstate ?_
      split
      · exact h.keeps
      · cases hchange : update.change with
        | cancel =>
          have hcancelled : IntentOk S ident { intent with
              revision := intent.revision + 1, active := false } :=
            ⟨hknown, (h.wellFormed.intents ident intent hintent).keys⟩
          exact (((h.setIntent hcancelled).setStatus hstate _).log _).keeps
        | prefixBlocks blocks =>
          rw [hchange] at hfit
          have hrevised : IntentOk S ident { intent with
              revision := intent.revision + 1, keys := S.digest.blockKeys blocks } :=
            ⟨hknown, blocks, rfl, hfit⟩
          exact (((h.setIntent hrevised).log _).scheduleWakeup _).keeps

variable [Add T]

theorem Inv.startTurn (h : Inv S s) (hw : S.workload.Valid) {ident : String} {index : Nat}
    (hturn : HasTurn S ident index) : Keeps S (s.startTurn S ident index) := by
  obtain ⟨state, turn, hstate, -, -, hget, hvalid⟩ := h.turn hw hturn
  unfold Simulation.startTurn
  refine .bind hstate ?_
  split
  · exact h.keeps
  · refine .bind hget ?_
    have hready := h.event (.ready ident index) hturn nofun (s.now + turn.waitMs)
    dsimp only
    split
    · exact hready.keeps
    · have hfit : ∀ update ∈ turn.updates,
          update.change.blocks.length ≤ S.workload.cacheBlocks := fun update hupdate =>
        hvalid.candidates_fit _ (List.mem_cons_of_mem _ (List.mem_map_of_mem hupdate))
      have hintent : IntentOk S ident (s.newIntent S index turn) :=
        ⟨hturn.known, turn.intent, rfl, hvalid.candidates_fit _ List.mem_cons_self⟩
      exact ((Inv.scheduleUpdates index hturn.known hfit (hready.setIntent hintent)).scheduleWakeup
        _).keeps

/-! ## Handlers -/

theorem Inv.finishRequest {workflow : String} {index : Nat} {keys : List κ} {ready : T}
    {cached : Nat} (h : Inv S { s with cache := markAll .ordinary keys s.cache })
    (hw : S.workload.Valid) (hturn : HasTurn S workflow index) :
    Keeps S (s.finishRequest S workflow index keys ready cached) := by
  obtain ⟨state, turn, hstate, hworkflow, rfl, hget, -⟩ := h.turn hw hturn
  unfold Simulation.finishRequest
  refine .bind hstate ?_
  have hrecorded := (h.setState hstate { state with
    turns := state.turns ++ [⟨index, ready, s.now, cached⟩] } rfl).log
      (.requestFinished state.workflow.id index)
  dsimp only
  split
  · exact hrecorded.keeps
  · split
    · refine Inv.keeps ?_
      exact hrecorded.setState (FinMap.get?_insert_self ..) _ rfl
    · rename_i hmore
      refine hrecorded.startTurn hw ⟨state.workflow, hworkflow, rfl, ?_⟩
      have hlt := (List.getElem?_eq_some_iff.1 hget).1
      omega

/-- **Every handler** succeeds on the event in front of the heap and keeps the invariant. -/
theorem Inv.handle (h : Inv S s) (hw : S.workload.Valid) {event : Event T κ}
    {events : List (Event T κ)} (hevents : s.events = event :: events) :
    Keeps S ({ s with events := events }.handle S event.action) := by
  have haction := h.wellFormed.events event (hevents ▸ List.mem_cons_self)
  cases hcase : event.action with
  | finished job =>
    rw [hcase] at haction
    cases job with
    | demand workflow index keys ready cached =>
      exact Inv.finishRequest (h.complete hevents hcase nofun) hw haction
    | speculative workflow revision computed =>
      exact Inv.finishPreparation (h.complete hevents hcase nofun) haction.1 haction.2
  | update ident index update =>
    rw [hcase] at haction
    exact (h.pop hevents (by rw [hcase]; nofun)).handleUpdate index haction.1 haction.2
  | ready ident index =>
    rw [hcase] at haction
    exact (h.pop hevents (by rw [hcase]; nofun)).handleReady haction
  | arrival ident =>
    rw [hcase] at haction
    exact (h.pop hevents (by rw [hcase]; nofun)).startTurn hw haction
  | deadline ident =>
    rw [hcase] at haction
    exact (h.pop hevents (by rw [hcase]; nofun)).handleDeadline haction
  | wake => exact (h.pop hevents (by rw [hcase]; nofun)).keeps

/-! ## Dispatch -/

omit [LinearOrder T] [Add T] [Sub T] [Mul T] [NatCast T] in
theorem Inv.popRunning (h : Inv S s) : ∀ {queue : List (Request T)},
    (∀ request ∈ queue, HasTurn S request.workflow request.index) →
      ∃ request rest, s.popRunning queue = some (request, rest) ∧
        (∀ request ∈ rest, HasTurn S request.workflow request.index) ∧
        ∀ r, request = some r → HasTurn S r.workflow r.index
  | [], _ => ⟨none, [], rfl, nofun, nofun⟩
  | request :: queue, hqueue => by
    rw [List.forall_mem_cons] at hqueue
    obtain ⟨state, hstate, -⟩ := h.state hqueue.1.known
    unfold Simulation.popRunning
    rw [hstate, Option.bind_eq_bind, Option.bind_some]
    split
    · exact Inv.popRunning h hqueue.2
    · refine ⟨some request, queue, rfl, hqueue.2, fun r hr => ?_⟩
      cases hr
      exact hqueue.1

omit [LinearOrder T] [Add T] [Sub T] [Mul T] [NatCast T] in
theorem foldl_credit : ∀ (keys : List κ) (s : Simulation T κ), ∃ stats,
    keys.foldl Simulation.credit s =
      { s with stats := stats, cache := markAll .ordinary keys s.cache }
  | [], s => ⟨s.stats, rfl⟩
  | key :: keys, s => by
    obtain ⟨stats, h⟩ := foldl_credit keys (s.credit key)
    exact ⟨stats, h⟩

omit [DecidableEq κ] in
theorem mem_take_of_not_mem_drop {key : κ} {keys : List κ} {n : Nat} (h : key ∈ keys)
    (hdrop : key ∉ keys.drop n) : key ∈ keys.take n := by
  rw [← List.take_append_drop n keys, List.mem_append] at h
  exact h.resolve_right hdrop

omit [Sub T] in
/-- A request starts: the cached blocks of its prompt are not computed again. -/
theorem Inv.startRequest (h : Inv S s) (hD : S.digest.CollisionFree) (hw : S.workload.Valid)
    (hidle : s.busy = false) {request : Request T}
    (hturn : HasTurn S request.workflow request.index) : Keeps S (s.startRequest S request) := by
  obtain ⟨state, turn, hstate, -, -, hget, hvalid⟩ := h.turn hw hturn
  unfold Simulation.startRequest
  refine .bind hstate (.bind hget ?_)
  dsimp only
  generalize hprompt : S.digest.blockKeys turn.promptBlocks = prompt
  generalize hkeys : S.digest.blockKeys (turn.promptBlocks ++ turn.generatedBlocks) = keys
  have htake : keys.take (cachedPrefix s.cache prompt) = prompt.take (cachedPrefix s.cache prompt) := by
    obtain ⟨generated, rfl⟩ : prompt <+: keys := hprompt ▸ hkeys ▸ S.digest.blockKeys_prefix _ _
    exact List.take_append_of_le_length (cachedPrefix_le s.cache prompt)
  have hfit : keys.length ≤ S.workload.cacheBlocks := by
    rw [← hkeys, S.digest.length_blockKeys]
    exact hvalid.fits
  obtain ⟨stats, hcredit⟩ := foldl_credit (prompt.take (cachedPrefix s.cache prompt)) s
  rw [hcredit]
  have hmarked := (h.remark .ordinary nofun
    fun key (hkey : key ∈ prompt.take (cachedPrefix s.cache prompt)) => cached_of_mem_take hkey).stats
      stats
  obtain ⟨s', hs', hstarted⟩ := hmarked.load hidle
    (.demand request.workflow request.index keys request.ready (cachedPrefix s.cache prompt))
    (hkeys ▸ hD.nodup _) hfit hturn
    (fun _ hkey => hkey) (fun key hkey hcomputed => by
      have hfront := mem_take_of_not_mem_drop hkey hcomputed
      rw [get?_markAll, if_pos (htake ▸ hfront)]
      rfl)
  exact .bind hs' (hstarted _ _ _).keeps

omit [Sub T] in
/-- A preparation starts: the cached blocks in front of it are not computed again. -/
theorem Inv.startPreparation (h : Inv S s) (hD : S.digest.CollisionFree) (hidle : s.busy = false)
    {ident : String} {intent : Intent T κ} (hintent : IntentOk S ident intent)
    (hsome : (s.intents.get? ident).isSome) (count : Nat) :
    Keeps S (s.startPreparation S ident intent (cachedPrefix s.cache intent.keys) count) := by
  obtain ⟨hknown, blocks, hkeys, hfit⟩ := hintent
  unfold Simulation.startPreparation
  dsimp only
  generalize htarget : intent.keys.take (cachedPrefix s.cache intent.keys + count) = target
  have hlength : target.length ≤ S.workload.cacheBlocks := by
    have hle := List.length_take_le' (cachedPrefix s.cache intent.keys + count) intent.keys
    have hall : intent.keys.length = blocks.length := by rw [hkeys, S.digest.length_blockKeys]
    rw [htarget, hall] at hle
    exact hle.trans hfit
  have hn : target.Nodup := htarget ▸ (hkeys ▸ hD.nodup blocks).sublist (List.take_sublist _ _)
  obtain ⟨s', hs', hstarted⟩ := h.load hidle
    (.speculative ident intent.revision (target.drop (cachedPrefix s.cache intent.keys))) hn hlength
    ⟨hknown, hsome⟩ (fun _ hkey => List.mem_of_mem_drop hkey) (fun key hkey hcomputed => by
      have hfront := mem_take_of_not_mem_drop hkey hcomputed
      rw [← htarget, List.take_take, Nat.min_eq_left (Nat.le_add_right _ _)] at hfront
      obtain ⟨mark, hmark, -⟩ := cached_of_mem_take hfront
      rw [hmark]
      rfl)
  exact .bind hs' (hstarted _ _ _).keeps

omit [Add T] in
theorem scheduleWakeup_fields (S : Setup T κ) (s : Simulation T κ) (intent : Intent T κ) :
    (s.scheduleWakeup S intent).busy = s.busy ∧ (s.scheduleWakeup S intent).intents = s.intents := by
  unfold Simulation.scheduleWakeup
  split
  · dsimp only
    split <;> exact ⟨rfl, rfl⟩
  · exact ⟨rfl, rfl⟩

theorem Inv.prepare (hD : S.digest.CollisionFree) (remaining : Nat) :
    ∀ {intents : List (String × Intent T κ)} {s : Simulation T κ}, Inv S s → s.busy = false →
      (∀ entry ∈ intents, IntentOk S entry.1 entry.2 ∧ (s.intents.get? entry.1).isSome) →
        Keeps S (Simulation.prepare S remaining intents s)
  | [], s, h, _, _ => h.keeps
  | (ident, intent) :: rest, s, h, hidle, hintents => by
    rw [List.forall_mem_cons] at hintents
    obtain ⟨⟨hintent, hsome⟩, hrest⟩ := hintents
    have hskip := Inv.prepare hD remaining h hidle hrest
    unfold Simulation.prepare
    split
    · exact hskip
    · obtain ⟨state, hstate, -⟩ := h.state hintent.known
      refine .bind hstate ?_
      dsimp only
      split
      · exact hskip
      · split
        · exact hskip
        · split
          · obtain ⟨hbusy, hsame⟩ := scheduleWakeup_fields S s intent
            exact Inv.prepare hD remaining (h.scheduleWakeup intent) (hbusy.trans hidle)
              (by rw [hsame]; exact hrest)
          · exact h.startPreparation hD hidle hintent hsome _

/-- **Both kinds of dispatch** succeed and keep the invariant. -/
theorem Inv.dispatch (h : Inv S s) (hD : S.digest.CollisionFree) (hw : S.workload.Valid) :
    Keeps S (s.dispatch S) := by
  unfold Simulation.dispatch
  split
  · exact h.keeps
  · rename_i hbusy
    have hidle := eq_false_of_ne_true hbusy
    obtain ⟨request, rest, hpop, hrest, hrequest⟩ := h.popRunning h.wellFormed.queue
    have hqueue := h.queue hrest
    rw [hpop, Option.bind_eq_bind, Option.bind_some]
    cases request with
    | some request => exact hqueue.startRequest hD hw hidle (hrequest request rfl)
    | none =>
      dsimp only
      split
      · exact hqueue.keeps
      · refine Inv.prepare hD _ hqueue hidle fun entry hentry => ?_
        have hget := FinMap.mem_entries.1 hentry
        refine ⟨h.wellFormed.intents _ _ hget, ?_⟩
        rw [hget]
        rfl

/-! ## Runs -/

omit [Sub T] [Mul T] [NatCast T] [DecidableEq κ] in
/-- The rule for the state in front of the loop: workflows with new ids are entered one by one. -/
theorem start_induction (hw : S.workload.Valid) {P : List (Workflow T) → Simulation T κ → Prop}
    (hnew : P [] .new) (henter : ∀ entered workflow s, P entered s →
      workflow ∈ S.workload.workflows → workflow.id ∉ entered.map (·.id) →
        P (entered ++ [workflow]) (s.enter S.workload.horizonMs workflow)) :
    P S.workload.workflows (start S).sim := by
  have hgo : ∀ (rest entered : List (Workflow T)) (s : Simulation T κ), P entered s →
      entered ++ rest = S.workload.workflows →
        P S.workload.workflows (rest.foldl (Simulation.enter S.workload.horizonMs) s) := by
    intro rest
    induction rest with
    | nil =>
      intro entered s h hall
      rw [List.append_nil] at hall
      exact hall ▸ h
    | cons workflow rest ih =>
      intro entered s h hall
      have hdistinct := hw.distinct
      rw [← hall, List.map_append, List.map_cons, List.nodup_append] at hdistinct
      refine ih (entered ++ [workflow]) _ (henter entered workflow s h ?_ ?_) ?_
      · rw [← hall]
        exact List.mem_append_right _ List.mem_cons_self
      · exact fun hmem => hdistinct.2.2 _ hmem _ List.mem_cons_self rfl
      · rw [List.append_assoc]
        exact hall
  exact hgo _ [] _ hnew rfl

omit [Sub T] [Mul T] [NatCast T] in
theorem inv_start (hw : S.workload.Valid) : Inv S (start S).sim := by
  have hall : ∀ s : Simulation T κ, s = (start S).sim →
      (∀ workflow ∈ S.workload.workflows,
        ∃ state, s.states.get? workflow.id = some state ∧ state.workflow = workflow) ∧
      (∀ event ∈ s.events, ActionOk S .empty event.action) ∧
      s.queue = [] ∧ s.intents = .empty ∧ s.cache = .empty ∧ s.history = [] ∧ s.busy = false ∧
      jobs s.events = [] := by
    rintro _ rfl
    refine start_induction (P := fun entered s => (∀ workflow ∈ entered,
        ∃ state, s.states.get? workflow.id = some state ∧ state.workflow = workflow) ∧
      (∀ event ∈ s.events, ActionOk S .empty event.action) ∧
      s.queue = [] ∧ s.intents = .empty ∧ s.cache = .empty ∧ s.history = [] ∧ s.busy = false ∧
      jobs s.events = []) hw ⟨nofun, nofun, rfl, rfl, rfl, rfl, rfl, rfl⟩ ?_
    rintro entered workflow s ⟨hstates, hevents, hrest⟩ hworkflow hid
    have hknown : Known S workflow.id := ⟨workflow, hworkflow, rfl⟩
    have hturn : HasTurn S workflow.id 0 := ⟨workflow, hworkflow, rfl,
      List.length_pos_iff.2 (hw.workflows workflow hworkflow).turns_ne_nil⟩
    refine ⟨fun wf hwf => ?_, fun event hevent => ?_, ?_⟩
    · rcases List.mem_append.1 hwf with hwf | hwf
      · obtain ⟨state, hstate, hsame⟩ := hstates wf hwf
        refine ⟨state, (FinMap.get?_insert_ne _ _ fun heq => hid ?_).trans hstate, hsame⟩
        exact heq ▸ List.mem_map_of_mem hwf
      · rw [List.mem_singleton.1 hwf]
        exact ⟨_, FinMap.get?_insert_self .., rfl⟩
    · rcases mem_push.1 hevent with rfl | hevent
      · exact hknown
      · rcases mem_push.1 hevent with rfl | hevent
        · exact hturn
        · exact hevents event hevent
    · obtain ⟨hqueue, hintents, hcache, hhistory, hbusy, hjobs⟩ := hrest
      refine ⟨hqueue, hintents, hcache, hhistory, hbusy, ?_⟩
      exact (jobs_push_of_none rfl _).trans ((jobs_push_of_none rfl _).trans hjobs)
  obtain ⟨hstates, hevents, hqueue, hintents, hcache, hhistory, hbusy, hjobs⟩ := hall _ rfl
  refine ⟨⟨hstates, ?_, ?_, ?_⟩, ?_, ?_⟩
  · rw [hintents]
    exact hevents
  · rw [hqueue]
    exact nofun
  · rw [hintents]
    exact nofun
  · rw [hcache, hhistory, hjobs]
    exact .empty
  · rw [hjobs, hbusy]
    rfl

/-- Every step of the loops succeeds and keeps the invariant. -/
theorem Inv.next {c : Config T κ} (h : Inv S c.sim) (hD : S.digest.CollisionFree)
    (hw : S.workload.Valid) : ∃ c', next S c = some c' ∧ Inv S c'.sim := by
  have hdispatch : ∃ c', (c.sim.dispatch S).map (Config.mk .loop) = some c' ∧ Inv S c'.sim := by
    obtain ⟨s', hs', hinv⟩ := h.dispatch hD hw
    exact ⟨_, by rw [hs']; rfl, hinv⟩
  unfold Headroom.next
  split
  · split
    · exact ⟨_, rfl, h.advance _⟩
    · exact ⟨_, rfl, h.advance _⟩
  · exact ⟨_, rfl, h.advance _⟩
  · split
    · obtain ⟨s', hs', hinv⟩ := h.handle hw ‹_›
      exact ⟨_, by rw [hs']; rfl, hinv⟩
    · exact hdispatch
  · exact hdispatch
  · exact ⟨c, rfl, h⟩

theorem Reachable.inv (hD : S.digest.CollisionFree) (hw : S.workload.Valid) {c : Config T κ}
    (hc : Reachable S c) : Inv S c.sim :=
  Runs.Reachable.invariant (P := fun c : Config T κ => Inv S c.sim) (inv_start hw)
    (fun c c' h hnext => by
      obtain ⟨c'', hc'', hinv⟩ := h.next hD hw
      cases hnext.symm.trans hc''
      exact hinv) hc

end ReedCode.Headroom
