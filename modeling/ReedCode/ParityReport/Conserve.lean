import ReedCode.ParityReport.Report
import Mathlib.Algebra.BigOperators.Group.List.Basic

/-!
# The parity report conserves what it counts

* `resolveFrom_tiles` — the ranges of a row tile its interval and contain every supplied one.
* `ranking_sum` — a ranking adds up the widths of its entries.
* `groups_sum` — the totals of a session are the sums over its groups.
* `processEntry_walked` — one request: its row is exact, and what it adds to the history is an
  eligible reference.
* `report_conserves` — all of it, for every mapping the report is built from.
-/

set_option autoImplicit false

namespace ReedCode.ParityReport

/-! ## Ranges -/

/-- The entries cover an interval from left to right, without gap or overlap. -/
def Tiles : Int → Int → List Value → Prop
  | start, finish, [] => start = finish
  | start, finish, entry :: entries => ∃ right, entry.get? "start" = some (.int start) ∧
      entry.get? "end" = some (.int right) ∧ start < right ∧ Tiles right finish entries

def endOf (entry : Value) : Int :=
  match entry.get "end" with
  | .int n => n
  | _ => 0

def width (entry : Value) : Int := endOf entry - startOf entry

theorem startOf_eq {entry : Value} {n : Int} (h : entry.get? "start" = some (.int n)) :
    startOf entry = n := by
  rw [startOf, Value.get, h]
  rfl

theorem endOf_eq {entry : Value} {n : Int} (h : entry.get? "end" = some (.int n)) :
    endOf entry = n := by
  rw [endOf, Value.get, h]
  rfl

theorem Tiles.le : ∀ {entries : List Value} {start finish : Int}, Tiles start finish entries →
    start ≤ finish
  | [], _, _, h => Int.le_of_eq h
  | _ :: _, _, _, ⟨_, _, _, hlt, hrest⟩ => Int.le_trans (Int.le_of_lt hlt) hrest.le

/-- The widths of the tiles add up to the interval. -/
theorem Tiles.sum_width : ∀ {entries : List Value} {start finish : Int},
    Tiles start finish entries → (entries.map width).sum = finish - start
  | [], start, finish, h => by
    rw [Tiles] at h
    simp [h]
  | entry :: entries, start, finish, ⟨right, hs, he, hlt, hrest⟩ => by
    rw [List.map_cons, List.sum_cons, hrest.sum_width, width, startOf_eq hs, endOf_eq he]
    omega

theorem Tiles.start_le : ∀ {entries : List Value} {start finish : Int},
    Tiles start finish entries → ∀ entry ∈ entries, start ≤ startOf entry
  | first :: entries, start, finish, ⟨right, hs, he, hlt, hrest⟩, entry, hmem => by
    rcases List.mem_cons.1 hmem with rfl | hmem
    · exact Int.le_of_eq (startOf_eq hs).symm
    · exact Int.le_trans (Int.le_of_lt hlt) (hrest.start_le entry hmem)

/-- No tile occurs twice. -/
theorem Tiles.nodup : ∀ {entries : List Value} {start finish : Int}, Tiles start finish entries →
    entries.Nodup
  | [], _, _, _ => List.nodup_nil
  | entry :: entries, start, finish, ⟨right, hs, he, hlt, hrest⟩ => by
    refine List.nodup_cons.2 ⟨fun hmem => ?_, hrest.nodup⟩
    have hlater := hrest.start_le entry hmem
    rw [startOf_eq hs] at hlater
    omega

theorem tiles_filler {start finish right : Int} {explanation : String} {entries : List Value}
    (h : start < right) (hrest : Tiles right finish entries) :
    Tiles start finish (filler start right explanation :: entries) :=
  ⟨right, rfl, rfl, h, hrest⟩

theorem exactInt_eq_ok {v : Value} {n : Int} : exactInt v = .ok n ↔ v = .int n := by
  cases v <;> simp [exactInt]

theorem item_eq_ok {v w : Value} {key : String} (h : item v key = .ok w) : v.get? key = some w := by
  unfold item at h
  split at h
  · split at h
    · rename_i hget
      cases h
      exact hget
    · cases h
  · cases h

theorem field_eq_ok {v w d : Value} {key : String} (h : field v key d = .ok w) :
    (v.get? key).getD d = w := by
  unfold field at h
  split at h
  · cases h
    rfl
  · cases h

/-- **The ranges tile the interval and contain every supplied entry.** -/
theorem resolveFrom_tiles {finish : Int} {explanation : String} :
    ∀ {entries out : List Value} {cursor : Int}, cursor ≤ finish →
      resolveFrom finish explanation cursor entries = .ok out →
      Tiles cursor finish out ∧ ∀ entry ∈ entries, entry ∈ out
  | [], out, cursor, hle, h => by
    rw [resolveFrom, Except.ok.injEq] at h
    subst h
    refine ⟨?_, by simp⟩
    split
    · rename_i hlt
      exact tiles_filler hlt rfl
    · rename_i hlt
      exact Int.le_antisymm hle (Int.not_lt.1 hlt)
  | entry :: entries, out, cursor, hle, h => by
    simp only [resolveFrom, Except.bind_eq_ok_iff, Except.failIf_eq_ok, exactInt_eq_ok] at h
    obtain ⟨_, hs, left, rfl, _, he, right, rfl, -, hbounds, -, -, rest, hrest, h⟩ := h
    cases h
    obtain ⟨hcursor, hlr, hright⟩ := Decidable.not_not.1 hbounds
    obtain ⟨htiles, hmem⟩ := resolveFrom_tiles hright hrest
    have hentry : Tiles left finish (entry :: rest) :=
      ⟨right, item_eq_ok hs, item_eq_ok he, hlr, htiles⟩
    refine ⟨?_, fun e he => ?_⟩
    · split
      · rename_i hlt
        exact tiles_filler hlt hentry
      · rename_i hlt
        rwa [List.nil_append, Int.le_antisymm hcursor (Int.not_lt.1 hlt)]
    · refine List.mem_append_right _ ?_
      rcases List.mem_cons.1 he with rfl | he
      · exact List.mem_cons_self
      · exact List.mem_cons_of_mem _ (hmem e he)

theorem resolveCauses_tiles {start finish : Int} {supplied : Value} {explanation : String}
    {out : List Value} (hle : start ≤ finish)
    (h : resolveCauses start finish supplied explanation = .ok out) :
    Tiles start finish out ∧
      ∃ entries, iterate supplied = .ok entries ∧ ∀ entry ∈ entries, out.count entry = 1 := by
  simp only [resolveCauses, sortByStart, Except.bind_eq_ok_iff] at h
  obtain ⟨entries, hentries, sorted, ⟨starts, -, hsorted⟩, h⟩ := h
  cases hsorted
  obtain ⟨htiles, hmem⟩ := resolveFrom_tiles hle h
  refine ⟨htiles, entries, hentries, fun entry he => ?_⟩
  exact List.count_eq_one_of_mem htiles.nodup (hmem entry ((List.perm_insertionSort _ _).mem_iff.2 he))

/-! ## Rankings -/

theorem sum_addTo (cause : String) (n : Int) : ∀ totals : List (String × Int),
    ((addTo cause n totals).map Prod.snd).sum = (totals.map Prod.snd).sum + n
  | [] => by simp [addTo]
  | (c, m) :: rest => by
    rw [addTo]
    split
    · simp only [List.map_cons, List.sum_cons]
      omega
    · simp only [List.map_cons, List.sum_cons, sum_addTo cause n rest]
      omega

theorem sum_addEntry {totals totals' : List (String × Int)} {entry : Value}
    (h : addEntry totals entry = .ok totals') :
    (totals'.map Prod.snd).sum = (totals.map Prod.snd).sum + width entry := by
  simp only [addEntry, Except.bind_eq_ok_iff, exactInt_eq_ok] at h
  obtain ⟨cause, -, _, he, right, rfl, _, hs, left, rfl, h⟩ := h
  split at h
  · cases h
    rw [sum_addTo, width, endOf_eq (item_eq_ok he), startOf_eq (item_eq_ok hs)]
  · cases h

theorem sum_foldlM_addEntry : ∀ {entries : List Value} {totals totals' : List (String × Int)},
    entries.foldlM addEntry totals = .ok totals' →
      (totals'.map Prod.snd).sum = (totals.map Prod.snd).sum + (entries.map width).sum
  | [], totals, totals', h => by
    cases h
    simp
  | entry :: entries, totals, totals', h => by
    rw [List.foldlM_cons, Except.bind_eq_ok_iff] at h
    obtain ⟨middle, hfirst, hrest⟩ := h
    rw [sum_foldlM_addEntry hrest, sum_addEntry hfirst, List.map_cons, List.sum_cons, Int.add_assoc]

/-- **A ranking adds up the widths of its entries.** -/
theorem ranking_sum {entries : List Value} {totals : List (String × Int)}
    (h : ranking entries = .ok totals) : (totals.map Prod.snd).sum = (entries.map width).sum := by
  simp only [ranking, Except.bind_eq_ok_iff] at h
  obtain ⟨unsorted, hfold, h⟩ := h
  cases h
  rw [((List.perm_insertionSort _ _).map Prod.snd).sum_eq, sum_foldlM_addEntry hfold]
  simp

/-! ## Groups -/

theorem mapM_some_sum {α : Type} {get : α → Option Nat} : ∀ {xs : List α} {counts : List Nat},
    xs.mapM get = some counts → counts.sum = (xs.map fun x => (get x).getD 0).sum
  | [], counts, h => by
    cases h
    rfl
  | x :: xs, counts, h => by
    rw [List.mapM_cons, Option.bind_eq_bind, Option.bind_eq_some_iff] at h
    obtain ⟨n, hn, h⟩ := h
    rw [Option.bind_eq_bind, Option.bind_eq_some_iff] at h
    obtain ⟨rest, hrest, h⟩ := h
    cases h
    rw [List.sum_cons, mapM_some_sum hrest, List.map_cons, List.sum_cons, hn]
    rfl

/-- What a row adds to a total. -/
def weight (get : Row → Option Nat) (row : Row) : Nat := if row.usable then (get row).getD 0 else 0

theorem sum_filter_usable (f : Row → Nat) : ∀ rows : List Row,
    ((rows.filter (·.usable)).map f).sum = (rows.map fun row => if row.usable then f row else 0).sum
  | [] => rfl
  | row :: rows => by
    rw [List.filter_cons, List.map_cons, List.sum_cons, ← sum_filter_usable f rows]
    split <;> simp

theorem total_eq {rows : List Row} {get : Row → Option Nat} {n : Nat}
    (h : total rows get = .ok n) : n = (rows.map (weight get)).sum := by
  unfold total at h
  split at h
  · rename_i counts hcounts
    cases h
    rw [mapM_some_sum hcounts, sum_filter_usable]
    rfl
  · cases h

/-- The totals of the report, each with what a row adds to it. -/
def counted : List ((Totals → Nat) × (Row → Nat)) :=
  [(Totals.requests, fun _ => 1), (Totals.usableRequests, fun row => if row.usable then 1 else 0),
    (Totals.inputTokens, weight Row.inputTokens), (Totals.cachedTokens, weight Row.cachedTokens),
    (Totals.idealTokens, weight Row.idealTokens)]

theorem aggregate_counted {rows : List Row} {t : Totals} (h : aggregate rows = .ok t) :
    ∀ f ∈ counted, f.1 t = (rows.map f.2).sum := by
  simp only [aggregate, Except.bind_eq_ok_iff] at h
  obtain ⟨input, hinput, cached, hcached, ideal, hideal, h⟩ := h
  cases h
  have husable : (rows.filter (·.usable)).length =
      (rows.map fun row => if row.usable then 1 else 0).sum := by
    rw [← sum_filter_usable (fun _ => 1)]
    simp
  simp only [counted, List.forall_mem_cons, List.not_mem_nil, false_implies, implies_true, and_true]
  exact ⟨by simp, husable, total_eq hinput, total_eq hcached, total_eq hideal⟩

/-- Every row is in one group. -/
theorem sum_groups (f : Row → Nat) : ∀ rows : List Row,
    (rows.map f).sum = ((inGroup rows .initialCold).map f).sum +
      ((inGroup rows .withinTurn).map f).sum + ((inGroup rows .crossTurn).map f).sum +
      ((inGroup rows .auxiliary).map f).sum
  | [] => rfl
  | row :: rows => by
    have ih := sum_groups f rows
    simp only [inGroup] at ih ⊢
    cases hgroup : row.group <;> simp [hgroup] <;> omega

theorem sum_main (f : Row → Nat) : ∀ rows : List Row,
    ((rows.filter fun row => row.group ≠ .auxiliary).map f).sum +
      ((inGroup rows .auxiliary).map f).sum = (rows.map f).sum
  | [] => rfl
  | row :: rows => by
    have ih := sum_main f rows
    simp only [inGroup] at ih ⊢
    cases hgroup : row.group <;> simp [hgroup] at ih ⊢ <;> omega

/-- The totals of a session are the sums over its groups. -/
def GroupsSum (report : SessionReport) : Prop :=
  ∀ f ∈ counted, f.1 report.all = f.1 report.initialCold + f.1 report.withinTurn +
      f.1 report.crossTurn + f.1 report.auxiliary ∧
    f.1 report.main + f.1 report.auxiliary = f.1 report.all

theorem groups_sum {session : Value} {rows : List Row} {report : SessionReport}
    (h : reportSession session rows = .ok report) :
    aggregate rows = .ok report.all ∧ GroupsSum report := by
  simp only [reportSession, Except.bind_eq_ok_iff] at h
  obtain ⟨cold, hcold, within, hwithin, cross, hcross, aux, haux, _, -, _, -, all, hall, main,
    hmain, h⟩ := h
  cases h
  refine ⟨hall, fun f hf => ?_⟩
  rw [aggregate_counted hall f hf, aggregate_counted hcold f hf, aggregate_counted hwithin f hf,
    aggregate_counted hcross f hf, aggregate_counted haux f hf, aggregate_counted hmain f hf]
  exact ⟨sum_groups f.2 rows, sum_main f.2 rows⟩

/-! ## References -/

/-- The request of an entry completed with status 200, its bodies have the recorded hashes, and its
clock interval is valid. -/
structure Completed (L : Library) (session entry : Value) (c : Capture) : Prop where
  capture : readCapture L entry = .ok c
  status : c.ok = true
  complete : c.complete = true
  terminal : ∃ protocol usage warnings, session.get? "protocol" = some protocol ∧
    responseUsage L c.response protocol = .ok (usage, warnings) ∧
    (usage.terminalStatus = some "completed" ∨ usage.terminalStatus = some "incomplete")
  request : c.body ≠ [] ∧ c.metadata.get "request_sha256" = .str (L.sha256 c.body)
  response : c.response ≠ [] ∧ c.metadata.get "response_sha256" = .str (L.sha256 c.response)
  clock : ∃ started ended, c.started = some started ∧ c.ended = some ended ∧ started ≤ ended

/-- The request of `entry` may refer to that of `earlier`. -/
structure Refers (L : Library) (session entry earlier : Value) : Prop where
  conversation : (earlier.get "conversation_id").pyEq (entry.get "conversation_id") = true
  worker : ((earlier.get "backend").get "worker_id").pyEq
    ((entry.get "backend").get "worker_id") = true
  epoch : ((earlier.get "backend").get "epoch").pyEq ((entry.get "backend").get "epoch") = true
  completed : ∃ c', Completed L session earlier c' ∧ ∃ c ended started,
    readCapture L entry = .ok c ∧ c'.ended = some ended ∧ c.started = some started ∧
    ended ≤ started

/-- An item of the history is that of an eligible request. -/
structure ItemExact (L : Library) (session entry : Value) (item : HistoryItem) : Prop where
  id : item.id = entry.get "id"
  tokens : loadBackend L (entry.get "backend") = .ok item.tokens
  conversation : item.conversationId = entry.get "conversation_id"
  worker : item.workerId = (entry.get "backend").get "worker_id"
  epoch : item.epoch = (entry.get "backend").get "epoch"
  completed : ∃ c, Completed L session entry c ∧ item.ended = c.ended

/-- What a row of the report says is so. -/
structure RowExact (L : Library) (causes engineRule session : Value) (entries : List Value)
    (i : Nat) (entry : Value) (row : Row) : Prop where
  ordinal : row.ordinal = i
  id : entry.get? "id" = some row.id
  references : ∃ references : List (Value × List Nat),
    row.referenceRequestIds = references.map (fun r => r.1.get "id") ∧
    (∀ r ∈ references, (∃ j < i, entries[j]? = some r.1) ∧
      loadBackend L (r.1.get "backend") = .ok r.2 ∧ Refers L session entry r.1) ∧
    ∀ ideal, row.idealTokens = some ideal → ∃ tokens longest,
      loadBackend L (entry.get "backend") = .ok tokens ∧
      IsGreatest (insert 0 {n | ∃ r ∈ references, n = lcp tokens r.2}) longest ∧
      16 ∣ ideal ∧ ideal ≤ longest ∧ longest < ideal + 16
  misses : row.usable = true → ∃ cached ideal,
    row.cachedTokens = some cached ∧ row.idealTokens = some ideal ∧
    (engineRule.truthy = true → row.eligibleIdealTokens = some row.finish) ∧
    (engineRule.truthy = false → row.finish = ideal) ∧
    Tiles (min cached row.finish : Nat) row.finish row.compatibleMisses ∧
    ∃ supplied ranges, causesOf causes row.id "compatible_misses" = .ok supplied ∧
      iterate supplied = .ok ranges ∧ ∀ range ∈ ranges, row.compatibleMisses.count range = 1
  unusable : row.usable = false → row.compatibleMisses = []

theorem foldl_max_greatest : ∀ (ns : List Nat) (m : Nat),
    IsGreatest (insert m {n | n ∈ ns}) (ns.foldl max m)
  | [], m => ⟨Set.mem_insert _ _, by simp [upperBounds]⟩
  | n :: ns, m => by
    obtain ⟨hmem, hmax⟩ := foldl_max_greatest ns (max m n)
    refine ⟨?_, ?_⟩
    · rcases hmem with heq | hmem
      · rw [List.foldl_cons]
        rcases Nat.le_total m n with hle | hle
        · rw [Nat.max_eq_right hle] at heq
          exact .inr (by rw [Nat.max_eq_right hle, heq]; exact List.mem_cons_self)
        · rw [Nat.max_eq_left hle] at heq
          exact .inl (by rw [Nat.max_eq_left hle, heq])
      · exact .inr (List.mem_cons_of_mem _ hmem)
    · have hbase := hmax (Set.mem_insert (max m n) _)
      rintro k (rfl | hk)
      · exact Nat.le_trans (Nat.le_max_left _ _) hbase
      · rcases List.mem_cons.1 hk with rfl | hk
        · exact Nat.le_trans (Nat.le_max_right _ _) hbase
        · exact hmax (.inr hk)

/-- The references that `earlierItems` finds ended before the request started. -/
theorem mem_earlierItems {history : List HistoryItem} {conversationId backend : Value}
    {started : Option Nat} {item : HistoryItem}
    (h : item ∈ earlierItems history conversationId backend started) :
    item ∈ history ∧ item.conversationId.pyEq conversationId = true ∧
      item.workerId.pyEq (backend.get "worker_id") = true ∧
      item.epoch.pyEq (backend.get "epoch") = true ∧
      ∃ ended n, item.ended = some ended ∧ started = some n ∧ ended ≤ n := by
  simp only [earlierItems, List.mem_filter, Bool.and_eq_true, Option.any_eq_true,
    decide_eq_true_eq] at h
  obtain ⟨hmem, ⟨⟨hconv, hworker⟩, hepoch⟩, ended, hended, hle⟩ := h
  refine ⟨hmem, hconv, hworker, hepoch, ended, ?_⟩
  split at hle
  · exact ⟨_, hended, rfl, Int.ofNat_le.1 hle⟩
  · omega

theorem Refers.of_item {L : Library} {session entry earlier : Value} {item : HistoryItem}
    {history : List HistoryItem} {c : Capture} (hitem : ItemExact L session earlier item)
    (hc : readCapture L entry = .ok c)
    (hmem : item ∈ earlierItems history (entry.get "conversation_id") (entry.get "backend")
      c.started) : Refers L session entry earlier := by
  obtain ⟨-, hconv, hworker, hepoch, ended, started, hended, hstarted, hle⟩ := mem_earlierItems hmem
  obtain ⟨c', hcompleted, hend⟩ := hitem.completed
  exact
    { conversation := hitem.conversation ▸ hconv
      worker := hitem.worker ▸ hworker
      epoch := hitem.epoch ▸ hepoch
      completed := ⟨c', hcompleted, c, ended, started, hc, hend ▸ hended, hstarted, hle⟩ }

/-! ## Warnings -/

theorem brokenReference_append {xs ys : List String} :
    brokenReference (xs ++ ys) = (brokenReference xs || brokenReference ys) := by
  simp [brokenReference]

/-- A capture whose warnings break no reference has a valid clock and the recorded hashes. -/
theorem captureWarnings_sound {L : Library} {c : Capture}
    (h : brokenReference (captureWarnings L c) = false) :
    (∃ started ended, c.started = some started ∧ c.ended = some ended ∧ started ≤ ended) ∧
      (c.body ≠ [] ∧ c.metadata.get "request_sha256" = .str (L.sha256 c.body)) ∧
      (c.response ≠ [] ∧ c.metadata.get "response_sha256" = .str (L.sha256 c.response)) := by
  simp only [captureWarnings, brokenReference_append, Bool.or_eq_false_iff] at h
  obtain ⟨⟨⟨-, hclock⟩, hrequest⟩, hresponse⟩ := h
  have hbroken : brokenReference ["Capture clock interval invalid"] = true := by decide +kernel
  refine ⟨?_, ?_, ?_⟩
  · unfold clockWarning at hclock
    split at hclock
    · rename_i started ended hs he
      split at hclock
      · rw [hbroken] at hclock
        cases hclock
      · rename_i hlt
        exact ⟨started, ended, hs, he, Nat.not_lt.1 hlt⟩
    · rw [hbroken] at hclock
      cases hclock
  · unfold hashWarning at hrequest
    split at hrequest
    · rw [show brokenReference ["request" ++ " body hash missing or mismatched"] = true by
        decide +kernel] at hrequest
      cases hrequest
    · rename_i hok
      rw [not_or, Decidable.not_not] at hok
      exact hok
  · unfold hashWarning at hresponse
    split at hresponse
    · rw [show brokenReference ["response" ++ " body hash missing or mismatched"] = true by
        decide +kernel] at hresponse
      cases hresponse
    · rename_i hok
      rw [not_or, Decidable.not_not] at hok
      exact hok

/-- The count of cached tokens is checked last. -/
theorem checkUsage_ok {protocol entry : Value} {usage : Usage} {n : Nat} {cached : Option Nat}
    {warnings : List String} (h : checkUsage protocol entry usage n = .ok (cached, warnings)) :
    ∃ others, warnings = others ++ cachedWarning cached n := by
  unfold checkUsage at h
  dsimp only at h
  split at h
  · simp only [Except.bind_eq_ok_iff] at h
    obtain ⟨⟨measured, ws⟩, -, input, -, h⟩ := h
    cases h
    exact ⟨_, rfl⟩
  · cases h
    exact ⟨_, rfl⟩

/-- What `measure` makes of a row. -/
structure Measured (causes engineRule entry : Value) (c : Capture) (history : List HistoryItem)
    (row : Row) (tokens : List Nat) (row' : Row) (added : Option HistoryItem) : Prop where
  id : row'.id = row.id
  ordinal : row'.ordinal = row.ordinal
  ideal : row'.idealTokens = some (idealTokens tokens
    (earlierItems history row.conversationId (entry.get "backend") c.started))
  eligible : engineRule.truthy = true → row'.eligibleIdealTokens = some row'.finish
  boundless : engineRule.truthy = false → row'.idealTokens = some row'.finish
  references : row'.referenceRequestIds =
    (earlierItems history row.conversationId (entry.get "backend") c.started).map HistoryItem.id
  misses : row'.usable = true → ∃ cached supplied, row'.cachedTokens = some cached ∧
    causesOf causes row.id "compatible_misses" = .ok supplied ∧ ∃ explanation,
      resolveCauses (min cached row'.finish : Nat) row'.finish supplied explanation =
        .ok row'.compatibleMisses
  unusable : row'.usable = false → row'.compatibleMisses = []
  added : ∀ item, added = some item → item = ⟨row.id, tokens, row.conversationId,
      (entry.get "backend").get "worker_id", (entry.get "backend").get "epoch", c.ended⟩ ∧
    completed row.usage c = true ∧ c.ok = true ∧ brokenReference row.warnings = false

theorem measure_measured {causes engineRule protocol entry : Value} {c : Capture}
    {history : List HistoryItem} {row row' : Row} {tokens : List Nat} {added : Option HistoryItem}
    (h : measure causes engineRule protocol entry c history row tokens = .ok (row', added)) :
    Measured causes engineRule entry c history row tokens row' added := by
  simp only [measure, Except.bind_eq_ok_iff] at h
  obtain ⟨⟨cached, usageWarnings⟩, husage, misses, hmisses, h⟩ := h
  cases h
  refine ⟨rfl, rfl, rfl, fun he => ?_, fun he => ?_, rfl, fun hu => ?_, fun hu => ?_,
    fun item hitem => ?_⟩
  · simp only [he, if_true, Row.finish, Option.getD_some]
  · simp only [he, Bool.false_eq_true, if_false, Row.finish, Option.getD_none, Option.getD_some]
  · dsimp only at hu ⊢
    rw [rowMisses, if_pos hu] at hmisses
    obtain ⟨supplied, hsupplied, hmisses⟩ := Except.bind_eq_ok_iff.1 hmisses
    cases cached with
    | none =>
      -- without a count the row is not usable
      obtain ⟨others, rfl⟩ := checkUsage_ok husage
      rw [List.all_eq_true] at hu
      have hcontains := hu "No measured cached-token count" (by simp [cachedWarning])
      exact absurd hcontains (by decide)
    | some cached => exact ⟨cached, supplied, rfl, hsupplied, _, hmisses⟩
  · dsimp only at hu ⊢
    rw [rowMisses, if_neg (Bool.eq_false_iff.1 hu)] at hmisses
    cases hmisses
    rfl
  · rw [Option.ite_none_right_eq_some] at hitem
    obtain ⟨hadd, hitem⟩ := hitem
    cases hitem
    simp only [Bool.and_eq_true, Bool.not_eq_true'] at hadd
    obtain ⟨⟨hcompleted, hok⟩, hbroken⟩ := hadd
    rw [brokenReference_append, brokenReference_append, brokenReference_append] at hbroken
    simp only [Bool.or_eq_false_iff] at hbroken
    exact ⟨rfl, hcompleted, hok, hbroken.1.1.1⟩

/-! ## Requests -/

theorem readHead_ok {w : Walk} {entry : Value} {head : Head} (h : readHead w entry = .ok head) :
    entry.get? "id" = some head.id ∧ head.conversationId = entry.get "conversation_id" := by
  simp only [readHead, Except.bind_eq_ok_iff] at h
  obtain ⟨id, hid, -, -, -, -, turn, -, conv, hconv, aux, -, h⟩ := h
  split at h
  · cases h
  · simp only [Except.bind_eq_ok_iff] at h
    obtain ⟨-, -, -, -, h⟩ := h
    cases h
    exact ⟨item_eq_ok hid, (field_eq_ok hconv).symm⟩

theorem loadTokens_ok {L : Library} {uses uses' : List (Value × Value × Value)} {entry : Value}
    {tokens : List Nat} {warnings : List String}
    (h : loadTokens L uses entry = .ok (some tokens, warnings, uses')) :
    loadBackend L (entry.get "backend") = .ok tokens := by
  unfold loadTokens at h
  dsimp only at h
  split at h
  · split at h
    · rename_i tokens' key hload
      cases h
      obtain ⟨loaded, hloaded, hrest⟩ := Except.bind_eq_ok_iff.1 hload
      obtain ⟨key', -, hpair⟩ := Except.bind_eq_ok_iff.1 hrest
      cases hpair
      exact hloaded
    · split at h <;> cases h
  · cases h

theorem exists_references {Q : Value × List Nat → Prop} : ∀ {items : List HistoryItem},
    (∀ item ∈ items, ∃ entry, item.id = Value.get entry "id" ∧ Q (entry, item.tokens)) →
    ∃ references : List (Value × List Nat),
      items.map HistoryItem.id = references.map (fun r => r.1.get "id") ∧
      items.map HistoryItem.tokens = references.map Prod.snd ∧ ∀ r ∈ references, Q r
  | [], _ => ⟨[], rfl, rfl, by simp⟩
  | item :: items, h => by
    obtain ⟨entry, hid, hq⟩ := h item List.mem_cons_self
    obtain ⟨references, hids, htokens, hall⟩ :=
      exists_references fun i hi => h i (List.mem_cons_of_mem _ hi)
    refine ⟨(entry, item.tokens) :: references, ?_, ?_, List.forall_mem_cons.2 ⟨hq, hall⟩⟩
    · rw [List.map_cons, List.map_cons, hids, hid]
    · rw [List.map_cons, List.map_cons, htokens]

/-- The ideal is the largest multiple of 16 within the longest prefix shared with a reference. -/
theorem idealTokens_spec {tokens : List Nat} {items : List HistoryItem}
    {references : List (Value × List Nat)}
    (h : items.map HistoryItem.tokens = references.map Prod.snd) :
    IsGreatest (insert 0 {n | ∃ r ∈ references, n = lcp tokens r.2}) (rawIdeal tokens items) ∧
      16 ∣ idealTokens tokens items ∧ idealTokens tokens items ≤ rawIdeal tokens items ∧
      rawIdeal tokens items < idealTokens tokens items + 16 := by
  have hset : {n | n ∈ items.map fun item => lcp tokens item.tokens} =
      {n | ∃ r ∈ references, n = lcp tokens r.2} := by
    have hmap : (items.map fun item => lcp tokens item.tokens) =
        references.map fun r => lcp tokens r.2 := by
      calc (items.map fun item => lcp tokens item.tokens)
          = (items.map HistoryItem.tokens).map (lcp tokens) := by rw [List.map_map]; rfl
        _ = (references.map Prod.snd).map (lcp tokens) := by rw [h]
        _ = references.map fun r => lcp tokens r.2 := by rw [List.map_map]; rfl
    ext n
    rw [hmap]
    simp [eq_comm]
  rw [← hset]
  refine ⟨foldl_max_greatest _ 0, ⟨_, rfl⟩, ?_, ?_⟩
  · exact Nat.mul_div_le _ _
  · unfold idealTokens
    omega

/-- The rows and the history of a session so far. -/
structure Walked (L : Library) (causes engineRule session : Value) (entries : List Value)
    (w : Walk) : Prop where
  rows : ∀ i row, w.rows[i]? = some row → ∃ entry, entries[i]? = some entry ∧
    RowExact L causes engineRule session entries i entry row
  history : ∀ item ∈ w.history, ∃ j entry, j < w.rows.length ∧ entries[j]? = some entry ∧
    ItemExact L session entry item

/-- A row without token IDs. -/
theorem RowExact.of_unloaded {L : Library} {causes engineRule session entry : Value}
    {entries : List Value} {i : Nat} {row : Row} (hi : row.ordinal = i)
    (hid : entry.get? "id" = some row.id) (hrefs : row.referenceRequestIds = [])
    (hideal : row.idealTokens = none) (husable : row.usable = false)
    (hmisses : row.compatibleMisses = []) :
    RowExact L causes engineRule session entries i entry row where
  ordinal := hi
  id := hid
  references := ⟨[], hrefs, by simp, fun ideal h => by rw [hideal] at h; cases h⟩
  misses h := by
    rw [husable] at h
    cases h
  unusable _ := hmisses

/-- A row whose token IDs were measured. -/
theorem RowExact.of_measured {L : Library} {causes engineRule session entry : Value}
    {entries : List Value} {w : Walk} {c : Capture} {row row' : Row} {tokens : List Nat}
    {added : Option HistoryItem} (hw : Walked L causes engineRule session entries w)
    (hc : readCapture L entry = .ok c)
    (hload : loadBackend L (entry.get "backend") = .ok tokens)
    (hi : row.ordinal = w.rows.length) (hid : entry.get? "id" = some row.id)
    (hconv : row.conversationId = entry.get "conversation_id")
    (h : Measured causes engineRule entry c w.history row tokens row' added)
    (rewrites : List Value) :
    RowExact L causes engineRule session entries w.rows.length entry
      { row' with historyRewrites := rewrites } where
  ordinal := h.ordinal.trans hi
  id := hid.trans (congrArg some h.id.symm)
  references := by
    obtain ⟨references, hids, htokens, hall⟩ := @exists_references
      (fun r => (∃ j < w.rows.length, entries[j]? = some r.1) ∧
        loadBackend L (r.1.get "backend") = .ok r.2 ∧ Refers L session entry r.1)
      (earlierItems w.history row.conversationId (entry.get "backend") c.started)
      fun item hitem => by
        obtain ⟨j, earlier, hj, hearlier, hexact⟩ := hw.history item (mem_earlierItems hitem).1
        exact ⟨earlier, hexact.id, ⟨j, hj, hearlier⟩, hexact.tokens,
          .of_item hexact hc (hconv ▸ hitem)⟩
    obtain ⟨hgreatest, hbounds⟩ := @idealTokens_spec tokens _ _ htokens
    refine ⟨references, h.references.trans hids, hall, fun ideal hideal => ?_⟩
    cases h.ideal.symm.trans hideal
    exact ⟨tokens, _, hload, hgreatest, hbounds⟩
  misses hu := by
    obtain ⟨cached, supplied, hcached, hsupplied, explanation, hresolve⟩ := h.misses hu
    obtain ⟨htiles, ranges, hranges, hcount⟩ :=
      resolveCauses_tiles (Int.ofNat_le.2 (Nat.min_le_right _ _)) hresolve
    refine ⟨cached, _, hcached, h.ideal, h.eligible, fun he => ?_, htiles, supplied, ranges, ?_,
      hranges, hcount⟩
    · exact Option.some.inj ((h.boundless he).symm.trans h.ideal)
    · rw [← hsupplied]
      exact congrArg (causesOf causes · "compatible_misses") h.id
  unusable hu := h.unusable hu

/-- What a measured request adds to the history. -/
theorem ItemExact.of_measured {L : Library} {causes engineRule session entry protocol : Value}
    {c : Capture} {history : List HistoryItem} {row row' : Row} {tokens : List Nat}
    {item : HistoryItem} {usageWarnings loadWarnings : List String}
    (hc : readCapture L entry = .ok c) (hprotocol : session.get? "protocol" = some protocol)
    (husage : responseUsage L c.response protocol = .ok (row.usage, usageWarnings))
    (hload : loadBackend L (entry.get "backend") = .ok tokens)
    (hid : entry.get? "id" = some row.id)
    (hconv : row.conversationId = entry.get "conversation_id")
    (hwarnings : row.warnings = usageWarnings ++ captureWarnings L c ++ loadWarnings)
    (h : Measured causes engineRule entry c history row tokens row' (some item)) :
    ItemExact L session entry item := by
  obtain ⟨rfl, hcompleted, hok, hbroken⟩ := h.added item rfl
  rw [hwarnings, brokenReference_append, brokenReference_append] at hbroken
  simp only [Bool.or_eq_false_iff] at hbroken
  obtain ⟨hclock, hrequest, hresponse⟩ := captureWarnings_sound hbroken.1.2
  simp only [ParityReport.completed, Bool.and_eq_true, Bool.or_eq_true, beq_iff_eq] at hcompleted
  refine ⟨?_, hload, hconv, rfl, rfl, c, ?_, rfl⟩
  · show row.id = (entry.get? "id").getD .null
    rw [hid]
    rfl
  · exact ⟨hc, hok, hcompleted.2, ⟨protocol, row.usage, usageWarnings, hprotocol, husage,
      hcompleted.1⟩, hrequest, hresponse, hclock⟩

/-- **One request**: its row is exact, and what it adds to the history may be referred to. -/
theorem processEntry_walked {L : Library} {causes engineRule session entry : Value}
    {entries : List Value} {w w' : Walk} (hw : Walked L causes engineRule session entries w)
    (hentry : entries[w.rows.length]? = some entry)
    (h : processEntry L causes engineRule session w (entry, w.rows.length) = .ok w') :
    Walked L causes engineRule session entries w' ∧ w'.rows.length = w.rows.length + 1 := by
  simp only [processEntry, Except.bind_eq_ok_iff] at h
  obtain ⟨head, hhead, c, hc, protocol, hprotocol, ⟨usage, usageWarnings⟩, husage, sessionId, -, -,
    -, ⟨tokens, loadWarnings, uses⟩, htokens, ⟨row, added⟩, hmeasure, _, -, rewrites, -, h⟩ := h
  obtain ⟨hid, hconv⟩ := readHead_ok hhead
  cases h
  -- the new row is exact, and so is the item it adds
  have hnew : RowExact L causes engineRule session entries w.rows.length entry
        { row with historyRewrites := rewrites } ∧
      ∀ item ∈ added, ItemExact L session entry item := by
    cases tokens with
    | none =>
      cases hmeasure
      exact ⟨.of_unloaded rfl hid rfl rfl rfl rfl, by simp⟩
    | some tokens =>
      have hload := loadTokens_ok htokens
      have hmeasured := measure_measured hmeasure
      refine ⟨.of_measured hw hc hload rfl hid hconv hmeasured rewrites, fun item hitem => ?_⟩
      rw [Option.mem_def] at hitem
      subst hitem
      exact .of_measured hc (item_eq_ok hprotocol) husage hload hid hconv rfl hmeasured
  refine ⟨⟨fun i row' hrow => ?_, fun item hitem => ?_⟩, by simp⟩
  · rcases Nat.lt_trichotomy i w.rows.length with hlt | rfl | hgt
    · rw [List.getElem?_append_left hlt] at hrow
      exact hw.rows i row' hrow
    · rw [List.getElem?_concat_length, Option.some.injEq] at hrow
      subst hrow
      exact ⟨entry, hentry, hnew.1⟩
    · rw [List.getElem?_eq_none (by simp; omega)] at hrow
      cases hrow
  · rcases List.mem_append.1 hitem with hitem | hitem
    · obtain ⟨j, earlier, hj, hearlier, hexact⟩ := hw.history item hitem
      exact ⟨j, earlier, by simp; omega, hearlier, hexact⟩
    · exact ⟨w.rows.length, entry, by simp, hentry, hnew.2 item (by simpa using hitem)⟩

theorem foldlM_walked {L : Library} {causes engineRule session : Value} {entries : List Value} :
    ∀ {rest : List Value} {w w' : Walk}, Walked L causes engineRule session entries w →
      entries.drop w.rows.length = rest →
      (rest.zipIdx w.rows.length).foldlM (processEntry L causes engineRule session) w = .ok w' →
      Walked L causes engineRule session entries w' ∧ w'.rows.length = w.rows.length + rest.length
  | [], w, w', hw, _, h => by
    cases h
    exact ⟨hw, rfl⟩
  | entry :: rest, w, w', hw, hdrop, h => by
    rw [List.zipIdx_cons, List.foldlM_cons, Except.bind_eq_ok_iff] at h
    obtain ⟨w₁, hfirst, hrest⟩ := h
    have hentry : entries[w.rows.length]? = some entry := by
      have := congrArg List.head? hdrop
      rwa [List.head?_drop] at this
    obtain ⟨hw₁, hlen⟩ := processEntry_walked hw hentry hfirst
    rw [← hlen] at hrest
    obtain ⟨hw', hlen'⟩ := foldlM_walked hw₁
      (by rw [hlen, ← List.drop_drop, hdrop]; rfl) hrest
    exact ⟨hw', by rw [hlen', hlen, List.length_cons]; omega⟩

/-! ## The report -/

/-- A session of the report: a row for each of its requests, and totals that add up. -/
structure SessionExact (L : Library) (causes engineRule session : Value) (report : SessionReport)
    (rows : List Row) : Prop where
  requests : ∃ requests entries, session.get? "requests" = some requests ∧
    iterate requests = .ok entries ∧ rows.length = entries.length ∧
    ∀ i row, rows[i]? = some row → ∃ entry, entries[i]? = some entry ∧
      RowExact L causes engineRule session entries i entry row
  grouped : ∀ row ∈ rows, ∃! group, row ∈ inGroup rows group
  totals : aggregate rows = .ok report.all ∧ GroupsSum report

theorem processSession_exact {L : Library} {causes engineRule session : Value} {p p' : Progress}
    (h : processSession L causes engineRule p session = .ok p') :
    ∃ report rows, SessionExact L causes engineRule session report rows ∧
      p'.sessions = p.sessions ++ [report] ∧ p'.requests = p.requests ++ rows := by
  simp only [processSession, walkSession, Except.bind_eq_ok_iff] at h
  obtain ⟨w, ⟨requests, hrequests, entries, hentries, hwalk⟩, report, hreport, h⟩ := h
  cases h
  have hstart : Walked L causes engineRule session entries
      ⟨p.ids, p.backendUses, [], [], none⟩ :=
    ⟨fun i row hrow => by simp at hrow, fun item hitem => by cases hitem⟩
  obtain ⟨hw, hlen⟩ := foldlM_walked hstart (rfl : entries.drop 0 = entries) hwalk
  refine ⟨report, w.rows, ⟨⟨requests, entries, item_eq_ok hrequests, hentries, by simpa using hlen,
    hw.rows⟩, fun row hrow => ?_, groups_sum hreport⟩, rfl, rfl⟩
  exact ⟨row.group, by simp [inGroup, hrow], fun group hgroup => by
    simpa [inGroup, hrow, eq_comm] using hgroup⟩

theorem foldlM_sessions {L : Library} {causes engineRule : Value} :
    ∀ {sessions : List Value} {p p' : Progress},
      sessions.foldlM (processSession L causes engineRule) p = .ok p' →
      ∃ parts : List (SessionReport × List Row),
        List.Forall₂ (fun session part => SessionExact L causes engineRule session part.1 part.2)
          sessions parts ∧
        p'.sessions = p.sessions ++ parts.map Prod.fst ∧
        p'.requests = p.requests ++ (parts.map Prod.snd).flatten
  | [], p, p', h => by
    cases h
    exact ⟨[], .nil, by simp, by simp⟩
  | session :: sessions, p, p', h => by
    rw [List.foldlM_cons, Except.bind_eq_ok_iff] at h
    obtain ⟨p₁, hfirst, hrest⟩ := h
    obtain ⟨report, rows, hexact, hsessions, hrequests⟩ := processSession_exact hfirst
    obtain ⟨parts, hparts, hsessions', hrequests'⟩ := foldlM_sessions hrest
    refine ⟨(report, rows) :: parts, .cons hexact hparts, ?_, ?_⟩
    · rw [hsessions', hsessions, List.append_assoc]
      rfl
    · rw [hrequests', hrequests, List.append_assoc]
      rfl

theorem forall₂_exists_left {α β : Type} {R : α → β → Prop} : ∀ {as : List α} {bs : List β},
    List.Forall₂ R as bs → ∀ {b : β}, b ∈ bs → ∃ a ∈ as, R a b
  | _, _, .cons hab hrest, b, hb => by
    rcases List.mem_cons.1 hb with rfl | hb
    · exact ⟨_, List.mem_cons_self, hab⟩
    · obtain ⟨a, ha, hr⟩ := forall₂_exists_left hrest hb
      exact ⟨a, List.mem_cons_of_mem _ ha, hr⟩

/-- The tokens that a row could have reused and did not. -/
def Row.missed (row : Row) : Int := max 0 ((row.finish : Int) - (row.cachedTokens.getD 0 : Nat))

theorem RowExact.sum_width {L : Library} {causes engineRule session entry : Value}
    {entries : List Value} {i : Nat} {row : Row}
    (h : RowExact L causes engineRule session entries i entry row) :
    (row.compatibleMisses.map width).sum = if row.usable then row.missed else 0 := by
  cases hu : row.usable with
  | false =>
    rw [h.unusable hu]
    rfl
  | true =>
    obtain ⟨cached, ideal, hcached, -, -, -, htiles, -⟩ := h.misses hu
    rw [htiles.sum_width, if_pos rfl, Row.missed, hcached, Option.getD_some]
    omega

theorem sum_missed {P : Row → Prop}
    (hP : ∀ row, P row → (row.compatibleMisses.map width).sum = if row.usable then row.missed else 0) :
    ∀ {rows : List Row}, (∀ row ∈ rows, P row) →
      ((rows.flatMap (·.compatibleMisses)).map width).sum =
        ((rows.filter (·.usable)).map Row.missed).sum
  | [], _ => rfl
  | row :: rows, h => by
    rw [List.flatMap_cons, List.map_append, List.sum_append, hP row (h row List.mem_cons_self),
      sum_missed hP fun r hr => h r (List.mem_cons_of_mem _ hr), List.filter_cons]
    split <;> simp

/-- **The report conserves what it counts.** The causes of the misses add up to what the usable rows
have missed; each session has a row for each of its requests, whose misses tile its interval, whose
ideal comes from its references, and whose references completed before it started; and the totals
of a session are the sums over its four groups. -/
theorem report_conserves (L : Library) (mapping : Value) (report : Report)
    (h : buildReport L mapping = .ok report) :
    (report.compatibleMisses.map Prod.snd).sum =
        ((report.requests.filter (·.usable)).map Row.missed).sum ∧
      ∃ value sessions, mapping.get? "sessions" = some value ∧ iterate value = .ok sessions ∧
        ∃ parts : List (SessionReport × List Row),
          report.sessions = parts.map Prod.fst ∧
          report.requests = (parts.map Prod.snd).flatten ∧
          List.Forall₂ (fun session part =>
            SessionExact L ((mapping.get? "causes").getD (.dict [])) (mapping.get "engine_boundary")
              session part.1 part.2) sessions parts := by
  simp only [buildReport, Except.bind_eq_ok_iff] at h
  obtain ⟨_, -, -, -, causes, hcauses, engineRule, hrule, -, -, value, hvalue, sessions, hsessions,
    p, hp, _, -, -, -, -, -, misses, hmisses, rewrites, -, h⟩ := h
  cases h
  have hcauses' : (mapping.get? "causes").getD (.dict []) = causes := field_eq_ok hcauses
  have hrule' : mapping.get "engine_boundary" = engineRule := field_eq_ok hrule
  rw [hcauses', hrule']
  obtain ⟨parts, hparts, hfst, hsnd⟩ := foldlM_sessions hp
  refine ⟨?_, value, _, item_eq_ok hvalue, hsessions, parts, hfst, hsnd, hparts⟩
  rw [ranking_sum hmisses]
  refine sum_missed (P := fun row => (row.compatibleMisses.map width).sum =
    if row.usable then row.missed else 0) (fun _ hrow => hrow) fun row hrow => ?_
  rw [hsnd, List.nil_append, List.mem_flatten] at hrow
  obtain ⟨rows, hrows, hrow⟩ := hrow
  obtain ⟨part, hpart, rfl⟩ := List.mem_map.1 hrows
  obtain ⟨session, -, hexact⟩ := forall₂_exists_left hparts hpart
  obtain ⟨requests, entries, -, -, -, hall⟩ := hexact.requests
  obtain ⟨i, hi⟩ := List.getElem?_of_mem hrow
  obtain ⟨entry, -, hrowExact⟩ := hall i row hi
  exact hrowExact.sum_width

/-! ## Two requests with one prompt -/

def ascii (text : String) : Bytes := text.toList.map fun c => UInt8.ofNat c.toNat

def quoted (text : String) : String := "\x22" ++ text ++ "\x22"

/-- A response that states no usage. -/
def finalEvent : String :=
  "\x7b" ++ quoted "type" ++ ":" ++ quoted "response.completed" ++ "\x7d"

def exampleResponse : Bytes := ascii ("data: " ++ finalEvent ++ "\n\n")

def exampleBody : Bytes := ascii "\x7b\x7d"

def exampleTokens : Bytes := ascii "[1,2,3,4,5,6,7,8,9,10,11,12,13,14,15,16,17]"

def exampleSha256 (bytes : Bytes) : String :=
  if bytes = exampleBody then
    "44136fa355b3678a1146ad16f7e8649e94fb4fc21fe77e8310c060f61caaff8a"
  else if bytes = exampleResponse then
    "94a6ff0e84712203a2ce4c85a679932d2697018cad9ac155f54ddce5f0106f40"
  else if bytes = exampleTokens then
    "5d8dca6dec3e54cf7d512cc74f2a9629aba24afc5c8898ae813d02706349afa3"
  else ""

/-- The metadata of a capture between two times, in pieces. -/
def metadataPieces (started ended : String) : List String :=
  ["\x7b", quoted "complete", ":true,", quoted "response_status", ":200,",
    quoted "started_monotonic_ns", ":", started, ",", quoted "ended_monotonic_ns", ":", ended, ",",
    quoted "request_sha256", ":", quoted (exampleSha256 exampleBody), ",",
    quoted "response_sha256", ":", quoted (exampleSha256 exampleResponse), "\x7d"]

def metadataText (started ended : String) : String := String.join (metadataPieces started ended)

def metadataValue (started ended : Int) : Value :=
  .dict [("complete", .bool true), ("response_status", .int 200),
    ("started_monotonic_ns", .int started), ("ended_monotonic_ns", .int ended),
    ("request_sha256", .str (exampleSha256 exampleBody)),
    ("response_sha256", .str (exampleSha256 exampleResponse))]

def exampleLibrary : Library where
  read
    | ["first", "metadata.json"] => some ((metadataPieces "1" "2").flatMap ascii)
    | ["second", "metadata.json"] => some ((metadataPieces "3" "4").flatMap ascii)
    | [_, "request.body"] => some exampleBody
    | [_, "response.body"] => some exampleResponse
    | ["tokens.json"] => some exampleTokens
    | _ => none
  pathText := "/".intercalate
  sha256 := exampleSha256
  decodeUtf8 bytes := .ok (String.ofList (bytes.map fun b => Char.ofNat b.toNat))
  loads text :=
    if text = finalEvent then .ok (.dict [("type", .str "response.completed")])
    else if text = metadataText "1" "2" then .ok (metadataValue 1 2)
    else if text = metadataText "3" "4" then .ok (metadataValue 3 4)
    else .error "Expecting value: line 1 column 1 (char 0)"
  loadsBytes bytes :=
    if bytes = exampleTokens then .ok (.list ((List.range' 1 17).map fun n => .int n))
    else .error "Expecting value: line 1 column 1 (char 0)"
  int text := .error ("invalid literal for int() with base 10: " ++ quoted text)
  text _ := ""

/-- The mapping of a request to its capture and to the token IDs of the backend. -/
def exampleRequest (id folder requestId : String) (cached : Int) : Value :=
  .dict [("id", .str id), ("user_turn", .int 1), ("conversation_id", .str "c"),
    ("capture", .str folder), ("link_evidence", .list [.str "log"]),
    ("backend", .dict [("request_id", .str requestId), ("worker_id", .str "w"),
      ("epoch", .str "e"), ("path", .str "tokens.json"),
      ("sha256", .str (exampleSha256 exampleTokens))]),
    ("backend_usage", .dict [("evidence", .str "log"), ("input_tokens", .int 17),
      ("cached_tokens", .int cached)])]

def exampleMapping : Value :=
  .dict [("block_size", .int 16), ("sessions", .list [.dict [("id", .str "s"),
    ("protocol", .str "responses"), ("requests", .list [
      exampleRequest "a" "first" "r1" 0, exampleRequest "b" "second" "r2" 5])]])]

/-- The second request could have reused the 16 tokens of its reference and reused 5. -/
theorem report_conserves_exampleMapping : ∃ report,
    buildReport exampleLibrary exampleMapping = .ok report ∧
      report.requests.map (·.referenceRequestIds) = [[], [.str "a"]] ∧
      (report.compatibleMisses.map Prod.snd).sum =
        ((report.requests.filter (·.usable)).map Row.missed).sum ∧
      (report.compatibleMisses.map Prod.snd).sum = 11 := by
  have hrun : ((buildReport exampleLibrary exampleMapping).toOption.map fun report =>
      (report.requests.map (·.referenceRequestIds), (report.compatibleMisses.map Prod.snd).sum)) =
      some ([[], [.str "a"]], 11) := by decide +kernel
  cases h : buildReport exampleLibrary exampleMapping with
  | error e =>
    rw [h] at hrun
    cases hrun
  | ok report =>
    rw [h] at hrun
    obtain ⟨hrefs, hsum⟩ := Prod.mk.inj (Option.some.inj hrun)
    exact ⟨report, rfl, hrefs, (report_conserves exampleLibrary exampleMapping report h).1, hsum⟩

end ReedCode.ParityReport
