import ReedCode.KvCollector.Ledger

/-!
# A complete ledger is exact

* `Since` — the changes published since the last clear event, for a run in which every frame
  after it repeats its predecessor or is the valid batch with the next number.
* `published` — what is held after some changes, whatever the ledger does.
* `complete_exact` — a ledger that says it is complete holds just what was published since the
  last clear; its blocks are in its history at all times, the history keeps its records until a
  clear, and a repeated frame changes nothing.

A batch that fails midway keeps its partial updates, so the blocks are described by a relation
(`Tracks`) that every event preserves, and completeness is only read off at the end of a frame.
-/

set_option autoImplicit false

namespace ReedCode.KvCollector

/-! ## What was published -/

/-- A change to one key. -/
inductive Change where
  | stored (key : String) (record : Record)
  | removed (key : String)
  deriving DecidableEq, Repr

def Change.key : Change → String
  | stored key _ => key
  | removed key => key

def Change.record? : Change → Option Record
  | stored _ record => some record
  | removed _ => none

/-- The block of a key after some changes: the record stored last, unless it was removed since. -/
def published (changes : List Change) (key : String) : Option Record :=
  changes.foldl (fun held change => if change.key = key then change.record? else held) none

/-- The record stored last for a key. -/
def recorded (changes : List Change) (key : String) : Option Record :=
  changes.foldl (fun held change => if change.key = key then change.record?.or held else held) none

/-- One block of a stored event: its 16 tokens, and the block before it as its parent. -/
def storedRecord (parent : Option String) (hashes : List String) (tokenIds : Value)
    (e : String × Nat) : Option Change :=
  (tokenIds.slice? (16 * e.2) (16 * (e.2 + 1))).map fun tokens =>
    .stored e.1 ⟨if e.2 = 0 then parent else hashes[e.2 - 1]?, tokens⟩

/-- The changes of an event that is no clear event. -/
def KvEvent.changes : KvEvent → Option (List Change)
  | allBlocksCleared => none
  | blockRemoved hashes => some (hashes.map .removed)
  | blockStored parent hashes tokenIds =>
    hashes.zipIdx.mapM (storedRecord parent hashes tokenIds)

/-- The changes of events none of which is a clear event. -/
def changes : List KvEvent → Option (List Change)
  | [] => some []
  | event :: events => do
    let first ← event.changes
    let rest ← changes events
    return first ++ rest

/-- The records stored for one key are equal. -/
def Consistent (cs : List Change) : Prop :=
  cs.Pairwise fun a b => a.key = b.key →
    ∀ r ∈ a.record?, ∀ r' ∈ b.record?, r.same r' = true

/-- The frames carry a batch with this number, all of whose events pass their checks. -/
def Reads (L : Library) (topic : Bytes) (frames : List Bytes) (sequence : Nat)
    (events : List KvEvent) : Prop :=
  ∃ payload batch values, layout topic frames = some (sequence, payload) ∧
    L.decode payload = .ok batch ∧ batchEvents batch = some values ∧
    values.mapM readEvent = .ok events

/-- The frames ended with a clear event and these changes after it: every frame since the last
clear event is an exact repeat of its predecessor or the valid batch with the next number. -/
inductive Since (L : Library) (topic : Bytes) : List (List Bytes) → List Change → Prop
  | cleared {earlier : List (List Bytes)} {frames : List Bytes} {n : Nat}
      {before after : List KvEvent} {cs : List Change} :
      Reads L topic frames n (before ++ .allBlocksCleared :: after) → changes after = some cs →
      Since L topic (earlier ++ [frames]) cs
  | repeated {earlier : List (List Bytes)} {frames : List Bytes} {cs : List Change} :
      Since L topic (earlier ++ [frames]) cs → Since L topic (earlier ++ [frames, frames]) cs
  | next {earlier : List (List Bytes)} {frames frames' : List Bytes} {n : Nat} {payload : Bytes}
      {events : List KvEvent} {cs cs' : List Change} :
      Since L topic (earlier ++ [frames]) cs → layout topic frames = some (n, payload) →
      Reads L topic frames' (n + 1) events → changes events = some cs' →
      Since L topic (earlier ++ [frames, frames']) (cs ++ cs')

theorem published_concat (cs : List Change) (c : Change) (key : String) :
    published (cs ++ [c]) key = if c.key = key then c.record? else published cs key := by
  simp [published]

theorem recorded_concat (cs : List Change) (c : Change) (key : String) :
    recorded (cs ++ [c]) key = if c.key = key then c.record?.or (recorded cs key)
      else recorded cs key := by
  simp [recorded]

/-- What is held was stored. -/
theorem mem_of_published {cs : List Change} {key : String} {record : Record}
    (h : published cs key = some record) : ∃ c ∈ cs, c.record? = some record := by
  induction cs using List.reverseRecOn with
  | nil => cases h
  | append_singleton cs last ih =>
    rw [published_concat] at h
    split at h
    · exact ⟨last, by simp, h⟩
    · obtain ⟨c, hc, hrec⟩ := ih h
      exact ⟨c, List.mem_append_left _ hc, hrec⟩

/-- Every record stored for a key equals the one stored last. -/
theorem recorded_same {cs : List Change} (h : Consistent cs) {c : Change} (hc : c ∈ cs)
    {r : Record} (hr : c.record? = some r) :
    ∃ seen, recorded cs c.key = some seen ∧ (seen = r ∨ r.same seen = true) := by
  induction cs using List.reverseRecOn with
  | nil => cases hc
  | append_singleton cs last ih =>
    obtain ⟨hcs, -, hlast⟩ := List.pairwise_append.1 h
    rw [recorded_concat]
    rcases List.mem_append.1 hc with hmem | hmem
    · obtain ⟨seen, hseen, hsame⟩ := ih hcs hmem
      split
      · rename_i hkey
        cases hrec : last.record? with
        | none => exact ⟨seen, by simpa using hseen, hsame⟩
        | some r' =>
          exact ⟨r', rfl, .inr (hlast c hmem last List.mem_cons_self hkey.symm r hr r' hrec)⟩
      · exact ⟨seen, hseen, hsame⟩
    · rw [List.mem_singleton] at hmem
      subst hmem
      exact ⟨r, by rw [if_pos rfl, hr]; rfl, .inl rfl⟩

theorem Record.same_trans {a b c : Record} (hab : a.same b = true) (hbc : b.same c = true) :
    a.same c = true := by
  simp only [Record.same, Bool.and_eq_true, beq_iff_eq] at hab hbc ⊢
  exact ⟨hab.1.trans hbc.1, Value.pyEq_trans hab.2 hbc.2⟩

/-- Storing a record that equals the one stored last keeps the changes consistent. -/
theorem Consistent.concat {cs : List Change} (h : Consistent cs) {key : String} {record : Record}
    (hseen : ∀ seen, recorded cs key = some seen → seen.same record = true) :
    Consistent (cs ++ [.stored key record]) := by
  refine List.pairwise_append.2 ⟨h, List.pairwise_singleton _ _, ?_⟩
  rintro c hc last hlast hkey r hr r' hr'
  rw [List.mem_singleton] at hlast
  subst hlast
  cases hr'
  obtain ⟨seen, hrec, hsame⟩ := recorded_same h hc hr
  have hlater := hseen seen (by rw [← hrec]; exact congrArg (recorded cs) hkey.symm)
  rcases hsame with rfl | hsame
  · exact hlater
  · exact Record.same_trans hsame hlater

/-! ## Events -/

/-- The ledger holds what some changes have published. -/
structure Tracks (ledger : PublishedBlocks) (cs : List Change) : Prop where
  blocks : ∀ key, ledger.blocks.get? key = published cs key
  history : ∀ key, ledger.history.get? key = recorded cs key
  consistent : Consistent cs
  tokens : ∀ c ∈ cs, ∀ r, c.record? = some r → r.tokenIds.len? = some 16

theorem Tracks.nil {ledger : PublishedBlocks} (hb : ledger.blocks = .empty)
    (hh : ledger.history = .empty) : Tracks ledger [] where
  blocks key := by rw [hb]; rfl
  history key := by rw [hh]; rfl
  consistent := List.Pairwise.nil
  tokens := by simp

theorem Tracks.remove {p : Progress} {cs : List Change} (h : Tracks p.ledger cs) (key : String) :
    Tracks (p.remove key).ledger (cs ++ [.removed key]) where
  blocks k := by
    rw [published_concat, ← h.blocks k]
    simp only [Progress.remove, FinMap.get?_erase]
    rfl
  history k := by
    rw [recorded_concat, ← h.history k]
    simp [Progress.remove, Change.record?]
  consistent := by
    refine List.pairwise_append.2 ⟨h.consistent, List.pairwise_singleton _ _, ?_⟩
    rintro c - last hlast - r - r' hr'
    rw [List.mem_singleton] at hlast
    subst hlast
    cases hr'
  tokens c hc r hr := by
    rcases List.mem_append.1 hc with hc | hc
    · exact h.tokens c hc r hr
    · rw [List.mem_singleton] at hc
      subst hc
      cases hr

theorem Tracks.store {p : Progress} {cs : List Change} (h : Tracks p.ledger cs) {key : String}
    {record : Record} (hlen : record.tokenIds.len? = some 16)
    (hseen : ∀ seen, p.ledger.history.get? key = some seen → seen.same record = true) :
    Tracks (p.store key record).ledger (cs ++ [.stored key record]) where
  blocks k := by
    rw [published_concat, ← h.blocks k]
    simp only [Progress.store, FinMap.get?_insert]
    rfl
  history k := by
    rw [recorded_concat, ← h.history k]
    simp only [Progress.store, FinMap.get?_insert, Change.record?, Option.some_or]
    rfl
  consistent := h.consistent.concat fun seen hrec => hseen seen ((h.history key).trans hrec)
  tokens c hc r hr := by
    rcases List.mem_append.1 hc with hc | hc
    · exact h.tokens c hc r hr
    · rw [List.mem_singleton] at hc
      subst hc
      cases hr
      exact hlen

/-- What events without a clear event do to a ledger. -/
structure Applies (p p' : Progress) (cs : List Change) : Prop where
  flag : p'.ledger.completeSinceClear = p.ledger.completeSinceClear
  tracks : ∀ {older : List Change}, Tracks p.ledger older → Tracks p'.ledger (older ++ cs)

theorem Applies.nil (p : Progress) : Applies p p [] :=
  ⟨rfl, fun h => by rwa [List.append_nil]⟩

theorem Applies.append {p p' p'' : Progress} {cs cs' : List Change} (h : Applies p p' cs)
    (h' : Applies p' p'' cs') : Applies p p'' (cs ++ cs') where
  flag := h'.flag.trans h.flag
  tracks ht := by
    rw [← List.append_assoc]
    exact h'.tracks (h.tracks ht)

theorem applies_remove : ∀ (hashes : List String) (p : Progress),
    Applies p (hashes.foldl Progress.remove p) (hashes.map .removed)
  | [], p => .nil p
  | key :: hashes, p => by
    have hfirst : Applies p (p.remove key) [.removed key] := ⟨rfl, fun h => h.remove key⟩
    exact hfirst.append (applies_remove hashes (p.remove key))

/-- The loop over the hashes of a stored event stores its blocks. -/
theorem storeBlocks_ok {tokenIds : Value} {hashes : List String} {first : Option String}
    (hlen : tokenIds.len? = some (16 * hashes.length)) :
    ∀ {keys before : List String} {parent : Option String} {p p' : Progress},
      hashes = before ++ keys →
      parent = (if before.length = 0 then first else hashes[before.length - 1]?) →
      storeBlocks tokenIds before.length parent keys p = .ok p' →
      ∃ cs, (keys.zipIdx before.length).mapM (storedRecord first hashes tokenIds) = some cs ∧
        Applies p p' cs
  | [], before, parent, p, p', _, _, h => by
    cases h
    exact ⟨[], rfl, .nil p⟩
  | key :: keys, before, parent, p, p', hsplit, hparent, h => by
    rw [storeBlocks] at h
    split at h
    · cases h
    · rename_i tokens htokens
      dsimp only at h
      split at h
      · cases h
      · rename_i hsame
        have hcut : before.length + 1 ≤ hashes.length := by
          rw [hsplit, List.length_append, List.length_cons]
          omega
        have htoken : tokens.len? = some 16 := by
          rw [Value.len?_slice? hlen (by omega) (by omega) htokens]
          congr 1
          omega
        have hrest : storeBlocks tokenIds (before ++ [key]).length (some key) keys
            (p.store key ⟨parent, tokens⟩) = .ok p' := by
          rwa [List.length_append]
        have hsplit' : hashes = (before ++ [key]) ++ keys := by
          rw [hsplit]
          simp
        obtain ⟨cs, hcs, happlies⟩ := storeBlocks_ok hlen hsplit' (by simp [hsplit]) hrest
        have hfirst : Applies p (p.store key ⟨parent, tokens⟩) [.stored key ⟨parent, tokens⟩] := by
          refine ⟨rfl, fun ht => ht.store htoken fun seen hseen => ?_⟩
          rw [hseen] at hsame
          simpa using hsame
        refine ⟨.stored key ⟨parent, tokens⟩ :: cs, ?_, hfirst.append happlies⟩
        rw [List.length_append, List.length_singleton] at hcs
        rw [List.zipIdx_cons, List.mapM_cons, hcs, storedRecord, htokens, ← hparent]
        rfl

/-! ## Keys -/

theorem digitChar_inj : ∀ m < 16, ∀ n < 16, hexDigit m = hexDigit n → m = n := by decide

theorem hex_inj : ∀ {a b : Bytes}, hex a = hex b → a = b := by
  intro a b h
  rw [hex, hex, String.ofList_inj] at h
  induction a generalizing b with
  | nil =>
    cases b with
    | nil => rfl
    | cons y ys => cases h
  | cons x xs ih =>
    cases b with
    | nil => cases h
    | cons y ys =>
      simp only [List.flatMap_cons, List.cons_append, List.nil_append, List.cons.injEq] at h
      have hx := x.toNat_lt
      have hy := y.toNat_lt
      have hhigh := digitChar_inj _ (by omega) _ (by omega) h.1
      have hlow := digitChar_inj _ (by omega) _ (by omega) h.2.1
      rw [ih h.2.2, UInt8.toNat_inj.1 (by omega : x.toNat = y.toNat)]

/-- Different hashes have different keys. -/
theorem hashKey_inj {v w : Value} {key : String} (hv : hashKey v = .ok key)
    (hw : hashKey w = .ok key) : v = w := by
  have hcross : ∀ (b : Bytes) (n : Nat), "bytes:" ++ hex b ≠ "int:" ++ toString n := by
    intro b n h
    have h' := congrArg String.toList h
    simp at h'
  unfold hashKey at hv hw
  split at hv
  · cases hv
    split at hw
    · rw [Except.ok.injEq, String.append_right_inj] at hw
      rw [hex_inj hw]
    · split at hw
      · rw [Except.ok.injEq] at hw
        exact absurd hw.symm (hcross _ _)
      · cases hw
    · cases hw
  · split at hv
    · rename_i hn
      cases hv
      split at hw
      · rw [Except.ok.injEq] at hw
        exact absurd hw (hcross _ _)
      · split at hw
        · rename_i m hm
          rw [Except.ok.injEq, String.append_right_inj] at hw
          rw [Nat.toString_eq_repr, Nat.toString_eq_repr, Nat.repr_eq_ofList_toDigits,
            Nat.repr_eq_ofList_toDigits, String.ofList_inj] at hw
          have hnat := congrArg (fun digits => Nat.ofDigitChars 10 digits 0) hw
          simp only [Nat.ofDigitChars_ten_toDigits] at hnat
          rw [← Int.toNat_of_nonneg hn, ← Int.toNat_of_nonneg hm, hnat]
        · cases hw
      · cases hw
    · cases hv
  · cases hv

theorem orTypeError_eq_ok {α : Type} {x : Option α} {a : α} : orTypeError x = .ok a ↔ x = some a := by
  cases x <;> simp [orTypeError]

/-- A stored event has 16 tokens for each of its hashes. -/
theorem readEvent_stored {event tokenIds : Value} {parent : Option String} {hashes : List String}
    (h : readEvent event = .ok (.blockStored parent hashes tokenIds)) :
    tokenIds.len? = some (16 * hashes.length) := by
  simp only [readEvent, Except.bind_eq_ok_iff] at h
  obtain ⟨-, -, h⟩ := h
  split at h
  · cases h
  · simp only [Except.bind_eq_ok_iff] at h
    obtain ⟨-, -, -, -, -, -, values, -, elements, -, keys, -, h⟩ := h
    split at h
    · cases h
    · simp only [readStored, Except.bind_eq_ok_iff, Except.failIf_eq_ok] at h
      obtain ⟨-, -, ids, -, n, hn, -, hlen, -, -, extra, -, -, -, first, -, key, -, h⟩ := h
      cases h
      rw [Decidable.not_not] at hlen
      subst hlen
      exact orTypeError_eq_ok.1 hn

/-- **What an event does**: a clear event empties the ledger and completes it, any other one
applies its changes. -/
theorem acceptEvent_ok {p p' : Progress} {value : Value} (h : acceptEvent p value = .ok p') :
    ∃ event, readEvent value = .ok event ∧
      ((event = .allBlocksCleared ∧ p' = p.clear) ∨
        ∃ cs, event.changes = some cs ∧ Applies p p' cs) := by
  unfold acceptEvent at h
  split at h
  · cases h
  · rename_i hread
    cases h
    exact ⟨_, hread, .inl ⟨rfl, rfl⟩⟩
  · rename_i hashes hread
    cases h
    exact ⟨_, hread, .inr ⟨_, rfl, applies_remove hashes p⟩⟩
  · rename_i parent hashes tokenIds hread
    obtain ⟨cs, hcs, happlies⟩ := storeBlocks_ok (readEvent_stored hread)
      (List.nil_append hashes).symm rfl h
    exact ⟨_, hread, .inr ⟨cs, hcs, happlies⟩⟩

theorem changes_cons {event : KvEvent} {events : List KvEvent} {cs cs' : List Change}
    (h : event.changes = some cs) (h' : changes events = some cs') :
    changes (event :: events) = some (cs ++ cs') := by
  rw [changes, h, h']
  rfl

/-- **What the events of a valid batch do**: they apply their changes, or those after the last
clear event to an empty ledger, which is then complete. -/
theorem acceptEvents_ok : ∀ {values : List Value} {p p' : Progress},
    acceptEvents p values = .ok p' →
      ∃ events, values.mapM readEvent = .ok events ∧
        ((∃ cs, changes events = some cs ∧ Applies p p' cs) ∨
          ∃ before after cs, events = before ++ .allBlocksCleared :: after ∧
            changes after = some cs ∧ p'.ledger.completeSinceClear = true ∧ Tracks p'.ledger cs)
  | [], p, p', h => by
    cases h
    exact ⟨[], rfl, .inl ⟨[], rfl, .nil p⟩⟩
  | value :: values, p, p', h => by
    rw [acceptEvents, List.foldlM_cons, Except.bind_eq_ok_iff] at h
    obtain ⟨p₁, hfirst, hrest⟩ := h
    obtain ⟨event, hread, hevent⟩ := acceptEvent_ok hfirst
    obtain ⟨events, hreads, hevents⟩ := acceptEvents_ok hrest
    refine ⟨event :: events, by rw [List.mapM_cons, hread, hreads]; rfl, ?_⟩
    rcases hevents with ⟨cs', hcs', happlies'⟩ | ⟨before, after, cs', rfl, hcs', hflag, htracks⟩
    · rcases hevent with ⟨rfl, rfl⟩ | ⟨cs, hcs, happlies⟩
      · -- the changes behind the clear event apply to the emptied ledger
        refine .inr ⟨[], events, cs', rfl, hcs', happlies'.flag, ?_⟩
        exact happlies'.tracks (Tracks.nil rfl rfl : Tracks p.clear.ledger [])
      · exact .inl ⟨cs ++ cs', changes_cons hcs hcs', happlies.append happlies'⟩
    · exact .inr ⟨event :: before, after, cs', rfl, hcs', hflag, htracks⟩

/-! ## What is kept in every outcome -/

/-- Every block is in the history with an equal record. -/
def Held (ledger : PublishedBlocks) : Prop :=
  ∀ key record, ledger.blocks.get? key = some record → ledger.history.get? key = some record

/-- From a ledger after `n` clear events to one after `n'`: the blocks stay in the history, and the
history keeps its records unless there was a clear event. -/
structure Keeps (n : Nat) (ledger : PublishedBlocks) (n' : Nat) (ledger' : PublishedBlocks) :
    Prop where
  clears : n ≤ n'
  held : Held ledger → Held ledger'
  history : n' = n → ∀ key record, ledger.history.get? key = some record →
    ∃ record', ledger'.history.get? key = some record' ∧
      (record' = record ∨ record.same record' = true)

theorem Keeps.of_eq {ledger ledger' : PublishedBlocks} (n : Nat)
    (hb : ledger'.blocks = ledger.blocks) (hh : ledger'.history = ledger.history) :
    Keeps n ledger n ledger' where
  clears := Nat.le_refl n
  held h key record hr := by
    rw [hh]
    exact h key record (hb ▸ hr)
  history _ key record hr := ⟨record, by rw [hh]; exact hr, .inl rfl⟩

theorem Keeps.trans {n n' n'' : Nat} {ledger ledger' ledger'' : PublishedBlocks}
    (h : Keeps n ledger n' ledger') (h' : Keeps n' ledger' n'' ledger'') :
    Keeps n ledger n'' ledger'' where
  clears := Nat.le_trans h.clears h'.clears
  held hl := h'.held (h.held hl)
  history hn key record hr := by
    have := h.clears
    have := h'.clears
    obtain ⟨record', hr', hsame⟩ := h.history (by omega) key record hr
    obtain ⟨record'', hr'', hsame'⟩ := h'.history (by omega) key record' hr'
    refine ⟨record'', hr'', ?_⟩
    rcases hsame with rfl | hsame
    · exact hsame'
    · rcases hsame' with rfl | hsame'
      · exact .inr hsame
      · exact .inr (Record.same_trans hsame hsame')

/-- Only the difference of the counts matters. -/
theorem Keeps.shift {n n' : Nat} {ledger ledger' : PublishedBlocks}
    (h : Keeps n ledger n' ledger') (k : Nat) : Keeps (k + n) ledger (k + n') ledger' :=
  ⟨Nat.add_le_add_left h.clears k, h.held, fun hn => h.history (Nat.add_left_cancel hn)⟩

/-- The progress that an outcome leaves. -/
def outcome : Except (String × Progress) Progress → Progress
  | .ok p => p
  | .error e => e.2

/-- What the events of a batch leave alone, and what they keep. -/
structure Extends (p p' : Progress) : Prop where
  keeps : Keeps p.cleared p.ledger p'.cleared p'.ledger
  lastSequence : p'.ledger.lastSequence = p.ledger.lastSequence
  lastPayloadHash : p'.ledger.lastPayloadHash = p.ledger.lastPayloadHash

theorem Extends.refl (p : Progress) : Extends p p := ⟨.of_eq _ rfl rfl, rfl, rfl⟩

theorem Extends.trans {p p' p'' : Progress} (h : Extends p p') (h' : Extends p' p'') :
    Extends p p'' :=
  ⟨h.keeps.trans h'.keeps, h'.lastSequence.trans h.lastSequence,
    h'.lastPayloadHash.trans h.lastPayloadHash⟩

theorem extends_raise (p : Progress) (raised : Raised) : Extends p (p.raise raised).2 := by
  unfold Progress.raise
  split
  · exact ⟨.of_eq _ rfl rfl, rfl, rfl⟩
  · exact .refl p

theorem extends_clear (p : Progress) : Extends p p.clear where
  keeps :=
    { clears := Nat.le_succ _
      held := fun _ key record h => by cases h
      history := fun hn => absurd hn (Nat.succ_ne_self _) }
  lastSequence := rfl
  lastPayloadHash := rfl

theorem extends_remove (p : Progress) (key : String) : Extends p (p.remove key) where
  keeps :=
    { clears := Nat.le_refl _
      held := fun h k record hr => by
        simp only [Progress.remove, FinMap.get?_erase] at hr
        split at hr
        · cases hr
        · exact h k record hr
      history := fun _ k record hr => ⟨record, hr, .inl rfl⟩ }
  lastSequence := rfl
  lastPayloadHash := rfl

theorem extends_foldl_remove : ∀ (hashes : List String) (p : Progress),
    Extends p (hashes.foldl Progress.remove p)
  | [], p => .refl p
  | key :: hashes, p => (extends_remove p key).trans (extends_foldl_remove hashes (p.remove key))

theorem extends_store {p : Progress} {key : String} {record : Record}
    (hseen : ∀ seen, p.ledger.history.get? key = some seen → seen.same record = true) :
    Extends p (p.store key record) where
  keeps :=
    { clears := Nat.le_refl _
      held := fun h k r hr => by
        simp only [Progress.store, FinMap.get?_insert] at hr ⊢
        split
        · rename_i hk
          rwa [if_pos hk] at hr
        · rename_i hk
          rw [if_neg hk] at hr
          exact h k r hr
      history := fun _ k r hr => by
        simp only [Progress.store, FinMap.get?_insert]
        split
        · rename_i hk
          subst hk
          exact ⟨record, rfl, .inr (hseen r hr)⟩
        · exact ⟨r, hr, .inl rfl⟩ }
  lastSequence := rfl
  lastPayloadHash := rfl

theorem extends_storeBlocks (tokenIds : Value) : ∀ (keys : List String) (index : Nat)
    (parent : Option String) (p : Progress),
    Extends p (outcome (storeBlocks tokenIds index parent keys p))
  | [], _, _, p => .refl p
  | key :: keys, index, parent, p => by
    rw [storeBlocks]
    split
    · exact extends_raise p _
    · rename_i tokens _
      dsimp only
      split
      · exact extends_raise p _
      · rename_i hsame
        refine (extends_store fun seen hseen => ?_).trans
          (extends_storeBlocks tokenIds keys (index + 1) (some key) _)
        rw [hseen] at hsame
        simpa using hsame

theorem extends_acceptEvent (p : Progress) (value : Value) :
    Extends p (outcome (acceptEvent p value)) := by
  unfold acceptEvent
  split
  · exact extends_raise p _
  · exact extends_clear p
  · exact extends_foldl_remove _ p
  · exact extends_storeBlocks _ _ _ _ p

theorem extends_acceptEvents : ∀ (values : List Value) (p : Progress),
    Extends p (outcome (acceptEvents p values))
  | [], p => .refl p
  | value :: values, p => by
    have hfirst := extends_acceptEvent p value
    rw [acceptEvents, List.foldlM_cons]
    cases hv : acceptEvent p value with
    | error e =>
      rw [hv] at hfirst
      exact hfirst
    | ok p₁ =>
      rw [hv] at hfirst
      exact hfirst.trans (extends_acceptEvents values p₁)

/-! ## Frames -/

/-- A batch that is accepted is noted and its events processed. -/
theorem accept_extends (ledger : PublishedBlocks) (sequence : Nat) (hash : String) (batch : Value) :
    Keeps 0 ledger (ledger.accept sequence hash batch).cleared
      (ledger.accept sequence hash batch).ledger := by
  have hnote : Keeps 0 ledger 0 (ledger.note sequence hash) := .of_eq 0 rfl rfl
  unfold PublishedBlocks.accept
  split
  · exact .of_eq 0 rfl rfl
  · dsimp only
    split
    · exact hnote
    · rename_i values _
      have hevents := extends_acceptEvents values (.start (ledger.note sequence hash))
      split
      · rename_i herror
        rw [herror] at hevents
        exact hnote.trans hevents.keeps
      · rename_i p hok
        rw [hok] at hevents
        exact hnote.trans (hevents.keeps.trans (.of_eq _ rfl rfl))

/-- A batch that is no duplicate is the last one afterwards. -/
theorem accept_last (ledger : PublishedBlocks) (sequence : Nat) (hash : String) (batch : Value) :
    (ledger.accept sequence hash batch).ledger.lastSequence = some sequence ∧
      (ledger.accept sequence hash batch).ledger.lastPayloadHash = some hash := by
  unfold PublishedBlocks.accept
  split
  · assumption
  · dsimp only
    split
    · exact ⟨rfl, rfl⟩
    · rename_i values _
      have hevents := extends_acceptEvents values (.start (ledger.note sequence hash))
      split
      · rename_i herror
        rw [herror] at hevents
        exact ⟨hevents.lastSequence, hevents.lastPayloadHash⟩
      · rename_i p hok
        rw [hok] at hevents
        exact ⟨hevents.lastSequence, hevents.lastPayloadHash⟩

variable {L : Library} {topic : Bytes}

theorem receive_keeps (c : Collector) (frames : List Bytes) :
    Keeps c.clears c.ledger (receive L topic c frames).clears
      (receive L topic c frames).ledger := by
  unfold receive
  split
  · exact .of_eq _ rfl rfl
  · rename_i sequence payload _
    dsimp only
    split
    · exact .of_eq _ rfl rfl
    · rename_i batch _
      have h := (accept_extends c.ledger sequence (L.sha256 payload) batch).shift c.clears
      split
      · exact h.trans (.of_eq _ rfl rfl)
      · exact h

theorem collect_concat (received : List (List Bytes)) (frames : List Bytes) :
    collect L topic (received ++ [frames]) = receive L topic (collect L topic received) frames := by
  simp [collect]

theorem collect_keeps (received : List (List Bytes)) : ∀ later : List (List Bytes),
    Keeps (collect L topic received).clears (collect L topic received).ledger
      (collect L topic (received ++ later)).clears (collect L topic (received ++ later)).ledger := by
  intro later
  induction later using List.reverseRecOn with
  | nil =>
    rw [List.append_nil]
    exact .of_eq _ rfl rfl
  | append_singleton later frames ih =>
    rw [← List.append_assoc, collect_concat]
    exact ih.trans (receive_keeps _ frames)

/-- A repeated frame leaves the ledger as it is. -/
theorem receive_repeated (c : Collector) (frames : List Bytes) :
    (receive L topic (receive L topic c frames) frames).ledger =
      (receive L topic c frames).ledger := by
  unfold receive
  cases hlayout : layout topic frames with
  | none => rfl
  | some e =>
    obtain ⟨sequence, payload⟩ := e
    dsimp only
    cases hdecode : L.decode payload with
    | error errorType => rfl
    | ok batch =>
      dsimp only
      have hlast := accept_last c.ledger sequence (L.sha256 payload) batch
      cases hresult : (c.ledger.accept sequence (L.sha256 payload) batch).result with
      | error errorType =>
        dsimp only [Collector.fail]
        rw [PublishedBlocks.accept, if_pos hlast]
      | ok state =>
        dsimp only
        rw [PublishedBlocks.accept, if_pos hlast]

/-! ## Runs -/

theorem layout_inj {frames frames' : List Bytes} {n : Nat} {payload : Bytes}
    (h : layout topic frames = some (n, payload)) (h' : layout topic frames' = some (n, payload)) :
    frames = frames' := by
  unfold layout at h h'
  split at h
  · split at h
    · rename_i hframes
      split at h'
      · split at h'
        · rename_i hframes'
          cases h
          rw [Option.some.injEq, Prod.mk.injEq] at h'
          rw [hframes.1, hframes'.1, h'.2,
            BigEndian.decode_inj (hframes'.2.trans hframes.2.symm) h'.1]
        · cases h'
      · cases h'
    · cases h
  · cases h

/-- The payloads of the frames that have the layout of the publisher. -/
def payloads (topic : Bytes) (received : List (List Bytes)) : List Bytes :=
  received.filterMap fun frames => (layout topic frames).map Prod.snd

theorem mem_payloads {received : List (List Bytes)} {frames : List Bytes} {n : Nat}
    {payload : Bytes} (hmem : frames ∈ received) (h : layout topic frames = some (n, payload)) :
    payload ∈ payloads topic received :=
  List.mem_filterMap.2 ⟨frames, hmem, by rw [h]; rfl⟩

/-- The digest tells the payloads of a run apart. -/
def CollisionFree (L : Library) (topic : Bytes) (received : List (List Bytes)) : Prop :=
  ∀ p ∈ payloads topic received, ∀ q ∈ payloads topic received, L.sha256 p = L.sha256 q → p = q

/-- The last frames carry the number and the digest that the ledger has noted. -/
def LastNoted (L : Library) (topic : Bytes) (received : List (List Bytes))
    (ledger : PublishedBlocks) : Prop :=
  ∃ earlier frames n payload, received = earlier ++ [frames] ∧
    layout topic frames = some (n, payload) ∧ ledger.lastSequence = some n ∧
    ledger.lastPayloadHash = some (L.sha256 payload)

/-- What a complete ledger is. -/
def Exact (L : Library) (topic : Bytes) (received : List (List Bytes)) (ledger : PublishedBlocks) :
    Prop :=
  LastNoted L topic received ledger ∧ ∃ cs, Since L topic received cs ∧ Tracks ledger cs

/-- A batch that is accepted without an exception: a repeat of the last one, or one whose events
were all processed. -/
theorem accept_ok {ledger : PublishedBlocks} {sequence : Nat} {hash : String} {batch : Value}
    {state : State} (h : (ledger.accept sequence hash batch).result = .ok state) :
    (ledger.lastSequence = some sequence ∧ ledger.lastPayloadHash = some hash ∧
        (ledger.accept sequence hash batch).ledger = ledger) ∨
      ∃ values p, batchEvents batch = some values ∧
        acceptEvents (.start (ledger.note sequence hash)) values = .ok p ∧
        ∃ issues, (ledger.accept sequence hash batch).ledger = { p.ledger with issues } := by
  unfold PublishedBlocks.accept at h ⊢
  split
  · rename_i hdup
    exact .inl ⟨hdup.1, hdup.2, rfl⟩
  · rename_i hdup
    rw [if_neg hdup] at h
    dsimp only at h ⊢
    cases hvalues : batchEvents batch with
    | none =>
      rw [hvalues] at h
      cases h
    | some values =>
      rw [hvalues] at h
      dsimp only at h ⊢
      cases hp : acceptEvents (.start (ledger.note sequence hash)) values with
      | error e =>
        rw [hp] at h
        cases h
      | ok p => exact .inr ⟨values, p, rfl, hp, _, rfl⟩

theorem Tracks.congr {ledger ledger' : PublishedBlocks} {cs : List Change} (h : Tracks ledger cs)
    (hb : ledger'.blocks = ledger.blocks) (hh : ledger'.history = ledger.history) :
    Tracks ledger' cs :=
  ⟨by rw [hb]; exact h.blocks, by rw [hh]; exact h.history, h.consistent, h.tokens⟩

/-- **One frame.** If the ledger is exact whenever it is complete, it is so after the next frame. -/
theorem exact_receive {received : List (List Bytes)} {frames : List Bytes}
    (hsha : CollisionFree L topic (received ++ [frames])) {c : Collector}
    (hexact : c.ledger.completeSinceClear = true → Exact L topic received c.ledger)
    (h : (receive L topic c frames).ledger.completeSinceClear = true) :
    Exact L topic (received ++ [frames]) (receive L topic c frames).ledger := by
  unfold receive at h ⊢
  split at h
  · cases h
  · rename_i sequence payload hlayout
    dsimp only at h ⊢
    split at h
    · cases h
    · rename_i batch hdecode
      split at h
      · cases h
      · rename_i state hresult
        rw [hresult]
        dsimp only at h ⊢
        have hlast := accept_last c.ledger sequence (L.sha256 payload) batch
        refine ⟨⟨received, frames, sequence, payload, rfl, hlayout, hlast⟩, ?_⟩
        rcases accept_ok hresult with ⟨hseq, hhash, hsame⟩ | ⟨values, p, hvalues, hp, issues, hled⟩
        · -- a duplicate is the last frame again
          rw [hsame] at h ⊢
          obtain ⟨⟨earlier, last, n, payload', rfl, hlast', hn, hh⟩, cs, hsince, htracks⟩ := hexact h
          rw [hn, Option.some.injEq] at hseq
          rw [hh, Option.some.injEq] at hhash
          have hpay : payload' = payload :=
            hsha _ (mem_payloads (by simp) hlast') _ (mem_payloads (by simp) hlayout) hhash
          subst hseq hpay
          obtain rfl := layout_inj hlast' hlayout
          refine ⟨cs, ?_, htracks⟩
          rw [List.append_assoc]
          exact .repeated hsince
        · obtain ⟨events, hreads, hevents⟩ := acceptEvents_ok hp
          have hread : Reads L topic frames sequence events :=
            ⟨payload, batch, values, hlayout, hdecode, hvalues, hreads⟩
          rw [hled] at h ⊢
          rcases hevents with ⟨cs', hcs', happlies⟩ | ⟨before, after, cs, rfl, hcs, -, htracks⟩
          · -- without a clear event the flag was set before, and there was no gap
            have hflag : (c.ledger.completeSinceClear && !c.ledger.gap sequence) = true :=
              happlies.flag.symm.trans h
            rw [Bool.and_eq_true, Bool.not_eq_true'] at hflag
            obtain ⟨⟨earlier, last, n, payload', rfl, hlast', hn, -⟩, cs, hsince, htracks⟩ :=
              hexact hflag.1
            have hnext : sequence = n + 1 := by
              simpa [PublishedBlocks.gap, hn] using hflag.2
            subst hnext
            have htracks' := @happlies.tracks cs (htracks.congr rfl rfl)
            refine ⟨cs ++ cs', ?_, htracks'.congr rfl rfl⟩
            rw [List.append_assoc]
            exact .next hsince hlast' hread hcs'
          · exact ⟨cs, .cleared hread hcs, htracks.congr rfl rfl⟩

theorem CollisionFree.append_left {received later : List (List Bytes)}
    (h : CollisionFree L topic (received ++ later)) : CollisionFree L topic received := by
  have hsub : ∀ p ∈ payloads topic received, p ∈ payloads topic (received ++ later) := by
    intro p hp
    rw [payloads, List.filterMap_append]
    exact List.mem_append_left _ hp
  exact fun p hp q hq => h p (hsub p hp) q (hsub q hq)

theorem exact_collect {received : List (List Bytes)} (hsha : CollisionFree L topic received)
    (h : (collect L topic received).ledger.completeSinceClear = true) :
    Exact L topic received (collect L topic received).ledger := by
  induction received using List.reverseRecOn with
  | nil => cases h
  | append_singleton received frames ih =>
    rw [collect_concat] at h ⊢
    exact exact_receive hsha (ih hsha.append_left) h

theorem held_collect (received : List (List Bytes)) : Held (collect L topic received).ledger :=
  (collect_keeps [] received).held fun key record h => by cases h

/-- **A ledger that says it is complete is exact.** It holds just the blocks published since the
last clear event, each with 16 tokens, after frames that were repeats or valid batches in
sequence.  At all times its blocks are in its history with their records, the history keeps its
records until a clear event, and a repeated frame leaves the ledger as it is. -/
theorem complete_exact (L : Library) (topic : Bytes) (received : List (List Bytes))
    (hsha : CollisionFree L topic received) :
    ((collect L topic received).ledger.completeSinceClear = true →
      ∃ cs, Since L topic received cs ∧ Consistent cs ∧ ∀ key,
        (collect L topic received).ledger.blocks.get? key = published cs key ∧
        ∀ record, published cs key = some record → record.tokenIds.len? = some 16) ∧
    (∀ key record, (collect L topic received).ledger.blocks.get? key = some record →
      (collect L topic received).ledger.history.get? key = some record) ∧
    (∀ later, (collect L topic (received ++ later)).clears = (collect L topic received).clears →
      ∀ key record, (collect L topic received).ledger.history.get? key = some record →
        ∃ record', (collect L topic (received ++ later)).ledger.history.get? key = some record' ∧
          (record' = record ∨ record.same record' = true)) ∧
    ∀ frames, (collect L topic (received ++ [frames, frames])).ledger =
      (collect L topic (received ++ [frames])).ledger := by
  refine ⟨fun h => ?_, held_collect received, fun later hn => (collect_keeps received later).history hn,
    fun frames => ?_⟩
  · obtain ⟨-, cs, hsince, htracks⟩ := exact_collect hsha h
    refine ⟨cs, hsince, htracks.consistent, fun key => ⟨htracks.blocks key, fun record hr => ?_⟩⟩
    obtain ⟨c, hc, hrec⟩ := mem_of_published hr
    exact htracks.tokens c hc record hrec
  · rw [show received ++ [frames, frames] = received ++ [frames] ++ [frames] by simp,
      collect_concat, collect_concat]
    exact receive_repeated _ frames

/-- A clear event at number 0. -/
def clearPayload : Bytes :=
  [147, 203, 0, 0, 0, 0, 0, 0, 0, 0, 145, 129, 164, 116, 121, 112, 101, 176, 65, 108, 108, 66,
   108, 111, 99, 107, 115, 67, 108, 101, 97, 114, 101, 100, 0]

/-- A batch at number 1 that stores one block. -/
def storedPayload : Bytes :=
  [147, 203, 63, 240, 0, 0, 0, 0, 0, 0, 145, 135, 164, 116, 121, 112, 101, 171, 66, 108, 111, 99,
   107, 83, 116, 111, 114, 101, 100, 172, 98, 108, 111, 99, 107, 95, 104, 97, 115, 104, 101, 115,
   145, 7, 177, 112, 97, 114, 101, 110, 116, 95, 98, 108, 111, 99, 107, 95, 104, 97, 115, 104,
   192, 169, 116, 111, 107, 101, 110, 95, 105, 100, 115, 220, 0, 16, 0, 1, 2, 3, 4, 5, 6, 7, 8, 9,
   10, 11, 12, 13, 14, 15, 170, 98, 108, 111, 99, 107, 95, 115, 105, 122, 101, 16, 167, 108, 111,
   114, 97, 95, 105, 100, 192, 166, 109, 101, 100, 105, 117, 109, 163, 71, 80, 85, 0]

def sixteen : Value := .list ((List.range 16).map fun n => .int n)

/-- The digests of the two payloads and their values. -/
def exampleLibrary : Library where
  sha256 payload :=
    if payload = clearPayload then
      "3aac7b7276031bcf29df2119a839eab40073a0202694ccf2f0df64f9386d9d54"
    else if payload = storedPayload then
      "db2ce2fe1046eb7f9846e583c238878c2367a217ad94c380d318e220777e9d16"
    else ""
  decode payload :=
    if payload = clearPayload then
      .ok (.list [.float 0, .list [.dict [("type", .str "AllBlocksCleared")]], .int 0])
    else if payload = storedPayload then
      .ok (.list [.float 1, .list [.dict [("type", .str "BlockStored"),
        ("block_hashes", .list [.int 7]), ("parent_block_hash", .null), ("token_ids", sixteen),
        ("block_size", .int 16), ("lora_id", .null), ("medium", .str "GPU")]], .int 0])
    else .error "DecodeError"

def exampleTopic : Bytes := [107, 118, 45, 101, 118, 101, 110, 116, 115]

def exampleRun : List (List Bytes) :=
  [[exampleTopic, BigEndian.encode 8 0, clearPayload],
   [exampleTopic, BigEndian.encode 8 1, storedPayload],
   [exampleTopic, BigEndian.encode 8 1, storedPayload]]

/-- A clear event, a stored block and its repeat leave the block and its 16 tokens. -/
theorem complete_exact_exampleRun : ∃ cs, Since exampleLibrary exampleTopic exampleRun cs ∧
    published cs "int:7" = some ⟨none, sixteen⟩ ∧ sixteen.len? = some 16 := by
  have hpayloads : payloads exampleTopic exampleRun =
      [clearPayload, storedPayload, storedPayload] := by decide +kernel
  have hsha : CollisionFree exampleLibrary exampleTopic exampleRun := by
    unfold CollisionFree
    rw [hpayloads]
    decide +kernel
  have hcomplete :
      (collect exampleLibrary exampleTopic exampleRun).ledger.completeSinceClear = true := by
    decide +kernel
  have hblock : (collect exampleLibrary exampleTopic exampleRun).ledger.blocks.get? "int:7" =
      some ⟨none, sixteen⟩ := by decide +kernel
  obtain ⟨cs, hsince, -, hall⟩ :=
    (complete_exact exampleLibrary exampleTopic exampleRun hsha).1 hcomplete
  obtain ⟨hpublished, htokens⟩ := hall "int:7"
  rw [hblock] at hpublished
  exact ⟨cs, hsince, hpublished.symm, htokens _ hpublished.symm⟩

end ReedCode.KvCollector
