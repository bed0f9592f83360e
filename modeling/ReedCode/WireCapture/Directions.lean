import ReedCode.WireCapture.Reassemble

/-!
# Directions are reassembled independently

What the two loops of `reassemble` compute, direction by direction.

* `foldlM_add_ok` — the state of a direction, read off its packets;
* `merge_ok_iff` — the merging loop accepts sorted segments exactly when they tile a stream;
* `mem_reassemble`, `reassemble_isOk` — the streams of a capture are those of its directions,
  and it is rejected exactly when a direction is.
-/

set_option autoImplicit false

namespace ReedCode.WireCapture

/-! ## The state of a direction -/

def synSequences (own : List Packet) : List UInt32 :=
  (own.filter (·.syn)).map (·.sequence)

def finSequences (own : List Packet) : List UInt32 :=
  (own.filter (·.fin)).map (·.finSequence)

def segmentsOf (own : List Packet) : List Segment :=
  (own.filter fun p => !p.payload.isEmpty).map fun p => ⟨p.dataSequence, p.payload, p.timestampNs⟩

/-- All the numbers are one, and it is the known one. -/
def Agree (known : Option UInt32) (seqs : List UInt32) : Prop :=
  ∀ x ∈ known.toList ++ seqs, ∀ y ∈ known.toList ++ seqs, x = y

@[simp] theorem agree_nil (known : Option UInt32) : Agree known [] := by
  intro x hx y hy
  cases known <;> simp_all

theorem agree_cons {known : Option UInt32} {x : UInt32} {xs : List UInt32} :
    Agree known (x :: xs) ↔ (∀ s, known = some s → s = x) ∧ Agree (some x) xs := by
  constructor
  · intro h
    refine ⟨fun s hs => h s (by simp [hs]) x (by simp), fun a ha b hb => ?_⟩
    exact h a (List.mem_append_right _ (by simpa using ha)) b
      (List.mem_append_right _ (by simpa using hb))
  · rintro ⟨hknown, h⟩ a ha b hb
    have hmem : ∀ c ∈ known.toList ++ x :: xs, c ∈ (some x).toList ++ xs := by
      intro c hc
      rcases List.mem_append.1 hc with hc | hc
      · rw [Option.mem_toList] at hc
        rw [hknown c hc]
        simp
      · simpa using hc
    exact h a (hmem a ha) b (hmem b hb)

/-- What one packet is checked for, and what it adds. -/
theorem add_eq_ok {state state' : Direction} {p : Packet} :
    state.add p = .ok state' ↔
      (p.syn = true → ∀ s, state.syn = some s → s = p.sequence) ∧
      (p.fin = true → ∀ s, state.fin = some s → s = p.finSequence) ∧
      state' = ⟨if p.syn then some p.sequence else state.syn,
        state.segments ++ segmentsOf [p],
        if p.fin then some p.finSequence else state.fin, state.reset || p.reset⟩ := by
  have hsegments : (if p.payload.isEmpty then state.segments
      else state.segments ++ [⟨p.dataSequence, p.payload, p.timestampNs⟩]) =
      state.segments ++ segmentsOf [p] := by
    unfold segmentsOf
    split <;> simp_all
  have hguard : ∀ (flag : Bool) (known : Option UInt32) (x : UInt32),
      ¬ (flag && known.any fun s => decide (s ≠ x)) = true ↔
        (flag = true → ∀ s, known = some s → s = x) := by
    intro flag known x
    cases flag <;> cases known <;> simp
  unfold Direction.add
  simp only [Except.bind_eq_ok_iff, Except.failIf_eq_ok, hguard, hsegments, pure, Except.pure,
    Except.ok.injEq, exists_const]
  constructor
  · rintro ⟨hsyn, hfin, rfl⟩
    exact ⟨hsyn, hfin, rfl⟩
  · rintro ⟨hsyn, hfin, rfl⟩
    exact ⟨hsyn, hfin, rfl⟩

/-- **The state of a direction after its packets.** -/
theorem foldlM_add_ok : ∀ {own : List Packet} {state state' : Direction},
    own.foldlM Direction.add state = .ok state' ↔
      Agree state.syn (synSequences own) ∧ Agree state.fin (finSequences own) ∧
      state' = ⟨state.syn.or (synSequences own).head?, state.segments ++ segmentsOf own,
        state.fin.or (finSequences own).head?, state.reset || own.any (·.reset)⟩
  | [], state, state' => by
    simp only [List.foldlM_nil, pure, Except.pure, Except.ok.injEq, synSequences, finSequences,
      segmentsOf, List.filter_nil, List.map_nil, agree_nil, List.head?_nil, Option.or_none,
      List.append_nil, List.any_nil, Bool.or_false, true_and]
    exact eq_comm
  | p :: ps, state, state' => by
    have hor : ∀ {known : Option UInt32} {x : UInt32} (y : Option UInt32),
        (∀ s, known = some s → s = x) → (some x).or y = known.or (some x) := by
      intro known x y h
      cases known with
      | none => rfl
      | some s => rw [h s rfl]; rfl
    have hsegments : segmentsOf (p :: ps) = segmentsOf [p] ++ segmentsOf ps := by
      simp only [segmentsOf, List.filter_cons]
      split <;> simp
    have hstep : ∀ {flag : Bool} {known : Option UInt32} {x : UInt32} {xs : List UInt32},
        ((flag = true → ∀ s, known = some s → s = x) ∧
            Agree (if flag then some x else known) xs) ↔
          Agree known (if flag then x :: xs else xs) := by
      intro flag known x xs
      cases flag with
      | false => simp
      | true => simp [agree_cons]
    have hsyn : synSequences (p :: ps) =
        if p.syn then p.sequence :: synSequences ps else synSequences ps := by
      simp only [synSequences, List.filter_cons]
      split <;> rfl
    have hfin : finSequences (p :: ps) =
        if p.fin then p.finSequence :: finSequences ps else finSequences ps := by
      simp only [finSequences, List.filter_cons]
      split <;> rfl
    have hhead : ∀ {flag : Bool} {known : Option UInt32} {x : UInt32} {xs : List UInt32},
        (flag = true → ∀ s, known = some s → s = x) →
        (if flag then some x else known).or xs.head? =
          known.or (if flag then x :: xs else xs).head? := by
      intro flag known x xs h
      cases flag with
      | false => rfl
      | true => simpa using hor xs.head? (h rfl)
    rw [List.foldlM_cons, Except.bind_eq_ok_iff]
    constructor
    · rintro ⟨state₁, hadd, hrest⟩
      obtain ⟨hs, hf, rfl⟩ := add_eq_ok.1 hadd
      obtain ⟨has, haf, rfl⟩ := foldlM_add_ok.1 hrest
      refine ⟨hsyn ▸ hstep.1 ⟨hs, has⟩, hfin ▸ hstep.1 ⟨hf, haf⟩, ?_⟩
      rw [hsyn, hfin, hsegments, hhead hs, hhead hf, List.append_assoc, List.any_cons,
        Bool.or_assoc]
    · rintro ⟨has, haf, rfl⟩
      rw [hsyn] at has
      rw [hfin] at haf
      obtain ⟨hs, has'⟩ := hstep.2 has
      obtain ⟨hf, haf'⟩ := hstep.2 haf
      refine ⟨_, add_eq_ok.2 ⟨hs, hf, rfl⟩, foldlM_add_ok.2 ⟨has', haf', ?_⟩⟩
      rw [hsyn, hfin, hsegments, hhead hs, hhead hf, List.append_assoc, List.any_cons,
        Bool.or_assoc]

/-! ## Merging -/

theorem mem_sortPlaced {segments : List Placed} {s : Placed} :
    s ∈ sortPlaced segments ↔ s ∈ segments :=
  (List.perm_insertionSort _ segments).mem_iff

theorem sum_length_sortPlaced (segments : List Placed) :
    ((sortPlaced segments).map fun s => s.data.length).sum =
      (segments.map fun s => s.data.length).sum :=
  ((List.perm_insertionSort _ segments).map _).sum_nat

theorem min?_stamp_sortPlaced (segments : List Placed) :
    ((sortPlaced segments).map (·.stamp)).min? = (segments.map (·.stamp)).min? := by
  have hmem : ∀ a, a ∈ (sortPlaced segments).map (·.stamp) ↔ a ∈ segments.map (·.stamp) :=
    fun _ => ((List.perm_insertionSort _ segments).map _).mem_iff
  ext a
  rw [List.min?_eq_some_iff, List.min?_eq_some_iff, hmem]
  simp only [hmem]

theorem pairwise_sortPlaced (segments : List Placed) :
    (sortPlaced segments).Pairwise fun a b => a.offset ≤ b.offset := by
  have : Std.Total fun a b : Placed => a.sortKey ≤ b.sortKey :=
    ⟨fun a b => le_total a.sortKey b.sortKey⟩
  have : IsTrans Placed fun a b => a.sortKey ≤ b.sortKey := ⟨fun _ _ _ => le_trans⟩
  refine (List.pairwise_insertionSort _ segments).imp fun {a b} h => ?_
  rcases (Prod.Lex.le_iff).1 h with h | h
  · exact Nat.le_of_lt h
  · exact Nat.le_of_eq h.1

/-- The segments are slices of the stream and leave no byte of it out. -/
structure Tiles (stream : List UInt8) (segments : List Placed) : Prop where
  fits : ∀ s ∈ segments, Slices.Fits stream s.offset s.data
  covers : ∀ i < stream.length, ∃ s ∈ segments, s.offset ≤ i ∧ i < s.offset + s.data.length

theorem mergeSegment_eq_ok {acc acc' : List UInt8 × Nat} {s : Placed} :
    mergeSegment acc s = .ok acc' ↔ s.offset ≤ acc.1.length ∧
      Slices.Agrees acc.1 s.offset s.data ∧
      (Slices.extend acc.1 s.offset s.data).length ≤ MAX_BYTES ∧
      acc' = (Slices.extend acc.1 s.offset s.data,
        acc.2 + Slices.overlap acc.1 s.offset s.data) := by
  unfold mergeSegment
  simp only [Except.bind_eq_ok_iff, Except.failIf_eq_ok, Classical.not_not, not_lt, gt_iff_lt,
    pure, Except.pure, Except.ok.injEq, exists_const, @eq_comm _ acc']

/-- Soundness of the loop: every segment it took is in the result, every new byte comes from
one, and bytes are counted once. -/
theorem merge_sound : ∀ {segments : List Placed} {acc acc' : List UInt8 × Nat},
    segments.foldlM mergeSegment acc = .ok acc' →
      acc.1 <+: acc'.1 ∧ (∀ s ∈ segments, Slices.Fits acc'.1 s.offset s.data) ∧
      (∀ i, acc.1.length ≤ i → i < acc'.1.length →
        ∃ s ∈ segments, s.offset ≤ i ∧ i < s.offset + s.data.length) ∧
      (acc.1.length ≤ MAX_BYTES → acc'.1.length ≤ MAX_BYTES) ∧
      acc'.2 + acc'.1.length =
        acc.2 + acc.1.length + (segments.map fun s => s.data.length).sum
  | [], acc, acc', h => by
    simp only [List.foldlM_nil, pure, Except.pure, Except.ok.injEq] at h
    subst h
    exact ⟨List.prefix_refl _, by simp, fun i h₁ h₂ => by omega, id, by simp⟩
  | s :: rest, acc, acc', h => by
    rw [List.foldlM_cons, Except.bind_eq_ok_iff] at h
    obtain ⟨acc₁, hs, hrest⟩ := h
    obtain ⟨ho, ha, hmax, rfl⟩ := mergeSegment_eq_ok.1 hs
    obtain ⟨hstart, hfits, hcovers, hbound, hcount⟩ := merge_sound hrest
    refine ⟨(Slices.prefix_extend _ _ _).trans hstart, ?_, ?_, fun _ => hbound hmax, ?_⟩
    · intro t ht
      rcases List.mem_cons.1 ht with rfl | ht
      · exact (Slices.fits_extend ho ha).mono hstart
      · exact hfits t ht
    · intro i hi hi'
      rcases Nat.lt_or_ge i (Slices.extend acc.1 s.offset s.data).length with hlt | hge
      · rw [Slices.length_extend ho] at hlt
        exact ⟨s, List.mem_cons_self, by omega, by omega⟩
      · obtain ⟨t, ht, htile⟩ := hcovers i hge hi'
        exact ⟨t, List.mem_cons_of_mem _ ht, htile⟩
    · have hadd : Slices.overlap acc.1 s.offset s.data +
          (Slices.extend acc.1 s.offset s.data).length = _ := Slices.overlap_add_length
      simp only [List.map_cons, List.sum_cons]
      simp only at hcount
      omega

/-- Completeness of the loop, from the prefix that the segments before have built. -/
theorem merge_complete {stream : List UInt8} (hmax : stream.length ≤ MAX_BYTES) :
    ∀ (segments : List Placed) (n dup : Nat),
      (∀ s ∈ segments, s.data ≠ []) → (segments.Pairwise fun a b => a.offset ≤ b.offset) →
      (∀ s ∈ segments, Slices.Fits stream s.offset s.data) → n ≤ stream.length →
      (∀ i, n ≤ i → i < stream.length →
        ∃ s ∈ segments, s.offset ≤ i ∧ i < s.offset + s.data.length) →
      ∃ dup', segments.foldlM mergeSegment (stream.take n, dup) = .ok (stream, dup')
  | [], n, dup, _, _, _, hn, hcovers => by
    have hlen : stream.length ≤ n := by
      by_contra hlt
      obtain ⟨s, hs, -⟩ := hcovers n (Nat.le_refl n) (by omega)
      exact List.not_mem_nil hs
    exact ⟨dup, by rw [List.take_of_length_le hlen]; rfl⟩
  | s :: rest, n, dup, hne, hsorted, hfits, hn, hcovers => by
    obtain ⟨hfirst, hsorted'⟩ := List.pairwise_cons.1 hsorted
    have hlen : (stream.take n).length = n := by rw [List.length_take, Nat.min_eq_left hn]
    have hend := (hfits s List.mem_cons_self).length_le (hne s List.mem_cons_self)
    -- the first segment has the least offset, so it starts no later than the first missing byte
    have ho : s.offset ≤ n := by
      rcases Nat.lt_or_ge n stream.length with hlt | hge
      · obtain ⟨t, ht, hle, -⟩ := hcovers n (Nat.le_refl n) hlt
        rcases List.mem_cons.1 ht with rfl | ht
        · exact hle
        · exact (hfirst t ht).trans hle
      · omega
    have hext := Slices.extend_take (hfits s List.mem_cons_self) (hne s List.mem_cons_self) ho hn
    obtain ⟨dup', hrest⟩ := merge_complete hmax rest (max n (s.offset + s.data.length))
      (dup + Slices.overlap (stream.take n) s.offset s.data)
      (fun t ht => hne t (List.mem_cons_of_mem _ ht)) hsorted'
      (fun t ht => hfits t (List.mem_cons_of_mem _ ht)) (by omega) fun i hi hi' => by
        obtain ⟨t, ht, h₁, h₂⟩ := hcovers i (by omega) hi'
        rcases List.mem_cons.1 ht with rfl | ht
        · omega
        · exact ⟨t, ht, h₁, h₂⟩
    refine ⟨dup', ?_⟩
    rw [List.foldlM_cons, Except.bind_eq_ok_iff]
    refine ⟨_, mergeSegment_eq_ok.2 ⟨hlen.symm ▸ ho, Slices.agrees_take (hfits s List.mem_cons_self),
      ?_, rfl⟩, ?_⟩
    · rw [hext, List.length_take]
      omega
    · rw [hext]
      exact hrest

/-- Segments that tile a stream are merged into it, and the bytes add up. -/
theorem merge_tiles {segments : List Placed} (hne : ∀ s ∈ segments, s.data ≠ [])
    {stream : List UInt8} (hmax : stream.length ≤ MAX_BYTES) (htiles : Tiles stream segments) :
    ∃ dup, (sortPlaced segments).foldlM mergeSegment ([], 0) = .ok (stream, dup) ∧
      dup + stream.length = (segments.map fun s => s.data.length).sum := by
  obtain ⟨dup, h⟩ := merge_complete hmax (sortPlaced segments) 0 0
    (fun s hs => hne s (mem_sortPlaced.1 hs)) (pairwise_sortPlaced segments)
    (fun s hs => htiles.fits s (mem_sortPlaced.1 hs)) (Nat.zero_le _) fun i _ hi => by
      obtain ⟨s, hs, htile⟩ := htiles.covers i hi
      exact ⟨s, mem_sortPlaced.2 hs, htile⟩
  rw [List.take_zero] at h
  refine ⟨dup, h, ?_⟩
  have hcount := (merge_sound h).2.2.2.2
  rw [sum_length_sortPlaced] at hcount
  simpa using hcount

/-- **The merging loop accepts sorted segments exactly when they tile a stream.** -/
theorem merge_ok_iff {segments : List Placed} (hne : ∀ s ∈ segments, s.data ≠ [])
    {stream : List UInt8} {dup : Nat} :
    (sortPlaced segments).foldlM mergeSegment ([], 0) = .ok (stream, dup) ↔
      stream.length ≤ MAX_BYTES ∧ Tiles stream segments ∧
        dup = (segments.map fun s => s.data.length).sum - stream.length := by
  constructor
  · intro h
    obtain ⟨-, hfits, hcovers, hbound, hcount⟩ := merge_sound h
    refine ⟨hbound (Nat.zero_le _), ⟨fun s hs => hfits s (mem_sortPlaced.2 hs), fun i hi => ?_⟩, ?_⟩
    · obtain ⟨s, hs, htile⟩ := hcovers i (Nat.zero_le _) hi
      exact ⟨s, mem_sortPlaced.1 hs, htile⟩
    · rw [sum_length_sortPlaced] at hcount
      simp only [List.length_nil, Nat.zero_add] at hcount
      omega
  · rintro ⟨hmax, htiles, rfl⟩
    obtain ⟨dup, h, hcount⟩ := merge_tiles hne hmax htiles
    rwa [← hcount, Nat.add_sub_cancel]

/-! ## One direction -/

theorem sub_toNat_eq_iff {a b : UInt32} {n : Nat} (hn : n < 2 ^ 32) :
    (a - b).toNat = n ↔ a = b + UInt32.ofNat n := by
  constructor
  · rintro rfl
    rw [UInt32.ofNat_toNat]
    grind
  · rintro rfl
    have : b + UInt32.ofNat n - b = UInt32.ofNat n := by grind
    rw [this, UInt32.toNat_ofNat_of_lt' hn]

/-- Where the payload sits in the stream that starts behind the SYN `isn`. -/
def Packet.offset (isn : UInt32) (p : Packet) : Nat := (p.dataSequence - (isn + 1)).toNat

/-- The packets transmit a stream: its SYN was captured, every payload is what the stream holds
at its sequence number, no byte is missing, and a FIN sits behind the last byte. -/
structure Transmits (own : List Packet) (isn : UInt32) (stream : List UInt8) : Prop where
  started : ∃ p ∈ own, p.syn = true
  syns : ∀ p ∈ own, p.syn = true → p.sequence = isn
  fits : ∀ p ∈ own, p.payload ≠ [] → Slices.Fits stream (p.offset isn) p.payload
  covers : ∀ i < stream.length, ∃ p ∈ own,
    p.offset isn ≤ i ∧ i < p.offset isn + p.payload.length
  fins : ∀ p ∈ own, p.fin = true → p.finSequence = isn + 1 + UInt32.ofNat stream.length

/-- The stamps of the packets that carry payload. -/
def payloadStamps (own : List Packet) : List Nat :=
  (own.filter fun p => !p.payload.isEmpty).map (·.timestampNs)

/-- What is reported of a direction that transmits `stream`. -/
def transmitted (key : FourTuple) (own : List Packet) (stream : List UInt8) : Stream where
  direction := key
  data := stream
  duplicateBytes := (own.map fun p => p.payload.length).sum - stream.length
  firstTimestampNs := ((payloadStamps own).min?).getD 0
  finSeen := own.any (·.fin)
  resetSeen := own.any (·.reset)

/-- The packets of a direction, collected and assembled. -/
def directionOf (key : FourTuple) (own : List Packet) : Except String (Option Stream) := do
  let state ← own.foldlM Direction.add .empty
  state.assemble key

theorem segmentsOf_isEmpty {own : List Packet} :
    (segmentsOf own).isEmpty = true ↔ ∀ p ∈ own, p.payload = [] := by
  simp [segmentsOf, List.filter_eq_nil_iff]

theorem map_place_segmentsOf (isn : UInt32) (own : List Packet) :
    (segmentsOf own).map (·.place (isn + 1)) =
      (own.filter fun p => !p.payload.isEmpty).map
        fun p => ⟨p.offset isn, p.payload, p.timestampNs⟩ := by
  simp [segmentsOf, Segment.place, Packet.offset, Function.comp_def]

theorem mem_place_segmentsOf {isn : UInt32} {own : List Packet} {s : Placed} :
    s ∈ (segmentsOf own).map (·.place (isn + 1)) ↔
      ∃ p ∈ own, p.payload ≠ [] ∧ s = ⟨p.offset isn, p.payload, p.timestampNs⟩ := by
  rw [map_place_segmentsOf, List.mem_map]
  constructor
  · rintro ⟨p, hp, rfl⟩
    obtain ⟨hmem, hne⟩ := List.mem_filter.1 hp
    exact ⟨p, hmem, by simpa using hne, rfl⟩
  · rintro ⟨p, hp, hne, rfl⟩
    exact ⟨p, List.mem_filter.2 ⟨hp, by simpa using hne⟩, rfl⟩

theorem sum_length_place (isn : UInt32) (own : List Packet) :
    (((segmentsOf own).map (·.place (isn + 1))).map fun s => s.data.length).sum =
      (own.map fun p => p.payload.length).sum := by
  rw [map_place_segmentsOf, List.map_map]
  induction own with
  | nil => rfl
  | cons p ps ih =>
    rw [List.filter_cons]
    split
    · simp only [List.map_cons, List.sum_cons, ih]
      rfl
    · rename_i h
      have : p.payload = [] := by simpa using h
      simp [ih, this]

theorem agree_none_iff {seqs : List UInt32} :
    Agree none seqs ↔ ∀ x ∈ seqs, seqs.head? = some x := by
  constructor
  · intro h x hx
    cases seqs with
    | nil => cases hx
    | cons y ys => rw [List.head?_cons, h y (by simp) x (by simpa using hx)]
  · intro h x hx y hy
    exact Option.some.inj ((h x (by simpa using hx)).symm.trans (h y (by simpa using hy)))

theorem fins_iff {own : List Packet} {base : UInt32} {n : Nat} (hn : n < 2 ^ 32) :
    (Agree none (finSequences own) ∧
        ¬ ((finSequences own).head?.any fun fin => (fin - base).toNat ≠ n) = true) ↔
      ∀ p ∈ own, p.fin = true → p.finSequence = base + UInt32.ofNat n := by
  have hmem : ∀ x, x ∈ finSequences own ↔ ∃ p ∈ own, p.fin = true ∧ p.finSequence = x := by
    simp [finSequences, and_assoc]
  constructor
  · rintro ⟨hagree, hend⟩ p hp hfin
    have hhead := agree_none_iff.1 hagree _ ((hmem _).2 ⟨p, hp, hfin, rfl⟩)
    rw [hhead] at hend
    simp only [Option.any_some, decide_eq_true_eq, Classical.not_not] at hend
    exact (sub_toNat_eq_iff hn).1 hend
  · intro h
    have hall : ∀ x ∈ finSequences own, x = base + UInt32.ofNat n := by
      intro x hx
      obtain ⟨p, hp, hfin, rfl⟩ := (hmem x).1 hx
      exact h p hp hfin
    refine ⟨fun x hx y hy => ?_, ?_⟩
    · rw [hall x (by simpa using hx), hall y (by simpa using hy)]
    · cases hhead : (finSequences own).head? with
      | none => simp
      | some x =>
        simp only [Option.any_some, decide_eq_true_eq, Classical.not_not]
        exact (sub_toNat_eq_iff hn).2 (hall x (List.mem_of_mem_head? hhead))

/-- The outcome of a direction, before its payloads are looked at. -/
theorem directionOf_eq_ok {key : FourTuple} {own : List Packet} {r : Option Stream} :
    directionOf key own = .ok r ↔ Agree none (synSequences own) ∧
      Agree none (finSequences own) ∧
      Direction.assemble key ⟨(synSequences own).head?, segmentsOf own, (finSequences own).head?,
        own.any (·.reset)⟩ = .ok r := by
  simp only [directionOf, Except.bind_eq_ok_iff, foldlM_add_ok, Direction.empty, Option.none_or,
    List.nil_append, Bool.false_or]
  constructor
  · rintro ⟨state, ⟨hsyn, hfin, rfl⟩, h⟩
    exact ⟨hsyn, hfin, h⟩
  · rintro ⟨hsyn, hfin, h⟩
    exact ⟨_, ⟨hsyn, hfin, rfl⟩, h⟩

theorem syns_iff {own : List Packet} {isn : UInt32} :
    (Agree none (synSequences own) ∧ (synSequences own).head? = some isn) ↔
      (∃ p ∈ own, p.syn = true) ∧ ∀ p ∈ own, p.syn = true → p.sequence = isn := by
  have hmem : ∀ x, x ∈ synSequences own ↔ ∃ p ∈ own, p.syn = true ∧ p.sequence = x := by
    simp [synSequences, and_assoc]
  constructor
  · rintro ⟨hagree, hhead⟩
    obtain ⟨p, hp, hsyn, -⟩ := (hmem isn).1 (List.mem_of_mem_head? hhead)
    refine ⟨⟨p, hp, hsyn⟩, fun q hq hsyn' => ?_⟩
    have := agree_none_iff.1 hagree _ ((hmem _).2 ⟨q, hq, hsyn', rfl⟩)
    rw [hhead, Option.some.injEq] at this
    exact this.symm
  · rintro ⟨⟨p, hp, hsyn⟩, hall⟩
    have hisn : ∀ x ∈ synSequences own, x = isn := by
      intro x hx
      obtain ⟨q, hq, hsyn', rfl⟩ := (hmem x).1 hx
      exact hall q hq hsyn'
    refine ⟨fun x hx y hy => ?_, ?_⟩
    · rw [hisn x (by simpa using hx), hisn y (by simpa using hy)]
    · cases hhead : (synSequences own).head? with
      | none =>
        rw [List.head?_eq_none_iff] at hhead
        have := (hmem _).2 ⟨p, hp, hsyn, rfl⟩
        rw [hhead] at this
        exact (List.not_mem_nil this).elim
      | some x => rw [hisn x (List.mem_of_mem_head? hhead)]

theorem tiles_iff {own : List Packet} {isn : UInt32} {stream : List UInt8} :
    Tiles stream ((segmentsOf own).map (·.place (isn + 1))) ↔
      (∀ p ∈ own, p.payload ≠ [] → Slices.Fits stream (p.offset isn) p.payload) ∧
      ∀ i < stream.length, ∃ p ∈ own,
        p.offset isn ≤ i ∧ i < p.offset isn + p.payload.length := by
  constructor
  · rintro ⟨hfits, hcovers⟩
    refine ⟨fun p hp hne => hfits _ (mem_place_segmentsOf.2 ⟨p, hp, hne, rfl⟩), fun i hi => ?_⟩
    obtain ⟨s, hs, htile⟩ := hcovers i hi
    obtain ⟨p, hp, -, rfl⟩ := mem_place_segmentsOf.1 hs
    exact ⟨p, hp, htile⟩
  · rintro ⟨hfits, hcovers⟩
    refine ⟨fun s hs => ?_, fun i hi => ?_⟩
    · obtain ⟨p, hp, hne, rfl⟩ := mem_place_segmentsOf.1 hs
      exact hfits p hp hne
    · obtain ⟨p, hp, h₁, h₂⟩ := hcovers i hi
      have hne : p.payload ≠ [] := by
        rintro hnil
        rw [hnil, List.length_nil] at h₂
        omega
      exact ⟨_, mem_place_segmentsOf.2 ⟨p, hp, hne, rfl⟩, h₁, h₂⟩

theorem MAX_BYTES_lt : MAX_BYTES < 2 ^ 32 := by decide

theorem isSome_head?_finSequences (own : List Packet) :
    (finSequences own).head?.isSome = own.any (·.fin) := by
  unfold finSequences
  induction own with
  | nil => rfl
  | cons p ps ih =>
    cases hfin : p.fin with
    | true => simp [hfin]
    | false => simpa [hfin] using ih

/-- The report of a direction whose payloads were merged into `stream`. -/
theorem transmitted_eq {key : FourTuple} {own : List Packet} {stream : List UInt8}
    {dup : Nat} (isn : UInt32)
    (hdup : dup = (own.map fun p => p.payload.length).sum - stream.length) :
    (⟨key, stream, dup, (((sortPlaced ((segmentsOf own).map (·.place (isn + 1)))).map
      (·.stamp)).min?).getD 0, (finSequences own).head?.isSome, own.any (·.reset)⟩ : Stream) =
      transmitted key own stream := by
  have hstamps : ((sortPlaced ((segmentsOf own).map (·.place (isn + 1)))).map (·.stamp)).min? =
      (payloadStamps own).min? := by
    rw [min?_stamp_sortPlaced, map_place_segmentsOf, List.map_map]
    rfl
  rw [transmitted, hstamps, isSome_head?_finSequences, hdup]

/-- **A direction yields a stream exactly when its packets transmit one.** -/
theorem directionOf_eq_some {key : FourTuple} {own : List Packet} {s : Stream} :
    directionOf key own = .ok (some s) ↔ (∃ p ∈ own, p.payload ≠ []) ∧
      ∃ isn stream, stream.length ≤ MAX_BYTES ∧ Transmits own isn stream ∧
        s = transmitted key own stream := by
  have hpayload : (segmentsOf own).isEmpty = false ↔ ∃ p ∈ own, p.payload ≠ [] := by
    rw [← Bool.not_eq_true, segmentsOf_isEmpty]
    simp
  have hne : ∀ isn, ∀ s ∈ (segmentsOf own).map (·.place (isn + 1)), s.data ≠ [] := by
    intro isn s hs
    obtain ⟨p, -, hne, rfl⟩ := mem_place_segmentsOf.1 hs
    exact hne
  rw [directionOf_eq_ok]
  unfold Direction.assemble
  constructor
  · rintro ⟨hsyns, hfins, h⟩
    simp only at h
    split at h
    · cases h
    rename_i hempty
    split at h
    · cases h
    rename_i isn hisn
    simp only [Except.bind_eq_ok_iff, Except.failIf_eq_ok, exists_const, pure, Except.pure,
      Except.ok.injEq, Option.some.injEq] at h
    obtain ⟨⟨stream, dup⟩, hmerge, hend, rfl⟩ := h
    obtain ⟨hmax, htiles, hcount⟩ := (merge_ok_iff (hne isn)).1 hmerge
    rw [sum_length_place] at hcount
    obtain ⟨hstarted, hall⟩ := syns_iff.1 ⟨hsyns, hisn⟩
    obtain ⟨hfits, hcovers⟩ := tiles_iff.1 htiles
    refine ⟨hpayload.1 (by simpa using hempty), isn, stream, hmax,
      ⟨hstarted, hall, hfits, hcovers,
        (fins_iff (Nat.lt_of_le_of_lt hmax MAX_BYTES_lt)).1 ⟨hfins, hend⟩⟩,
      transmitted_eq isn hcount⟩
  · rintro ⟨hex, isn, stream, hmax, ht, rfl⟩
    obtain ⟨hsyns, hisn⟩ := syns_iff.2 ⟨ht.started, ht.syns⟩
    obtain ⟨hfins, hend⟩ := (fins_iff (Nat.lt_of_le_of_lt hmax MAX_BYTES_lt)).2 ht.fins
    refine ⟨hsyns, hfins, ?_⟩
    have htiles := tiles_iff.2 ⟨ht.fits, ht.covers⟩
    have hmerge := (merge_ok_iff (hne isn)).2 ⟨hmax, htiles, rfl⟩
    rw [sum_length_place] at hmerge
    rw [if_neg (by simpa using hpayload.2 hex), hisn]
    simp only [Except.bind_eq_ok_iff, Except.failIf_eq_ok, exists_const, pure, Except.pure,
      Except.ok.injEq, Option.some.injEq]
    exact ⟨_, hmerge, hend, transmitted_eq isn rfl⟩

/-- A direction without payload is only checked for its SYNs and its FINs. -/
theorem directionOf_eq_none {key : FourTuple} {own : List Packet} :
    directionOf key own = .ok none ↔ (∀ p ∈ own, p.payload = []) ∧
      Agree none (synSequences own) ∧ Agree none (finSequences own) := by
  rw [directionOf_eq_ok, ← segmentsOf_isEmpty]
  unfold Direction.assemble
  constructor
  · rintro ⟨hsyns, hfins, h⟩
    split at h
    · rename_i hempty
      exact ⟨hempty, hsyns, hfins⟩
    · split at h
      · cases h
      · simp [Except.bind_eq_ok_iff, pure, Except.pure] at h
  · rintro ⟨hempty, hsyns, hfins⟩
    exact ⟨hsyns, hfins, if_pos hempty⟩

/-! ## All directions -/

/-- The packets of one direction. -/
def packetsOf (packets : List Packet) (key : FourTuple) : List Packet :=
  packets.filter fun p => decide (p.key = key)

theorem mem_packetsOf {packets : List Packet} {key : FourTuple} {p : Packet} :
    p ∈ packetsOf packets key ↔ p ∈ packets ∧ p.key = key := by
  simp [packetsOf]

theorem collect_cons_eq_ok {directions directions' : FinMap FourTuple Direction} {p : Packet}
    {ps : List Packet} : collect directions (p :: ps) = .ok directions' ↔
      ∃ state, ((directions.get? p.key).getD .empty).add p = .ok state ∧
        collect (directions.insert p.key state) ps = .ok directions' := by
  rw [collect, Except.bind_eq_ok_iff]

/-- The collected state of a direction depends on its packetsOf packets only. -/
theorem collect_packetsOf : ∀ {packets : List Packet} {directions directions' : FinMap FourTuple Direction},
    collect directions packets = .ok directions' → ∀ key,
      (packetsOf packets key).foldlM Direction.add ((directions.get? key).getD .empty) =
        .ok ((directions'.get? key).getD .empty)
  | [], directions, directions', h, key => by
    cases h
    rfl
  | p :: ps, directions, directions', h, key => by
    obtain ⟨state, hadd, hrest⟩ := collect_cons_eq_ok.1 h
    have ih := collect_packetsOf hrest key
    rw [packetsOf, List.filter_cons]
    by_cases hkey : p.key = key
    · subst hkey
      rw [if_pos (by simp), List.foldlM_cons, Except.bind_eq_ok_iff]
      rw [FinMap.get?_insert_self] at ih
      exact ⟨state, hadd, ih⟩
    · rw [if_neg (by simpa using hkey)]
      rw [FinMap.get?_insert_ne _ _ hkey] at ih
      exact ih

/-- Packets are collected when every direction can be. -/
theorem collect_isOk : ∀ (packets : List Packet) (directions : FinMap FourTuple Direction),
    (∀ key, ∃ state, (packetsOf packets key).foldlM Direction.add
      ((directions.get? key).getD .empty) = .ok state) →
      ∃ directions', collect directions packets = .ok directions'
  | [], directions, _ => ⟨directions, rfl⟩
  | p :: ps, directions, h => by
    have hhead : ∃ state, ((directions.get? p.key).getD .empty).add p = .ok state := by
      obtain ⟨final, hfinal⟩ := h p.key
      rw [packetsOf, List.filter_cons, if_pos (by simp), List.foldlM_cons, Except.bind_eq_ok_iff] at hfinal
      exact ⟨hfinal.choose, hfinal.choose_spec.1⟩
    obtain ⟨state, hadd⟩ := hhead
    obtain ⟨directions', hrest⟩ := collect_isOk ps (directions.insert p.key state) fun key => by
        obtain ⟨final, hfinal⟩ := h key
        rw [packetsOf, List.filter_cons] at hfinal
        by_cases hkey : p.key = key
        · subst hkey
          rw [if_pos (by simp), List.foldlM_cons, Except.bind_eq_ok_iff] at hfinal
          obtain ⟨state', hadd', hrest⟩ := hfinal
          rw [hadd, Except.ok.injEq] at hadd'
          subst hadd'
          exact ⟨final, by rw [FinMap.get?_insert_self]; exact hrest⟩
        · rw [if_neg (by simpa using hkey)] at hfinal
          exact ⟨final, by rw [FinMap.get?_insert_ne _ _ hkey]; exact hfinal⟩
    exact ⟨directions', collect_cons_eq_ok.2 ⟨state, hadd, hrest⟩⟩

theorem streamsOf_cons_eq_ok {key : FourTuple} {state : Direction}
    {rest : List (FourTuple × Direction)} {streams : List Stream} :
    streamsOf ((key, state) :: rest) = .ok streams ↔ ∃ r streams', state.assemble key = .ok r ∧
      streamsOf rest = .ok streams' ∧ streams = r.toList ++ streams' := by
  simp only [streamsOf, Except.bind_eq_ok_iff, pure, Except.pure, Except.ok.injEq]
  constructor
  · rintro ⟨r, hr, streams', hrest, rfl⟩
    exact ⟨r, streams', hr, hrest, rfl⟩
  · rintro ⟨r, streams', hr, hrest, rfl⟩
    exact ⟨r, hr, streams', hrest, rfl⟩

/-- The second loop: which streams it yields, in the order of the directions. -/
theorem streamsOf_spec : ∀ {entries : List (FourTuple × Direction)} {streams : List Stream},
    streamsOf entries = .ok streams →
      (∀ e ∈ entries, ∃ r, e.2.assemble e.1 = .ok r) ∧
      (∀ s, s ∈ streams ↔ ∃ e ∈ entries, e.2.assemble e.1 = .ok (some s)) ∧
      (streams.map (·.direction)).Sublist (entries.map (·.1))
  | [], streams, h => by
    cases h
    exact ⟨by simp, by simp, List.Sublist.refl _⟩
  | (key, state) :: rest, streams, h => by
    obtain ⟨r, streams', hr, hrest, rfl⟩ := streamsOf_cons_eq_ok.1 h
    obtain ⟨hall, hmem, hsub⟩ := streamsOf_spec hrest
    refine ⟨?_, fun s => ?_, ?_⟩
    · rintro e he
      rcases List.mem_cons.1 he with rfl | he
      · exact ⟨r, hr⟩
      · exact hall e he
    · simp only [List.mem_append, Option.mem_toList, hmem, List.exists_mem_cons_iff, hr,
        Except.ok.injEq]
    · cases r with
      | none => exact hsub.cons _
      | some s =>
        have hdir : s.direction = key := by
          unfold Direction.assemble at hr
          split at hr
          · cases hr
          split at hr
          · cases hr
          simp only [Except.bind_eq_ok_iff, pure, Except.pure, Except.ok.injEq,
            Option.some.injEq] at hr
          obtain ⟨_, -, _, -, rfl⟩ := hr
          rfl
        rw [Option.toList_some, List.map_append, List.map_cons, List.map_nil, List.cons_append,
          List.nil_append, List.map_cons, hdir]
        exact hsub.cons_cons _

theorem streamsOf_isOk : ∀ (entries : List (FourTuple × Direction)),
    (∀ e ∈ entries, ∃ r, e.2.assemble e.1 = .ok r) → ∃ streams, streamsOf entries = .ok streams
  | [], _ => ⟨[], rfl⟩
  | (key, state) :: rest, h => by
    obtain ⟨r, hr⟩ := h (key, state) List.mem_cons_self
    obtain ⟨streams', hrest⟩ := streamsOf_isOk rest fun e he => h e (List.mem_cons_of_mem _ he)
    exact ⟨_, streamsOf_cons_eq_ok.2 ⟨r, streams', hr, hrest, rfl⟩⟩

theorem assemble_direction {key : FourTuple} {own : List Packet} {s : Stream}
    (h : directionOf key own = .ok (some s)) : s.direction = key := by
  obtain ⟨-, -, stream, -, -, rfl⟩ := directionOf_eq_some.1 h
  rfl

/-- What `collect` leaves of a direction is what `directionOf` assembles. -/
theorem assemble_collected {packets : List Packet} {directions : FinMap FourTuple Direction}
    (h : collect .empty packets = .ok directions) {key : FourTuple} {state : Direction}
    (hstate : directions.get? key = some state) :
    state.assemble key = directionOf key (packetsOf packets key) := by
  have := collect_packetsOf h key
  rw [hstate, Option.getD_some, FinMap.get?_empty, Option.getD_none] at this
  rw [directionOf, this]
  rfl

/-- A direction that was not collected has no packets. -/
theorem directionOf_uncollected {packets : List Packet}
    {directions : FinMap FourTuple Direction} (h : collect .empty packets = .ok directions)
    {key : FourTuple} (hstate : directions.get? key = none) :
    directionOf key (packetsOf packets key) = .ok none := by
  have := collect_packetsOf h key
  rw [hstate, FinMap.get?_empty, Option.getD_none] at this
  rw [directionOf, this]
  rfl

theorem reassemble_eq_ok {packets : List Packet} {streams : List Stream} :
    reassemble packets = .ok streams ↔ ∃ directions, collect .empty packets = .ok directions ∧
      streamsOf directions.entries = .ok streams := by
  rw [reassemble, Except.bind_eq_ok_iff]

/-- **The streams of an accepted capture are the streams of its directions.** -/
theorem mem_reassemble {packets : List Packet} {streams : List Stream}
    (h : reassemble packets = .ok streams) {s : Stream} :
    s ∈ streams ↔ directionOf s.direction (packetsOf packets s.direction) = .ok (some s) := by
  obtain ⟨directions, hcollect, hstreams⟩ := reassemble_eq_ok.1 h
  rw [(streamsOf_spec hstreams).2.1 s]
  constructor
  · rintro ⟨⟨key, state⟩, he, hs⟩
    rw [assemble_collected hcollect (FinMap.mem_entries.1 he)] at hs
    rw [assemble_direction hs]
    exact hs
  · intro hs
    cases hstate : directions.get? s.direction with
    | none =>
      rw [directionOf_uncollected hcollect hstate] at hs
      cases hs
    | some state =>
      refine ⟨(s.direction, state), FinMap.mem_entries.2 hstate, ?_⟩
      rw [assemble_collected hcollect hstate]
      exact hs

/-- Every direction has at most one stream. -/
theorem nodup_reassemble {packets : List Packet} {streams : List Stream}
    (h : reassemble packets = .ok streams) : (streams.map (·.direction)).Nodup := by
  obtain ⟨directions, -, hstreams⟩ := reassemble_eq_ok.1 h
  exact (streamsOf_spec hstreams).2.2.nodup directions.keys_nodup

/-- **A capture is accepted exactly when each of its directions is.** -/
theorem reassemble_isOk {packets : List Packet} : (∃ streams, reassemble packets = .ok streams) ↔
    ∀ key, ∃ r, directionOf key (packetsOf packets key) = .ok r := by
  constructor
  · rintro ⟨streams, h⟩ key
    obtain ⟨directions, hcollect, hstreams⟩ := reassemble_eq_ok.1 h
    cases hstate : directions.get? key with
    | none => exact ⟨none, directionOf_uncollected hcollect hstate⟩
    | some state =>
      rw [← assemble_collected hcollect hstate]
      exact (streamsOf_spec hstreams).1 (key, state) (FinMap.mem_entries.2 hstate)
  · intro h
    have hcollect : ∃ directions, collect .empty packets = .ok directions :=
      collect_isOk packets .empty fun key => by
        obtain ⟨r, hr⟩ := h key
        rw [directionOf, Except.bind_eq_ok_iff] at hr
        exact ⟨hr.choose, hr.choose_spec.1⟩
    obtain ⟨directions, hcollect⟩ := hcollect
    obtain ⟨streams, hstreams⟩ := streamsOf_isOk directions.entries fun e he => by
      rw [assemble_collected hcollect (FinMap.mem_entries.1 he)]
      exact h e.1
    exact ⟨streams, reassemble_eq_ok.2 ⟨directions, hcollect, hstreams⟩⟩

end ReedCode.WireCapture
