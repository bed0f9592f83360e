import ReedCode.WireCapture.Directions
import Mathlib.Order.Bounds.Basic

/-!
# Reassembly inverts segmentation

* `reassemble_transmitted` — packets that transmit a stream are reassembled into it;
* `reassemble_isOk_iff` — a capture is accepted exactly when each direction is consistent;
* `noSilentLoss_iff` — lost and contradictory bytes are reported, but for a direction that
  lost all of its payload.
-/

set_option autoImplicit false

namespace ReedCode.WireCapture

variable {packets : List Packet} {key : FourTuple} {isn : UInt32} {stream : List UInt8}

/-! ## The stream of a direction -/

/-- Repeated bytes are counted on top of the stream. -/
theorem Transmits.length_le {own : List Packet} (ht : Transmits own isn stream)
    (hmax : stream.length ≤ MAX_BYTES) :
    stream.length ≤ (own.map fun p => p.payload.length).sum := by
  have hne : ∀ s ∈ (segmentsOf own).map (·.place (isn + 1)), s.data ≠ [] := by
    intro s hs
    obtain ⟨p, -, hne, rfl⟩ := mem_place_segmentsOf.1 hs
    exact hne
  obtain ⟨dup, -, hcount⟩ := merge_tiles hne hmax (tiles_iff.2 ⟨ht.fits, ht.covers⟩)
  rw [sum_length_place] at hcount
  omega

theorem Transmits.exists_payload {own : List Packet} (ht : Transmits own isn stream)
    (hne : stream ≠ []) : ∃ p ∈ own, p.payload ≠ [] := by
  obtain ⟨p, hp, hle, hlt⟩ := ht.covers 0 (List.length_pos_iff.2 hne)
  refine ⟨p, hp, fun hnil => ?_⟩
  rw [hnil, List.length_nil] at hlt
  omega

theorem mem_payloadStamps {own : List Packet} {t : Nat} :
    t ∈ payloadStamps own ↔ ∃ p ∈ own, p.payload ≠ [] ∧ p.timestampNs = t := by
  simp [payloadStamps, and_assoc]

/-- The packets of the other directions. -/
def otherPackets (packets : List Packet) (key : FourTuple) : List Packet :=
  packets.filter fun p => decide (p.key ≠ key)

theorem packetsOf_otherPackets {key' : FourTuple} (h : key' ≠ key) :
    packetsOf (otherPackets packets key) key' = packetsOf packets key' := by
  rw [packetsOf, otherPackets, List.filter_filter, packetsOf]
  refine List.filter_congr fun p _ => ?_
  by_cases hp : p.key = key'
  · simp [hp, h]
  · simp [hp]

/-- **Reassembly inverts segmentation.**  Packets that transmit a nonempty stream of at most
`MAX_BYTES` bytes, mixed in any order with packets of other directions that reassemble by
themselves, yield that stream as the only one of its direction. -/
theorem reassemble_transmitted (hne : stream ≠ []) (hmax : stream.length ≤ MAX_BYTES)
    (ht : Transmits (packetsOf packets key) isn stream)
    (hothers : ∃ streams, reassemble (otherPackets packets key) = .ok streams) :
    ∃ streams s, reassemble packets = .ok streams ∧
      streams.filter (fun s => decide (s.direction = key)) = [s] ∧ s.data = stream ∧
      s.duplicateBytes + stream.length =
        ((packetsOf packets key).map fun p => p.payload.length).sum ∧
      IsLeast {t | ∃ p ∈ packetsOf packets key, p.payload ≠ [] ∧ p.timestampNs = t}
        s.firstTimestampNs := by
  have hpayload := ht.exists_payload hne
  have hs : directionOf key (packetsOf packets key) =
      .ok (some (transmitted key (packetsOf packets key) stream)) :=
    directionOf_eq_some.2 ⟨hpayload, isn, stream, hmax, ht, rfl⟩
  obtain ⟨streams, hstreams⟩ : ∃ streams, reassemble packets = .ok streams := by
    refine reassemble_isOk.2 fun key' => ?_
    by_cases hkey : key' = key
    · exact ⟨_, hkey ▸ hs⟩
    · rw [← packetsOf_otherPackets hkey]
      exact reassemble_isOk.1 hothers key'
  refine ⟨streams, transmitted key (packetsOf packets key) stream, hstreams, ?_, rfl, ?_, ?_⟩
  · -- membership is settled by the direction, and directions are not repeated
    have hmem : transmitted key (packetsOf packets key) stream ∈ streams :=
      (mem_reassemble hstreams).2 hs
    have hall : ∀ s ∈ streams.filter (fun s => decide (s.direction = key)),
        s = transmitted key (packetsOf packets key) stream := by
      intro s hfilter
      obtain ⟨hs', hdir⟩ := List.mem_filter.1 hfilter
      have hdir' : s.direction = key := by simpa using hdir
      have := (mem_reassemble hstreams).1 hs'
      rw [hdir', hs, Except.ok.injEq, Option.some.injEq] at this
      exact this.symm
    have hnodup : (streams.filter (fun s => decide (s.direction = key))).Nodup :=
      (List.Nodup.of_map _ (nodup_reassemble hstreams)).filter _
    have hmem' : transmitted key (packetsOf packets key) stream ∈
        streams.filter (fun s => decide (s.direction = key)) :=
      List.mem_filter.2 ⟨hmem, by simp [transmitted]⟩
    cases hfilter : streams.filter (fun s => decide (s.direction = key)) with
    | nil => rw [hfilter] at hmem'; cases hmem'
    | cons s rest =>
      rw [hfilter] at hall hnodup
      cases rest with
      | nil => rw [hall s List.mem_cons_self]
      | cons t rest =>
        have : s = t := (hall s (by simp)).trans (hall t (by simp)).symm
        exact absurd (this ▸ List.mem_cons_self) (List.nodup_cons.1 hnodup).1
  · exact Nat.sub_add_cancel (ht.length_le hmax)
  · obtain ⟨p, hp, hpne⟩ := hpayload
    cases hmin : (payloadStamps (packetsOf packets key)).min? with
    | none =>
      have := mem_payloadStamps.2 ⟨p, hp, hpne, rfl⟩
      rw [List.min?_eq_none_iff.1 hmin] at this
      cases this
    | some m =>
      obtain ⟨hmem, hle⟩ := List.min?_eq_some_iff.1 hmin
      simp only [transmitted, hmin, Option.getD_some]
      exact ⟨mem_payloadStamps.1 hmem, fun t ht => hle t (mem_payloadStamps.2 ht)⟩

/-- A loopback direction. -/
def loopback (port : Nat) : FourTuple := ⟨"127.0.0.1", port, "127.0.0.1", 20000⟩

/-- Two overlapping segments behind a SYN at the end of the sequence space. -/
def wrappingPackets : List Packet :=
  [⟨loopback 1, 1, 0, [3, 4], 7⟩, ⟨loopback 1, 0xfffffffe, 2, [], 4⟩,
    ⟨loopback 1, 0xffffffff, 0, [1, 2, 3], 5⟩, ⟨loopback 1, 3, 1, [], 9⟩]

theorem wrappingPackets_transmit :
    Transmits (packetsOf wrappingPackets (loopback 1)) 0xfffffffe [1, 2, 3, 4] :=
  ⟨by decide, by decide, by decide, by decide, by decide⟩

theorem reassemble_transmitted_wrappingPackets :
    ∃ streams s, reassemble wrappingPackets = .ok streams ∧
      streams.filter (fun s => decide (s.direction = loopback 1)) = [s] ∧
      s.data = [1, 2, 3, 4] ∧ s.duplicateBytes + 4 = 5 ∧
      IsLeast {t | ∃ p ∈ packetsOf wrappingPackets (loopback 1),
        p.payload ≠ [] ∧ p.timestampNs = t} s.firstTimestampNs :=
  reassemble_transmitted (by decide) (by decide) wrappingPackets_transmit ⟨[], rfl⟩

/-- **Not every mixed capture is accepted, nor is the first stamp that of the first packet.**
A data packet of a direction without SYN rejects the whole capture; a SYN without payload does
not count for the stamp. -/
theorem reassemble_mixed :
    (∀ streams, reassemble (wrappingPackets ++ [⟨loopback 2, 0, 0, [1], 0⟩]) ≠ .ok streams) ∧
    Transmits (packetsOf (wrappingPackets ++ [⟨loopback 2, 0, 0, [1], 0⟩]) (loopback 1))
      0xfffffffe [1, 2, 3, 4] ∧
    reassemble wrappingPackets = .ok [⟨loopback 1, [1, 2, 3, 4], 1, 5, true, false⟩] ∧
    ∃ p ∈ wrappingPackets, p.key = loopback 1 ∧ p.timestampNs < 5 := by
  refine ⟨fun streams h => ?_, wrappingPackets_transmit, by decide, by decide⟩
  have : reassemble (wrappingPackets ++ [⟨loopback 2, 0, 0, [1], 0⟩]) =
      .error "Data stream has no captured SYN; its beginning is unknown" := by decide
  rw [this] at h
  cases h

/-! ## Consistent captures -/

/-- What `reassemble` accepts of one direction. -/
structure Consistent (own : List Packet) : Prop where
  syns : Agree none (synSequences own)
  fins : Agree none (finSequences own)
  stream : (∃ p ∈ own, p.payload ≠ []) →
    ∃ isn stream, stream.length ≤ MAX_BYTES ∧ Transmits own isn stream

theorem directionOf_isOk {own : List Packet} :
    (∃ r, directionOf key own = .ok r) ↔ Consistent own := by
  constructor
  · rintro ⟨r, hr⟩
    obtain ⟨hsyns, hfins, -⟩ := directionOf_eq_ok.1 hr
    refine ⟨hsyns, hfins, fun hpayload => ?_⟩
    cases r with
    | none =>
      obtain ⟨p, hp, hne⟩ := hpayload
      exact absurd ((directionOf_eq_none.1 hr).1 p hp) hne
    | some s =>
      obtain ⟨-, isn, stream, hmax, ht, -⟩ := directionOf_eq_some.1 hr
      exact ⟨isn, stream, hmax, ht⟩
  · rintro ⟨hsyns, hfins, hstream⟩
    by_cases hpayload : ∃ p ∈ own, p.payload ≠ []
    · obtain ⟨isn, stream, hmax, ht⟩ := hstream hpayload
      exact ⟨_, directionOf_eq_some.2 ⟨hpayload, isn, stream, hmax, ht, rfl⟩⟩
    · refine ⟨none, directionOf_eq_none.2 ⟨fun p hp => ?_, hsyns, hfins⟩⟩
      by_contra hne
      exact hpayload ⟨p, hp, hne⟩

/-- **A capture is accepted exactly when each direction is consistent.** -/
theorem reassemble_isOk_iff :
    (∃ streams, reassemble packets = .ok streams) ↔ ∀ key, Consistent (packetsOf packets key) := by
  rw [reassemble_isOk]
  exact forall_congr' fun key => directionOf_isOk

/-! ## Loss -/

/-- The packet carries this byte at this sequence position. -/
def Packet.Carries (p : Packet) (position : UInt32) (byte : UInt8) : Prop :=
  ∃ j, p.payload[j]? = some byte ∧ p.dataSequence + UInt32.ofNat j = position

/-- Some position between a captured SYN and a captured FIN of the direction is carried by
no captured packet of it. -/
def LosesByte (own : List Packet) : Prop :=
  ∃ s ∈ own, s.syn = true ∧ ∃ f ∈ own, f.fin = true ∧
    ∃ i < (f.finSequence - (s.sequence + 1)).toNat,
      ∀ p ∈ own, ∀ byte, ¬ p.Carries (s.sequence + 1 + UInt32.ofNat i) byte

/-- Two captured packets of the direction carry different bytes at one position. -/
def Contradicts (own : List Packet) : Prop :=
  ∃ p ∈ own, ∃ q ∈ own, ∃ position byte byte', p.Carries position byte ∧
    q.Carries position byte' ∧ byte ≠ byte'

/-- Every loss and every contradiction is reported. -/
def NoSilentLoss (packets : List Packet) : Prop :=
  ∀ key, LosesByte (packetsOf packets key) ∨ Contradicts (packetsOf packets key) →
    ∃ e, reassemble packets = .error e

theorem ofNat_add_injective {base : UInt32} {i j : Nat} (hi : i < 2 ^ 32) (hj : j < 2 ^ 32)
    (h : base + UInt32.ofNat i = base + UInt32.ofNat j) : i = j := by
  rw [← (sub_toNat_eq_iff hi).2 rfl, h, (sub_toNat_eq_iff hj).2 rfl]

/-- What a packet of a transmitted stream carries is the byte of the stream. -/
theorem Transmits.carries {own : List Packet} (ht : Transmits own isn stream) {p : Packet}
    (hp : p ∈ own) {position : UInt32} {byte : UInt8} (hc : p.Carries position byte) :
    ∃ i < stream.length, position = isn + 1 + UInt32.ofNat i ∧ stream[i]? = some byte := by
  obtain ⟨j, hbyte, rfl⟩ := hc
  have hj : j < p.payload.length := (List.getElem?_eq_some_iff.1 hbyte).1
  have hne : p.payload ≠ [] := by
    rintro hnil
    rw [hnil, List.length_nil] at hj
    omega
  have hfit := ht.fits p hp hne
  have hle := hfit.length_le hne
  refine ⟨p.offset isn + j, by omega, ?_, by rw [← hfit.getElem? hj, hbyte]⟩
  rw [UInt32.ofNat_add, Packet.offset, UInt32.ofNat_toNat]
  grind

/-- Every byte of a transmitted stream is carried by a packet. -/
theorem Transmits.carried {own : List Packet} (ht : Transmits own isn stream) {i : Nat}
    (hi : i < stream.length) : ∃ p ∈ own, ∃ byte, p.Carries (isn + 1 + UInt32.ofNat i) byte := by
  obtain ⟨p, hp, hle, hlt⟩ := ht.covers i hi
  have hj : i - p.offset isn < p.payload.length := by omega
  refine ⟨p, hp, p.payload[i - p.offset isn], i - p.offset isn, List.getElem?_eq_getElem hj, ?_⟩
  have hsplit : UInt32.ofNat i = UInt32.ofNat (p.offset isn) + UInt32.ofNat (i - p.offset isn) := by
    rw [← UInt32.ofNat_add, Nat.add_sub_cancel' hle]
  rw [hsplit, Packet.offset, UInt32.ofNat_toNat]
  grind

theorem Transmits.not_contradicts {own : List Packet} (ht : Transmits own isn stream)
    (hmax : stream.length ≤ MAX_BYTES) : ¬ Contradicts own := by
  rintro ⟨p, hp, q, hq, position, byte, byte', hpc, hqc, hne⟩
  obtain ⟨i, hi, rfl, hbyte⟩ := ht.carries hp hpc
  obtain ⟨j, hj, hpos, hbyte'⟩ := ht.carries hq hqc
  have := MAX_BYTES_lt
  have hij := ofNat_add_injective (by omega) (by omega) hpos
  rw [hij, hbyte', Option.some.injEq] at hbyte
  exact hne hbyte.symm

theorem Transmits.not_losesByte {own : List Packet} (ht : Transmits own isn stream)
    (hmax : stream.length ≤ MAX_BYTES) : ¬ LosesByte own := by
  rintro ⟨s, hs, hsyn, f, hf, hfin, i, hi, hnone⟩
  have := MAX_BYTES_lt
  rw [ht.syns s hs hsyn] at hi hnone
  rw [(sub_toNat_eq_iff (by omega)).2 (ht.fins f hf hfin)] at hi
  obtain ⟨p, hp, byte, hc⟩ := ht.carried hi
  exact hnone p hp byte hc

/-- The direction has a SYN and a FIN with sequence positions between them, and no payload. -/
def LosesPayload (own : List Packet) : Prop :=
  (∀ p ∈ own, p.payload = []) ∧ ∃ s ∈ own, s.syn = true ∧ ∃ f ∈ own, f.fin = true ∧
    f.finSequence ≠ s.sequence + 1

/-- **Loss is reported unless an otherwise consistent capture has a direction that lost all of
its payload.** -/
theorem noSilentLoss_iff : NoSilentLoss packets ↔
    ((∀ key, Consistent (packetsOf packets key)) →
      ∀ key, ¬ LosesPayload (packetsOf packets key)) := by
  constructor
  · rintro h hconsistent key ⟨hnone, s, hs, hsyn, f, hf, hfin, hne⟩
    obtain ⟨streams, hok⟩ := reassemble_isOk_iff.2 hconsistent
    have hpos : 0 < (f.finSequence - (s.sequence + 1)).toNat := by
      rcases Nat.eq_zero_or_pos (f.finSequence - (s.sequence + 1)).toNat with h0 | hpos
      · rw [sub_toNat_eq_iff (by decide)] at h0
        exact absurd (by simpa using h0) hne
      · exact hpos
    obtain ⟨e, he⟩ := h key (.inl ⟨s, hs, hsyn, f, hf, hfin, 0, hpos, fun p hp byte hc => by
      obtain ⟨j, hj, -⟩ := hc
      rw [hnone p hp] at hj
      cases hj⟩)
    rw [hok] at he
    cases he
  · intro h key hbad
    cases hr : reassemble packets with
    | error e => exact ⟨e, rfl⟩
    | ok streams =>
      have hconsistent := reassemble_isOk_iff.1 ⟨streams, hr⟩
      exfalso
      by_cases hpayload : ∃ p ∈ packetsOf packets key, p.payload ≠ []
      · obtain ⟨isn, stream, hmax, ht⟩ := (hconsistent key).stream hpayload
        exact hbad.elim (ht.not_losesByte hmax) (ht.not_contradicts hmax)
      · have hnone : ∀ p ∈ packetsOf packets key, p.payload = [] := by
          intro p hp
          by_contra hne
          exact hpayload ⟨p, hp, hne⟩
        rcases hbad with ⟨s, hs, hsyn, f, hf, hfin, i, hi, -⟩ | ⟨p, hp, q, -, _, _, _, hc, -⟩
        · refine h hconsistent key ⟨hnone, s, hs, hsyn, f, hf, hfin, fun heq => ?_⟩
          rw [heq] at hi
          simp at hi
        · obtain ⟨j, hj, -⟩ := hc
          rw [hnone p hp] at hj
          cases hj

/-- The SYN and the FIN of a direction whose four bytes were not captured. -/
def lostPackets : List Packet := [⟨loopback 1, 0, 2, [], 0⟩, ⟨loopback 1, 5, 1, [], 0⟩]

/-- **A direction that lost all of its payload is dropped.** -/
theorem lostPackets_dropped :
    reassemble lostPackets = .ok [] ∧ LosesByte (packetsOf lostPackets (loopback 1)) ∧
      ¬ NoSilentLoss lostPackets := by
  have hok : reassemble lostPackets = .ok [] := by decide
  have hnil : ∀ p ∈ packetsOf lostPackets (loopback 1), p.payload = [] := by decide
  have hlost : LosesByte (packetsOf lostPackets (loopback 1)) := by
    refine ⟨⟨loopback 1, 0, 2, [], 0⟩, by decide, by decide, ⟨loopback 1, 5, 1, [], 0⟩,
      by decide, by decide, 0, by decide, ?_⟩
    rintro p hp byte ⟨j, hj, -⟩
    rw [hnil p hp] at hj
    cases hj
  refine ⟨hok, hlost, fun h => ?_⟩
  obtain ⟨e, he⟩ := h _ (.inl hlost)
  rw [hok] at he
  cases he

end ReedCode.WireCapture
