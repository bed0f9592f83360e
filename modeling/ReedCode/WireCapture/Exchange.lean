import ReedCode.WireCapture.Decode

/-!
# The shape of a response and of a stream

The language that the three flags of the response loop accept, and the shapes that streams
are told apart by.

* `readResponse_iff` — the frames that are read to the end are one prologue, payloads of which
  the last and only the last is final, and sentinels;
* `classify_eq_ok` — a classified stream has the shape of its class, and the shapes exclude
  one another.
-/

set_option autoImplicit false

namespace ReedCode.WireCapture

open Framing (slice)

variable {C : DecodeCodecs} {kind : Kind} {codec : PayloadCodec}

/-! ## Responses -/

/-- An empty frame whose header reports no error. -/
def IsPrologue (frame : Frame) : Prop := frame.header.get? "error" = some .null ∧ frame.body = []

def IsSentinel (frame : Frame) : Prop := frame.header = .str "sentinel" ∧ frame.body = []

/-- A frame without a header, whose body has the completion marker and the tokens. -/
def IsPayload (C : DecodeCodecs) (kind : Kind) (codec : PayloadCodec) (frame : Frame)
    (final : Bool) (tokens : List Nat) : Prop :=
  frame.header = .null ∧ frame.body ≠ [] ∧
    ∃ wrapper, readPayload C kind codec frame.body = .ok (wrapper, final, tokens)

/-- One or more payload frames, of which the last and only the last is final, with the tokens
of each. -/
inductive Payloads (C : DecodeCodecs) (kind : Kind) (codec : PayloadCodec) :
    List Frame → List (List Nat) → Prop
  | last {frame : Frame} {tokens : List Nat} (h : IsPayload C kind codec frame true tokens) :
      Payloads C kind codec [frame] [tokens]
  | more {frame : Frame} {frames : List Frame} {tokens : List Nat} {rest : List (List Nat)}
      (h : IsPayload C kind codec frame false tokens) (hrest : Payloads C kind codec frames rest) :
      Payloads C kind codec (frame :: frames) (tokens :: rest)

/-- The payloads and the sentinels that close them. -/
def Closing (C : DecodeCodecs) (kind : Kind) (codec : PayloadCodec) (frames : List Frame)
    (payloads : List (List Nat)) : Prop :=
  ∃ body sentinels, frames = body ++ sentinels ∧ Payloads C kind codec body payloads ∧
    sentinels ≠ [] ∧ ∀ frame ∈ sentinels, IsSentinel frame

/-- **A complete response**: a prologue, payloads and sentinels. -/
def Exchange (C : DecodeCodecs) (kind : Kind) (codec : PayloadCodec) (frames : List Frame)
    (payloads : List (List Nat)) : Prop :=
  ∃ prologue rest, frames = prologue :: rest ∧ IsPrologue prologue ∧
    Closing C kind codec rest payloads

theorem IsSentinel.get?_error {frame : Frame} (h : IsSentinel frame) (key : String) :
    frame.header.get? key = none := by
  rw [h.1]
  rfl

/-- What one frame does to the flags. -/
theorem Progress.step_eq_ok {p q : Progress} {frame : Frame} :
    p.step C kind codec frame = .ok q ↔
      (IsPrologue frame ∧ p.prologue = false ∧ q = { p with prologue := true }) ∨
      (IsSentinel frame ∧ q = { p with sentinel := true }) ∨
      (frame.header = .null ∧ frame.body ≠ [] ∧ ∃ wrapper final tokens,
        readPayload C kind codec frame.body = .ok (wrapper, final, tokens) ∧
        p.prologue = true ∧ p.complete = false ∧ p.sentinel = false ∧
        q = { p with
          complete := final
          output := p.output ++ tokens
          responses := p.responses ++ [(wrapper, frame.sha256)] }) := by
  unfold Progress.step IsPrologue IsSentinel
  split
  · rename_i error herror hbody
    rw [List.isEmpty_iff] at hbody
    have hnull : frame.header ≠ .null := fun h => by rw [h] at herror; cases herror
    have hstr : frame.header ≠ .str "sentinel" := fun h => by rw [h] at herror; cases herror
    simp only [herror, hbody, hnull, hstr, false_and, or_false, Option.some.injEq, and_true]
    cases error <;> cases p.prologue <;> simp [Value.isNull, eq_comm]
  · rename_i hno
    have hprologue : ¬ (frame.header.get? "error" = some .null ∧ frame.body = []) := fun h =>
      hno _ h.1 (List.isEmpty_iff.2 h.2)
    simp only [hprologue, false_and, false_or, List.isEmpty_iff]
    split
    · rename_i h
      simp only [h, and_self, true_and, ne_eq, not_true_eq_false, false_and, and_false, or_false,
        Except.ok.injEq, eq_comm]
    · rename_i h
      simp only [h, false_and, false_or, List.isEmpty_eq_false_iff]
      split
      · rename_i hpayload
        simp only [hpayload, ne_eq, not_false_eq_true, true_and]
        split
        · rename_i hflags
          simp only [reduceCtorEq, false_iff]
          rintro ⟨_, _, _, -, hp, hc, hs, -⟩
          simp [hp, hc, hs] at hflags
        · rename_i hflags
          simp only [Bool.or_eq_true, Bool.not_eq_true', not_or, Bool.not_eq_false,
            Bool.not_eq_true] at hflags
          simp only [hflags, true_and, Except.bind_eq_ok_iff, pure, Except.pure, Except.ok.injEq,
            Prod.exists]
          simp only [eq_comm]
      · rename_i hpayload
        simp only [reduceCtorEq, false_iff]
        rintro ⟨hnull, hbody, -⟩
        exact hpayload ⟨hnull, hbody⟩

/-- The frames are read from `p` on to the end of the response, with `out` as the output. -/
def Reads (C : DecodeCodecs) (kind : Kind) (codec : PayloadCodec) (p : Progress)
    (frames : List Frame) (out : List Nat) : Prop :=
  ∃ q, frames.foldlM (Progress.step C kind codec) p = .ok q ∧ q.prologue = true ∧
    q.complete = true ∧ q.sentinel = true ∧ q.output = out

theorem reads_nil {p : Progress} {out : List Nat} :
    Reads C kind codec p [] out ↔
      p.prologue = true ∧ p.complete = true ∧ p.sentinel = true ∧ p.output = out := by
  simp [Reads, pure, Except.pure]

theorem reads_cons {p : Progress} {frame : Frame} {frames : List Frame} {out : List Nat} :
    Reads C kind codec p (frame :: frames) out ↔
      ∃ q, p.step C kind codec frame = .ok q ∧ Reads C kind codec q frames out := by
  simp only [Reads, List.foldlM_cons, Except.bind_eq_ok_iff]
  constructor
  · rintro ⟨r, ⟨q, hstep, hfold⟩, hr⟩
    exact ⟨q, hstep, r, hfold, hr⟩
  · rintro ⟨q, hstep, r, hfold, hr⟩
    exact ⟨r, ⟨q, hstep, hfold⟩, hr⟩

/-- A sentinel before the final payload spoils the response. -/
theorem not_reads_early : ∀ {frames : List Frame} {p : Progress} {out : List Nat},
    p.complete = false → p.sentinel = true → ¬ Reads C kind codec p frames out
  | [], p, out, hc, _, h => by
    rw [reads_nil, hc] at h
    exact absurd h.2.1 (by decide)
  | frame :: frames, p, out, hc, hs, h => by
    obtain ⟨q, hstep, hq⟩ := reads_cons.1 h
    obtain ⟨-, -, rfl⟩ | ⟨-, rfl⟩ | ⟨-, -, _, _, _, -, -, -, hno, -⟩ := Progress.step_eq_ok.1 hstep
    · exact not_reads_early (p := { p with prologue := true }) hc hs hq
    · exact not_reads_early (p := { p with sentinel := true }) hc rfl hq
    · rw [hs] at hno
      cases hno

/-- Behind the final payload there are only sentinels. -/
theorem reads_closed : ∀ {frames : List Frame} {p : Progress} {out : List Nat},
    p.prologue = true → p.complete = true → (Reads C kind codec p frames out ↔
      p.output = out ∧ (∀ frame ∈ frames, IsSentinel frame) ∧ (p.sentinel = true ∨ frames ≠ []))
  | [], p, out, hp, hc => by
    rw [reads_nil, hp, hc]
    simp [and_comm]
  | frame :: frames, p, out, hp, hc => by
    have hih : Reads C kind codec { p with sentinel := true } frames out ↔ p.output = out ∧
        (∀ frame ∈ frames, IsSentinel frame) ∧ (true = true ∨ frames ≠ []) := reads_closed hp hc
    rw [reads_cons]
    constructor
    · rintro ⟨q, hstep, hq⟩
      obtain ⟨-, hno, -⟩ | ⟨hframe, rfl⟩ | ⟨-, -, _, _, _, -, -, hno, -⟩ :=
        Progress.step_eq_ok.1 hstep
      · rw [hp] at hno; cases hno
      · obtain ⟨hout, hall, -⟩ := hih.1 hq
        exact ⟨hout, List.forall_mem_cons.2 ⟨hframe, hall⟩, Or.inr (List.cons_ne_nil _ _)⟩
      · rw [hc] at hno; cases hno
    · rintro ⟨hout, hall, -⟩
      rw [List.forall_mem_cons] at hall
      exact ⟨_, Progress.step_eq_ok.2 (Or.inr (Or.inl ⟨hall.1, rfl⟩)),
        hih.2 ⟨hout, hall.2, Or.inl rfl⟩⟩

/-- Behind the prologue come the payloads and the sentinels. -/
theorem reads_open : ∀ {frames : List Frame} {p : Progress} {out : List Nat},
    p.prologue = true → p.complete = false → p.sentinel = false →
      (Reads C kind codec p frames out ↔
        ∃ payloads, Closing C kind codec frames payloads ∧ out = p.output ++ payloads.flatten)
  | [], p, out, _, hc, _ => by
    rw [reads_nil, hc]
    constructor
    · rintro ⟨-, h, -⟩; cases h
    · rintro ⟨_, ⟨body, sentinels, heq, -, hne, -⟩, -⟩
      exact absurd (List.append_eq_nil_iff.1 heq.symm).2 hne
  | frame :: frames, p, out, hp, hc, hs => by
    rw [reads_cons]
    constructor
    · rintro ⟨q, hstep, hq⟩
      obtain ⟨-, hno, -⟩ | ⟨-, rfl⟩ | ⟨hnull, hbody, wrapper, final, tokens, hread, -, -, -, rfl⟩ :=
        Progress.step_eq_ok.1 hstep
      · rw [hp] at hno; cases hno
      · exact absurd hq (not_reads_early (p := { p with sentinel := true }) hc rfl)
      · cases final with
        | true =>
          obtain ⟨hout, hall, hne⟩ := (reads_closed (by exact hp) rfl).1 hq
          have hne : frames ≠ [] := hne.resolve_left (by simp [hs])
          refine ⟨[tokens], ⟨[frame], frames, rfl, .last ⟨hnull, hbody, wrapper, hread⟩, hne, hall⟩, ?_⟩
          simpa using hout.symm
        | false =>
          obtain ⟨rest, ⟨body, sentinels, rfl, hbodies, hne, hall⟩, hout⟩ :=
            (reads_open (by exact hp) rfl (by exact hs)).1 hq
          refine ⟨tokens :: rest, ⟨frame :: body, sentinels, rfl,
            .more ⟨hnull, hbody, wrapper, hread⟩ hbodies, hne, hall⟩, ?_⟩
          simpa using hout
    · rintro ⟨payloads, ⟨body, sentinels, heq, hbodies, hne, hall⟩, rfl⟩
      cases hbodies with
      | last h =>
        obtain ⟨hnull, hbody, wrapper, hread⟩ := h
        obtain ⟨rfl, rfl⟩ := List.cons.inj heq
        refine ⟨_, Progress.step_eq_ok.2 (Or.inr (Or.inr ⟨hnull, hbody, wrapper, true, _, hread, hp,
          hc, hs, rfl⟩)), (reads_closed (by exact hp) rfl).2 ⟨by simp, hall, Or.inr hne⟩⟩
      | more h hrest =>
        obtain ⟨hnull, hbody, wrapper, hread⟩ := h
        obtain ⟨rfl, rfl⟩ := List.cons.inj heq
        refine ⟨_, Progress.step_eq_ok.2 (Or.inr (Or.inr ⟨hnull, hbody, wrapper, false, _, hread, hp,
          hc, hs, rfl⟩)), (reads_open (by exact hp) rfl (by exact hs)).2
            ⟨_, ⟨_, sentinels, rfl, hrest, hne, hall⟩, by simp⟩⟩

/-- The frames of a response are read from the start exactly if they are complete. -/
theorem reads_start {frames : List Frame} {out : List Nat} :
    Reads C kind codec .start frames out ↔
      ∃ payloads, Exchange C kind codec frames payloads ∧ out = payloads.flatten := by
  cases frames with
  | nil =>
    rw [reads_nil]
    constructor
    · rintro ⟨h, -⟩; cases h
    · rintro ⟨_, ⟨_, _, heq, -⟩, -⟩; cases heq
  | cons frame frames =>
    rw [reads_cons]
    constructor
    · rintro ⟨q, hstep, hq⟩
      obtain ⟨hframe, -, rfl⟩ | ⟨-, rfl⟩ | ⟨-, -, _, _, _, -, hno, -⟩ := Progress.step_eq_ok.1 hstep
      · obtain ⟨payloads, hclosing, hout⟩ := (reads_open rfl rfl rfl).1 hq
        exact ⟨payloads, ⟨frame, frames, rfl, hframe, hclosing⟩, hout⟩
      · exact absurd hq (not_reads_early rfl rfl)
      · cases hno
    · rintro ⟨payloads, ⟨prologue, rest, heq, hframe, hclosing⟩, rfl⟩
      obtain ⟨rfl, rfl⟩ := List.cons.inj heq
      exact ⟨_, Progress.step_eq_ok.2 (Or.inl ⟨hframe, rfl, rfl⟩),
        (reads_open rfl rfl rfl).2 ⟨payloads, hclosing, rfl⟩⟩

/-- **The response loop accepts complete responses and nothing else.** -/
theorem readResponse_iff {frames : List Frame} {out : List Nat} :
    (∃ state, readResponse C kind codec frames = .ok state ∧ state.output = out) ↔
      ∃ payloads, Exchange C kind codec frames payloads ∧ out = payloads.flatten := by
  rw [← reads_start]
  unfold readResponse Reads
  simp only [Except.bind_eq_ok_iff, Except.failIf_eq_ok, exists_const, pure, Except.pure,
    Except.ok.injEq, Bool.or_eq_true, Bool.not_eq_true', not_or, Bool.not_eq_false]
  constructor
  · rintro ⟨_, ⟨q, hfold, ⟨⟨hp, hc⟩, hs⟩, rfl⟩, hout⟩
    exact ⟨q, hfold, hp, hc, hs, hout⟩
  · rintro ⟨q, hfold, hp, hc, hs, hout⟩
    exact ⟨q, ⟨q, hfold, ⟨⟨hp, hc⟩, hs⟩, rfl⟩, hout⟩

/-! ## Shapes of streams -/

/-- The class of a stream and what it must look like. -/
inductive Shape (C : DecodeCodecs) (data : List UInt8) : Classified → Prop
  | requests {rows : List RequestRow} (hne : data ≠ [])
      (hrows : outerRequests C.toCodecs data = .ok rows) : Shape C data (.requests rows)
  | acknowledgements {count : Nat} (hdata : data = List.replicate (4 * count) 0) :
      Shape C data (.acknowledgements count)
  | response {handshake : Frame} {frames : List Frame} {subject : String}
      (hframes : twoParts C.toCodecs data = .ok (handshake :: frames))
      (hsubject : handshakeSubject handshake.header = some subject) (hbody : handshake.body = []) :
      Shape C data (.response subject frames)
  | controls {frames : List Frame} (hne : frames ≠ [])
      (hframes : twoParts C.toCodecs data = .ok frames)
      (hall : ∀ frame ∈ frames, isControlFrame frame = true) :
      Shape C data (.controls (frames.map (·.header)))

/-- Requests start with the length of an endpoint, which is not zero. -/
theorem outerRequests_front {data : List UInt8} {rows : List RequestRow} (hne : data ≠ [])
    (h : outerRequests C.toCodecs data = .ok rows) : 2 ≤ data.length ∧ data.take 2 ≠ [0, 0] := by
  obtain ⟨row, size, hread⟩ := Framing.rows_front hne h
  obtain ⟨n, m, k, _, _, _, hn, -, -, rfl, hlen, hpos, -⟩ := readRequest_eq_ok.1 hread
  refine ⟨by omega, fun hzero => ?_⟩
  rw [slice, List.drop_zero, hzero] at hn
  have : n = 0 := hn
  omega

/-- A frame that is within the size limit starts with two zero bytes, and one with a header
is not all zeros. -/
theorem twoParts_front {data : List UInt8} {frame : Frame} {frames : List Frame}
    (h : twoParts C.toCodecs data = .ok (frame :: frames)) :
    data.take 2 = [0, 0] ∧
      (frame.header ≠ .null → ∀ count, data ≠ List.replicate count 0) := by
  have hne : data ≠ [] := by
    rintro rfl
    cases h
  obtain ⟨row, n, rest, hread, -, heq⟩ := (Framing.rows_cons_eq_ok hne).1 h
  obtain ⟨rfl, -⟩ := List.cons.inj heq
  obtain ⟨head, body, checksum, raw, header, hhead, -, -, -, hn, hlen, hmax, -, hheader, rfl⟩ :=
    readFrame_eq_ok.1 hread
  constructor
  · have hsplit : slice data 0 8 = data.take 2 ++ slice data 2 6 := by
      rw [slice, slice, List.drop_zero, ← List.take_add]
    have hzero : BigEndian.decode (data.take 2) = 0 := by
      rw [hsplit, BigEndian.decode_append, Framing.length_slice (by omega)] at hhead
      have hbound : MAX_BYTES < 256 ^ 6 := by decide
      by_contra hpos
      have := Nat.le_mul_of_pos_left (256 ^ 6) (Nat.pos_of_ne_zero hpos)
      omega
    rw [BigEndian.decode_eq_zero hzero, List.length_take, Nat.min_eq_left (by omega)]
    rfl
  · rintro hnull count rfl
    have h0 : head = 0 := by
      rw [hhead, slice, List.drop_zero, List.take_replicate, BigEndian.decode_replicate]
    rw [readHeader, if_pos h0] at hheader
    cases hheader
    exact hnull rfl

theorem handshakeSubject_ne_null {header : Value} {subject : String}
    (h : handshakeSubject header = some subject) : header ≠ .null := by
  rintro rfl
  cases h

theorem isControlFrame_ne_null {frame : Frame} (h : isControlFrame frame = true) :
    frame.header ≠ .null := by
  intro hnull
  simp [isControlFrame, hnull] at h

/-- **A stream is classified exactly by its shape**, and so has one shape at most. -/
theorem classify_eq_ok {data : List UInt8} {c : Classified} :
    classify C data = .ok c ↔ Shape C data c := by
  constructor
  · intro h
    unfold classify at h
    split at h
    · rename_i hfront
      obtain ⟨rows, hrows, hc⟩ := Except.bind_eq_ok_iff.1 h
      cases hc
      exact .requests (by rintro rfl; simp at hfront) hrows
    · split at h
      · rename_i hdata
        cases h
        exact .acknowledgements hdata
      · rename_i hdata
        obtain ⟨frames, hframes, h⟩ := Except.bind_eq_ok_iff.1 h
        cases frames with
        | nil =>
          have : data = [] := by
            by_contra hne
            obtain ⟨_, _, _, -, -, heq⟩ := (Framing.rows_cons_eq_ok hne).1 hframes
            cases heq
          exact absurd this (by rintro rfl; exact hdata rfl)
        | cons frame frames =>
          simp only [List.head?_cons, Option.bind_some, Option.any_some, List.tail_cons] at h
          split at h
          · rename_i subject hsubject
            simp only [Except.bind_eq_ok_iff, Except.failIf_eq_ok, exists_const, pure, Except.pure,
              Except.ok.injEq, Bool.not_eq_true', Bool.not_eq_false, List.isEmpty_iff] at h
            obtain ⟨hbody, rfl⟩ := h
            exact .response hframes hsubject hbody
          · simp only [Except.bind_eq_ok_iff, Except.failIf_eq_ok, exists_const, pure, Except.pure,
              Except.ok.injEq, Bool.not_eq_true', Bool.not_eq_false, List.all_eq_true] at h
            obtain ⟨hall, rfl⟩ := h
            exact .controls (List.cons_ne_nil _ _) hframes hall
  · intro h
    unfold classify
    cases h with
    | requests hne hrows =>
      rw [if_pos (outerRequests_front hne hrows), hrows]
      rfl
    | @acknowledgements count hdata =>
      have hlen : data.length / 4 = count := by
        rw [hdata, List.length_replicate]
        omega
      rw [if_neg, hlen, if_pos hdata]
      rintro ⟨hlong, hfront⟩
      refine hfront ?_
      rw [hdata, List.length_replicate] at hlong
      rw [hdata, List.take_replicate, Nat.min_eq_left hlong]
      rfl
    | @response handshake frames subject hframes hsubject hbody =>
      obtain ⟨hzero, hnot⟩ := twoParts_front hframes
      rw [if_neg fun h => h.2 hzero, if_neg (hnot (handshakeSubject_ne_null hsubject) _), hframes]
      simp [hsubject, hbody, Except.failIf, bind, Except.bind, pure, Except.pure]
    | @controls frames hne hframes hall =>
      cases frames with
      | nil => exact absurd rfl hne
      | cons frame frames =>
        obtain ⟨hzero, hnot⟩ := twoParts_front hframes
        have hframe := hall frame List.mem_cons_self
        have hsubject : handshakeSubject frame.header = none := by
          unfold isControlFrame at hframe
          simp only [Bool.and_eq_true, Bool.or_eq_true, decide_eq_true_eq] at hframe
          obtain ⟨(h | h) | h, -⟩ := hframe <;> rw [h] <;> rfl
        rw [if_neg fun h => h.2 hzero, if_neg (hnot (isControlFrame_ne_null hframe) _), hframes]
        have hall' : (frame :: frames).all isControlFrame = true := List.all_eq_true.2 hall
        simp [hsubject, hall', Except.failIf, bind, Except.bind, pure, Except.pure]

end ReedCode.WireCapture
