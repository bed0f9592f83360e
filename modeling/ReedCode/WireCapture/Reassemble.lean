import ReedCode.Lib.FinMap
import ReedCode.Lib.Runs
import ReedCode.Lib.Slices
import Mathlib.Data.List.Lex
import Mathlib.Data.List.Sort
import Mathlib.Data.Prod.Lex

/-!
# TCP reassembly

`reassemble` of `decode.py`: packets are collected by direction, the payloads of each
direction are sorted by their offset from the SYN and merged into one stream.  Sequence
numbers are `UInt32` and wrap; a `ValueError` is an `Except.error` with its text.
-/

set_option autoImplicit false

namespace ReedCode.WireCapture

def MAX_BYTES : Nat := 128 * 1024 * 1024

/-- The key of a direction: source, source port, target, target port. -/
structure FourTuple where
  source : String
  sourcePort : Nat
  target : String
  targetPort : Nat
  deriving DecidableEq

structure Packet where
  key : FourTuple
  sequence : UInt32
  flags : UInt8
  payload : List UInt8
  timestampNs : Nat
  deriving DecidableEq

namespace Packet

def syn (p : Packet) : Bool := p.flags &&& 2 != 0

def fin (p : Packet) : Bool := p.flags &&& 1 != 0

def reset (p : Packet) : Bool := p.flags &&& 4 != 0

/-- The sequence number of the first payload byte; a SYN takes one number itself. -/
def dataSequence (p : Packet) : UInt32 := p.sequence + if p.syn then 1 else 0

/-- The sequence number of a FIN, behind the payload. -/
def finSequence (p : Packet) : UInt32 := p.dataSequence + UInt32.ofNat p.payload.length

end Packet

structure Segment where
  sequence : UInt32
  data : List UInt8
  stamp : Nat
  deriving DecidableEq

/-- What is known of a direction. -/
structure Direction where
  syn : Option UInt32
  segments : List Segment
  fin : Option UInt32
  reset : Bool
  deriving DecidableEq

def Direction.empty : Direction := ⟨none, [], none, false⟩

/-- One packet of the direction. -/
def Direction.add (state : Direction) (packet : Packet) : Except String Direction := do
  Except.failIf (packet.syn && state.syn.any (· ≠ packet.sequence))
    "TCP four-tuple was reused; split the capture into connection epochs"
  Except.failIf (packet.fin && state.fin.any (· ≠ packet.finSequence))
    "Conflicting TCP FIN sequence numbers"
  return {
    syn := if packet.syn then some packet.sequence else state.syn
    segments := if packet.payload.isEmpty then state.segments
      else state.segments ++ [⟨packet.dataSequence, packet.payload, packet.timestampNs⟩]
    fin := if packet.fin then some packet.finSequence else state.fin
    reset := state.reset || packet.reset }

/-- The first loop: one state for each direction, in order of appearance. -/
def collect : FinMap FourTuple Direction → List Packet → Except String (FinMap FourTuple Direction)
  | directions, [] => .ok directions
  | directions, packet :: packets => do
    let state ← ((directions.get? packet.key).getD .empty).add packet
    collect (directions.insert packet.key state) packets

/-! ## One direction -/

/-- A segment at its offset from the first byte of the stream. -/
structure Placed where
  offset : Nat
  data : List UInt8
  stamp : Nat
  deriving DecidableEq

def Segment.place (base : UInt32) (s : Segment) : Placed :=
  ⟨(s.sequence - base).toNat, s.data, s.stamp⟩

/-- Placed segments are tuples and compare like tuples. -/
def Placed.sortKey (s : Placed) : Nat ×ₗ List Nat ×ₗ Nat :=
  toLex (s.offset, toLex (s.data.map UInt8.toNat, s.stamp))

def sortPlaced (segments : List Placed) : List Placed :=
  segments.insertionSort fun a b => a.sortKey ≤ b.sortKey

/-- One turn of the merging loop, on the result and the count of duplicate bytes. -/
def mergeSegment (acc : List UInt8 × Nat) (segment : Placed) : Except String (List UInt8 × Nat) := do
  Except.failIf (segment.offset > acc.1.length) "TCP byte gap or unsupported sequence epoch"
  Except.failIf (¬ Slices.Agrees acc.1 segment.offset segment.data)
    "Conflicting retransmitted TCP bytes"
  let result := Slices.extend acc.1 segment.offset segment.data
  Except.failIf (result.length > MAX_BYTES) "Stream exceeds the bounded study capture limit"
  return (result, acc.2 + Slices.overlap acc.1 segment.offset segment.data)

structure Stream where
  direction : FourTuple
  data : List UInt8
  duplicateBytes : Nat
  firstTimestampNs : Nat
  finSeen : Bool
  resetSeen : Bool
  deriving DecidableEq

/-- The body of the second loop; a direction without payload yields no stream. -/
def Direction.assemble (key : FourTuple) (state : Direction) : Except String (Option Stream) :=
  if state.segments.isEmpty then .ok none
  else
    match state.syn with
    | none => .error "Data stream has no captured SYN; its beginning is unknown"
    | some syn => do
      let base := syn + 1
      let segments := sortPlaced (state.segments.map (·.place base))
      let merged ← segments.foldlM mergeSegment ([], 0)
      Except.failIf (state.fin.any fun fin => (fin - base).toNat ≠ merged.1.length)
        "Missing TCP bytes before FIN"
      return some
        { direction := key
          data := merged.1
          duplicateBytes := merged.2
          firstTimestampNs := ((segments.map (·.stamp)).min?).getD 0
          finSeen := state.fin.isSome
          resetSeen := state.reset }

def streamsOf : List (FourTuple × Direction) → Except String (List Stream)
  | [] => .ok []
  | (key, state) :: rest => do
    let stream ← state.assemble key
    let streams ← streamsOf rest
    return stream.toList ++ streams

def reassemble (packets : List Packet) : Except String (List Stream) := do
  let directions ← collect .empty packets
  streamsOf directions.entries

end ReedCode.WireCapture
