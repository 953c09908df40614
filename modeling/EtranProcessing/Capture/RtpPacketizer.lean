import EtranProcessing.Library.Buffers
import EtranProcessing.Library.Calls
import EtranProcessing.Library.Rtp

namespace EtranProcessing.Capture.RtpPacketizer

open Library.Buffers Library.Calls Library.Rtp

def maxPayloadSize : Nat := 1200
def maxFuPayloadSize : Nat := 1198
def headerSize : Nat := 12

/-- A descriptor with a pointer, which may be NULL, to as many bytes as it says. -/
structure NalDesc where
  data : Option (List UInt8)
  length : Nat
  fits : length < 2 ^ 32
  backed : ∀ bytes, data = some bytes → bytes.length = length

structure AccessUnit where
  nals : List NalDesc
  ptsMs : Nat

structure Packet where
  bytes : List UInt8
  length : Nat
  marker : Bool
  deriving DecidableEq, Repr

/-- The arguments that all packets of an access unit share. -/
structure Params where
  timestamp : UInt32
  ssrc : UInt32
  payloadType : UInt8
  deriving DecidableEq, Repr

/-- The locals of the packetizer; a write past the end of the buffer is recorded and goes no further. -/
structure Machine where
  pktBuf : List UInt8
  stapBytes : Nat
  seq : UInt16
  handed : List Packet
  overrun : Bool
  deriving DecidableEq, Repr

def store (offset : Nat) (bytes : List UInt8) : Call Machine Unit := fun m =>
  if offset + bytes.length ≤ m.pktBuf.length then (some (), { m with pktBuf := overwrite m.pktBuf offset bytes })
  else (none, { m with overrun := true })

def writeRtpHeader (p : Params) (marker : Bool) (seq : UInt16) : List UInt8 :=
  [0x80, (if marker then 0x80 else 0x00) ||| (p.payloadType &&& 0x7F),
    (seq >>> 8).toUInt8, seq.toUInt8,
    (p.timestamp >>> 24).toUInt8, (p.timestamp >>> 16).toUInt8, (p.timestamp >>> 8).toUInt8, p.timestamp.toUInt8,
    (p.ssrc >>> 24).toUInt8, (p.ssrc >>> 16).toUInt8, (p.ssrc >>> 8).toUInt8, p.ssrc.toUInt8]

section Packetize

-- the answer to a packet may depend on all packets handed over so far
variable (callback : List Packet → Bool) (p : Params)

def hand (length : Nat) (marker : Bool) : Call Machine Unit := do
  change fun m => { m with handed := m.handed ++ [⟨slice m.pktBuf 0 length, length, marker⟩] }
  let m ← current
  check (callback m.handed = true)

def flushStap (marker : Bool) : Call Machine Unit := do
  let m ← current
  -- the units move up by one byte to make room for the STAP-A header
  store (headerSize + 1) (slice m.pktBuf headerSize m.stapBytes)
  store headerSize [0x78]
  store 0 (writeRtpHeader p marker m.seq)
  hand callback (headerSize + 1 + m.stapBytes) marker
  change fun m => { m with seq := m.seq + 1, stapBytes := 0 }

def flushPending : Call Machine Unit := do
  let m ← current
  if 0 < m.stapBytes then flushStap callback p false else pure ()

def accumulate (length : Nat) (data : List UInt8) : Call Machine Unit := do
  let m ← current
  store (headerSize + m.stapBytes) [UInt8.ofNat (length / 256)]
  store (headerSize + m.stapBytes + 1) [UInt8.ofNat length]
  store (headerSize + m.stapBytes + 2) data
  change fun m => { m with stapBytes := m.stapBytes + (2 + length) }

def singleNal (length : Nat) (data : List UInt8) : Call Machine Unit := do
  let m ← current
  store 0 (writeRtpHeader p true m.seq)
  store headerSize data
  change fun m => { m with seq := m.seq + 1 }
  hand callback (headerSize + length) true

def sendFragment (lastNal : Bool) (hdr : UInt8) (isFirstFrag isLastFrag : Bool) (fragSize : Nat) (data : List UInt8) :
    Call Machine Unit := do
  let m ← current
  store 0 (writeRtpHeader p (isLastFrag && lastNal) m.seq)
  store headerSize [(hdr &&& 0xE0) ||| 28]
  store (headerSize + 1) [(hdr &&& 0x1F) ||| (if isFirstFrag then 0x80 else 0) ||| (if isLastFrag then 0x40 else 0)]
  store (headerSize + 2) data
  change fun m => { m with seq := m.seq + 1 }
  hand callback (headerSize + 2 + fragSize) (isLastFrag && lastNal)

def fragmentLoop (lastNal : Bool) (hdr : UInt8) (payload : List UInt8) (payloadLen fragCount : Nat) :
    Nat → Nat → Nat → Call Machine Unit
  | 0, _, _ => pure ()
  | remaining + 1, i, offset => do
      let fragSize := min (payloadLen - offset) maxFuPayloadSize
      sendFragment callback p lastNal hdr (i == 0) (i == fragCount - 1) fragSize (slice payload offset fragSize)
      fragmentLoop lastNal hdr payload payloadLen fragCount remaining (i + 1) (offset + fragSize)

def fragCount (length : Nat) : Nat := (length - 1 + maxFuPayloadSize - 1) % 2 ^ 32 / maxFuPayloadSize

def packetizeUnit (length : Nat) (data : List UInt8) (lastNal : Bool) : Call Machine Unit := do
  if length ≤ maxPayloadSize then
    let m ← current
    if m.stapBytes + (2 + length) ≤ maxPayloadSize then
      accumulate length data
      if lastNal then flushStap callback p true else pure ()
    else
      flushPending callback p
      if lastNal then singleNal callback p length data else accumulate length data
  else
    flushPending callback p
    fragmentLoop callback p lastNal (data.headD 0) (data.drop 1) (length - 1) (fragCount length) (fragCount length) 0 0

def packetizeNal (nal : NalDesc) (lastNal : Bool) : Call Machine Unit :=
  match nal.data with
  | none => pure ()
  | some data => if nal.length = 0 then pure () else packetizeUnit callback p nal.length data lastNal

def packetizeLoop : List NalDesc → Call Machine Unit
  | [] => pure ()
  | nal :: rest => do
      packetizeNal callback p nal rest.isEmpty
      packetizeLoop rest

def packetize (au : AccessUnit) : Call Machine Unit := do
  packetizeLoop callback p au.nals
  let m ← current
  if 0 < m.stapBytes then flushStap callback p true else pure ()

def Machine.start (garbage : Vector UInt8 1212) (seqNumBase : UInt16) : Machine :=
  ⟨garbage.toList, 0, seqNumBase, [], false⟩

def packetizeAu (garbage : Vector UInt8 1212) (seqNumBase : UInt16) (au : AccessUnit) : Option Unit × Machine :=
  packetize callback p au (Machine.start garbage seqNumBase)

end Packetize

/-- The state of the counting loop: the packets so far, in 32 bits, and the bytes waiting in an aggregate. -/
def countNal (nal : NalDesc) (last : Bool) (count stapBytes : Nat) : Nat × Nat :=
  if nal.length = 0 then (count, stapBytes)
  else if nal.length ≤ maxPayloadSize then
    if stapBytes + (2 + nal.length) ≤ maxPayloadSize then
      if last then ((count + 1) % 2 ^ 32, 0) else (count, stapBytes + (2 + nal.length))
    else
      let count := if 0 < stapBytes then (count + 1) % 2 ^ 32 else count
      if last then ((count + 1) % 2 ^ 32, 0) else (count, 2 + nal.length)
  else
    let count := if 0 < stapBytes then (count + 1) % 2 ^ 32 else count
    ((count + fragCount nal.length) % 2 ^ 32, 0)

def countLoop : List NalDesc → Nat → Nat → Nat × Nat
  | [], count, stapBytes => (count, stapBytes)
  | nal :: rest, count, stapBytes =>
      let (count, stapBytes) := countNal nal rest.isEmpty count stapBytes
      countLoop rest count stapBytes

def countPackets (au : AccessUnit) : Nat :=
  let (count, stapBytes) := countLoop au.nals 0 0
  if 0 < stapBytes then (count + 1) % 2 ^ 32 else count

end EtranProcessing.Capture.RtpPacketizer
