import EtranProcessing.Capture.SafetyGate
import EtranProcessing.Library.LittleEndian
import EtranProcessing.Library.RawMemory

namespace EtranProcessing.Capture.IpcProtocol

open Library.LittleEndian Library.Buffers Library.RawMemory Limits

abbrev Bytes := List UInt8
abbrev Id := SafetyGate.Id

def ipcVersion : UInt16 := 1
def ipcHeaderSize : Nat := 16
def ipcMaxPayload : Nat := 4096
def ipcMaxFrame : Nat := ipcHeaderSize + ipcMaxPayload
def errorTextMax : Nat := ipcMaxPayload - 6

def cmdStart : UInt16 := 0x0001
def cmdRenewLease : UInt16 := 0x0002
def cmdStop : UInt16 := 0x0003
def cmdForceIdr : UInt16 := 0x0004
def eventReady : UInt16 := 0x0101
def eventMetrics : UInt16 := 0x0102
def eventDegraded : UInt16 := 0x0103
def eventError : UInt16 := 0x0104

structure Rect where
  left : Int32
  top : Int32
  right : Int32
  bottom : Int32
  deriving DecidableEq

structure Start where
  leaseId : Id
  streamId : Id
  sourceRect : Rect
  geometryGen : UInt64
  profileId : UInt16
  rtpPort : UInt16
  rtcpPort : UInt16
  deadlineTickMs : UInt64
  deriving DecidableEq

structure Ready where
  streamId : Id
  actualWidth : UInt32
  actualHeight : UInt32
  actualFps : UInt16
  captureBackend : UInt16
  encoderBackend : UInt16
  deriving DecidableEq

structure Metrics where
  fps : UInt16
  bitrateKbps : UInt32
  rawDrops : UInt32
  encoderDrops : UInt32
  transportDrops : UInt32
  encodeP95Ms : UInt16
  queueDepth : UInt16
  privateBytesKb : UInt32
  gdiHandles : UInt32
  deriving DecidableEq

inductive Body where
  | start (start : Start)
  | renewLease (leaseId : Id) (newDeadlineTickMs : UInt64)
  | stop (streamId : Id)
  | forceIdr (streamId : Id)
  | ready (ready : Ready)
  | metrics (metrics : Metrics)
  | degraded (degradeState reason : UInt16)
  | error (errorCode : UInt32) (messageLen : UInt16) (messageUtf8 : Vector UInt8 errorTextMax)
  | unknown (type : UInt16)
  deriving DecidableEq

def Body.type : Body → UInt16
  | .start _ => cmdStart
  | .renewLease _ _ => cmdRenewLease
  | .stop _ => cmdStop
  | .forceIdr _ => cmdForceIdr
  | .ready _ => eventReady
  | .metrics _ => eventMetrics
  | .degraded _ _ => eventDegraded
  | .error _ _ _ => eventError
  | .unknown type => type

structure Message where
  requestSeq : UInt64
  body : Body
  deriving DecidableEq

def store16 (v : UInt16) : Bytes := toBytes 2 v.toNat
def store32 (v : UInt32) : Bytes := toBytes 4 v.toNat
def store64 (v : UInt64) : Bytes := toBytes 8 v.toNat

def readU16 (b : Bytes) (offset : Nat) : UInt16 := UInt16.ofNat (ofBytes (slice b offset 2))
def readU32 (b : Bytes) (offset : Nat) : UInt32 := UInt32.ofNat (ofBytes (slice b offset 4))
def readU64 (b : Bytes) (offset : Nat) : UInt64 := UInt64.ofNat (ofBytes (slice b offset 8))

def copied (n : Nat) (b : Bytes) : Vector UInt8 n := Vector.ofFn fun i => b.getD i 0

def validLength (type : UInt16) (length : Nat) : Bool :=
  if type = cmdStart then length == 70
  else if type = cmdRenewLease then length == 24
  else if type = cmdStop ∨ type = cmdForceIdr then length == 16
  else if type = eventReady then length == 30
  else if type = eventMetrics then length == 30
  else if type = eventDegraded then length == 4
  else if type = eventError then 6 ≤ length && length ≤ ipcMaxPayload
  else false

def continued : Nat → Nat → Bytes → Option (Nat × Bytes)
  | 0, c, rest => some (c, rest)
  | _ + 1, _, [] => none
  | extra + 1, c, b :: rest =>
      if b.toNat / 64 ≠ 2 then none else continued extra (c * 64 + b.toNat % 64) rest

/-- The number of continuation bytes, the least character that needs them and the first bits of the character. -/
def leading (b : UInt8) : Option (Nat × Nat × Nat) :=
  let c := b.toNat
  if 0xc2 ≤ c ∧ c ≤ 0xdf then some (1, 0x80, c % 32)
  else if 0xe0 ≤ c ∧ c ≤ 0xef then some (2, 0x800, c % 16)
  else if 0xf0 ≤ c ∧ c ≤ 0xf4 then some (3, 0x10000, c % 8)
  else none

def validCharacters : Nat → Bytes → Bool
  | _, [] => true
  | 0, _ :: _ => false
  | fuel + 1, b :: rest =>
      if b.toNat < 0x80 then
        if b = 0 then false else validCharacters fuel rest
      else
        match leading b with
        | none => false
        | some (extra, minimum, c) =>
            match continued extra c rest with
            | none => false
            | some (c, rest) =>
                if c < minimum ∨ 0x10ffff < c ∨ 0xd800 ≤ c ∧ c ≤ 0xdfff then false else validCharacters fuel rest

def validUtf8 (text : Bytes) : Bool := validCharacters text.length text

def signedU32 (value : UInt32) : Int32 :=
  if value.toNat ≤ 2 ^ 31 - 1 then Int32.ofNat value.toNat else Int32.ofInt (value.toNat - 2 ^ 32)

def errorText (messageLen : UInt16) (messageUtf8 : Vector UInt8 errorTextMax) : Bytes :=
  messageUtf8.toList.take messageLen.toNat

/-- The length that the first `switch` gives a message, if it does not refuse it. -/
def payloadLength : Body → Option Nat
  | .start _ => some 70
  | .renewLease _ _ => some 24
  | .stop _ | .forceIdr _ => some 16
  | .ready _ | .metrics _ => some 30
  | .degraded _ _ => some 4
  | .error _ messageLen messageUtf8 =>
      if errorTextMax < messageLen.toNat ∨ validUtf8 (errorText messageLen messageUtf8) = false then none
      else some (6 + messageLen.toNat)
  | .unknown _ => none

/-- The fields of a payload in the order of their offsets. -/
def fields : Body → List Bytes
  | .start s =>
      [s.leaseId.toList, s.streamId.toList, store32 s.sourceRect.left.toUInt32, store32 s.sourceRect.top.toUInt32,
        store32 s.sourceRect.right.toUInt32, store32 s.sourceRect.bottom.toUInt32, store64 s.geometryGen,
        store16 s.profileId, store16 s.rtpPort, store16 s.rtcpPort, store64 s.deadlineTickMs]
  | .renewLease leaseId newDeadlineTickMs => [leaseId.toList, store64 newDeadlineTickMs]
  | .stop streamId | .forceIdr streamId => [streamId.toList]
  | .ready r =>
      [r.streamId.toList, store32 r.actualWidth, store32 r.actualHeight, store16 r.actualFps, store16 r.captureBackend,
        store16 r.encoderBackend]
  | .metrics m =>
      [store16 m.fps, store32 m.bitrateKbps, store32 m.rawDrops, store32 m.encoderDrops, store32 m.transportDrops,
        store16 m.encodeP95Ms, store16 m.queueDepth, store32 m.privateBytesKb, store32 m.gdiHandles]
  | .degraded degradeState reason => [store16 degradeState, store16 reason]
  | .error errorCode messageLen messageUtf8 =>
      [store32 errorCode, store16 messageLen, errorText messageLen messageUtf8]
  | .unknown _ => []

def header (type : UInt16) (length : Nat) (requestSeq : UInt64) : Bytes :=
  store16 ipcVersion ++ store16 type ++ toBytes 4 length ++ store64 requestSeq

def ipcEncode (m : Message) (capacity : Nat) : Except Status Bytes :=
  match payloadLength m.body with
  | none => .error .protocol
  | some length =>
      if capacity < ipcHeaderSize + length then .error .overflow
      else .ok (header m.body.type length m.requestSeq ++ (fields m.body).flatten)

def decodeBody (type : UInt16) (payload : Nat) (p : Bytes) : Except Status Body :=
  if type = cmdStart then
    .ok (.start {
      leaseId := copied 16 (slice p 0 16)
      streamId := copied 16 (slice p 16 16)
      sourceRect := ⟨signedU32 (readU32 p 32), signedU32 (readU32 p 36), signedU32 (readU32 p 40), signedU32 (readU32 p 44)⟩
      geometryGen := readU64 p 48
      profileId := readU16 p 56
      rtpPort := readU16 p 58
      rtcpPort := readU16 p 60
      deadlineTickMs := readU64 p 62 })
  else if type = cmdRenewLease then .ok (.renewLease (copied 16 (slice p 0 16)) (readU64 p 16))
  else if type = cmdStop then .ok (.stop (copied 16 (slice p 0 16)))
  else if type = cmdForceIdr then .ok (.forceIdr (copied 16 (slice p 0 16)))
  else if type = eventReady then
    .ok (.ready ⟨copied 16 (slice p 0 16), readU32 p 16, readU32 p 20, readU16 p 24, readU16 p 26, readU16 p 28⟩)
  else if type = eventMetrics then
    .ok (.metrics ⟨readU16 p 0, readU32 p 2, readU32 p 6, readU32 p 10, readU32 p 14, readU16 p 18, readU16 p 20, readU32 p 22,
      readU32 p 26⟩)
  else if type = eventDegraded then .ok (.degraded (readU16 p 0) (readU16 p 2))
  else if type = eventError then
    let messageLen := readU16 p 4
    if messageLen.toNat ≠ payload - 6 ∨ validUtf8 (slice p 6 (payload - 6)) = false then .error .protocol
    else .ok (.error (readU32 p 0) messageLen (copied errorTextMax (slice p 6 (payload - 6))))
  else .error .protocol

def ipcDecode (bytes : Bytes) : Except Status Message :=
  if bytes.length < ipcHeaderSize ∨ readU16 bytes 0 ≠ ipcVersion then .error .protocol
  else
    let type := readU16 bytes 2
    let payload := (readU32 bytes 4).toNat
    if validLength type payload = false ∨ bytes.length ≠ ipcHeaderSize + payload then .error .protocol
    else (decodeBody type payload (bytes.drop ipcHeaderSize)).map fun body => ⟨readU64 bytes 8, body⟩

structure Parser where
  bytes : Bytes
  used : Nat
  expected : Nat
  failed : Bool
  deriving DecidableEq

def parserInit : Parser := ⟨List.replicate ipcMaxFrame 0, 0, ipcHeaderSize, false⟩

/-- What a call gives back: its status, the parser, how much it took in and the message, if one is ready. -/
structure Fed where
  status : Status
  parser : Parser
  consumed : Nat
  message : Option Message
  deriving DecidableEq

def writeAt (buf : Bytes) (offset : Nat) (data : Bytes) : Checked Bytes :=
  if offset + data.length ≤ buf.length then .done (overwrite buf offset data) else .fault

def Parser.headerRefused (parser : Parser) : Bool :=
  readU16 parser.bytes 0 ≠ ipcVersion || !validLength (readU16 parser.bytes 2) (readU32 parser.bytes 4).toNat

/-- What follows a copy: the check of a header, and the decoding of a whole frame. -/
def afterCopy (parser : Parser) (consumed : Nat) : Fed ⊕ Parser :=
  if parser.used = ipcHeaderSize ∧ parser.expected = ipcHeaderSize ∧ parser.headerRefused = true then
    .inl ⟨.protocol, { parser with failed := true }, consumed, none⟩
  else
    let parser :=
      if parser.used = ipcHeaderSize ∧ parser.expected = ipcHeaderSize then
        { parser with expected := parser.expected + (readU32 parser.bytes 4).toNat }
      else parser
    if parser.used = parser.expected then
      match ipcDecode (slice parser.bytes 0 parser.used) with
      | .error status => .inl ⟨status, { parser with failed := true }, consumed, none⟩
      | .ok m => .inl ⟨.ok, { parser with used := 0, expected := ipcHeaderSize }, consumed, some m⟩
    else .inr parser

def feedLoop (chunk : Bytes) : Nat → Parser → Nat → Checked Fed
  | 0, _, _ => .fault
  | fuel + 1, parser, consumed =>
      if consumed < chunk.length then do
        let room ← minus parser.expected parser.used
        let take := min room (chunk.length - consumed)
        let bytes ← writeAt parser.bytes parser.used (slice chunk consumed take)
        match afterCopy { parser with bytes := bytes, used := parser.used + take } (consumed + take) with
        | .inl fed => pure fed
        | .inr parser => feedLoop chunk fuel parser (consumed + take)
      else pure ⟨.ok, parser, consumed, none⟩

def ipcFeed (parser : Parser) (chunk : Bytes) : Checked Fed :=
  if parser.failed then .done ⟨.protocol, parser, 0, none⟩
  else feedLoop chunk (chunk.length + 1) parser 0

end EtranProcessing.Capture.IpcProtocol
