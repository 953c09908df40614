import EtranProcessing.Library.FrameLog
import EtranProcessing.Library.LittleEndian

namespace EtranProcessing.Deployment.Journal

open Library.FrameLog Library.LittleEndian

abbrev Bytes := List UInt8

def headerSize : Nat := 24
def frameSize : Nat := 48
def journalLimit : Nat := 8 * 1024 * 1024
def endMarker : Nat := 0xc04d17ed
def maxRecord : Nat := 256 * 1024

inductive Win32Error where
  | invalidParameter
  | invalidName
  | invalidData
  | crc
  | diskFull
  | writeFault
  | ioPending
  | notFound
  | accessDenied
  | revisionMismatch
  | timeout
  | busy
  | invalidState
  | notSupported
  deriving DecidableEq

structure Digest where
  bytes : Bytes
  size : bytes.length = 32
  deriving DecidableEq

def dwordSub (a b : Nat) : Nat := (2 ^ 32 + a - b) % 2 ^ 32

structure Guid where
  bytes : Bytes
  size : bytes.length = 16
  deriving DecidableEq

def dword (n : Nat) : Nat := n % 2 ^ 32

def storeU32 (v : Nat) : Bytes := toBytes 4 v
def storeU64 (v : Nat) : Bytes := toBytes 8 v
def get32 (b : Bytes) : Nat := ofBytes (b.take 4)
def get64 (b : Bytes) : Nat := ofBytes (b.take 8)

def journalHeader (id : Guid) : Bytes := [0x4c, 0x34, 0x4a, 0x31] ++ storeU32 1 ++ id.bytes

def overwrite (file : Bytes) (offset : Nat) (bytes : Bytes) : Bytes :=
  file.take offset ++ bytes ++ file.drop (offset + bytes.length)

structure Record where
  kind : UInt32
  sequence : Nat
  bytes : Bytes
  deriving DecidableEq

def recordAt (frame : Bytes) : Record :=
  ⟨.ofNat (get32 frame), get64 (frame.drop 8), (frame.drop frameSize).take (get32 (frame.drop 4))⟩

def measured : Nat → Bytes → List Record
  | _, [] => []
  | 0, _ :: _ => []
  | n + 1, b :: bs =>
    recordAt (b :: bs) :: measured n ((b :: bs).drop (dword (frameSize + get32 ((b :: bs).drop 4) + 4)))

structure Cursor where
  sequence : Nat
  digest : Digest

structure Handle where
  header : Bytes
  sequence : Nat
  endOffset : Nat
  digest : Digest
  poisoned : Bool

section Hash

variable (sha256 : Bytes → Digest)

def storeHash (bytes extra : Bytes) : Digest := sha256 (bytes ++ extra)

/-- One round of the loop of scan, on the bytes from its end on. -/
def scanFrame (c : Cursor) (frame : Bytes) : Piece Cursor Win32Error Record :=
  let remaining := frame.length
  if remaining < frameSize then .short
  else
    let kind := get32 frame
    let length := get32 (frame.drop 4)
    let number := get64 (frame.drop 8)
    if kind = 0 ∨ maxRecord < length ∨ number ≠ (c.sequence + 1) % 2 ^ 64 then .invalid .invalidData
    else if remaining < dword (frameSize + length + 4) then .short
    else
      let bytes := (frame.drop frameSize).take length
      let actual := storeHash sha256 (frame.take 16 ++ c.digest.bytes) bytes
      if get32 (frame.drop (frameSize + length)) = endMarker ∧ actual.bytes = (frame.drop 16).take 32 then
        .item ⟨.ofNat kind, number, bytes⟩ ⟨number, actual⟩ (frameSize + length + 4)
      else .invalid .crc

def initial (header : Bytes) : Cursor := ⟨0, storeHash sha256 header []⟩

def scan (header file : Bytes) : Except Win32Error (Walk Cursor Win32Error Record) :=
  if file.length < headerSize ∨ journalLimit < file.length then .error .invalidData
  else if file.take headerSize ≠ header then .error .invalidData
  else (walk (scanFrame sha256) file.length (initial sha256 header) (file.drop headerSize)).result

/-- A file that the crash left empty gets its header; a torn tail is cut off and the
handle continues where the last whole frame ends. -/
def journalOpen (header : Bytes) (create : Bool) (file : Bytes) : Except Win32Error (Handle × Bytes) :=
  let file := if file = [] ∧ create = true then header else file
  if file.length < headerSize ∨ file.take headerSize ≠ header then .error .invalidData
  else
    match scan sha256 header file with
    | .error e => .error e
    | .ok w =>
      let endOffset := headerSize + w.used
      .ok (⟨header, w.state.sequence, endOffset, w.state.digest, false⟩, file.take endOffset)

def frameHead (kind : UInt32) (size sequence : Nat) : Bytes :=
  storeU32 kind.toNat ++ storeU32 size ++ storeU64 sequence

def frameDigest (c : Cursor) (kind : UInt32) (bytes : Bytes) : Digest :=
  storeHash sha256 (frameHead kind bytes.length (c.sequence + 1) ++ c.digest.bytes) bytes

def frameBytes (c : Cursor) (kind : UInt32) (bytes : Bytes) : Bytes :=
  frameHead kind bytes.length (c.sequence + 1) ++ (frameDigest sha256 c kind bytes).bytes ++ bytes ++
    storeU32 endMarker

/-- A fault is the number of bytes of the frame that reach the file before a write or
the flush fails. -/
def journalAppend (j : Handle) (file : Bytes) (kind : UInt32) (bytes : Bytes) (fault : Option Nat) :
    Except Win32Error Nat × Handle × Bytes :=
  if j.poisoned = true ∨ kind = 0 ∨ maxRecord < bytes.length then (.error .invalidParameter, j, file)
  else if journalLimit < j.endOffset + frameSize + bytes.length + 4 then (.error .diskFull, j, file)
  else
    let frame := frameBytes sha256 ⟨j.sequence, j.digest⟩ kind bytes
    match fault with
    | some n => (.error .writeFault, { j with poisoned := true }, overwrite file j.endOffset (frame.take n))
    | none =>
      let sequence := (j.sequence + 1) % 2 ^ 64
      let digest := frameDigest sha256 ⟨j.sequence, j.digest⟩ kind bytes
      let endOffset := j.endOffset + frameSize + bytes.length + 4
      (.ok sequence, { j with sequence := sequence, endOffset := endOffset, digest := digest },
        overwrite file j.endOffset frame)

/-- Every record is checked before the visitor sees the first; the visitor may stop. -/
def journalReplay {τ : Type} (j : Handle) (file : Bytes) (visit : τ → Record → Except Win32Error τ) (context : τ) :
    Except Win32Error τ :=
  if j.poisoned = true then .error .invalidParameter
  else
    match scan sha256 j.header file with
    | .error e => .error e
    | .ok w => (measured file.length ((file.drop headerSize).take w.used)).foldlM visit context

end Hash

end EtranProcessing.Deployment.Journal
