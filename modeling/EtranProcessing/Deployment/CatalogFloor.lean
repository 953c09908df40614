import EtranProcessing.Deployment.Journal

namespace EtranProcessing.Deployment.CatalogFloor

open Journal

def floorHeaderSize : Nat := 72
def floorFrameSize : Nat := 80
def floorLimit : Nat := 8 * 1024 * 1024
def maxTime : Nat := 253402300799

structure KeyId where
  bytes : Bytes
  size : bytes.length = 64
  deriving DecidableEq

/-- What the floor sees of a catalogue whose signature has been verified and whose numbers
have been parsed. -/
structure Catalog where
  keyId : KeyId
  digest : Digest
  revision : Nat
  issued : Nat
  expires : Nat
  revisionPos : 0 < revision
  revisionSmall : revision < 2 ^ 64
  expiresSmall : expires ≤ maxTime
  deriving DecidableEq

structure FloorState where
  previousHash : Digest
  lastDigest : Bytes
  revision : Nat
  time : Nat

def floorHeader (keyId : KeyId) : Bytes := [0x4c, 0x34, 0x43, 0x41, 0x54, 0x30, 0x31, 0] ++ keyId.bytes

section Hash

variable (sha256 : Bytes → Digest)

/-- One round of the loop of read_floor. -/
def readFrame (s : FloorState) (frame : Bytes) : Option FloorState :=
  let digest := storeHash sha256 (frame.take 48) s.previousHash.bytes
  if digest.bytes ≠ frame.drop 48 then none
  else
    let nextRevision := get64 frame
    let nextTime := get64 (frame.drop 8)
    if 0 < nextRevision ∧ s.revision ≤ nextRevision ∧ s.time ≤ nextTime ∧
        (nextRevision ≠ s.revision ∨ (frame.drop 16).take 32 = s.lastDigest) then
      some ⟨digest, (frame.drop 16).take 32, nextRevision, nextTime⟩
    else none

def readFrames : Nat → FloorState → Bytes → Option FloorState
  | 0, s, _ => some s
  | n + 1, s, rest => (readFrame sha256 s (rest.take floorFrameSize)).bind fun s =>
      readFrames n s (rest.drop floorFrameSize)

def floorStart (keyId : KeyId) : FloorState :=
  ⟨storeHash sha256 (floorHeader keyId) [], List.replicate 32 0, 0, 0⟩

def readFloor (file : Bytes) (keyId : KeyId) : Option FloorState :=
  if floorHeaderSize ≤ file.length ∧ file.length ≤ floorLimit ∧
      (file.length - floorHeaderSize) % floorFrameSize = 0 ∧ file.take floorHeaderSize = floorHeader keyId then
    readFrames sha256 ((file.length - floorHeaderSize) / floorFrameSize) (floorStart sha256 keyId)
      (file.drop floorHeaderSize)
  else none

def frameFront (c : Catalog) (now : Nat) : Bytes := storeU64 c.revision ++ storeU64 now ++ c.digest.bytes

def floorFrame (s : FloorState) (c : Catalog) (now : Nat) : Bytes :=
  frameFront c now ++ (storeHash sha256 (frameFront c now) s.previousHash.bytes).bytes

/-- Where a call stops short: before the file is open, after that and before its first
write, in the write of the header or of the frame, of which so many bytes arrive, or in
a read. A crash stops a call in the same places. -/
inductive Fault where
  | opening
  | checking
  | header (n : Nat)
  | reading
  | frame (n : Nat)
  deriving DecidableEq

structure Floor where
  file : Option Bytes
  poisoned : Bool
  deriving DecidableEq

def acceptOpened (s : Floor) (file : Bytes) (c : Catalog) (now : Nat) (fault : Option Fault) : Bool × Floor :=
  if fault = some .reading then (false, s)
  else
    match readFloor sha256 file c.keyId with
    | none => (false, s)
    | some state =>
      if c.revision < state.revision ∨ now < state.time ∨
          (c.revision = state.revision ∧ c.digest.bytes ≠ state.lastDigest) then (false, s)
      else if c.revision = state.revision ∧ now = state.time then (true, s)
      else if floorLimit < file.length + floorFrameSize then (false, s)
      else
        match fault with
        | some (.frame n) => (false, ⟨some (file ++ (floorFrame sha256 state c now).take n), true⟩)
        | _ => (true, { s with file := some (file ++ floorFrame sha256 state c now) })

/-- The file is created with its header when there is none. -/
def catalogAccept (s : Floor) (c : Catalog) (now : Nat) (fault : Option Fault) : Bool × Floor :=
  if s.poisoned = true ∨ now = 0 ∨ now < c.issued ∨ c.expires ≤ now then (false, s)
  else if fault = some .opening then (false, s)
  else
    match s.file with
    | some file => if fault = some .checking then (false, s) else acceptOpened sha256 s file c now fault
    | none =>
      match fault with
      | some .checking => (false, { s with file := some [] })
      | some (.header n) => (false, ⟨some ((floorHeader c.keyId).take n), true⟩)
      | _ => acceptOpened sha256 { s with file := some (floorHeader c.keyId) } (floorHeader c.keyId) c now fault

/-- The calls, and the journal handles they are made with: a new one can be poisoned by
what else is written with it. -/
inductive Event where
  | accept (c : Catalog) (now : Nat) (fault : Option Fault)
  | handle (poisoned : Bool)

def step (s : Floor) : Event → Floor
  | .accept c now fault => (catalogAccept sha256 s c now fault).2
  | .handle poisoned => { s with poisoned := poisoned }

/-- The catalogues accepted on the way, the earliest first, with their times. -/
def accepted : Floor → List Event → List (Catalog × Nat)
  | _, [] => []
  | s, .handle poisoned :: events => accepted (step sha256 s (.handle poisoned)) events
  | s, .accept c now fault :: events =>
    if (catalogAccept sha256 s c now fault).1 = true then
      (c, now) :: accepted (step sha256 s (.accept c now fault)) events
    else accepted (step sha256 s (.accept c now fault)) events

end Hash

end EtranProcessing.Deployment.CatalogFloor
