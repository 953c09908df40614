import EtranProcessing.Deployment.Records

namespace EtranProcessing.Deployment.ConfigTransaction

open Journal Records

def configLimit : Nat := 65536
def descriptorLimit : Nat := 4096
def pathLimit : Nat := 4 * 260
def recordConfigPlan : UInt32 := 20
def recordConfigIntent : UInt32 := 21
def recordConfigDone : UInt32 := 22

/-- A path under the config folder, in UTF-8. -/
structure Path where
  bytes : Bytes
  nonempty : bytes ≠ []
  small : bytes.length < pathLimit
  zeroFree : 0 ∉ bytes
  deriving DecidableEq

def pathOf (bytes : Bytes) : Option Path :=
  if h : bytes ≠ [] ∧ bytes.length < pathLimit ∧ 0 ∉ bytes then some ⟨bytes, h.1, h.2.1, h.2.2⟩ else none

def brokerPath : Path where
  bytes := [0x6d, 0x6f, 0x73, 0x71, 0x75, 0x69, 0x74, 0x74, 0x6f, 0x5c, 0x6d, 0x6f, 0x73, 0x71, 0x75, 0x69, 0x74,
    0x74, 0x6f, 0x2e, 0x63, 0x6f, 0x6e, 0x66]
  nonempty := by decide
  small := by decide
  zeroFree := by decide

structure ConfigPlan where
  publicBroker : Bool
  existed : Bool
  path : Path
  old : Bytes
  candidate : Bytes
  sd : Bytes
  deriving DecidableEq

def planEncode (p : ConfigPlan) : Bytes :=
  storeU32 (if p.publicBroker = true then 2 else 1) ++ storeU32 (if p.existed = true then 1 else 0) ++
    storeU32 p.path.bytes.length ++ storeU32 p.old.length ++ storeU32 p.candidate.length ++ storeU32 p.sd.length ++
    (p.path.bytes ++ p.old ++ p.candidate ++ p.sd)

def planDecode (record : Bytes) : Option ConfigPlan :=
  let version := get32 record
  let existed := get32 (record.drop 4)
  let pathSize := get32 (record.drop 8)
  let oldSize := get32 (record.drop 12)
  let newSize := get32 (record.drop 16)
  let sdSize := get32 (record.drop 20)
  let path := record.drop 24
  let old := path.drop pathSize
  let candidate := old.drop oldSize
  if record.length < 24 ∨ (version ≠ 1 ∧ version ≠ 2) then none
  else if existed ≤ 1 ∧ oldSize ≤ configLimit ∧ newSize ≤ configLimit ∧ sdSize ≠ 0 ∧ sdSize ≤ descriptorLimit ∧
      24 + pathSize + oldSize + newSize + sdSize = record.length ∧ (existed = 1 ∨ oldSize = 0) then
    match pathOf (path.take pathSize) with
    | none => none
    | some relative =>
      if version = 2 ∧ (existed = 1 ∨ relative ≠ brokerPath) then none
      else some ⟨version = 2, existed = 1, relative, old.take oldSize, candidate.take newSize, candidate.drop newSize⟩
  else none

/-- The security of files as the system has it: how l4_store_security reads a descriptor
(or refuses it), which descriptor a file gets from a saved one, and the two checks of
saved bytes that valid_sd leaves to the system. -/
structure System (D : Type) where
  security : D → Option Bytes
  create : Bytes → D
  isValid : Bytes → Bool
  descriptorLength : Bytes → Nat

def byteAt (b : Bytes) (i : Nat) : Nat := (b.getD i 0).toNat

def get16 (b : Bytes) (i : Nat) : Nat := byteAt b i + 256 * byteAt b (i + 1)

def sidFits (sd : Bytes) (place room : Nat) : Prop :=
  byteAt sd place = 1 ∧ byteAt sd (place + 1) ≤ 15 ∧ 8 + 4 * byteAt sd (place + 1) ≤ room

instance (sd : Bytes) (place room : Nat) : Decidable (sidFits sd place room) := by
  unfold sidFits
  infer_instance

def sidValid (sd : Bytes) (place : Nat) : Prop :=
  place % 4 = 0 ∧ 20 ≤ place ∧ place ≤ sd.length ∧ 8 ≤ sd.length - place ∧ sidFits sd place (sd.length - place)

instance (sd : Bytes) (place : Nat) : Decidable (sidValid sd place) := by
  unfold sidValid
  infer_instance

/-- The access entries from an offset of the list at the given place on. -/
def acesValid (sd : Bytes) (place aclSize : Nat) : Nat → Nat → Prop
  | 0, _ => True
  | n + 1, offset =>
    (offset ≤ aclSize ∧ 12 ≤ aclSize - offset) ∧
      (byteAt sd (place + offset) = 0 ∧ get16 sd (place + offset + 2) % 4 = 0 ∧ 16 ≤ get16 sd (place + offset + 2) ∧
        get16 sd (place + offset + 2) ≤ aclSize - offset) ∧
      sidFits sd (place + offset + 8) (get16 sd (place + offset + 2) - 8) ∧
      acesValid sd place aclSize n (offset + get16 sd (place + offset + 2))

instance acesDecidable (sd : Bytes) (place aclSize : Nat) :
    (n offset : Nat) → Decidable (acesValid sd place aclSize n offset)
  | 0, _ => inferInstanceAs (Decidable True)
  | n + 1, offset =>
    have := acesDecidable sd place aclSize n (offset + get16 sd (place + offset + 2))
    inferInstanceAs (Decidable (_ ∧ _ ∧ _ ∧ acesValid sd place aclSize n _))

/-- A self-relative descriptor with an owner and a list of allowing entries, and without
audit entries. -/
def descriptorShape (sd : Bytes) : Prop :=
  let control := get16 sd 2
  let owner := get32 (sd.drop 4)
  let group := get32 (sd.drop 8)
  let dacl := get32 (sd.drop 16)
  (20 ≤ sd.length ∧ byteAt sd 0 = 1) ∧ (control / 0x8000 % 2 = 1 ∧ control / 4 % 2 = 1) ∧
    (get32 (sd.drop 12) = 0 ∧ owner ≠ 0 ∧ dacl ≠ 0) ∧ sidValid sd owner ∧ (group = 0 ∨ sidValid sd group) ∧
    (dacl % 4 = 0 ∧ 20 ≤ dacl ∧ dacl ≤ sd.length ∧ 8 ≤ sd.length - dacl) ∧
    (8 ≤ get16 sd (dacl + 2) ∧ get16 sd (dacl + 2) ≤ sd.length - dacl) ∧
    acesValid sd dacl (get16 sd (dacl + 2)) (get16 sd (dacl + 4)) 8

instance (sd : Bytes) : Decidable (descriptorShape sd) := by
  unfold descriptorShape
  infer_instance

structure File (D : Type) where
  bytes : Bytes
  descriptor : D

/-- The files, what a new file beside one of them would inherit (with the reading of users
for the broker), and the journal. -/
structure World (D : Type) where
  files : Path → Option (File D)
  policy : Path → Bool → Option D
  log : RecordLog

abbrev Snapshot := Option (Bytes × Bytes)

inductive PrepareFault where
  | reading
  | append (f : AppendFault)
  deriving DecidableEq

/-- Where a call stops: before the intent, in one of its two appends, in the change of the
file, which is done or not, or in the reading that checks it. A crash stops a call in the
same places. -/
inductive Fault where
  | reading
  | intent (f : AppendFault)
  | change (done : Bool)
  | recheck
  | finish (f : AppendFault)
  deriving DecidableEq

inductive Event (D : Type) where
  | prepare (path : Path) (bytes : Bytes) (fault : Option PrepareFault)
  | preparePublicBroker (bytes : Bytes) (fault : Option PrepareFault)
  | apply (sequence : Nat) (fault : Option Fault)
  | rollback (sequence : Nat) (fault : Option Fault)
  | touch (path : Path) (file : Option (File D))
  | setPolicy (path : Path) (publicBroker : Bool) (d : Option D)
  | append (kind : UInt32) (bytes : Bytes) (fault : Option AppendFault)
  | reopen

section Calls

variable {D : Type} (sys : System D)

def validSd (sd : Bytes) : Prop := descriptorShape sd ∧ sys.isValid sd = true ∧ sys.descriptorLength sd = sd.length

instance (sd : Bytes) : Decidable (validSd sys sd) := by
  unfold validSd
  infer_instance

def readFile : Option (File D) → Option Snapshot
  | none => some none
  | some f =>
    if f.bytes.length ≤ configLimit then (sys.security f.descriptor).map fun sd => some (f.bytes, sd) else none

def filePolicy (s : World D) (path : Path) (publicBroker : Bool) : Option Bytes :=
  (s.policy path publicBroker).bind sys.security

def PrepareFault.ofAppend : Option PrepareFault → Option AppendFault
  | some (.append f) => some f
  | _ => none

def savedSd (s : World D) (path : Path) (publicBroker : Bool) : Snapshot → Option Bytes
  | some (_, sd) => some sd
  | none => filePolicy sys s path publicBroker

def prepare (s : World D) (path : Path) (bytes : Bytes) (publicBroker : Bool) (fault : Option PrepareFault) :
    Option Nat × World D :=
  if configLimit < bytes.length ∨ fault = some .reading then (none, s)
  else
    match readFile sys (s.files path) with
    | none => (none, s)
    | some old =>
      if publicBroker = true ∧ old ≠ none then (none, s)
      else
        match savedSd sys s path publicBroker old with
        | none => (none, s)
        | some sd =>
          let plan : ConfigPlan := ⟨publicBroker, old.isSome, path, (old.map Prod.fst).getD [], bytes, sd⟩
          let r := appendRecord s.log recordConfigPlan (planEncode plan) (PrepareFault.ofAppend fault)
          (r.1, { s with log := r.2 })

def ConfigPlan.original (p : ConfigPlan) : Snapshot := if p.existed = true then some (p.old, p.sd) else none

def ConfigPlan.wanted (p : ConfigPlan) : Snapshot := some (p.candidate, p.sd)

def ConfigPlan.desired (p : ConfigPlan) (forward : Bool) : Snapshot := if forward = true then p.wanted else p.original

def ConfigPlan.other (p : ConfigPlan) (forward : Bool) : Snapshot := if forward = true then p.original else p.wanted

def planAt (s : World D) (sequence : Nat) : Option ConfigPlan :=
  match findRecord s.log recordConfigPlan sequence with
  | none => none
  | some record =>
    match planDecode record with
    | none => none
    | some plan => if validSd sys plan.sd then some plan else none

def Fault.ofIntent : Option Fault → Option AppendFault
  | some (.intent f) => some f
  | _ => none

def Fault.ofFinish : Option Fault → Option AppendFault
  | some (.finish f) => some f
  | _ => none

def changed (s : World D) (path : Path) (desired : Snapshot) : World D :=
  { s with files := Function.update s.files path (desired.map fun d => ⟨d.1, sys.create d.2⟩) }

def executeFinish (s : World D) (plan : ConfigPlan) (forward : Bool) (intent : Bytes) (fault : Option Fault) :
    Bool × World D :=
  if fault = some .recheck ∨ readFile sys (s.files plan.path) ≠ some (plan.desired forward) then (false, s)
  else
    let r := appendRecord s.log recordConfigDone intent (Fault.ofFinish fault)
    (r.1.isSome, { s with log := r.2 })

def executeChange (s : World D) (plan : ConfigPlan) (forward done : Bool) (intent : Bytes) (fault : Option Fault) :
    Bool × World D :=
  if done = true then executeFinish sys s plan forward intent fault
  else
    match fault with
    | some (.change false) => (false, s)
    | some (.change true) => (false, changed sys s plan.path (plan.desired forward))
    | _ => executeFinish sys (changed sys s plan.path (plan.desired forward)) plan forward intent fault

def intentBytes (sequence : Nat) (forward : Bool) : Bytes :=
  storeU64 sequence ++ storeU32 (if forward = true then 1 else 0)

def execute (s : World D) (sequence : Nat) (forward : Bool) (fault : Option Fault) : Bool × World D :=
  match planAt sys s sequence with
  | none => (false, s)
  | some plan =>
    if fault = some .reading then (false, s)
    else
      match readFile sys (s.files plan.path) with
      | none => (false, s)
      | some current =>
        let done := decide (current = plan.desired forward)
        if done = false ∧ current ≠ plan.other forward then (false, s)
        else if current = none ∧ filePolicy sys s plan.path plan.publicBroker ≠ some plan.sd then (false, s)
        else
          let intent := intentBytes sequence forward
          let r := appendRecord s.log recordConfigIntent intent (Fault.ofIntent fault)
          if r.1 = none then (false, { s with log := r.2 })
          else executeChange sys { s with log := r.2 } plan forward done intent fault

def configApply (s : World D) (sequence : Nat) (fault : Option Fault) : Bool × World D :=
  execute sys s sequence true fault

def configRollback (s : World D) (sequence : Nat) (fault : Option Fault) : Bool × World D :=
  execute sys s sequence false fault

/-- The calls, other writers of files and folder policies, and other records. -/
def step (s : World D) : Event D → World D
  | .prepare path bytes fault => (prepare sys s path bytes false fault).2
  | .preparePublicBroker bytes fault => (prepare sys s brokerPath bytes true fault).2
  | .apply sequence fault => (configApply sys s sequence fault).2
  | .rollback sequence fault => (configRollback sys s sequence fault).2
  | .touch path file => { s with files := Function.update s.files path file }
  | .setPolicy path publicBroker d =>
    { s with policy := fun p b => if p = path ∧ b = publicBroker then d else s.policy p b }
  | .append kind bytes fault => { s with log := (appendRecord s.log kind bytes fault).2 }
  | .reopen => { s with log := { s.log with poisoned := false } }

end Calls

end EtranProcessing.Deployment.ConfigTransaction
