import EtranProcessing.Deployment.ResultCodecs

namespace EtranProcessing.Deployment.SetupCodecs

open Library.Buffers Library.FixedLayout ResultCodecs

def commitBytes : Nat := 16959
def restoreBytes : Nat := 384
def autoStart : UInt32 := 2
def demandStart : UInt32 := 3

structure FileTime where
  low : UInt32
  high : UInt32
  deriving DecidableEq

def ft (t : FileTime) : UInt64 := UInt64.ofNat (t.high.toNat * 2 ^ 32 + t.low.toNat)
def timevalue (v : UInt64) : FileTime := ⟨UInt32.ofNat v.toNat, UInt32.ofNat (v.toNat / 2 ^ 32)⟩

structure RootAsset where
  name : Chars 40
  size : UInt64
  sha256 : Digest
  deriving DecidableEq

/-- What a commit says of one service: an entry of each of four arrays of the source. -/
structure Service where
  startType : UInt32
  pid : UInt32
  birth : FileTime
  command : Vector UInt16 2048
  deriving DecidableEq

structure RemoteCommit where
  operation : Chars 37
  predecessor : Chars 37
  updaterOrigin : Chars 37
  suiteVersion : Chars 32
  updaterVersion : Chars 32
  arch : Chars 8
  suiteRoot : Digest
  updaterRoot : Digest
  publisher : Digest
  operationSha256 : Digest
  updater : RootAsset
  operationSequence : UInt64
  configs : Vector UInt64 12
  finishedUtc : UInt64
  services : Vector Service 4
  deriving DecidableEq

def lowerHex (c : UInt8) : Bool := isDigit c || 0x61 ≤ c && c ≤ 0x66

def strnlen {n : Nat} (s : Chars n) : Nat := (cString s.toList).length

def commitUuid (s : Chars 37) : Bool := strnlen s == 36 && uuidText lowerHex (cString s.toList)

/-- Three numbers with points between them. -/
def dotted : Nat → Nat → Bytes → Bool
  | dots, digits, [] => dots == 2 && digits != 0
  | dots, digits, c :: s =>
      if c = 0x2e then
        if digits = 0 ∨ 2 < dots + 1 then false else dotted (dots + 1) 0 s
      else if isDigit c then dotted dots (digits + 1) s
      else false

def commitVersion (s : Chars 32) : Bool := strnlen s != 0 && strnlen s != 32 && dotted 0 0 (cString s.toList)

def isArch (s : Chars 8) : Bool := cString s.toList == ascii "x86" || cString s.toList == ascii "x64"

def configsValid (operationSequence : UInt64) (configs : Vector UInt64 12) : Bool :=
  configs.toList.all (fun c => c != 0 && decide (c < operationSequence)) && decide configs.toList.Nodup

def commandValid (command : Vector UInt16 2048) : Bool :=
  (cString command.toList).length != 0 && (cString command.toList).length != 2048

def serviceValid (s : Service) : Bool :=
  (s.startType == autoStart || s.startType == demandStart) && s.pid != 0 && (s.birth.low != 0 || s.birth.high != 0) &&
    commandValid s.command

def commitValid (p : RemoteCommit) : Bool :=
  commitUuid p.operation && commitUuid p.predecessor && commitUuid p.updaterOrigin &&
    cString p.operation.toList != cString p.predecessor.toList && commitVersion p.suiteVersion &&
    commitVersion p.updaterVersion && strnlen p.arch != 8 && isArch p.arch && nonzero p.suiteRoot && nonzero p.updaterRoot &&
    nonzero p.publisher && nonzero p.operationSha256 && strnlen p.updater.name != 40 &&
    cString p.updater.name.toList == ascii "l4setup.exe" && p.updater.size != 0 && nonzero p.updater.sha256 &&
    p.operationSequence != 0 && p.finishedUtc != 0 && configsValid p.operationSequence p.configs &&
    p.services.toList.all serviceValid

def putService (s : Service) : Bytes :=
  [put32 s.startType, put32 s.pid, put32 s.birth.low, put32 s.birth.high, stored put16 (cleared s.command)].flatten

def getService (b : Bytes) : Service where
  startType := get32 (slice b 0 4)
  pid := get32 (slice b 4 4)
  birth := ⟨get32 (slice b 8 4), get32 (slice b 12 4)⟩
  command := items get16 2 2048 (slice b 16 4096)

def commitParts (p : RemoteCommit) : List Bytes :=
  [ascii "L4SCMT01", put64 p.operationSequence, p.operationSha256.toList, (cleared p.operation).toList,
    (cleared p.predecessor).toList, (cleared p.updaterOrigin).toList, (cleared p.suiteVersion).toList,
    (cleared p.updaterVersion).toList, (cleared p.arch).toList, p.suiteRoot.toList, p.updaterRoot.toList,
    (cleared p.updater.name).toList, put64 p.updater.size, p.updater.sha256.toList, p.publisher.toList, put64 p.finishedUtc,
    stored put64 p.configs, stored putService p.services]

def commitEncode (p : RemoteCommit) : Option Bytes := if commitValid p then some (commitParts p).flatten else none

def commitRead (b : Bytes) : RemoteCommit where
  operationSequence := get64 (slice b 8 8)
  operationSha256 := copied 32 (slice b 16 32)
  operation := copied 37 (slice b 48 37)
  predecessor := copied 37 (slice b 85 37)
  updaterOrigin := copied 37 (slice b 122 37)
  suiteVersion := copied 32 (slice b 159 32)
  updaterVersion := copied 32 (slice b 191 32)
  arch := copied 8 (slice b 223 8)
  suiteRoot := copied 32 (slice b 231 32)
  updaterRoot := copied 32 (slice b 263 32)
  updater := ⟨copied 40 (slice b 295 40), get64 (slice b 335 8), copied 32 (slice b 343 32)⟩
  publisher := copied 32 (slice b 375 32)
  finishedUtc := get64 (slice b 407 8)
  configs := items get64 8 12 (slice b 415 96)
  services := items getService 4112 4 (slice b 511 16448)

def commitDecode (b : Bytes) : Option RemoteCommit :=
  if b.length ≠ commitBytes ∨ slice b 0 8 ≠ ascii "L4SCMT01" then none
  else if commitEncode (commitRead b) = some b then some (commitRead b)
  else none

structure RestoreProof where
  operation : Chars 37
  version : Chars 32
  arch : Chars 8
  operationSha256 : Digest
  sourceRoot : Digest
  window : UInt32
  workerPid : UInt32
  pids : Vector UInt32 4
  verificationMode : UInt32
  workerBirth : FileTime
  births : Vector FileTime 4
  generation : UInt64
  deadlineUtc : UInt64
  operationSequence : UInt64
  finishedUtc : UInt64
  configs : Vector UInt64 12
  restores : Vector UInt64 4
  deriving DecidableEq

def field {n : Nat} (s : Chars n) : Bool :=
  (cString s.toList).all (fun c => 33 ≤ c && c ≤ 126) && strnlen s != 0 && strnlen s != n &&
    (s.toList.drop (strnlen s)).all (· == 0)

def restoresValid (operationSequence : UInt64) (restores : Vector UInt64 4) : Bool :=
  restores.toList.all (fun r => r != 0 && decide (operationSequence < r)) && decide restores.toList.Nodup

def restoreValid (p : RestoreProof) : Bool :=
  field p.operation && field p.version && versionText 3 (cString p.version.toList) && field p.arch && isArch p.arch &&
    (p.window == 1 || p.window == 2) && p.verificationMode == p.window && p.generation != 0 && p.operationSequence != 0 &&
    p.deadlineUtc != 0 && p.finishedUtc != 0 && decide (p.finishedUtc < p.deadlineUtc) && p.workerPid != 0 &&
    ft p.workerBirth != 0 && uuidText lowerHex p.operation.toList && p.operation.toList.getD 36 0 == 0 &&
    p.pids.toList.all (· != 0) && p.births.toList.all (fun t => ft t != 0) && restoresValid p.operationSequence p.restores &&
    configsValid p.operationSequence p.configs && nonzero p.operationSha256 && nonzero p.sourceRoot

def putTime (t : FileTime) : Bytes := put64 (ft t)
def getTime (b : Bytes) : FileTime := timevalue (get64 b)

def restoreParts (p : RestoreProof) : List Bytes :=
  [ascii "L4ROLD01", put32 1, put32 p.window, put64 p.generation, put64 p.deadlineUtc, put64 p.operationSequence,
    p.operationSha256.toList, p.operation.toList, p.version.toList, p.arch.toList, p.sourceRoot.toList, put64 p.finishedUtc,
    put32 p.workerPid, putTime p.workerBirth, stored put32 p.pids, stored putTime p.births, stored put64 p.configs,
    stored put64 p.restores, put32 p.verificationMode, zeros 3]

def restoreEncode (p : RestoreProof) : Option Bytes := if restoreValid p then some (restoreParts p).flatten else none

def restoreRead (b : Bytes) : RestoreProof where
  window := get32 (slice b 12 4)
  generation := get64 (slice b 16 8)
  deadlineUtc := get64 (slice b 24 8)
  operationSequence := get64 (slice b 32 8)
  operationSha256 := copied 32 (slice b 40 32)
  operation := copied 37 (slice b 72 37)
  version := copied 32 (slice b 109 32)
  arch := copied 8 (slice b 141 8)
  sourceRoot := copied 32 (slice b 149 32)
  finishedUtc := get64 (slice b 181 8)
  workerPid := get32 (slice b 189 4)
  workerBirth := getTime (slice b 193 8)
  pids := items get32 4 4 (slice b 201 16)
  births := items getTime 8 4 (slice b 217 32)
  configs := items get64 8 12 (slice b 249 96)
  restores := items get64 8 4 (slice b 345 32)
  verificationMode := get32 (slice b 377 4)

def restoreDecode (b : Bytes) : Option RestoreProof :=
  if b.length ≠ restoreBytes ∨ slice b 0 8 ≠ ascii "L4ROLD01" ∨ get32 (slice b 8 4) ≠ 1 ∨
      slice b 381 3 ≠ zeros 3 then none
  else if restoreValid (restoreRead b) then some (restoreRead b)
  else none

def Service.tidy (s : Service) : Service := { s with command := cleared s.command }

/-- The commit with nothing but zeros behind the ends of its strings. -/
def RemoteCommit.tidy (p : RemoteCommit) : RemoteCommit :=
  { p with
    operation := cleared p.operation
    predecessor := cleared p.predecessor
    updaterOrigin := cleared p.updaterOrigin
    suiteVersion := cleared p.suiteVersion
    updaterVersion := cleared p.updaterVersion
    arch := cleared p.arch
    updater := { p.updater with name := cleared p.updater.name }
    services := p.services.map Service.tidy }

section Commits

variable {p : RemoteCommit} {b : Bytes}

@[simp] theorem strnlen_cleared {n : Nat} (s : Chars n) : strnlen (cleared s) = strnlen s := by
  rw [strnlen, cString_cleared, strnlen]

theorem commandValid_cleared (command : Vector UInt16 2048) : commandValid (cleared command) = commandValid command := by
  rw [commandValid, cString_cleared, commandValid]

/-! The command of a service is long: its fields are rewritten one by one. -/

theorem tidy_startType : (s : Service) → s.tidy.startType = s.startType
  | ⟨_, _, _, _⟩ => rfl

theorem tidy_pid : (s : Service) → s.tidy.pid = s.pid
  | ⟨_, _, _, _⟩ => rfl

theorem tidy_birth : (s : Service) → s.tidy.birth = s.birth
  | ⟨_, _, _, _⟩ => rfl

theorem tidy_command : (s : Service) → s.tidy.command = cleared s.command
  | ⟨_, _, _, _⟩ => rfl

theorem serviceValid_eq (s : Service) : serviceValid s = ((s.startType == autoStart || s.startType == demandStart) &&
    s.pid != 0 && (s.birth.low != 0 || s.birth.high != 0) && commandValid s.command) := rfl

theorem serviceValid_tidy (s : Service) : serviceValid s.tidy = serviceValid s := by
  rw [serviceValid_eq s.tidy, serviceValid_eq s, tidy_startType, tidy_pid, tidy_birth, tidy_command, commandValid_cleared]

theorem services_tidy (services : Vector Service 4) :
    (services.map Service.tidy).toList.all serviceValid = services.toList.all serviceValid := by
  have hvalid : serviceValid ∘ Service.tidy = serviceValid := funext serviceValid_tidy
  rw [Vector.toList_map, List.all_map, hvalid]

theorem commitValid_tidy : commitValid p.tidy = commitValid p := by
  simp only [commitValid, RemoteCommit.tidy, commitUuid, commitVersion, isArch, strnlen_cleared, cString_cleared,
    services_tidy]

theorem putService_eq (s : Service) : putService s =
    [put32 s.startType, put32 s.pid, put32 s.birth.low, put32 s.birth.high, stored put16 (cleared s.command)].flatten := rfl

theorem putService_tidy (s : Service) : putService s.tidy = putService s := by
  rw [putService_eq s.tidy, putService_eq s, tidy_startType, tidy_pid, tidy_birth, tidy_command, cleared_cleared]

theorem stored_tidy (services : Vector Service 4) :
    stored putService (services.map Service.tidy) = stored putService services := by
  rw [stored, stored, Vector.toList_map, List.flatMap_map]
  simp only [putService_tidy]

theorem commitParts_tidy (p : RemoteCommit) : commitParts p.tidy = commitParts p := by
  simp only [commitParts, RemoteCommit.tidy, cleared_cleared, stored_tidy]

theorem commitEncode_tidy : commitEncode p.tidy = commitEncode p := by
  rw [commitEncode, commitEncode, commitValid_tidy, commitParts_tidy]

theorem length_putService (s : Service) : (putService s).length = 4112 := by
  simp only [putService, List.flatten_cons, List.flatten_nil, List.append_nil, List.length_append, length_put32,
    length_stored length_put16]

theorem getService_putService (s : Service) : getService (putService s) = s.tidy := by
  have hcut := cut_flatten [put32 s.startType, put32 s.pid, put32 s.birth.low, put32 s.birth.high,
    stored put16 (cleared s.command)] []
  rw [List.append_nil, ← putService] at hcut
  simp only [List.map_cons, List.map_nil, length_put32, length_stored length_put16, cut, List.cons.injEq, Nat.zero_add,
    Nat.reduceAdd, Nat.reduceMul] at hcut
  obtain ⟨h0, h4, h8, h12, h16, -⟩ := hcut
  simp only [getService, Service.tidy, h0, h4, h8, h12, h16, get32_put32, items_stored_exact length_put16 get16_put16]

theorem commitRead_parts (hb : (commitParts p).flatten = b) :
    b.length = commitBytes ∧ slice b 0 8 = ascii "L4SCMT01" ∧ commitRead b = p.tidy := by
  have hmagic : (ascii "L4SCMT01").length = 8 := by decide
  have hcut := cut_flatten (commitParts p) []
  have hlength : b.length = commitBytes := by
    rw [← hb, List.length_flatten]
    simp only [commitParts, List.map_cons, List.map_nil, hmagic, length_put64, Vector.length_toList,
      length_stored length_put64, length_stored length_putService, List.sum_cons, List.sum_nil]
    rfl
  rw [List.append_nil, hb] at hcut
  simp only [commitParts, List.map_cons, List.map_nil, hmagic, length_put64, Vector.length_toList,
    length_stored length_put64, length_stored length_putService, cut, List.cons.injEq, Nat.zero_add, Nat.reduceAdd,
    Nat.reduceMul] at hcut
  obtain ⟨h0, h8, h16, h48, h85, h122, h159, h191, h223, h231, h263, h295, h335, h343, h375, h407, h415, h511, -⟩ := hcut
  refine ⟨hlength, h0, ?_⟩
  simp only [commitRead, RemoteCommit.tidy, h8, h16, h48, h85, h122, h159, h191, h223, h231, h263, h295, h335, h343, h375,
    h407, h415, h511, get64_put64, copied_array, items_stored_exact length_put64 get64_put64,
    items_stored length_putService getService_putService]

theorem commitDecode_encode (h : commitEncode p = some b) : commitDecode b = some p.tidy := by
  obtain ⟨hvalid, hb⟩ := Option.ite_none_right_eq_some.mp h
  obtain ⟨hlength, hmagic, hread⟩ := commitRead_parts (Option.some.inj hb)
  have hplain : ¬(b.length ≠ commitBytes ∨ slice b 0 8 ≠ ascii "L4SCMT01") := by
    rw [hlength, hmagic]
    tauto
  rw [commitDecode, if_neg hplain, hread, commitEncode_tidy, if_pos h]

theorem commitEncode_decode (h : commitDecode b = some p) : commitEncode p = some b := by
  rw [commitDecode, Option.ite_none_left_eq_some, Option.ite_none_right_eq_some] at h
  obtain ⟨-, hcanonical, hread⟩ := h
  obtain rfl := Option.some.inj hread
  exact hcanonical

end Commits

section Restores

variable {p : RestoreProof} {b : Bytes}

theorem timevalue_ft (t : FileTime) : timevalue (ft t) = t := by
  obtain ⟨low, high⟩ := t
  have hlow := low.toNat_lt
  have hhigh := high.toNat_lt
  have hft : (ft ⟨low, high⟩).toNat = high.toNat * 2 ^ 32 + low.toNat := by
    rw [ft, UInt64.toNat_ofNat_of_lt' (by change high.toNat * 2 ^ 32 + low.toNat < 2 ^ 64; omega)]
  rw [timevalue, hft, FileTime.mk.injEq]
  constructor
  · apply UInt32.toNat_inj.mp
    rw [UInt32.toNat_ofNat']
    omega
  · apply UInt32.toNat_inj.mp
    rw [UInt32.toNat_ofNat']
    omega

theorem ft_timevalue (v : UInt64) : ft (timevalue v) = v := by
  have hv := v.toNat_lt
  apply UInt64.toNat_inj.mp
  rw [ft, timevalue, UInt32.toNat_ofNat', UInt32.toNat_ofNat', UInt64.toNat_ofNat']
  omega

theorem length_putTime (t : FileTime) : (putTime t).length = 8 := length_put64 _

theorem getTime_putTime (t : FileTime) : getTime (putTime t) = t := by
  rw [getTime, putTime, get64_put64, timevalue_ft]

theorem putTime_getTime {c : Bytes} (h : c.length = 8) : putTime (getTime c) = c := by
  rw [putTime, getTime, ft_timevalue, put64_get64 h]

theorem restoreDecode_encode (h : restoreEncode p = some b) : restoreDecode b = some p := by
  obtain ⟨hvalid, hb⟩ := Option.ite_none_right_eq_some.mp h
  have hb := Option.some.inj hb
  have hmagic : (ascii "L4ROLD01").length = 8 := by decide
  have hzeros : (zeros 3).length = 3 := by decide
  have hlength : b.length = restoreBytes := by
    rw [← hb, List.length_flatten]
    simp only [restoreParts, List.map_cons, List.map_nil, hmagic, hzeros, length_put32, length_put64, length_putTime,
      Vector.length_toList, length_stored length_put64, length_stored length_put32, length_stored length_putTime,
      List.sum_cons, List.sum_nil]
    rfl
  have hcut := cut_flatten (restoreParts p) []
  rw [List.append_nil, hb] at hcut
  simp only [restoreParts, List.map_cons, List.map_nil, hmagic, hzeros, length_put32, length_put64, length_putTime,
    Vector.length_toList, length_stored length_put64, length_stored length_put32, length_stored length_putTime, cut,
    List.cons.injEq, Nat.zero_add, Nat.reduceAdd, Nat.reduceMul] at hcut
  obtain ⟨h0, h8, h12, h16, h24, h32, h40, h72, h109, h141, h149, h181, h189, h193, h201, h217, h249, h345, h377,
    h381, -⟩ := hcut
  have hread : restoreRead b = p := by
    simp only [restoreRead, h12, h16, h24, h32, h40, h72, h109, h141, h149, h181, h189, h193, h201, h217, h249, h345, h377,
      get32_put32, get64_put64, copied_array, getTime_putTime, items_stored_exact length_put32 get32_put32,
      items_stored_exact length_put64 get64_put64, items_stored_exact length_putTime getTime_putTime]
  have hplain : ¬(b.length ≠ restoreBytes ∨ slice b 0 8 ≠ ascii "L4ROLD01" ∨ get32 (slice b 8 4) ≠ 1 ∨
      slice b 381 3 ≠ zeros 3) := by
    rw [hlength, h0, h8, h381, get32_put32]
    tauto
  rw [restoreDecode, if_neg hplain, hread, if_pos hvalid]

theorem restoreParts_read (hlength : b.length = restoreBytes) (hmagic : slice b 0 8 = ascii "L4ROLD01")
    (hversion : get32 (slice b 8 4) = 1) (hend : slice b 381 3 = zeros 3) : (restoreParts (restoreRead b)).flatten = b := by
  have hslice : ∀ offset size, offset + size ≤ 384 → (slice b offset size).length = size :=
    fun offset size hin => length_slice (by rw [hlength]; exact hin)
  have hone : put32 1 = slice b 8 4 := by rw [← hversion, put32_get32 (hslice 8 4 (by decide))]
  have hparts : restoreParts (restoreRead b) =
      cut b 0 [8, 4, 4, 8, 8, 8, 32, 37, 32, 8, 32, 8, 4, 8, 16, 32, 96, 32, 4, 3] := by
    simp only [restoreParts, restoreRead, cut, Nat.zero_add, Nat.reduceAdd, ← hmagic, hone, ← hend]
    rw [put32_get32 (hslice 12 4 (by decide)), put64_get64 (hslice 16 8 (by decide)), put64_get64 (hslice 24 8 (by decide)),
      put64_get64 (hslice 32 8 (by decide)), copied_full (hslice 40 32 (by decide)), copied_full (hslice 72 37 (by decide)),
      copied_full (hslice 109 32 (by decide)), copied_full (hslice 141 8 (by decide)),
      copied_full (hslice 149 32 (by decide)), put64_get64 (hslice 181 8 (by decide)),
      put32_get32 (hslice 189 4 (by decide)), putTime_getTime (hslice 193 8 (by decide)),
      stored_items (fun c => put32_get32) (hslice 201 16 (by decide)),
      stored_items (fun c => putTime_getTime) (hslice 217 32 (by decide)),
      stored_items (fun c => put64_get64) (hslice 249 96 (by decide)),
      stored_items (fun c => put64_get64) (hslice 345 32 (by decide)), put32_get32 (hslice 377 4 (by decide))]
  rw [hparts]
  exact flatten_cut_all (by rw [hlength]; decide)

theorem restoreEncode_decode (h : restoreDecode b = some p) : restoreEncode p = some b := by
  rw [restoreDecode, Option.ite_none_left_eq_some, Option.ite_none_right_eq_some] at h
  obtain ⟨hplain, hvalid, hread⟩ := h
  obtain rfl := Option.some.inj hread
  simp only [ne_eq, not_or, not_not] at hplain
  rw [restoreEncode, if_pos hvalid, restoreParts_read hplain.1 hplain.2.1 hplain.2.2.1 hplain.2.2.2]

end Restores

/-- Every record that can be written is read back with zeros behind the ends of
its strings, and every record that can be read is written again byte for byte. -/
theorem records_canonical (year : FileTimeToYear) :
    (∀ v b, resultEncode year v = some b → resultDecode year b = some v.tidy) ∧
    (∀ b v, resultDecode year b = some v → resultEncode year v = some b) ∧
    (∀ p b, outcomeEncode year p = some b → outcomeDecode year b = some p.tidy) ∧
    (∀ b p, outcomeDecode year b = some p → outcomeEncode year p = some b) ∧
    (∀ f b, launchFailureEncode year f = some b → launchFailureDecode year b = some f.tidy) ∧
    (∀ b f, launchFailureDecode year b = some f → launchFailureEncode year f = some b) ∧
    (∀ p b, commitEncode p = some b → commitDecode b = some p.tidy) ∧
    (∀ b p, commitDecode b = some p → commitEncode p = some b) ∧
    (∀ p b, restoreEncode p = some b → restoreDecode b = some p) ∧
    (∀ b p, restoreDecode b = some p → restoreEncode p = some b) :=
  ⟨fun _ _ => resultDecode_encode, fun _ _ => resultEncode_decode, fun _ _ => outcomeDecode_encode,
    fun _ _ => outcomeEncode_decode, fun _ _ => launchFailureDecode_encode, fun _ _ => launchFailureEncode_decode,
    fun _ _ => commitDecode_encode, fun _ _ => commitEncode_decode, fun _ _ => restoreDecode_encode,
    fun _ _ => restoreEncode_decode⟩

/-- A failed preparation with a byte behind the end of the requested version. -/
def untidyResult : RemoteResult where
  operationId := copied 37 (ascii "00000000-0000-0000-0000-000000000001")
  requestedVersion := copied 32 (ascii "latest" ++ [0, 0x78])
  previousVersion := copied 32 (ascii "1.0.0")
  resolvedVersion := copied 32 []
  target := 1
  result := resultFailed
  error := errorGenFailure
  startedAt := 1
  finishedAt := 2

theorem padding_lost : ∃ b, resultEncode (fun _ => some 2026) untidyResult = some b ∧
    resultDecode (fun _ => some 2026) b ≠ some untidyResult := by
  have hvalid : valid (fun _ => some 2026) untidyResult = true := by decide +kernel
  have hencode := resultEncode_eq_some.mpr ⟨hvalid, rfl⟩
  refine ⟨_, hencode, ?_⟩
  rw [resultDecode_encode hencode]
  intro heq
  have hbyte := congrArg (fun v => v.requestedVersion.toList) (Option.some.inj heq)
  exact absurd hbyte (by decide +kernel)

end EtranProcessing.Deployment.SetupCodecs
