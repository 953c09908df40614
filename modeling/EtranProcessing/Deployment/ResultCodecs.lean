import EtranProcessing.Library.FixedLayout

namespace EtranProcessing.Deployment.ResultCodecs

open Library.Buffers Library.FixedLayout

abbrev Chars (n : Nat) := Vector UInt8 n
abbrev Digest := Vector UInt8 32

def ascii (text : String) : Bytes := text.toList.map fun c => UInt8.ofNat c.toNat

def zeros (n : Nat) : Bytes := List.replicate n 0

def resultBytes : Nat := 200
def outcomeBytes : Nat := 280
def launchFailureBytes : Nat := 240

def resultFailed : UInt32 := 1
def resultCancelled : UInt32 := 2
def outcomeSuccess : UInt32 := 1
def outcomeRestored : UInt32 := 2
def outcomeRecoveryRequired : UInt32 := 3
def errorGenFailure : UInt32 := 31
def errorCancelled : UInt32 := 1223

structure RemoteResult where
  operationId : Chars 37
  requestedVersion : Chars 32
  previousVersion : Chars 32
  resolvedVersion : Chars 32
  target : UInt32
  result : UInt32
  error : UInt32
  startedAt : UInt64
  finishedAt : UInt64
  deriving DecidableEq

def isDigit (c : UInt8) : Bool := 0x30 ≤ c && c ≤ 0x39

/-- Three numbers of at most nine digits without leading zeros. -/
def versionText : Nat → Bytes → Bool
  | 0, _ => false
  | parts + 1, s =>
      let digits := s.takeWhile isDigit
      let rest := s.dropWhile isDigit
      if 9 < digits.length ∨ digits = [] ∨ (1 < digits.length ∧ digits.head? = some 0x30) then false
      else if parts = 0 then rest == []
      else
        match rest with
        | c :: rest => c == 0x2e && versionText parts rest
        | [] => false

def version (s : Chars 32) (latest : Bool) : Bool :=
  s.toList.contains 0 && (latest && cString s.toList == ascii "latest" || versionText 3 (cString s.toList))

def hyphen (i : Nat) : Bool := i == 8 || i == 13 || i == 18 || i == 23

def uuidText (hex : UInt8 → Bool) (s : Bytes) : Bool :=
  (List.range 36).all (fun i => if hyphen i then s.getD i 0 == 0x2d else hex (s.getD i 0)) &&
    (List.range 36).any fun i => !hyphen i && s.getD i 0 != 0x30

def anyHex (c : UInt8) : Bool := isDigit c || 0x61 ≤ c && c ≤ 0x66 || 0x41 ≤ c && c ≤ 0x46

def uuid (s : Chars 37) : Bool := s.toList.getD 36 0 == 0 && uuidText anyHex s.toList

abbrev FileTimeToYear := UInt64 → Option Nat

def timeValid (year : FileTimeToYear) (ticks : UInt64) : Bool :=
  ticks != 0 && (year ticks).any fun y => 2000 ≤ y && y ≤ 9999

def inOrder (startedAt finishedAt : UInt64) : Bool := startedAt ≤ finishedAt

def valid (year : FileTimeToYear) (v : RemoteResult) : Bool :=
  uuid v.operationId && v.target == 1 && (v.result == resultFailed || v.result == resultCancelled) && v.error != 0 &&
    (v.result != resultCancelled || v.error == errorCancelled) && (v.result != resultFailed || v.error != errorCancelled) &&
    version v.requestedVersion true && version v.previousVersion false &&
    ((cString v.resolvedVersion.toList).isEmpty || version v.resolvedVersion false) &&
    timeValid year v.startedAt && timeValid year v.finishedAt && inOrder v.startedAt v.finishedAt

def resultParts (v : RemoteResult) : List Bytes :=
  [ascii "L4RSLT01", put32 1, put32 v.target, put32 v.result, put32 v.error, put64 v.startedAt, put64 v.finishedAt,
    v.operationId.toList.take 36, zeros 4, (cleared v.requestedVersion).toList, (cleared v.previousVersion).toList,
    (cleared v.resolvedVersion).toList, zeros 24]

def resultEncode (year : FileTimeToYear) (v : RemoteResult) : Option Bytes :=
  if valid year v then some (resultParts v).flatten else none

def resultRead (b : Bytes) : RemoteResult where
  operationId := copied 37 (slice b 40 36)
  requestedVersion := copied 32 (slice b 80 32)
  previousVersion := copied 32 (slice b 112 32)
  resolvedVersion := copied 32 (slice b 144 32)
  target := get32 (slice b 12 4)
  result := get32 (slice b 16 4)
  error := get32 (slice b 20 4)
  startedAt := get64 (slice b 24 8)
  finishedAt := get64 (slice b 32 8)

def resultDecode (year : FileTimeToYear) (b : Bytes) : Option RemoteResult :=
  if b.length ≠ resultBytes then none
  else if slice b 0 8 ≠ ascii "L4RSLT01" ∨ get32 (slice b 8 4) ≠ 1 ∨ 0 ∉ slice b 80 32 ∨ 0 ∉ slice b 112 32 ∨
    0 ∉ slice b 144 32 then none
  else if resultEncode year (resultRead b) = some b then some (resultRead b)
  else none

structure RemoteOutcome where
  result : RemoteResult
  planSequence : UInt64
  proofSequence : UInt64
  planSha256 : Digest
  proofSha256 : Digest
  deriving DecidableEq

def nonzero (digest : Digest) : Bool := digest.toList.any (· != 0)

def kindValid (kind error : UInt32) : Bool :=
  outcomeSuccess ≤ kind && kind ≤ outcomeRecoveryRequired && (kind != outcomeSuccess || error == 0) &&
    (kind == outcomeSuccess || error != 0)

def proofValid (kind : UInt32) (planSequence proofSequence : UInt64) (proofSha256 : Digest) : Bool :=
  if kind = outcomeRecoveryRequired then proofSequence == 0 && !nonzero proofSha256
  else decide (planSequence < proofSequence) && nonzero proofSha256

def outcomeValid (p : RemoteOutcome) : Bool :=
  p.planSequence != 0 && nonzero p.planSha256 && !(cString p.result.resolvedVersion.toList).isEmpty &&
    kindValid p.result.result p.result.error && proofValid p.result.result p.planSequence p.proofSequence p.proofSha256

def disguisedError (error : UInt32) : UInt32 := if error = 0 then errorGenFailure else error
def disguisedResult (error : UInt32) : UInt32 := if error = errorCancelled then resultCancelled else resultFailed

def disguised (v : RemoteResult) : RemoteResult :=
  { v with error := disguisedError v.error, result := disguisedResult (disguisedError v.error) }

def outcomeEncode (year : FileTimeToYear) (p : RemoteOutcome) : Option Bytes :=
  if outcomeValid p then
    (resultEncode year (disguised p.result)).map fun bytes =>
      overwrite (overwrite (overwrite bytes 0 (ascii "L4ROUT01")) 16 (put32 p.result.result)) 20 (put32 p.result.error) ++
        (put64 p.planSequence ++ p.planSha256.toList ++ put64 p.proofSequence ++ p.proofSha256.toList)
  else none

def outcomeDecode (year : FileTimeToYear) (b : Bytes) : Option RemoteOutcome :=
  if b.length ≠ outcomeBytes ∨ slice b 0 8 ≠ ascii "L4ROUT01" then none
  else
    let kind := get32 (slice b 16 4)
    let error := get32 (slice b 20 4)
    let identity := overwrite (overwrite (overwrite (slice b 0 resultBytes) 0 (ascii "L4RSLT01"))
      16 (put32 (disguisedResult error))) 20 (put32 (disguisedError error))
    match resultDecode year identity with
    | none => none
    | some result =>
        let value : RemoteOutcome :=
          ⟨{ result with result := kind, error := error }, get64 (slice b 200 8), get64 (slice b 240 8),
            copied 32 (slice b 208 32), copied 32 (slice b 248 32)⟩
        if outcomeEncode year value = some b then some value else none

structure RemoteLaunchFailure where
  result : RemoteResult
  planSequence : UInt64
  stage : UInt32
  cleanupError : UInt32
  deriving DecidableEq

def launchFailureEncode (year : FileTimeToYear) (v : RemoteLaunchFailure) : Option Bytes :=
  if v.planSequence = 0 ∨ v.stage < 1 ∨ 8 < v.stage ∨ (cString v.result.resolvedVersion.toList).isEmpty then none
  else
    (resultEncode year v.result).map fun bytes =>
      [ascii "L4RFAL01", bytes, put64 v.planSequence, put32 v.stage, put32 v.cleanupError, zeros 16].flatten

def launchFailureDecode (year : FileTimeToYear) (b : Bytes) : Option RemoteLaunchFailure :=
  if b.length ≠ launchFailureBytes ∨ slice b 0 8 ≠ ascii "L4RFAL01" then none
  else
    match resultDecode year (slice b 8 resultBytes) with
    | none => none
    | some result =>
        let value : RemoteLaunchFailure := ⟨result, get64 (slice b 208 8), get32 (slice b 216 4), get32 (slice b 220 4)⟩
        if launchFailureEncode year value = some b then some value else none

def RemoteResult.tidy (v : RemoteResult) : RemoteResult :=
  { v with
    requestedVersion := cleared v.requestedVersion
    previousVersion := cleared v.previousVersion
    resolvedVersion := cleared v.resolvedVersion }

def RemoteOutcome.tidy (p : RemoteOutcome) : RemoteOutcome := { p with result := p.result.tidy }
def RemoteLaunchFailure.tidy (v : RemoteLaunchFailure) : RemoteLaunchFailure := { v with result := v.result.tidy }

section Results

variable {year : FileTimeToYear} {v : RemoteResult} {b : Bytes}

theorem contains_cleared {n : Nat} (s : Chars n) : (cleared s).toList.contains 0 = s.toList.contains 0 := by
  rw [Bool.eq_iff_iff, List.contains_iff_mem, List.contains_iff_mem, zero_mem_iff, zero_mem_iff, cString_cleared]

@[simp] theorem version_cleared (s : Chars 32) (latest : Bool) : version (cleared s) latest = version s latest := by
  rw [version, version, contains_cleared, cString_cleared]

@[simp] theorem valid_tidy : valid year v.tidy = valid year v := by
  simp only [valid, RemoteResult.tidy, version_cleared, cString_cleared]

@[simp] theorem resultParts_tidy (v : RemoteResult) : resultParts v.tidy = resultParts v := by
  simp only [resultParts, RemoteResult.tidy, cleared_cleared]

@[simp] theorem resultEncode_tidy : resultEncode year v.tidy = resultEncode year v := by
  rw [resultEncode, resultEncode, valid_tidy, resultParts_tidy]

theorem length_resultParts (v : RemoteResult) : (resultParts v).flatten.length = resultBytes := by
  have hmagic : (ascii "L4RSLT01").length = 8 := by decide
  simp [resultParts, zeros, resultBytes, hmagic]

theorem resultEncode_eq_some : resultEncode year v = some b ↔ valid year v = true ∧ (resultParts v).flatten = b := by
  rw [resultEncode]
  split <;> simp_all

theorem resultParts_slices {rest : Bytes} (hb : (resultParts v).flatten ++ rest = b) :
    slice b 0 8 = ascii "L4RSLT01" ∧ slice b 8 4 = put32 1 ∧ slice b 12 4 = put32 v.target ∧
      slice b 16 4 = put32 v.result ∧ slice b 20 4 = put32 v.error ∧ slice b 24 8 = put64 v.startedAt ∧
      slice b 32 8 = put64 v.finishedAt ∧ slice b 40 36 = v.operationId.toList.take 36 ∧ slice b 76 4 = zeros 4 ∧
      slice b 80 32 = (cleared v.requestedVersion).toList ∧ slice b 112 32 = (cleared v.previousVersion).toList ∧
      slice b 144 32 = (cleared v.resolvedVersion).toList ∧ slice b 176 24 = zeros 24 := by
  have hmagic : (ascii "L4RSLT01").length = 8 := by decide
  have hcut := cut_flatten (resultParts v) rest
  rw [hb] at hcut
  simpa [resultParts, cut, hmagic, zeros] using hcut

theorem uuid_end {s : Chars 37} (h : uuid s = true) : s.toList = s.toList.take 36 ++ [0] := by
  have hlength := s.length_toList
  rw [uuid, Bool.and_eq_true] at h
  have hlast : s.toList.getD 36 0 = 0 := eq_of_beq h.1
  have hdrop : s.toList.drop 36 = [0] := by
    rw [List.drop_eq_getElem_cons (by omega), List.drop_of_length_le (by omega)]
    rw [List.getD_eq_getElem?_getD, List.getElem?_eq_getElem (by omega), Option.getD_some] at hlast
    rw [hlast]
  rw [← hdrop, List.take_append_drop]

theorem valid_parts (h : valid year v = true) : uuid v.operationId = true ∧ version v.requestedVersion true = true ∧
    version v.previousVersion false = true ∧
    ((cString v.resolvedVersion.toList).isEmpty = true ∨ version v.resolvedVersion false = true) := by
  simp only [valid, Bool.and_eq_true, Bool.or_eq_true] at h
  tauto

theorem version_end {s : Chars 32} {latest : Bool} (h : version s latest = true) : 0 ∈ (cleared s).toList := by
  rw [version, Bool.and_eq_true, ← contains_cleared, List.contains_iff_mem] at h
  exact h.1

theorem empty_end {s : Chars 32} (h : (cString s.toList).isEmpty = true) : 0 ∈ (cleared s).toList := by
  rw [zero_mem_iff, cString_cleared, List.isEmpty_iff.mp h]
  exact Nat.zero_lt_succ 31

theorem resultRead_encoded (h : valid year v = true) (hb : (resultParts v).flatten = b) : resultRead b = v.tidy := by
  obtain ⟨-, -, h12, h16, h20, h24, h32, h40, -, h80, h112, h144, -⟩ := resultParts_slices ((List.append_nil _).trans hb)
  have hid : copied 37 (v.operationId.toList.take 36) = v.operationId := by
    apply Vector.toList_inj.mp
    rw [copied_toList (by simp), uuid_end (valid_parts h).1]
    simp
  simp only [resultRead, RemoteResult.tidy, h12, h16, h20, h24, h32, h40, h80, h112, h144, get32_put32, get64_put64,
    copied_array, hid]

theorem resultDecode_encode (h : resultEncode year v = some b) : resultDecode year b = some v.tidy := by
  obtain ⟨hvalid, hb⟩ := resultEncode_eq_some.mp h
  obtain ⟨h0, h8, -, -, -, -, -, -, -, h80, h112, h144, -⟩ := resultParts_slices ((List.append_nil _).trans hb)
  obtain ⟨-, hrequested, hprevious, hresolved⟩ := valid_parts hvalid
  have hlength : b.length = resultBytes := (congrArg List.length hb).symm.trans (length_resultParts v)
  have hend : 0 ∈ slice b 80 32 ∧ 0 ∈ slice b 112 32 ∧ 0 ∈ slice b 144 32 := by
    rw [h80, h112, h144]
    exact ⟨version_end hrequested, version_end hprevious, hresolved.elim empty_end version_end⟩
  have hread := resultRead_encoded hvalid hb
  have hplain : ¬(slice b 0 8 ≠ ascii "L4RSLT01" ∨ get32 (slice b 8 4) ≠ 1 ∨ 0 ∉ slice b 80 32 ∨
      0 ∉ slice b 112 32 ∨ 0 ∉ slice b 144 32) := by
    rw [h0, h8, get32_put32]
    tauto
  have hcanonical : resultEncode year (resultRead b) = some b := by rw [hread, resultEncode_tidy, h]
  rw [resultDecode, if_neg (not_not.mpr hlength), if_neg hplain, if_pos hcanonical, hread]

theorem resultEncode_decode (h : resultDecode year b = some v) : resultEncode year v = some b := by
  rw [resultDecode, Option.ite_none_left_eq_some, Option.ite_none_left_eq_some, Option.ite_none_right_eq_some] at h
  obtain ⟨-, -, hcanonical, hread⟩ := h
  obtain rfl := Option.some.inj hread
  exact hcanonical

end Results

section Outcomes

variable {year : FileTimeToYear} {p : RemoteOutcome} {b : Bytes}

theorem disguised_tidy (v : RemoteResult) : disguised v.tidy = (disguised v).tidy := by
  simp only [disguised, RemoteResult.tidy]

theorem outcomeValid_tidy : outcomeValid p.tidy = outcomeValid p := by
  simp only [outcomeValid, RemoteOutcome.tidy, RemoteResult.tidy, cString_cleared]

def front (magic : Bytes) (target result error : UInt32) : Bytes :=
  [magic, put32 1, put32 target, put32 result, put32 error].flatten

def identity (v : RemoteResult) : Bytes :=
  [put64 v.startedAt, put64 v.finishedAt, v.operationId.toList.take 36, zeros 4, (cleared v.requestedVersion).toList,
    (cleared v.previousVersion).toList, (cleared v.resolvedVersion).toList, zeros 24].flatten

theorem resultParts_front (v : RemoteResult) :
    (resultParts v).flatten = front (ascii "L4RSLT01") v.target v.result v.error ++ identity v := by
  simp [resultParts, front, identity]

theorem overwrite_part (before part after data : Bytes) (h : data.length = part.length) :
    overwrite (before ++ (part ++ after)) before.length data = before ++ (data ++ after) := by
  rw [overwrite, List.take_left, h, ← List.drop_drop, List.drop_left, List.drop_left, List.append_assoc]

theorem overwrite_front {magic magic' : Bytes} (hmagic : magic.length = 8) (hmagic' : magic'.length = 8)
    (target result error result' error' : UInt32) (rest : Bytes) :
    overwrite (overwrite (overwrite (front magic target result error ++ rest) 0 magic') 16 (put32 result')) 20 (put32 error') =
      front magic' target result' error' ++ rest := by
  have hfirst := overwrite_part [] magic (put32 1 ++ put32 target ++ put32 result ++ put32 error ++ rest) magic'
    (hmagic'.trans hmagic.symm)
  have hsecond := overwrite_part (magic' ++ put32 1 ++ put32 target) (put32 result) (put32 error ++ rest) (put32 result')
    (by simp)
  have hthird := overwrite_part (magic' ++ put32 1 ++ put32 target ++ put32 result') (put32 error) rest (put32 error') (by simp)
  simp only [List.length_append, hmagic', length_put32, List.length_nil, List.nil_append, List.append_assoc,
    Nat.reduceAdd] at hfirst hsecond hthird
  simp only [front, List.flatten_cons, List.flatten_nil, List.append_nil, List.append_assoc, hfirst, hsecond, hthird]

def outcomeRecord (p : RemoteOutcome) : Bytes :=
  front (ascii "L4ROUT01") p.result.target p.result.result p.result.error ++ identity p.result ++
    (put64 p.planSequence ++ p.planSha256.toList ++ put64 p.proofSequence ++ p.proofSha256.toList)

theorem outcomeEncode_eq_some : outcomeEncode year p = some b ↔
    outcomeValid p = true ∧ valid year (disguised p.result) = true ∧ outcomeRecord p = b := by
  have hmagic : (ascii "L4RSLT01").length = 8 ∧ (ascii "L4ROUT01").length = 8 := by decide
  have hrecord := overwrite_front hmagic.1 hmagic.2 p.result.target (disguised p.result).result (disguised p.result).error
    p.result.result p.result.error (identity p.result)
  rw [outcomeEncode, Option.ite_none_right_eq_some, Option.map_eq_some_iff]
  simp only [resultEncode_eq_some]
  constructor
  · rintro ⟨hp, _, ⟨hv, rfl⟩, hb⟩
    refine ⟨hp, hv, ?_⟩
    rw [resultParts_front] at hb
    exact (congrArg (· ++ _) hrecord).symm.trans hb
  · rintro ⟨hp, hv, hb⟩
    refine ⟨hp, _, ⟨hv, rfl⟩, ?_⟩
    rw [resultParts_front]
    exact (congrArg (· ++ _) hrecord).trans hb

@[simp] theorem outcomeEncode_tidy : outcomeEncode year p.tidy = outcomeEncode year p := by
  have hvalid : valid year (disguised p.tidy.result) = valid year (disguised p.result) := by
    rw [RemoteOutcome.tidy, disguised_tidy, valid_tidy]
  have hrecord : outcomeRecord p.tidy = outcomeRecord p := by
    simp only [outcomeRecord, identity, RemoteOutcome.tidy, RemoteResult.tidy, cleared_cleared]
  ext b
  rw [outcomeEncode_eq_some, outcomeEncode_eq_some, outcomeValid_tidy, hvalid, hrecord]

theorem length_identity (v : RemoteResult) : (identity v).length = 176 := by
  simp [identity, zeros]

theorem length_front {magic : Bytes} (hmagic : magic.length = 8) (target result error : UInt32) :
    (front magic target result error).length = 24 := by
  simp [front, hmagic]

theorem outcomeRecord_slices (hb : outcomeRecord p = b) : b.length = outcomeBytes ∧ slice b 0 8 = ascii "L4ROUT01" ∧
    slice b 16 4 = put32 p.result.result ∧ slice b 20 4 = put32 p.result.error ∧
    slice b 0 resultBytes = front (ascii "L4ROUT01") p.result.target p.result.result p.result.error ++ identity p.result ∧
    slice b 200 8 = put64 p.planSequence ∧ slice b 208 32 = p.planSha256.toList ∧
    slice b 240 8 = put64 p.proofSequence ∧ slice b 248 32 = p.proofSha256.toList := by
  have hmagic : (ascii "L4ROUT01").length = 8 := by decide
  have hfront := cut_flatten [ascii "L4ROUT01", put32 1, put32 p.result.target, put32 p.result.result, put32 p.result.error]
    (identity p.result ++ (put64 p.planSequence ++ p.planSha256.toList ++ put64 p.proofSequence ++ p.proofSha256.toList))
  have hback := cut_flatten [front (ascii "L4ROUT01") p.result.target p.result.result p.result.error ++ identity p.result,
    put64 p.planSequence, p.planSha256.toList, put64 p.proofSequence, p.proofSha256.toList] []
  have hsame : [front (ascii "L4ROUT01") p.result.target p.result.result p.result.error ++ identity p.result,
      put64 p.planSequence, p.planSha256.toList, put64 p.proofSequence, p.proofSha256.toList].flatten ++ [] = b := by
    rw [← hb, outcomeRecord]
    simp
  have hsame' : [ascii "L4ROUT01", put32 1, put32 p.result.target, put32 p.result.result, put32 p.result.error].flatten ++
      (identity p.result ++ (put64 p.planSequence ++ p.planSha256.toList ++ put64 p.proofSequence ++ p.proofSha256.toList)) =
        b := by
    rw [← hb, outcomeRecord, ← List.append_assoc, front]
  rw [hsame'] at hfront
  rw [hsame] at hback
  simp only [List.map_cons, List.map_nil, hmagic, length_put32, cut, List.cons.injEq, Nat.zero_add, Nat.reduceAdd] at hfront
  simp only [List.map_cons, List.map_nil, List.length_append, length_front hmagic, length_identity, length_put64,
    Vector.length_toList, cut, List.cons.injEq, Nat.zero_add, Nat.reduceAdd] at hback
  obtain ⟨h0, -, -, h16, h20, -⟩ := hfront
  obtain ⟨hresult, h200, h208, h240, h248, -⟩ := hback
  refine ⟨?_, h0, h16, h20, hresult, h200, h208, h240, h248⟩
  rw [← hb, outcomeRecord]
  simp [length_front hmagic, length_identity, outcomeBytes]

theorem disguisedResult_error (error : UInt32) : disguisedResult (disguisedError error) = disguisedResult error := by
  unfold disguisedError
  split
  next h =>
    rw [h]
    decide
  next => rfl

theorem outcomeDecode_encode (h : outcomeEncode year p = some b) : outcomeDecode year b = some p.tidy := by
  obtain ⟨hp, hv, hb⟩ := outcomeEncode_eq_some.mp h
  obtain ⟨hlength, h0, h16, h20, hfront, h200, h208, h240, h248⟩ := outcomeRecord_slices hb
  have hmagic : (ascii "L4ROUT01").length = 8 ∧ (ascii "L4RSLT01").length = 8 := by decide
  have hresult : resultEncode year (disguised p.result) =
      some (front (ascii "L4RSLT01") p.result.target (disguisedResult p.result.error) (disguisedError p.result.error) ++
        identity p.result) := by
    rw [resultEncode_eq_some, resultParts_front, ← disguisedResult_error]
    exact ⟨hv, rfl⟩
  have hplain : ¬(b.length ≠ outcomeBytes ∨ slice b 0 8 ≠ ascii "L4ROUT01") := by
    rw [hlength, h0]
    tauto
  have hvalue : (⟨{ (disguised p.result).tidy with result := p.result.result, error := p.result.error }, p.planSequence,
      p.proofSequence, p.planSha256, p.proofSha256⟩ : RemoteOutcome) = p.tidy := by
    simp only [RemoteOutcome.tidy, RemoteResult.tidy, disguised]
  rw [outcomeDecode, if_neg hplain]
  simp only [h16, h20, hfront, h200, h208, h240, h248, get32_put32, get64_put64, copied_array,
    overwrite_front hmagic.1 hmagic.2, resultDecode_encode hresult, hvalue, outcomeEncode_tidy, h, if_true]

theorem outcomeEncode_decode (h : outcomeDecode year b = some p) : outcomeEncode year p = some b := by
  rw [outcomeDecode, Option.ite_none_left_eq_some] at h
  obtain ⟨-, h⟩ := h
  dsimp only at h
  cases hresult : resultDecode year (overwrite (overwrite (overwrite (slice b 0 resultBytes) 0 (ascii "L4RSLT01"))
      16 (put32 (disguisedResult (get32 (slice b 20 4))))) 20 (put32 (disguisedError (get32 (slice b 20 4))))) with
  | none =>
      rw [hresult] at h
      exact absurd h (by simp)
  | some result =>
      rw [hresult] at h
      obtain ⟨hcanonical, hvalue⟩ := Option.ite_none_right_eq_some.mp h
      obtain rfl := Option.some.inj hvalue
      exact hcanonical

end Outcomes

section LaunchFailures

variable {year : FileTimeToYear} {f : RemoteLaunchFailure} {b : Bytes}

def launchFailureRecord (f : RemoteLaunchFailure) : List Bytes :=
  [ascii "L4RFAL01", (resultParts f.result).flatten, put64 f.planSequence, put32 f.stage, put32 f.cleanupError, zeros 16]

theorem launchFailureEncode_eq_some : launchFailureEncode year f = some b ↔
    ¬(f.planSequence = 0 ∨ f.stage < 1 ∨ 8 < f.stage ∨ (cString f.result.resolvedVersion.toList).isEmpty = true) ∧
      valid year f.result = true ∧ (launchFailureRecord f).flatten = b := by
  rw [launchFailureEncode, Option.ite_none_left_eq_some, Option.map_eq_some_iff]
  simp only [resultEncode_eq_some]
  constructor
  · rintro ⟨hf, _, ⟨hv, rfl⟩, hb⟩
    exact ⟨hf, hv, hb⟩
  · rintro ⟨hf, hv, hb⟩
    exact ⟨hf, _, ⟨hv, rfl⟩, hb⟩

@[simp] theorem launchFailureEncode_tidy : launchFailureEncode year f.tidy = launchFailureEncode year f := by
  ext b
  rw [launchFailureEncode_eq_some, launchFailureEncode_eq_some, launchFailureRecord, launchFailureRecord,
    RemoteLaunchFailure.tidy, valid_tidy, resultParts_tidy]
  simp only [RemoteResult.tidy, cString_cleared]

theorem launchFailureDecode_encode (h : launchFailureEncode year f = some b) :
    launchFailureDecode year b = some f.tidy := by
  obtain ⟨-, hv, hb⟩ := launchFailureEncode_eq_some.mp h
  have hmagic : (ascii "L4RFAL01").length = 8 := by decide
  have hcut := cut_flatten (launchFailureRecord f) []
  rw [List.append_nil, hb] at hcut
  simp only [launchFailureRecord, List.map_cons, List.map_nil, hmagic, length_resultParts, length_put32, length_put64, cut,
    List.cons.injEq, Nat.zero_add, resultBytes, Nat.reduceAdd] at hcut
  obtain ⟨h0, h8, h208, h216, h220, -⟩ := hcut
  have hlength : b.length = launchFailureBytes := by
    rw [← hb, List.length_flatten]
    simp only [launchFailureRecord, List.map_cons, List.map_nil, hmagic, length_resultParts, length_put32, length_put64,
      zeros, List.length_replicate, List.sum_cons, List.sum_nil]
    rfl
  have hresult : resultEncode year f.result = some (resultParts f.result).flatten := resultEncode_eq_some.mpr ⟨hv, rfl⟩
  have hplain : ¬(b.length ≠ launchFailureBytes ∨ slice b 0 8 ≠ ascii "L4RFAL01") := by
    rw [hlength, h0]
    tauto
  have hvalue : (⟨f.result.tidy, f.planSequence, f.stage, f.cleanupError⟩ : RemoteLaunchFailure) = f.tidy := rfl
  rw [launchFailureDecode, if_neg hplain]
  simp only [resultBytes, h8, h208, h216, h220, get32_put32, get64_put64, resultDecode_encode hresult, hvalue,
    launchFailureEncode_tidy, h, if_true]

theorem launchFailureEncode_decode (h : launchFailureDecode year b = some f) : launchFailureEncode year f = some b := by
  rw [launchFailureDecode, Option.ite_none_left_eq_some] at h
  obtain ⟨-, h⟩ := h
  cases hresult : resultDecode year (slice b 8 resultBytes) with
  | none =>
      rw [hresult] at h
      exact absurd h (by simp)
  | some result =>
      rw [hresult] at h
      obtain ⟨hcanonical, hvalue⟩ := Option.ite_none_right_eq_some.mp h
      obtain rfl := Option.some.inj hvalue
      exact hcanonical

end LaunchFailures

end EtranProcessing.Deployment.ResultCodecs
