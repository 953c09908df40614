import EtranProcessing.Ingress.SessionTable
import EtranProcessing.Library.Segments

namespace EtranProcessing.Ingress.LegacyRecord

open State Clock JsonText Routes Stores Lifecycle Moves Settling LegacyPaths ModernPaths SessionTable Library.Segments

/-- The arguments of the restore callback. -/
structure Restored where
  sessionId : CString
  operationId : CString
  sn : CString
  deviceId : Nat
  mountpointId : Nat
  rtpPort : Int
  rtcpPort : Int
  pin : CString
  state : Int
  ttlSec : Int
  createdAt : Int
  startedAt : Int
  renewedAt : Int
  deriving DecidableEq

def bar : UInt8 := 124

def atol (s : CString) : Int :=
  match scanNumber s with
  | none => 0
  | some (negative, magnitude, _) => max (-(2 ^ 63)) (min (2 ^ 63 - 1) (signed negative magnitude))

def atoi (s : CString) : Int := Int.bmod (atol s) (2 ^ 32)

def toUint32 (s : CString) : Nat :=
  match scanNumber s with
  | none => 0
  | some (negative, magnitude, _) =>
      (if 2 ^ 64 ≤ magnitude then 2 ^ 64 - 1
        else if negative then (2 ^ 64 - magnitude) % 2 ^ 64 else magnitude) % 2 ^ 32

/-- What media_redis_restore_sessions makes of a stored value: a document of a
newer contract is left alone, anything else is split at the bars. -/
def restoreFields (text : CString) : Option Restored :=
  let val := safeStrcpy 2048 text
  if val.head? = some 123 ∨ val.head? = some 91 then none
  else
    match (val.splitOn bar).take 13 with
    | f0 :: f1 :: f2 :: f3 :: f4 :: f5 :: f6 :: f7 :: f8 :: f9 :: f10 :: f11 :: more =>
        some {
          sessionId := f0
          operationId := f1
          sn := f2
          deviceId := toUint32 f3
          mountpointId := toUint32 f4
          rtpPort := atoi f5
          rtcpPort := atoi f6
          pin := if f7 = bytes "-" then [] else f7
          state := atoi f8
          ttlSec := atoi f9
          createdAt := atol f10
          startedAt := atol f11
          renewedAt := atol (more.headD f11) }
    | _ => none

/-- What media_redis_save_session was given. -/
def saved (s : MediaSession) (renewedAt : Int) : Restored where
  sessionId := s.sessionId
  operationId := s.operationId
  sn := s.sn
  deviceId := s.deviceId
  mountpointId := s.mountpointId
  rtpPort := s.rtpPort
  rtcpPort := s.rtcpPort
  pin := s.pin
  state := s.state.code
  ttlSec := s.ttlSec
  createdAt := s.createdAt
  startedAt := s.startedAt
  renewedAt := renewedAt

def Int32 (n : Int) : Prop := -(2 ^ 31) ≤ n ∧ n < 2 ^ 31

def Int64 (n : Int) : Prop := -(2 ^ 63) ≤ n ∧ n < 2 ^ 63

/-- The values that the arguments of the save can have: named sessions with
strings from their arrays and numbers of their types. -/
structure Storable (s : MediaSession) (renewedAt : Int) : Prop where
  sessionId : s.sessionId ≠ [] ∧ s.sessionId.length < 64
  operationId : s.operationId.length < 64
  sn : s.sn.length < 128
  pin : s.pin.length < 513
  deviceId : s.deviceId < 2 ^ 32
  mountpointId : s.mountpointId < 2 ^ 32
  rtpPort : Int32 s.rtpPort
  rtcpPort : Int32 s.rtcpPort
  ttlSec : Int32 s.ttlSec
  createdAt : Int64 s.createdAt
  startedAt : Int64 s.startedAt
  renewedAt : Int64 renewedAt

/-- No text of a session can be taken for the framing of its record. -/
structure Clean (sessionId operationId sn pin : CString) : Prop where
  sessionBar : bar ∉ sessionId
  operationBar : bar ∉ operationId
  snBar : bar ∉ sn
  pinBar : bar ∉ pin
  placeholder : pin ≠ bytes "-"
  document : sessionId.head? ≠ some 123 ∧ sessionId.head? ≠ some 91

section Numbers

def digitBytes (n : Nat) : CString := (Nat.toDigits 10 n).map fun c => UInt8.ofNat c.toNat

theorem decimal_eq (n : Int) : decimal n = if n < 0 then 45 :: digitBytes n.natAbs else digitBytes n.natAbs := by
  cases n with
  | ofNat m =>
      have hnonneg : ¬ (Int.ofNat m < 0) := by simp
      rw [if_neg hnonneg, decimal, bytes, Int.toString_eq_repr]
      change (m.repr.toList.map _) = _
      rw [Nat.toList_repr]
      rfl
  | negSucc m =>
      have hneg : Int.negSucc m < 0 := Int.negSucc_lt_zero m
      rw [if_pos hneg, decimal, bytes, Int.toString_eq_repr]
      change (("-" ++ (m + 1).repr).toList.map _) = _
      rw [String.toList_append, Nat.toList_repr]
      rfl

theorem digitByte {n : Nat} {c : Char} (h : c ∈ Nat.toDigits 10 n) :
    (UInt8.ofNat c.toNat).toNat = c.toNat ∧ 48 ≤ c.toNat ∧ c.toNat ≤ 57 := by
  have hdigit := Nat.isDigit_of_mem_toDigits (by omega) (by omega) h
  simp only [Char.isDigit, Bool.and_eq_true, decide_eq_true_iff, ge_iff_le, UInt32.le_iff_toNat_le] at hdigit
  obtain ⟨hlow, hhigh⟩ := hdigit
  have hlow' : 48 ≤ c.toNat := hlow
  have hhigh' : c.toNat ≤ 57 := hhigh
  refine ⟨?_, hlow', hhigh'⟩
  rw [UInt8.toNat_ofNat']
  omega

theorem digitBytes_digit (n : Nat) : ∀ c ∈ digitBytes n, isDigit c = true := by
  intro c hc
  obtain ⟨d, hd, rfl⟩ := List.mem_map.mp hc
  obtain ⟨hbyte, hlow, hhigh⟩ := digitByte hd
  simp only [isDigit, Bool.and_eq_true, decide_eq_true_iff, UInt8.le_iff_toNat_le, hbyte]
  exact ⟨hlow, hhigh⟩

theorem digitBytes_value (n : Nat) : (digitBytes n).foldl (fun n c => n * 10 + (c.toNat - 48)) 0 = n := by
  have hfold : ∀ (l : List Char) (init : Nat), (∀ c ∈ l, c ∈ Nat.toDigits 10 n) →
      (l.map fun c => UInt8.ofNat c.toNat).foldl (fun n c => n * 10 + (c.toNat - 48)) init =
        Nat.ofDigitChars 10 l init := by
    intro l
    induction l with
    | nil => intro init _; rfl
    | cons c l ih =>
        intro init hl
        rw [List.map_cons, List.foldl_cons, (digitByte (hl c List.mem_cons_self)).1, Nat.ofDigitChars_cons,
          ih _ fun d hd => hl d (List.mem_cons_of_mem c hd), Nat.mul_comm 10 init]
        rfl
  rw [digitBytes, hfold _ 0 fun c hc => hc]
  exact Nat.ofDigitChars_ten_toDigits

theorem digitBytes_length {n k : Nat} (hk : 0 < k) (h : n < 10 ^ k) : (digitBytes n).length ≤ k := by
  rw [digitBytes, List.length_map]
  exact (Nat.length_toDigits_le_iff (by omega) hk).mpr h

theorem digitBytes_cons (n : Nat) : ∃ c rest, digitBytes n = c :: rest ∧ isDigit c = true := by
  have hpos : 0 < (digitBytes n).length := by
    rw [digitBytes, List.length_map]
    exact Nat.length_toDigits_pos
  obtain ⟨c, rest, h⟩ := List.exists_cons_of_length_pos hpos
  exact ⟨c, rest, h, digitBytes_digit n c (h ▸ List.mem_cons_self)⟩

theorem digit_plain {c : UInt8} (h : isDigit c = true) : isSpace c = false ∧ c ≠ 45 ∧ c ≠ 43 ∧ c ≠ bar := by
  simp only [isDigit, isSpace, bar] at h ⊢
  grind

theorem scanNumber_decimal (n : Int) : scanNumber (decimal n) = some (decide (n < 0), n.natAbs, []) := by
  obtain ⟨c, rest, hdigits, hc⟩ := digitBytes_cons n.natAbs
  obtain ⟨hspace, hminus, hplus, -⟩ := digit_plain hc
  have htake : (digitBytes n.natAbs).takeWhile isDigit = digitBytes n.natAbs :=
    List.takeWhile_eq_self_iff.mpr (digitBytes_digit _)
  have hdrop : (digitBytes n.natAbs).dropWhile isDigit = [] :=
    List.dropWhile_eq_nil_iff.mpr (digitBytes_digit _)
  have hne : digitBytes n.natAbs ≠ [] := by simp [hdigits]
  rw [decimal_eq]
  split
  next hneg =>
    have hblank : (45 :: digitBytes n.natAbs).dropWhile isSpace = 45 :: digitBytes n.natAbs := rfl
    simp [scanNumber, hblank, htake, hdrop, hne, hneg, digitBytes_value]
  next hneg =>
    have hblank : (digitBytes n.natAbs).dropWhile isSpace = digitBytes n.natAbs := by
      rw [hdigits, List.dropWhile_cons_of_neg (by simp [hspace])]
    have hhead : (digitBytes n.natAbs).head? = some c := by rw [hdigits]; rfl
    simp [scanNumber, hblank, hhead, hminus, hplus, htake, hdrop, hne, hneg, digitBytes_value]

theorem atol_decimal {n : Int} (h : Int64 n) : atol (decimal n) = n := by
  have hsigned : signed (decide (n < 0)) n.natAbs = n := by
    by_cases hneg : n < 0
    · simp only [signed, hneg, decide_true, if_true]
      omega
    · simp only [signed, hneg, decide_false, Bool.false_eq_true, if_false]
      omega
  obtain ⟨hlow, hhigh⟩ := h
  simp only [atol, scanNumber_decimal, hsigned]
  omega

theorem atoi_decimal {n : Int} (h : Int32 n) : atoi (decimal n) = n := by
  obtain ⟨hlow, hhigh⟩ := h
  rw [atoi, atol_decimal ⟨by omega, by omega⟩]
  apply Int.bmod_eq_of_le <;> omega

theorem toUint32_decimal {n : Nat} (h : n < 2 ^ 32) : toUint32 (decimal n) = n := by
  have hnonneg : ¬ ((n : Int) < 0) := by omega
  simp only [toUint32, scanNumber_decimal, Int.natAbs_natCast, hnonneg, decide_false, Bool.false_eq_true, if_false]
  rw [if_neg (by omega), Nat.mod_eq_of_lt h]

theorem bar_decimal (n : Int) : bar ∉ decimal n := by
  have hdigits : bar ∉ digitBytes n.natAbs := fun h => (digit_plain (digitBytes_digit _ _ h)).2.2.2 rfl
  rw [decimal_eq]
  split
  · rw [List.mem_cons, not_or]
    exact ⟨by decide, hdigits⟩
  · exact hdigits

theorem decimal_length {n : Int} {k : Nat} (hk : 0 < k) (h : n.natAbs < 10 ^ k) : (decimal n).length ≤ k + 1 := by
  have hdigits := digitBytes_length hk h
  rw [decimal_eq]
  split
  · rw [List.length_cons]
    omega
  · omega

end Numbers

section Framing

theorem restoreFields_framed {text : CString} {x : Restored} (h : restoreFields text = some x) :
    bar ∉ x.sessionId ∧ bar ∉ x.operationId ∧ bar ∉ x.sn ∧ bar ∉ x.pin ∧ x.pin ≠ bytes "-" ∧
      (safeStrcpy 2048 text).head? ≠ some 123 ∧ (safeStrcpy 2048 text).head? ≠ some 91 := by
  simp only [restoreFields] at h
  split at h
  · cases h
  next hhead =>
    rw [not_or] at hhead
    split at h
    next f0 f1 f2 f3 f4 f5 f6 f7 f8 f9 f10 f11 more hfields =>
      have hpiece : ∀ f ∈ ((safeStrcpy 2048 text).splitOn bar).take 13, bar ∉ f :=
        fun f hf => not_mem_splitOn _ f (List.mem_of_mem_take hf)
      rw [hfields] at hpiece
      have hpin : bar ∉ f7 := hpiece f7 (by simp)
      cases h
      refine ⟨hpiece f0 (by simp), hpiece f1 (by simp), hpiece f2 (by simp), ?_, ?_, hhead⟩
      · dsimp only
        split
        · exact List.not_mem_nil
        · exact hpin
      · dsimp only
        split
        · decide
        next hplaceholder => exact hplaceholder
    · cases h

def recordFields (s : MediaSession) (renewedAt : Int) : List CString :=
  [s.sessionId, s.operationId, s.sn, decimal s.deviceId, decimal s.mountpointId,
    decimal s.rtpPort, decimal s.rtcpPort, if s.pin.isEmpty then bytes "-" else s.pin,
    decimal s.state.code, decimal s.ttlSec, decimal s.createdAt, decimal s.startedAt, decimal renewedAt]

theorem legacyRecord_eq (s : MediaSession) (renewedAt : Int) :
    legacyRecord s renewedAt = safeStrcpy 2048 (List.intercalate [bar] (recordFields s renewedAt)) := rfl

variable {s : MediaSession} {renewedAt : Int}

theorem decimal_short {n : Int} (h : Int64 n) : (decimal n).length ≤ 20 := by
  obtain ⟨hlow, hhigh⟩ := h
  apply decimal_length (by omega)
  omega

theorem Int32.long {n : Int} (h : Int32 n) : Int64 n := by
  obtain ⟨hlow, hhigh⟩ := h
  exact ⟨by omega, by omega⟩

theorem word_long {n : Nat} (h : n < 2 ^ 32) : Int64 n := ⟨by omega, by omega⟩

theorem state_code (t : MediaState) : Int32 t.code := by
  cases t <;> exact ⟨by decide, by decide⟩

theorem intercalate_length (fields : List CString) :
    (List.intercalate [bar] fields).length ≤ (fields.map fun f => f.length + 1).sum := by
  induction fields with
  | nil => simp [List.intercalate]
  | cons f fields ih =>
      cases fields with
      | nil => simp [List.intercalate]
      | cons g fields =>
          rw [List.intercalate_cons_cons, List.length_append, List.length_append, List.map_cons, List.sum_cons,
            List.length_singleton]
          omega

theorem Storable.fits (h : Storable s renewedAt) :
    (List.intercalate [bar] (recordFields s renewedAt)).length < 2047 := by
  have hdevice := decimal_short (word_long h.deviceId)
  have hmountpoint := decimal_short (word_long h.mountpointId)
  have hrtp := decimal_short h.rtpPort.long
  have hrtcp := decimal_short h.rtcpPort.long
  have hstate := decimal_short (state_code s.state).long
  have httl := decimal_short h.ttlSec.long
  have hcreated := decimal_short h.createdAt
  have hstarted := decimal_short h.startedAt
  have hrenewed := decimal_short h.renewedAt
  have hpin : (if s.pin.isEmpty then bytes "-" else s.pin).length < 513 := by
    split
    · exact Nat.lt_of_lt_of_le Nat.one_lt_two (by omega)
    · exact h.pin
  have hsession := h.sessionId.2
  have hoperation := h.operationId
  have hsn := h.sn
  apply Nat.lt_of_le_of_lt (intercalate_length _)
  simp only [recordFields, List.map_cons, List.map_nil, List.sum_cons, List.sum_nil]
  omega

theorem Storable.uncut (h : Storable s renewedAt) :
    safeStrcpy 2048 (legacyRecord s renewedAt) = List.intercalate [bar] (recordFields s renewedAt) := by
  have hfits := h.fits
  have hwhole : legacyRecord s renewedAt = List.intercalate [bar] (recordFields s renewedAt) := by
    rw [legacyRecord_eq]
    exact List.take_of_length_le (by omega)
  rw [hwhole]
  exact List.take_of_length_le (by omega)

theorem Storable.head (h : Storable s renewedAt) :
    (safeStrcpy 2048 (legacyRecord s renewedAt)).head? = s.sessionId.head? := by
  obtain ⟨c, rest, hid⟩ := List.exists_cons_of_ne_nil h.sessionId.1
  rw [h.uncut, recordFields, hid]
  rfl

theorem Storable.pieces (h : Storable s renewedAt) (hclean : Clean s.sessionId s.operationId s.sn s.pin) :
    (safeStrcpy 2048 (legacyRecord s renewedAt)).splitOn bar = recordFields s renewedAt := by
  rw [h.uncut]
  apply List.splitOn_intercalate
  · intro f hf
    simp only [recordFields, List.mem_cons, List.not_mem_nil, or_false] at hf
    rcases hf with rfl | rfl | rfl | rfl | rfl | rfl | rfl | rfl | rfl | rfl | rfl | rfl | rfl
    · exact hclean.sessionBar
    · exact hclean.operationBar
    · exact hclean.snBar
    · exact bar_decimal _
    · exact bar_decimal _
    · exact bar_decimal _
    · exact bar_decimal _
    · split
      · decide
      · exact hclean.pinBar
    · exact bar_decimal _
    · exact bar_decimal _
    · exact bar_decimal _
    · exact bar_decimal _
    · exact bar_decimal _
  · exact List.cons_ne_nil _ _

theorem restore_clean (h : Storable s renewedAt) (hclean : Clean s.sessionId s.operationId s.sn s.pin) :
    restoreFields (legacyRecord s renewedAt) = some (saved s renewedAt) := by
  have hpin : (if (if s.pin.isEmpty then bytes "-" else s.pin) = bytes "-" then []
      else if s.pin.isEmpty then bytes "-" else s.pin) = s.pin := by
    cases hempty : s.pin with
    | nil => simp
    | cons c rest =>
        have hplaceholder : c :: rest ≠ bytes "-" := hempty ▸ hclean.placeholder
        rw [List.isEmpty_cons, if_neg Bool.false_ne_true, if_neg hplaceholder]
  have hdocument : ¬ (s.sessionId.head? = some 123 ∨ s.sessionId.head? = some 91) := not_or.mpr hclean.document
  simp only [restoreFields]
  rw [h.head, if_neg hdocument, h.pieces hclean]
  simp only [recordFields, List.take, List.headD_cons, hpin, toUint32_decimal h.deviceId,
    toUint32_decimal h.mountpointId, atoi_decimal h.rtpPort, atoi_decimal h.rtcpPort, atoi_decimal (state_code s.state),
    atoi_decimal h.ttlSec, atol_decimal h.createdAt, atol_decimal h.startedAt, atol_decimal h.renewedAt]
  rfl

theorem restore_iff (h : Storable s renewedAt) :
    restoreFields (legacyRecord s renewedAt) = some (saved s renewedAt) ↔
      Clean s.sessionId s.operationId s.sn s.pin := by
  constructor
  · intro hrestored
    obtain ⟨hsession, hoperation, hsn, hpin, hplaceholder, hhead⟩ := restoreFields_framed hrestored
    rw [h.head] at hhead
    exact ⟨hsession, hoperation, hsn, hpin, hplaceholder, hhead⟩
  · exact restore_clean h

end Framing

section Accepted

def Clocked (w : World) : Prop := ∀ n, Int64 (w.env.time n)

/-- A request as the start handler reads it. -/
structure Read (r : StartRequest) : Prop where
  sessionId : r.fields.sessionId ≠ [] ∧ r.fields.sessionId.length < 64
  operationId : r.fields.operationId.length < 64
  sn : r.fields.sn.length < 128
  pin : r.fields.pin.length < 64
  deviceId : r.fields.deviceId < 2 ^ 32
  rtpPort : Int32 r.fields.rtpPort
  rtcpPort : Int32 r.fields.rtcpPort
  ttlSec : Int32 r.ttlSec
  requestAt : Int64 r.requestAt

def Made (r : StartRequest) (s : MediaSession) : Prop :=
  ∃ slot rtp rtcp createdAt startedAt renewedAt, Int32 rtp ∧ Int32 rtcp ∧ Int64 createdAt ∧ Int64 startedAt ∧
    Int64 renewedAt ∧ s = activated (startRecord slot r rtp rtcp createdAt) startedAt renewedAt

variable {s : MediaSession} {r : StartRequest} {w : World}

theorem Made.texts (h : Made r s) (hr : Read r) :
    s.sessionId = r.fields.sessionId ∧ s.operationId = r.fields.operationId ∧ s.sn = r.fields.sn ∧
      s.pin = r.fields.pin := by
  obtain ⟨slot, rtp, rtcp, createdAt, startedAt, renewedAt, -, -, -, -, -, rfl⟩ := h
  have hpin := hr.pin
  refine ⟨?_, ?_, ?_, ?_⟩
  · exact safeStrcpy_of_lt hr.sessionId.2
  · exact safeStrcpy_of_lt hr.operationId
  · exact safeStrcpy_of_lt hr.sn
  · exact safeStrcpy_of_lt (by omega)

theorem Made.storable (h : Made r s) (hr : Read r) : Storable s s.renewedAt := by
  obtain ⟨hsession, hoperation, hsn, hpin⟩ := h.texts hr
  have hshort := hr.pin
  have hbounded : s.pin.length < 513 := by
    rw [hpin]
    omega
  obtain ⟨slot, rtp, rtcp, createdAt, startedAt, renewedAt, hrtp, hrtcp, hcreated, hstarted, hrenewed, rfl⟩ := h
  have hmountpoint : (if 0 < r.fields.deviceId then r.fields.deviceId else rtp.toNat) < 2 ^ 32 := by
    have hdevice := hr.deviceId
    obtain ⟨hlow, hhigh⟩ := hrtp
    split <;> omega
  exact ⟨hsession ▸ hr.sessionId, hoperation ▸ hr.operationId, hsn ▸ hr.sn, hbounded, hr.deviceId, hmountpoint, hrtp,
    hrtcp, hr.ttlSec, hcreated, hstarted, hrenewed⟩

theorem startChecked_record {i : Nat} (h : (startChecked w i).1 = ⟨201, .session s⟩) :
    s = session w i := by
  simp only [startChecked] at h
  split at h
  · cases h
  next halive =>
    cases h
    rcases (expireMediaSession_settles (advance w) i (now w)).slot i with he | he
    · exact he
    · exact absurd he.1 halive

theorem startActivate_record {i : Nat} (hi : i < w.sessions.length)
    (h : (startActivate w i r).1 = ⟨201, .session s⟩) :
    s = activated (session w i) (now w) (if r.leaseBound then r.requestAt else now w) := by
  have hs := startChecked_record h
  rw [(countStarted_quiet _).session_eq, session_setSession (advance w) i _ hi, Function.update_self] at hs
  exact hs

theorem startSlot_made {rtp rtcp : Int} (hw : Clocked w) (hr : Read r)
    (hrtp : Int32 rtp) (hrtcp : Int32 rtcp) (h : (startSlot w r rtp rtcp).1 = ⟨201, .session s⟩) : Made r s := by
  simp only [startSlot] at h
  cases hslot : allocateSessionSlot w with
  | none => simp [hslot, State.failure] at h
  | some slot =>
      obtain ⟨i, w₁⟩ := slot
      have hv := allocateSessionSlot_spec hslot
      simp only [hslot] at h
      generalize hrecord : startRecord (session w₁ i) r rtp rtcp (now w₁) = t at h
      have hq := janusMountpointEnsure_quiet (setSession (advance w₁) i t) t.mountpointId rtp rtcp r.fields.pin
      cases hjanus : janusMountpointEnsure (setSession (advance w₁) i t) t.mountpointId rtp rtcp r.fields.pin with
      | mk ensure w₂ =>
          rw [hjanus] at hq h
          cases ensure with
          | conflict => simp [State.failure] at h
          | unavailable => simp [State.failure] at h
          | ready =>
              simp only at h
              cases hup : upsertRoute w₂ r.fields.sn rtp rtcp with
              | none => simp [hup, State.failure] at h
              | some w₃ =>
                  simp only [hup] at h
                  have hupserted := upsertRoute_some hup
                  have hsessions : w₃.sessions = w₂.sessions := by rw [hupserted]
                  have hlen : i < w₃.sessions.length := by
                    rw [hsessions, hq.sessions]
                    simpa [setSession, advance] using hv.lt
                  have hstored : session w₃ i = t := by
                    rw [session, hsessions, ← session, hq.session_eq, session_setSession (advance w₁) i t hv.lt,
                      Function.update_self]
                  have henv : w₃.env = w.env := by
                    rw [hupserted]
                    exact hq.env.trans hv.env
                  have hstart : Int64 (now w₃) := by
                    rw [now, henv]
                    exact hw _
                  have hcreate : Int64 (now w₁) := by
                    rw [now, hv.env]
                    exact hw _
                  have hrenew : Int64 (if r.leaseBound then r.requestAt else now w₃) := by
                    split
                    · exact hr.requestAt
                    · exact hstart
                  have hs := startActivate_record hlen h
                  rw [hstored, ← hrecord] at hs
                  exact ⟨session w₁ i, rtp, rtcp, now w₁, _, _, hrtp, hrtcp, hcreate, hstart, hrenew, hs⟩

theorem pool_int32 {rtp rtcp : Int} (h : allocatePortPair w = some (rtp, rtcp)) : Int32 rtp ∧ Int32 rtcp := by
  have hrange := portPool_range (allocatePortPair_pool h)
  rw [(allocatePortPair_some h).1]
  exact ⟨⟨by omega, by omega⟩, by omega, by omega⟩

theorem startPorts_made (hw : Clocked w) (hr : Read r)
    (h : (startPorts w r).1 = ⟨201, .session s⟩) : Made r s := by
  simp only [startPorts] at h
  split at h
  · cases hpair : allocatePortPair w with
    | none => simp [hpair, State.failure] at h
    | some pair =>
        obtain ⟨rtp, rtcp⟩ := pair
        obtain ⟨hrtp, hrtcp⟩ := pool_int32 hpair
        rw [hpair] at h
        exact startSlot_made hw hr hrtp hrtcp h
  · exact startSlot_made hw hr hr.rtpPort hr.rtcpPort h

theorem startFresh_made (hw : Clocked w) (hr : Read r)
    (h : (startFresh w r).1 = ⟨201, .session s⟩) : Made r s := by
  have hw' : Clocked (expireOptional w (findActiveSessionForSn w r.fields.sn) r.requestAt) := by
    cases findActiveSessionForSn w r.fields.sn with
    | none => exact hw
    | some i =>
        intro n
        rw [expireOptional, (expireMediaSession_settles w i r.requestAt).env]
        exact hw n
  simp only [startFresh] at h
  split at h
  · split at h
    · simp [State.failure] at h
    · exact startPorts_made hw' hr h
  · exact startPorts_made hw' hr h

theorem startExisting_reply {i : Nat} :
    (startExisting w i r).1 ≠ ⟨201, .session s⟩ := by
  simp only [startExisting]
  split
  · simp [State.failure]
  · split <;> simp [State.failure]

theorem startLookup_made (hw : Clocked w) (hr : Read r)
    (h : (startLookup w r).1 = ⟨201, .session s⟩) : Made r s := by
  simp only [startLookup] at h
  split at h
  · exact startFresh_made hw hr h
  next i _ =>
    have hw' : Clocked (expireMediaSession w i r.requestAt) := by
      intro n
      rw [(expireMediaSession_settles w i r.requestAt).env]
      exact hw n
    split at h
    · simp [State.failure] at h
    · split at h
      · exact absurd h startExisting_reply
      · split at h
        · split at h <;> simp [State.failure] at h
        · exact startFresh_made hw' hr h

theorem jsonGetInt_int32 (json : CString) (key : String) {default : Int} (h : Int32 default) :
    Int32 (jsonGetInt json key default) := by
  simp only [jsonGetInt]
  split
  · exact h
  · exact ⟨Int.le_bmod (by omega), Int.bmod_lt (by omega)⟩

theorem jsonGetUint32_lt (json : CString) (key : String) {default : Nat} (h : default < 2 ^ 32) :
    jsonGetUint32 json key default < 2 ^ 32 := by
  simp only [jsonGetUint32]
  split
  · exact h
  · exact Nat.mod_lt _ (by omega)

theorem mediaLeaseTtl_int32 {body : CString} {t ttl n : Int} {bound : Bool} (httl : Int32 ttl)
    (h : mediaLeaseTtl body t ttl = some (n, bound)) : Int32 n := by
  simp only [mediaLeaseTtl] at h
  split at h
  · cases h
    exact httl
  · split at h
    · cases h
    · split at h
      · cases h
      · split at h
        · cases h
        · split at h
          · cases h
          next hrange =>
            cases h
            rw [not_or] at hrange
            exact ⟨by omega, by omega⟩

theorem handleMediaSessionStart_made {body : CString} (hw : Clocked w)
    (h : (handleMediaSessionStart w body).1 = ⟨201, .session s⟩) :
    ∃ r, Read r ∧ r.fields = startFields body ∧ Made r s := by
  simp only [handleMediaSessionStart] at h
  split at h
  · simp [State.failure] at h
  · split at h
    · simp [State.failure] at h
    next hnamed =>
      rw [not_or] at hnamed
      split at h
      · simp [State.failure] at h
      next ttl bound hlease =>
        have hclamped : Int32 (clampTtl (startFields body).ttlSec) := by
          simp only [clampTtl]
          exact ⟨by omega, by omega⟩
        have hr : Read ⟨startFields body, ttl, bound, now w⟩ := {
          sessionId := ⟨hnamed.1, jsonGetString_length body "session_id" 64 (by omega)⟩
          operationId := jsonGetString_length body "operation_id" 64 (by omega)
          sn := jsonGetString_length body "sn" 128 (by omega)
          pin := jsonGetString_length body "pin" 64 (by omega)
          deviceId := jsonGetUint32_lt body "device_id" (by omega)
          rtpPort := jsonGetInt_int32 body "rtp_port" ⟨by omega, by omega⟩
          rtcpPort := jsonGetInt_int32 body "rtcp_port" ⟨by omega, by omega⟩
          ttlSec := mediaLeaseTtl_int32 hclamped hlease
          requestAt := hw _ }
        exact ⟨_, hr, rfl, startLookup_made (w := advance w) hw hr h⟩

end Accepted

/-- The record of an accepted session restores to what was saved exactly if
the texts of the request keep off its framing. -/
theorem record_round_trips_iff (w : World) (body : CString) (s : MediaSession) (hclock : Clocked w)
    (hstart : (handleMediaSessionStart w body).1 = ⟨201, .session s⟩) :
    restoreFields (legacyRecord s s.renewedAt) = some (saved s s.renewedAt) ↔
      Clean (jsonGetString body "session_id" 64) (jsonGetString body "operation_id" 64) (jsonGetString body "sn" 128)
        (jsonGetString body "pin" 64) := by
  obtain ⟨r, hr, hfields, hmade⟩ := handleMediaSessionStart_made hclock hstart
  obtain ⟨hsession, hoperation, hsn, hpin⟩ := hmade.texts hr
  rw [restore_iff (hmade.storable hr), hsession, hoperation, hsn, hpin, hfields]
  rfl

def startNamed (sessionId sn : String) : CString :=
  bytes ("\x7b\"session_id\":\"" ++ sessionId ++ "\",\"sn\":\"" ++ sn ++ "\"\x7d")

def startedSession (sessionId sn : String) : MediaSession :=
  match (handleMediaSessionStart goodJanus (startNamed sessionId sn)).1.body with
  | .session s => s
  | _ => {}

theorem goodJanus_clocked : Clocked goodJanus := by
  intro n
  rw [show goodJanus.env.time n = 1000 from rfl]
  exact ⟨by omega, by omega⟩

theorem record_round_trips_door :
    restoreFields (legacyRecord (startedSession "a" "door") (startedSession "a" "door").renewedAt) =
        some (saved (startedSession "a" "door") (startedSession "a" "door").renewedAt) ↔
      Clean (jsonGetString (startNamed "a" "door") "session_id" 64)
        (jsonGetString (startNamed "a" "door") "operation_id" 64) (jsonGetString (startNamed "a" "door") "sn" 128)
        (jsonGetString (startNamed "a" "door") "pin" 64) :=
  record_round_trips_iff goodJanus (startNamed "a" "door") _ goodJanus_clocked (by decide +kernel)

/-- A device whose name holds a bar: its record comes back as another device,
with the later fields out of place. -/
theorem barred_record_shifts :
    (handleMediaSessionStart goodJanus (startNamed "a" "front|door")).1 =
        ⟨201, .session (startedSession "a" "front|door")⟩ ∧
      (restoreFields (legacyRecord (startedSession "a" "front|door") (startedSession "a" "front|door").renewedAt)).map
          (fun x => (x.sn, x.rtpPort)) =
        some (bytes "front", 6010) ∧
      (saved (startedSession "a" "front|door") (startedSession "a" "front|door").renewedAt).sn = bytes "front|door" := by
  refine ⟨?_, ?_, ?_⟩ <;> decide +kernel

end EtranProcessing.Ingress.LegacyRecord
