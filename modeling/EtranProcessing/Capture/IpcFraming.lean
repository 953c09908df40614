import EtranProcessing.Capture.IpcProtocol
import EtranProcessing.Library.Incremental

namespace EtranProcessing.Capture.IpcFraming

open Library.LittleEndian Library.Buffers Library.RawMemory Library.Incremental Limits IpcProtocol

section Fields

variable {b : Bytes} {offset : Nat}

@[simp] theorem length_store16 (v : UInt16) : (store16 v).length = 2 := length_toBytes 2 _

@[simp] theorem length_store32 (v : UInt32) : (store32 v).length = 4 := length_toBytes 4 _

@[simp] theorem length_store64 (v : UInt64) : (store64 v).length = 8 := length_toBytes 8 _

theorem readU16_eq {v : UInt16} (h : slice b offset 2 = store16 v) : readU16 b offset = v := by
  rw [readU16, h, store16, ofBytes_toBytes_of_lt v.toNat_lt, UInt16.ofNat_toNat]

theorem readU32_eq {v : UInt32} (h : slice b offset 4 = store32 v) : readU32 b offset = v := by
  rw [readU32, h, store32, ofBytes_toBytes_of_lt v.toNat_lt, UInt32.ofNat_toNat]

theorem readU64_eq {v : UInt64} (h : slice b offset 8 = store64 v) : readU64 b offset = v := by
  rw [readU64, h, store64, ofBytes_toBytes_of_lt v.toNat_lt, UInt64.ofNat_toNat]

theorem store16_readU16 (h : offset + 2 ≤ b.length) : store16 (readU16 b offset) = slice b offset 2 := by
  have hlength := length_slice h
  have hlt := ofBytes_lt (slice b offset 2)
  rw [hlength] at hlt
  rw [store16, readU16, UInt16.toNat_ofNat_of_lt' hlt, toBytes_of_length hlength]

theorem store32_readU32 (h : offset + 4 ≤ b.length) : store32 (readU32 b offset) = slice b offset 4 := by
  have hlength := length_slice h
  have hlt := ofBytes_lt (slice b offset 4)
  rw [hlength] at hlt
  rw [store32, readU32, UInt32.toNat_ofNat_of_lt' hlt, toBytes_of_length hlength]

theorem store64_readU64 (h : offset + 8 ≤ b.length) : store64 (readU64 b offset) = slice b offset 8 := by
  have hlength := length_slice h
  have hlt := ofBytes_lt (slice b offset 8)
  rw [hlength] at hlt
  rw [store64, readU64, UInt64.toNat_ofNat_of_lt' hlt, toBytes_of_length hlength]

theorem copied_toList {n : Nat} (h : b.length ≤ n) : (copied n b).toList = b ++ List.replicate (n - b.length) 0 := by
  refine List.ext_getElem (by simp [h]) fun i hi _ => ?_
  simp only [copied, Vector.getElem_toList, Vector.getElem_ofFn, List.getD_eq_getElem?_getD]
  by_cases hlt : i < b.length
  · simp [hlt]
  · simp [List.getElem_append, hlt]

theorem copied_full {n : Nat} (h : b.length = n) : (copied n b).toList = b := by
  rw [copied_toList (Nat.le_of_eq h), h, Nat.sub_self, List.replicate_zero, List.append_nil]

theorem copied_id (id : Id) : copied 16 id.toList = id :=
  Vector.toList_inj.mp (copied_full id.length_toList)

theorem copied_slice {n : Nat} (h : offset + n ≤ b.length) : (copied n (slice b offset n)).toList = slice b offset n :=
  copied_full (length_slice h)

theorem toInt_signedU32 (v : UInt32) : (signedU32 v).toInt = (v.toNat : Int).bmod (2 ^ 32) := by
  have hlt := v.toNat_lt
  unfold signedU32
  split
  · rw [Int32.toInt_ofNat']
    rfl
  · rw [Int32.toInt_ofInt]
    exact Int.sub_bmod_right ..

theorem signedU32_eq (v : UInt32) : signedU32 v = v.toInt32 := by
  apply Int32.toInt_inj.mp
  rw [toInt_signedU32]
  exact (BitVec.toInt_eq_toNat_bmod v.toBitVec).symm

theorem signedU32_toUInt32 (v : Int32) : signedU32 v.toUInt32 = v := by
  rw [signedU32_eq]
  rfl

theorem toUInt32_signedU32 (v : UInt32) : (signedU32 v).toUInt32 = v := by
  rw [signedU32_eq]
  rfl

end Fields

section Payloads

def Same : Body → Body → Prop
  | .error code len text, body => ∃ text', body = .error code len text' ∧ errorText len text' = errorText len text
  | body, body' => body' = body

variable {body : Body} {n : Nat}

theorem length_errorText {len : UInt16} (text : Vector UInt8 errorTextMax) (h : len.toNat ≤ errorTextMax) :
    (errorText len text).length = len.toNat := by
  rw [errorText, List.length_take, Vector.length_toList]
  exact Nat.min_eq_left h

theorem errorText_copied {len : UInt16} {b : Bytes} (hlen : b.length = len.toNat) (hfits : len.toNat ≤ errorTextMax) :
    errorText len (copied errorTextMax b) = b := by
  rw [errorText, copied_toList (hlen ▸ hfits), ← hlen, List.take_left]

theorem length_fields (h : payloadLength body = some n) :
    (fields body).flatten.length = n ∧ validLength body.type n = true := by
  cases body with
  | error code len text =>
      simp only [payloadLength] at h
      split_ifs at h with hbad
      obtain rfl := Option.some.inj h
      have hfits : len.toNat ≤ errorTextMax := by
        simp only [not_or, not_lt] at hbad
        exact hbad.1
      have hlength : (fields (.error code len text)).flatten.length = 6 + len.toNat := by
        simp [fields, length_errorText text hfits]
        omega
      have hpayload : 6 + len.toNat ≤ ipcMaxPayload := by
        unfold errorTextMax ipcMaxPayload at hfits
        unfold ipcMaxPayload
        omega
      have hvalid : validLength eventError (6 + len.toNat) = (decide (6 ≤ 6 + len.toNat) && decide (6 + len.toNat ≤ ipcMaxPayload)) := rfl
      refine ⟨hlength, hvalid.trans ?_⟩
      simp [hpayload]
  | unknown type => cases h
  | _ =>
      obtain rfl := Option.some.inj h
      exact ⟨by simp [fields], rfl⟩

theorem decodeBody_fields (h : payloadLength body = some n) :
    ∃ body', decodeBody body.type n (fields body).flatten = .ok body' ∧ Same body body' := by
  have hcut := cut_flatten (fields body) []
  rw [List.append_nil] at hcut
  cases body with
  | start s =>
      refine ⟨.start s, ?_, rfl⟩
      generalize (fields (.start s)).flatten = p at hcut
      simp only [fields, List.map_cons, List.map_nil, Vector.length_toList, length_store16, length_store32, length_store64, cut,
        List.cons.injEq, Nat.zero_add, Nat.reduceAdd] at hcut
      obtain ⟨h0, h16, h32, h36, h40, h44, h48, h56, h58, h60, h62, -⟩ := hcut
      simp only [decodeBody, Body.type, if_pos, h0, h16, copied_id, readU32_eq h32, readU32_eq h36, readU32_eq h40,
        readU32_eq h44, readU64_eq h48, readU16_eq h56, readU16_eq h58, readU16_eq h60, readU64_eq h62, signedU32_toUInt32]
  | renewLease leaseId deadline =>
      refine ⟨.renewLease leaseId deadline, ?_, rfl⟩
      generalize (fields (.renewLease leaseId deadline)).flatten = p at hcut
      simp only [fields, List.map_cons, List.map_nil, Vector.length_toList, length_store64, cut, List.cons.injEq, Nat.zero_add] at hcut
      obtain ⟨h0, h16, -⟩ := hcut
      have hne : cmdRenewLease ≠ cmdStart := by decide
      simp only [decodeBody, Body.type, if_neg hne, if_pos, h0, copied_id, readU64_eq h16]
  | stop id =>
      refine ⟨.stop id, ?_, rfl⟩
      generalize (fields (.stop id)).flatten = p at hcut
      simp only [fields, List.map_cons, List.map_nil, Vector.length_toList, cut, List.cons.injEq] at hcut
      obtain ⟨h0, -⟩ := hcut
      simp [decodeBody, Body.type, cmdStop, cmdStart, cmdRenewLease, h0, copied_id]
  | forceIdr id =>
      refine ⟨.forceIdr id, ?_, rfl⟩
      generalize (fields (.forceIdr id)).flatten = p at hcut
      simp only [fields, List.map_cons, List.map_nil, Vector.length_toList, cut, List.cons.injEq] at hcut
      obtain ⟨h0, -⟩ := hcut
      simp [decodeBody, Body.type, cmdForceIdr, cmdStop, cmdStart, cmdRenewLease, h0, copied_id]
  | ready r =>
      refine ⟨.ready r, ?_, rfl⟩
      generalize (fields (.ready r)).flatten = p at hcut
      simp only [fields, List.map_cons, List.map_nil, Vector.length_toList, length_store16, length_store32, cut, List.cons.injEq,
        Nat.zero_add, Nat.reduceAdd] at hcut
      obtain ⟨h0, h16, h20, h24, h26, h28, -⟩ := hcut
      simp [decodeBody, Body.type, eventReady, cmdForceIdr, cmdStop, cmdStart, cmdRenewLease, h0, copied_id, readU32_eq h16,
        readU32_eq h20, readU16_eq h24, readU16_eq h26, readU16_eq h28]
  | metrics m =>
      refine ⟨.metrics m, ?_, rfl⟩
      generalize (fields (.metrics m)).flatten = p at hcut
      simp only [fields, List.map_cons, List.map_nil, length_store16, length_store32, cut, List.cons.injEq, Nat.zero_add,
        Nat.reduceAdd] at hcut
      obtain ⟨h0, h2, h6, h10, h14, h18, h20, h22, h26, -⟩ := hcut
      simp [decodeBody, Body.type, eventMetrics, eventReady, cmdForceIdr, cmdStop, cmdStart, cmdRenewLease, readU16_eq h0,
        readU32_eq h2, readU32_eq h6, readU32_eq h10, readU32_eq h14, readU16_eq h18, readU16_eq h20, readU32_eq h22,
        readU32_eq h26]
  | degraded state reason =>
      refine ⟨.degraded state reason, ?_, rfl⟩
      generalize (fields (.degraded state reason)).flatten = p at hcut
      simp only [fields, List.map_cons, List.map_nil, length_store16, cut, List.cons.injEq, Nat.zero_add] at hcut
      obtain ⟨h0, h2, -⟩ := hcut
      simp [decodeBody, Body.type, eventDegraded, eventMetrics, eventReady, cmdForceIdr, cmdStop, cmdStart, cmdRenewLease,
        readU16_eq h0, readU16_eq h2]
  | error code len text =>
      simp only [payloadLength] at h
      split_ifs at h with hbad
      obtain rfl := Option.some.inj h
      simp only [not_or, not_lt, Bool.not_eq_false] at hbad
      obtain ⟨hfits, hutf8⟩ := hbad
      have hlength := length_errorText text hfits
      refine ⟨.error code len (copied errorTextMax (errorText len text)), ?_, _, rfl, errorText_copied hlength hfits⟩
      generalize (fields (.error code len text)).flatten = p at hcut
      simp only [fields, List.map_cons, List.map_nil, length_store16, length_store32, hlength, cut, List.cons.injEq, Nat.zero_add,
        Nat.reduceAdd] at hcut
      obtain ⟨h0, h4, h6, -⟩ := hcut
      simp [decodeBody, Body.type, eventError, eventDegraded, eventMetrics, eventReady, cmdForceIdr, cmdStop, cmdStart,
        cmdRenewLease, readU32_eq h0, readU16_eq h4, h6, hutf8]
  | unknown type => cases h

theorem fields_decodeBody {type : UInt16} {p : Bytes} (hdecode : decodeBody type n p = .ok body) (hlength : p.length = n)
    (hvalid : validLength type n = true) : payloadLength body = some n ∧ body.type = type ∧ (fields body).flatten = p := by
  unfold decodeBody at hdecode
  split_ifs at hdecode with hstart hrenew hstop hidr hready hmetrics hdegraded herror
  · subst hstart
    obtain rfl : n = 70 := eq_of_beq hvalid
    obtain rfl := Except.ok.inj hdecode
    refine ⟨rfl, rfl, ?_⟩
    simp only [fields, toUInt32_signedU32]
    rw [copied_slice (by omega), copied_slice (by omega), store32_readU32 (by omega), store32_readU32 (by omega),
      store32_readU32 (by omega), store32_readU32 (by omega), store64_readU64 (by omega), store16_readU16 (by omega),
      store16_readU16 (by omega), store16_readU16 (by omega), store64_readU64 (by omega)]
    exact flatten_cut_all (show [16, 16, 4, 4, 4, 4, 8, 2, 2, 2, 8].sum = p.length from hlength.symm)
  · subst hrenew
    obtain rfl : n = 24 := eq_of_beq hvalid
    obtain rfl := Except.ok.inj hdecode
    refine ⟨rfl, rfl, ?_⟩
    rw [fields, copied_slice (by omega), store64_readU64 (by omega)]
    exact flatten_cut_all (show [16, 8].sum = p.length from hlength.symm)
  · subst hstop
    obtain rfl : n = 16 := eq_of_beq hvalid
    obtain rfl := Except.ok.inj hdecode
    refine ⟨rfl, rfl, ?_⟩
    rw [fields, copied_slice (by omega)]
    exact flatten_cut_all (show [16].sum = p.length from hlength.symm)
  · subst hidr
    obtain rfl : n = 16 := eq_of_beq hvalid
    obtain rfl := Except.ok.inj hdecode
    refine ⟨rfl, rfl, ?_⟩
    rw [fields, copied_slice (by omega)]
    exact flatten_cut_all (show [16].sum = p.length from hlength.symm)
  · subst hready
    obtain rfl : n = 30 := eq_of_beq hvalid
    obtain rfl := Except.ok.inj hdecode
    refine ⟨rfl, rfl, ?_⟩
    simp only [fields]
    rw [copied_slice (by omega), store32_readU32 (by omega), store32_readU32 (by omega), store16_readU16 (by omega),
      store16_readU16 (by omega), store16_readU16 (by omega)]
    exact flatten_cut_all (show [16, 4, 4, 2, 2, 2].sum = p.length from hlength.symm)
  · subst hmetrics
    obtain rfl : n = 30 := eq_of_beq hvalid
    obtain rfl := Except.ok.inj hdecode
    refine ⟨rfl, rfl, ?_⟩
    simp only [fields]
    rw [store16_readU16 (by omega), store32_readU32 (by omega), store32_readU32 (by omega), store32_readU32 (by omega),
      store32_readU32 (by omega), store16_readU16 (by omega), store16_readU16 (by omega), store32_readU32 (by omega),
      store32_readU32 (by omega)]
    exact flatten_cut_all (show [2, 4, 4, 4, 4, 2, 2, 4, 4].sum = p.length from hlength.symm)
  · subst hdegraded
    obtain rfl : n = 4 := eq_of_beq hvalid
    obtain rfl := Except.ok.inj hdecode
    refine ⟨rfl, rfl, ?_⟩
    simp only [fields]
    rw [store16_readU16 (by omega), store16_readU16 (by omega)]
    exact flatten_cut_all (show [2, 2].sum = p.length from hlength.symm)
  · subst herror
    have hrange : 6 ≤ n ∧ n ≤ ipcMaxPayload := by
      have hvalid' : (decide (6 ≤ n) && decide (n ≤ ipcMaxPayload)) = true := hvalid
      simpa using hvalid'
    simp only at hdecode
    split_ifs at hdecode with hbad
    obtain rfl := Except.ok.inj hdecode
    simp only [not_or, not_not, Bool.not_eq_false] at hbad
    obtain ⟨hlen, hutf8⟩ := hbad
    have hfits : (readU16 p 4).toNat ≤ errorTextMax := by
      rw [hlen]
      exact Nat.sub_le_sub_right hrange.2 6
    have htext : (slice p 6 (n - 6)).length = (readU16 p 4).toNat := by rw [length_slice (by omega), hlen]
    have hcopied := errorText_copied htext hfits
    refine ⟨?_, rfl, ?_⟩
    · simp only [payloadLength, hcopied]
      rw [if_neg (by simp [hutf8, Nat.not_lt.mpr hfits]), hlen]
      congr 1
      omega
    · simp only [fields, hcopied]
      rw [store32_readU32 (by omega), store16_readU16 (by omega)]
      exact flatten_cut_all (show [4, 2, n - 6].sum = p.length by simp; omega)

end Payloads

section Frames

variable {m : Message} {frame : Bytes} {capacity : Nat}

theorem length_header (type : UInt16) (length : Nat) (requestSeq : UInt64) : (header type length requestSeq).length = ipcHeaderSize := by
  simp [header, ipcHeaderSize]

theorem header_read (type : UInt16) {length : Nat} (requestSeq : UInt64) (hlength : length < 2 ^ 32) (rest : Bytes) :
    readU16 (header type length requestSeq ++ rest) 0 = ipcVersion ∧ readU16 (header type length requestSeq ++ rest) 2 = type ∧
      (readU32 (header type length requestSeq ++ rest) 4).toNat = length ∧
      readU64 (header type length requestSeq ++ rest) 8 = requestSeq := by
  have hparts : header type length requestSeq ++ rest =
      [store16 ipcVersion, store16 type, toBytes 4 length, store64 requestSeq].flatten ++ rest := by
    simp [header]
  have hcut := cut_flatten [store16 ipcVersion, store16 type, toBytes 4 length, store64 requestSeq] rest
  rw [← hparts] at hcut
  simp only [List.map_cons, List.map_nil, length_store16, length_store64, length_toBytes, cut, List.cons.injEq, Nat.zero_add,
    Nat.reduceAdd] at hcut
  obtain ⟨h0, h2, h4, h8, -⟩ := hcut
  have hword : slice (header type length requestSeq ++ rest) 4 4 = store32 (UInt32.ofNat length) := by
    rw [h4, store32, UInt32.toNat_ofNat_of_lt' hlength]
  exact ⟨readU16_eq h0, readU16_eq h2, by rw [readU32_eq hword, UInt32.toNat_ofNat_of_lt' hlength], readU64_eq h8⟩

theorem validLength_bounds {type : UInt16} {n : Nat} (h : validLength type n = true) : 0 < n ∧ n ≤ ipcMaxPayload := by
  unfold validLength at h
  unfold ipcMaxPayload at *
  split_ifs at h <;> simp at h <;> omega

theorem payloadLength_le {body : Body} {n : Nat} (h : payloadLength body = some n) : n ≤ ipcMaxPayload :=
  (validLength_bounds (length_fields h).2).2

theorem encode_eq_ok : ipcEncode m capacity = .ok frame ↔ ∃ n, payloadLength m.body = some n ∧ ipcHeaderSize + n ≤ capacity ∧
    frame = header m.body.type n m.requestSeq ++ (fields m.body).flatten := by
  unfold ipcEncode
  cases payloadLength m.body with
  | none => simp
  | some n =>
      by_cases hroom : capacity < ipcHeaderSize + n
      · simp [hroom]
      · simp [hroom, Nat.le_of_not_lt hroom, eq_comm]

theorem Same.type {body body' : Body} (h : Same body body') : body'.type = body.type := by
  cases body with
  | error =>
      obtain ⟨text', rfl, -⟩ := h
      rfl
  | _ => rw [h]

theorem decode_encode (h : ipcEncode m capacity = .ok frame) :
    ∃ body, ipcDecode frame = .ok ⟨m.requestSeq, body⟩ ∧ Same m.body body := by
  obtain ⟨n, hn, -, rfl⟩ := encode_eq_ok.mp h
  have hsmall : n < 2 ^ 32 := Nat.lt_of_le_of_lt (payloadLength_le hn) (by decide)
  obtain ⟨hversion, htype, hlength, hseq⟩ := header_read m.body.type m.requestSeq hsmall (fields m.body).flatten
  obtain ⟨hfields, hvalid⟩ := length_fields hn
  obtain ⟨body, hbody, hsame⟩ := decodeBody_fields hn
  refine ⟨body, ?_, hsame⟩
  have hframe : (header m.body.type n m.requestSeq ++ (fields m.body).flatten).length = ipcHeaderSize + n := by
    rw [List.length_append, length_header, hfields]
  have hpayload : (header m.body.type n m.requestSeq ++ (fields m.body).flatten).drop ipcHeaderSize = (fields m.body).flatten :=
    List.drop_left' (length_header _ _ _)
  unfold ipcDecode
  rw [if_neg (by simp [hversion, hframe])]
  simp only [htype, hlength, hseq, hpayload, hbody]
  rw [if_neg (by simp [hvalid, hframe])]
  rfl

theorem decodeBody_error {type : UInt16} {n : Nat} {p : Bytes} {status : Status} (h : decodeBody type n p = .error status) :
    status = .protocol := by
  simp only [decodeBody] at h
  split_ifs at h <;> exact (Except.error.inj h).symm

theorem decode_error {status : Status} (h : ipcDecode frame = .error status) : status = .protocol := by
  simp only [ipcDecode] at h
  split_ifs at h
  · exact (Except.error.inj h).symm
  · exact (Except.error.inj h).symm
  · cases hbody : decodeBody (readU16 frame 2) (readU32 frame 4).toNat (frame.drop ipcHeaderSize) with
    | error status' =>
        rw [hbody] at h
        rw [← decodeBody_error hbody]
        exact (Except.error.inj h).symm
    | ok body =>
        rw [hbody] at h
        cases h

theorem decode_eq_ok (h : ipcDecode frame = .ok m) : ∃ n, frame.length = ipcHeaderSize + n ∧ readU16 frame 0 = ipcVersion ∧
    (readU32 frame 4).toNat = n ∧ validLength (readU16 frame 2) n = true ∧ readU64 frame 8 = m.requestSeq ∧
    decodeBody (readU16 frame 2) n (frame.drop ipcHeaderSize) = .ok m.body := by
  unfold ipcDecode at h
  split_ifs at h with hshort
  simp only at h
  split_ifs at h with hbad
  simp only [not_or, not_not, not_lt, Bool.not_eq_false] at hshort hbad
  cases hbody : decodeBody (readU16 frame 2) (readU32 frame 4).toNat (frame.drop ipcHeaderSize) with
  | error status =>
      rw [hbody] at h
      cases h
  | ok body =>
      rw [hbody] at h
      obtain rfl := Except.ok.inj h
      exact ⟨_, hbad.2, hshort.2, rfl, hbad.1, rfl, hbody⟩

theorem header_eq {n : Nat} (hlength : ipcHeaderSize ≤ frame.length) (hversion : readU16 frame 0 = ipcVersion)
    (hn : (readU32 frame 4).toNat = n) : header (readU16 frame 2) n (readU64 frame 8) = frame.take ipcHeaderSize := by
  unfold ipcHeaderSize at *
  have hword : toBytes 4 n = slice frame 4 4 := by rw [← hn, ← store32_readU32 (by omega)]; rfl
  rw [header, ← hversion, hword, store16_readU16 (by omega), store16_readU16 (by omega), store64_readU64 (by omega)]
  have hcut := flatten_cut frame [2, 2, 4, 8] 0
  simpa [cut, slice_zero] using hcut

theorem encode_decode (h : ipcDecode frame = .ok m) (hroom : frame.length ≤ capacity) : ipcEncode m capacity = .ok frame := by
  obtain ⟨n, hlength, hversion, hn, hvalid, hseq, hbody⟩ := decode_eq_ok h
  obtain ⟨hpayload, htype, hfields⟩ := fields_decodeBody hbody (by rw [List.length_drop, hlength, Nat.add_sub_cancel_left]) hvalid
  refine encode_eq_ok.mpr ⟨n, hpayload, hlength ▸ hroom, ?_⟩
  rw [htype, ← hseq, header_eq (by omega) hversion hn, hfields, List.take_append_drop]

end Frames

section Streams

def frameSize (stream : Bytes) : Option Nat :=
  if readU16 stream 0 ≠ ipcVersion || !validLength (readU16 stream 2) (readU32 stream 4).toNat then none
  else some (ipcHeaderSize + (readU32 stream 4).toNat)

/-- A stream decoded frame by frame. -/
def nextFrame (_ : Unit) (stream : Bytes) : Parsed Unit Message UInt8 :=
  if stream.length < ipcHeaderSize then .wait
  else
    match frameSize stream with
    | none => .reject
    | some size =>
        if stream.length < size then .wait
        else
          match ipcDecode (stream.take size) with
          | .ok m => .token m () (stream.drop size)
          | .error _ => .reject

variable {stream : Bytes} {size : Nat}

theorem readU16_append {offset : Nat} (h : offset + 2 ≤ stream.length) (more : Bytes) :
    readU16 (stream ++ more) offset = readU16 stream offset := by
  rw [readU16, readU16, slice_append h]

theorem readU32_append {offset : Nat} (h : offset + 4 ≤ stream.length) (more : Bytes) :
    readU32 (stream ++ more) offset = readU32 stream offset := by
  rw [readU32, readU32, slice_append h]

theorem frameSize_append (h : ipcHeaderSize ≤ stream.length) (more : Bytes) : frameSize (stream ++ more) = frameSize stream := by
  unfold ipcHeaderSize at h
  rw [frameSize, frameSize, readU16_append (by omega), readU16_append (by omega), readU32_append (by omega)]

theorem frameSize_bounds (h : frameSize stream = some size) : ipcHeaderSize < size ∧ size ≤ ipcMaxFrame := by
  unfold frameSize at h
  split_ifs at h with hbad
  obtain rfl := Option.some.inj h
  simp only [Bool.or_eq_true, decide_eq_true_eq, Bool.not_eq_eq_eq_not, Bool.not_true, not_or, Bool.not_eq_false] at hbad
  obtain ⟨hpos, hle⟩ := validLength_bounds hbad.2
  exact ⟨Nat.lt_add_of_pos_right hpos, Nat.add_le_add_left hle _⟩

theorem nextFrame_prefixed : Prefixed nextFrame where
  empty _ := by simp [nextFrame, ipcHeaderSize]
  shrinks := by
    intro s buf m s' rest h
    unfold nextFrame at h
    split_ifs at h with hshort
    split at h
    · cases h
    · next size hsize =>
        have hbounds := frameSize_bounds hsize
        split_ifs at h with hpart
        split at h
        · cases h
          rw [List.length_drop]
          omega
        · cases h
  token := by
    intro s buf m s' rest more h
    unfold nextFrame at h ⊢
    split_ifs at h with hshort
    rw [if_neg (by rw [List.length_append]; omega), frameSize_append (by omega)]
    split at h
    · cases h
    · next size hsize =>
        split_ifs at h with hpart
        rw [if_neg (by rw [List.length_append]; omega), List.take_append_of_le_length (by omega),
          List.drop_append_of_le_length (by omega)]
        split at h
        · cases h
          rfl
        · cases h
  reject := by
    intro s buf more h
    unfold nextFrame at h ⊢
    split_ifs at h with hshort
    rw [if_neg (by rw [List.length_append]; omega), frameSize_append (by omega)]
    split at h
    · rfl
    · next size hsize =>
        split_ifs at h with hpart
        rw [if_neg (by rw [List.length_append]; omega), List.take_append_of_le_length (by omega)]
        split at h
        · cases h
        · rfl

end Streams

section Parsing

/-- A parser in the middle of a frame, with the bytes of it that it has taken in. -/
structure Waiting (parser : Parser) (before : Bytes) : Prop where
  size : parser.bytes.length = ipcMaxFrame
  kept : slice parser.bytes 0 parser.used = before
  sound : parser.failed = false
  room : parser.used < parser.expected
  fits : parser.expected ≤ ipcMaxFrame
  expects : if parser.used < ipcHeaderSize then parser.expected = ipcHeaderSize else frameSize before = some parser.expected

/-- What a call does with the rest of a chunk. -/
def Feeds (before chunk : Bytes) (consumed : Nat) (fed : Fed) : Prop :=
  fed.parser.bytes.length = ipcMaxFrame ∧
  match nextFrame () (before ++ chunk.drop consumed) with
  | .wait =>
      fed.status = .ok ∧ fed.message = none ∧ fed.consumed = chunk.length ∧ Waiting fed.parser (before ++ chunk.drop consumed)
  | .token m _ rest =>
      fed.status = .ok ∧ fed.message = some m ∧ consumed < fed.consumed ∧ chunk.drop fed.consumed = rest ∧ Waiting fed.parser []
  | .reject => fed.status ≠ .ok ∧ fed.message = none ∧ fed.parser.failed = true

variable {parser : Parser} {before chunk : Bytes} {consumed : Nat}

theorem Waiting.length (h : Waiting parser before) : before.length = parser.used := by
  rw [← h.kept]
  exact length_slice (by have := h.room; have := h.fits; have := h.size; omega)

theorem waiting_init : Waiting parserInit [] :=
  ⟨by simp [parserInit], rfl, rfl, by decide, by decide, rfl⟩

theorem waiting_ready {bytes : Bytes} (h : bytes.length = ipcMaxFrame) : Waiting ⟨bytes, 0, ipcHeaderSize, false⟩ [] :=
  ⟨h, rfl, rfl, Nat.succ_pos _, Nat.le_add_right _ _, rfl⟩

theorem nextFrame_wait {stream : Bytes} (h : if stream.length < ipcHeaderSize then True else
    ∃ size, frameSize stream = some size ∧ stream.length < size) : nextFrame () stream = .wait := by
  unfold nextFrame
  split
  · rfl
  · next hlong =>
      rw [if_neg hlong] at h
      obtain ⟨size, hsize, hshort⟩ := h
      simp only [hsize, if_pos hshort]

theorem Waiting.wait (h : Waiting parser before) : nextFrame () before = .wait := by
  have hexpects := h.expects
  refine nextFrame_wait ?_
  rw [h.length]
  split
  · trivial
  · next hlong =>
      rw [if_neg hlong] at hexpects
      exact ⟨_, hexpects, h.room⟩

theorem headerRefused_eq {stream : Bytes} (h : slice parser.bytes 0 parser.used = stream) (hused : ipcHeaderSize ≤ parser.used) :
    frameSize stream = if parser.headerRefused = true then none else some (ipcHeaderSize + (readU32 parser.bytes 4).toNat) := by
  unfold ipcHeaderSize at hused
  rw [frameSize, Parser.headerRefused, ← h, readU16, readU16, readU32, slice_front (by omega), slice_front (by omega),
    slice_front (by omega)]
  rfl

/-- A parser after a copy. -/
structure Copied (parser : Parser) (stream : Bytes) : Prop where
  size : parser.bytes.length = ipcMaxFrame
  kept : slice parser.bytes 0 parser.used = stream
  sound : parser.failed = false
  length : stream.length = parser.used
  room : parser.used ≤ parser.expected
  fits : parser.expected ≤ ipcMaxFrame
  expects : parser.expected = ipcHeaderSize ∨ ipcHeaderSize ≤ parser.used ∧ frameSize stream = some parser.expected

theorem Waiting.copy (h : Waiting parser before) {part : Bytes} (hpart : parser.used + part.length ≤ parser.expected) :
    writeAt parser.bytes parser.used part = .done (overwrite parser.bytes parser.used part) ∧
      Copied { parser with bytes := overwrite parser.bytes parser.used part, used := parser.used + part.length } (before ++ part) := by
  have hlength := h.length
  have hfits := h.fits
  have hsize := h.size
  have hexpects := h.expects
  refine ⟨if_pos (by omega), (length_overwrite (by omega)).trans hsize, ?_, h.sound, by rw [List.length_append, hlength], hpart, hfits, ?_⟩
  · rw [slice_overwrite_front (by omega), h.kept]
  · by_cases hshort : parser.used < ipcHeaderSize
    · rw [if_pos hshort] at hexpects
      exact .inl hexpects
    · rw [if_neg hshort] at hexpects
      refine .inr ⟨by simp only; omega, ?_⟩
      rw [frameSize_append (by omega), hexpects]

theorem nextFrame_refused {stream : Bytes} (hlong : ipcHeaderSize ≤ stream.length) (hsize : frameSize stream = none) :
    nextFrame () stream = .reject := by
  unfold nextFrame
  rw [if_neg (Nat.not_lt.mpr hlong), hsize]

theorem nextFrame_whole {stream : Bytes} (hsize : frameSize stream = some stream.length) :
    nextFrame () stream =
      match ipcDecode stream with
      | .ok m => .token m () []
      | .error _ => .reject := by
  have hbounds := frameSize_bounds hsize
  unfold nextFrame
  simp only [if_neg (Nat.not_lt.mpr hbounds.1.le), hsize, lt_irrefl, if_false, List.take_length, List.drop_length]

theorem afterCopy_cases {stream : Bytes} (h : Copied parser stream) (more : Bytes) :
    match afterCopy parser consumed with
    | .inl fed => fed.consumed = consumed ∧ fed.parser.bytes.length = ipcMaxFrame ∧
        match fed.message with
        | some m => fed.status = .ok ∧ nextFrame () (stream ++ more) = .token m () more ∧ Waiting fed.parser []
        | none => fed.status ≠ .ok ∧ nextFrame () (stream ++ more) = .reject ∧ fed.parser.failed = true
    | .inr parser' => Waiting parser' stream := by
  have hlength := h.length
  have hroom := h.room
  unfold afterCopy
  by_cases hheader : parser.used = ipcHeaderSize ∧ parser.expected = ipcHeaderSize
  · have hrefused := headerRefused_eq h.kept hheader.1.ge
    have hlong : ipcHeaderSize ≤ stream.length := by omega
    by_cases hbad : parser.headerRefused = true
    · rw [if_pos ⟨hheader.1, hheader.2, hbad⟩]
      rw [if_pos hbad] at hrefused
      exact ⟨rfl, h.size, Status.noConfusion, nextFrame_prefixed.reject more (nextFrame_refused hlong hrefused), rfl⟩
    · rw [if_neg fun hall => hbad hall.2.2]
      rw [if_neg hbad] at hrefused
      have hbounds := frameSize_bounds hrefused
      -- a payload is never empty, so a header alone is not a frame
      simp only [if_pos hheader]
      rw [if_neg (by omega)]
      refine ⟨h.size, h.kept, h.sound, by simp only; omega, by simp only; omega, ?_⟩
      simp only [if_neg (Nat.not_lt.mpr hheader.1.ge), hrefused, hheader.2]
  · rw [if_neg fun hall => hheader ⟨hall.1, hall.2.1⟩]
    simp only [if_neg hheader]
    by_cases hwhole : parser.used = parser.expected
    · rw [if_pos hwhole]
      have hsize : frameSize stream = some stream.length := by
        rcases h.expects with hstart | ⟨-, hsize⟩
        · exact absurd ⟨hwhole.trans hstart, hstart⟩ hheader
        · rw [hsize, hlength, hwhole]
      have hframe := nextFrame_whole hsize
      rw [h.kept]
      cases hdecode : ipcDecode stream with
      | error status =>
          rw [hdecode] at hframe
          refine ⟨rfl, h.size, ?_, nextFrame_prefixed.reject more hframe, rfl⟩
          rw [decode_error hdecode]
          exact Status.noConfusion
      | ok m =>
          rw [hdecode] at hframe
          have hready : Waiting { parser with used := 0, expected := ipcHeaderSize } [] := by
            have hwaits := waiting_ready h.size
            rw [← h.sound] at hwaits
            exact hwaits
          exact ⟨rfl, h.size, rfl, nextFrame_prefixed.token more hframe, hready⟩
    · rw [if_neg hwhole]
      have hless : parser.used < parser.expected := Nat.lt_of_le_of_ne hroom hwhole
      refine ⟨h.size, h.kept, h.sound, hless, h.fits, ?_⟩
      rcases h.expects with hstart | ⟨hlong, hsize⟩
      · rw [if_pos (hstart ▸ hless)]
        exact hstart
      · rw [if_neg (Nat.not_lt.mpr hlong)]
        exact hsize

theorem Feeds.of_part {before part : Bytes} {consumed : Nat} {fed : Fed} (hpart : before ++ chunk.drop consumed =
    part ++ chunk.drop (consumed + n)) (h : Feeds part chunk (consumed + n) fed) : Feeds before chunk consumed fed := by
  obtain ⟨hsize, h⟩ := h
  refine ⟨hsize, ?_⟩
  rw [hpart]
  split at h
  · exact h
  · exact ⟨h.1, h.2.1, Nat.lt_of_le_of_lt (Nat.le_add_right _ _) h.2.2.1, h.2.2.2⟩
  · exact h

theorem feedLoop_feeds (fuel : Nat) (h : Waiting parser before) (hconsumed : consumed ≤ chunk.length)
    (hfuel : chunk.length - consumed < fuel) :
    ∃ fed, feedLoop chunk fuel parser consumed = .done fed ∧ Feeds before chunk consumed fed := by
  induction fuel generalizing parser before consumed with
  | zero => omega
  | succ fuel ih =>
      have hroom := h.room
      by_cases hmore : consumed < chunk.length
      · obtain ⟨take, htake⟩ : ∃ take, take = min (parser.expected - parser.used) (chunk.length - consumed) := ⟨_, rfl⟩
        have hpart : (slice chunk consumed take).length = take := length_slice (by omega)
        have hpos : 0 < take := by omega
        obtain ⟨hwrite, hcopied⟩ := h.copy (show parser.used + (slice chunk consumed take).length ≤ parser.expected by omega)
        have hminus : minus parser.expected parser.used = .done (parser.expected - parser.used) := if_pos hroom.le
        have hstream : before ++ chunk.drop consumed = before ++ slice chunk consumed take ++ chunk.drop (consumed + take) := by
          rw [List.append_assoc, slice, ← List.drop_drop, List.take_append_drop]
        rw [hpart] at hcopied
        have hafter := @afterCopy_cases _ (consumed + take) _ hcopied (chunk.drop (consumed + take))
        simp only [feedLoop, if_pos hmore, hminus, bind, Checked.bind, ← htake, hwrite]
        cases hresult : afterCopy _ (consumed + take) with
        | inl fed =>
            rw [hresult] at hafter
            obtain ⟨hend, hsize, hfed⟩ := hafter
            refine ⟨fed, rfl, hsize, ?_⟩
            rw [hstream]
            cases hmessage : fed.message with
            | none =>
                rw [hmessage] at hfed
                rw [hfed.2.1]
                exact ⟨hfed.1, rfl, hfed.2.2⟩
            | some m =>
                rw [hmessage] at hfed
                rw [hfed.2.1]
                exact ⟨hfed.1, rfl, by omega, by rw [hend], hfed.2.2⟩
        | inr parser' =>
            rw [hresult] at hafter
            obtain ⟨fed, hfed, hfeeds⟩ := ih hafter (show consumed + take ≤ chunk.length by omega) (by omega)
            exact ⟨fed, hfed, hfeeds.of_part hstream⟩
      · rw [feedLoop, if_neg hmore]
        have hnone : chunk.drop consumed = [] := List.drop_eq_nil_of_le (Nat.le_of_not_lt hmore)
        have hend : consumed = chunk.length := by omega
        refine ⟨_, rfl, h.size, ?_⟩
        rw [hnone, List.append_nil, h.wait]
        exact ⟨rfl, rfl, hend, h⟩

theorem ipcFeed_failed (h : parser.failed = true) (chunk : Bytes) : ipcFeed parser chunk = .done ⟨.protocol, parser, 0, none⟩ :=
  if_pos h

theorem ipcFeed_feeds (h : Waiting parser before) (chunk : Bytes) :
    ∃ fed, ipcFeed parser chunk = .done fed ∧ Feeds before chunk 0 fed := by
  obtain ⟨fed, hfed, hfeeds⟩ := feedLoop_feeds (chunk.length + 1) h (Nat.zero_le _) (Nat.lt_succ_self _)
  refine ⟨fed, ?_, hfeeds⟩
  rw [ipcFeed, h.sound]
  exact hfed

end Parsing

section Chunks

/-- A chunk is fed again from where the last call stopped, until nothing is left of it or a call fails. -/
def feedChunk : Nat → Parser → Bytes → Checked (List Message × Parser)
  | 0, _, _ => .fault
  | fuel + 1, parser, chunk =>
      if chunk = [] then .done ([], parser)
      else do
        let fed ← ipcFeed parser chunk
        if fed.status ≠ .ok then .done ([], fed.parser)
        else do
          let (messages, parser) ← feedChunk fuel fed.parser (chunk.drop fed.consumed)
          .done (fed.message.toList ++ messages, parser)

def feedAll : Parser → List Bytes → Checked (List Message × Parser)
  | parser, [] => .done ([], parser)
  | parser, chunk :: chunks => do
      let (messages, parser) ← feedChunk (chunk.length + 1) parser chunk
      let (later, parser) ← feedAll parser chunks
      .done (messages ++ later, parser)

def Stands (parser : Parser) : Option (Unit × Bytes) → Prop
  | none => parser.failed = true ∧ parser.bytes.length = ipcMaxFrame
  | some (_, before) => Waiting parser before

variable {parser : Parser} {before chunk : Bytes}

theorem Stands.size {left : Option (Unit × Bytes)} (h : Stands parser left) : parser.bytes.length = ipcMaxFrame := by
  cases left with
  | none => exact h.2
  | some left => exact Waiting.size h

theorem Stands.failed_iff {left : Option (Unit × Bytes)} (h : Stands parser left) : parser.failed = true ↔ left = none := by
  cases left with
  | none => simp [h.1]
  | some left => simp [Waiting.sound h]

theorem feedChunk_failed (h : parser.failed = true) (n : Nat) (chunk : Bytes) :
    feedChunk (n + 1) parser chunk = .done ([], parser) := by
  rw [feedChunk, ipcFeed_failed h]
  split
  · rfl
  · rfl

theorem feedAll_failed (h : parser.failed = true) (chunks : List Bytes) : feedAll parser chunks = .done ([], parser) := by
  induction chunks with
  | nil => rfl
  | cons chunk chunks ih =>
      rw [feedAll, feedChunk_failed h]
      change (feedAll parser chunks >>= fun result => Checked.done ([] ++ result.1, result.2)) = _
      rw [ih]
      rfl

theorem feedChunk_parse (fuel : Nat) (h : Waiting parser before) (hfuel : chunk.length < fuel) :
    ∃ parser', feedChunk fuel parser chunk = .done ((parse nextFrame () (before ++ chunk)).tokens, parser') ∧
      Stands parser' (parse nextFrame () (before ++ chunk)).left := by
  induction fuel generalizing parser before chunk with
  | zero => omega
  | succ fuel ih =>
      rw [feedChunk]
      by_cases hempty : chunk = []
      · rw [if_pos hempty, hempty, List.append_nil, parse_wait h.wait]
        exact ⟨parser, rfl, h⟩
      · obtain ⟨fed, hfed, hsize, hfeeds⟩ := ipcFeed_feeds h chunk
        have hpos := List.length_pos_iff.mpr hempty
        rw [if_neg hempty, hfed]
        rw [List.drop_zero] at hfeeds
        cases hnext : nextFrame () (before ++ chunk) with
        | wait =>
            rw [hnext] at hfeeds
            obtain ⟨hstatus, hmessage, hconsumed, hwaits⟩ := hfeeds
            obtain ⟨parser', hrest, hstands⟩ := ih hwaits (show (chunk.drop fed.consumed).length < fuel by simp; omega)
            rw [hconsumed, List.drop_length, List.append_nil] at hrest hstands
            refine ⟨parser', ?_, hstands⟩
            simp only [bind, Checked.bind, hstatus, hmessage, hconsumed, List.drop_length, hrest, ne_eq, not_true, if_false,
              Option.toList_none, List.nil_append]
        | token m s rest =>
            rw [hnext] at hfeeds
            obtain ⟨hstatus, hmessage, hconsumed, hrest, hwaits⟩ := hfeeds
            obtain ⟨parser', hlater, hstands⟩ := ih hwaits (show (chunk.drop fed.consumed).length < fuel by simp; omega)
            rw [parse_token nextFrame_prefixed hnext]
            rw [hrest, List.nil_append] at hlater hstands
            refine ⟨parser', ?_, hstands⟩
            simp only [bind, Checked.bind, hstatus, hmessage, hrest, hlater, ne_eq, not_true, if_false, Option.toList_some]
            rfl
        | reject =>
            rw [hnext] at hfeeds
            rw [parse_reject nextFrame_prefixed hnext]
            refine ⟨fed.parser, ?_, hfeeds.2.2, hsize⟩
            simp only [bind, Checked.bind, if_pos hfeeds.1]

theorem feedAll_parse (chunks : List Bytes) (h : Waiting parser before) :
    ∃ parser', feedAll parser chunks = .done ((parse nextFrame () (before ++ chunks.flatten)).tokens, parser') ∧
      Stands parser' (parse nextFrame () (before ++ chunks.flatten)).left := by
  induction chunks generalizing parser before with
  | nil =>
      rw [List.flatten_nil, List.append_nil, parse_wait h.wait]
      exact ⟨parser, rfl, h⟩
  | cons chunk chunks ih =>
      obtain ⟨parser₁, hchunk, hstands⟩ := feedChunk_parse (chunk.length + 1) h (Nat.lt_succ_self _)
      rw [List.flatten_cons, ← List.append_assoc, parse_append nextFrame_prefixed, feedAll, hchunk]
      generalize parse nextFrame () (before ++ chunk) = o at hstands
      obtain ⟨tokens, left⟩ := o
      cases left with
      | none =>
          refine ⟨parser₁, ?_, hstands⟩
          simp only [bind, Checked.bind, feedAll_failed hstands.1, List.append_nil]
          rfl
      | some left =>
          obtain ⟨parser', hlater, hstands'⟩ := ih hstands
          refine ⟨parser', ?_, hstands'⟩
          simp only [bind, Checked.bind, hlater]
          rfl

end Chunks

theorem ipc_canonical :
    (∀ m capacity frame, ipcEncode m capacity = .ok frame →
      ∃ body, ipcDecode frame = .ok ⟨m.requestSeq, body⟩ ∧ body.type = m.body.type ∧ Same m.body body) ∧
    (∀ frame m, ipcDecode frame = .ok m → ∀ capacity, frame.length ≤ capacity → ipcEncode m capacity = .ok frame) ∧
    (∀ chunks, ∃ parser, feedAll parserInit chunks = .done ((parse nextFrame () chunks.flatten).tokens, parser) ∧
      parser.bytes.length = ipcMaxFrame ∧ (parser.failed = true ↔ (parse nextFrame () chunks.flatten).left = none)) ∧
    ∀ parser chunk, parser.failed = true → ipcFeed parser chunk = .done ⟨.protocol, parser, 0, none⟩ := by
  refine ⟨fun m capacity frame h => ?_, fun frame m h capacity hroom => encode_decode h hroom, fun chunks => ?_,
    fun parser chunk h => ipcFeed_failed h chunk⟩
  · obtain ⟨body, hdecode, hsame⟩ := decode_encode h
    exact ⟨body, hdecode, hsame.type, hsame⟩
  · obtain ⟨parser, hfeed, hstands⟩ := feedAll_parse chunks waiting_init
    exact ⟨parser, hfeed, hstands.size, hstands.failed_iff⟩

/-- A stop and the start of a second one, cut in three. -/
theorem ipc_canonical_stop :
    (∃ body, ipcDecode (header cmdStop 16 5 ++ List.replicate 16 7) = .ok ⟨5, body⟩ ∧ body.type = cmdStop ∧
      Same (.stop (Vector.replicate 16 7)) body) ∧
    ∃ parser, feedAll parserInit [header cmdStop 16 5, List.replicate 16 7 ++ store16 ipcVersion, store16 cmdStop] =
      .done ([⟨5, .stop (Vector.replicate 16 7)⟩], parser) ∧ parser.failed = false := by
  refine ⟨ipc_canonical.1 ⟨5, .stop (Vector.replicate 16 7)⟩ 32 _ rfl, ?_⟩
  obtain ⟨parser, hfeed, -, hfailed⟩ := ipc_canonical.2.2.1
    [header cmdStop 16 5, List.replicate 16 7 ++ store16 ipcVersion, store16 cmdStop]
  have htokens : (parse nextFrame () [header cmdStop 16 5, List.replicate 16 7 ++ store16 ipcVersion, store16 cmdStop].flatten).tokens =
      [⟨5, .stop (Vector.replicate 16 7)⟩] := by decide +kernel
  have hleft : (parse nextFrame () [header cmdStop 16 5, List.replicate 16 7 ++ store16 ipcVersion, store16 cmdStop].flatten).left ≠
      none := by decide +kernel
  exact ⟨parser, htokens ▸ hfeed, Bool.eq_false_iff.mpr (mt hfailed.mp hleft)⟩

end EtranProcessing.Capture.IpcFraming
