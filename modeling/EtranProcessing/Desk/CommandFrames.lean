import EtranProcessing.Desk.CaptureLink

namespace EtranProcessing.Desk.CommandFrames

open Library.LittleEndian Library.Buffers Capture Capture.IpcProtocol Capture.IpcFraming CaptureAdapter

section Identifiers

variable {a b : CString}

def squeezed (str : CString) : List UInt8 := if str.val = [] then [0x01] else str.val.take 16

example : squeezed empty = [0x01] := by
  unfold squeezed
  rfl

theorem squeezed_ne_nil (str : CString) : squeezed str ≠ [] := by
  unfold squeezed
  split
  · simp
  · simp_all

theorem zero_notMem_squeezed (str : CString) : 0 ∉ squeezed str := by
  unfold squeezed
  split
  · simp
  · exact fun h => str.2 (List.mem_of_mem_take h)

theorem strToId16_empty : (strToId16 empty).toList = 0x01 :: List.replicate 15 0 := by decide +kernel

theorem strToId16_toList (str : CString) :
    (strToId16 str).toList = squeezed str ++ List.replicate (16 - (squeezed str).length) 0 := by
  obtain ⟨s, hs⟩ := str
  cases s with
  | nil => exact strToId16_empty
  | cons b s =>
      unfold strToId16 squeezed
      have hlist := copied_toList (List.length_take_le 16 (b :: s))
      have hb : b ≠ 0 := fun h => hs (by simp [h])
      have hsome : ((copied 16 ((b :: s).take 16)).toList.all (· = 0)) = false := by
        rw [hlist]
        simp [hb]
      simp only [hsome, Bool.false_eq_true, if_false]
      rw [hlist, if_neg (List.cons_ne_nil b s)]

theorem nonzeroId_strToId16 (str : CString) : SafetyGate.nonzeroId (strToId16 str) = true := by
  rw [SafetyGate.nonzeroId, strToId16_toList, List.any_append, Bool.or_eq_true]
  obtain ⟨b, hb⟩ := List.exists_mem_of_ne_nil _ (squeezed_ne_nil str)
  refine .inl (List.any_eq_true.mpr ⟨b, hb, ?_⟩)
  have hne : b ≠ 0 := fun h => zero_notMem_squeezed str (h ▸ hb)
  simpa using hne

theorem takeWhile_padded {l : List UInt8} (h : 0 ∉ l) (n : Nat) : (l ++ List.replicate n 0).takeWhile (· ≠ 0) = l := by
  rw [List.takeWhile_append_of_pos fun b hb => by simpa using fun hzero : b = 0 => h (hzero ▸ hb)]
  cases n with
  | zero => simp
  | succ n => simp [List.replicate_succ]

theorem strToId16_inj : strToId16 a = strToId16 b ↔ squeezed a = squeezed b := by
  constructor
  · intro h
    have hlist := congrArg Vector.toList h
    rw [strToId16_toList, strToId16_toList] at hlist
    rw [← takeWhile_padded (zero_notMem_squeezed a), hlist, takeWhile_padded (zero_notMem_squeezed b)]
  · intro h
    apply Vector.toList_inj.mp
    rw [strToId16_toList, strToId16_toList, h]

end Identifiers

section Frames

def startOf (ctx : Adapter) (profile : Option CString) : Start where
  leaseId := strToId16 ctx.leaseId
  streamId := strToId16 ctx.streamId
  sourceRect := ctx.savedParams.sourceRect
  geometryGen := ctx.savedParams.geometryGen
  profileId := profileToId profile
  rtpPort := ctx.savedParams.rtpPort
  rtcpPort := ctx.savedParams.rtcpPort
  deadlineTickMs := ctx.currentDeadlineTickMs

def command (ctx : Adapter) (profile : Option CString) : Call → Body
  | .start | .restart => .start (startOf ctx profile)
  | .renewLease => .renewLease (strToId16 ctx.leaseId) ctx.currentDeadlineTickMs
  | .forceIdr => .forceIdr (strToId16 ctx.streamId)
  | .stop | .destroy => .stop (strToId16 ctx.streamId)

def own (w : Written) : Message := ⟨w.ctx.requestSeq, command w.ctx w.profile w.call⟩

def zeroId : Id := Vector.replicate 16 0

def Current (w : Written) : Prop := w.call = .start → w.ctx.savedParams.deadlineTickMs = w.ctx.currentDeadlineTickMs

variable {ctx : Adapter} {profile : Option CString} {seq : UInt64} {frame : Bytes}

example : (fields (command ctx profile .stop)).flatten = ctx.payload profile .stop := by
  simp [command, fields, Adapter.payload]

theorem decode_sent (body : Body) {type : UInt16} {payload : Bytes} {n : Nat} (htype : body.type = type)
    (hfields : (fields body).flatten = payload) (hlength : payloadLength body = some n)
    (hsent : ipcSend type payload seq = some frame) :
    ∃ body', ipcDecode frame = .ok ⟨seq, body'⟩ ∧ Same body body' := by
  have hn : payload.length = n := hfields ▸ (length_fields hlength).1
  unfold ipcSend at hsent
  split_ifs at hsent with hlong
  obtain rfl := Option.some.inj hsent
  have hencode : ipcEncode ⟨seq, body⟩ (ipcHeaderSize + n) = .ok (header body.type n seq ++ (fields body).flatten) :=
    encode_eq_ok.mpr ⟨n, hlength, Nat.le_refl _, rfl⟩
  rw [htype, hfields] at hencode
  obtain ⟨body', hdecode, hsame⟩ := decode_encode hencode
  rw [hn]
  exact ⟨body', hdecode, hsame⟩

theorem decode_own {w : Written} (hcurrent : Current w) (hrestart : w.call ≠ .restart) (hdestroy : w.call ≠ .destroy) :
    ipcDecode w.frame = .ok (own w) := by
  obtain ⟨call, ctx, profile, frame, sent⟩ := w
  cases call with
  | start =>
      have hdeadline : ctx.savedParams.deadlineTickMs = ctx.currentDeadlineTickMs := hcurrent rfl
      obtain ⟨body, hdecode, hsame⟩ := decode_sent (command ctx profile .start) rfl
        (by simp [command, startOf, fields, Adapter.payload, rectBytes, hdeadline]) rfl sent
      rw [hdecode, hsame]
      rfl
  | renewLease =>
      obtain ⟨body, hdecode, hsame⟩ := decode_sent (command ctx profile .renewLease) rfl
        (by simp [command, fields, Adapter.payload]) rfl sent
      rw [hdecode, hsame]
      rfl
  | forceIdr =>
      obtain ⟨body, hdecode, hsame⟩ := decode_sent (command ctx profile .forceIdr) rfl
        (by simp [command, fields, Adapter.payload]) rfl sent
      rw [hdecode, hsame]
      rfl
  | stop =>
      obtain ⟨body, hdecode, hsame⟩ := decode_sent (command ctx profile .stop) rfl
        (by simp [command, fields, Adapter.payload]) rfl sent
      rw [hdecode, hsame]
      rfl
  | destroy => exact absurd rfl hdestroy
  | restart => exact absurd rfl hrestart

theorem decode_destroy {w : Written} (h : w.call = .destroy) : ipcDecode w.frame = .ok ⟨w.ctx.requestSeq, .stop zeroId⟩ := by
  obtain ⟨call, ctx, profile, frame, sent⟩ := w
  obtain rfl : call = .destroy := h
  obtain ⟨body, hdecode, hsame⟩ := decode_sent (.stop zeroId) rfl
    (by simp [fields, Adapter.payload, zeroId]) rfl sent
  rw [hdecode, hsame]

theorem decode_restart {w : Written} (h : w.call = .restart) : ipcDecode w.frame = .error .protocol := by
  have hlength : (w.ctx.payload w.profile w.call).length = 72 := by
    simp [h, Adapter.payload, rectBytes]
  have hsent := w.sent
  unfold ipcSend at hsent
  split_ifs at hsent with hlong
  have hframe : w.frame = header w.call.type 72 w.ctx.requestSeq ++ w.ctx.payload w.profile w.call := by
    rw [← Option.some.inj hsent, hlength]
    rfl
  have htype : w.call.type = cmdStart := by rw [h]; rfl
  rw [hframe, htype]
  obtain ⟨hversion, htype, hn, -⟩ := header_read cmdStart w.ctx.requestSeq (show 72 < 2 ^ 32 by decide) (w.ctx.payload w.profile w.call)
  have hheader := length_header cmdStart 72 w.ctx.requestSeq
  unfold ipcDecode
  simp only [htype, hn, hversion]
  rw [if_neg (by simp [hheader]), if_pos (.inl rfl)]

theorem zeroId_ne (str : CString) : strToId16 str ≠ zeroId := by
  intro h
  have hnonzero := nonzeroId_strToId16 str
  rw [h] at hnonzero
  exact absurd hnonzero (by decide)

theorem decode_iff {w : Written} (hcurrent : Current w) :
    ipcDecode w.frame = .ok (own w) ↔ w.call ≠ .restart ∧ w.call ≠ .destroy := by
  constructor
  · intro h
    refine ⟨fun hrestart => ?_, fun hdestroy => ?_⟩
    · rw [decode_restart hrestart] at h
      cases h
    · rw [decode_destroy hdestroy] at h
      have hbody : Body.stop zeroId = command w.ctx w.profile w.call := congrArg Message.body (Except.ok.inj h)
      rw [hdestroy] at hbody
      exact zeroId_ne _ (Body.stop.inj hbody).symm
  · rintro ⟨hrestart, hdestroy⟩
    exact decode_own hcurrent hrestart hdestroy

end Frames

end EtranProcessing.Desk.CommandFrames
