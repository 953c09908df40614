import EtranProcessing.Ingress.Settling

namespace EtranProcessing.Ingress.LegacyPaths

open Relation Library.Tables Library.Runs
open State JsonText Routes Stores Lifecycle MediaV2 Moves Settling

/-- What handle_media_session_start has checked when it gets past its first
lines. -/
structure Legible (r : StartRequest) : Prop where
  sessionId : r.fields.sessionId ≠ [] ∧ r.fields.sessionId.length < 64
  sn : r.fields.sn ≠ [] ∧ r.fields.sn.length < 128

variable {p : Policy} {r : StartRequest} {i : Nat} {w w' : World}

theorem startRecord_admits {R : Registry} (rtp rtcp createdAt : Int)
    (hr : Legible r) (hv : (R.slots i).state = .empty)
    (hfresh : ∀ j, (R.slots j).sessionId = r.fields.sessionId → p.retry ∧ modern (R.slots j) = false) :
    Admits p R i (startRecord {} r rtp rtcp createdAt) where
  vacant := hv
  sessionId := by
    simp only [startRecord, safeStrcpy_of_lt hr.sessionId.2]
    exact hr.sessionId
  sn := by
    simp only [startRecord, safeStrcpy_of_lt hr.sn.2]
    exact hr.sn
  camera := by simp [startRecord]
  uuid := by simp [startRecord, modern]
  documented := by simp [startRecord, modern]
  fresh j hj := by
    simp only [startRecord, safeStrcpy_of_lt hr.sessionId.2] at hj
    exact ⟨(hfresh j hj).1, rfl, (hfresh j hj).2⟩

theorem activated_identity (s : MediaSession) (startedAt renewedAt : Int) :
    SameIdentity s (activated s startedAt renewedAt) := by constructor <;> rfl

theorem failedRecord_identity (s : MediaSession) (reason : CString) : SameIdentity s (failedRecord s reason) :=
  by constructor <;> rfl

theorem startChecked_path (w : World) (i : Nat) :
    Path p (registry w) (registry (startChecked w i).2) := by
  have hexp : Path p (registry w) (registry (expireMediaSession (advance w) i (now w))) :=
    expireMediaSession_path (advance w) i (now w)
  simp only [startChecked]
  split
  · exact hexp
  · rw [(saveBoth_quiet _ _ _).registry_eq]
    exact hexp

theorem startActivate_path (w : World) (i : Nat) (r : StartRequest) (hi : i < w.sessions.length)
    (hl : live (session w i) = true) : Path p (registry w) (registry (startActivate w i r).2) := by
  simp only [startActivate]
  refine .trans ?_ (startChecked_path _ i)
  rw [(countStarted_quiet _).registry_eq]
  exact touch_path (advance w) i _ hi hl rfl (activated_identity _ _ _)

theorem registry_startFailed (w : World) (i : Nat) (reason : CString) (hi : i < w.sessions.length) :
    registry (startFailed w i reason) =
      { registry w with slots := Function.update (session w) i (failedRecord (session w i) reason) } :=
  registry_setSession w i _ hi

theorem fail_path {t : MediaSession} (reason : CString)
    (hq : Quiet (setSession w i t) w') (hi : i < w.sessions.length) (ha : Admits p (registry w) i t)
    (hm : modern t = false) : Path p (registry w) (registry (startFailed w' i reason)) := by
  obtain ⟨hs, hi'⟩ := hq.after_set hi
  have ht : session w' i = t := by rw [hs]; simp
  have he : registry (startFailed w' i reason) =
      { registry w with slots := Function.update (session w) i (failedRecord t reason) } := by
    rw [registry_startFailed w' i reason hi', hq.registry_eq, registry_setSession w i t hi, ht, hs]
    simp
  rw [he]
  exact .single (Move.fail i _ (ha.same (failedRecord_identity t reason)) rfl hm)

/-- The facts about the table that make a legacy start for a fresh record
admissible. -/
structure Clear (p : Policy) (w : World) (r : StartRequest) : Prop where
  sane : Sane (registry w)
  legible : Legible r
  fresh : ∀ j, (session w j).sessionId = r.fields.sessionId → p.retry ∧ modern (session w j) = false
  device : ∀ j, live (session w j) = true → (session w j).sn = r.fields.sn →
    (session w j).sessionId = r.fields.sessionId

theorem Clear.vacates (hc : Clear p w r)
    (h : Vacates w i w') : Clear p w' r where
  sane := (h.path (p := anything) fun _ => trivial).sane hc.sane
  legible := hc.legible
  fresh j hj := by
    rcases h.slot j with he | he
    · rw [he] at hj ⊢
      exact hc.fresh j hj
    · rw [he] at hj
      exact absurd hj.symm hc.legible.sessionId.1
  device j hl hj := by
    have he := h.live j hl
    rw [he] at hl hj ⊢
    exact hc.device j hl hj

theorem startRecord_opens {w : World} {rtp rtcp : Int} (createdAt : Int)
    (hc : Clear p w r) (hv : (session w i).state = .empty) (hp : PortsFree p w rtp rtcp) :
    Opens p (registry w) i (startRecord {} r rtp rtcp createdAt) where
  toAdmits := startRecord_admits rtp rtcp createdAt hc.legible hv hc.fresh
  starting := rfl
  device j hl hj := by
    simp only [startRecord, safeStrcpy_of_lt hc.legible.sn.2, safeStrcpy_of_lt hc.legible.sessionId.2] at hj ⊢
    exact hc.device j hl hj
  ports := hp
  fence hcam := by simp [startRecord] at hcam

theorem startSlot_path (w : World) (r : StartRequest) (rtp rtcp : Int) (hc : Clear p w r)
    (hp : PortsFree p w rtp rtcp) (hevict : ∀ i, Evicts w i → p.evict i) : Path p (registry w) (registry (startSlot w r rtp rtcp).2) := by
  simp only [startSlot]
  cases halloc : allocateSessionSlot w with
  | none => exact .refl
  | some slot =>
      obtain ⟨i, w₁⟩ := slot
      have hv := allocateSessionSlot_spec halloc
      have hc₁ := hc.vacates hv
      have hzero : session w₁ i = {} := (hc₁.sane.record i).zero hv.vacant
      have ho := startRecord_opens (now w₁) hc₁ hv.vacant (hv.portsFree hp)
      have hsn : (startRecord {} r rtp rtcp (now w₁)).sn = r.fields.sn := safeStrcpy_of_lt hc.legible.sn.2
      apply (hv.path fun hf => hevict i ⟨w, w₁, .refl w, halloc, hf⟩).trans
      dsimp only
      rw [hzero]
      generalize ht : startRecord {} r rtp rtcp (now w₁) = t at ho hsn ⊢
      have hm : modern t = false := by rw [← ht]; rfl
      have hq := janusMountpointEnsure_quiet (setSession (advance w₁) i t) t.mountpointId rtp rtcp r.fields.pin
      generalize janusMountpointEnsure (setSession (advance w₁) i t) t.mountpointId rtp rtcp r.fields.pin = answer at hq ⊢
      obtain ⟨outcome, w₂⟩ := answer
      have hadv : Quiet (setSession w₁ i t) (setSession (advance w₁) i t) := by constructor <;> rfl
      have hq₂ : Quiet (setSession w₁ i t) w₂ := hadv.trans hq
      cases outcome with
      | ready =>
          dsimp only
          cases hup : upsertRoute w₂ r.fields.sn rtp rtcp with
          | none => exact fail_path _ (hq₂.trans (janusSend_quiet _ _)) hv.lt ho.toAdmits hm
          | some w₃ =>
              have hup' : upsertRoute w₂ t.sn t.rtpPort t.rtcpPort = some w₃ := by
                rw [hsn, ← ht]
                exact hup
              have hslots : session w₃ = session w₂ := by rw [upsertRoute_some hup]; rfl
              have hlen : w₃.sessions = w₂.sessions := by rw [upsertRoute_some hup]
              obtain ⟨hs₂, hi₂⟩ := hq₂.after_set hv.lt
              refine (open_path hq₂ hv.lt ho hup').trans (startActivate_path w₃ i r (by rw [hlen]; exact hi₂) ?_)
              rw [hslots, hs₂]
              simp [live, ho.starting]
      | unavailable | conflict => exact fail_path _ hq₂ hv.lt ho.toAdmits hm

theorem startPorts_path (w : World) (r : StartRequest) (hc : Clear p w r)
    (hchosen : 0 < r.fields.rtpPort → 0 < r.fields.rtcpPort → p.chosenPorts) (hevict : ∀ i, Evicts w i → p.evict i) :
    Path p (registry w) (registry (startPorts w r).2) := by
  simp only [startPorts]
  split
  · cases halloc : allocatePortPair w with
    | none => exact .refl
    | some pair => exact startSlot_path w r pair.1 pair.2 hc (.inr (allocatePortPair_some halloc)) hevict
  next h =>
    exact startSlot_path w r _ _ hc (.inl (hchosen (by omega) (by omega))) hevict

theorem fresh_settles (h : Settles w w') {id : CString}
    (hf : ∀ j, (session w j).sessionId = id → p.retry ∧ modern (session w j) = false) (j : Nat)
    (hj : (session w' j).sessionId = id) : p.retry ∧ modern (session w' j) = false := by
  rw [(h.identity j).sessionId] at hj
  rw [(h.identity j).modern_eq]
  exact hf j hj

theorem startFresh_path (w : World) (r : StartRequest) (hs : Sane (registry w)) (hr : Legible r)
    (hfresh : ∀ j, (session w j).sessionId = r.fields.sessionId → p.retry ∧ modern (session w j) = false)
    (hchosen : 0 < r.fields.rtpPort → 0 < r.fields.rtcpPort → p.chosenPorts) (hevict : ∀ i, Evicts w i → p.evict i) :
    Path p (registry w) (registry (startFresh w r).2) := by
  simp only [startFresh]
  have hpath := expireOptional_path (p := p) w (findActiveSessionForSn w r.fields.sn) r.requestAt
  have hset := expireOptional_settles w (findActiveSessionForSn w r.fields.sn) r.requestAt
  apply hpath.trans
  have hs₁ := hpath.sane hs
  have hfresh₁ := fresh_settles hset hfresh
  have hevict₁ := fun i he => hevict i (hset.evicts (i := i) he)
  generalize expireOptional w (findActiveSessionForSn w r.fields.sn) r.requestAt = w₁ at hs₁ hfresh₁ hevict₁ ⊢
  cases hown : findActiveSessionForSn w₁ r.fields.sn with
  | none =>
      refine startPorts_path w₁ r ⟨hs₁, hr, hfresh₁, fun j hl hj => ?_⟩ hchosen hevict₁
      exact absurd hj (findActiveSessionForSn_none hr.sn.1 hown j hl)
  | some i =>
      dsimp only
      split
      · exact .refl
      next hid =>
        obtain ⟨_, hlive, hsn, _⟩ := findActiveSessionForSn_some hown
        refine startPorts_path w₁ r ⟨hs₁, hr, hfresh₁, fun j hl hj => ?_⟩ hchosen hevict₁
        rw [← not_ne_iff.mp hid]
        exact hs₁.device hl hlive (hj.trans hsn.symm)

theorem reroute_path (w : World) (i : Nat) (s : MediaSession) (hs : session w i = s)
    (hl : live s = true) : Path p (registry w) (registry ((upsertRoute w s.sn s.rtpPort s.rtcpPort).getD w)) := by
  cases hup : upsertRoute w s.sn s.rtpPort s.rtcpPort with
  | none => exact .refl
  | some w' =>
      rw [Option.getD_some, upsertRoute_some hup, ← hs]
      rw [← hs] at hl
      exact .single (Move.reroute i hl)

theorem startExisting_path (w : World) (i : Nat) (r : StartRequest) (hi : i < w.sessions.length)
    (hl : live (session w i) = true) : Path p (registry w) (registry (startExisting w i r).2) := by
  simp only [startExisting]
  split
  · exact .refl
  · have hq := janusMountpointEnsure_quiet w (session w i).mountpointId (session w i).rtpPort (session w i).rtcpPort
      (session w i).pin
    generalize janusMountpointEnsure w (session w i).mountpointId (session w i).rtpPort (session w i).rtcpPort
      (session w i).pin = answer at hq ⊢
    obtain ⟨outcome, w₁⟩ := answer
    have hq₁ : Quiet w w₁ := hq
    cases outcome with
    | conflict => exact hq₁.path
    | unavailable => exact hq₁.path
    | ready =>
        dsimp only
        rw [(saveBoth_quiet _ _ _).registry_eq]
        have hsame := renewal_identity r hl
        generalize (if r.leaseBound then renewed (session w i) r.ttlSec r.requestAt else session w i) = s at hsame ⊢
        have hi₁ : i < w₁.sessions.length := by rw [hq₁.sessions]; exact hi
        rw [← hq₁.session_eq] at hl hsame
        refine hq₁.path.trans ((touch_path w₁ i s hi₁ hl hsame.2 hsame.1).trans (reroute_path _ i s ?_ hsame.2))
        simp [session, setSession, hi₁]

theorem startLookup_path (w : World) (r : StartRequest) (hs : Sane (registry w)) (hr : Legible r)
    (hretry : ∀ i, findSessionById w r.fields.sessionId = some i → (session w i).state = .failed → p.retry)
    (hchosen : 0 < r.fields.rtpPort → 0 < r.fields.rtcpPort → p.chosenPorts) (hevict : ∀ i, Evicts w i → p.evict i) :
    Path p (registry w) (registry (startLookup w r).2) := by
  simp only [startLookup]
  cases hfind : findSessionById w r.fields.sessionId with
  | none =>
      refine startFresh_path w r hs hr (fun j hj => ?_) hchosen hevict
      exact absurd hj (findSessionById_none hr.sessionId.1 hfind j)
  | some i =>
      dsimp only
      obtain ⟨hi, hid, hne⟩ := findSessionById_some hfind
      have hpath := expireMediaSession_path (p := p) w i r.requestAt
      have hset := expireMediaSession_settles w i r.requestAt
      apply hpath.trans
      have hs₁ := hpath.sane hs
      generalize expireMediaSession w i r.requestAt = w₁ at hs₁ hset ⊢
      have hid₁ : (session w₁ i).sessionId = r.fields.sessionId := (hset.identity i).sessionId.trans hid
      by_cases hmod : modern (session w₁ i) = true
      · rw [if_pos hmod]
      · rw [if_neg hmod]
        by_cases hl : live (session w₁ i) = true
        · rw [if_pos hl]
          exact startExisting_path w₁ i r (hset.length ▸ hi) hl
        · rw [if_neg hl]
          by_cases hstop : (session w₁ i).state = .stopped
          · rw [if_pos hstop]
            split <;> exact .refl
          · rw [if_neg hstop]
            -- what is left is a FAILED record, and it was FAILED before the expiry check
            have hfailed : (session w₁ i).state = .failed := by
              have hwf := hs₁.record i
              have h1 := hwf.named (hid₁ ▸ hne)
              have h2 := hwf.settled
              simp only [live_iff, not_or] at hl
              change (session w₁ i).state ≠ .empty at h1
              change (session w₁ i).state ≠ .stopping at h2
              cases hstate : (session w₁ i).state <;> simp_all
            have hbefore : (session w i).state = .failed := by
              rcases hset.slot i with he | he
              · rw [← he]
                exact hfailed
              · rw [he.1] at hfailed
                exact absurd hfailed (by simp)
            refine startFresh_path w₁ r hs₁ hr (fun j hj => ⟨hretry i hfind hbefore, ?_⟩) hchosen
              fun k he => hevict k (hset.evicts he)
            by_cases hij : i = j
            · rw [← hij]
              simpa using hmod
            · exact ((hs₁.pair hij).id (hid₁.trans hj.symm) (hid₁ ▸ hne)).2

theorem copyString_length (room : Nat) (text : CString) : (copyString room text).length ≤ room := by
  fun_induction copyString room text with
  | case1 => simp
  | case2 => simp
  | case3 => simp
  | case4 => simp
  | case5 room d rest hd ih => simpa using ih
  | case6 room c rest _ _ ih => simpa using ih

theorem jsonGetString_length (json : CString) (key : String) (size : Nat) (hsize : 0 < size) :
    (jsonGetString json key size).length < size := by
  simp only [jsonGetString]
  split
  next c rest _ =>
    split
    · have := copyString_length (size - 1) rest
      omega
    · simpa using hsize
  · simpa using hsize

theorem handleMediaSessionStart_path (w : World) (body : CString) (hs : Sane (registry w))
    (hretry : ∀ i, findSessionById w (jsonGetString body "session_id" 64) = some i →
      (session w i).state = .failed → p.retry)
    (hchosen : 0 < jsonGetInt body "rtp_port" 0 → 0 < jsonGetInt body "rtcp_port" 0 → p.chosenPorts)
    (hevict : ∀ i, Evicts w i → p.evict i) :
    Path p (registry w) (registry (handleMediaSessionStart w body).2) := by
  simp only [handleMediaSessionStart]
  split
  · exact .refl
  · split
    · exact .refl
    next h =>
      simp only [not_or] at h
      split
      · exact .refl
      next ttl bound _ =>
        refine startLookup_path (advance w) _ hs ⟨⟨h.1, ?_⟩, ⟨h.2, ?_⟩⟩ hretry hchosen
          fun i he => hevict i ((advance_quiet w).settles.evicts he)
        · exact jsonGetString_length body "session_id" 64 (by decide)
        · exact jsonGetString_length body "sn" 128 (by decide)

theorem renewRecord_path (w : World) (i : Nat) (body : CString) (t : Int) (hi : i < w.sessions.length)
    (hl : live (session w i) = true) : Path p (registry w) (registry (renewRecord w i body t).2) := by
  simp only [renewRecord]
  split
  · exact .refl
  · split
    · exact .refl
    · dsimp only
      rw [(saveBoth_quiet _ _ _).registry_eq]
      exact touch_path w i _ hi hl hl (renewed_identity _ _ _)

theorem renewMediaSession_path (w : World) (id body : CString) :
    Path p (registry w) (registry (renewMediaSession w id body).2) := by
  simp only [renewMediaSession]
  cases hfind : findSessionById w id with
  | none => exact .refl
  | some i =>
      dsimp only
      split
      · exact .refl
      next h =>
        simp only [not_or, not_ne_iff] at h
        exact renewRecord_path (advance w) i body _ (findSessionById_some hfind).1 ((live_iff _).mpr (.inl h.1))

theorem stopMediaSessionForSn_path (w : World) (body : CString) :
    Path p (registry w) (registry (stopMediaSessionForSn w body).2) := by
  simp only [stopMediaSessionForSn]
  split
  · exact .refl
  · cases hown : findActiveSessionForSn w (jsonGetString body "sn" 128) with
    | none => exact .refl
    | some i =>
        dsimp only
        split
        · exact .refl
        · refine stopMediaSession_path w _ _ fun j _ _ => .inr (.inl ⟨i, ?_, rfl⟩)
          exact (findActiveSessionForSn_some hown).2.1

theorem renewMediaSessionForSn_path (w : World) (body : CString) :
    Path p (registry w) (registry (renewMediaSessionForSn w body).2) := by
  simp only [renewMediaSessionForSn]
  split
  · exact .refl
  · exact renewMediaSession_path _ _ _

theorem getMediaSessionHealth_path (w : World) (id : CString) :
    Path p (registry w) (registry (getMediaSessionHealth w id).2) := by
  simp only [getMediaSessionHealth]
  split
  · exact .refl
  · exact expireMediaSession_path (advance w) _ _

end EtranProcessing.Ingress.LegacyPaths
