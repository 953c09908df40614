import EtranProcessing.Ingress.Carriage
import EtranProcessing.Ingress.Tokens

namespace EtranProcessing.Ingress.Segmentation

open Library.Incremental Library.Tables
open State Clock Feedback Routes Stores Lifecycle MediaV2 Framing EventLoop Moves Settling ConnectionPaths
open SessionTable Teardown Tokens Carriage

/-- A connection that is bound to no camera session, or to one that it may send
for. -/
structure Attached (w₀ : World) (c : IngressClient) : Prop where
  current : c.cameraRouteRevoked = false
  owner : c.cameraRouteGeneration = 0 ∨ ∃ i, findActiveSessionForSn w₀ c.sn = some i ∧
    (session w₀ i).cameraSource = true ∧ (session w₀ i).routeGeneration = c.cameraRouteGeneration ∧
    (session w₀ i).minimumCameraConnectionEpoch ≤ c.epoch
  unbound : c.state = .preamble → c.cameraRouteGeneration = 0

variable {w : World} {w₀ : World}

theorem Attached.same {c d : IngressClient} (h : Attached w₀ c) (hs : SameBinding c d)
    (hstate : d.state = c.state) : Attached w₀ d where
  current := hs.revoked.trans h.current
  unbound := by
    rw [hs.generation, hstate]
    exact h.unbound
  owner := by
    rw [hs.generation, hs.sn, hs.epoch]
    exact h.owner

variable {e : Nat} {w₀ w : World} {ts : List Token} {c : IngressClient} {seen : List UInt8}

theorem cameraConnectionCurrent_attached (hs : Steady w₀ w) (hc : Attached w₀ c)
    (h : Unexpired w (cameraConnectionCurrent w c).2) :
    (cameraConnectionCurrent w c).1 = true ∧ ClockOnly w (cameraConnectionCurrent w c).2 := by
  simp only [cameraConnectionCurrent, hc.current] at h ⊢
  rcases hc.owner with hgen | ⟨i, hown, hcam, hroute, hmin⟩
  · simpa [hgen] using ClockOnly.refl w
  · by_cases hgen : c.cameraRouteGeneration = 0
    · simpa [hgen] using ClockOnly.refl w
    · have hown' : findActiveSessionForSn w c.sn = some i := (hs.owner c.sn).trans hown
      have hclock : ClockOnly w (expireOwner w c.sn) := by
        refine expireOwner_unexpired (Unexpired.before h ?_)
        simp only [hown', hgen, if_false, Bool.false_eq_true]
        split
        · exact .refl _
        · exact ends_of_sessions rfl
      have hsame : session (expireOwner w c.sn) i = session w i := by
        obtain ⟨_, _, _, hw⟩ := hclock
        rw [hw]
        rfl
      have hid := (hs.slot i).identity
      have hok : live (session w i) = true ∧ (session w i).cameraSource = true ∧
          (session w i).routeGeneration = c.cameraRouteGeneration ∧
          (session w i).minimumCameraConnectionEpoch ≤ c.epoch :=
        ⟨(findActiveSessionForSn_some hown').2.1, hid.cameraSource.trans hcam, hid.routeGeneration.trans hroute,
          hid.minimumEpoch.symm ▸ hmin⟩
      simp only [hown', hgen, if_false, Bool.false_eq_true, hsame, if_pos hok]
      exact ⟨trivial, hclock⟩

def frames (e : Nat) (tokens : List Token) : List Dispatch :=
  tokens.filterMap fun
    | .hello _ => none
    | .frame type payload => some ⟨e, type, payload⟩

theorem frames_append (e : Nat) (ts us : List Token) : frames e (ts ++ us) = frames e ts ++ frames e us :=
  List.filterMap_append

structure Running (w₀ : World) (e : Nat) (tokens : List Token) (w : World) : Prop where
  steady : Steady w₀ w
  dispatched : w.dispatched = w₀.dispatched ++ frames e tokens
  client : ∃ c, findClient w e = some c ∧ c.state = .framing ∧ Attached w₀ c

theorem findClient_carries {w w' : World} (h : Carries w w') (hc : findClient w e = some c) :
    ∃ d, findClient w' e = some d ∧ Stamped c d := by
  obtain ⟨f, hf, hst⟩ := h.clients
  refine ⟨f c, ?_, hst c⟩
  rw [findClient_map hf fun c => (hst c).epoch, hc]
  rfl

theorem handleFrame_running (hr : Running w₀ e ts w) (type : UInt8)
    (payload : List UInt8) (h : Unexpired w₀ (handleFrame w e type payload).2) :
    (handleFrame w e type payload).1 = true ∧
    Running w₀ e (ts ++ [.frame type payload]) (handleFrame w e type payload).2 := by
  obtain ⟨c, hc, hstate, hatt⟩ := hr.client
  have hcur : Ends (cameraConnectionCurrent w c).2 (handleFrame w e type payload).2 := by
    simp only [handleFrame, hc]
    generalize cameraConnectionCurrent w c = answer
    obtain ⟨ok, w₁⟩ := answer
    cases ok with
    | false => exact ends_of_sessions rfl
    | true => exact (expireOwner_ends w₁ c.sn).trans (dispatchFrame_ends _ e type payload)
  obtain ⟨hok, hclock⟩ := cameraConnectionCurrent_attached hr.steady hatt ((h.before hcur).since hr.steady)
  simp only [handleFrame, hc] at h ⊢
  generalize cameraConnectionCurrent w c = answer at h hok hclock ⊢
  obtain ⟨ok, w₁⟩ := answer
  obtain rfl : ok = true := hok
  have hcarry₁ : Carries w w₁ := .of_clock hclock
  have hclock₂ : ClockOnly w₁ (expireOwner w₁ c.sn) := by
    apply expireOwner_unexpired
    exact (h.before (dispatchFrame_ends _ e type payload)).since (hr.steady.trans hcarry₁.steady)
  have hcarry₂ : Carries w (expireOwner w₁ c.sn) := hcarry₁.trans (.of_clock hclock₂)
  have hframe := dispatchFrame_carries (expireOwner w₁ c.sn) e type payload
  refine ⟨rfl, (hr.steady.trans hcarry₂.steady).trans (dispatchFrame_steady _ e type payload), ?_, ?_⟩
  · rw [hframe.dispatched, frames_append, ← List.append_assoc, ← hr.dispatched, ← hcarry₂.dispatched]
    rfl
  · obtain ⟨d, hd, hcd⟩ := findClient_carries hcarry₂ hc
    obtain ⟨d', hd', hdd⟩ := findClient_carries hframe (e := e) (c := d) hd
    exact ⟨d', hd', hdd.state.trans (hcd.state.trans hstate),
      (hatt.same hcd.toSameBinding hcd.state).same hdd.toSameBinding hdd.state⟩

/-- The connection has taken in what the outcome says. -/
structure Tracks (w₀ : World) (e : Nat) (o : Outcome ClientState Token UInt8) (w : World) : Prop where
  steady : Steady w₀ w
  dispatched : w.dispatched = w₀.dispatched ++ frames e o.tokens
  client : ((findClient w e).map fun c => (c.state, c.rxBuf)) = o.left
  attached : ∀ c, findClient w e = some c → Attached w₀ c

theorem findClient_removed (w : World) (e : Nat) : findClient (removeIngressClient w e) e = none := by
  simp [findClient, removeIngressClient]

theorem findClient_update (w : World) (e : Nat) (f : IngressClient → IngressClient) (hf : ∀ c, (f c).epoch = c.epoch) :
    findClient (updateClient w e f) e = (findClient w e).map f := by
  have hmap : (updateClient w e f).clients = w.clients.map fun c => if c.epoch = e then f c else c := rfl
  rw [findClient_map hmap]
  · cases hfind : findClient w e with
    | none => rfl
    | some c => simp [(findClient_epoch hfind).1]
  · intro c
    split
    · exact hf c
    · rfl

theorem dropped_tracks (hs : Steady w₀ w)
    (hd : w.dispatched = w₀.dispatched ++ frames e ts) : Tracks w₀ e ⟨ts, none⟩ (removeIngressClient w e) where
  steady := hs.trans (.of_sessions rfl)
  dispatched := hd
  client := by rw [findClient_removed]; rfl
  attached c hc := by
    rw [findClient_removed] at hc
    exact absurd hc (by simp)

theorem kept_tracks (hs : Steady w₀ w)
    (hd : w.dispatched = w₀.dispatched ++ frames e ts) (hc : findClient w e = some c) (hatt : Attached w₀ c)
    (buf : List UInt8) :
    Tracks w₀ e ⟨ts, some (c.state, buf)⟩ (updateClient w e fun c => { c with rxBuf := buf }) := by
  have hnew := findClient_update w e (fun c => { c with rxBuf := buf }) fun _ => rfl
  rw [hc] at hnew
  refine ⟨hs.trans (.of_sessions rfl), hd, by rw [hnew]; rfl, fun d hd' => ?_⟩
  rw [hnew, Option.map_some, Option.some.injEq] at hd'
  subst hd'
  exact hatt.same (by constructor <;> rfl) rfl

theorem frameLoop_tracks {welcome : List UInt8 → Bool} (fuel : Nat)
    (hr : Running w₀ e ts w) (buf : List UInt8) (h : Unexpired w₀ (frameLoop e fuel w buf).2) :
    (frameLoop e fuel w buf).1 = (drain (nextToken welcome) fuel .framing buf).left.isSome ∧
    Tracks w₀ e ((drain (nextToken welcome) fuel .framing buf).after ts) (frameLoop e fuel w buf).2 := by
  induction fuel generalizing w ts buf with
  | zero =>
      obtain ⟨c, hc, hstate, hatt⟩ := hr.client
      refine ⟨rfl, ?_⟩
      rw [← hstate]
      simpa [Outcome.after, drain, frameLoop] using kept_tracks hr.steady hr.dispatched hc hatt buf
  | succ fuel ih =>
      simp only [frameLoop, drain, nextToken] at h ⊢
      cases hnext : nextFrame buf with
      | incomplete =>
          obtain ⟨c, hc, hstate, hatt⟩ := hr.client
          refine ⟨rfl, ?_⟩
          simpa [Outcome.after, hstate] using kept_tracks hr.steady hr.dispatched hc hatt buf
      | oversized =>
          refine ⟨rfl, ?_⟩
          simpa [Outcome.after] using dropped_tracks hr.steady hr.dispatched
      | frame type payload rest =>
          simp only [hnext] at h ⊢
          have hbefore : Unexpired w₀ (handleFrame w e type payload).2 := by
            apply h.before
            generalize handleFrame w e type payload = answer
            obtain ⟨ok, w₁⟩ := answer
            cases ok with
            | false => exact .refl w₁
            | true => exact frameLoop_ends e fuel w₁ rest
          obtain ⟨hok, hrun⟩ := handleFrame_running hr type payload hbefore
          generalize handleFrame w e type payload = answer at h hok hrun ⊢
          obtain ⟨ok, w₁⟩ := answer
          obtain rfl : ok = true := hok
          obtain ⟨hflag, htrack⟩ := ih hrun rest h
          refine ⟨hflag, ?_⟩
          rw [Outcome.after_after]
          exact htrack

def admits (w : World) (e : Nat) (sn : List UInt8) : Bool := !tooOld w e (untilNul sn)

theorem tooOld_steady (h : Steady w₀ w) (e : Nat) (sn : CString) : tooOld w e sn = tooOld w₀ e sn := by
  simp only [tooOld, h.owner sn]
  cases findActiveSessionForSn w₀ sn with
  | none => rfl
  | some i =>
      have hid := (h.slot i).identity
      simp only [hid.cameraSource, hid.minimumEpoch]

theorem findClient_closeDuplicate (w : World) (e : Nat) (sn : CString) :
    findClient (closeDuplicate w e sn) e = findClient w e := by
  simp only [closeDuplicate]
  cases hold : w.clients.find? fun c => c.epoch != e && c.sn == sn with
  | none => rfl
  | some old =>
      have hne : old.epoch ≠ e := by
        have hq := List.find?_some hold
        simp only [Bool.and_eq_true, bne_iff_ne] at hq
        exact hq.1
      simp only [findClient, removeIngressClient, List.find?_filter]
      congr 1
      funext c
      by_cases hc : c.epoch = e
      · simp [hc, hne.symm]
      · simp [hc]

theorem bindClient_attached (hs : Steady w₀ w) {sn : CString} (hc : Attached w₀ c)
    (hstate : c.state = .preamble) (hold : tooOld w₀ c.epoch sn = false) : Attached w₀ (bindClient w sn c) where
  current := hc.current
  unbound h := by simp [bindClient] at h
  owner := by
    simp only [tooOld] at hold
    simp only [bindClient, hs.owner sn, hc.unbound hstate]
    cases hown : findActiveSessionForSn w₀ sn with
    | none => exact .inl rfl
    | some i =>
        have hid := (hs.slot i).identity
        simp only [hown] at hold
        simp only [Option.map_some, hid.cameraSource, hid.routeGeneration]
        by_cases hcam : (session w₀ i).cameraSource = true
        · rw [if_pos hcam]
          simp only [hcam, Bool.true_and, decide_eq_false_iff_not, not_lt] at hold
          exact .inr ⟨i, rfl, hcam, rfl, hold⟩
        · rw [if_neg hcam]
          exact .inl rfl

theorem completePreamble_running (hs : Steady w₀ w)
    (hd : w.dispatched = w₀.dispatched ++ frames e ts) (hc : findClient w e = some c) (hatt : Attached w₀ c)
    (hstate : c.state = .preamble) {sn : List UInt8} (hold : tooOld w₀ e (untilNul sn) = false) :
    (completePreamble w e sn).1 = true ∧ Running w₀ e (ts ++ [.hello sn]) (completePreamble w e sn).2 := by
  have hold' : tooOld w e (untilNul sn) = false := (tooOld_steady hs e _).trans hold
  simp only [completePreamble, hold', Bool.false_eq_true, if_false]
  have hclose : Steady w₀ (closeDuplicate w e (untilNul sn)) :=
    hs.trans (.of_sessions (closeDuplicate_sessions w e (untilNul sn)))
  have hlog : (closeDuplicate w e (untilNul sn)).dispatched = w.dispatched := by
    simp only [closeDuplicate]
    split <;> rfl
  have hfind := (findClient_closeDuplicate w e (untilNul sn)).trans hc
  have hepoch := (findClient_epoch hc).1
  have hbound := findClient_update (closeDuplicate w e (untilNul sn)) e
    (bindClient (closeDuplicate w e (untilNul sn)) (untilNul sn)) fun _ => rfl
  rw [hfind] at hbound
  refine ⟨trivial, hclose.trans (.of_sessions rfl), ?_, _, hbound, rfl, ?_⟩
  · change (closeDuplicate w e (untilNul sn)).dispatched = _
    rw [hlog, hd, frames_append]
    simp [frames]
  · exact bindClient_attached hclose hatt hstate (hepoch.symm ▸ hold)

theorem parseBuffer_tracks {c d : IngressClient} (hs : Steady w₀ w)
    (hd : w.dispatched = w₀.dispatched ++ frames e ts) (hfind : findClient w e = some d) (hatt : Attached w₀ d)
    (hcd : Stamped c d) (buf : List UInt8) (h : Unexpired w₀ (parseBuffer w c buf).2) :
    (parseBuffer w c buf).1 = (parse (nextToken (admits w₀ e)) c.state buf).left.isSome ∧
    Tracks w₀ e ((parse (nextToken (admits w₀ e)) c.state buf).after ts) (parseBuffer w c buf).2 := by
  have hepoch : c.epoch = e := hcd.epoch.symm.trans (findClient_epoch hfind).1
  simp only [parseBuffer, hepoch] at h ⊢
  cases hstate : c.state with
  | framing =>
      rw [hstate] at h
      exact frameLoop_tracks buf.length ⟨hs, hd, d, hfind, hcd.state.trans hstate, hatt⟩ buf h
  | preamble =>
      rw [hstate] at h
      have hdstate : d.state = .preamble := hcd.state.trans hstate
      dsimp only at h ⊢
      cases hpre : parsePreamble buf with
      | incomplete =>
          rw [parse_wait (by simp only [nextToken, hpre])]
          refine ⟨rfl, ?_⟩
          simpa [Outcome.after, hdstate] using kept_tracks hs hd hfind hatt buf
      | invalid =>
          rw [parse_reject (nextToken_prefixed _) (by simp only [nextToken, hpre])]
          refine ⟨rfl, ?_⟩
          simpa [Outcome.after] using dropped_tracks hs hd
      | complete sn rest =>
          simp only [hpre] at h ⊢
          cases hold : tooOld w₀ e (untilNul sn) with
          | true =>
              rw [parse_reject (nextToken_prefixed _) (by simp [nextToken, hpre, admits, hold])]
              simp only [completePreamble, tooOld_steady hs, hold, if_true]
              refine ⟨rfl, ?_⟩
              simpa [Outcome.after] using dropped_tracks hs hd
          | false =>
              obtain ⟨hok, hrun⟩ := completePreamble_running hs hd hfind hatt hdstate hold
              generalize completePreamble w e sn = answer at h hok hrun ⊢
              obtain ⟨ok, w₁⟩ := answer
              obtain rfl : ok = true := hok
              rw [parse_token (nextToken_prefixed _) (by simp only [nextToken, hpre, admits, hold]; rfl),
                Outcome.after_after]
              exact frameLoop_tracks rest.length hrun rest h

def rxLen (w : World) (e : Nat) : Nat := ((findClient w e).map fun c => c.rxBuf.length).getD 0

theorem recvStep_tracks
    (ht : Tracks w₀ e (parse (nextToken (admits w₀ e)) .preamble seen) w) {chunk : List UInt8} (hne : chunk ≠ [])
    (hfit : chunk.length ≤ rxBufferSize - rxLen w e) (h : Unexpired w₀ (recvStep w e (.data chunk)).2) :
    (recvStep w e (.data chunk)).1 = (parse (nextToken (admits w₀ e)) .preamble (seen ++ chunk)).left.isSome ∧
    Tracks w₀ e (parse (nextToken (admits w₀ e)) .preamble (seen ++ chunk)) (recvStep w e (.data chunk)).2 := by
  have hlaw := nextToken_prefixed (admits w₀ e)
  have hleft := ht.client
  rw [parse_append hlaw]
  simp only [recvStep, resume] at h ⊢
  cases hfind : findClient w e with
  | none =>
      rw [hfind] at hleft
      simp only [← hleft, Option.map_none]
      exact ⟨rfl, ht⟩
  | some c =>
      rw [hfind] at hleft
      simp only [Option.map_some] at hleft
      have hlen : rxLen w e = c.rxBuf.length := by simp [rxLen, hfind]
      have hroom := nextToken_wait (parse_left hlaw hleft.symm)
      have htake : chunk.take (rxBufferSize - c.rxBuf.length) = chunk := List.take_of_length_le (hlen ▸ hfit)
      simp only [hfind, if_neg (Nat.not_le.mpr hroom), htake, if_neg hne] at h
      simp only [if_neg (Nat.not_le.mpr hroom), htake, if_neg hne, ← hleft]
      have hcarry := stampActivity_carries w e
      obtain ⟨d, hd, hcd⟩ := findClient_carries hcarry hfind
      exact parseBuffer_tracks (ht.steady.trans hcarry.steady) (hcarry.dispatched.trans ht.dispatched) hd
        ((ht.attached c hfind).same hcd.toSameBinding hcd.state) hcd _ h

/-- Chunks that are not empty and no longer than the buffer has room for when
they arrive. -/
def Fits (e : Nat) : World → List (List UInt8) → Prop
  | _, [] => True
  | w, chunk :: rest =>
      chunk ≠ [] ∧ chunk.length ≤ rxBufferSize - rxLen w e ∧ Fits e (recvStep w e (.data chunk)).2 rest

theorem parse_given_up {welcome : List UInt8 → Bool}
    (h : (parse (nextToken welcome) .preamble seen).left = none) (more : List UInt8) :
    parse (nextToken welcome) .preamble (seen ++ more) = parse (nextToken welcome) .preamble seen := by
  rw [parse_append (nextToken_prefixed welcome), resume, h]

theorem recvLoop_tracks (chunks : List (List UInt8))
    (ht : Tracks w₀ e (parse (nextToken (admits w₀ e)) .preamble seen) w) (hfit : Fits e w chunks)
    (h : Unexpired w₀ (recvLoop e (chunks.map .data) w)) :
    Tracks w₀ e (parse (nextToken (admits w₀ e)) .preamble (seen ++ chunks.flatten))
      (recvLoop e (chunks.map .data) w) := by
  induction chunks generalizing w seen with
  | nil => simpa [recvLoop] using ht
  | cons chunk rest ih =>
      obtain ⟨hne, hroom, hrest⟩ := hfit
      simp only [List.map_cons, recvLoop, List.flatten_cons, ← List.append_assoc] at h ⊢
      have hbefore : Unexpired w₀ (recvStep w e (.data chunk)).2 := by
        apply h.before
        generalize recvStep w e (.data chunk) = answer
        obtain ⟨ok, w₁⟩ := answer
        cases ok with
        | false => exact .refl w₁
        | true => exact recvLoop_ends e _ w₁
      obtain ⟨hflag, htrack⟩ := recvStep_tracks ht hne hroom hbefore
      generalize recvStep w e (.data chunk) = answer at h hflag htrack hrest ⊢
      obtain ⟨ok, w₁⟩ := answer
      cases ok with
      | false =>
          rw [parse_given_up (Option.isNone_iff_eq_none.mp (by simpa using hflag.symm))]
          exact htrack
      | true => exact ih htrack hrest h

/-- The stream as process_ingress_data gets to see it: one call for every time
the socket becomes readable, one chunk for every recv. -/
def deliver (w : World) (e : Nat) (calls : List (List (List UInt8))) : World :=
  calls.foldl (fun w chunks => processIngressData w e (chunks.map .data)) w

def entered (w : World) (e : Nat) : World :=
  match findClient w e with
  | none => w
  | some c => (cameraConnectionCurrent w c).2

def FitsCalls (e : Nat) : World → List (List (List UInt8)) → Prop
  | _, [] => True
  | w, chunks :: rest => Fits e (entered w e) chunks ∧ FitsCalls e (processIngressData w e (chunks.map .data)) rest

theorem Tracks.carries {w₀ w w' : World} {o : Outcome ClientState Token UInt8} (h : Tracks w₀ e o w)
    (hc : Carries w w') : Tracks w₀ e o w' := by
  refine ⟨h.steady.trans hc.steady, hc.dispatched.trans h.dispatched, ?_, fun d hd => ?_⟩
  · obtain ⟨f, hf, hst⟩ := hc.clients
    rw [← h.client, findClient_map hf fun c => (hst c).epoch, Option.map_map]
    congr 1
    funext c
    simp only [Function.comp_apply, (hst c).state, (hst c).rxBuf]
  · obtain ⟨f, hf, hst⟩ := hc.clients
    rw [findClient_map hf fun c => (hst c).epoch, Option.map_eq_some_iff] at hd
    obtain ⟨c, hfind, rfl⟩ := hd
    exact (h.attached c hfind).same (hst c).toSameBinding (hst c).state

theorem processIngressData_tracks (chunks : List (List UInt8))
    (ht : Tracks w₀ e (parse (nextToken (admits w₀ e)) .preamble seen) w) (hfit : Fits e (entered w e) chunks)
    (h : Unexpired w₀ (processIngressData w e (chunks.map .data))) :
    Tracks w₀ e (parse (nextToken (admits w₀ e)) .preamble (seen ++ chunks.flatten))
      (processIngressData w e (chunks.map .data)) := by
  simp only [processIngressData, ifCurrent, entered] at h hfit ⊢
  cases hfind : findClient w e with
  | none =>
      have hgone := ht.client
      rw [hfind] at hgone
      rw [parse_given_up hgone.symm]
      exact ht
  | some c =>
      simp only [hfind] at h hfit ⊢
      have hbefore : Unexpired w₀ (cameraConnectionCurrent w c).2 := by
        apply h.before
        generalize cameraConnectionCurrent w c = answer
        obtain ⟨ok, w₁⟩ := answer
        cases ok with
        | false => exact ends_of_sessions rfl
        | true => exact recvLoop_ends e _ w₁
      obtain ⟨hok, hclock⟩ :=
        cameraConnectionCurrent_attached ht.steady (ht.attached c hfind) (hbefore.since ht.steady)
      generalize cameraConnectionCurrent w c = answer at h hfit hok hclock ⊢
      obtain ⟨ok, w₁⟩ := answer
      obtain rfl : ok = true := hok
      exact recvLoop_tracks chunks (ht.carries (.of_clock hclock)) hfit h

theorem deliver_ends (w : World) (e : Nat) (calls : List (List (List UInt8))) : Ends w (deliver w e calls) := by
  induction calls generalizing w with
  | nil => exact .refl w
  | cons chunks rest ih => exact (processIngressData_ends w e _).trans (ih _)

theorem deliver_tracks (calls : List (List (List UInt8)))
    (ht : Tracks w₀ e (parse (nextToken (admits w₀ e)) .preamble seen) w) (hfit : FitsCalls e w calls)
    (h : Unexpired w₀ (deliver w e calls)) :
    Tracks w₀ e (parse (nextToken (admits w₀ e)) .preamble (seen ++ calls.flatten.flatten)) (deliver w e calls) := by
  induction calls generalizing w seen with
  | nil => simpa [deliver] using ht
  | cons chunks rest ih =>
      obtain ⟨hfirst, hrest⟩ := hfit
      have hstep := processIngressData_tracks chunks ht hfirst (h.before (deliver_ends _ e rest))
      rw [List.flatten_cons, List.flatten_append, ← List.append_assoc]
      exact ih hstep hrest h

def Slack (w : World) (e : Nat) : Prop := ∀ c, findClient w e = some c → c.rxBuf.length < rxBufferSize

theorem slack_removed (w : World) (e : Nat) : Slack (removeIngressClient w e) e := by
  intro c hc
  rw [findClient_removed] at hc
  exact absurd hc (by simp)

theorem slack_kept (w : World) (e : Nat) {buf : List UInt8} (h : buf.length < rxBufferSize) :
    Slack (updateClient w e fun c => { c with rxBuf := buf }) e := by
  intro c hc
  rw [findClient_update w e (fun c => { c with rxBuf := buf }) fun _ => rfl, Option.map_eq_some_iff] at hc
  obtain ⟨_, _, rfl⟩ := hc
  exact h

theorem handleFrame_dropped {w w' : World} {type : UInt8} {payload : List UInt8}
    (h : handleFrame w e type payload = (false, w')) : findClient w' e = none := by
  simp only [handleFrame] at h
  split at h
  next hfind =>
    rw [← (Prod.mk.inj h).2]
    exact hfind
  · split at h
    · rw [← (Prod.mk.inj h).2]
      exact findClient_removed _ e
    · simp at h

theorem frameLoop_slack (e fuel : Nat) (w : World) (buf : List UInt8) (hfuel : buf.length ≤ fuel) :
    Slack (frameLoop e fuel w buf).2 e := by
  induction fuel generalizing w buf with
  | zero =>
      apply slack_kept w e
      simp only [rxBufferSize]
      omega
  | succ fuel ih =>
      simp only [frameLoop]
      cases hnext : nextFrame buf with
      | incomplete =>
          exact slack_kept w e (nextToken_wait (g := fun _ => true) (s := .framing) (by simp only [nextToken, hnext]))
      | oversized => exact slack_removed w e
      | frame type payload rest =>
          have hlt := nextFrame_rest hnext
          dsimp only
          split
          next w' hdrop =>
            intro c hc
            rw [handleFrame_dropped hdrop] at hc
            exact absurd hc (by simp)
          · exact ih _ rest (by omega)

theorem parseBuffer_slack (w : World) (c : IngressClient) (buf : List UInt8) : Slack (parseBuffer w c buf).2 c.epoch := by
  simp only [parseBuffer]
  split
  · exact frameLoop_slack _ _ w buf (Nat.le_refl _)
  · split
    next hpre =>
      exact slack_kept w c.epoch (nextToken_wait (g := fun _ => true) (s := .preamble) (by simp only [nextToken, hpre]))
    · exact slack_removed w _
    · split
      next hdrop =>
        simp only [completePreamble] at hdrop
        split at hdrop
        · rw [← (Prod.mk.inj hdrop).2]
          exact slack_removed w _
        · simp at hdrop
      · exact frameLoop_slack _ _ _ _ (Nat.le_refl _)

theorem recvStep_slack (h : Slack w e) (r : Recv) : Slack (recvStep w e r).2 e := by
  simp only [recvStep]
  cases hfind : findClient w e with
  | none =>
      intro c hc
      rw [hfind] at hc
      exact absurd hc (by simp)
  | some c =>
      dsimp only
      split
      · exact slack_removed w e
      · cases r with
        | wouldBlock => exact h
        | failed => exact slack_removed w e
        | closed => exact slack_removed w e
        | data chunk =>
            dsimp only
            split
            · exact slack_removed w e
            · have hparse := parseBuffer_slack (stampActivity w e) c
                (c.rxBuf ++ chunk.take (rxBufferSize - c.rxBuf.length))
              rwa [(findClient_epoch hfind).1] at hparse

theorem recvLoop_slack (recvs : List Recv) (h : Slack w e) : Slack (recvLoop e recvs w) e := by
  induction recvs generalizing w with
  | nil => exact h
  | cons r rest ih =>
      have hstep := recvStep_slack h r
      simp only [recvLoop]
      generalize recvStep w e r = answer at hstep ⊢
      obtain ⟨ok, w₁⟩ := answer
      cases ok with
      | false => exact hstep
      | true => exact ih hstep

theorem Slack.map {w w' : World} (h : Slack w e) {f : IngressClient → IngressClient}
    (hclients : w'.clients = w.clients.map f) (hf : ∀ c, (f c).epoch = c.epoch ∧ (f c).rxBuf = c.rxBuf) : Slack w' e := by
  intro d hd
  rw [findClient_map hclients fun c => (hf c).1, Option.map_eq_some_iff] at hd
  obtain ⟨c, hc, rfl⟩ := hd
  rw [(hf c).2]
  exact h c hc

theorem revokeClient_slack (h : Slack w e) (e' : Nat) : Slack (revokeClient w e') e := by
  refine h.map rfl fun c => ?_
  split <;> exact ⟨rfl, rfl⟩

theorem expireOwner_slack (h : Slack w e) (sn : CString) : Slack (expireOwner w sn) e := by
  obtain ⟨f, hf, hd⟩ := (expireOwner_settles w sn).clients
  exact h.map hf fun c => ⟨(hd c).epoch, (hd c).rxBuf⟩

theorem cameraConnectionCurrent_slack (h : Slack w e) (c : IngressClient) :
    Slack (cameraConnectionCurrent w c).2 e := by
  simp only [cameraConnectionCurrent]
  split
  · exact h
  · split
    · exact h
    · split
      · exact revokeClient_slack h _
      · split
        · exact expireOwner_slack h _
        · exact revokeClient_slack (expireOwner_slack h _) _

theorem processIngressData_slack (h : Slack w e) (recvs : List Recv) :
    Slack (processIngressData w e recvs) e := by
  simp only [processIngressData, ifCurrent]
  cases hfind : findClient w e with
  | none => exact h
  | some c =>
      have hcur := cameraConnectionCurrent_slack h c
      dsimp only
      generalize cameraConnectionCurrent w c = answer at hcur ⊢
      obtain ⟨ok, w₁⟩ := answer
      cases ok with
      | false => exact slack_removed w₁ e
      | true => exact recvLoop_slack recvs hcur

theorem deliver_slack (h : Slack w e) (calls : List (List (List UInt8))) :
    Slack (deliver w e calls) e := by
  induction calls generalizing w with
  | nil => exact h
  | cons chunks rest ih => exact ih (processIngressData_slack h _)

structure Fresh (w : World) (e : Nat) : Prop where
  client : ∃ c, findClient w e = some c ∧ c.state = .preamble ∧ c.rxBuf = [] ∧ c.cameraRouteGeneration = 0 ∧
    c.cameraRouteRevoked = false

theorem Fresh.tracks (h : Fresh w e) :
    Tracks w e (parse (nextToken (admits w e)) .preamble []) w := by
  obtain ⟨c, hc, hstate, hbuf, hgen, hrev⟩ := h.client
  refine ⟨.of_sessions rfl, by simp [parse, drain, frames], by simp [hc, hstate, hbuf, parse, drain], fun d hd => ?_⟩
  obtain rfl : c = d := Option.some.inj (hc.symm.trans hd)
  exact ⟨hrev, .inl hgen, fun _ => hgen⟩

theorem Fresh.slack (h : Fresh w e) : Slack w e := by
  obtain ⟨c, hc, _, hbuf, _⟩ := h.client
  intro d hd
  obtain rfl : c = d := Option.some.inj (hc.symm.trans hd)
  simp [hbuf, rxBufferSize]

/-- Two ways of cutting one stream into calls and chunks end alike: connected
or not, and with the same dispatches. Whatever is delivered, the buffer is not
full when the loop looks at it, and what recv adds to it fits. -/
theorem delivery_independent_of_segmentation {w : World} {e : Nat} (hfresh : Fresh w e)
    {first second : List (List (List UInt8))} (hsame : first.flatten.flatten = second.flatten.flatten)
    (hfit₁ : FitsCalls e w first) (hfit₂ : FitsCalls e w second)
    (h₁ : Unexpired w (deliver w e first)) (h₂ : Unexpired w (deliver w e second)) :
    (findClient (deliver w e first) e).isSome = (findClient (deliver w e second) e).isSome ∧
    (deliver w e first).dispatched = (deliver w e second).dispatched ∧
    ∀ calls, rxLen (deliver w e calls) e < rxBufferSize ∧ ∀ chunk : List UInt8,
      rxLen (deliver w e calls) e + (chunk.take (rxBufferSize - rxLen (deliver w e calls) e)).length ≤ rxBufferSize := by
  have ht₁ := deliver_tracks first hfresh.tracks hfit₁ h₁
  have ht₂ := deliver_tracks second hfresh.tracks hfit₂ h₂
  rw [← hsame] at ht₂
  have hleft := congrArg Option.isSome (ht₁.client.trans ht₂.client.symm)
  refine ⟨by simpa using hleft, ht₁.dispatched.trans ht₂.dispatched.symm, fun calls => ?_⟩
  have hlt : rxLen (deliver w e calls) e < rxBufferSize := by
    have hslack := deliver_slack hfresh.slack calls
    simp only [rxLen]
    cases hfind : findClient (deliver w e calls) e with
    | none => simp [rxBufferSize]
    | some c => simpa using hslack c hfind
  refine ⟨hlt, fun chunk => ?_⟩
  rw [List.length_take]
  omega

theorem unexpired_of_all {w w' : World} (h : ∀ s ∈ w'.sessions, s.state ≠ .stopped) : Unexpired w w' := by
  intro i hi
  by_cases hlt : i < w'.sessions.length
  · exact absurd hi (h (session w' i) (by simp [session, hlt]))
  · simp [session, Nat.le_of_not_lt hlt] at hi

def acceptedDoor : World := run goodJanus [startDoor, .accept]

theorem acceptedDoor_fresh : Fresh acceptedDoor 1 := by
  have hclient : ((findClient acceptedDoor 1).map fun c =>
      (c.state, c.rxBuf, c.cameraRouteGeneration, c.cameraRouteRevoked)) = some (.preamble, [], 0, false) := by
    decide +kernel
  obtain ⟨c, hc, hview⟩ := Option.map_eq_some_iff.mp hclient
  simp only [Prod.mk.injEq] at hview
  exact ⟨c, hc, hview.1, hview.2.1, hview.2.2.1, hview.2.2.2⟩

def doorStream : List UInt8 := bytes "L4RT" ++ [1, 0, 0, 4] ++ bytes "door" ++ [1, 0, 0, 2, 7, 7, 1, 0]

theorem delivery_independent_of_segmentation_door :
    Fresh acceptedDoor 1 ∧
    (deliver acceptedDoor 1 [[doorStream]]).dispatched =
      (deliver acceptedDoor 1 [[doorStream.take 5], [(doorStream.drop 5).take 9, doorStream.drop 14]]).dispatched ∧
    (deliver acceptedDoor 1 [[doorStream]]).dispatched = [⟨1, 1, [7, 7]⟩] := by
  refine ⟨acceptedDoor_fresh, (delivery_independent_of_segmentation acceptedDoor_fresh (by decide) ?_ ?_ ?_ ?_).2.1, by decide +kernel⟩
  · exact ⟨⟨by decide, by decide +kernel, trivial⟩, trivial⟩
  · exact ⟨⟨by decide, by decide +kernel, trivial⟩,
      ⟨by decide, by decide +kernel, by decide, by decide +kernel, trivial⟩, trivial⟩
  · exact unexpired_of_all (by decide +kernel)
  · exact unexpired_of_all (by decide +kernel)

end EtranProcessing.Ingress.Segmentation
