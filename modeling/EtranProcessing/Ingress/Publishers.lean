import EtranProcessing.Ingress.Carriage
import EtranProcessing.Ingress.Restart
import EtranProcessing.Ingress.Tokens

namespace EtranProcessing.Ingress.Publishers

open Library.Tables Library.Runs
open State Routes Lifecycle Framing EventLoop Moves Settling ConnectionPaths Refinement
open SessionTable Tokens Carriage Restart

/-- What one connection's event does to the connections: nobody else is closed
but for a serial number in named, and nobody but the connection itself gets a
new name, one in named. -/
structure Meets (e : Nat) (named : CString → Prop) (w w' : World) : Prop where
  source : ∀ d ∈ w'.clients, (∃ c ∈ w.clients, SamePeer c d) ∨ d.epoch = e ∧ named d.sn
  kept : ∀ c ∈ w.clients, c.epoch ≠ e → (∃ d ∈ w'.clients, SamePeer c d) ∨ named c.sn

section Meeting

variable {e : Nat} {named : CString → Prop} {w : World}

variable {w' : World}

theorem Meets.of_map {f : IngressClient → IngressClient} (hw : w'.clients = w.clients.map f)
    (hf : ∀ c, SamePeer c (f c)) : Meets e named w w' := by
  constructor
  · intro d hd
    rw [hw] at hd
    obtain ⟨c, hc, rfl⟩ := List.mem_map.mp hd
    exact .inl ⟨c, hc, hf c⟩
  · intro c hc _
    refine .inl ⟨f c, ?_, hf c⟩
    rw [hw]
    exact List.mem_map_of_mem hc

theorem Meets.refl (w : World) : Meets e named w w := .of_map (f := id) (by simp) SamePeer.refl

theorem Meets.trans {v w' : World} (h : Meets e named w v) (h' : Meets e named v w') : Meets e named w w' := by
  constructor
  · intro d hd
    rcases h'.source d hd with ⟨c, hc, hcd⟩ | hnew
    · rcases h.source c hc with ⟨b, hb, hbc⟩ | ⟨he, hn⟩
      · exact .inl ⟨b, hb, hbc.trans hcd⟩
      · exact .inr ⟨hcd.epoch.trans he, hcd.sn ▸ hn⟩
    · exact .inr hnew
  · intro b hb hbe
    rcases h.kept b hb hbe with ⟨c, hc, hbc⟩ | hn
    · rcases h'.kept c hc (hbc.epoch ▸ hbe) with ⟨d, hd, hcd⟩ | hn
      · exact .inl ⟨d, hd, hbc.trans hcd⟩
      · exact .inr (hbc.sn ▸ hn)
    · exact .inr hn

theorem Meets.mono {named' : CString → Prop} (h : Meets e named w w') (hn : ∀ sn, named sn → named' sn) :
    Meets e named' w w' :=
  ⟨fun d hd => (h.source d hd).imp_right fun ⟨he, hd⟩ => ⟨he, hn _ hd⟩, fun c hc he => (h.kept c hc he).imp_right (hn _)⟩

theorem removeIngressClient_meets (w : World) (e : Nat) : Meets e named w (removeIngressClient w e) := by
  constructor
  · intro d hd
    exact .inl ⟨d, (List.mem_filter.mp hd).1, .refl d⟩
  · intro c hc he
    exact .inl ⟨c, List.mem_filter.mpr ⟨hc, by simpa using he⟩, .refl c⟩

theorem Recounts.meets (h : Recounts w w') : Meets e named w w' := by
  obtain ⟨f, hf, hb⟩ := h.clients
  exact .of_map hf fun c => (hb c).peer

theorem Settles.meets (h : Settles w w') : Meets e named w w' := by
  obtain ⟨f, hf, hd⟩ := h.clients
  exact .of_map hf fun c => (hd c).toSamePeer

theorem updateClient_meets (w : World) (e' : Nat) {f : IngressClient → IngressClient} (hf : ∀ c, SamePeer c (f c)) :
    Meets e named w (updateClient w e' f) := by
  refine .of_map (f := fun c => if c.epoch = e' then f c else c) rfl fun c => ?_
  split
  · exact hf c
  · exact .refl c

theorem cameraConnectionCurrent_meets (w : World) (c : IngressClient) :
    Meets e named w (cameraConnectionCurrent w c).2 := by
  have hrevoke (u : World) : Meets e named u (revokeClient u c.epoch) :=
    updateClient_meets u c.epoch fun d => by constructor <;> rfl
  simp only [cameraConnectionCurrent]
  split
  · exact .refl w
  · split
    · exact .refl w
    · split
      · exact hrevoke w
      · have hexpire : Meets e named w (expireOwner w c.sn) := Settles.meets (expireOwner_settles w c.sn)
        split
        · exact hexpire
        · exact hexpire.trans (hrevoke _)

theorem handleFrame_meets (w : World) (type : UInt8) (payload : List UInt8) :
    Meets e named w (handleFrame w e type payload).2 := by
  simp only [handleFrame]
  cases findClient w e with
  | none => exact .refl w
  | some c =>
      have hcurrent : Meets e named w (cameraConnectionCurrent w c).2 := cameraConnectionCurrent_meets w c
      dsimp only
      generalize cameraConnectionCurrent w c = answer at hcurrent ⊢
      obtain ⟨current, w₁⟩ := answer
      cases current with
      | false => exact hcurrent.trans (removeIngressClient_meets w₁ e)
      | true =>
          obtain ⟨f, hf, hs⟩ := (dispatchFrame_carries (expireOwner w₁ c.sn) e type payload).clients
          have hdispatch : Meets e named (expireOwner w₁ c.sn) (dispatchFrame (expireOwner w₁ c.sn) e type payload) :=
            .of_map hf fun d => (hs d).toSameBinding.peer
          exact hcurrent.trans ((Settles.meets (expireOwner_settles w₁ c.sn)).trans hdispatch)

theorem frameLoop_meets (fuel : Nat) (w : World) (buf : List UInt8) : Meets e named w (frameLoop e fuel w buf).2 := by
  have hkeep (w : World) (buf : List UInt8) : Meets e named w (updateClient w e fun c => { c with rxBuf := buf }) :=
    updateClient_meets w e fun c => by constructor <;> rfl
  induction fuel generalizing w buf with
  | zero => exact hkeep w buf
  | succ fuel ih =>
      simp only [frameLoop]
      split
      · exact hkeep w buf
      · exact removeIngressClient_meets w e
      next type payload rest _ =>
        have hframe : Meets e named w (handleFrame w e type payload).2 := handleFrame_meets w type payload
        generalize handleFrame w e type payload = answer at hframe ⊢
        obtain ⟨alive, w₁⟩ := answer
        cases alive with
        | false => exact hframe
        | true => exact hframe.trans (ih w₁ rest)

theorem same_epoch (hd : Doors (registry w)) {c d : IngressClient} (hc : c ∈ w.clients) (hd' : d ∈ w.clients)
    (he : c.epoch = d.epoch) : c = d :=
  List.inj_on_of_nodup_map hd.nodup hc hd' he

theorem closeDuplicate_meets (hd : Doors (registry w)) (e : Nat) (sn : CString) :
    Meets e (· = sn) w (closeDuplicate w e sn) := by
  simp only [closeDuplicate]
  split
  · exact .refl w
  next old hold =>
    have hfound := List.find?_some hold
    simp only [Bool.and_eq_true, bne_iff_ne, beq_iff_eq] at hfound
    constructor
    · intro d hd
      exact .inl ⟨d, (List.mem_filter.mp hd).1, .refl d⟩
    · intro c hc _
      by_cases hce : c.epoch = old.epoch
      · rw [same_epoch hd hc (List.mem_of_find?_eq_some hold) hce]
        exact .inr hfound.2
      · exact .inl ⟨c, List.mem_filter.mpr ⟨hc, by simpa using hce⟩, .refl c⟩

theorem bind_meets (w : World) (e : Nat) (sn : CString) : Meets e (· = sn) w (updateClient w e (bindClient w sn)) := by
  constructor
  · intro d hd
    obtain ⟨c, hc, rfl⟩ := List.mem_map.mp hd
    by_cases he : c.epoch = e
    · rw [if_pos he]
      exact .inr ⟨he, rfl⟩
    · rw [if_neg he]
      exact .inl ⟨c, hc, .refl c⟩
  · intro c hc he
    refine .inl ⟨c, List.mem_map.mpr ⟨c, hc, by rw [if_neg he]⟩, .refl c⟩

theorem completePreamble_meets (hd : Doors (registry w)) (e : Nat) (sn : List UInt8) :
    Meets e (· = untilNul sn) w (completePreamble w e sn).2 := by
  simp only [completePreamble]
  split
  · exact removeIngressClient_meets w e
  · exact (closeDuplicate_meets hd e _).trans (bind_meets _ e _)

def Names (c : IngressClient) (buf : List UInt8) (sn : CString) : Prop :=
  c.state = .preamble ∧ ∃ bytes rest, parsePreamble buf = .complete bytes rest ∧ untilNul bytes = sn

theorem parseBuffer_meets (hd : Doors (registry w)) (c : IngressClient) (buf : List UInt8) :
    Meets c.epoch (Names c buf) w (parseBuffer w c buf).2 := by
  simp only [parseBuffer]
  split
  · exact frameLoop_meets _ w buf
  next hstate =>
    split
    · exact updateClient_meets w c.epoch fun d => by constructor <;> rfl
    · exact removeIngressClient_meets w c.epoch
    next sn rest hparse =>
      have hcomplete : Meets c.epoch (Names c buf) w (completePreamble w c.epoch sn).2 :=
        (completePreamble_meets hd c.epoch sn).mono fun s hs => ⟨hstate, sn, rest, hparse, hs.symm⟩
      generalize completePreamble w c.epoch sn = answer at hcomplete ⊢
      obtain ⟨alive, w₁⟩ := answer
      cases alive with
      | false => exact hcomplete
      | true => exact hcomplete.trans (frameLoop_meets _ w₁ rest)

end Meeting

section Reading

variable {w : World} {e : Nat}

def Past (w : World) (e : Nat) : Prop := ∀ d ∈ w.clients, d.epoch = e → d.state = .framing

theorem Past.meets {w' : World} (h : Past w e) (hm : Meets e (fun _ => False) w w') : Past w' e := by
  intro d hd he
  rcases hm.source d hd with ⟨c, hc, hcd⟩ | ⟨_, hfalse⟩
  · exact hcd.state.trans (h c hc (hcd.epoch.symm.trans he))
  · exact hfalse.elim

theorem completePreamble_past {sn : List UInt8} (h : (completePreamble w e sn).1 = true) :
    Past (completePreamble w e sn).2 e := by
  simp only [completePreamble] at h ⊢
  split
  next hold => simp [hold] at h
  · intro d hd he
    obtain ⟨c, _, rfl⟩ := List.mem_map.mp hd
    by_cases hce : c.epoch = e
    · rw [if_pos hce]
      rfl
    · rw [if_neg hce] at he
      exact absurd he hce

variable {buf : List UInt8}

theorem parseBuffer_next {c d : IngressClient}
    (hc : ∀ b ∈ w.clients, b.epoch = c.epoch → b.state = c.state)
    (h : (parseBuffer w c buf).1 = true) (hfind : findClient (parseBuffer w c buf).2 c.epoch = some d) :
    d.state = .framing ∨ c.state = .preamble ∧ parsePreamble buf = .incomplete ∧ d.rxBuf = buf := by
  obtain ⟨hde, hdm⟩ := findClient_epoch hfind
  simp only [parseBuffer] at h hfind hdm
  split at hdm
  next hstate =>
    have hpast : Past w c.epoch := fun b hb he => (hc b hb he).trans hstate
    exact .inl (hpast.meets (frameLoop_meets _ w buf) d hdm hde)
  next hstate =>
    split at hdm
    next hparse =>
      obtain ⟨b, hb, rfl⟩ := List.mem_map.mp hdm
      refine .inr ⟨hstate, hparse, ?_⟩
      by_cases he : b.epoch = c.epoch
      · simp [he]
      · simp [he] at hde
    · exact absurd hde (by simpa using (List.mem_filter.mp hdm).2)
    next sn rest hparse =>
      have hpast : (completePreamble w c.epoch sn).1 = true → Past (completePreamble w c.epoch sn).2 c.epoch :=
        completePreamble_past
      simp only [hstate, hparse] at h
      generalize completePreamble w c.epoch sn = answer at hpast h hdm
      obtain ⟨alive, w₁⟩ := answer
      cases alive with
      | false => simp at h
      | true => exact .inl ((hpast rfl).meets (frameLoop_meets _ w₁ rest) d hdm hde)

def received : List Recv → List UInt8
  | .data chunk :: rest => chunk ++ received rest
  | _ => []

def Introduces (w : World) (e : Nat) (recvs : List Recv) (sn : CString) : Prop :=
  ∃ c, findClient w e = some c ∧ Names c (c.rxBuf ++ received recvs) sn

theorem Names.append {c : IngressClient} {sn : CString} (h : Names c buf sn) (more : List UInt8) :
    Names c (buf ++ more) sn := by
  obtain ⟨hstate, bytes, rest, hparse, hsn⟩ := h
  refine ⟨hstate, bytes, rest ++ more, ?_, hsn⟩
  rw [parsePreamble_append, hparse]

theorem parsePreamble_incomplete (h : parsePreamble buf = .incomplete) :
    buf.length < rxBufferSize := by
  have hmax : 135 < rxBufferSize := by decide
  simp only [parsePreamble] at h
  split at h
  · omega
  · split at h
    · cases h
    · split at h
      · cases h
      · split at h
        · omega
        · cases h

theorem recvStep_meets (hs : Sane (registry w)) (r : Recv) (rest : List Recv) :
    Meets e (Introduces w e (r :: rest)) w (recvStep w e r).2 ∧
    ((recvStep w e r).1 = true → ∀ sn, Introduces (recvStep w e r).2 e rest sn → Introduces w e (r :: rest) sn) := by
  have hstop (u : World) : false = true → ∀ sn, Introduces u e rest sn → Introduces w e (r :: rest) sn := by simp
  simp only [recvStep]
  cases hfind : findClient w e with
  | none => exact ⟨.refl w, hstop _⟩
  | some c =>
      obtain ⟨rfl, hc⟩ := findClient_epoch hfind
      dsimp only
      split
      · exact ⟨removeIngressClient_meets w _, hstop _⟩
      next hroom =>
        split
        · exact ⟨.refl w, hstop _⟩
        · exact ⟨removeIngressClient_meets w _, hstop _⟩
        · exact ⟨removeIngressClient_meets w _, hstop _⟩
        next chunk =>
          split
          · exact ⟨removeIngressClient_meets w _, hstop _⟩
          · have hstamp := stampActivity_recounts w c.epoch
            have hs₁ : Sane (registry (stampActivity w c.epoch)) := (hstamp.path (p := anything)).sane hs
            have hstates : ∀ b ∈ (stampActivity w c.epoch).clients, b.epoch = c.epoch → b.state = c.state := by
              obtain ⟨f, hf, hb⟩ := hstamp.clients
              intro b hmem he
              rw [hf] at hmem
              obtain ⟨d, hd, rfl⟩ := List.mem_map.mp hmem
              rw [(hb d).state, same_epoch hs.doors hd hc ((hb d).epoch.symm.trans he)]
            have hcut : chunk.take (rxBufferSize - c.rxBuf.length) ++ chunk.drop (rxBufferSize - c.rxBuf.length) = chunk :=
              List.take_append_drop _ _
            constructor
            · refine (Recounts.meets hstamp).trans ((parseBuffer_meets hs₁.doors c _).mono fun sn hn => ?_)
              refine ⟨c, hfind, ?_⟩
              have hmore := hn.append (chunk.drop (rxBufferSize - c.rxBuf.length) ++ received rest)
              rw [List.append_assoc, ← List.append_assoc (chunk.take _), hcut] at hmore
              exact hmore
            · rintro hgo sn ⟨d, hd, hnames⟩
              rcases parseBuffer_next hstates hgo hd with hframing | ⟨hstate, hincomplete, hbuf⟩
              · exact absurd (hframing.symm.trans hnames.1) (by simp)
              · refine ⟨c, hfind, hstate, ?_⟩
                have hlen := parsePreamble_incomplete hincomplete
                have hwhole : chunk.take (rxBufferSize - c.rxBuf.length) = chunk := by
                  apply List.take_of_length_le
                  rw [List.length_append, List.length_take] at hlen
                  omega
                rw [hbuf, hwhole, List.append_assoc] at hnames
                exact hnames.2

theorem recvLoop_meets (recvs : List Recv) (w : World) (hs : Sane (registry w)) :
    Meets e (Introduces w e recvs) w (recvLoop e recvs w) := by
  induction recvs generalizing w with
  | nil => exact .refl w
  | cons r rest ih =>
      simp only [recvLoop]
      obtain ⟨hmeets, hnext⟩ := recvStep_meets (e := e) hs r rest
      have hpath := recvStep_path (p := anything) trivial w e r hs
      generalize recvStep w e r = answer at hmeets hnext hpath ⊢
      obtain ⟨more, w₁⟩ := answer
      cases more with
      | false => exact hmeets
      | true => exact hmeets.trans ((ih w₁ (hpath.sane hs)).mono (hnext rfl))

theorem ifCurrent_meets {recvs : List Recv} {f : World → World} (hs : Sane (registry w))
    (hf : ∀ u, Sane (registry u) → Meets e (Introduces u e recvs) u (f u)) :
    Meets e (Introduces w e recvs) w (ifCurrent w e f) := by
  simp only [ifCurrent]
  cases hfind : findClient w e with
  | none => exact .refl w
  | some c =>
      have hmeets : Meets e (Introduces w e recvs) w (cameraConnectionCurrent w c).2 := cameraConnectionCurrent_meets w c
      have hpath := cameraConnectionCurrent_path (p := anything) w c
      dsimp only
      cases hcur : cameraConnectionCurrent w c with
      | mk current w₁ =>
          rw [hcur] at hmeets hpath
          cases current with
          | false => exact hmeets.trans (removeIngressClient_meets w₁ e)
          | true =>
              refine hmeets.trans ((hf w₁ (hpath.sane hs)).mono ?_)
              rintro sn ⟨d, hd, hnames⟩
              obtain ⟨g, hg, hdims⟩ := (cameraConnectionCurrent_true hcur).2.clients
              rw [findClient_map hg fun c => (hdims c).epoch, hfind, Option.map_some, Option.some_inj] at hd
              subst hd
              rw [(hdims c).rxBuf] at hnames
              exact ⟨c, hfind, (hdims c).state.symm.trans hnames.1, hnames.2⟩

theorem readable_meets (hs : Sane (registry w)) (e : Nat) (recvs : List Recv) :
    Meets e (Introduces w e recvs) w (step w (.readable e recvs)) := by
  apply ifCurrent_meets hs
  intro u hu
  apply ifCurrent_meets hu
  intro v hv
  exact recvLoop_meets recvs v hv

end Reading

/-- The event completes a preamble whose serial number starts with a NUL, so that
it is empty as a C string. -/
def Nameless (w : World) : Event → Prop
  | .readable e recvs => Introduces w e recvs []
  | _ => False

def Named (r : Registry) : Prop := ∀ c ∈ r.clients, c.state = .framing → c.sn ≠ []

theorem Named.map {r r' : Registry} (h : Named r) {f : IngressClient → IngressClient} (hc : r'.clients = r.clients.map f)
    (hf : ∀ c, SamePeer c (f c)) : Named r' := by
  intro d hd hstate
  rw [hc] at hd
  obtain ⟨c, hc, rfl⟩ := List.mem_map.mp hd
  rw [(hf c).sn]
  exact h c hc ((hf c).state.symm.trans hstate)

def silent : Policy := { anything with hello := False }

theorem Named.move {r r' : Registry} (h : Named r) (hm : Move silent r r') : Named r' := by
  cases hm with
  | stop i =>
      obtain ⟨f, hf, hp⟩ := dropTargets_peers r (r.slots i).sn
      exact h.map hf hp
  | start i t _ =>
      obtain ⟨f, hf, hp⟩ := retarget_peers t.sn t.rtpPort t.rtcpPort r.clients
      exact h.map hf hp
  | reroute i _ =>
      obtain ⟨f, hf, hp⟩ := retarget_peers (r.slots i).sn (r.slots i).rtpPort (r.slots i).rtcpPort r.clients
      exact h.map hf hp
  | put sn rtp rtcp _ =>
      obtain ⟨f, hf, hp⟩ := retarget_peers sn rtp rtcp r.clients
      exact h.map hf hp
  | drop sn _ =>
      obtain ⟨f, hf, hp⟩ := dropTargets_peers r sn
      exact h.map hf hp
  | orphan e sn =>
      obtain ⟨f, hf, hp⟩ := retarget_peers sn 0 0 r.clients
      exact h.map hf hp
  | accept c _ _ _ hstate =>
      intro d hd hframing
      rcases List.mem_append.mp hd with hd | hd
      · exact h d hd hframing
      · rw [List.mem_singleton] at hd
        rw [hd, hstate] at hframing
        exact absurd hframing (by simp)
  | remove e => exact fun d hd => h d (List.mem_filter.mp hd).1
  | recount f hf => exact h.map rfl fun c => (hf c).peer
  | revoke which =>
      refine h.map rfl fun c => ?_
      split
      · constructor <;> rfl
      · exact .refl c
  | bind _ _ _ _ hhello _ => exact hhello.elim
  | _ => exact h

variable {w : World}

theorem Named.step (h : Named (registry w)) (hs : Sane (registry w)) (e : Event) (hok : ¬ Nameless w e) :
    Named (registry (step w e)) := by
  by_cases hreads : Reads e
  · cases e with
    | readable e recvs =>
        intro d hd hstate
        rcases (readable_meets hs e recvs).source d hd with ⟨c, hc, hcd⟩ | ⟨_, hnames⟩
        · rw [hcd.sn]
          exact h c hc (hcd.state.symm.trans hstate)
        · intro hempty
          rw [hempty] at hnames
          exact hok hnames
    | _ => exact hreads.elim
  · have hpermits : Permits silent w e :=
      ⟨fun _ => trivial, fun _ => trivial, fun _ => trivial, fun _ => trivial, fun _ _ _ => trivial, hreads⟩
    exact kept_along (fun _ _ hm h => h.move hm) (step_path w e hs hpermits) h

theorem restoreInto_clients (h : w.clients = []) (c : MediaSession) : (restoreInto w c).clients = [] := by
  have hoccupy (u : World) (i : Nat) (hu : u.clients = []) : (occupy u i c).clients = [] := hu
  simp only [restoreInto]
  cases halloc : allocateSessionSlot w with
  | none => exact h
  | some slot =>
      obtain ⟨i, w₁⟩ := slot
      obtain ⟨sessions, rfl⟩ := allocateSessionSlot_sessions halloc
      dsimp only
      split
      · exact hoccupy _ i h
      · cases hup : upsertRoute { w with sessions := sessions } c.sn c.rtpPort c.rtcpPort with
        | none => exact h
        | some w₂ =>
            obtain rfl := upsertRoute_some hup
            apply hoccupy
            simp [retarget, h]

theorem restoreRecord_clients {valid : MediaStart → Bool} (h : w.clients = []) (p : PersistedSession) :
    (restoreRecord valid w p).clients = [] := by
  simp only [restoreRecord]
  split
  · exact h
  next c _ =>
    split
    · exact h
    · have hclock := (restoreLease_spec w c p).1
      generalize restoreLease w c p = answer at hclock ⊢
      obtain ⟨t, w₁⟩ := answer
      obtain ⟨_, _, _, rfl⟩ := hclock
      apply restoreInto_clients
      exact h

theorem mediaV2Restore_clients {valid : MediaStart → Bool} (h : w.clients = []) (keys : List CString) :
    (mediaV2Restore valid w keys).clients = [] := by
  simp only [mediaV2Restore]
  split
  · exact h
  next hredis =>
    clear hredis
    induction keys generalizing w with
    | nil => exact h
    | cons id keys ih =>
        apply ih
        simp only [restoreKey]
        split
        · exact restoreRecord_clients h _
        · exact h

theorem started_clients (h : Started w) : w.clients = [] := by
  obtain ⟨v, valid, keys, hv, _, rfl⟩ := h
  exact mediaV2Restore_clients hv.clients keys

theorem run_named (h : Started w) {events : List Event}
    (hok : Along step (fun w e => ¬ Nameless w e) w events) :
    Named (registry (run w events)) := by
  have hstart : Named (registry w) := by
    intro c hc
    rw [show (registry w).clients = [] from started_clients h] at hc
    exact absurd hc (by simp)
  have hs := h.sane
  clear h
  induction events generalizing w with
  | nil => exact hstart
  | cons e events ih =>
      have hpath := step_path (p := anything) w e hs (permits_anything w e)
      exact ih hok.2 (hstart.step hs e hok.1) (hpath.sane hs)

/-- At most one publisher per device. In every run in which no preamble brings a
serial number that starts with a NUL, no two connections past their preamble
have the same name, and an event on one connection closes another one only if
it completes a preamble under the name of that other, which has completed its
own. -/
theorem one_publisher_per_device {w : World} (h : Started w) {events : List Event}
    (hok : Along step (fun w e => ¬ Nameless w e) w events) :
    (∀ c ∈ (run w events).clients, ∀ d ∈ (run w events).clients, c.state = .framing → d.state = .framing →
      c.sn = d.sn → c = d) ∧
    ∀ e recvs, ¬ Nameless (run w events) (.readable e recvs) → ∀ c ∈ (run w events).clients, c.epoch ≠ e →
      (∃ d ∈ (step (run w events) (.readable e recvs)).clients, SamePeer c d) ∨
      c.state = .framing ∧ Introduces (run w events) e recvs c.sn := by
  have hs := h.run_sane events
  have hnamed := run_named h hok
  constructor
  · intro c hc d hd hcs _ he
    exact hs.doors.named_inj hc hd he (hnamed c hc hcs)
  · intro e recvs hname c hc hce
    rcases (readable_meets hs e recvs).kept c hc hce with hkept | hclosed
    · exact .inl hkept
    · refine .inr ⟨?_, hclosed⟩
      cases hstate : c.state with
      | framing => rfl
      | preamble =>
          rw [hs.doors.unnamed c hc hstate] at hclosed
          exact absurd hclosed hname

def introduction (w : World) (e : Nat) (recvs : List Recv) : Option CString :=
  (findClient w e).bind fun c =>
    match c.state, parsePreamble (c.rxBuf ++ received recvs) with
    | .preamble, .complete bytes _ => some (untilNul bytes)
    | _, _ => none

theorem introduces_iff (w : World) (e : Nat) (recvs : List Recv) (sn : CString) :
    Introduces w e recvs sn ↔ introduction w e recvs = some sn := by
  simp only [Introduces, introduction, Names]
  cases findClient w e with
  | none => simp
  | some c =>
      cases hstate : c.state with
      | framing => simp [hstate]
      | preamble => cases hparse : parsePreamble (c.rxBuf ++ received recvs) <;> simp [hstate, hparse]

def hello (sn : List UInt8) : Recv := .data (bytes "L4RT" ++ [1, 0, 0, UInt8.ofNat sn.length] ++ sn)

/-- Two connections of two devices, and a third one that is about to take over
from the first. -/
def beforeTakeover : List Event :=
  [.accept, .accept, .accept, .readable 1 [hello (bytes "door")], .readable 2 [hello (bytes "gate")]]

theorem one_publisher_per_device_door :
    (∀ c ∈ (run goodJanus beforeTakeover).clients, ∀ d ∈ (run goodJanus beforeTakeover).clients, c.state = .framing →
      d.state = .framing → c.sn = d.sn → c = d) ∧
    ((run goodJanus (beforeTakeover ++ [.readable 3 [hello (bytes "door")]])).clients.map fun c => c.epoch) = [2, 3] := by
  have hfirst : introduction (run goodJanus (beforeTakeover.take 3)) 1 [hello (bytes "door")] = some (bytes "door") := by
    decide +kernel
  have hsecond : introduction (run goodJanus (beforeTakeover.take 4)) 2 [hello (bytes "gate")] = some (bytes "gate") := by
    decide +kernel
  refine ⟨(one_publisher_per_device (Initial.started (initial_sample _)) ?_).1, by decide +kernel⟩
  refine ⟨id, id, id, fun hname => ?_, fun hname => ?_, trivial⟩
  · have hnone := (introduces_iff _ _ _ _).mp hname
    exact absurd (hfirst.symm.trans hnone) (by decide)
  · have hnone := (introduces_iff _ _ _ _).mp hname
    exact absurd (hsecond.symm.trans hnone) (by decide)

def strangers : List Event := [.accept, .accept, .accept, .accept, .readable 3 [hello [0]]]

/-- A nameless preamble closes a connection that is still in its preamble, and
in the end two connections have the same name. -/
theorem nameless_preambles_collide :
    Initial goodJanus ∧
    (((run goodJanus (strangers.take 4)).clients.map fun c => (c.epoch, c.state)) =
      [(1, .preamble), (2, .preamble), (3, .preamble), (4, .preamble)]) ∧
    (((run goodJanus strangers).clients.map fun c => (c.epoch, c.state)) =
      [(2, .preamble), (3, .framing), (4, .preamble)]) ∧
    (((run goodJanus (strangers ++ [.readable 4 [hello [0]]])).clients.map fun c => (c.epoch, c.state, c.sn)) =
      [(3, .framing, []), (4, .framing, [])]) := by
  refine ⟨initial_sample _, ?_⟩
  decide +kernel

end EtranProcessing.Ingress.Publishers
