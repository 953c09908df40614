import EtranProcessing.Deployment.Decisions
import EtranProcessing.Deployment.JournalFrames
import EtranProcessing.Library.Runs

namespace EtranProcessing.Deployment.CommitExclusion

open Library.Runs Journal JournalFrames Decisions
open Communication (Move)

section Codec

variable {P : Type} (f : ResultFormat P) (sha256 : Bytes → Digest) (plan : Plan)

theorem length_resultBody (phase : P) (error : UInt32) : (resultBody f plan phase error).length = 64 := by
  simp [resultBody, f.magicSize, plan.operation.size, plan.digest.size]

theorem resultDecode_resultEncode {phase : P} {error : UInt32} (h : f.valid phase error) :
    resultDecode f sha256 plan (resultEncode f sha256 plan phase error) = some (phase, error) := by
  have hbody := length_resultBody f plan phase error
  have hdigest := (storeHash sha256 (resultBody f plan phase error) []).size
  generalize hhash : (storeHash sha256 (resultBody f plan phase error) []).bytes = hash at hdigest
  have hsize : (resultEncode f sha256 plan phase error).length = 96 := by
    rw [resultEncode, hhash, List.length_append, hbody, hdigest]
  have hmagic : (resultEncode f sha256 plan phase error).take 8 = f.magic := by
    simp only [resultEncode, resultBody, List.append_assoc]
    exact List.take_left' f.magicSize
  have hoperation : ((resultEncode f sha256 plan phase error).drop 8).take 16 = plan.operation.bytes := by
    simp only [resultEncode, resultBody, List.append_assoc]
    rw [List.drop_left' f.magicSize]
    exact List.take_left' plan.operation.size
  have hplan : ((resultEncode f sha256 plan phase error).drop 24).take 32 = plan.digest.bytes := by
    simp only [resultEncode, resultBody, List.append_assoc]
    rw [← List.append_assoc, List.drop_left' (by simp [f.magicSize, plan.operation.size])]
    exact List.take_left' plan.digest.size
  have hphase : get32 ((resultEncode f sha256 plan phase error).drop 56) = f.code phase := by
    simp only [resultEncode, resultBody, List.append_assoc]
    rw [← List.append_assoc, ← List.append_assoc,
      List.drop_left' (by simp [f.magicSize, plan.operation.size, plan.digest.size])]
    exact get32_storeU32 (f.codeSmall phase) _
  have herror : get32 ((resultEncode f sha256 plan phase error).drop 60) = error.toNat := by
    simp only [resultEncode, resultBody, List.append_assoc]
    rw [← List.append_assoc, ← List.append_assoc, ← List.append_assoc,
      List.drop_left' (by simp [f.magicSize, plan.operation.size, plan.digest.size])]
    exact get32_storeU32 error.toNat_lt _
  have hfront : (resultEncode f sha256 plan phase error).take 64 = resultBody f plan phase error :=
    List.take_left' hbody
  have hback : ((resultEncode f sha256 plan phase error).drop 64).take 32 = hash := by
    rw [resultEncode, hhash, List.drop_left' hbody]
    exact List.take_of_length_le (Nat.le_of_eq hdigest)
  have hchecked : (resultEncode f sha256 plan phase error).length = 96 ∧
      (resultEncode f sha256 plan phase error).take 8 = f.magic ∧
      ((resultEncode f sha256 plan phase error).drop 8).take 16 = plan.operation.bytes ∧
      ((resultEncode f sha256 plan phase error).drop 24).take 32 = plan.digest.bytes ∧
      (storeHash sha256 ((resultEncode f sha256 plan phase error).take 64) []).bytes =
        ((resultEncode f sha256 plan phase error).drop 64).take 32 := by
    refine ⟨hsize, hmagic, hoperation, hplan, ?_⟩
    rw [hfront, hhash, hback]
  unfold resultDecode
  rw [if_pos hchecked, hphase, herror, f.ofCode_code]
  simp only [UInt32.ofNat_toNat, if_pos h]

end Codec

theorem unlock_kept {l : Option Nat} {i j : Nat} (hj : j ≠ i) (hl : l = some j) :
    (if l = some i then none else l) = some j := by
  rw [if_neg (by rw [hl]; exact fun heq => hj (Option.some.inj heq)), hl]

theorem update_cases {α : Type} {f : Nat → Option α} {i j : Nat} {a b : α}
    (h : Function.update f i (some a) j = some b) : (j = i ∧ b = a) ∨ (j ≠ i ∧ f j = some b) := by
  by_cases hj : j = i
  · subst hj
    rw [Function.update_self] at h
    exact .inl ⟨rfl, (Option.some.inj h).symm⟩
  · rw [Function.update_of_ne hj] at h
    exact .inr ⟨hj, h⟩

section Communication

open Communication

variable {sha256 : Bytes → Digest} {plan : Plan}

def phase (sha256 : Bytes → Digest) (plan : Plan) (s : Store) : Option Phase := (s.read sha256 plan).map Prod.fst

def CallOk (sha256 : Bytes → Digest) (plan : Plan) (s : Store) (g : Guard) : Prop :=
  match g.call with
  | .idle => True
  | .beginLock p now boot =>
    g.locked = true ∧ phase sha256 plan s = some p ∧ (p = .wait ∨ p = .started) ∧
      (boot = true ∨ plan.deadlineUtc ≤ now)
  | .beginPublish now boot =>
    g.locked = true ∧ g.running = true ∧ phase sha256 plan s = some .wait ∧ (boot = true ∨ plan.deadlineUtc ≤ now)
  | .finishPublish desired error now =>
    g.locked = true ∧ phaseValid desired error ∧
      ((desired = .committed ∧ phase sha256 plan s = some .wait ∧ plan.armedUtc ≤ now ∧ now < plan.deadlineUtc) ∨
        ((desired = .restored ∨ desired = .unconfirmed ∨ desired = .failed) ∧
          phase sha256 plan s = some .started ∧ g.running = true))

structure Inv (sha256 : Bytes → Digest) (plan : Plan) (s : Store) : Prop where
  result : ∀ b, s.result = some b → ∃ p e, phaseValid p e ∧ b = resultEncode communicationResult sha256 plan p e
  locked : ∀ i g, s.guards i = some g → g.locked = true → s.decisionLock = some i
  running : ∀ i g, s.guards i = some g → g.running = true → s.runnerLock = some i
  call : ∀ i g, s.guards i = some g → CallOk sha256 plan s g

variable {s : Store} {g : Guard} {i : Nat} {p : Phase}

theorem CallOk.locked (h : CallOk sha256 plan s g) (hcall : g.call ≠ .idle) :
    g.locked = true := by
  unfold CallOk at h
  cases hc : g.call with
  | idle => exact absurd hc hcall
  | beginLock p now boot | beginPublish now boot | finishPublish desired error now =>
      rw [hc] at h
      exact h.1

theorem CallOk.idle (h : g.call = .idle) : CallOk sha256 plan s g := by
  simp [CallOk, h]

theorem CallOk.of_result {s s' : Store} (h : CallOk sha256 plan s g) (hresult : s'.result = s.result) :
    CallOk sha256 plan s' g := by
  have hphase : phase sha256 plan s' = phase sha256 plan s := by simp only [phase, Store.read, hresult]
  simpa only [CallOk, hphase] using h

theorem Inv.update (h : Inv sha256 plan s) {s' : Store}
    (hguards : s'.guards = Function.update s.guards i (some g))
    (hresult : s'.result = s.result ∨ (s.decisionLock = some i ∧ ∃ p e, phaseValid p e ∧
      s'.result = some (resultEncode communicationResult sha256 plan p e)))
    (hdecision : ∀ j, j ≠ i → s.decisionLock = some j → s'.decisionLock = some j)
    (hrunner : ∀ j, j ≠ i → s.runnerLock = some j → s'.runnerLock = some j)
    (hlocked : g.locked = true → s'.decisionLock = some i) (hrunning : g.running = true → s'.runnerLock = some i)
    (hcall : CallOk sha256 plan s' g) : Inv sha256 plan s' := by
  have hguard {j : Nat} {g' : Guard} (hg' : s'.guards j = some g') := update_cases (hguards ▸ hg')
  constructor
  case result =>
    intro b hb
    rcases hresult with hkept | ⟨_, p, e, hvalid, hnew⟩
    · exact h.result b (hkept ▸ hb)
    · exact ⟨p, e, hvalid, Option.some.inj (hb.symm.trans hnew)⟩
  case locked =>
    intro j g' hg' hl
    obtain ⟨rfl, rfl⟩ | ⟨hj, hold⟩ := hguard hg'
    · exact hlocked hl
    · exact hdecision j hj (h.locked j g' hold hl)
  case running =>
    intro j g' hg' hr
    obtain ⟨rfl, rfl⟩ | ⟨hj, hold⟩ := hguard hg'
    · exact hrunning hr
    · exact hrunner j hj (h.running j g' hold hr)
  case call =>
    intro j g' hg'
    obtain ⟨rfl, rfl⟩ | ⟨hj, hold⟩ := hguard hg'
    · exact hcall
    · have hbefore := h.call j g' hold
      rcases hresult with hkept | ⟨hmine, _⟩
      · exact hbefore.of_result hkept
      · by_cases hidle : g'.call = .idle
        · exact CallOk.idle hidle
        · have htheirs := h.locked j g' hold (hbefore.locked hidle)
          rw [hmine] at htheirs
          exact absurd (Option.some.inj htheirs).symm hj

theorem phase_published {e : UInt32} (hvalid : phaseValid p e)
    (h : s.result = some (resultEncode communicationResult sha256 plan p e)) : phase sha256 plan s = some p := by
  have hdecoded := resultDecode_resultEncode communicationResult sha256 plan hvalid
  simp [phase, Store.read, h, hdecoded]

/-- What one event does to the stored phase, and who does it. -/
inductive Moved (sha256 : Bytes → Digest) (plan : Plan) (s : Store) (e : Event) (s' : Store) : Prop where
  | kept (h : phase sha256 plan s' = phase sha256 plan s)
  | committed (i : Nat) (g : Guard) (m : Move) (error : UInt32) (now : Nat) (he : e = .publish i m)
      (hg : s.guards i = some g) (hcall : g.call = .finishPublish .committed error now)
      (hbefore : phase sha256 plan s = some .wait) (hafter : phase sha256 plan s' = some .committed)
      (harmed : plan.armedUtc ≤ now) (hdeadline : now < plan.deadlineUtc)
  | started (i : Nat) (g : Guard) (m : Move) (now : Nat) (boot : Bool) (he : e = .publish i m)
      (hg : s.guards i = some g) (hcall : g.call = .beginPublish now boot)
      (hbefore : phase sha256 plan s = some .wait) (hafter : phase sha256 plan s' = some .started)
      (hdeadline : boot = true ∨ plan.deadlineUtc ≤ now)
  | finished (i : Nat) (g : Guard) (m : Move) (p : Phase) (he : e = .publish i m) (hg : s.guards i = some g)
      (hrunning : g.running = true) (hbefore : phase sha256 plan s = some .started)
      (hafter : phase sha256 plan s' = some p) (hfinal : p = .restored ∨ p = .unconfirmed ∨ p = .failed)

theorem Moved.of_result {s s' : Store} {e : Event} (h : s'.result = s.result) : Moved sha256 plan s e s' :=
  .kept (by simp only [phase, Store.read, h])

theorem Inv.put (h : Inv sha256 plan s) {c : Call} (hg : s.guards i = some g)
    (hcall : CallOk sha256 plan s { g with call := c }) : Inv sha256 plan (s.put i { g with call := c }) :=
  h.update rfl (.inl rfl) (fun _ _ hj => hj) (fun _ _ hj => hj) (h.locked i g hg) (h.running i g hg)
    (hcall.of_result rfl)

theorem begin_inv (h : Inv sha256 plan s) (hg : s.guards i = some g) (now : Nat)
    (boot marker : Bool) : Inv sha256 plan (decisionBegin sha256 plan s i g now boot marker) ∧
      (decisionBegin sha256 plan s i g now boot marker).result = s.result := by
  unfold decisionBegin
  split
  next => exact ⟨h, rfl⟩
  next hlocked =>
    cases hread : s.read sha256 plan with
    | none => exact ⟨h, rfl⟩
    | some r =>
        obtain ⟨p, e⟩ := r
        have hphase : phase sha256 plan s = some p := by simp [phase, hread]
        simp only
        split
        next => exact ⟨h, rfl⟩
        next =>
          split
          next => exact ⟨h, rfl⟩
          next hadmitted =>
            split
            next => exact ⟨h, rfl⟩
            next hclock =>
              refine ⟨h.put hg ⟨by simpa using hlocked, hphase, ?_, ?_⟩, rfl⟩
              · by_cases hw : p = .wait
                · exact .inl hw
                · by_cases hs : p = .started
                  · exact .inr hs
                  · exact absurd (.inr ⟨hw, fun hb => hs hb.1⟩) hadmitted
              · cases boot with
                | true => exact .inl rfl
                | false => exact .inr (Nat.not_lt.mp fun hlt => hclock ⟨rfl, .inr hlt⟩)

theorem finish_inv (h : Inv sha256 plan s) (hg : s.guards i = some g)
    (desired : Phase) (error : UInt32) (now : Nat) (marker : Bool) :
    Inv sha256 plan (decisionFinish sha256 plan s i g desired error now marker) ∧
      (decisionFinish sha256 plan s i g desired error now marker).result = s.result := by
  unfold decisionFinish
  split
  next => exact ⟨h, rfl⟩
  next hvalid =>
    simp only [not_or, Decidable.not_not] at hvalid
    split
    next => exact ⟨h, rfl⟩
    next hlocked =>
      cases hread : s.read sha256 plan with
      | none => exact ⟨h, rfl⟩
      | some r =>
          obtain ⟨p, previous⟩ := r
          have hphase : phase sha256 plan s = some p := by simp [phase, hread]
          have hl : g.locked = true := by simpa using hlocked
          simp only
          split
          next => exact ⟨h, rfl⟩
          next =>
            split
            next => exact ⟨h, rfl⟩
            next =>
              split
              next hcommit =>
                split
                next => exact ⟨h, rfl⟩
                next hclock =>
                  simp only [not_or, ne_eq, Decidable.not_not, Nat.not_lt, Nat.not_le] at hclock
                  obtain ⟨rfl, harmed, hdeadline⟩ := hclock
                  exact ⟨h.put hg ⟨hl, hvalid.1, .inl ⟨hcommit, hphase, harmed, hdeadline⟩⟩, rfl⟩
              next hother =>
                split
                next => exact ⟨h, rfl⟩
                next hrunner =>
                  simp only [not_or, ne_eq, Decidable.not_not, Bool.not_eq_false] at hrunner
                  obtain ⟨rfl, hrunning⟩ := hrunner
                  refine ⟨h.put hg ⟨hl, hvalid.1, .inr ⟨?_, hphase, hrunning⟩⟩, rfl⟩
                  cases desired with
                  | wait => exact absurd rfl hvalid.1.1
                  | started => exact absurd rfl hvalid.2
                  | committed => exact absurd rfl hother
                  | restored => exact .inl rfl
                  | unconfirmed => exact .inr (.inl rfl)
                  | failed => exact .inr (.inr rfl)

theorem lockRunner_inv (h : Inv sha256 plan s) (hg : s.guards i = some g) :
    Inv sha256 plan (decisionLockRunner s i g) ∧ (decisionLockRunner s i g).result = s.result := by
  have hcall := h.call i g hg
  unfold decisionLockRunner
  cases hc : g.call with
  | beginLock p now boot =>
      simp only [CallOk, hc] at hcall
      obtain ⟨hlocked, hphase, hp, hclock⟩ := hcall
      simp only
      split
      next hfree =>
        refine ⟨h.update rfl (.inl rfl) (fun _ _ hj => hj) ?_ (h.locked i g hg) (fun _ => rfl) ?_, rfl⟩
        · intro j _ hj
          rw [hfree] at hj
          cases hj
        · by_cases hs : p = .started
          · exact CallOk.idle (by simp [hs])
          · have hw : p = .wait := hp.resolve_right hs
            have hphase' : phase sha256 plan s = some .wait := hw ▸ hphase
            simp only [CallOk, if_neg hs]
            exact ⟨hlocked, trivial, hphase', hclock⟩
      next => exact ⟨h.put hg (CallOk.idle rfl), rfl⟩
  | idle | beginPublish now boot | finishPublish desired error now => exact ⟨h, rfl⟩

theorem published_result {s : Store} (p : Phase) (e : UInt32) (m : Move) :
    (published sha256 plan s p e m).result = s.result ∨
      (published sha256 plan s p e m).result = some (resultEncode communicationResult sha256 plan p e) := by
  unfold published
  split
  next => exact .inl rfl
  next => exact .inr rfl

theorem published_frame (s : Store) (p : Phase) (e : UInt32) (m : Move) :
    (published sha256 plan s p e m).guards = s.guards ∧
      (published sha256 plan s p e m).decisionLock = s.decisionLock ∧
      (published sha256 plan s p e m).runnerLock = s.runnerLock := by
  unfold published
  split
  next => exact ⟨rfl, rfl, rfl⟩
  next => exact ⟨rfl, rfl, rfl⟩

theorem Inv.publish (h : Inv sha256 plan s) (hg : s.guards i = some g)
    (hlocked : g.locked = true) {e : UInt32} (hvalid : phaseValid p e) (m : Move) {s' : Store}
    {g' : Guard} (hguards : s'.guards = Function.update s.guards i (some g'))
    (hresult : s'.result = (published sha256 plan s p e m).result) (hdecision : s'.decisionLock = s.decisionLock)
    (hrunner : ∀ j, j ≠ i → s.runnerLock = some j → s'.runnerLock = some j)
    (hrunning : g'.running = true → s'.runnerLock = some i) (hcall : g'.call = .idle) : Inv sha256 plan s' := by
  have hmine := h.locked i g hg hlocked
  refine h.update hguards ?_ (fun j _ hj => hdecision.trans hj) hrunner (fun _ => hdecision.trans hmine) hrunning
    (CallOk.idle hcall)
  rcases published_result p e m with hkept | hnew
  · exact .inl (hresult.trans hkept)
  · exact .inr ⟨hmine, p, e, hvalid, hresult.trans hnew⟩

theorem phase_of_published {s s' : Store} {p : Phase} {e : UInt32} {m : Move} (hvalid : phaseValid p e)
    (hresult : s'.result = (published sha256 plan s p e m).result) :
    phase sha256 plan s' = phase sha256 plan s ∨ phase sha256 plan s' = some p := by
  rcases published_result p e m with hkept | hnew
  · exact .inl (by simp only [phase, Store.read, hresult.trans hkept])
  · exact .inr (phase_published hvalid (hresult.trans hnew))

theorem publish_begin (h : Inv sha256 plan s) (hg : s.guards i = some g)
    {now : Nat} {boot : Bool} (hcall : g.call = .beginPublish now boot) (m : Move) :
    Inv sha256 plan (decisionPublish sha256 plan s i g m) ∧
      Moved sha256 plan s (.publish i m) (decisionPublish sha256 plan s i g m) := by
  have hok := h.call i g hg
  simp only [CallOk, hcall] at hok
  obtain ⟨hlocked, hrole, hphase, hclock⟩ := hok
  obtain ⟨hguards, hdecision, hrunner⟩ := @published_frame sha256 plan s .started 0 m
  have hvalid : phaseValid .started 0 := by decide
  have hmoved : ∀ s' : Store, s'.result = (published sha256 plan s .started 0 m).result →
      Moved sha256 plan s (.publish i m) s' := by
    intro s' hresult
    rcases phase_of_published hvalid hresult with hkept | hnew
    · exact .kept hkept
    · exact .started i g m now boot rfl hg hcall hphase hnew hclock
  simp only [decisionPublish, hcall]
  split
  next =>
    refine ⟨h.publish hg hlocked hvalid m (by rw [← hguards]; rfl) rfl hdecision ?_ ?_ rfl, hmoved _ rfl⟩
    · intro j _ hj
      exact hrunner.trans hj
    · intro hrunning
      exact hrunner.trans (h.running i g hg hrunning)
  next =>
    refine ⟨h.publish hg hlocked hvalid m (by rw [← hguards]; rfl) rfl hdecision ?_ ?_ rfl, hmoved _ rfl⟩
    · intro j hj hother
      rw [h.running i g hg hrole] at hother
      exact absurd (Option.some.inj hother).symm hj
    · intro hrunning
      cases hrunning

theorem publish_finish (h : Inv sha256 plan s) (hg : s.guards i = some g)
    {desired : Phase} {error : UInt32} {now : Nat} (hcall : g.call = .finishPublish desired error now) (m : Move) :
    Inv sha256 plan (decisionPublish sha256 plan s i g m) ∧
      Moved sha256 plan s (.publish i m) (decisionPublish sha256 plan s i g m) := by
  have hok := h.call i g hg
  simp only [CallOk, hcall] at hok
  obtain ⟨hlocked, hvalid, hcase⟩ := hok
  obtain ⟨hguards, hdecision, hrunner⟩ := @published_frame sha256 plan s desired error m
  simp only [decisionPublish, hcall]
  constructor
  · refine h.publish hg hlocked hvalid m (by rw [← hguards]; rfl) rfl hdecision ?_ ?_ rfl
    · intro j _ hj
      exact hrunner.trans hj
    · intro hrunning
      exact hrunner.trans (h.running i g hg hrunning)
  · have hphases := @phase_of_published sha256 plan s
      ((published sha256 plan s desired error m).put i { g with call := .idle }) desired error m hvalid rfl
    rcases hphases with hkept | hnew
    · exact .kept hkept
    · rcases hcase with ⟨rfl, hphase, harmed, hdeadline⟩ | ⟨hfinal, hphase, hrunning⟩
      · exact .committed i g m error now rfl hg hcall hphase hnew harmed hdeadline
      · exact .finished i g m desired rfl hg hrunning hphase hnew hfinal

theorem publish_inv (h : Inv sha256 plan s) (hg : s.guards i = some g) (m : Move) :
    Inv sha256 plan (decisionPublish sha256 plan s i g m) ∧
      Moved sha256 plan s (.publish i m) (decisionPublish sha256 plan s i g m) := by
  cases hcall : g.call with
  | idle | beginLock p now boot => simpa only [decisionPublish, hcall] using ⟨h, .kept rfl⟩
  | beginPublish => exact publish_begin h hg hcall m
  | finishPublish => exact publish_finish h hg hcall m

theorem Inv.drop (h : Inv sha256 plan s) (i : Nat) : Inv sha256 plan (s.drop i) := by
  have hother : ∀ j g, (s.drop i).guards j = some g → j ≠ i ∧ s.guards j = some g := by
    intro j g hg
    by_cases hj : j = i
    · subst hj
      simp [Store.drop] at hg
    · exact ⟨hj, by simpa [Store.drop, Function.update_of_ne hj] using hg⟩
  constructor
  case result => exact h.result
  case locked =>
    intro j g hg hl
    exact unlock_kept (hother j g hg).1 (h.locked j g (hother j g hg).2 hl)
  case running =>
    intro j g hg hr
    exact unlock_kept (hother j g hg).1 (h.running j g (hother j g hg).2 hr)
  case call =>
    intro j g hg
    exact (h.call j g (hother j g hg).2).of_result rfl

theorem open_inv (h : Inv sha256 plan s) (hfree : s.decisionLock = none)
    (hrunning : g.running = true → s.runnerLock = some i) (hcall : g.call = .idle) :
    Inv sha256 plan ({ s with decisionLock := some i }.put i g) := by
  refine h.update rfl (.inl rfl) ?_ (fun _ _ hj => hj) (fun _ => rfl) hrunning (CallOk.idle hcall)
  intro j _ hj
  rw [hfree] at hj
  cases hj

theorem release_inv (h : Inv sha256 plan s) (hg : s.guards i = some g)
    (hcall : g.call = .idle) : Inv sha256 plan ((s.unlock i).put i { g with locked := false }) := by
  refine h.update rfl (.inl rfl) ?_ (fun _ _ hj => hj) (fun hl => by cases hl) (h.running i g hg)
    (CallOk.idle hcall)
  intro j hj hother
  exact unlock_kept hj hother

theorem step_moved (h : Inv sha256 plan s) (e : Event) :
    Inv sha256 plan (step sha256 plan s e) ∧ Moved sha256 plan s e (step sha256 plan s e) := by
  cases e with
  | openGuard i =>
      simp only [step]
      split
      next hfree => exact ⟨open_inv h hfree.2 (fun hr => by cases hr) rfl, .of_result rfl⟩
      next => exact ⟨h, .kept rfl⟩
  | relock i =>
      simp only [step]
      cases hg : s.guards i with
      | none => exact ⟨h, .kept rfl⟩
      | some g =>
          simp only
          split
          next hfree => exact ⟨open_inv h hfree.2.2 (h.running i g hg) hfree.2.1, .of_result rfl⟩
          next => exact ⟨h, .kept rfl⟩
  | release i =>
      simp only [step]
      cases hg : s.guards i with
      | none => exact ⟨h, .kept rfl⟩
      | some g =>
          simp only
          split
          next hidle => exact ⟨release_inv h hg hidle.2, .of_result rfl⟩
          next => exact ⟨h, .kept rfl⟩
  | close i => exact ⟨h.drop i, .of_result rfl⟩
  | begin i now boot marker =>
      simp only [step]
      cases hg : s.guards i with
      | none => exact ⟨h, .kept rfl⟩
      | some g =>
          simp only
          split
          next =>
            obtain ⟨hinv, hresult⟩ := begin_inv h hg now boot marker
            exact ⟨hinv, .of_result hresult⟩
          next => exact ⟨h, .kept rfl⟩
  | lockRunner i =>
      simp only [step]
      cases hg : s.guards i with
      | none => exact ⟨h, .kept rfl⟩
      | some g =>
          obtain ⟨hinv, hresult⟩ := lockRunner_inv h hg
          exact ⟨hinv, .of_result hresult⟩
  | publish i m =>
      simp only [step]
      cases hg : s.guards i with
      | none => exact ⟨h, .kept rfl⟩
      | some g => exact publish_inv h hg m
  | finish i desired error now marker =>
      simp only [step]
      cases hg : s.guards i with
      | none => exact ⟨h, .kept rfl⟩
      | some g =>
          simp only
          split
          next =>
            obtain ⟨hinv, hresult⟩ := finish_inv h hg desired error now marker
            exact ⟨hinv, .of_result hresult⟩
          next => exact ⟨h, .kept rfl⟩

def prepared : Store := ⟨none, none, none, fun _ => none⟩

theorem prepared_inv : Inv sha256 plan prepared := by
  constructor
  case result =>
    intro b hb
    cases hb
  all_goals
    intro i g hg
    cases hg

theorem run_inv (events : List Event) : Inv sha256 plan (run (step sha256 plan) prepared events) :=
  run_kept (p := Inv sha256 plan) (fun _ e h => (step_moved h e).1) events prepared prepared_inv

theorem Inv.one_runner (h : Inv sha256 plan s) {i j : Nat} {g g' : Guard} (hi : s.guards i = some g)
    (hj : s.guards j = some g') (hrunning : g.running = true) (hrunning' : g'.running = true) : i = j := by
  have hfirst := h.running i g hi hrunning
  have hsecond := h.running j g' hj hrunning'
  exact Option.some.inj (hfirst.symm.trans hsecond)

theorem Inv.readable (h : Inv sha256 plan s) : ∃ p, phase sha256 plan s = some p := by
  cases hresult : s.result with
  | none => exact ⟨.wait, by simp [phase, Store.read, hresult]⟩
  | some b =>
      obtain ⟨p, e, hvalid, rfl⟩ := h.result b hresult
      exact ⟨p, phase_published hvalid hresult⟩

theorem Moved.final {s s' : Store} {e : Event} (h : Moved sha256 plan s e s')
    (hp : phase sha256 plan s = some p) (hwait : p ≠ .wait) (hstarted : p ≠ .started) :
    phase sha256 plan s' = some p := by
  cases h with
  | kept hkept => exact hkept.trans hp
  | committed i g m error now he hg hcall hbefore | started i g m now boot he hg hcall hbefore =>
      exact absurd (Option.some.inj (hp.symm.trans hbefore)) hwait
  | finished i g m p' he hg hrunning hbefore => exact absurd (Option.some.inj (hp.symm.trans hbefore)) hstarted

theorem final_kept (h : Inv sha256 plan s) (hp : phase sha256 plan s = some p)
    (hwait : p ≠ .wait) (hstarted : p ≠ .started) (later : List Event) :
    phase sha256 plan (run (step sha256 plan) s later) = some p := by
  have hkept : Inv sha256 plan (run (step sha256 plan) s later) ∧
      phase sha256 plan (run (step sha256 plan) s later) = some p := by
    apply run_kept (p := fun s => Inv sha256 plan s ∧ phase sha256 plan s = some p)
    · intro s e hs
      obtain ⟨hinv, hmoved⟩ := step_moved hs.1 e
      exact ⟨hinv, hmoved.final hs.2 hwait hstarted⟩
    · exact ⟨h, hp⟩
  exact hkept.2

end Communication

namespace Supervisor

open Recovery

variable {sha256 : Bytes → Digest} {plan : Plan}

def status (sha256 : Bytes → Digest) (plan : Plan) (s : Store) : Option (Option Status) :=
  (s.read sha256 plan).map Prod.fst

def CallOk (sha256 : Bytes → Digest) (plan : Plan) (s : Store) (g : Guard) : Prop :=
  match g.call with
  | .idle => True
  | .beginPublish now boot =>
    g.locked = true ∧ status sha256 plan s = some none ∧ (boot = true ∨ plan.deadlineUtc ≤ now)
  | .finishPublish desired _ now =>
    g.locked = true ∧
      ((desired = .committed ∧ status sha256 plan s = some none ∧ plan.armedUtc ≤ now ∧ now < plan.deadlineUtc) ∨
        ((desired = .restored ∨ desired = .failed) ∧ status sha256 plan s = some (some .started)))

structure Inv (sha256 : Bytes → Digest) (plan : Plan) (s : Store) : Prop where
  result : ∀ b, s.result = some b → ∃ p e, statusValid p e ∧ b = resultEncode recoveryResult sha256 plan p e
  locked : ∀ i g, s.guards i = some g → g.locked = true → s.decisionLock = some i
  call : ∀ i g, s.guards i = some g → CallOk sha256 plan s g

variable {s : Store} {g : Guard} {i : Nat} {p : Status}

theorem CallOk.locked (h : CallOk sha256 plan s g) (hcall : g.call ≠ .idle) :
    g.locked = true := by
  unfold CallOk at h
  cases hc : g.call with
  | idle => exact absurd hc hcall
  | beginPublish now boot | finishPublish desired error now =>
      rw [hc] at h
      exact h.1

theorem CallOk.idle (h : g.call = .idle) : CallOk sha256 plan s g := by
  simp [CallOk, h]

theorem CallOk.of_result {s s' : Store} (h : CallOk sha256 plan s g) (hresult : s'.result = s.result) :
    CallOk sha256 plan s' g := by
  have hstatus : status sha256 plan s' = status sha256 plan s := by simp only [status, Store.read, hresult]
  simpa only [CallOk, hstatus] using h

theorem Inv.update (h : Inv sha256 plan s) {s' : Store}
    (hguards : s'.guards = Function.update s.guards i (some g))
    (hresult : s'.result = s.result ∨ (s.decisionLock = some i ∧ ∃ p e, statusValid p e ∧
      s'.result = some (resultEncode recoveryResult sha256 plan p e)))
    (hdecision : ∀ j, j ≠ i → s.decisionLock = some j → s'.decisionLock = some j)
    (hlocked : g.locked = true → s'.decisionLock = some i) (hcall : CallOk sha256 plan s' g) :
    Inv sha256 plan s' := by
  have hguard {j : Nat} {g' : Guard} (hg' : s'.guards j = some g') := update_cases (hguards ▸ hg')
  constructor
  case result =>
    intro b hb
    rcases hresult with hkept | ⟨_, p, e, hvalid, hnew⟩
    · exact h.result b (hkept ▸ hb)
    · exact ⟨p, e, hvalid, Option.some.inj (hb.symm.trans hnew)⟩
  case locked =>
    intro j g' hg' hl
    obtain ⟨rfl, rfl⟩ | ⟨hj, hold⟩ := hguard hg'
    · exact hlocked hl
    · exact hdecision j hj (h.locked j g' hold hl)
  case call =>
    intro j g' hg'
    obtain ⟨rfl, rfl⟩ | ⟨hj, hold⟩ := hguard hg'
    · exact hcall
    · have hbefore := h.call j g' hold
      rcases hresult with hkept | ⟨hmine, _⟩
      · exact hbefore.of_result hkept
      · by_cases hidle : g'.call = .idle
        · exact CallOk.idle hidle
        · have htheirs := h.locked j g' hold (hbefore.locked hidle)
          rw [hmine] at htheirs
          exact absurd (Option.some.inj htheirs).symm hj

theorem status_published {e : UInt32} (hvalid : statusValid p e)
    (h : s.result = some (resultEncode recoveryResult sha256 plan p e)) :
    status sha256 plan s = some (some p) := by
  have hdecoded := resultDecode_resultEncode recoveryResult sha256 plan hvalid
  simp [status, Store.read, h, hdecoded]

/-- What one event does to the stored status. -/
inductive Moved (sha256 : Bytes → Digest) (plan : Plan) (s : Store) (e : Event) (s' : Store) : Prop where
  | kept (h : status sha256 plan s' = status sha256 plan s)
  | committed (i : Nat) (g : Guard) (m : Move) (error : UInt32) (now : Nat) (he : e = .publish i m)
      (hg : s.guards i = some g) (hcall : g.call = .finishPublish .committed error now)
      (hbefore : status sha256 plan s = some none) (hafter : status sha256 plan s' = some (some .committed))
      (harmed : plan.armedUtc ≤ now) (hdeadline : now < plan.deadlineUtc)
  | started (i : Nat) (g : Guard) (m : Move) (now : Nat) (boot : Bool) (he : e = .publish i m)
      (hg : s.guards i = some g) (hcall : g.call = .beginPublish now boot)
      (hbefore : status sha256 plan s = some none) (hafter : status sha256 plan s' = some (some .started))
      (hdeadline : boot = true ∨ plan.deadlineUtc ≤ now)
  | finished (i : Nat) (m : Move) (p : Status) (he : e = .publish i m)
      (hbefore : status sha256 plan s = some (some .started)) (hafter : status sha256 plan s' = some (some p))
      (hfinal : p = .restored ∨ p = .failed)

theorem Moved.of_result {s s' : Store} {e : Event} (h : s'.result = s.result) : Moved sha256 plan s e s' :=
  .kept (by simp only [status, Store.read, h])

theorem Inv.put (h : Inv sha256 plan s) {c : Call} (hg : s.guards i = some g)
    (hcall : CallOk sha256 plan s { g with call := c }) : Inv sha256 plan (s.put i { g with call := c }) :=
  h.update rfl (.inl rfl) (fun _ _ hj => hj) (h.locked i g hg) (hcall.of_result rfl)

theorem decide_required {now : Nat} {boot : Bool} {p : Option Status}
    (h : recoveryDecide plan p now boot = some .required) (hstarted : p ≠ some .started) :
    p = none ∧ (boot = true ∨ plan.deadlineUtc ≤ now) := by
  cases p with
  | some p => cases p <;> simp [recoveryDecide] at h hstarted
  | none =>
      refine ⟨rfl, ?_⟩
      simp only [recoveryDecide] at h
      split at h
      next hboot => exact .inl hboot
      next =>
        split at h
        next => cases h
        next =>
          split at h
          next hdeadline => exact .inr hdeadline
          next => cases h

theorem begin_inv (h : Inv sha256 plan s) (hg : s.guards i = some g) (now : Nat)
    (boot : Bool) : Inv sha256 plan (recoveryBegin sha256 plan s i g now boot) ∧
      (recoveryBegin sha256 plan s i g now boot).result = s.result := by
  unfold recoveryBegin
  split
  next => exact ⟨h, rfl⟩
  next hlocked =>
    cases hread : s.read sha256 plan with
    | none => exact ⟨h, rfl⟩
    | some r =>
        obtain ⟨p, e⟩ := r
        have hstatus : status sha256 plan s = some p := by simp [status, hread]
        simp only
        split
        next => exact ⟨h, rfl⟩
        next hrequired =>
          simp only [not_or, ne_eq, Decidable.not_not] at hrequired
          obtain ⟨rfl, hclock⟩ := decide_required hrequired.1 hrequired.2
          exact ⟨h.put hg ⟨by simpa using hlocked, hstatus, hclock⟩, rfl⟩

theorem finish_inv (h : Inv sha256 plan s) (hg : s.guards i = some g)
    (desired : Status) (error : UInt32) (now : Nat) :
    Inv sha256 plan (recoveryFinish sha256 plan s i g desired error now) ∧
      (recoveryFinish sha256 plan s i g desired error now).result = s.result := by
  unfold recoveryFinish
  split
  next => exact ⟨h, rfl⟩
  next hdesired =>
    split
    next => exact ⟨h, rfl⟩
    next hlocked =>
      cases hread : s.read sha256 plan with
      | none => exact ⟨h, rfl⟩
      | some r =>
          obtain ⟨p, previous⟩ := r
          have hstatus : status sha256 plan s = some p := by simp [status, hread]
          have hl : g.locked = true := by simpa using hlocked
          simp only
          split
          next => exact ⟨h, rfl⟩
          next =>
            split
            next hcommit =>
              split
              next => exact ⟨h, rfl⟩
              next hclock =>
                simp only [not_or, ne_eq, Decidable.not_not, Nat.not_lt, Nat.not_le] at hclock
                obtain ⟨rfl, harmed, hdeadline, _⟩ := hclock
                exact ⟨h.put hg ⟨hl, .inl ⟨hcommit, hstatus, harmed, hdeadline⟩⟩, rfl⟩
            next hother =>
              split
              next => exact ⟨h, rfl⟩
              next hstarted =>
                simp only [ne_eq, Decidable.not_not] at hstarted
                subst hstarted
                refine ⟨h.put hg ⟨hl, .inr ⟨?_, hstatus⟩⟩, rfl⟩
                cases desired with
                | started => exact absurd rfl hdesired
                | committed => exact absurd rfl hother
                | restored => exact .inl rfl
                | failed => exact .inr rfl

theorem published_result {s : Store} (p : Status) (e : UInt32) (m : Move) :
    (published sha256 plan s p e m).result = s.result ∨ (statusValid p e ∧
      (published sha256 plan s p e m).result = some (resultEncode recoveryResult sha256 plan p e)) := by
  unfold published
  split
  next => exact .inl rfl
  next hsent =>
    simp only [not_or, Decidable.not_not] at hsent
    exact .inr ⟨hsent.2, rfl⟩

theorem published_frame (s : Store) (p : Status) (e : UInt32) (m : Move) :
    (published sha256 plan s p e m).guards = s.guards ∧
      (published sha256 plan s p e m).decisionLock = s.decisionLock := by
  unfold published
  split
  next => exact ⟨rfl, rfl⟩
  next => exact ⟨rfl, rfl⟩

theorem Inv.publish (h : Inv sha256 plan s) (hg : s.guards i = some g)
    (hlocked : g.locked = true) (p : Status) (e : UInt32) (m : Move) :
    Inv sha256 plan ((published sha256 plan s p e m).put i { g with call := .idle }) := by
  have hmine := h.locked i g hg hlocked
  obtain ⟨hguards, hdecision⟩ := @published_frame sha256 plan s p e m
  refine h.update (by rw [← hguards]; rfl) ?_ (fun j _ hj => hdecision.trans hj) (fun _ => hdecision.trans hmine)
    (CallOk.idle rfl)
  rcases @published_result sha256 plan s p e m with hkept | ⟨hvalid, hnew⟩
  · exact .inl hkept
  · exact .inr ⟨hmine, p, e, hvalid, hnew⟩

theorem status_of_published (s : Store) (p : Status) (e : UInt32) (m : Move) (i : Nat) (g : Guard) :
    status sha256 plan ((published sha256 plan s p e m).put i g) = status sha256 plan s ∨
      status sha256 plan ((published sha256 plan s p e m).put i g) = some (some p) := by
  rcases @published_result sha256 plan s p e m with hkept | ⟨hvalid, hnew⟩
  · exact .inl (by simp only [status, Store.read, Store.put, hkept])
  · exact .inr (status_published hvalid hnew)

theorem publish_inv (h : Inv sha256 plan s) (hg : s.guards i = some g) (m : Move) :
    Inv sha256 plan (recoveryPublish sha256 plan s i g m) ∧
      Moved sha256 plan s (.publish i m) (recoveryPublish sha256 plan s i g m) := by
  have hok := h.call i g hg
  cases hcall : g.call with
  | idle => simpa only [recoveryPublish, hcall] using ⟨h, .kept rfl⟩
  | beginPublish now boot =>
      simp only [CallOk, hcall] at hok
      obtain ⟨hlocked, hstatus, hclock⟩ := hok
      simp only [recoveryPublish, hcall]
      refine ⟨h.publish hg hlocked .started 0 m, ?_⟩
      rcases @status_of_published sha256 plan s .started 0 m i { g with call := .idle } with hkept | hnew
      · exact .kept hkept
      · exact .started i g m now boot rfl hg hcall hstatus hnew hclock
  | finishPublish desired error now =>
      simp only [CallOk, hcall] at hok
      obtain ⟨hlocked, hcase⟩ := hok
      simp only [recoveryPublish, hcall]
      refine ⟨h.publish hg hlocked desired error m, ?_⟩
      rcases @status_of_published sha256 plan s desired error m i { g with call := .idle } with hkept | hnew
      · exact .kept hkept
      · rcases hcase with ⟨rfl, hstatus, harmed, hdeadline⟩ | ⟨hfinal, hstatus⟩
        · exact .committed i g m error now rfl hg hcall hstatus hnew harmed hdeadline
        · exact .finished i m desired rfl hstatus hnew hfinal

theorem close_inv (h : Inv sha256 plan s) (i : Nat) :
    Inv sha256 plan { s.unlock i with guards := Function.update s.guards i none } := by
  have hother : ∀ j g, Function.update s.guards i none j = some g → j ≠ i ∧ s.guards j = some g := by
    intro j g hg
    by_cases hj : j = i
    · subst hj
      simp at hg
    · exact ⟨hj, by simpa [Function.update_of_ne hj] using hg⟩
  constructor
  case result => exact h.result
  case locked =>
    intro j g hg hl
    exact unlock_kept (hother j g hg).1 (h.locked j g (hother j g hg).2 hl)
  case call =>
    intro j g hg
    exact (h.call j g (hother j g hg).2).of_result rfl

theorem open_inv (h : Inv sha256 plan s) (hfree : s.decisionLock = none)
    (hcall : g.call = .idle) : Inv sha256 plan ({ s with decisionLock := some i }.put i g) := by
  refine h.update rfl (.inl rfl) ?_ (fun _ => rfl) (CallOk.idle hcall)
  intro j _ hj
  rw [hfree] at hj
  cases hj

theorem release_inv (h : Inv sha256 plan s) (hcall : g.call = .idle) :
    Inv sha256 plan ((s.unlock i).put i { g with locked := false }) := by
  refine h.update rfl (.inl rfl) ?_ (fun hl => by cases hl) (CallOk.idle hcall)
  intro j hj hother
  exact unlock_kept hj hother

theorem step_moved (h : Inv sha256 plan s) (e : Event) :
    Inv sha256 plan (step sha256 plan s e) ∧ Moved sha256 plan s e (step sha256 plan s e) := by
  cases e with
  | openGuard i =>
      simp only [step]
      split
      next hfree => exact ⟨open_inv h hfree.2 rfl, .of_result rfl⟩
      next => exact ⟨h, .kept rfl⟩
  | relock i =>
      simp only [step]
      cases hg : s.guards i with
      | none => exact ⟨h, .kept rfl⟩
      | some g =>
          simp only
          split
          next hfree => exact ⟨open_inv h hfree.2.2 hfree.2.1, .of_result rfl⟩
          next => exact ⟨h, .kept rfl⟩
  | release i =>
      simp only [step]
      cases hg : s.guards i with
      | none => exact ⟨h, .kept rfl⟩
      | some g =>
          simp only
          split
          next hidle => exact ⟨release_inv h hidle.2, .of_result rfl⟩
          next => exact ⟨h, .kept rfl⟩
  | close i => exact ⟨close_inv h i, .of_result rfl⟩
  | begin i now boot =>
      simp only [step]
      cases hg : s.guards i with
      | none => exact ⟨h, .kept rfl⟩
      | some g =>
          simp only
          split
          next =>
            obtain ⟨hinv, hresult⟩ := begin_inv h hg now boot
            exact ⟨hinv, .of_result hresult⟩
          next => exact ⟨h, .kept rfl⟩
  | publish i m =>
      simp only [step]
      cases hg : s.guards i with
      | none => exact ⟨h, .kept rfl⟩
      | some g => exact publish_inv h hg m
  | finish i desired error now =>
      simp only [step]
      cases hg : s.guards i with
      | none => exact ⟨h, .kept rfl⟩
      | some g =>
          simp only
          split
          next =>
            obtain ⟨hinv, hresult⟩ := finish_inv h hg desired error now
            exact ⟨hinv, .of_result hresult⟩
          next => exact ⟨h, .kept rfl⟩

def prepared : Store := ⟨none, none, fun _ => none⟩

theorem prepared_inv : Inv sha256 plan prepared := by
  constructor
  case result =>
    intro b hb
    cases hb
  all_goals
    intro i g hg
    cases hg

theorem run_inv (events : List Event) : Inv sha256 plan (run (step sha256 plan) prepared events) :=
  run_kept (p := Inv sha256 plan) (fun _ e h => (step_moved h e).1) events prepared prepared_inv

theorem Inv.readable (h : Inv sha256 plan s) : ∃ p, status sha256 plan s = some p := by
  cases hresult : s.result with
  | none => exact ⟨none, by simp [status, Store.read, hresult]⟩
  | some b =>
      obtain ⟨p, e, hvalid, rfl⟩ := h.result b hresult
      exact ⟨some p, status_published hvalid hresult⟩

theorem Moved.final {s s' : Store} {e : Event} (h : Moved sha256 plan s e s')
    (hp : status sha256 plan s = some (some p)) (hstarted : p ≠ .started) :
    status sha256 plan s' = some (some p) := by
  cases h with
  | kept hkept => exact hkept.trans hp
  | committed i g m error now he hg hcall hbefore | started i g m now boot he hg hcall hbefore =>
      cases Option.some.inj (hp.symm.trans hbefore)
  | finished i m p' he hbefore =>
      exact absurd (Option.some.inj (Option.some.inj (hp.symm.trans hbefore))) hstarted

theorem final_kept (h : Inv sha256 plan s) (hp : status sha256 plan s = some (some p))
    (hstarted : p ≠ .started) (later : List Event) :
    status sha256 plan (run (step sha256 plan) s later) = some (some p) := by
  have hkept : Inv sha256 plan (run (step sha256 plan) s later) ∧
      status sha256 plan (run (step sha256 plan) s later) = some (some p) := by
    apply run_kept (p := fun s => Inv sha256 plan s ∧ status sha256 plan s = some (some p))
    · intro s e hs
      obtain ⟨hinv, hmoved⟩ := step_moved hs.1 e
      exact ⟨hinv, hmoved.final hs.2 hstarted⟩
    · exact ⟨h, hp⟩
  exact hkept.2

end Supervisor

/-- The decisions of both stores under any interleaving of their guards: the phase makes
only the moves that `Moved` lists, a final phase stays, there is one runner, and the
result can always be read. -/
theorem decisions_exclude (sha256 : Bytes → Digest) (plan : Plan) :
    (∀ (events : List Communication.Event) (e : Communication.Event),
      let s := run (Communication.step sha256 plan) prepared events
      (∃ p, phase sha256 plan s = some p) ∧ Moved sha256 plan s e (Communication.step sha256 plan s e) ∧
        (∀ p, phase sha256 plan s = some p → p ≠ .wait → p ≠ .started →
          ∀ later, phase sha256 plan (run (Communication.step sha256 plan) s later) = some p) ∧
        ∀ i j g g', s.guards i = some g → s.guards j = some g' → g.running = true → g'.running = true → i = j) ∧
    ∀ (events : List Recovery.Event) (e : Recovery.Event),
      let s := run (Recovery.step sha256 plan) Supervisor.prepared events
      (∃ p, Supervisor.status sha256 plan s = some p) ∧
        Supervisor.Moved sha256 plan s e (Recovery.step sha256 plan s e) ∧
        ∀ p, Supervisor.status sha256 plan s = some (some p) → p ≠ .started →
          ∀ later, Supervisor.status sha256 plan (run (Recovery.step sha256 plan) s later) = some (some p) := by
  constructor
  · intro events e s
    have hinv : Inv sha256 plan s := run_inv events
    refine ⟨hinv.readable, (step_moved hinv e).2, ?_, ?_⟩
    · intro p hp hwait hstarted later
      exact final_kept hinv hp hwait hstarted later
    · intro i j g g' hi hj hrunning hrunning'
      exact hinv.one_runner hi hj hrunning hrunning'
  · intro events e s
    have hinv : Supervisor.Inv sha256 plan s := Supervisor.run_inv events
    refine ⟨hinv.readable, (Supervisor.step_moved hinv e).2, ?_⟩
    intro p hp hstarted later
    exact Supervisor.final_kept hinv hp hstarted later


end EtranProcessing.Deployment.CommitExclusion
