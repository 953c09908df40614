import EtranProcessing.Ingress.Clock

namespace EtranProcessing.Ingress.Lease

open State Clock

def horizon : Nat := 7200000

inductive LeaseCall
  | begin (expiry : Int)
  | renew (expiry : Int)
  | check

section Arithmetic

variable {m : Type → Type} [Monad m] (add : Nat → Nat → m Nat)

/-- One call on a session: whether it was accepted, and the session and the
globals after it. An expiry check only samples the clock. -/
def leaseCallWith (w : World) (s : MediaSession) : LeaseCall → m (Bool × MediaSession × World)
  | .begin expiry => do
      let r ← mediaV3BeginDeadlineWith add w s expiry
      pure (r.1.isSome, r.1.getD s, r.2)
  | .renew expiry => do
      let r ← mediaV3RenewDeadlineWith add w s expiry
      pure (r.1.isSome, r.1.getD s, r.2)
  | .check => do
      let r ← mediaMonotonicMsWith add w
      pure (r.1.isSome, s, r.2)

end Arithmetic

def leaseCall (w : World) (s : MediaSession) (call : LeaseCall) : Bool × MediaSession × World :=
  Id.run (leaseCallWith plainAdd w s call)

def leaseRun (w : World) (s : MediaSession) : List LeaseCall → MediaSession × World
  | [] => (s, w)
  | call :: calls => leaseRun (leaseCall w s call).2.2 (leaseCall w s call).2.1 calls

/-- The calls that grant nothing: an expiry check, the exact replay of the
accepted coordinate, and an older coordinate of a camera. -/
def GrantsNothing (s : MediaSession) : LeaseCall → Prop
  | .begin _ => False
  | .renew expiry => expiry = s.issuerExpiryUtc ∨ s.cameraSource = true ∧ expiry < s.issuerExpiryUtc
  | .check => True

def Begins : LeaseCall → Prop
  | .begin _ => True
  | _ => False

def anchor (s : MediaSession) : Int := s.monotonicDeadlineMs - 1000 * s.issuerExpiryUtc

theorem mono_pair (w : World) :
    Id.run (mediaMonotonicMsWith plainAdd w) = (mediaMonotonicMs w, readMonotonic w) := rfl

theorem receipt_cases (w : World) (expiry : Int) :
    let r := Id.run (mediaV3ReceiptDeadlineWith plainAdd w expiry)
    ClockOnly w r.2 ∧ (r.1 = none ∨ ∃ d, r.1 = some d ∧ w.monotonicLast ≤ r.2.monotonicLast ∧
      r.2.monotonicLast < d ∧ d ≤ r.2.monotonicLast + horizon) := by
  simp only [mediaV3ReceiptDeadlineWith]
  split
  · exact ⟨ClockOnly.refl w, .inl rfl⟩
  next hexp =>
    simp only [Id.run_bind, mono_pair]
    obtain ⟨hm, hw⟩ | ⟨t, hm, hw, _, hlast, _⟩ := mediaMonotonicMs_cases w
    · simp only [hm]
      exact ⟨readMonotonic_clockOnly w, .inl rfl⟩
    · have hreal := mediaRealtimeReceiptMs_world (readMonotonic w)
      have hclock := (readMonotonic_clockOnly w).trans (advance_clockOnly _)
      simp only [hm, Id.run_bind]
      cases hr : Id.run (mediaRealtimeReceiptMsWith plainAdd (readMonotonic w)) with
      | mk wall w₂ =>
          rw [hr] at hreal
          subst hreal
          cases wall with
          | none => exact ⟨hclock, .inl rfl⟩
          | some wallMs =>
              dsimp only
              split
              · exact ⟨hclock, .inl rfl⟩
              split
              · exact ⟨hclock, .inl rfl⟩
              split
              · exact ⟨hclock, .inl rfl⟩
              next hboot hbudget hover =>
                refine ⟨hclock, .inr ⟨t + (expiry.toNat * 1000 - wallMs), rfl, ?_⟩⟩
                have hlast' : (advance (readMonotonic w)).monotonicLast = t := by simp [hw, advance]
                simp only [Id.run_bind, Id.run_pure, hlast', horizon]
                omega

theorem begin_cases (w : World) (s : MediaSession) (expiry : Int) :
    let r := mediaV3BeginDeadline w s expiry
    ClockOnly w r.2 ∧ (r.1 = none ∨ ∃ d,
      r.1 = some { s with issuerExpiryUtc := expiry, monotonicDeadlineMs := d } ∧
      r.2.monotonicLast < d ∧ d ≤ r.2.monotonicLast + horizon) := by
  obtain ⟨hclock, hcase⟩ := receipt_cases w expiry
  simp only [mediaV3BeginDeadline, mediaV3BeginDeadlineWith, Id.run_bind]
  cases hr : Id.run (mediaV3ReceiptDeadlineWith plainAdd w expiry) with
  | mk d w' =>
      simp only [hr] at hclock hcase
      obtain rfl | ⟨d, rfl, _, hlt, hle⟩ := hcase
      · exact ⟨hclock, .inl rfl⟩
      · exact ⟨hclock, .inr ⟨d, rfl, hlt, hle⟩⟩

theorem renewDesktop_cases (w : World) (s : MediaSession) (expiry : Int) :
    let r := Id.run (renewDesktopWith plainAdd w s expiry)
    ClockOnly w r.2 ∧ (r.1 = none ∨ ∃ d ttl,
      r.1 = some { s with issuerExpiryUtc := expiry, monotonicDeadlineMs := d, ttlSec := ttl } ∧
      r.2.monotonicLast < s.monotonicDeadlineMs ∧
      r.2.monotonicLast < d ∧ d ≤ r.2.monotonicLast + horizon) := by
  obtain ⟨hclock, hcase⟩ := receipt_cases w expiry
  simp only [renewDesktopWith, Id.run_bind]
  cases hr : Id.run (mediaV3ReceiptDeadlineWith plainAdd w expiry) with
  | mk d w₁ =>
      simp only [hr] at hclock hcase
      obtain rfl | ⟨d, rfl, _, hlt, hle⟩ := hcase
      · exact ⟨hclock, .inl rfl⟩
      · have hclock' := hclock.trans (readMonotonic_clockOnly w₁)
        simp only [Id.run_bind, mono_pair]
        obtain ⟨hm, hw⟩ | ⟨t, hm, hw, _, hlast, _⟩ := mediaMonotonicMs_cases w₁
        · simp only [hm]
          exact ⟨hclock', .inl rfl⟩
        · simp only [hm]
          split
          · exact ⟨hclock', .inl rfl⟩
          next hlate =>
            have hlast' : (readMonotonic w₁).monotonicLast = t := by simp [hw, advance]
            refine ⟨hclock', .inr ⟨d, _, rfl, ?_⟩⟩
            simp only [Id.run_bind, Id.run_pure, hlast', horizon] at hle ⊢
            omega

theorem renewCamera_cases (w : World) (s : MediaSession) (now : Nat) (expiry : Int)
    (hnow : w.monotonicLast = now) :
    let r := Id.run (renewCameraWith plainAdd w s now expiry)
    r.2 = w ∧ (r.1 = none ∨ ∃ d ttl,
      r.1 = some { s with issuerExpiryUtc := expiry, monotonicDeadlineMs := d, ttlSec := ttl } ∧
      d = s.monotonicDeadlineMs + 1000 * (expiry - s.issuerExpiryUtc).toNat ∧
      w.monotonicLast < d ∧ d ≤ w.monotonicLast + horizon) := by
  simp only [renewCameraWith]
  split
  · exact ⟨rfl, .inl rfl⟩
  simp only [Id.run_bind]
  have hadd (a b : Nat) : Id.run (plainAdd a b) = a + b := rfl
  simp only [hadd]
  split
  · exact ⟨rfl, .inl rfl⟩
  · refine ⟨rfl, .inr ⟨_, _, rfl, ?_⟩⟩
    simp only [horizon]
    omega

theorem renew_cases (w : World) (s : MediaSession) (expiry : Int) :
    let r := mediaV3RenewDeadline w s expiry
    ClockOnly w r.2 ∧ (r.1 = none ∨
      (r.1 = some s ∧ r.2.monotonicLast < s.monotonicDeadlineMs ∧ GrantsNothing s (.renew expiry)) ∨
      ∃ d ttl, r.1 = some { s with issuerExpiryUtc := expiry, monotonicDeadlineMs := d, ttlSec := ttl } ∧
        r.2.monotonicLast < s.monotonicDeadlineMs ∧
        r.2.monotonicLast < d ∧ d ≤ r.2.monotonicLast + horizon ∧
        (s.cameraSource = true → s.issuerExpiryUtc ≤ expiry ∧
          d = s.monotonicDeadlineMs + 1000 * (expiry - s.issuerExpiryUtc).toNat)) := by
  simp only [mediaV3RenewDeadline, mediaV3RenewDeadlineWith, Id.run_bind, mono_pair]
  obtain ⟨hm, hw⟩ | ⟨t, hm, hw, _, hlast, _⟩ := mediaMonotonicMs_cases w
  · simp only [hm]
    exact ⟨readMonotonic_clockOnly w, .inl rfl⟩
  · have hclock := readMonotonic_clockOnly w
    have hlast' : (readMonotonic w).monotonicLast = t := by simp [hw, advance]
    simp only [hm]
    split
    · exact ⟨hclock, .inl rfl⟩
    next hopen =>
      split
      next hsame => exact ⟨hclock, .inr (.inl ⟨rfl, by simp [hlast']; omega, .inl hsame⟩)⟩
      next hsame =>
        split
        next hdesktop =>
          obtain ⟨hc, hcase⟩ := renewDesktop_cases (readMonotonic w) s expiry
          refine ⟨hclock.trans hc, ?_⟩
          obtain hnone | ⟨d, ttl, hs, hold, hlt, hle⟩ := hcase
          · exact .inl hnone
          · exact .inr (.inr ⟨d, ttl, hs, hold, hlt, hle, by simp [hdesktop]⟩)
        next hcamera =>
          simp only [Bool.not_eq_false] at hcamera
          split
          next holder => exact ⟨hclock, .inr (.inl ⟨rfl, by simp [hlast']; omega, .inr ⟨hcamera, holder⟩⟩)⟩
          next hnewer =>
            obtain ⟨hc, hcase⟩ := renewCamera_cases (readMonotonic w) s t expiry hlast'
            rw [hc]
            refine ⟨hclock, ?_⟩
            obtain hnone | ⟨d, ttl, hs, hd, hlt, hle⟩ := hcase
            · exact .inl hnone
            · exact .inr (.inr ⟨d, ttl, hs, by omega, hlt, hle, fun _ => ⟨by omega, hd⟩⟩)

theorem receipt_checked (w : World) (expiry : Int) :
    mediaV3ReceiptDeadlineWith checkedAdd w expiry =
      some (Id.run (mediaV3ReceiptDeadlineWith plainAdd w expiry)) := by
  simp only [mediaV3ReceiptDeadlineWith]
  split
  · rfl
  simp only [mediaMonotonicMsWith_checked, Option.bind_eq_bind, Option.bind_some, Id.run_bind]
  obtain ⟨reading, w₁⟩ := Id.run (mediaMonotonicMsWith plainAdd w)
  cases reading with
  | none => rfl
  | some t =>
      simp only [mediaRealtimeReceiptMsWith_checked, Option.bind_some, Id.run_bind]
      obtain ⟨wall, w₂⟩ := Id.run (mediaRealtimeReceiptMsWith plainAdd w₁)
      cases wall with
      | none => rfl
      | some wallMs =>
          dsimp only
          split
          · rfl
          split
          · rfl
          split
          · rfl
          next hboot hbudget hover =>
            have hsum : t + (expiry.toNat * 1000 - wallMs) ≤ int64Max := by
              simp only [int64Max] at hover ⊢
              omega
            simp [checkedAdd, plainAdd, hsum]


theorem begin_checked (w : World) (s : MediaSession) (expiry : Int) :
    mediaV3BeginDeadlineWith checkedAdd w s expiry =
      some (Id.run (mediaV3BeginDeadlineWith plainAdd w s expiry)) := by
  simp only [mediaV3BeginDeadlineWith, receipt_checked, Option.bind_eq_bind, Option.bind_some, Id.run_bind]
  obtain ⟨d, w₁⟩ := Id.run (mediaV3ReceiptDeadlineWith plainAdd w expiry)
  cases d <;> rfl

theorem renewDesktop_checked (w : World) (s : MediaSession) (expiry : Int) :
    renewDesktopWith checkedAdd w s expiry = some (Id.run (renewDesktopWith plainAdd w s expiry)) := by
  obtain ⟨_, hcase⟩ := receipt_cases w expiry
  simp only [renewDesktopWith, receipt_checked, Option.bind_eq_bind, Option.bind_some, Id.run_bind]
  cases hr : Id.run (mediaV3ReceiptDeadlineWith plainAdd w expiry) with
  | mk d w₁ =>
      simp only [hr] at hcase
      obtain rfl | ⟨d, rfl, _, hlt, hle⟩ := hcase
      · rfl
      · simp only [mediaMonotonicMsWith_checked, Option.bind_some, Id.run_bind, mono_pair]
        obtain ⟨hm, _⟩ | ⟨t, hm, _, _, hlast, _⟩ := mediaMonotonicMs_cases w₁
        · simp only [hm]
          rfl
        · simp only [hm]
          split
          · rfl
          · have hsum : d - t + 999 ≤ int64Max := by
              simp only [int64Max, horizon] at hle ⊢
              omega
            simp [checkedAdd, plainAdd, hsum]

theorem renewCamera_checked (w : World) (s : MediaSession) (now : Nat) (expiry : Int) :
    renewCameraWith checkedAdd w s now expiry = some (Id.run (renewCameraWith plainAdd w s now expiry)) := by
  simp only [renewCameraWith]
  split
  · rfl
  next hroom =>
    have hsum : s.monotonicDeadlineMs + (expiry - s.issuerExpiryUtc).toNat * 1000 ≤ int64Max := by
      simp only [int64Max] at hroom ⊢
      omega
    simp only [checkedAdd, plainAdd, hsum, if_true, Option.bind_eq_bind, Option.bind_some, Id.run_bind,
      Id.run_pure]
    split
    · rfl
    next hbudget =>
      have hup : s.monotonicDeadlineMs + (expiry - s.issuerExpiryUtc).toNat * 1000 - now + 999 ≤ int64Max := by
        simp only [int64Max]
        omega
      simp [hup]

theorem renew_checked (w : World) (s : MediaSession) (expiry : Int) :
    mediaV3RenewDeadlineWith checkedAdd w s expiry =
      some (Id.run (mediaV3RenewDeadlineWith plainAdd w s expiry)) := by
  simp only [mediaV3RenewDeadlineWith, mediaMonotonicMsWith_checked, Option.bind_eq_bind, Option.bind_some,
    Id.run_bind]
  obtain ⟨reading, w₁⟩ := Id.run (mediaMonotonicMsWith plainAdd w)
  cases reading with
  | none => rfl
  | some t =>
      dsimp only
      split
      · rfl
      split
      · rfl
      split
      · exact renewDesktop_checked w₁ s expiry
      split
      · rfl
      · exact renewCamera_checked w₁ s t expiry

theorem leaseCall_checked (w : World) (s : MediaSession) (call : LeaseCall) :
    leaseCallWith checkedAdd w s call = some (leaseCall w s call) := by
  cases call with
  | begin expiry => simp only [leaseCall, leaseCallWith, begin_checked, Option.bind_eq_bind]; rfl
  | renew expiry => simp only [leaseCall, leaseCallWith, renew_checked, Option.bind_eq_bind]; rfl
  | check => simp only [leaseCall, leaseCallWith, mediaMonotonicMsWith_checked, Option.bind_eq_bind]; rfl

theorem leaseCall_begin (w : World) (s : MediaSession) (expiry : Int) :
    leaseCall w s (.begin expiry) = ((mediaV3BeginDeadline w s expiry).1.isSome,
      (mediaV3BeginDeadline w s expiry).1.getD s, (mediaV3BeginDeadline w s expiry).2) := rfl

theorem leaseCall_renew (w : World) (s : MediaSession) (expiry : Int) :
    leaseCall w s (.renew expiry) = ((mediaV3RenewDeadline w s expiry).1.isSome,
      (mediaV3RenewDeadline w s expiry).1.getD s, (mediaV3RenewDeadline w s expiry).2) := rfl

theorem leaseCall_grant (w : World) (s : MediaSession) (call : LeaseCall)
    (hacc : (leaseCall w s call).1 = true) (hgrant : ¬ GrantsNothing s call) :
    (leaseCall w s call).2.2.monotonicLast < (leaseCall w s call).2.1.monotonicDeadlineMs ∧
      (leaseCall w s call).2.1.monotonicDeadlineMs ≤ (leaseCall w s call).2.2.monotonicLast + horizon := by
  cases call with
  | begin expiry =>
      rw [leaseCall_begin] at hacc ⊢
      obtain ⟨_, hnone | ⟨d, hs, hlt, hle⟩⟩ := begin_cases w s expiry
      · simp [hnone] at hacc
      · simpa only [hs, Option.getD_some] using ⟨hlt, hle⟩
  | renew expiry =>
      rw [leaseCall_renew] at hacc ⊢
      obtain ⟨_, hnone | ⟨_, _, hg⟩ | ⟨d, ttl, hs, _, hlt, hle, _⟩⟩ := renew_cases w s expiry
      · simp [hnone] at hacc
      · exact absurd hg hgrant
      · simpa only [hs, Option.getD_some] using ⟨hlt, hle⟩
  | check => exact absurd trivial hgrant

theorem leaseCall_refused (w : World) (s : MediaSession) (call : LeaseCall)
    (href : (leaseCall w s call).1 = false) : (leaseCall w s call).2.1 = s := by
  cases call with
  | begin expiry =>
      rw [leaseCall_begin] at href ⊢
      simp only [Option.isSome_eq_false_iff, Option.isNone_iff_eq_none] at href
      simp [href]
  | renew expiry =>
      rw [leaseCall_renew] at href ⊢
      simp only [Option.isSome_eq_false_iff, Option.isNone_iff_eq_none] at href
      simp [href]
  | check => rfl

theorem renew_accepted_in_time (w : World) (s : MediaSession) (expiry : Int)
    (hacc : (leaseCall w s (.renew expiry)).1 = true) :
    (leaseCall w s (.renew expiry)).2.2.monotonicLast < s.monotonicDeadlineMs := by
  rw [leaseCall_renew] at hacc ⊢
  obtain ⟨_, hnone | ⟨_, hlt, _⟩ | ⟨_, _, _, hlt, _⟩⟩ := renew_cases w s expiry
  · simp [hnone] at hacc
  · exact hlt
  · exact hlt

theorem leaseCall_camera (w : World) (s : MediaSession) (call : LeaseCall) (hc : s.cameraSource = true)
    (hb : ¬ Begins call) :
    (leaseCall w s call).2.1.cameraSource = true ∧ anchor (leaseCall w s call).2.1 = anchor s ∧
      s.monotonicDeadlineMs ≤ (leaseCall w s call).2.1.monotonicDeadlineMs := by
  cases call with
  | begin expiry => exact absurd trivial hb
  | renew expiry =>
      rw [leaseCall_renew]
      obtain ⟨_, hnone | ⟨hs, _⟩ | ⟨d, ttl, hs, _, _, _, hcam⟩⟩ := renew_cases w s expiry
      · simp [hnone, hc]
      · simp [hs, hc]
      · obtain ⟨hle, hd⟩ := hcam hc
        rw [hs]
        refine ⟨hc, ?_, ?_⟩
        · change (d : Int) - 1000 * expiry = s.monotonicDeadlineMs - 1000 * s.issuerExpiryUtc
          omega
        · change s.monotonicDeadlineMs ≤ d
          omega
  | check => exact ⟨hc, rfl, le_rfl⟩

theorem leaseRun_camera (calls : List LeaseCall) (w : World) (s : MediaSession)
    (hc : s.cameraSource = true) (hb : ∀ call ∈ calls, ¬ Begins call) :
    anchor (leaseRun w s calls).1 = anchor s ∧
      s.monotonicDeadlineMs ≤ (leaseRun w s calls).1.monotonicDeadlineMs := by
  induction calls generalizing w s with
  | nil => exact ⟨rfl, le_rfl⟩
  | cons call calls ih =>
      obtain ⟨hc', ha, hd⟩ := leaseCall_camera w s call hc (hb call (by simp))
      obtain ⟨ha', hd'⟩ := ih (leaseCall w s call).2.2 (leaseCall w s call).2.1 hc'
        (fun c hcalls => hb c (by simp [hcalls]))
      exact ⟨ha'.trans ha, Nat.le_trans hd hd'⟩

theorem mediaMonotonicMs_failed (w : World) (hf : w.monotonicFailed = true) :
    mediaMonotonicMs w = none ∧ (readMonotonic w).monotonicFailed = true := by
  obtain ⟨hm, hw⟩ | ⟨_, _, _, hok, _⟩ := mediaMonotonicMs_cases w
  · exact ⟨hm, by rw [hw]⟩
  · simp [hf] at hok

theorem receipt_failed (w : World) (expiry : Int) (hf : w.monotonicFailed = true) :
    (Id.run (mediaV3ReceiptDeadlineWith plainAdd w expiry)).1 = none ∧
      (Id.run (mediaV3ReceiptDeadlineWith plainAdd w expiry)).2.monotonicFailed = true := by
  obtain ⟨hm, hf'⟩ := mediaMonotonicMs_failed w hf
  simp only [mediaV3ReceiptDeadlineWith]
  split
  · exact ⟨rfl, hf⟩
  · simp only [Id.run_bind, mono_pair, hm]
    exact ⟨rfl, hf'⟩

theorem leaseCall_failed (w : World) (s : MediaSession) (call : LeaseCall) (hf : w.monotonicFailed = true) :
    (leaseCall w s call).1 = false ∧ (leaseCall w s call).2.2.monotonicFailed = true := by
  obtain ⟨hm, hf'⟩ := mediaMonotonicMs_failed w hf
  cases call with
  | begin expiry =>
      obtain ⟨hnone, hfr⟩ := receipt_failed w expiry hf
      simp only [leaseCall_begin, mediaV3BeginDeadline, mediaV3BeginDeadlineWith, Id.run_bind]
      cases hr : Id.run (mediaV3ReceiptDeadlineWith plainAdd w expiry) with
      | mk =>
          simp only [hr] at hnone hfr
          subst hnone
          exact ⟨rfl, hfr⟩
  | renew expiry =>
      simp only [leaseCall_renew, mediaV3RenewDeadline, mediaV3RenewDeadlineWith, Id.run_bind, mono_pair, hm]
      exact ⟨rfl, hf'⟩
  | check => exact ⟨by rw [show (leaseCall w s .check).1 = (mediaMonotonicMs w).isSome from rfl, hm]; rfl, hf'⟩

theorem leaseRun_failed (calls : List LeaseCall) (w : World) (s : MediaSession) (hf : w.monotonicFailed = true) :
    (leaseRun w s calls).2.monotonicFailed = true := by
  induction calls generalizing w s with
  | nil => exact hf
  | cons call calls ih => exact ih _ _ (leaseCall_failed w s call hf).2

theorem renew_too_late (w : World) (s : MediaSession) (expiry : Int) (t : Nat)
    (hm : mediaMonotonicMs w = some t) (hlate : s.monotonicDeadlineMs ≤ t) :
    (leaseCall w s (.renew expiry)).1 = false := by
  simp only [leaseCall_renew, mediaV3RenewDeadline, mediaV3RenewDeadlineWith, Id.run_bind, mono_pair, hm]
  rw [if_pos (.inr hlate)]
  rfl

/-- What one call on a session owes, whatever the two clocks answer. The last
monotonic sample of a call is the one it leaves in the globals. -/
structure CallLaws (w : World) (s : MediaSession) (call : LeaseCall) : Prop where
  granted : (leaseCall w s call).1 = true → ¬ GrantsNothing s call →
    (leaseCall w s call).2.2.monotonicLast < (leaseCall w s call).2.1.monotonicDeadlineMs ∧
      (leaseCall w s call).2.1.monotonicDeadlineMs ≤ (leaseCall w s call).2.2.monotonicLast + horizon
  camera : s.cameraSource = true → ¬ Begins call →
    anchor (leaseCall w s call).2.1 = anchor s ∧
      s.monotonicDeadlineMs ≤ (leaseCall w s call).2.1.monotonicDeadlineMs
  late : ∀ expiry, call = .renew expiry →
    (∃ t, mediaMonotonicMs w = some t ∧ s.monotonicDeadlineMs ≤ t) ∨
      s.monotonicDeadlineMs ≤ (leaseCall w s call).2.2.monotonicLast → (leaseCall w s call).1 = false
  refused : (leaseCall w s call).1 = false → (leaseCall w s call).2.1 = s
  exact : leaseCallWith checkedAdd w s call = some (leaseCall w s call)

theorem callLaws (w : World) (s : MediaSession) (call : LeaseCall) : CallLaws w s call where
  granted := leaseCall_grant w s call
  camera hc hb := (leaseCall_camera w s call hc hb).2
  late := by
    rintro expiry rfl (⟨t, hm, hlate⟩ | hlate)
    · exact renew_too_late w s expiry t hm hlate
    · cases hacc : (leaseCall w s (.renew expiry)).1 with
      | false => rfl
      | true => exact absurd (renew_accepted_in_time w s expiry hacc) (Nat.not_lt.mpr hlate)
  refused := leaseCall_refused w s call
  exact := leaseCall_checked w s call

/-- After any calls, every further call obeys the laws of a lease; over any
calls that do not begin a new session a camera keeps its anchor and never loses
time; and a monotonic clock that has failed once fails for ever. -/
theorem lease_neither_stretched_nor_revived (w₀ : World) (s₀ : MediaSession) (earlier later : List LeaseCall) :
    let s := (leaseRun w₀ s₀ earlier).1
    let w := (leaseRun w₀ s₀ earlier).2
    (∀ call, CallLaws w s call) ∧
    (s.cameraSource = true → (∀ call ∈ later, ¬ Begins call) →
      anchor (leaseRun w s later).1 = anchor s ∧
        s.monotonicDeadlineMs ≤ (leaseRun w s later).1.monotonicDeadlineMs) ∧
    (mediaMonotonicMs w = none → ∀ s',
      mediaMonotonicMs (leaseRun (readMonotonic w) s' later).2 = none ∧
        ∀ call, (leaseCall (leaseRun (readMonotonic w) s' later).2 s' call).1 = false) := by
  intro s w
  refine ⟨callLaws w s, leaseRun_camera later w s, ?_⟩
  intro hm s'
  have hf : (readMonotonic w).monotonicFailed = true := by
    obtain ⟨_, hw⟩ | ⟨t, ht, _⟩ := mediaMonotonicMs_cases w
    · rw [hw]
    · simp [hm] at ht
  have hrun := leaseRun_failed later (readMonotonic w) s' hf
  exact ⟨(mediaMonotonicMs_failed _ hrun).1, fun call => (leaseCall_failed _ s' call hrun).1⟩

end EtranProcessing.Ingress.Lease
