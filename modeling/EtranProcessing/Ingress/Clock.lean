import EtranProcessing.Ingress.State

namespace EtranProcessing.Ingress.Clock

open State

def checkedAdd (a b : Nat) : Option Nat := if a + b ≤ int64Max then some (a + b) else none

def plainAdd (a b : Nat) : Id Nat := pure (a + b)

section Arithmetic

/- The additions of the clock code are a parameter, so that one text serves
both as the program and as the statement that none of its sums overflows. -/
variable {m : Type → Type} [Monad m] (add : Nat → Nat → m Nat)

def monotonicReading (reading : Option Timespec) : m (Option Nat) :=
  match reading with
  | none => pure none
  | some ts =>
      if ts.sec < 0 ∨ ts.nsec < 0 ∨ 1000000000 ≤ ts.nsec ∨ (int64Max - 999) / 1000 < ts.sec.toNat then
        pure none
      else do
        let ms ← add (ts.sec.toNat * 1000) (ts.nsec.toNat / 1000000)
        pure (some ms)

/-- The answer of media_monotonic_ms and the globals it leaves behind. A clock
that fails or runs backwards once is never believed again. -/
def mediaMonotonicMsWith (w : World) : m (Option Nat × World) := do
  let reading ← monotonicReading add (w.env.monotonic w.tick)
  match reading with
  | none => pure (none, { advance w with monotonicFailed := true })
  | some now =>
      if w.monotonicFailed ∨ now < w.monotonicLast ∨ int64Max < now then
        pure (none, { advance w with monotonicFailed := true })
      else pure (some now, { advance w with monotonicLast := now })

def mediaRealtimeReceiptMsWith (w : World) : m (Option Nat × World) :=
  match w.env.realtime w.tick with
  | none => pure (none, advance w)
  | some ts =>
      if ts.sec < 0 ∨ ts.nsec < 0 ∨ 1000000000 ≤ ts.nsec ∨ (int64Max - 1000) / 1000 < ts.sec.toNat then
        pure (none, advance w)
      else do
        let up ← add ts.nsec.toNat 999999
        let ms ← add (ts.sec.toNat * 1000) (up / 1000000)
        pure (some ms, advance w)

def mediaV3ReceiptDeadlineWith (w : World) (expiry : Int) : m (Option Nat × World) :=
  if expiry ≤ 0 ∨ int64Max / 1000 < expiry.toNat then pure (none, w)
  else do
    let mono ← mediaMonotonicMsWith add w
    match mono with
    | (none, w) => pure (none, w)
    | (some now, w) => do
        let wall ← mediaRealtimeReceiptMsWith add w
        match wall with
        | (none, w) => pure (none, w)
        | (some wallMs, w) =>
            if mediaMonotonicBootId w.env = none then pure (none, w)
            else if expiry.toNat * 1000 ≤ wallMs ∨ 7200000 < expiry.toNat * 1000 - wallMs then pure (none, w)
            else if int64Max - (expiry.toNat * 1000 - wallMs) < now then pure (none, w)
            else do
              let deadline ← add now (expiry.toNat * 1000 - wallMs)
              pure (some deadline, w)

def mediaV3BeginDeadlineWith (w : World) (s : MediaSession) (expiry : Int) :
    m (Option MediaSession × World) := do
  let receipt ← mediaV3ReceiptDeadlineWith add w expiry
  match receipt with
  | (none, w) => pure (none, w)
  | (some deadline, w) => pure (some { s with issuerExpiryUtc := expiry, monotonicDeadlineMs := deadline }, w)

/-- The renewal of a desktop session: a receipt against the live UTC clock,
then a second monotonic sample after it. -/
def renewDesktopWith (w : World) (s : MediaSession) (expiry : Int) :
    m (Option MediaSession × World) := do
  let receipt ← mediaV3ReceiptDeadlineWith add w expiry
  match receipt with
  | (none, w) => pure (none, w)
  | (some candidate, w) => do
      let mono ← mediaMonotonicMsWith add w
      match mono with
      | (none, w) => pure (none, w)
      | (some now, w) =>
          if s.monotonicDeadlineMs ≤ now ∨ candidate ≤ now then pure (none, w)
          else do
            let up ← add (candidate - now) 999
            pure (some { s with issuerExpiryUtc := expiry, monotonicDeadlineMs := candidate,
                                ttlSec := (up / 1000 : Nat) }, w)

/-- The renewal of a camera session: the issuer coordinate and the deadline
move by the same amount. -/
def renewCameraWith (w : World) (s : MediaSession) (now : Nat) (expiry : Int) :
    m (Option MediaSession × World) :=
  let delta := (expiry - s.issuerExpiryUtc).toNat
  if 7200 < delta ∨ int64Max - delta * 1000 < s.monotonicDeadlineMs then pure (none, w)
  else do
    let candidate ← add s.monotonicDeadlineMs (delta * 1000)
    if candidate ≤ now ∨ 7200000 < candidate - now then pure (none, w)
    else do
      let up ← add (candidate - now) 999
      pure (some { s with issuerExpiryUtc := expiry, monotonicDeadlineMs := candidate,
                          ttlSec := (up / 1000 : Nat) }, w)

def mediaV3RenewDeadlineWith (w : World) (s : MediaSession) (expiry : Int) :
    m (Option MediaSession × World) := do
  let mono ← mediaMonotonicMsWith add w
  match mono with
  | (none, w) => pure (none, w)
  | (some now, w) =>
      if s.monotonicDeadlineMs = 0 ∨ s.monotonicDeadlineMs ≤ now then pure (none, w)
      else if expiry = s.issuerExpiryUtc then pure (some s, w)
      else if s.cameraSource = false then renewDesktopWith add w s expiry
      else if expiry < s.issuerExpiryUtc then pure (some s, w)
      else renewCameraWith add w s now expiry

end Arithmetic

def mediaMonotonicMs (w : World) : Option Nat := (Id.run (mediaMonotonicMsWith plainAdd w)).1

def readMonotonic (w : World) : World := (Id.run (mediaMonotonicMsWith plainAdd w)).2

def mediaV3BeginDeadline (w : World) (s : MediaSession) (expiry : Int) : Option MediaSession × World :=
  Id.run (mediaV3BeginDeadlineWith plainAdd w s expiry)

def mediaV3RenewDeadline (w : World) (s : MediaSession) (expiry : Int) : Option MediaSession × World :=
  Id.run (mediaV3RenewDeadlineWith plainAdd w s expiry)

theorem monotonicReading_checked (r : Option Timespec) :
    monotonicReading checkedAdd r = some (Id.run (monotonicReading plainAdd r)) := by
  cases r with
  | none => rfl
  | some ts =>
      simp only [monotonicReading]
      split
      · rfl
      next h =>
        have hsum : ts.sec.toNat * 1000 + ts.nsec.toNat / 1000000 ≤ int64Max := by
          simp only [int64Max] at h ⊢
          omega
        simp [checkedAdd, plainAdd, hsum]

theorem mediaMonotonicMsWith_checked (w : World) :
    mediaMonotonicMsWith checkedAdd w = some (Id.run (mediaMonotonicMsWith plainAdd w)) := by
  simp only [mediaMonotonicMsWith, monotonicReading_checked, Option.bind_eq_bind, Option.bind_some,
    Id.run_bind]
  cases Id.run (monotonicReading plainAdd (w.env.monotonic w.tick)) with
  | none => rfl
  | some now => dsimp only; split <;> rfl

theorem sums_checked {α : Type} (a b c d : Nat) (f : Nat → α) (hup : a + b ≤ int64Max)
    (hsum : c + (a + b) / d ≤ int64Max) :
    (do let up ← checkedAdd a b
        let ms ← checkedAdd c (up / d)
        pure (f ms) : Option α) =
      some (Id.run (do
        let up ← plainAdd a b
        let ms ← plainAdd c (up / d)
        pure (f ms))) := by
  simp [checkedAdd, plainAdd, hup, hsum]

theorem nsec_bound (a b : Nat) (ha : a < 1000000000) (hb : b ≤ (int64Max - 1000) / 1000) :
    a + 999999 ≤ int64Max ∧ b * 1000 + (a + 999999) / 1000000 ≤ int64Max := by
  simp only [int64Max] at *
  omega

theorem mediaRealtimeReceiptMsWith_checked (w : World) :
    mediaRealtimeReceiptMsWith checkedAdd w = some (Id.run (mediaRealtimeReceiptMsWith plainAdd w)) := by
  simp only [mediaRealtimeReceiptMsWith]
  cases w.env.realtime w.tick with
  | none => rfl
  | some ts =>
      dsimp only
      split
      · rfl
      next h =>
        obtain ⟨hup, hsum⟩ := nsec_bound ts.nsec.toNat ts.sec.toNat (by omega) (by omega)
        exact sums_checked _ _ _ _ (fun ms => (some ms, advance w)) hup hsum

theorem mediaMonotonicMs_cases (w : World) :
    (mediaMonotonicMs w = none ∧ readMonotonic w = { advance w with monotonicFailed := true }) ∨
    (∃ t, mediaMonotonicMs w = some t ∧ readMonotonic w = { advance w with monotonicLast := t } ∧
      w.monotonicFailed = false ∧ w.monotonicLast ≤ t ∧ t ≤ int64Max) := by
  simp only [mediaMonotonicMs, readMonotonic, mediaMonotonicMsWith, Id.run_bind]
  cases Id.run (monotonicReading plainAdd (w.env.monotonic w.tick)) with
  | none => exact .inl ⟨rfl, rfl⟩
  | some t =>
      dsimp only
      split
      · exact .inl ⟨rfl, rfl⟩
      next h =>
        simp only [not_or, Bool.not_eq_true, not_lt] at h
        exact .inr ⟨t, rfl, rfl, h.1, h.2.1, h.2.2⟩

/-- A world that differs at most in the clock globals and the number of
answers it has taken from outside. -/
def ClockOnly (w w' : World) : Prop :=
  ∃ tick last failed, w' = { w with tick := tick, monotonicLast := last, monotonicFailed := failed }

theorem ClockOnly.refl (w : World) : ClockOnly w w := ⟨w.tick, w.monotonicLast, w.monotonicFailed, rfl⟩

theorem ClockOnly.trans {u v w : World} (h : ClockOnly u v) (h' : ClockOnly v w) : ClockOnly u w := by
  obtain ⟨_, _, _, rfl⟩ := h
  obtain ⟨t, l, f, rfl⟩ := h'
  exact ⟨t, l, f, rfl⟩

theorem advance_clockOnly (w : World) : ClockOnly w (advance w) :=
  ⟨w.tick + 1, w.monotonicLast, w.monotonicFailed, rfl⟩

theorem readMonotonic_clockOnly (w : World) : ClockOnly w (readMonotonic w) := by
  obtain ⟨_, h⟩ | ⟨t, _, h, _⟩ := mediaMonotonicMs_cases w
  · exact ⟨w.tick + 1, w.monotonicLast, true, h⟩
  · exact ⟨w.tick + 1, t, w.monotonicFailed, h⟩

theorem mediaRealtimeReceiptMs_world (w : World) :
    (Id.run (mediaRealtimeReceiptMsWith plainAdd w)).2 = advance w := by
  simp only [mediaRealtimeReceiptMsWith]
  cases w.env.realtime w.tick with
  | none => rfl
  | some ts => dsimp only; split <;> rfl

end EtranProcessing.Ingress.Clock
