import Mathlib

namespace EtranProcessing.Capture.Limits

inductive Status
  | ok | noFrame | deviceLost | sessionUnavailable | outOfMemory | invalidArg | overflow | protocol
  | deadlineExpired | pipeBroken | network | fatal
  deriving DecidableEq, Repr

structure Rect where
  left : Int
  top : Int
  right : Int
  bottom : Int
  deriving DecidableEq, Repr

structure RasterLayout where
  stride : Nat
  bytes : Nat
  deriving DecidableEq, Repr

def maxPixelsArea : Nat := 8294400
def admissionMemoryLimit : Nat := 134217728
def forceIdrMinIntervalMs : Nat := 500
def sizeMax : Nat := 2 ^ 64 - 1

def checkedMul (a b : Nat) : Except Status Nat :=
  if b ≠ 0 ∧ sizeMax / b < a then .error .overflow else .ok (a * b)

def bgraLayout (width height : Nat) : Except Status RasterLayout :=
  if width = 0 ∨ height = 0 then .error .invalidArg
  else if maxPixelsArea < width * height then .error .overflow
  else
    -- the row length rounded up to a multiple of 16
    let stride := (width * 4 + 15) / 16 * 16
    if 2 ^ 31 - 1 < stride then .error .overflow
    else match checkedMul stride height with
      | .error _ => .error .overflow
      | .ok bytes => if admissionMemoryLimit < bytes then .error .overflow else .ok ⟨stride, bytes⟩

def rectLayout (rect : Rect) : Except Status RasterLayout :=
  let width := rect.right - rect.left
  let height := rect.bottom - rect.top
  if width ≤ 0 ∨ height ≤ 0 then .error .invalidArg
  else if 2 ^ 32 - 1 < width ∨ 2 ^ 32 - 1 < height then .error .overflow
  else bgraLayout width.toNat height.toNat

theorem bgraLayout_ne_ok {width height : Nat} {s : Status} (h : bgraLayout width height = .error s) : s ≠ .ok := by
  unfold bgraLayout at h
  split at h
  · cases h; decide
  · split at h
    · cases h; decide
    · dsimp only at h
      split at h
      · cases h; decide
      · split at h
        · cases h; decide
        · split at h
          · cases h; decide
          · cases h

theorem rectLayout_ne_ok {rect : Rect} {s : Status} (h : rectLayout rect = .error s) : s ≠ .ok := by
  unfold rectLayout at h
  dsimp only at h
  split at h
  · cases h; decide
  · split at h
    · cases h; decide
    · exact bgraLayout_ne_ok h

end EtranProcessing.Capture.Limits
