import Mathlib

namespace EtranProcessing.Capture.DegradeController

def windowMs : Nat := 3000
def holdOffMs : Nat := 6000
def floorBadWindows : Nat := 5
def maxP95Samples : Nat := 256
def p95MinSamples : Nat := 20

inductive Profile
  | p480 | p540 | p720
  deriving DecidableEq, Repr

inductive DegradeState
  | nominal | fpsThrottled | degraded540 | degraded480
  deriving DecidableEq, Repr

inductive Action
  | none | d0DropLateRaw | d1FpsThrottle | d2Raster540 | d3Raster480 | stopHighLoad
  deriving DecidableEq, Repr

structure DropClass where
  passed : Nat
  dropped : Nat
  deriving DecidableEq, Repr

structure Window where
  raw : DropClass
  encoder : DropClass
  transport : DropClass
  hasProcessing : Bool
  processingP95Ms : Nat
  processingSamples : Nat
  processingMs : List Nat
  deriving DecidableEq, Repr

structure Controller where
  actualId : Profile
  currentFps : Nat
  startFps : Nat
  degradeState : DegradeState
  d0Done : Bool
  d1Done : Bool
  d2Done : Bool
  d3Done : Bool
  configGeneration : Nat
  windowStartMs : Nat
  windowOpen : Bool
  consecutiveBad : Nat
  floorCounting : Bool
  floorBadStreak : Nat
  holdoffUntilMs : Nat
  holdoffActive : Bool
  deriving DecidableEq, Repr

def DropClass.overThreshold (c : DropClass) : Bool :=
  if c.passed = 0 ∧ c.dropped = 0 then false else c.passed + c.dropped < c.dropped * 5

def Window.noData (wm : Window) : Bool :=
  wm.raw == ⟨0, 0⟩ && wm.encoder == ⟨0, 0⟩ && wm.transport == ⟨0, 0⟩ && !(wm.hasProcessing && 0 < wm.processingSamples)

def Window.bad (wm : Window) (currentFps : Nat) : Bool :=
  wm.raw.overThreshold || wm.encoder.overThreshold || wm.transport.overThreshold ||
    wm.hasProcessing && p95MinSamples ≤ wm.processingSamples && 0 < currentFps && 1000 < wm.processingP95Ms * currentFps

def p95FromSamples (samples : List Nat) (count : Nat) : Option Nat :=
  if count = 0 ∨ maxP95Samples < count then Option.none
  else
    let rank := max 1 (min ((count * 95 + 99) / 100) count)
    ((samples.take count).insertionSort (· ≤ ·))[rank - 1]?

def Window.closed (acc : Window) : Window :=
  if 0 < acc.processingSamples then
    match p95FromSamples acc.processingMs (min acc.processingSamples maxP95Samples) with
    | Option.none => acc
    | some p95 => { acc with processingP95Ms := p95 }
  else acc

namespace Controller

def resetWindowHistory (ctl : Controller) (now : Nat) : Controller :=
  { ctl with windowStartMs := now, windowOpen := true, consecutiveBad := 0 }

def startHoldoff (ctl : Controller) (now : Nat) : Controller :=
  { ctl with holdoffActive := true, holdoffUntilMs := (now + holdOffMs) % 2 ^ 64 }

def holdoffBlocks (ctl : Controller) (now : Nat) : Bool := ctl.holdoffActive && now < ctl.holdoffUntilMs

/-- The session's controller before the profile is known. -/
def zero : Controller where
  actualId := .p480
  currentFps := 0
  startFps := 0
  degradeState := .nominal
  d0Done := false
  d1Done := false
  d2Done := false
  d3Done := false
  configGeneration := 0
  windowStartMs := 0
  windowOpen := false
  consecutiveBad := 0
  floorCounting := false
  floorBadStreak := 0
  holdoffUntilMs := 0
  holdoffActive := false

/-- A refused start leaves the controller as it is. -/
def init (ctl : Controller) (actualId : Profile) (startFps now : Nat) : Controller :=
  if startFps = 0 ∨ actualId = .p540 then ctl
  else
    resetWindowHistory { zero with
      actualId := actualId, currentFps := startFps, startFps := startFps
      d1Done := startFps ≤ 10, d2Done := actualId ≠ .p720, d3Done := actualId ≠ .p720
      floorCounting := actualId = .p480, configGeneration := 1 } now

def notifyApplied (ctl : Controller) (actualId : Profile) (fps : Nat) (state : DegradeState) (generation now : Nat) :
    Controller :=
  let fps := if ctl.currentFps < fps then ctl.currentFps else fps
  let ctl := { ctl with actualId := actualId, currentFps := fps, degradeState := state, configGeneration := generation }
  let ctl := if fps ≤ 10 then { ctl with d1Done := true } else ctl
  let ctl := if actualId = .p480 ∧ ctl.floorCounting = false then { ctl with floorCounting := true, floorBadStreak := 0 }
    else ctl
  ctl.resetWindowHistory now

/-- The next rung, and the rungs that do not apply marked as done. -/
def chooseLadderStep (ctl : Controller) : Action × Controller :=
  if ctl.d0Done = false then (.d0DropLateRaw, ctl)
  else if ctl.d1Done = false ∧ (10 < ctl.currentFps ∨ 10 < ctl.startFps) then (.d1FpsThrottle, ctl)
  else
    let ctl := { ctl with d1Done := true }
    if ctl.d2Done = false ∧ ctl.actualId = .p720 then (.d2Raster540, ctl)
    else
      let ctl := { ctl with d2Done := true }
      if ctl.d3Done = false ∧ ctl.actualId = .p540 then (.d3Raster480, ctl)
      else (.none, { ctl with d3Done := true })

def markActionTaken (ctl : Controller) (act : Action) (end' : Nat) : Controller :=
  let ctl := match act with
    | .d0DropLateRaw =>
        { ctl with d0Done := true, floorBadStreak := 0, floorCounting := ctl.floorCounting || decide (ctl.actualId = Profile.p480) }
    | .d1FpsThrottle => { ctl with d1Done := true }
    | .d2Raster540 => { ctl with d2Done := true }
    | .d3Raster480 => { ctl with d3Done := true, floorCounting := true, floorBadStreak := 0 }
    | _ => ctl
  (ctl.resetWindowHistory end').startHoldoff end'

def count (ctl : Controller) (bad : Bool) : Controller :=
  if bad then
    { ctl with
      consecutiveBad := min 255 (ctl.consecutiveBad + 1)
      floorBadStreak := if ctl.floorCounting then min 255 (ctl.floorBadStreak + 1) else ctl.floorBadStreak }
  else { ctl with consecutiveBad := 0, floorBadStreak := 0 }

/-- A window that passed the length test. -/
def evaluate (ctl : Controller) (windowEnd : Nat) (wm : Window) : Action × Controller :=
  if wm.noData then (.none, { ctl with consecutiveBad := 0, floorBadStreak := 0 }.resetWindowHistory windowEnd)
  else
    let ctl := ctl.count (wm.bad ctl.currentFps)
    if ctl.floorCounting = true ∧ (ctl.d0Done = true ∨ ctl.d3Done = true) ∧ floorBadWindows ≤ ctl.floorBadStreak then
      (.stopHighLoad, ctl.resetWindowHistory windowEnd)
    else if 2 ≤ ctl.consecutiveBad ∧ ctl.holdoffBlocks windowEnd = false then
      match ctl.chooseLadderStep with
      | (.none, ctl) => (.none, { ctl with windowStartMs := windowEnd })
      | (act, ctl) => (act, ctl.markActionTaken act windowEnd)
    else (.none, { ctl with windowStartMs := windowEnd })

def onWindow (ctl : Controller) (windowEnd : Nat) (wm : Window) : Action × Controller :=
  let ctl := if ctl.windowOpen = false then ctl.resetWindowHistory (windowEnd - windowMs) else ctl
  if windowEnd < ctl.windowStartMs then (.none, ctl)
  else if windowEnd - ctl.windowStartMs ≠ windowMs then (.none, ctl)
  else ctl.evaluate windowEnd wm

end Controller

end EtranProcessing.Capture.DegradeController
