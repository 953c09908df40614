import EtranProcessing.Desk.CaptureAdapter

namespace EtranProcessing.Desk.Inventory

open Capture CaptureAdapter

structure DisplayInfo where
  desktopId : CString
  name : CString
  primary : Bool
  x : Int32
  y : Int32
  width : Int32
  height : Int32
  sessionId : UInt32
  policy : CString

structure CameraInfo where
  cameraId : CString
  name : CString
  devicePath : CString
  available : Bool

structure SystemInventory where
  displays : List DisplayInfo
  cameras : List CameraInfo
  allowedProfiles : List CString

def DisplayInfo.rect (display : DisplayInfo) : IpcProtocol.Rect :=
  ⟨display.x, display.y, display.x + display.width, display.y + display.height⟩

def sameIgnoringCase (a b : List UInt8) : Bool := a.map lower == b.map lower

def shortName (name : CString) : Option (List UInt8) :=
  if 0x5c ∈ name.val then some (name.val.reverse.takeWhile (· ≠ 0x5c)).reverse else none

def withoutPrefix (word : String) (id : CString) : Option (List UInt8) :=
  let start := word.toList.map fun c => UInt8.ofNat c.toNat
  if start <+: id.val then some (id.val.drop start.length) else none

def isOneOf (words : List String) (id : CString) : Bool := words.any (stricmp id)

def preferred {α : Type} (prefers : α → Bool) (entries : List α) : Option α := (entries.find? prefers).or entries.head?

def SystemInventory.findDisplay (inv : SystemInventory) (desktopId : CString) : Option DisplayInfo :=
  (inv.displays.find? fun d => sameIgnoringCase d.desktopId.val desktopId.val).or <|
    (inv.displays.find? fun d => sameIgnoringCase d.name.val desktopId.val ||
      (shortName d.name).any (sameIgnoringCase · desktopId.val)).or <|
    (inv.displays.find? fun d => (withoutPrefix "disp:" d.desktopId).any (sameIgnoringCase · desktopId.val)).or <|
    if isOneOf ["disp", "desktop", "0", "primary", "default"] desktopId then preferred (·.primary) inv.displays else none

def SystemInventory.findCamera (inv : SystemInventory) (cameraId : CString) : Option CameraInfo :=
  (inv.cameras.find? fun c => sameIgnoringCase c.cameraId.val cameraId.val).or <|
    (inv.cameras.find? fun c => sameIgnoringCase c.name.val cameraId.val).or <|
    (inv.cameras.find? fun c => (withoutPrefix "cam:" c.cameraId).any (sameIgnoringCase · cameraId.val)).or <|
    if isOneOf ["cam", "camera", "usb-camera", "0", "default"] cameraId then preferred (·.available) inv.cameras else none

def SystemInventory.isProfileAllowed (inv : SystemInventory) (profile : CString) : Bool :=
  if profile.val = [] || stricmp profile "default" then
    inv.allowedProfiles.any (stricmp · "default") || inv.allowedProfiles.isEmpty
  else inv.allowedProfiles.any fun allowed => sameIgnoringCase allowed.val profile.val

end EtranProcessing.Desk.Inventory
