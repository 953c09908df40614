import EtranProcessing.Desk.DedupCache
import EtranProcessing.Desk.FfmpegSupervisor

namespace EtranProcessing.Desk.ControlCommands

open CaptureAdapter Inventory FfmpegSupervisor JsonMin DedupCache

abbrev Bytes := List UInt8

def maxResp : Nat := 8192

inductive DesktopAccess
  | ok | sessionUnavailable | locked
  deriving DecidableEq

inductive InjectError
  | invalidParameter | busy | invalidTargetHandle | other
  deriving DecidableEq

/-- What the handler reads of the supervisor's information. -/
structure StreamStateInfo where
  streamInstanceId : CString
  leaseId : CString
  mode : CString
  sourceId : CString
  state : StreamState

/-- A payload with the answers of the rest of the agent while it is handled. -/
structure Delivery where
  payload : CString
  payloadLen : Nat
  fileTime : UInt64
  /-- The second in which the cache is looked at. -/
  time : Seconds
  inv : SystemInventory
  start : Except (Field 64 × Field 256) (Field 32)
  stop : Except (Field 64 × Field 256) (Field 32)
  stream : StreamStateInfo
  access : DesktopAccess
  /-- Both coordinates are read as numbers. -/
  coordinates : Bool
  allowF12 : Bool
  allowAltF4 : Bool
  allowWinD : Bool
  vkAllowed : Int → Bool
  injected : Except InjectError Unit

/-- What is done besides the answer. -/
inductive Action
  | start (streamInstanceId leaseId mode sourceId profile : CString)
  | stop (streamInstanceId leaseId : CString)
  | updateLease (leaseId : CString) (expiresAtMs : Int)
  | move
  | click (button : CString)
  | drag (toX toY : Int)
  | wheel (delta : Int)
  | key (kind : CString) (vk : Int) (text : CString)
  | shortcut (action : CString)

structure Response where
  published : Option Bytes
  cached : Bool
  executed : List Action

def isIdentifierByte (b : UInt8) : Bool := 32 < b && b < 127

def isValidIdentifier (s : CString) : Bool := 1 ≤ s.val.length && s.val.length ≤ 64 && s.val.all isIdentifierByte

/-- The copy with its quotes and backslashes escaped, as far as it fits. -/
def jsonEscapeStr (maxOut : Nat) : Nat → Bytes → Bytes
  | _, [] => []
  | j, b :: rest =>
      if j + 2 < maxOut then
        if b = backslash then backslash :: backslash :: jsonEscapeStr maxOut (j + 2) rest
        else if b = quote then backslash :: quote :: jsonEscapeStr maxOut (j + 2) rest
        else b :: jsonEscapeStr maxOut (j + 1) rest
      else []

def decimal (n : Int) : Bytes := text (toString n)

def ackHead (commandId leaseId sn : Bytes) : Bytes :=
  text "\x7b\"v\":1,\"type\":\"ack\",\"command_id\":\"" ++ commandId ++ text "\",\"lease_id\":\"" ++ leaseId ++
    text "\",\"sn\":\"" ++ sn ++ text "\","

def terminalTime (timeMs : Nat) : Bytes := text "\"terminal_time_ms\":" ++ decimal timeMs ++ text "\x7d"

def ackPayload (commandId leaseId sn : Bytes) (timeMs : Nat) : Bytes :=
  ackHead commandId leaseId sn ++ text "\"result\":\"injected\"," ++ terminalTime timeMs

def ackStreamPayload (commandId leaseId sn result streamInstanceId : Bytes) (state : String) (timeMs : Nat) : Bytes :=
  ackHead commandId leaseId sn ++ text "\"result\":\"" ++ result ++ text "\",\"stream_instance_id\":" ++
    (if streamInstanceId = [] then text "null" else text "\"" ++ streamInstanceId ++ text "\"") ++
    text ",\"state\":\"" ++ text state ++ text "\"," ++ terminalTime timeMs

def truth (b : Bool) : Bytes := text (if b then "true" else "false")

def displayEntry (d : DisplayInfo) : Bytes :=
  text "\x7b\"desktop_id\":\"" ++ d.desktopId.val ++ text "\",\"name\":\"" ++ jsonEscapeStr 128 0 d.name.val ++
    text "\",\"primary\":" ++ truth d.primary ++ text ",\"x\":" ++ decimal d.x.toInt ++ text ",\"y\":" ++ decimal d.y.toInt ++
    text ",\"width\":" ++ decimal d.width.toInt ++ text ",\"height\":" ++ decimal d.height.toInt ++
    text ",\"session_id\":" ++ decimal d.sessionId.toNat ++ text ",\"policy\":\"" ++ d.policy.val ++ text "\"\x7d"

def cameraEntry (c : CameraInfo) : Bytes :=
  text "\x7b\"camera_id\":\"" ++ c.cameraId.val ++ text "\",\"name\":\"" ++ jsonEscapeStr 256 0 c.name.val ++
    text "\",\"available\":" ++ truth c.available ++ text "\x7d"

def ackInventoryPayload (commandId leaseId sn : Bytes) (inv : SystemInventory) (timeMs : Nat) : Bytes :=
  ackHead commandId leaseId sn ++ text "\"result\":\"inventory\",\"inventory\":\x7b\"displays\":[" ++
    (text ",").intercalate (inv.displays.map displayEntry) ++ text "],\"cameras\":[" ++
    (text ",").intercalate (inv.cameras.map cameraEntry) ++ text "]\x7d," ++ terminalTime timeMs

def nackPayload (commandId leaseId sn code message : Bytes) (timeMs : Nat) : Bytes :=
  ackHead commandId leaseId sn ++ text "\"result\":\"nack\",\"code\":\"" ++ code ++ text "\",\"message\":\"" ++
    jsonEscapeStr 512 0 message ++ text "\"," ++ terminalTime timeMs

section Commands

variable (ownSn : Field 64) (d : Delivery)

def Delivery.nowMs : Nat := ((d.fileTime - 116444736000000000) / 10000).toNat

def Delivery.cmdId : Field 64 := extractStr d.payload "command_id" 64
def Delivery.leaseId : Field 64 := extractStr d.payload "lease_id" 64
def Delivery.cmdSn : Field 64 := extractStr d.payload "sn" 64
def Delivery.cmdType : Field 32 := extractStr d.payload "type" 32
def Delivery.streamInstanceId : Field 64 := extractStr d.payload "stream_instance_id" 64

def Delivery.expiresAtMs : Int := (extractInt64 d.payload "expires_at_ms").getD 0

def Delivery.is (word : String) : Bool := d.cmdType.val = text word

def nack (code message : Bytes) : Bytes := nackPayload d.cmdId.val d.leaseId.val ownSn.val code message d.nowMs
def ack : Bytes := ackPayload d.cmdId.val d.leaseId.val ownSn.val d.nowMs

def reply (payload : Bytes) : Response := ⟨some payload, false, []⟩

def cached (payload : Bytes) (executed : List Action) : Response := ⟨some payload, true, executed⟩

def refuse (code message : String) : Response := cached (nack ownSn d (text code) (text message)) []

def inventoryGet : Response := cached (ackInventoryPayload d.cmdId.val d.leaseId.val ownSn.val d.inv d.nowMs) []

def streamStart : Response :=
  let mode := extractStr d.payload "mode" 32
  let sourceId := extractStr d.payload "source_id" 64
  let profile := extractStr d.payload "profile" 32
  let streamInstanceId := d.streamInstanceId
  if mode.val = [] ∨ sourceId.val = [] ∨ streamInstanceId.val = [] then
    refuse ownSn d "invalid_payload" "Missing required stream_start fields"
  else
    let started := Action.start streamInstanceId.str d.leaseId.str mode.str sourceId.str profile.str
    match d.start with
    | .ok result =>
        cached (ackStreamPayload d.cmdId.val d.leaseId.val ownSn.val result.val streamInstanceId.val "running" d.nowMs)
          (started :: if 0 < d.expiresAtMs then [.updateLease d.leaseId.str d.expiresAtMs] else [])
    | .error (code, message) => cached (nack ownSn d code.val message.val) [started]

def streamStop : Response :=
  let stopped := Action.stop d.streamInstanceId.str d.leaseId.str
  match d.stop with
  | .ok result =>
      cached (ackStreamPayload d.cmdId.val d.leaseId.val ownSn.val result.val d.streamInstanceId.val "stopped" d.nowMs) [stopped]
  | .error (code, message) => cached (nack ownSn d code.val message.val) [stopped]

def renew : Response :=
  if d.stream.state ≠ .running ∧ d.stream.state ≠ .restarting then
    reply (nack ownSn d (text "stream_not_running") (text "No active stream to renew"))
  else if d.stream.leaseId.val ≠ [] ∧ d.stream.leaseId.val ≠ d.leaseId.val then
    reply (nack ownSn d (text "lease_mismatch") (text "Active stream lease does not match"))
  else if d.streamInstanceId.val ≠ [] ∧ d.stream.streamInstanceId.val ≠ [] ∧ d.stream.streamInstanceId.val ≠ d.streamInstanceId.val then
    reply (nack ownSn d (text "stream_mismatch") (text "Stream instance ID mismatch"))
  else if d.expiresAtMs ≤ 0 ∨ d.expiresAtMs ≤ d.nowMs ∨ 5000000000000 < d.expiresAtMs then
    reply (nack ownSn d (text "invalid_payload") (text "Missing, expired, or invalid expires_at_ms"))
  else cached (ack ownSn d) [.updateLease d.leaseId.str d.expiresAtMs]

def Delivery.desktopId : Field 64 :=
  let desktopId := extractStr d.payload "desktop_id" 64
  if desktopId.val = [] then extractStr d.payload "source_id" 64 else desktopId

/-- The checks before an input: the code and the message of the first that fails. -/
def inputGate (stream : StreamStateInfo) (inv : SystemInventory) (access : DesktopAccess) : Option (String × String) :=
  if stream.state ≠ .running then some ("stream_mismatch", "Stream is not running")
  else if isDesktop stream.mode = false then some ("input_not_allowed_in_camera_mode", "Input is not allowed in camera mode")
  else if stream.leaseId.val ≠ [] ∧ (d.leaseId.val = [] ∨ stream.leaseId.val ≠ d.leaseId.val) then
    some ("lease_mismatch", "Lease ID mismatch")
  else if stream.sourceId.val ≠ [] ∧ d.desktopId.val ≠ [] ∧ stream.sourceId.val ≠ d.desktopId.val then
    some ("desktop_mismatch", "Desktop ID mismatch")
  else if stream.streamInstanceId.val ≠ [] ∧ d.streamInstanceId.val ≠ [] ∧ stream.streamInstanceId.val ≠ d.streamInstanceId.val then
    some ("stream_mismatch", "Stream instance mismatch")
  else if (inv.findDisplay stream.sourceId).any fun display => !stricmp display.policy "input" then
    some ("source_not_allowed", "Display policy denies input")
  else
    match access with
    | .sessionUnavailable => some ("session_unavailable", "Active console session unavailable")
    | .locked => some ("desktop_locked", "Input desktop is unavailable or locked")
    | .ok => none

def inject (action : Action) (code : InjectError → String) (message : InjectError → String) : Response :=
  match d.injected with
  | .ok () => cached (ack ownSn d) [action]
  | .error e => cached (nack ownSn d (text (code e)) (text (message e))) [action]

def injectionFailed (_ : InjectError) : String := "input_injection_failed"

def mouseCode (e : InjectError) : String := if e = .invalidParameter then "invalid_payload" else "input_injection_failed"

def inRange (n : Int) : Bool := 0 ≤ n && n ≤ 65535

def mouseDrag : Response :=
  match extractInt d.payload "to_x", extractInt d.payload "to_y" with
  | some toX, some toY =>
      if inRange toX && inRange toY then inject ownSn d (.drag toX toY) mouseCode fun _ => "Mouse action failed"
      else refuse ownSn d "invalid_payload" "Mouse action failed"
  | _, _ => refuse ownSn d "invalid_payload" "Mouse action failed"

def mouseWheel : Response :=
  match extractInt d.payload "delta" with
  | some delta =>
      if delta ≠ 0 ∧ -1200 ≤ delta ∧ delta ≤ 1200 then inject ownSn d (.wheel delta) mouseCode fun _ => "Mouse action failed"
      else refuse ownSn d "invalid_payload" "Mouse action failed"
  | none => refuse ownSn d "invalid_payload" "Mouse action failed"

def mouseClick : Response :=
  let button := extractStr d.payload "button" 32
  let button : CString := if button.val = [] then ⟨text "left", by decide⟩ else button.str
  if !stricmp button "left" && !stricmp button "right" then
    refuse ownSn d "invalid_payload" "Invalid button (only left and right allowed)"
  else inject ownSn d (.click button) injectionFailed fun _ => "Click injection failed"

def shortcutCode (e : InjectError) : String := if e = .busy then "desktop_locked" else "input_injection_failed"

def altF4Code : InjectError → String
  | .invalidTargetHandle => "action_blocked_winlogon_guard"
  | .busy => "desktop_locked"
  | _ => "input_injection_failed"

def altF4Message : InjectError → String
  | .invalidTargetHandle => "Target window is protected or focus changed"
  | .busy => "Desktop locked"
  | _ => "Alt+F4 injection failed"

def shortcutAction : Response :=
  let action := (extractStr d.payload "action" 64).str
  if action.val = [] then refuse ownSn d "invalid_payload" "Missing action in shortcut_action"
  else if stricmp action "f12" then
    if d.allowF12 then inject ownSn d (.shortcut action) shortcutCode fun _ => "F12 injection failed"
    else refuse ownSn d "action_blocked_policy" "F12 is disabled on this kiosk"
  else if stricmp action "alt_f4" then
    if d.allowAltF4 then inject ownSn d (.shortcut action) altF4Code altF4Message
    else refuse ownSn d "action_blocked_policy" "Alt+F4 is disabled on this kiosk"
  else if stricmp action "win_d" then
    if d.allowWinD then inject ownSn d (.shortcut action) shortcutCode fun _ => "Win+D injection failed"
    else refuse ownSn d "action_blocked_policy" "Win+D is disabled on this kiosk"
  else refuse ownSn d "invalid_payload" "Unknown shortcut action (expected f12, alt_f4, or win_d)"

theorem kind_holds : 0 < 16 := by decide

def keyEvent : Response :=
  let kind := extractStr d.payload "kind" 16 kind_holds
  let vk := (extractInt d.payload "vk").getD 0
  let typed := extractStr d.payload "text" 128
  if 0 < vk ∧ d.vkAllowed vk = false then refuse ownSn d "action_blocked_policy" "Virtual key not allowed by policy"
  else inject ownSn d (.key kind.str vk typed.str) injectionFailed fun _ => "Key injection failed"

def unanswered (executed : List Action) : Response := ⟨none, false, executed⟩

def inputAction : Response :=
  if d.is "shortcut_action" then shortcutAction ownSn d
  else if d.is "key_event" then keyEvent ownSn d
  else if d.coordinates = false then
    if d.is "pointer_move" then unanswered []
    else reply (nack ownSn d (text "invalid_payload") (text "Missing coordinates"))
  else if d.is "pointer_move" then unanswered [.move]
  else if d.is "mouse_drag" then mouseDrag ownSn d
  else if d.is "mouse_wheel" then mouseWheel ownSn d
  else mouseClick ownSn d

def input : Response :=
  match inputGate d d.stream d.inv d.access with
  | some (code, message) => if d.is "pointer_move" then unanswered [] else refuse ownSn d code message
  | none =>
      let refreshed : List Action := if 0 < d.expiresAtMs then [.updateLease d.stream.leaseId d.expiresAtMs] else []
      let response := inputAction ownSn d
      { response with executed := refreshed ++ response.executed }

def isInput : Bool :=
  ["pointer_move", "mouse_click", "mouse_drag", "mouse_wheel", "key_event", "shortcut_action"].any d.is

/-- The answer to a command that is not in the cache. -/
def respond : Response :=
  if d.is "inventory_get" then inventoryGet ownSn d
  else if d.is "stream_start" then streamStart ownSn d
  else if d.is "stream_stop" then streamStop ownSn d
  else if d.is "lease_renew" || d.is "stream_renew" then renew ownSn d
  else if isInput d then input ownSn d
  else reply (nack ownSn d (text "unsupported") (text "Unsupported command type"))

/-- What ends a command before the cache: no answer at all, or a nack. -/
def refused : Option (Option Bytes) :=
  if 8192 < d.payloadLen ∨ d.payloadLen < 10 then some none
  else if extractInt d.payload "v" ≠ some 1 then some none
  else if d.cmdSn.val ≠ [] ∧ ownSn.val ≠ [] ∧ d.cmdSn.val ≠ ownSn.val then
    some (nack ownSn d (text "invalid_sn") (text "SN mismatch"))
  else if isValidIdentifier d.cmdId.str = false then some (nack ownSn d (text "invalid_payload") (text "Invalid command_id"))
  else if 0 < d.expiresAtMs ∧ (d.expiresAtMs + 2000).bmod (2 ^ 64) < d.nowMs then some (nack ownSn d (text "expired") (text "Command expired"))
  else none

structure Handled where
  published : Option Bytes
  executed : List Action
  /-- The answer came from the cache, or went there. -/
  answered : Bool

def handleCommand (c : Cache) : Option (Handled × Cache) :=
  match refused ownSn d with
  | some published => some (⟨published, [], false⟩, c)
  | none =>
      match c.get d.cmdId.str maxResp d.time with
      | some (found, c) => some (⟨some found, [], true⟩, c)
      | none =>
          let response := respond ownSn d
          match response.published with
          | some payload =>
              if response.cached then
                (c.put d.cmdId.str payload d.time).map fun c => (⟨some payload, response.executed, true⟩, c)
              else some (⟨some payload, response.executed, false⟩, c)
          | none => some (⟨none, response.executed, false⟩, c)

end Commands

end EtranProcessing.Desk.ControlCommands
