import EtranProcessing.Desk.CommandsOnce

namespace EtranProcessing.Desk.PayloadBuffers

open CaptureAdapter Inventory JsonMin ControlCommands CommandsOnce

/-! ### Texts printed one after another into a buffer -/

/-- Where the next text goes: `snprintf` returns the length of its whole text, whether or not it fits. -/
def offset (prints : List Bytes) : Nat := (prints.map List.length).sum

/-- How much of the texts from `start` on is in the buffer, the terminator apart. -/
def stored (maxLen : Nat) : Nat → List Bytes → Nat
  | _, [] => 0
  | start, print :: prints => min print.length (maxLen - 1 - start) + stored maxLen (start + print.length) prints

def Safe (maxLen : Nat) (prints : List Bytes) : Prop :=
  (∀ i < prints.length, offset (prints.take i) ≤ maxLen) ∧ offset prints ≤ stored maxLen 0 prints

def guarded (maxLen : Nat) (prints block : List Bytes) : List Bytes :=
  if 0 < offset prints ∧ offset prints < maxLen then prints ++ block else prints

def separated : List Bytes → List Bytes
  | [] => []
  | entry :: entries => entry :: entries.map (text "," ++ ·)

/-! ### The builders -/

structure ScreenMetrics where
  virtualX : Int32
  virtualY : Int32
  virtualWidth : Int32
  virtualHeight : Int32

structure StreamStateInfo where
  streamInstanceId : Field 64
  mode : Field 32
  sourceId : Field 64
  profile : Field 32
  state : Field 32
  reason : Field 64
  ffmpegPid : UInt32
  startedAt : UInt64
  restartCount : Int32

inductive Status
  | online | offline

def Status.word : Status → String
  | .online => "online"
  | .offline => "offline"

/-- The inventory as its arrays hold it. -/
structure BoundedInventory where
  inv : SystemInventory
  displays : inv.displays.length ≤ 16
  cameras : inv.cameras.length ≤ 16
  display_fits : ∀ d ∈ inv.displays, d.desktopId.val.length < 32 ∧ d.name.val.length < 64 ∧ d.policy.val.length < 16
  camera_fits : ∀ c ∈ inv.cameras, c.cameraId.val.length < 32 ∧ c.name.val.length < 128

def inventoryPrints (inv : SystemInventory) : List Bytes :=
  separated (inv.displays.map displayEntry) ++ [text "],\"cameras\":["] ++
    separated (inv.cameras.map cameraEntry) ++ [text "]\x7d,"]

def ackInventoryHead (commandId leaseId sn : Bytes) : Bytes :=
  ackHead commandId leaseId sn ++ text "\"result\":\"inventory\",\"inventory\":\x7b\"displays\":["

def buildAckInventoryPayload (maxLen : Nat) (commandId leaseId sn : Bytes) (inv : Option SystemInventory) (timeMs : Nat) :
    List Bytes :=
  let head := [ackInventoryHead commandId leaseId sn]
  let prints :=
    match inv with
    | some inv =>
      if 0 < offset head ∧ offset head < maxLen then head ++ inventoryPrints inv
      else head ++ [text "],\"cameras\":[]\x7d,"]
    | none => head ++ [text "],\"cameras\":[]\x7d,"]
  guarded maxLen prints [terminalTime timeMs]

def presenceHead (status : Status) (desktopAvailable : Bool) (sessionId : UInt32) : Bytes :=
  text "\x7b\"v\":1,\"type\":\"presence\",\"agent\":\"l4desk\",\"version\":\"1.9.3\",\"capabilities\":[\"quick_actions\",\"shortcut_action\",\"right_click\",\"mouse_drag\",\"mouse_wheel\"],\"status\":\"" ++
    text status.word ++ text "\",\"desktop_available\":" ++ truth desktopAvailable ++ text ",\"session_id\":" ++
    decimal sessionId.toNat ++ text ","

def screenPrint (screen : ScreenMetrics) : Bytes :=
  text "\"screen\":\x7b\"virtual_x\":" ++ decimal screen.virtualX.toInt ++ text ",\"virtual_y\":" ++
    decimal screen.virtualY.toInt ++ text ",\"virtual_width\":" ++ decimal screen.virtualWidth.toInt ++
    text ",\"virtual_height\":" ++ decimal screen.virtualHeight.toInt ++ text "\x7d,"

def quotedOrNull (maxOut : Nat) (s : Bytes) : Bytes :=
  if s = [] then text "null" else text "\"" ++ jsonEscapeStr maxOut 0 s ++ text "\""

section Presence

-- `gmtime_s` and the format of the time up to the seconds, where it succeeds
variable (utcText : Nat → Option Bytes)

def StreamStateInfo.stateVal (stream : StreamStateInfo) : Bytes :=
  if stream.state.val = [] then text "stopped" else stream.state.val

def StreamStateInfo.modeVal (stream : StreamStateInfo) : Bytes :=
  if stream.stateVal = text "stopped" ∨ stream.mode.val = [] then text "stopped" else stream.mode.val

def millis (ms : Nat) : Bytes := text (if ms < 10 then "00" else if ms < 100 then "0" else "") ++ decimal ms

def StreamStateInfo.startedAtText (stream : StreamStateInfo) : Bytes :=
  if stream.stateVal = text "stopped" ∨ stream.startedAt = 0 then text "null"
  else
    let started := stream.startedAt.toNat
    let (sec, ms) := if 100000000000 < started then (started / 1000, started % 1000) else (started, 0)
    match utcText sec with
    | some utc => (text "\"" ++ utc ++ text "." ++ millis ms ++ text "Z\"").take 63
    | none => text "null"

def streamPrints (stream : StreamStateInfo) : List Bytes :=
  [text "\"stream\":\x7b\"state\":\"" ++ stream.stateVal ++ text "\",\"mode\":\"" ++ stream.modeVal ++ text "\",",
    text "\"source_id\":" ++ quotedOrNull 128 stream.sourceId.val ++ text ",",
    text "\"stream_instance_id\":" ++ quotedOrNull 128 stream.streamInstanceId.val ++ text ",",
    text "\"profile\":\"" ++ (if stream.profile.val = [] then text "default" else stream.profile.val) ++
      text "\",\"reason\":" ++ quotedOrNull 96 stream.reason.val ++ text ",\"ffmpeg_pid\":" ++
      decimal stream.ffmpegPid.toNat ++ text ",\"started_at\":" ++ stream.startedAtText utcText ++
      text ",\"restart_count\":" ++ decimal stream.restartCount.toInt ++ text "\x7d,"]

def buildExtendedPresencePayload (maxLen : Nat) (status : Status) (desktopAvailable : Bool) (sessionId : UInt32)
    (screen : Option ScreenMetrics) (inv : Option SystemInventory) (stream : Option StreamStateInfo) (isoTime : Field 64) :
    List Bytes :=
  let head := [presenceHead status desktopAvailable sessionId]
  let shown := match screen with
    | some screen => guarded maxLen head [screenPrint screen]
    | none => head
  let listed := match inv with
    | some inv => guarded maxLen shown ([text "\"inventory\":\x7b\"displays\":["] ++ inventoryPrints inv)
    | none => shown
  let streamed := match stream with
    | some stream => guarded maxLen listed (streamPrints utcText stream)
    | none => listed
  guarded maxLen streamed [text "\"timestamp\":\"" ++ isoTime.val ++ text "\"\x7d"]

end Presence

/-! ### How long an acknowledgement is -/

def digits (n : Int) : Nat := (toString n).length

def escapedLength (maxOut : Nat) (s : CString) : Nat := (jsonEscapeStr maxOut 0 s.val).length

def truthLength (b : Bool) : Nat := if b then 4 else 5

def displayLength (d : DisplayInfo) : Nat :=
  93 + d.desktopId.val.length + escapedLength 128 d.name + truthLength d.primary + digits d.x.toInt + digits d.y.toInt +
    digits d.width.toInt + digits d.height.toInt + digits d.sessionId.toNat + d.policy.val.length

def cameraLength (c : CameraInfo) : Nat :=
  39 + c.cameraId.val.length + escapedLength 256 c.name + truthLength c.available

def ackLength (commandId leaseId sn : Bytes) (inv : SystemInventory) (timeMs : Nat) : Nat :=
  140 + commandId.length + leaseId.length + sn.length + (inv.displays.map displayLength).sum +
    (inv.displays.length - 1) + (inv.cameras.map cameraLength).sum + (inv.cameras.length - 1) + digits timeMs

theorem offset_append (out more : List Bytes) : offset (out ++ more) = offset out + offset more := by simp [offset]

@[simp] theorem offset_singleton (t : Bytes) : offset [t] = t.length := by simp [offset]

theorem stored_eq (maxLen start : Nat) (prints : List Bytes) :
    min start (maxLen - 1) + stored maxLen start prints = min (start + offset prints) (maxLen - 1) := by
  induction prints generalizing start with
  | nil => simp [stored, offset]
  | cons print prints ih =>
      have hnext := ih (start + print.length)
      simp only [stored, offset, List.map_cons, List.sum_cons] at hnext ⊢
      omega

theorem safe_iff {maxLen : Nat} (hpos : 0 < maxLen) (prints : List Bytes) : Safe maxLen prints ↔ offset prints < maxLen := by
  have hstored := stored_eq maxLen 0 prints
  constructor
  · rintro ⟨-, hle⟩
    omega
  · intro hlt
    refine ⟨fun i _ => ?_, by omega⟩
    have hsplit := offset_append (prints.take i) (prints.drop i)
    rw [List.take_append_drop] at hsplit
    omega

theorem guarded_offset_le (maxLen : Nat) (prints block : List Bytes) :
    offset (guarded maxLen prints block) ≤ offset prints + offset block := by
  unfold guarded
  split
  · rw [offset_append]
  · omega

theorem offset_separated (entries : List Bytes) :
    offset (separated entries) = (entries.map List.length).sum + (entries.length - 1) := by
  cases entries with
  | nil => rfl
  | cons entry entries =>
      have hcommas : ∀ entries : List Bytes,
          offset (entries.map (text "," ++ ·)) = (entries.map List.length).sum + entries.length := by
        intro entries
        have hcomma : (text ",").length = 1 := by decide
        induction entries with
        | nil => rfl
        | cons e es ih => simp only [offset, List.map_cons, List.sum_cons, List.length_append, List.length_cons] at ih ⊢; omega
      have h := hcommas entries
      simp only [separated, offset, List.map_cons, List.sum_cons, List.length_cons] at h ⊢
      omega

theorem truth_length (b : Bool) : (truth b).length = truthLength b := by cases b <;> decide

theorem decimal_digits (n : Int) : (decimal n).length = digits n := text_length _

theorem displayEntry_length (d : DisplayInfo) : (displayEntry d).length = displayLength d := by
  unfold displayEntry displayLength escapedLength
  simp only [List.length_append, text_length, truth_length, decimal_digits]
  have h₁ : "\x7b\"desktop_id\":\"".length = 15 := by decide
  have h₂ : "\",\"name\":\"".length = 10 := by decide
  have h₃ : "\",\"primary\":".length = 12 := by decide
  have h₄ : ",\"x\":".length = 5 := by decide
  have h₅ : ",\"y\":".length = 5 := by decide
  have h₆ : ",\"width\":".length = 9 := by decide
  have h₇ : ",\"height\":".length = 10 := by decide
  have h₈ : ",\"session_id\":".length = 14 := by decide
  have h₉ : ",\"policy\":\"".length = 11 := by decide
  have h₁₀ : "\"\x7d".length = 2 := by decide
  omega

theorem cameraEntry_length (c : CameraInfo) : (cameraEntry c).length = cameraLength c := by
  unfold cameraEntry cameraLength escapedLength
  simp only [List.length_append, text_length, truth_length]
  have h₁ : "\x7b\"camera_id\":\"".length = 14 := by decide
  have h₂ : "\",\"name\":\"".length = 10 := by decide
  have h₃ : "\",\"available\":".length = 14 := by decide
  have h₄ : "\x7d".length = 1 := by decide
  omega

theorem offset_inventory (inv : SystemInventory) : offset (inventoryPrints inv) =
    16 + (inv.displays.map displayLength).sum + (inv.displays.length - 1) + (inv.cameras.map cameraLength).sum +
      (inv.cameras.length - 1) := by
  have hdisplays : (inv.displays.map displayEntry).map List.length = inv.displays.map displayLength := by
    simp [displayEntry_length, Function.comp_def]
  have hcameras : (inv.cameras.map cameraEntry).map List.length = inv.cameras.map cameraLength := by
    simp [cameraEntry_length, Function.comp_def]
  simp only [inventoryPrints, offset_append, offset_separated, hdisplays, hcameras, List.length_map, offset_singleton,
    text_length]
  have h₁ : "],\"cameras\":[".length = 13 := by decide
  have h₂ : "]\x7d,".length = 3 := by decide
  omega

theorem ackInventoryHead_length (commandId leaseId sn : Bytes) :
    (ackInventoryHead commandId leaseId sn).length = 104 + commandId.length + leaseId.length + sn.length := by
  unfold ackInventoryHead ackHead
  simp only [List.length_append, text_length]
  have h₁ : "\x7b\"v\":1,\"type\":\"ack\",\"command_id\":\"".length = 34 := by decide
  have h₂ : "\",\"lease_id\":\"".length = 14 := by decide
  have h₃ : "\",\"sn\":\"".length = 8 := by decide
  have h₄ : "\",".length = 2 := by decide
  have h₅ : "\"result\":\"inventory\",\"inventory\":\x7b\"displays\":[".length = 46 := by decide
  omega

theorem ack_offset_lt (maxLen : Nat) (commandId leaseId sn : Bytes) (inv : SystemInventory) (timeMs : Nat) :
    offset (buildAckInventoryPayload maxLen commandId leaseId sn (some inv) timeMs) < maxLen ↔
      ackLength commandId leaseId sn inv timeMs < maxLen := by
  have hhead := ackInventoryHead_length commandId leaseId sn
  have hinv := offset_inventory inv
  have hend : (terminalTime timeMs).length = 20 + digits timeMs := by
    unfold terminalTime
    simp only [List.length_append, text_length, decimal_digits]
    have h₁ : "\"terminal_time_ms\":".length = 19 := by decide
    have h₂ : "\x7d".length = 1 := by decide
    omega
  unfold buildAckInventoryPayload guarded ackLength
  simp only [offset_singleton]
  split
  · split
    · simp only [offset_append, offset_singleton]
      omega
    · simp only [offset_append, offset_singleton] at *
      omega
  · split
    · simp only [offset_append, offset_singleton] at *
      omega
    · simp only [offset_append, offset_singleton] at *
      omega

/-! ### The presence always fits -/

theorem digits_le {n : Int} {k : Nat} (h : n.natAbs < 10 ^ k) (hk : 0 < k) : digits n ≤ k + 1 := by
  have hnat (m : Nat) (hm : m < 10 ^ k) : m.repr.length ≤ k := by
    rw [← String.length_toList, Nat.toList_repr]
    exact (Nat.length_toDigits_le_iff (by omega) hk).mpr hm
  unfold digits
  rw [Int.toString_eq_repr]
  cases n with
  | ofNat m => exact (hnat m h).trans (by omega)
  | negSucc m =>
      change ("-" ++ (m + 1).repr).length ≤ k + 1
      have := hnat (m + 1) h
      have hsign : "-".length = 1 := by decide
      rw [String.length_append]
      omega

theorem int32_digits (x : Int32) : digits x.toInt ≤ 11 :=
  digits_le (k := 10) (by have := x.toInt_lt; have := x.le_toInt; omega) (by omega)

theorem uint32_digits (x : UInt32) : digits x.toNat ≤ 11 :=
  digits_le (k := 10) (by have := x.toNat_lt; omega) (by omega)

theorem escaped_lt (maxOut : Nat) (s : CString) (h : 0 < maxOut) : escapedLength maxOut s < maxOut :=
  escape_length maxOut s.val 0 h

theorem truthLength_le (b : Bool) : truthLength b ≤ 5 := by cases b <;> decide

theorem sum_le {α : Type} (f : α → Nat) (bound : Nat) (xs : List α) (h : ∀ x ∈ xs, f x ≤ bound) :
    (xs.map f).sum ≤ bound * xs.length := by
  have hsum := List.sum_le_card_nsmul (xs.map f) bound (by simpa using h)
  rw [List.length_map] at hsum
  exact hsum.trans_eq (Nat.mul_comm _ _)

theorem inventory_offset_le (b : BoundedInventory) : offset (inventoryPrints b.inv) ≤ 11000 := by
  have hdisplays : ∀ d ∈ b.inv.displays, displayLength d ≤ 330 := by
    intro d hd
    obtain ⟨hid, -, hpolicy⟩ := b.display_fits d hd
    have hname := escaped_lt 128 d.name (by omega)
    have htruth := truthLength_le d.primary
    have hx := int32_digits d.x
    have hy := int32_digits d.y
    have hw := int32_digits d.width
    have hh := int32_digits d.height
    have hs := uint32_digits d.sessionId
    unfold displayLength
    omega
  have hcameras : ∀ c ∈ b.inv.cameras, cameraLength c ≤ 330 := by
    intro c hc
    obtain ⟨hid, -⟩ := b.camera_fits c hc
    have hname := escaped_lt 256 c.name (by omega)
    have htruth := truthLength_le c.available
    unfold cameraLength
    omega
  have h₁ := sum_le displayLength 330 b.inv.displays hdisplays
  have h₂ := sum_le cameraLength 330 b.inv.cameras hcameras
  have h₃ := b.displays
  have h₄ := b.cameras
  rw [offset_inventory]
  omega

theorem presenceHead_length (status : Status) (desktopAvailable : Bool) (sessionId : UInt32) :
    (presenceHead status desktopAvailable sessionId).length ≤ 300 := by
  have htruth := truthLength_le desktopAvailable
  have hsession := uint32_digits sessionId
  have hword : status.word.length ≤ 7 := by cases status <;> decide
  unfold presenceHead
  simp only [List.length_append, text_length, truth_length, decimal_digits]
  have h₁ : "\x7b\"v\":1,\"type\":\"presence\",\"agent\":\"l4desk\",\"version\":\"1.9.3\",\"capabilities\":[\"quick_actions\",\"shortcut_action\",\"right_click\",\"mouse_drag\",\"mouse_wheel\"],\"status\":\"".length ≤ 180 := by
    decide +kernel
  have h₂ : "\",\"desktop_available\":".length = 22 := by decide
  have h₃ : ",\"session_id\":".length = 14 := by decide
  have h₄ : ",".length = 1 := by decide
  omega

theorem screenPrint_length (screen : ScreenMetrics) : (screenPrint screen).length ≤ 150 := by
  have hx := int32_digits screen.virtualX
  have hy := int32_digits screen.virtualY
  have hw := int32_digits screen.virtualWidth
  have hh := int32_digits screen.virtualHeight
  unfold screenPrint
  simp only [List.length_append, text_length, decimal_digits]
  have h₁ : "\"screen\":\x7b\"virtual_x\":".length = 22 := by decide
  have h₂ : ",\"virtual_y\":".length = 13 := by decide
  have h₃ : ",\"virtual_width\":".length = 17 := by decide
  have h₄ : ",\"virtual_height\":".length = 18 := by decide
  have h₅ : "\x7d,".length = 2 := by decide
  omega

theorem quotedOrNull_length (maxOut : Nat) (h : 4 ≤ maxOut) (s : Bytes) : (quotedOrNull maxOut s).length ≤ maxOut + 1 := by
  have hquote : "\"".length = 1 := by decide
  have hnull : "null".length = 4 := by decide
  have hescaped := escape_length maxOut s 0 (by omega)
  unfold quotedOrNull
  split <;> simp only [List.length_append, text_length] <;> omega

theorem stopped_length : (text "stopped").length = 7 := by decide

theorem stateVal_length (stream : StreamStateInfo) : stream.stateVal.length ≤ 31 := by
  have h := stream.state.property.2
  unfold StreamStateInfo.stateVal
  split
  · rw [stopped_length]; omega
  · omega

theorem modeVal_length (stream : StreamStateInfo) : stream.modeVal.length ≤ 31 := by
  have h := stream.mode.property.2
  unfold StreamStateInfo.modeVal
  split
  · rw [stopped_length]; omega
  · omega

theorem startedAtText_length (utcText : Nat → Option Bytes) (stream : StreamStateInfo) :
    (stream.startedAtText utcText).length ≤ 63 := by
  have hnull : "null".length = 4 := by decide
  unfold StreamStateInfo.startedAtText
  split
  · rw [text_length]; omega
  · dsimp only
    split
    · exact List.length_take_le _ _
    · rw [text_length]; omega

theorem stream_offset_le (utcText : Nat → Option Bytes) (stream : StreamStateInfo) :
    offset (streamPrints utcText stream) ≤ 800 := by
  have hstate := stateVal_length stream
  have hmode := modeVal_length stream
  have hsource := quotedOrNull_length 128 (by omega) stream.sourceId.val
  have hinstance := quotedOrNull_length 128 (by omega) stream.streamInstanceId.val
  have hreason := quotedOrNull_length 96 (by omega) stream.reason.val
  have hstarted := startedAtText_length utcText stream
  have hpid := uint32_digits stream.ffmpegPid
  have hrestart := int32_digits stream.restartCount
  have hprofile : (if stream.profile.val = [] then text "default" else stream.profile.val).length ≤ 31 := by
    have h := stream.profile.property.2
    have hdefault : (text "default").length = 7 := by decide
    split
    · rw [hdefault]; omega
    · omega
  simp only [streamPrints, offset, List.map_cons, List.map_nil, List.sum_cons, List.sum_nil, List.length_append, text_length,
    decimal_digits]
  have h₁ : "\"stream\":\x7b\"state\":\"".length = 19 := by decide
  have h₂ : "\",\"mode\":\"".length = 10 := by decide
  have h₃ : "\",".length = 2 := by decide
  have h₄ : "\"source_id\":".length = 12 := by decide
  have h₅ : "\"stream_instance_id\":".length = 21 := by decide
  have h₆ : "\"profile\":\"".length = 11 := by decide
  have h₇ : "\",\"reason\":".length = 11 := by decide
  have h₈ : ",\"ffmpeg_pid\":".length = 14 := by decide
  have h₉ : ",\"started_at\":".length = 14 := by decide
  have h₁₀ : ",\"restart_count\":".length = 17 := by decide
  have h₁₁ : "\x7d,".length = 2 := by decide
  have h₁₂ : ",".length = 1 := by decide
  omega

theorem presence_offset_lt (utcText : Nat → Option Bytes) (status : Status) (desktopAvailable : Bool) (sessionId : UInt32)
    (screen : Option ScreenMetrics) (inv : Option BoundedInventory) (stream : Option StreamStateInfo) (isoTime : Field 64) :
    offset (buildExtendedPresencePayload utcText 16384 status desktopAvailable sessionId screen (inv.map (·.inv)) stream
      isoTime) < 16384 := by
  have hhead := presenceHead_length status desktopAvailable sessionId
  have htime := isoTime.property.2
  have hstamp : (text "\"timestamp\":\"" ++ isoTime.val ++ text "\"\x7d").length ≤ 100 := by
    have h₁ : "\"timestamp\":\"".length = 13 := by decide
    have h₂ : "\"\x7d".length = 2 := by decide
    simp only [List.length_append, text_length]
    omega
  unfold buildExtendedPresencePayload
  dsimp only
  set head := [presenceHead status desktopAvailable sessionId] with hheadEq
  have h₀ : offset head ≤ 300 := by rw [hheadEq, offset_singleton]; exact hhead
  set shown := match screen with
    | some screen => guarded 16384 head [screenPrint screen]
    | none => head with hshown
  have h₁ : offset shown ≤ 450 := by
    cases screen with
    | none => simp only [hshown]; omega
    | some screen =>
        have := guarded_offset_le 16384 head [screenPrint screen]
        have := screenPrint_length screen
        simp only [hshown, offset_singleton] at *
        omega
  set listed := match inv.map (·.inv) with
    | some inv => guarded 16384 shown ([text "\"inventory\":\x7b\"displays\":["] ++ inventoryPrints inv)
    | none => shown with hlisted
  have h₂ : offset listed ≤ 11500 := by
    cases inv with
    | none => simp only [hlisted, Option.map_none]; omega
    | some b =>
        have := guarded_offset_le 16384 shown ([text "\"inventory\":\x7b\"displays\":["] ++ inventoryPrints b.inv)
        have := inventory_offset_le b
        have hopen : "\"inventory\":\x7b\"displays\":[".length = 25 := by decide
        simp only [hlisted, Option.map_some, offset_append, offset_singleton, text_length] at *
        omega
  set streamed := match stream with
    | some stream => guarded 16384 listed (streamPrints utcText stream)
    | none => listed with hstreamed
  have h₃ : offset streamed ≤ 12300 := by
    cases stream with
    | none => simp only [hstreamed]; omega
    | some stream =>
        have := guarded_offset_le 16384 listed (streamPrints utcText stream)
        have := stream_offset_le utcText stream
        simp only [hstreamed] at *
        omega
  have hlast := guarded_offset_le 16384 streamed [text "\"timestamp\":\"" ++ isoTime.val ++ text "\"\x7d"]
  rw [offset_singleton] at hlast
  omega

/-- Both payloads stay in their buffers exactly where the fields of the acknowledgement are short enough together. -/
theorem builders_safe_iff (utcText : Nat → Option Bytes) (status : Status) (desktopAvailable : Bool) (sessionId : UInt32)
    (screen : Option ScreenMetrics) (b : BoundedInventory) (stream : Option StreamStateInfo) (isoTime : Field 64)
    (commandId leaseId sn : Field 64) (timeMs : Nat) :
    (Safe 16384 (buildExtendedPresencePayload utcText 16384 status desktopAvailable sessionId screen (some b.inv) stream
        isoTime) ∧
      Safe maxResp (buildAckInventoryPayload maxResp commandId.val leaseId.val sn.val (some b.inv) timeMs)) ↔
      ackLength commandId.val leaseId.val sn.val b.inv timeMs < maxResp := by
  rw [safe_iff (by omega), safe_iff (by decide), ack_offset_lt]
  exact and_iff_right (presence_offset_lt utcText status desktopAvailable sessionId screen (some b) stream isoTime)

namespace Crowded

def display : DisplayInfo where
  desktopId := ⟨List.replicate 13 0x64, by simp⟩
  name := ⟨List.replicate 63 backslash, by simp; decide⟩
  primary := false
  x := 0
  y := 0
  width := 640
  height := 480
  sessionId := 1
  policy := ⟨text "view", by decide⟩

theorem nil_holds : (0 : UInt8) ∉ ([] : List UInt8) := by simp

def camera : CameraInfo where
  cameraId := ⟨List.replicate 12 0x63, by simp⟩
  name := ⟨List.replicate 127 backslash, by simp; decide⟩
  devicePath := ⟨[], nil_holds⟩
  available := true

def inventory : BoundedInventory where
  inv := ⟨List.replicate 16 display, List.replicate 16 camera, []⟩
  displays := by simp
  cameras := by simp
  display_fits := by
    intro d hd
    obtain rfl := List.eq_of_mem_replicate hd
    decide
  camera_fits := by
    intro c hc
    obtain rfl := List.eq_of_mem_replicate hc
    decide

end Crowded

theorem crowded_unsafe : ¬ Safe maxResp (buildAckInventoryPayload maxResp (text "c") (text "l") (text "s")
    (some Crowded.inventory.inv) 0) := by
  rw [safe_iff (by decide), ack_offset_lt]
  have hdisplay : displayLength Crowded.display = 250 := by decide +kernel
  have hcamera : cameraLength Crowded.camera = 309 := by decide +kernel
  have hdisplays : (Crowded.inventory.inv.displays.map displayLength).sum = 4000 := by
    simp [Crowded.inventory, hdisplay]
  have hcameras : (Crowded.inventory.inv.cameras.map cameraLength).sum = 4944 := by
    simp [Crowded.inventory, hcamera]
  unfold ackLength maxResp
  omega

end EtranProcessing.Desk.PayloadBuffers
