import EtranProcessing.Library.RawMemory

namespace EtranProcessing.Desk.MqttPackets

open Library.Buffers Library.RawMemory

abbrev Bytes := List UInt8
abbrev CString := { s : Bytes // 0 ∉ s }

/-- The size of `topic_in` in both agents. -/
def topicBuffer : Nat := 256

/-! ### Lengths of one to four bytes -/

def encodeLoop : Nat → Nat → Bytes
  | 0, _ => []
  | fuel + 1, length =>
    if length / 128 = 0 then [UInt8.ofNat (length % 128)]
    else UInt8.ofNat (length % 128 + 128) :: encodeLoop fuel (length / 128)

def encodeRemainingLength (length : Nat) : Bytes := encodeLoop 5 length

def byteAt (packet : Bytes) (i : Nat) : Checked UInt8 :=
  match packet[i]? with
  | some b => .done b
  | none => .fault

/-- The rounds that are left of four, the bytes read so far, the weight of the next and the sum. -/
def decodeLoop (packet : Bytes) (start bufLen : Nat) : Nat → Nat → Nat → Nat → Checked (Nat × Nat)
  | 0, _, _, _ => .refused
  | rounds + 1, bytes, multiplier, value =>
    if bufLen ≤ bytes then .refused
    else do
      let encodedByte ← byteAt packet (start + bytes)
      let value := value + encodedByte.toNat % 128 * multiplier
      if 128 * 128 * 128 < multiplier then .refused
      else if 128 ≤ encodedByte.toNat then decodeLoop packet start bufLen rounds (bytes + 1) (multiplier * 128) value
      else .done (value, bytes + 1)

def decodeRemainingLength (packet : Bytes) (start bufLen : Nat) : Checked (Nat × Nat) :=
  decodeLoop packet start bufLen 4 0 1 0

/-! ### The builders -/

def word (n : Nat) : Bytes := [UInt8.ofNat (n / 256), UInt8.ofNat n]

def writeUtf8String (s : Bytes) : Bytes := word s.length ++ s

def headerByte (qos retain : UInt8) : UInt8 := (0x30 : UInt8) ||| ((qos &&& 3) <<< 1) ||| (retain &&& 1)

def packetIdBytes (qos : UInt8) (packetId : UInt16) : Bytes := if 0 < qos then word packetId.toNat else []

/-- `mqtt_build_publish` of l4desk. -/
def deskBuildPublish (maxLen : Nat) (topic : CString) (payload : Bytes) (packetId : UInt16) (qos retain : UInt8) :
    Option Bytes :=
  let body := writeUtf8String topic.val ++ packetIdBytes qos packetId ++ payload
  let lengthBytes := encodeRemainingLength body.length
  if maxLen < 1 + lengthBytes.length + body.length then none
  else some (headerByte qos retain :: (lengthBytes ++ body))

structure UserProperty where
  name : CString
  value : CString

def propertyBytes (property : UserProperty) : Bytes :=
  0x26 :: (writeUtf8String property.name.val ++ writeUtf8String property.value.val)

def expiryBytes (expirySeconds : UInt32) : Bytes :=
  if expirySeconds = 0 then []
  else 0x02 :: (word (expirySeconds.toNat / 65536) ++ word expirySeconds.toNat)

/-- The properties behind what is in the buffer of 1024 bytes already. -/
def appendProperties : Bytes → List UserProperty → Option Bytes
  | buffer, [] => some buffer
  | buffer, property :: properties =>
    let name := property.name.val.length
    let value := property.value.val.length
    if 65535 < name ∨ 65535 < value ∨ 1024 - buffer.length < 1 + 2 + name + 2 + value then none
    else appendProperties (buffer ++ propertyBytes property) properties

/-- `mqtt_build_publish_expiring` of l4con. -/
def conBuildPublish (maxLen : Nat) (topic : CString) (payload : Bytes) (packetId : UInt16) (qos retain : UInt8)
    (properties : List UserProperty) (expirySeconds : UInt32) : Option Bytes :=
  if 1 < qos ∨ 65535 < topic.val.length then none
  else
    match appendProperties (expiryBytes expirySeconds) properties with
    | none => none
    | some propertyBuf =>
      let body := writeUtf8String topic.val ++ packetIdBytes qos packetId ++
        (encodeRemainingLength propertyBuf.length ++ propertyBuf) ++ payload
      let lengthBytes := encodeRemainingLength body.length
      if 268435455 < body.length ∨ maxLen < body.length + 5 ∨ maxLen < 1 + lengthBytes.length + body.length then none
      else some (headerByte qos retain :: (lengthBytes ++ body))

/-! ### The parsers -/

def wordAt (packet : Bytes) (i : Nat) : Checked Nat := do
  let high ← byteAt packet i
  let low ← byteAt packet (i + 1)
  return high.toNat * 256 + low.toNat

structure Published where
  topic : Bytes
  packetId : Nat
  payloadAt : Nat
  deriving DecidableEq

def qosOf (flags : UInt8) : UInt8 := (flags >>> 1) &&& 3

def packetIdAt (packet : Bytes) (flags : UInt8) (pos : Nat) : Checked (Nat × Nat) :=
  if 0 < qosOf flags then do
    require (pos + 2 ≤ packet.length)
    let packetId ← wordAt packet pos
    return (packetId, pos + 2)
  else .done (0, pos)

/-- `mqtt_parse_publish` of l4desk. -/
def deskParsePublish (packet : Bytes) (flags : UInt8) : Checked Published := do
  require (2 ≤ packet.length)
  let topicLen ← wordAt packet 0
  require (2 + topicLen ≤ packet.length)
  let topic ← readAt packet 2 (min topicLen (topicBuffer - 1))
  let (packetId, offset) ← packetIdAt packet flags (2 + topicLen)
  return ⟨topic, packetId, offset⟩

/-- `mqtt_parse_publish` of l4con. -/
def conParsePublish (packet : Bytes) (flags : UInt8) : Checked Published := do
  require (2 ≤ packet.length)
  let topicLen ← wordAt packet 0
  require (2 + topicLen ≤ packet.length)
  require (topicLen < topicBuffer)
  let topic ← readAt packet 2 topicLen
  let (packetId, pos) ← packetIdAt packet flags (2 + topicLen)
  let (propertyLen, used) ← decodeRemainingLength packet pos (packet.length - pos)
  let rest ← minus packet.length (pos + used)
  require (propertyLen ≤ rest)
  return ⟨topic, packetId, pos + used + propertyLen⟩

inductive Field
  | methodCode | correlation | payloadRequired | eventTypeCode | devEventId | iotProbe
  deriving DecidableEq

def bytesOf (s : String) : Bytes := s.toList.map fun c => UInt8.ofNat c.toNat

def Field.name : Field → Bytes
  | .methodCode => bytesOf "method_code"
  | .correlation => bytesOf "correlationData"
  | .payloadRequired => bytesOf "payload_required"
  | .eventTypeCode => bytesOf "event_type_code"
  | .devEventId => bytesOf "dev_event_id"
  | .iotProbe => bytesOf "iot_probe"

def Field.cap : Field → Nat
  | .correlation => 40
  | .payloadRequired | .iotProbe => 2
  | .methodCode | .eventTypeCode | .devEventId => 16

def Field.all : List Field := [.methodCode, .correlation, .payloadRequired, .eventTypeCode, .devEventId, .iotProbe]

def Field.ofName (name : Bytes) : Option Field := Field.all.find? fun f => f.name == name

abbrev MqttRpcMetadata := Field → Bytes

def Valid (f : Field) (value : Bytes) : Prop := value ≠ [] ∧ value.length < f.cap ∧ 0 ∉ value

instance (f : Field) (value : Bytes) : Decidable (Valid f value) := inferInstanceAs (Decidable (_ ∧ _ ∧ _))

def store (m : MqttRpcMetadata) (f : Field) (value : Bytes) : Checked MqttRpcMetadata := do
  require (Valid f value)
  require (m f = [] ∨ m f = value)
  return Function.update m f value

def storeNamed (m : MqttRpcMetadata) (name value : Bytes) : Checked MqttRpcMetadata :=
  match Field.ofName name with
  | some f => store m f value
  | none => .done m

def metadataString (packet : Bytes) (stop pos : Nat) : Checked (Bytes × Nat) := do
  require (pos + 2 ≤ stop)
  let length ← wordAt packet pos
  let rest ← minus stop (pos + 2)
  require (length ≤ rest)
  let text ← readAt packet (pos + 2) length
  return (text, pos + 2 + length)

def skipBytes (stop pos count : Nat) : Checked Nat := do
  require (pos + count ≤ stop)
  return pos + count

/-- One property, from behind its identifier. -/
def property (packet : Bytes) (stop : Nat) (id : UInt8) (pos : Nat) (m : MqttRpcMetadata) :
    Checked (MqttRpcMetadata × Nat) := do
  if id = 0x26 then
    let (name, pos) ← metadataString packet stop pos
    let (value, pos) ← metadataString packet stop pos
    let m ← storeNamed m name value
    return (m, pos)
  else if id = 0x03 ∨ id = 0x08 ∨ id = 0x09 then
    let (value, pos) ← metadataString packet stop pos
    if id = 0x09 then
      let m ← store m .correlation value
      return (m, pos)
    else return (m, pos)
  else if id = 0x01 then return (m, ← skipBytes stop pos 1)
  else if id = 0x02 then return (m, ← skipBytes stop pos 4)
  else if id = 0x23 then return (m, ← skipBytes stop pos 2)
  else if id = 0x0b then
    let rest ← minus stop pos
    let (_, used) ← decodeRemainingLength packet pos rest
    return (m, pos + used)
  else .refused

/-- The loop over the properties; it would be a fault not to end. -/
def propertyLoop (packet : Bytes) (stop : Nat) : Nat → Nat → MqttRpcMetadata → Checked (MqttRpcMetadata × Nat)
  | 0, _, _ => .fault
  | fuel + 1, pos, m =>
    if pos < stop then do
      let id ← byteAt packet pos
      let (m, pos) ← property packet stop id (pos + 1) m
      propertyLoop packet stop fuel pos m
    else .done (m, pos)

/-- The metadata with the place behind the properties. -/
def parseRpcMetadata (packet : Bytes) (flags : UInt8) : Checked (MqttRpcMetadata × Nat) := do
  require (2 ≤ packet.length)
  let topicLen ← wordAt packet 0
  let pos := if 0 < qosOf flags then 2 + topicLen + 2 else 2 + topicLen
  require (pos < packet.length)
  let (propertyLength, used) ← decodeRemainingLength packet pos (packet.length - pos)
  let rest ← minus packet.length (pos + used)
  require (propertyLength ≤ rest)
  let stop := pos + used + propertyLength
  propertyLoop packet stop (propertyLength + 1) (pos + used) fun _ => []

/-! ### No read is outside the packet -/

variable {packet : Bytes} {qos flags : UInt8}

@[simp] theorem sound_byteAt {i : Nat} {post : UInt8 → Prop} :
    Sound (byteAt packet i) post ↔ ∃ b, packet[i]? = some b ∧ post b := by
  unfold byteAt
  cases packet[i]? <;> simp [Sound]

theorem sound_wordAt {i : Nat} (h : i + 2 ≤ packet.length) : Sound (wordAt packet i) fun _ => True := by
  unfold wordAt
  rw [sound_bind, sound_byteAt]
  refine ⟨packet[i], List.getElem?_eq_getElem (by omega), ?_⟩
  rw [sound_bind, sound_byteAt]
  exact ⟨packet[i + 1], List.getElem?_eq_getElem (by omega), trivial⟩

theorem sound_decodeLoop {start bufLen : Nat} (h : start + bufLen ≤ packet.length)
    (rounds bytes multiplier value : Nat) :
    Sound (decodeLoop packet start bufLen rounds bytes multiplier value) fun r => bytes < r.2 ∧ r.2 ≤ bufLen := by
  induction rounds generalizing bytes multiplier value with
  | zero => exact sound_refused
  | succ rounds ih =>
      unfold decodeLoop
      rw [sound_ite]
      refine ⟨fun _ => sound_refused, fun hmore => ?_⟩
      rw [sound_bind, sound_byteAt]
      refine ⟨packet[start + bytes], List.getElem?_eq_getElem (by omega), ?_⟩
      dsimp only
      rw [sound_ite]
      refine ⟨fun _ => sound_refused, fun _ => ?_⟩
      rw [sound_ite]
      refine ⟨fun _ => (ih (bytes + 1) _ _).mono fun r hr => ⟨by omega, hr.2⟩, fun _ => ?_⟩
      exact ⟨by simp, by simp; omega⟩

theorem sound_packetIdAt (packet : Bytes) (flags : UInt8) (pos : Nat) (h : pos ≤ packet.length) :
    Sound (packetIdAt packet flags pos) fun r =>
      r.2 = (if 0 < qosOf flags then pos + 2 else pos) ∧ r.2 ≤ packet.length := by
  unfold packetIdAt
  rw [sound_ite]
  refine ⟨fun hqos => ?_, fun hqos => ⟨by rw [if_neg hqos], h⟩⟩
  rw [sound_bind, sound_require]
  intro hroom
  exact (sound_wordAt hroom).bind fun _ _ => ⟨by rw [if_pos hqos], hroom⟩

theorem deskParsePublish_sound (packet : Bytes) (flags : UInt8) :
    Sound (deskParsePublish packet flags) fun r => r.payloadAt ≤ packet.length := by
  unfold deskParsePublish
  rw [sound_bind, sound_require]
  intro hlength
  refine (sound_wordAt (by omega)).bind fun topicLen _ => ?_
  rw [sound_bind, sound_require]
  intro htopic
  rw [sound_bind, sound_readAt]
  refine ⟨by omega, ?_⟩
  exact (sound_packetIdAt packet flags (2 + topicLen) htopic).bind fun r hr => hr.2

theorem conParsePublish_sound (packet : Bytes) (flags : UInt8) :
    Sound (conParsePublish packet flags) fun r => r.payloadAt ≤ packet.length := by
  unfold conParsePublish
  rw [sound_bind, sound_require]
  intro hlength
  refine (sound_wordAt (by omega)).bind fun topicLen _ => ?_
  rw [sound_bind, sound_require]
  intro htopic
  rw [sound_bind, sound_require]
  intro _
  rw [sound_bind, sound_readAt]
  refine ⟨by omega, ?_⟩
  refine (sound_packetIdAt packet flags (2 + topicLen) htopic).bind fun r hr => ?_
  refine (sound_decodeLoop (by omega) _ _ _ _).bind fun decoded hdecoded => ?_
  rw [sound_bind, sound_minus]
  refine ⟨by omega, ?_⟩
  rw [sound_bind, sound_require]
  intro hfits
  change r.2 + decoded.2 + decoded.1 ≤ packet.length
  omega

theorem sound_metadataString {stop pos : Nat} (h : stop ≤ packet.length) :
    Sound (metadataString packet stop pos) fun r => pos ≤ r.2 ∧ r.2 ≤ stop := by
  unfold metadataString
  rw [sound_bind, sound_require]
  intro hroom
  refine (sound_wordAt (by omega)).bind fun length _ => ?_
  rw [sound_bind, sound_minus]
  refine ⟨hroom, ?_⟩
  rw [sound_bind, sound_require]
  intro hfits
  rw [sound_bind, sound_readAt]
  refine ⟨by omega, ?_⟩
  change pos ≤ pos + 2 + length ∧ pos + 2 + length ≤ stop
  omega

theorem sound_store (m : MqttRpcMetadata) (f : Field) (value : Bytes) : Sound (store m f value) fun _ => True := by
  simp [store]

theorem sound_storeNamed (m : MqttRpcMetadata) (name value : Bytes) : Sound (storeNamed m name value) fun _ => True := by
  unfold storeNamed
  split
  · exact sound_store _ _ _
  · trivial

theorem sound_skipBytes (stop pos count : Nat) : Sound (skipBytes stop pos count) fun p => pos ≤ p ∧ p ≤ stop := by
  unfold skipBytes
  rw [sound_bind, sound_require]
  intro h
  exact ⟨by simp, h⟩

theorem sound_property {stop pos : Nat} (hstop : stop ≤ packet.length) (hpos : pos ≤ stop) (id : UInt8)
    (m : MqttRpcMetadata) : Sound (property packet stop id pos m) fun r => pos ≤ r.2 ∧ r.2 ≤ stop := by
  have hskip (count : Nat) : Sound (do return (m, ← skipBytes stop pos count)) fun r : MqttRpcMetadata × Nat =>
      pos ≤ r.2 ∧ r.2 ≤ stop := (sound_skipBytes stop pos count).bind fun _ h => h
  unfold property
  split_ifs
  · refine (sound_metadataString hstop).bind fun name hname => ?_
    refine (sound_metadataString hstop).bind fun value hvalue => ?_
    refine (sound_storeNamed m name.1 value.1).bind fun m' _ => ?_
    change pos ≤ value.2 ∧ value.2 ≤ stop
    omega
  · refine (sound_metadataString hstop).bind fun value hvalue => ?_
    exact (sound_store m .correlation value.1).bind fun _ _ => hvalue
  · exact (sound_metadataString hstop).bind fun value hvalue => hvalue
  · exact hskip 1
  · exact hskip 4
  · exact hskip 2
  · rw [sound_bind, sound_minus]
    refine ⟨hpos, ?_⟩
    refine (sound_decodeLoop (by omega) _ _ _ _).bind fun decoded hdecoded => ?_
    change pos ≤ pos + decoded.2 ∧ pos + decoded.2 ≤ stop
    omega
  · exact sound_refused

theorem sound_propertyLoop {stop : Nat} (hstop : stop ≤ packet.length) (fuel pos : Nat)
    (m : MqttRpcMetadata) (hpos : pos ≤ stop) (hfuel : stop - pos < fuel) :
    Sound (propertyLoop packet stop fuel pos m) fun r => r.2 = stop := by
  induction fuel generalizing pos m with
  | zero => omega
  | succ fuel ih =>
      unfold propertyLoop
      rw [sound_ite]
      refine ⟨fun hmore => ?_, fun hdone => by simp; omega⟩
      rw [sound_bind, sound_byteAt]
      refine ⟨packet[pos], List.getElem?_eq_getElem (by omega), ?_⟩
      refine (sound_property hstop (by omega) _ m).bind fun r hr => ?_
      exact ih r.2 r.1 hr.2 (by omega)

theorem parseRpcMetadata_sound (packet : Bytes) (flags : UInt8) :
    Sound (parseRpcMetadata packet flags) fun r => r.2 ≤ packet.length := by
  unfold parseRpcMetadata
  rw [sound_bind, sound_require]
  intro hlength
  refine (sound_wordAt (by omega)).bind fun topicLen _ => ?_
  dsimp only
  set pos := if 0 < qosOf flags then 2 + topicLen + 2 else 2 + topicLen
  rw [sound_bind, sound_require]
  intro hpos
  refine (sound_decodeLoop (by omega) _ _ _ _).bind fun decoded hdecoded => ?_
  rw [sound_bind, sound_minus]
  refine ⟨by omega, ?_⟩
  rw [sound_bind, sound_require]
  intro hfits
  refine (sound_propertyLoop (by omega) _ _ _ (by omega) (by omega)).mono fun r hr => ?_
  omega

/-- Both parsers see the payload behind the same properties. -/
theorem parsers_meet {flags : UInt8} {r : Published} {m : MqttRpcMetadata} {stop : Nat}
    (hpublish : conParsePublish packet flags = .done r) (hmetadata : parseRpcMetadata packet flags = .done (m, stop)) :
    stop = r.payloadAt := by
  unfold conParsePublish at hpublish
  unfold parseRpcMetadata at hmetadata
  simp only [bind_eq_done, require_eq_done, exists_const, pure_eq_done, minus_eq_done, readAt_eq_done] at hpublish hmetadata
  obtain ⟨-, topicLen, htopicLen, -, -, topic, -, ⟨packetId, pos⟩, hid, ⟨propertyLen, used⟩, hdecode, rest, hrest, hfits,
    rfl⟩ := hpublish
  obtain ⟨hlength, topicLen', htopicLen', hpos', ⟨propertyLength, used'⟩, hdecode', rest', hrest', hfits', hloop⟩ := hmetadata
  obtain rfl : topicLen = topicLen' := by rw [htopicLen] at htopicLen'; simpa using htopicLen'
  have hroom : 2 + topicLen ≤ packet.length := by split at hpos' <;> omega
  have hidSound := sound_packetIdAt packet flags (2 + topicLen) hroom
  rw [hid] at hidSound
  obtain ⟨hpos, hle⟩ : pos = (if 0 < qosOf flags then 2 + topicLen + 2 else 2 + topicLen) ∧ pos ≤ packet.length := hidSound
  rw [← hpos] at hdecode' hrest' hloop
  obtain ⟨rfl, rfl⟩ : propertyLen = propertyLength ∧ used = used' := by
    rw [hdecode] at hdecode'
    simpa using hdecode'
  have hdecoded : Sound (decodeRemainingLength packet pos (packet.length - pos)) fun r =>
      0 < r.2 ∧ r.2 ≤ packet.length - pos := sound_decodeLoop (by omega) 4 0 1 0
  rw [hdecode] at hdecoded
  have hend : Sound (propertyLoop packet (pos + used + propertyLen) (propertyLen + 1) (pos + used) fun _ => []) fun r =>
      r.2 = pos + used + propertyLen := sound_propertyLoop (by omega) _ _ _ (by omega) (by omega)
  rw [hloop] at hend
  exact hend

/-! ### What is built is read back -/

theorem encodeLoop_length {rounds : Nat} (extra n : Nat) (h : n < 128 ^ rounds) (hpos : 0 < rounds) :
    (encodeLoop (rounds + extra) n).length ≤ rounds := by
  induction rounds generalizing n with
  | zero => omega
  | succ rounds ih =>
      rw [Nat.add_right_comm, encodeLoop]
      split
      · simp
      next hmore =>
        have hnext : n / 128 < 128 ^ rounds := Nat.div_lt_of_lt_mul (by rw [Nat.pow_succ, Nat.mul_comm] at h; exact h)
        have hrounds : 0 < rounds := by
          by_contra hzero
          obtain rfl : rounds = 0 := by omega
          simp at hnext
          omega
        simpa using ih (n / 128) hnext hrounds

theorem byteAt_append (before : Bytes) (b : UInt8) (after : Bytes) :
    byteAt (before ++ b :: after) before.length = .done b := by
  simp [byteAt]

theorem decodeLoop_encode {rounds : Nat} (extra n : Nat) (h : n < 128 ^ rounds) (hpos : 0 < rounds) (before after : Bytes)
    (start bufLen bytes value : Nat) (hstart : start + bytes = before.length)
    (hroom : bytes + (encodeLoop (rounds + extra) n).length ≤ bufLen) (hrounds : rounds ≤ 4) :
    decodeLoop (before ++ encodeLoop (rounds + extra) n ++ after) start bufLen rounds bytes (128 ^ (4 - rounds)) value =
      .done (value + n * 128 ^ (4 - rounds), bytes + (encodeLoop (rounds + extra) n).length) := by
  induction rounds generalizing n before bytes value with
  | zero => omega
  | succ rounds ih =>
      have hweight : 128 ^ (4 - (rounds + 1)) ≤ 128 * 128 * 128 := Nat.pow_le_pow_right (by omega) (by omega : _ ≤ 3)
      rw [Nat.add_right_comm] at hroom ⊢
      rw [encodeLoop] at hroom ⊢
      split
      next hlast =>
        rw [if_pos hlast, List.length_singleton] at hroom
        have hdigit : (UInt8.ofNat (n % 128)).toNat = n := by rw [UInt8.toNat_ofNat']; omega
        rw [decodeLoop, if_neg (by omega), List.append_assoc, List.singleton_append, hstart, byteAt_append]
        change (if _ then _ else _) = _
        rw [if_neg (by omega), hdigit, if_neg (by omega), Nat.mod_eq_of_lt (by omega), List.length_singleton]
      next hmore =>
        rw [if_neg hmore, List.length_cons] at hroom
        have hdigit : (UInt8.ofNat (n % 128 + 128)).toNat = n % 128 + 128 := by rw [UInt8.toNat_ofNat']; omega
        have hnext : n / 128 < 128 ^ rounds := Nat.div_lt_of_lt_mul (by rw [Nat.pow_succ, Nat.mul_comm] at h; exact h)
        have hleft : 0 < rounds := by
          by_contra hzero
          obtain rfl : rounds = 0 := by omega
          simp at hnext
          omega
        have hscale : 128 ^ (4 - (rounds + 1)) * 128 = 128 ^ (4 - rounds) := by
          rw [← Nat.pow_succ]
          congr 1
          omega
        have hshift : before ++ UInt8.ofNat (n % 128 + 128) :: encodeLoop (rounds + extra) (n / 128) ++ after =
            before ++ [UInt8.ofNat (n % 128 + 128)] ++ encodeLoop (rounds + extra) (n / 128) ++ after := by simp
        rw [decodeLoop, if_neg (by omega), hstart, List.append_assoc, List.cons_append, byteAt_append]
        change (if _ then _ else _) = _
        rw [if_neg (by omega), hdigit, if_pos (by omega), ← List.cons_append, ← List.append_assoc, hshift, hscale,
          ih (n / 128) hnext hleft _ (bytes + 1) _ (by simp; omega) (by omega) (by omega), List.length_cons]
        congr 2
        · have hdivide := Nat.div_add_mod n 128
          calc value + (n % 128 + 128) % 128 * 128 ^ (4 - (rounds + 1)) + n / 128 * 128 ^ (4 - rounds)
              = value + (128 * (n / 128) + n % 128) * 128 ^ (4 - (rounds + 1)) := by
                rw [← hscale, Nat.add_mod_right, Nat.mod_mod]
                ring
            _ = value + n * 128 ^ (4 - (rounds + 1)) := by rw [hdivide]
        · omega

theorem decode_encode {n : Nat} (h : n ≤ 268435455) (before after : Bytes) (bufLen : Nat)
    (hroom : (encodeRemainingLength n).length ≤ bufLen) :
    decodeRemainingLength (before ++ encodeRemainingLength n ++ after) before.length bufLen =
      .done (n, (encodeRemainingLength n).length) := by
  have hread := @decodeLoop_encode 4 1 n (by omega) (by omega) before after before.length bufLen 0 0 (by omega)
    (by simpa [encodeRemainingLength] using hroom) (by omega)
  simpa [encodeRemainingLength, decodeRemainingLength] using hread

theorem wordAt_append {n : Nat} (h : n < 65536) (before after : Bytes) :
    wordAt (before ++ word n ++ after) before.length = .done n := by
  have hhigh : byteAt (before ++ word n ++ after) before.length = .done (UInt8.ofNat (n / 256)) := by
    simp [byteAt, word]
  have hlow : byteAt (before ++ word n ++ after) (before.length + 1) = .done (UInt8.ofNat n) := by
    simp [byteAt, word]
  simp only [wordAt, bind_eq_done, pure_eq_done]
  refine ⟨_, hhigh, _, hlow, ?_⟩
  rw [UInt8.toNat_ofNat', UInt8.toNat_ofNat']
  omega

theorem readAt_append (before middle after : Bytes) :
    readAt (before ++ middle ++ after) before.length middle.length = .done middle := by
  simp [readAt, slice]

theorem headerByte_spec (qos retain : UInt8) (h : qos ≤ 1) :
    qosOf (headerByte qos retain &&& 0x0f) = qos ∧ headerByte qos retain &&& 0xf0 = 0x30 := by
  have hqos : qos = 0 ∨ qos = 1 := by
    have := UInt8.le_iff_toNat_le.mp h
    have hone : (1 : UInt8).toNat = 1 := rfl
    obtain hzero | hone' : qos.toNat = 0 ∨ qos.toNat = 1 := by omega
    · exact .inl (UInt8.toNat_inj.mp hzero)
    · exact .inr (UInt8.toNat_inj.mp hone')
  have hretain : retain &&& 1 = 0 ∨ retain &&& 1 = 1 := by
    have hbit : (retain &&& 1).toNat = retain.toNat % 2 := by
      rw [UInt8.toNat_and]
      exact Nat.and_one_is_mod _
    obtain hzero | hone : retain.toNat % 2 = 0 ∨ retain.toNat % 2 = 1 := by omega
    · exact .inl (UInt8.toNat_inj.mp (hbit.trans hzero))
    · exact .inr (UInt8.toNat_inj.mp (hbit.trans hone))
  unfold headerByte
  rcases hqos with rfl | rfl <;> rcases hretain with hr | hr <;> rw [hr] <;> decide

def Delivers (parse : Bytes → UInt8 → Checked Published) (out topic payload : Bytes) (packetId : Nat) : Prop :=
  ∃ header lengthBytes body r, out = header :: (lengthBytes ++ body) ∧ header &&& 0xf0 = 0x30 ∧
    decodeRemainingLength out 1 (out.length - 1) = .done (body.length, lengthBytes.length) ∧
    parse body (header &&& 0x0f) = .done r ∧ r.topic = topic ∧ r.packetId = packetId ∧ body.drop r.payloadAt = payload

def idOf (qos : UInt8) (packetId : UInt16) : Nat := if 0 < qos then packetId.toNat else 0

theorem frame_read (header : UInt8) {body : Bytes} (h : body.length ≤ 268435455) :
    decodeRemainingLength (header :: (encodeRemainingLength body.length ++ body)) 1
        ((header :: (encodeRemainingLength body.length ++ body)).length - 1) =
      .done (body.length, (encodeRemainingLength body.length).length) := by
  have hread := decode_encode h [header] body (encodeRemainingLength body.length ++ body).length (by simp)
  simpa using hread

theorem frame_delivers {parse : Bytes → UInt8 → Checked Published} {body topic payload : Bytes} {qos retain : UInt8} {id : Nat}
    {r : Published} (hqos : qos ≤ 1) (hlength : body.length ≤ 268435455)
    (hparse : ∀ flags, qosOf flags = qos → parse body flags = .done r) (htopic : r.topic = topic) (hid : r.packetId = id)
    (hpayload : body.drop r.payloadAt = payload) :
    Delivers parse (headerByte qos retain :: (encodeRemainingLength body.length ++ body)) topic payload id := by
  obtain ⟨hflags, htype⟩ := headerByte_spec qos retain hqos
  exact ⟨_, _, body, r, rfl, htype, frame_read _ hlength, hparse _ hflags, htopic, hid, hpayload⟩

theorem topic_read (topic rest : Bytes) (h : topic.length < 65536) :
    wordAt (writeUtf8String topic ++ rest) 0 = .done topic.length ∧
      ∀ n ≤ topic.length, readAt (writeUtf8String topic ++ rest) 2 n = .done (topic.take n) := by
  constructor
  · simpa [writeUtf8String] using wordAt_append h [] (topic ++ rest)
  · intro n hn
    have hread := readAt_append (word topic.length) (topic.take n) (topic.drop n ++ rest)
    rw [List.length_take_of_le hn] at hread
    rw [← List.append_assoc, List.append_assoc (word topic.length), List.take_append_drop] at hread
    exact hread

theorem packetId_read (before after : Bytes) (packetId : UInt16) (hflags : qosOf flags = qos) :
    packetIdAt (before ++ packetIdBytes qos packetId ++ after) flags before.length =
      .done (idOf qos packetId, before.length + (packetIdBytes qos packetId).length) := by
  unfold packetIdAt packetIdBytes idOf
  rw [hflags]
  split
  next h =>
    have hword := wordAt_append (n := packetId.toNat) packetId.toNat_lt before after
    simp only [bind_eq_done, require_eq_done, exists_const, pure_eq_done]
    exact ⟨by simp [word], _, hword, by simp [word]⟩
  next h => simp

theorem writeUtf8String_length (s : Bytes) : (writeUtf8String s).length = 2 + s.length := by
  simp [writeUtf8String, word]
  omega

theorem desk_delivers (topic : CString) (payload : Bytes) (packetId : UInt16) (qos retain : UInt8) (maxLen : Nat)
    (htopic : topic.val.length < topicBuffer) (hqos : qos ≤ 1)
    (hlength : 2 + topic.val.length + (packetIdBytes qos packetId).length + payload.length ≤ 268435455)
    (hroom : 1 + (encodeRemainingLength (2 + topic.val.length + (packetIdBytes qos packetId).length + payload.length)).length +
      (2 + topic.val.length + (packetIdBytes qos packetId).length + payload.length) ≤ maxLen) :
    ∃ out, deskBuildPublish maxLen topic payload packetId qos retain = some out ∧
      Delivers deskParsePublish out topic.val payload (idOf qos packetId) := by
  set body := writeUtf8String topic.val ++ packetIdBytes qos packetId ++ payload with hbody
  have hsize : body.length = 2 + topic.val.length + (packetIdBytes qos packetId).length + payload.length := by
    simp only [hbody, List.length_append, writeUtf8String_length]
  rw [← hsize] at hlength hroom
  refine ⟨headerByte qos retain :: (encodeRemainingLength body.length ++ body), if_neg (by rw [← hbody]; omega), ?_⟩
  unfold topicBuffer at htopic
  refine frame_delivers (r := ⟨topic.val, idOf qos packetId, 2 + topic.val.length + (packetIdBytes qos packetId).length⟩)
    hqos hlength (fun flags hflags => ?_) rfl rfl ?_
  · obtain ⟨hword, htext⟩ := topic_read topic.val (packetIdBytes qos packetId ++ payload) (by omega)
    have hid := packetId_read (writeUtf8String topic.val) payload packetId hflags
    rw [writeUtf8String_length] at hid
    rw [← List.append_assoc] at hword htext
    have hwhole := htext topic.val.length le_rfl
    rw [List.take_length] at hwhole
    unfold deskParsePublish
    simp only [bind_eq_done, require_eq_done, exists_const, pure_eq_done]
    refine ⟨by omega, _, hword, by omega, topic.val, ?_, _, hid, rfl⟩
    rw [Nat.min_eq_left (by unfold topicBuffer; omega)]
    exact hwhole
  · rw [hbody]
    have hdrop : (writeUtf8String topic.val ++ packetIdBytes qos packetId ++ payload).drop _ = payload := List.drop_left
    rwa [List.length_append, writeUtf8String_length] at hdrop

def conHead (topic : CString) (packetId : UInt16) (qos : UInt8) (propertyBuf : Bytes) : Bytes :=
  writeUtf8String topic.val ++ packetIdBytes qos packetId ++
    (encodeRemainingLength propertyBuf.length ++ propertyBuf)

theorem properties_read {topic : CString} {packetId : UInt16} {propertyBuf payload : Bytes}
    (hbuf : propertyBuf.length ≤ 1024) (hflags : qosOf flags = qos) :
    let packet := conHead topic packetId qos propertyBuf ++ payload
    let pos := 2 + topic.val.length + (packetIdBytes qos packetId).length
    packetIdAt packet flags (2 + topic.val.length) = .done (idOf qos packetId, pos) ∧
      decodeRemainingLength packet pos (packet.length - pos) =
        .done (propertyBuf.length, (encodeRemainingLength propertyBuf.length).length) ∧
      packet.length = pos + (encodeRemainingLength propertyBuf.length).length + propertyBuf.length + payload.length := by
  dsimp only
  have hid := packetId_read (writeUtf8String topic.val)
    (encodeRemainingLength propertyBuf.length ++ propertyBuf ++ payload) packetId hflags
  have hlength : (conHead topic packetId qos propertyBuf ++ payload).length =
      2 + topic.val.length + (packetIdBytes qos packetId).length + (encodeRemainingLength propertyBuf.length).length +
        propertyBuf.length + payload.length := by
    simp only [conHead, List.length_append, writeUtf8String_length]
    omega
  have hdecode := decode_encode (n := propertyBuf.length) (by omega) (writeUtf8String topic.val ++ packetIdBytes qos packetId)
    (propertyBuf ++ payload) ((conHead topic packetId qos propertyBuf ++ payload).length -
      (2 + topic.val.length + (packetIdBytes qos packetId).length)) (by omega)
  rw [List.length_append, writeUtf8String_length] at hdecode
  rw [writeUtf8String_length] at hid
  exact ⟨by simpa [conHead] using hid, by simpa [conHead] using hdecode, hlength⟩

theorem appendProperties_spec {buffer propertyBuf : Bytes} {properties : List UserProperty}
    (h : appendProperties buffer properties = some propertyBuf) (hbuffer : buffer.length ≤ 1024) :
    propertyBuf = buffer ++ properties.flatMap propertyBytes ∧ propertyBuf.length ≤ 1024 ∧
      ∀ p ∈ properties, p.name.val.length < 65536 ∧ p.value.val.length < 65536 := by
  induction properties generalizing buffer with
  | nil =>
      obtain rfl : buffer = propertyBuf := by simpa [appendProperties] using h
      simpa using hbuffer
  | cons p properties ih =>
      unfold appendProperties at h
      dsimp only at h
      split at h
      · cases h
      next hfits =>
        have hlength : (propertyBytes p).length = 1 + 2 + p.name.val.length + 2 + p.value.val.length := by
          simp only [propertyBytes, List.length_cons, List.length_append, writeUtf8String_length]
          omega
        obtain ⟨heq, hsize, hall⟩ := ih h (by rw [List.length_append]; omega)
        refine ⟨by rw [heq, List.flatMap_cons, List.append_assoc], hsize, fun q hq => ?_⟩
        obtain rfl | hq := List.mem_cons.mp hq
        · omega
        · exact hall q hq

theorem expiryBytes_length (expirySeconds : UInt32) : (expiryBytes expirySeconds).length ≤ 5 := by
  unfold expiryBytes
  split <;> simp [word]

theorem con_delivers (topic : CString) (payload : Bytes) (packetId : UInt16) (qos retain : UInt8) (maxLen : Nat)
    (properties : List UserProperty) (expirySeconds : UInt32) (propertyBuf : Bytes)
    (hproperties : appendProperties (expiryBytes expirySeconds) properties = some propertyBuf)
    (htopic : topic.val.length < topicBuffer) (hqos : qos ≤ 1)
    (hlength : (conHead topic packetId qos propertyBuf).length + payload.length ≤ 268435455)
    (hroom : (conHead topic packetId qos propertyBuf).length + payload.length + 5 ≤ maxLen) :
    let body := conHead topic packetId qos propertyBuf ++ payload
    let out := headerByte qos retain :: (encodeRemainingLength body.length ++ body)
    conBuildPublish maxLen topic payload packetId qos retain properties expirySeconds = some out ∧
      Delivers conParsePublish out topic.val payload (idOf qos packetId) := by
  dsimp only
  have hexpiry := expiryBytes_length expirySeconds
  obtain ⟨-, hbuf, -⟩ := appendProperties_spec hproperties (by omega)
  unfold topicBuffer at htopic
  set body := conHead topic packetId qos propertyBuf ++ payload with hbody
  have hsize : body.length = (conHead topic packetId qos propertyBuf).length + payload.length := by
    rw [hbody, List.length_append]
  rw [← hsize] at hlength hroom
  have hdigits : (encodeRemainingLength body.length).length ≤ 4 :=
    @encodeLoop_length 4 1 body.length (by omega) (by omega)
  refine ⟨?_, ?_⟩
  · unfold conBuildPublish
    rw [if_neg (by simp only [not_or, UInt8.not_lt]; exact ⟨hqos, by omega⟩), hproperties]
    exact if_neg (by change ¬ (268435455 < body.length ∨ maxLen < body.length + 5 ∨ maxLen < 1 + (encodeRemainingLength body.length).length + body.length); omega)
  refine frame_delivers (r := ⟨topic.val, idOf qos packetId, 2 + topic.val.length + (packetIdBytes qos packetId).length +
    (encodeRemainingLength propertyBuf.length).length + propertyBuf.length⟩) hqos hlength (fun flags hflags => ?_) rfl rfl ?_
  · obtain ⟨hword, htext⟩ := topic_read topic.val (packetIdBytes qos packetId ++
      (encodeRemainingLength propertyBuf.length ++ propertyBuf) ++ payload) (by omega)
    obtain ⟨hid, hdecode, hlengths⟩ := @properties_read _ _ topic packetId _ payload hbuf hflags
    rw [← List.append_assoc, ← List.append_assoc] at hword htext
    have hwhole := htext topic.val.length le_rfl
    rw [List.take_length] at hwhole
    rw [← hbody] at hid hdecode hlengths
    unfold conParsePublish topicBuffer
    simp only [bind_eq_done, require_eq_done, exists_const, pure_eq_done, minus_eq_done]
    exact ⟨by omega, _, hword, by omega, by omega, topic.val, hwhole, _, hid, _, hdecode, _, ⟨by omega, rfl⟩, by omega, rfl⟩
  · have hdrop : (conHead topic packetId qos propertyBuf ++ payload).drop _ = payload := List.drop_left
    have hhead : (conHead topic packetId qos propertyBuf).length = 2 + topic.val.length +
        (packetIdBytes qos packetId).length + (encodeRemainingLength propertyBuf.length).length + propertyBuf.length := by
      simp only [conHead, List.length_append, writeUtf8String_length]
      omega
    rwa [hhead] at hdrop

/-! ### The metadata of a packet that was built -/

def valuesOf (f : Field) (properties : List UserProperty) : List Bytes :=
  properties.filterMap fun p => if Field.ofName p.name.val = some f then some p.value.val else none

def seen (m : MqttRpcMetadata) (properties : List UserProperty) (f : Field) : Bytes :=
  if m f = [] then (valuesOf f properties).headD [] else m f

def Consistent (m : MqttRpcMetadata) (properties : List UserProperty) : Prop :=
  ∀ f, ∀ value ∈ valuesOf f properties, Valid f value ∧ value = seen m properties f

def storeAll (m : MqttRpcMetadata) (properties : List UserProperty) : Checked MqttRpcMetadata :=
  properties.foldlM (fun m p => storeNamed m p.name.val p.value.val) m

theorem metadataString_read (before after s : Bytes) (stop : Nat) (hs : s.length < 65536)
    (hstop : before.length + (writeUtf8String s).length ≤ stop) :
    metadataString (before ++ writeUtf8String s ++ after) stop before.length =
      .done (s, before.length + (writeUtf8String s).length) := by
  have hword := wordAt_append hs before (s ++ after)
  have htext := readAt_append (before ++ word s.length) s after
  have hlength : (before ++ word s.length).length = before.length + 2 := by simp [word]
  rw [hlength] at htext
  rw [writeUtf8String_length] at hstop ⊢
  unfold metadataString writeUtf8String
  simp only [bind_eq_done, require_eq_done, exists_const, pure_eq_done, minus_eq_done]
  refine ⟨by omega, _, by simpa using hword, _, ⟨by omega, rfl⟩, by omega, s, by simpa using htext, ?_⟩
  simp [Nat.add_assoc]

theorem property_read (before after : Bytes) (p : UserProperty) (stop : Nat) (m : MqttRpcMetadata)
    (hp : p.name.val.length < 65536 ∧ p.value.val.length < 65536) (hstop : before.length + (propertyBytes p).length ≤ stop) :
    property (before ++ propertyBytes p ++ after) stop 0x26 (before.length + 1) m =
      storeNamed m p.name.val p.value.val >>= fun m => .done (m, before.length + (propertyBytes p).length) := by
  have hlength : (propertyBytes p).length =
      1 + (writeUtf8String p.name.val).length + (writeUtf8String p.value.val).length := by
    simp only [propertyBytes, List.length_cons, List.length_append]
    omega
  have hname := metadataString_read (before ++ [0x26]) (writeUtf8String p.value.val ++ after) p.name.val stop hp.1
    (by simp only [List.length_append, List.length_singleton]; omega)
  have hvalue := metadataString_read (before ++ [0x26] ++ writeUtf8String p.name.val) after p.value.val stop hp.2
    (by simp only [List.length_append, List.length_singleton]; omega)
  have hpacket : before ++ propertyBytes p ++ after =
      before ++ [0x26] ++ writeUtf8String p.name.val ++ (writeUtf8String p.value.val ++ after) := by simp [propertyBytes]
  rw [List.append_assoc _ (writeUtf8String p.value.val) after, ← hpacket, List.length_append, List.length_append,
    List.length_singleton] at hvalue
  rw [← hpacket, List.length_append, List.length_singleton] at hname
  unfold property
  rw [if_pos rfl, hname]
  change (metadataString _ stop (before.length + 1 + _) >>= _) = _
  rw [hvalue]
  change (storeNamed m p.name.val p.value.val >>= fun m => _) = _
  rw [hlength]
  congr 1
  funext m'
  simp [pure, Nat.add_assoc]

theorem propertyLoop_read (properties : List UserProperty) (before after : Bytes) (fuel : Nat) (m : MqttRpcMetadata)
    (hp : ∀ p ∈ properties, p.name.val.length < 65536 ∧ p.value.val.length < 65536)
    (hfuel : (properties.flatMap propertyBytes).length < fuel) :
    propertyLoop (before ++ properties.flatMap propertyBytes ++ after)
        (before.length + (properties.flatMap propertyBytes).length) fuel before.length m =
      storeAll m properties >>= fun m => .done (m, before.length + (properties.flatMap propertyBytes).length) := by
  induction properties generalizing before fuel m with
  | nil =>
      cases fuel with
      | zero => simp at hfuel
      | succ fuel =>
          simp [propertyLoop, storeAll]
          rfl
  | cons p properties ih =>
      cases fuel with
      | zero => omega
      | succ fuel =>
          have hlength : 0 < (propertyBytes p).length := by simp [propertyBytes]
          have hpacket : before ++ (p :: properties).flatMap propertyBytes ++ after =
              before ++ propertyBytes p ++ (properties.flatMap propertyBytes ++ after) := by simp
          have hsize : ((p :: properties).flatMap propertyBytes).length =
              (propertyBytes p).length + (properties.flatMap propertyBytes).length := by simp
          have hid : byteAt (before ++ propertyBytes p ++ (properties.flatMap propertyBytes ++ after)) before.length =
              .done 0x26 := by simp [byteAt, propertyBytes]
          have hnext := fun m' => ih (before ++ propertyBytes p) fuel m' (fun q hq => hp q (List.mem_cons_of_mem p hq)) (by omega)
          simp only [List.length_append, Nat.add_assoc] at hnext
          rw [propertyLoop, if_pos (by omega), hpacket, hid]
          change (property _ _ 0x26 (before.length + 1) m >>= _) = _
          rw [property_read before _ p _ m (hp p List.mem_cons_self) (by omega), storeAll, List.foldlM_cons, hsize]
          cases hstore : storeNamed m p.name.val p.value.val with
          | done m' =>
              change propertyLoop _ _ fuel (before.length + (propertyBytes p).length) m' = _
              rw [← List.append_assoc]
              exact hnext m'
          | refused => rfl
          | fault => rfl

section Storing

variable {m : MqttRpcMetadata} {p : UserProperty} {properties : List UserProperty} {f : Field}

theorem valuesOf_cons_other (h : Field.ofName p.name.val ≠ some f) : valuesOf f (p :: properties) = valuesOf f properties := by
  simp [valuesOf, h]

theorem valuesOf_cons_self (h : Field.ofName p.name.val = some f) :
    valuesOf f (p :: properties) = p.value.val :: valuesOf f properties := by
  simp [valuesOf, h]

theorem seen_update (h : Field.ofName p.name.val = some f) (hvalid : Valid f p.value.val)
    (hsame : m f = [] ∨ m f = p.value.val) :
    seen (Function.update m f p.value.val) properties = seen m (p :: properties) := by
  funext g
  unfold seen
  by_cases hg : g = f
  · subst hg
    rw [valuesOf_cons_self h, Function.update_self, if_neg hvalid.1]
    split
    next hempty => rfl
    next hfull => exact (hsame.resolve_left hfull).symm
  · rw [valuesOf_cons_other (by rw [h]; simpa using Ne.symm hg), Function.update_of_ne hg]

theorem consistent_cons (h : Field.ofName p.name.val = some f) : Consistent m (p :: properties) ↔
    (Valid f p.value.val ∧ (m f = [] ∨ m f = p.value.val)) ∧ Consistent (Function.update m f p.value.val) properties := by
  constructor
  · intro hall
    obtain ⟨hvalid, hseen⟩ := hall f p.value.val (by rw [valuesOf_cons_self h]; exact List.mem_cons_self)
    have hsame : m f = [] ∨ m f = p.value.val := by
      by_cases hempty : m f = []
      · exact .inl hempty
      · rw [seen, if_neg hempty] at hseen
        exact .inr hseen.symm
    refine ⟨⟨hvalid, hsame⟩, fun g value hvalue => ?_⟩
    rw [seen_update h hvalid hsame]
    refine hall g value ?_
    by_cases hg : f = g
    · subst hg
      rw [valuesOf_cons_self h]
      exact List.mem_cons_of_mem _ hvalue
    · rwa [valuesOf_cons_other (by rw [h]; simpa using hg)]
  · rintro ⟨⟨hvalid, hsame⟩, hrest⟩ g value hvalue
    rw [← seen_update h hvalid hsame]
    by_cases hg : f = g
    · subst hg
      rw [valuesOf_cons_self h] at hvalue
      obtain rfl | hvalue := List.mem_cons.mp hvalue
      · exact ⟨hvalid, by rw [seen, Function.update_self, if_neg hvalid.1]⟩
      · exact hrest f value hvalue
    · rw [valuesOf_cons_other (by rw [h]; simpa using hg)] at hvalue
      exact hrest g value hvalue

theorem storeAll_spec (m : MqttRpcMetadata) (properties : List UserProperty) :
    (Consistent m properties → storeAll m properties = .done (seen m properties)) ∧
      (¬ Consistent m properties → storeAll m properties = .refused) := by
  induction properties generalizing m with
  | nil =>
      refine ⟨fun _ => ?_, fun h => absurd (fun f value hvalue => by simp [valuesOf] at hvalue) h⟩
      have hsame : seen m [] = m := by
        funext f
        unfold seen
        split
        next hempty => rw [hempty]; rfl
        next => rfl
      rw [hsame]
      rfl
  | cons p properties ih =>
      cases hname : Field.ofName p.name.val with
      | none =>
          have hvalues (f : Field) : valuesOf f (p :: properties) = valuesOf f properties :=
            valuesOf_cons_other (by rw [hname]; simp)
          have hseen : seen m (p :: properties) = seen m properties := by
            funext f
            rw [seen, seen, hvalues]
          have hconsistent : Consistent m (p :: properties) ↔ Consistent m properties := by
            simp only [Consistent, hvalues, hseen]
          have hstore : storeAll m (p :: properties) = storeAll m properties := by
            rw [storeAll, List.foldlM_cons, storeNamed, hname]
            rfl
          rw [hconsistent, hstore, hseen]
          exact ih m
      | some f =>
          rw [consistent_cons hname]
          have hstore : storeAll m (p :: properties) = store m f p.value.val >>= fun m => storeAll m properties := by
            rw [storeAll, List.foldlM_cons, storeNamed, hname]
            rfl
          rw [hstore]
          by_cases hfits : Valid f p.value.val ∧ (m f = [] ∨ m f = p.value.val)
          · have hdone : store m f p.value.val = .done (Function.update m f p.value.val) := by
              simp only [store, bind_eq_done, require_eq_done, exists_const, pure_eq_done]
              exact ⟨hfits.1, hfits.2, trivial⟩
            rw [hdone, ← seen_update hname hfits.1 hfits.2]
            obtain ⟨hyes, hno⟩ := ih (Function.update m f p.value.val)
            exact ⟨fun h => hyes h.2, fun h => hno fun hrest => h ⟨hfits, hrest⟩⟩
          · have hrefused : store m f p.value.val = .refused := by
              unfold store require
              by_cases hvalid : Valid f p.value.val
              · rw [if_pos hvalid, if_neg fun h => hfits ⟨hvalid, h⟩]
                rfl
              · rw [if_neg hvalid]
                rfl
            rw [hrefused]
            exact ⟨fun h => absurd h.1 hfits, fun _ => rfl⟩

end Storing

theorem done_bind {α β : Type} (a : α) (f : α → Checked β) : (Checked.done a >>= f) = f a := rfl

theorem require_holds {p : Prop} [Decidable p] (h : p) : require p = .done () := if_pos h

theorem propertyLoop_expiring (properties : List UserProperty) (expirySeconds : UInt32) (before after : Bytes)
    (hp : ∀ p ∈ properties, p.name.val.length < 65536 ∧ p.value.val.length < 65536) :
    let buf := expiryBytes expirySeconds ++ properties.flatMap propertyBytes
    propertyLoop (before ++ buf ++ after) (before.length + buf.length) (buf.length + 1) before.length (fun _ => []) =
      storeAll (fun _ => []) properties >>= fun m => .done (m, before.length + buf.length) := by
  dsimp only
  by_cases hzero : expirySeconds = 0
  · have hnone : expiryBytes expirySeconds = [] := if_pos hzero
    rw [hnone, List.nil_append]
    exact propertyLoop_read properties before after _ _ hp (by omega)
  · have hsome : expiryBytes expirySeconds =
        0x02 :: (word (expirySeconds.toNat / 65536) ++ word expirySeconds.toNat) := if_neg hzero
    have hlength : (expiryBytes expirySeconds).length = 5 := by simp [hsome, word]
    have hread := propertyLoop_read properties (before ++ expiryBytes expirySeconds) after
      ((expiryBytes expirySeconds ++ properties.flatMap propertyBytes).length) (fun _ => []) hp
      (by rw [List.length_append]; omega)
    have hid : byteAt (before ++ (expiryBytes expirySeconds ++ properties.flatMap propertyBytes) ++ after) before.length =
        .done 0x02 := by simp [byteAt, hsome]
    have hskip : property (before ++ (expiryBytes expirySeconds ++ properties.flatMap propertyBytes) ++ after)
        (before.length + (expiryBytes expirySeconds ++ properties.flatMap propertyBytes).length) 0x02 (before.length + 1)
        (fun _ => []) = .done (fun _ => [], before.length + 5) := by
      unfold property skipBytes
      rw [if_neg (by decide), if_neg (by decide), if_neg (by decide), if_pos rfl,
        require_holds (by rw [List.length_append]; omega)]
      rfl
    rw [propertyLoop, if_pos (by rw [List.length_append]; omega), hid, done_bind, hskip, done_bind]
    simp only [List.length_append, List.append_assoc, hlength, Nat.add_assoc] at hread ⊢
    exact hread

theorem metadata_read (topic : CString) (payload : Bytes) (packetId : UInt16)
    (properties : List UserProperty) (expirySeconds : UInt32) (propertyBuf : Bytes)
    (hproperties : appendProperties (expiryBytes expirySeconds) properties = some propertyBuf)
    (htopic : topic.val.length < topicBuffer) (hflags : qosOf flags = qos) :
    parseRpcMetadata (conHead topic packetId qos propertyBuf ++ payload) flags =
      storeAll (fun _ => []) properties >>= fun m => .done (m, (conHead topic packetId qos propertyBuf).length) := by
  have hexpiry := expiryBytes_length expirySeconds
  obtain ⟨hbuf, hsize, hall⟩ := appendProperties_spec hproperties (by omega)
  obtain ⟨-, hdecode, hlengths⟩ := @properties_read _ _ topic packetId _ payload hsize hflags
  have hloop := propertyLoop_expiring properties expirySeconds (writeUtf8String topic.val ++ packetIdBytes qos packetId ++
    encodeRemainingLength propertyBuf.length) payload hall
  unfold topicBuffer at htopic
  have hword : wordAt (conHead topic packetId qos propertyBuf ++ payload) 0 = .done topic.val.length := by
    have hread := (topic_read topic.val (packetIdBytes qos packetId ++
      (encodeRemainingLength propertyBuf.length ++ propertyBuf) ++ payload) (by omega)).1
    simpa [conHead] using hread
  have hpos : (if 0 < qosOf flags then 2 + topic.val.length + 2 else 2 + topic.val.length) =
      2 + topic.val.length + (packetIdBytes qos packetId).length := by
    unfold packetIdBytes
    rw [hflags]
    split <;> simp [word]
  have hdigits : 0 < (encodeRemainingLength propertyBuf.length).length := by
    unfold encodeRemainingLength encodeLoop
    split <;> simp
  rw [← hbuf, List.length_append, List.length_append, writeUtf8String_length] at hloop
  unfold parseRpcMetadata
  rw [require_holds (by omega), done_bind, hword, done_bind]
  dsimp only
  rw [hpos, require_holds (by omega), done_bind, hdecode, done_bind]
  dsimp only
  rw [show minus _ _ = .done _ from if_pos (by omega), done_bind, require_holds (by omega), done_bind]
  simp only [conHead, List.length_append, List.append_assoc, writeUtf8String_length, Nat.add_assoc] at hloop ⊢
  exact hloop

/-! ### The codec -/

/-- Packets survive the codec of either agent; in l4con the metadata is that of the first values where every value of a
known property fits its array and repeats the first one, and is refused otherwise. The two parsers agree on any packet,
and none reads outside it. -/
theorem packets_survive :
    (∀ (topic : CString) (payload : Bytes) (packetId : UInt16) (qos retain : UInt8) (maxLen : Nat),
      topic.val.length < topicBuffer → qos ≤ 1 →
      2 + topic.val.length + (packetIdBytes qos packetId).length + payload.length ≤ 268435455 →
      1 + (encodeRemainingLength (2 + topic.val.length + (packetIdBytes qos packetId).length + payload.length)).length +
        (2 + topic.val.length + (packetIdBytes qos packetId).length + payload.length) ≤ maxLen →
      ∃ out, deskBuildPublish maxLen topic payload packetId qos retain = some out ∧
        Delivers deskParsePublish out topic.val payload (idOf qos packetId)) ∧
    (∀ (topic : CString) (payload : Bytes) (packetId : UInt16) (qos retain : UInt8) (maxLen : Nat)
      (properties : List UserProperty) (expirySeconds : UInt32) (propertyBuf : Bytes),
      appendProperties (expiryBytes expirySeconds) properties = some propertyBuf → topic.val.length < topicBuffer → qos ≤ 1 →
      (conHead topic packetId qos propertyBuf).length + payload.length ≤ 268435455 →
      (conHead topic packetId qos propertyBuf).length + payload.length + 5 ≤ maxLen →
      ∃ out, conBuildPublish maxLen topic payload packetId qos retain properties expirySeconds = some out ∧
        Delivers conParsePublish out topic.val payload (idOf qos packetId) ∧
        ∃ header lengthBytes body, out = header :: (lengthBytes ++ body) ∧
          decodeRemainingLength out 1 (out.length - 1) = .done (body.length, lengthBytes.length) ∧
          (Consistent (fun _ => []) properties → ∃ stop, parseRpcMetadata body (header &&& 0x0f) =
            .done (fun f => (valuesOf f properties).headD [], stop) ∧ body.drop stop = payload) ∧
          (¬ Consistent (fun _ => []) properties → parseRpcMetadata body (header &&& 0x0f) = .refused)) ∧
    (∀ (packet : Bytes) (flags : UInt8) (r : Published) (m : MqttRpcMetadata) (stop : Nat),
      conParsePublish packet flags = .done r → parseRpcMetadata packet flags = .done (m, stop) → stop = r.payloadAt) ∧
    ∀ (packet : Bytes) (flags : UInt8), deskParsePublish packet flags ≠ .fault ∧ conParsePublish packet flags ≠ .fault ∧
      parseRpcMetadata packet flags ≠ .fault ∧
      ∀ start bufLen, start + bufLen ≤ packet.length → decodeRemainingLength packet start bufLen ≠ .fault := by
  refine ⟨desk_delivers, ?_, fun packet flags r m stop h₁ h₂ => parsers_meet h₁ h₂, fun packet flags =>
    ⟨(deskParsePublish_sound packet flags).ne_fault, (conParsePublish_sound packet flags).ne_fault,
      (parseRpcMetadata_sound packet flags).ne_fault, fun start bufLen h => (sound_decodeLoop h _ _ _ _).ne_fault⟩⟩
  intro topic payload packetId qos retain maxLen properties expirySeconds propertyBuf hproperties htopic hqos hlength hroom
  obtain ⟨hbuild, hdelivers⟩ := con_delivers topic payload packetId qos retain maxLen properties expirySeconds
    propertyBuf hproperties htopic hqos hlength hroom
  have hflags := (headerByte_spec qos retain hqos).1
  have hread := metadata_read topic payload packetId properties expirySeconds propertyBuf hproperties htopic hflags
  obtain ⟨hyes, hno⟩ := storeAll_spec (fun _ => []) properties
  refine ⟨_, hbuild, hdelivers, _, _, _, rfl, frame_read _ (by rw [List.length_append]; exact hlength), fun h => ?_, fun h => ?_⟩
  · rw [hread, hyes h]
    exact ⟨_, rfl, List.drop_left⟩
  · rw [hread, hno h]
    rfl

namespace Twice

def topic : CString := ⟨bytesOf "t", by decide⟩

def codes : List UserProperty :=
  [⟨⟨bytesOf "method_code", by decide⟩, ⟨bytesOf "1", by decide⟩⟩, ⟨⟨bytesOf "method_code", by decide⟩, ⟨bytesOf "2", by decide⟩⟩]

def propertyBuf : Bytes := codes.flatMap propertyBytes

end Twice

theorem packets_survive_once :
    (∃ out, deskBuildPublish 64 Twice.topic [7] 5 1 0 = some out ∧ Delivers deskParsePublish out Twice.topic.val [7] 5) ∧
      ∃ out, conBuildPublish 256 Twice.topic [7] 5 1 0 [] 60 = some out ∧ Delivers conParsePublish out Twice.topic.val [7] 5 := by
  refine ⟨packets_survive.1 Twice.topic [7] 5 1 0 64 (by decide) (by decide) (by decide) (by decide), ?_⟩
  obtain ⟨out, hbuild, hdelivers, -⟩ := packets_survive.2.1 Twice.topic [7] 5 1 0 256 [] 60 (expiryBytes 60) rfl (by decide)
    (by decide) (by decide) (by decide)
  exact ⟨out, hbuild, hdelivers⟩

set_option maxRecDepth 8000 in
/-- Two different values of one known property fit the packet, and the metadata of the packet is refused. -/
theorem conflicting_refused : ∃ header lengthBytes body,
    conBuildPublish 256 Twice.topic [] 0 0 0 Twice.codes 0 = some (header :: (lengthBytes ++ body)) ∧
      decodeRemainingLength (header :: (lengthBytes ++ body)) 1 (lengthBytes ++ body).length =
        .done (body.length, lengthBytes.length) ∧
      parseRpcMetadata body (header &&& 0x0f) = .refused :=
  ⟨0x30, [38], [0, 1, 0x74, 34] ++ Twice.propertyBuf, by decide +kernel, by decide +kernel, rfl⟩

end EtranProcessing.Desk.MqttPackets
