import EtranProcessing.Desk.ControlCommands
import EtranProcessing.Library.Runs

namespace EtranProcessing.Desk.CommandsOnce

open CaptureAdapter JsonMin DedupCache ControlCommands Library.Runs

section Lengths

theorem text_length (s : String) : (text s).length = s.length := by
  simp [text, String.length_toList]

theorem decimal_length {n : Nat} (h : n < 10 ^ 20) : (decimal n).length ≤ 20 := by
  have hdigits : (toString (n : Int)).length = (Nat.toDigits 10 n).length := by
    rw [Int.toString_eq_repr]
    change n.repr.length = _
    rw [← String.length_toList, Nat.toList_repr]
  rw [decimal, text_length, hdigits]
  exact (Nat.length_toDigits_le_iff (by omega) (by omega)).mpr h

theorem nowMs_bound (d : Delivery) : d.nowMs < 10 ^ 20 := by
  have hlt := ((d.fileTime - 116444736000000000) / 10000).toNat_lt
  unfold Delivery.nowMs
  omega

theorem escape_length (maxOut : Nat) (s : Bytes) (j : Nat) (h : j < maxOut) : (jsonEscapeStr maxOut j s).length + j < maxOut := by
  induction s generalizing j with
  | nil => simpa [jsonEscapeStr] using h
  | cons b rest ih =>
      unfold jsonEscapeStr
      split_ifs with hfits
      · have hrest := ih (j + 2) hfits
        simp only [List.length_cons]
        omega
      · have hrest := ih (j + 2) hfits
        simp only [List.length_cons]
        omega
      · have hrest := ih (j + 1) (by omega)
        simp only [List.length_cons]
        omega
      · simpa using h

variable {ownSn : Field 64} {d : Delivery}

theorem head_length (hid : d.cmdId.val.length < 40) :
    (ackHead d.cmdId.val d.leaseId.val ownSn.val).length ≤ 223 := by
  have hlease := d.leaseId.property.2
  have hsn := ownSn.property.2
  unfold ackHead
  simp only [List.length_append, text_length]
  have h₁ : "\x7b\"v\":1,\"type\":\"ack\",\"command_id\":\"".length = 34 := by decide
  have h₂ : "\",\"lease_id\":\"".length = 14 := by decide
  have h₃ : "\",\"sn\":\"".length = 8 := by decide
  have h₄ : "\",".length = 2 := by decide
  omega

theorem terminal_length (d : Delivery) : (terminalTime d.nowMs).length ≤ 40 := by
  have htime := decimal_length (nowMs_bound d)
  unfold terminalTime
  simp only [List.length_append, text_length]
  have h₁ : "\"terminal_time_ms\":".length = 19 := by decide
  have h₂ : "\x7d".length = 1 := by decide
  omega

theorem ack_length (hid : d.cmdId.val.length < 40) : (ack ownSn d).length < 1024 := by
  have hhead := @head_length ownSn d hid
  have hend := terminal_length d
  unfold ControlCommands.ack ackPayload
  simp only [List.length_append, text_length]
  have h₁ : "\"result\":\"injected\",".length = 20 := by decide
  omega

theorem ackStream_length {result streamInstanceId : Bytes} {state : String} (hid : d.cmdId.val.length < 40) (hresult : result.length < 32)
    (hstream : streamInstanceId.length < 64) (hstate : state.length ≤ 7) :
    (ackStreamPayload d.cmdId.val d.leaseId.val ownSn.val result streamInstanceId state d.nowMs).length < 1024 := by
  have hhead := @head_length ownSn d hid
  have hend := terminal_length d
  have hquoted : (if streamInstanceId = [] then text "null" else text "\"" ++ streamInstanceId ++ text "\"").length ≤ 70 := by
    have h₁ : "null".length = 4 := by decide
    have h₂ : "\"".length = 1 := by decide
    split_ifs
    · rw [text_length]
      omega
    · simp only [List.length_append, text_length]
      omega
  unfold ackStreamPayload
  simp only [List.length_append, text_length]
  have h₁ : "\"result\":\"".length = 10 := by decide
  have h₂ : "\",\"stream_instance_id\":".length = 23 := by decide
  have h₃ : ",\"state\":\"".length = 10 := by decide
  have h₄ : "\",".length = 2 := by decide
  omega

theorem nack_length {code : Bytes} (message : Bytes) (hid : d.cmdId.val.length < 40) (hcode : code.length < 64) :
    (nack ownSn d code message).length < 1024 := by
  have hhead := @head_length ownSn d hid
  have hend := terminal_length d
  have hmessage := escape_length 512 message 0 (by omega)
  unfold nack nackPayload
  simp only [List.length_append, text_length]
  have h₁ : "\"result\":\"nack\",\"code\":\"".length = 24 := by decide
  have h₂ : "\",\"message\":\"".length = 13 := by decide
  have h₃ : "\",".length = 2 := by decide
  omega

def Fits (r : Response) : Prop := r.cached = true → ∀ payload, r.published = some payload → payload.length < 1024

theorem fits_cached {payload : Bytes} {executed : List Action} (h : payload.length < 1024) : Fits (cached payload executed) := by
  rintro - _ ⟨⟩
  exact h

theorem fits_other {r : Response} (h : r.cached = false) : Fits r := fun hcached => by
  rw [h] at hcached
  cases hcached

theorem injection_codes (e : InjectError) : (mouseCode e).length < 64 ∧ (injectionFailed e).length < 64 ∧
    (shortcutCode e).length < 64 ∧ (altF4Code e).length < 64 := by
  cases e <;> decide +kernel

theorem gate_code {d : Delivery} {stream : StreamStateInfo} {inv : Inventory.SystemInventory} {access : DesktopAccess}
    {code message : String} (h : inputGate d stream inv access = some (code, message)) : code.length < 64 := by
  unfold inputGate at h
  split_ifs at h
  · obtain ⟨rfl, -⟩ := Prod.mk.inj (Option.some.inj h)
    decide
  · obtain ⟨rfl, -⟩ := Prod.mk.inj (Option.some.inj h)
    decide
  · obtain ⟨rfl, -⟩ := Prod.mk.inj (Option.some.inj h)
    decide
  · obtain ⟨rfl, -⟩ := Prod.mk.inj (Option.some.inj h)
    decide
  · obtain ⟨rfl, -⟩ := Prod.mk.inj (Option.some.inj h)
    decide
  · obtain ⟨rfl, -⟩ := Prod.mk.inj (Option.some.inj h)
    decide
  · cases access with
    | ok => cases h
    | sessionUnavailable | locked =>
        obtain ⟨rfl, -⟩ := Prod.mk.inj (Option.some.inj h)
        decide

variable (hid : d.cmdId.val.length < 40)
include hid

theorem refuse_fits {code : String} (message : String) (hcode : code.length < 64) : Fits (refuse ownSn d code message) :=
  fits_cached (nack_length _ hid (by rw [text_length]; exact hcode))

theorem start_fits : Fits (streamStart ownSn d) := by
  unfold streamStart
  dsimp only
  split
  · exact refuse_fits hid _ (by decide)
  · split
    · next result _ => exact fits_cached (ackStream_length hid result.property.2 d.streamInstanceId.property.2 (by decide))
    · next code message _ => exact fits_cached (nack_length _ hid code.property.2)

theorem stop_fits : Fits (streamStop ownSn d) := by
  unfold streamStop
  dsimp only
  split
  · next result _ => exact fits_cached (ackStream_length hid result.property.2 d.streamInstanceId.property.2 (by decide))
  · next code message _ => exact fits_cached (nack_length _ hid code.property.2)

theorem renew_fits : Fits (renew ownSn d) := by
  unfold renew
  split_ifs
  · exact fits_other rfl
  · exact fits_other rfl
  · exact fits_other rfl
  · exact fits_other rfl
  · exact fits_cached (ack_length hid)

theorem inject_fits {action : Action} {code : InjectError → String} (message : InjectError → String)
    (hcode : ∀ e, (code e).length < 64) : Fits (inject ownSn d action code message) := by
  unfold inject
  split
  · exact fits_cached (ack_length hid)
  · next e _ => exact fits_cached (nack_length _ hid (by rw [text_length]; exact hcode e))

theorem drag_fits : Fits (mouseDrag ownSn d) := by
  unfold mouseDrag
  split
  · split
    · exact inject_fits hid _ fun e => (injection_codes e).1
    · exact refuse_fits hid _ (by decide)
  · exact refuse_fits hid _ (by decide)

theorem wheel_fits : Fits (mouseWheel ownSn d) := by
  unfold mouseWheel
  split
  · split
    · exact inject_fits hid _ fun e => (injection_codes e).1
    · exact refuse_fits hid _ (by decide)
  · exact refuse_fits hid _ (by decide)

theorem click_fits : Fits (mouseClick ownSn d) := by
  unfold mouseClick
  extract_lets button named
  split
  · exact refuse_fits hid _ (by decide)
  · exact inject_fits hid _ fun e => (injection_codes e).2.1

theorem shortcut_fits : Fits (shortcutAction ownSn d) := by
  unfold shortcutAction
  dsimp only
  split_ifs
  · exact refuse_fits hid _ (by decide)
  · exact inject_fits hid _ fun e => (injection_codes e).2.2.1
  · exact refuse_fits hid _ (by decide)
  · exact inject_fits hid _ fun e => (injection_codes e).2.2.2
  · exact refuse_fits hid _ (by decide)
  · exact inject_fits hid _ fun e => (injection_codes e).2.2.1
  · exact refuse_fits hid _ (by decide)
  · exact refuse_fits hid _ (by decide)

theorem key_fits : Fits (keyEvent ownSn d) := by
  unfold keyEvent
  dsimp only
  split
  · exact refuse_fits hid _ (by decide)
  · exact inject_fits hid _ fun e => (injection_codes e).2.1

theorem inputAction_fits : Fits (inputAction ownSn d) := by
  unfold inputAction
  split_ifs
  · exact shortcut_fits hid
  · exact key_fits hid
  · exact fits_other rfl
  · exact fits_other rfl
  · exact fits_other rfl
  · exact drag_fits hid
  · exact wheel_fits hid
  · exact click_fits hid

theorem input_fits : Fits (input ownSn d) := by
  unfold input
  split
  · next code message hgate =>
      split
      · exact fits_other rfl
      · exact refuse_fits hid message (gate_code hgate)
  · exact inputAction_fits hid

theorem respond_fits (hinventory : d.is "inventory_get" = true →
    (ackInventoryPayload d.cmdId.val d.leaseId.val ownSn.val d.inv d.nowMs).length < 1024) : Fits (respond ownSn d) := by
  unfold respond
  split_ifs with hget
  · exact fits_cached (hinventory hget)
  · exact start_fits hid
  · exact stop_fits hid
  · exact renew_fits hid
  · exact input_fits hid
  · exact fits_other rfl

end Lengths

section Retention

variable {ownSn : Field 64} {c c' : Cache} {d : Delivery} {h : Handled}

def Touches (ownSn : Field 64) (c : Cache) (d : Delivery) : Prop :=
  refused ownSn d = none ∧ (c.find d.cmdId.str = none → (respond ownSn d).cached = true)

/-- What the cache needs of a command to keep its answer whole and in order. -/
structure SoundDelivery (ownSn : Field 64) (c : Cache) (d : Delivery) : Prop where
  /-- The clock has not gone back. -/
  clock : Touches ownSn c d → ∀ i entry, c.At i entry → entry.lastAccessed ≤ d.time
  id : Touches ownSn c d → d.cmdId.val.length < 40
  inventory : Touches ownSn c d → d.is "inventory_get" = true →
    (ackInventoryPayload d.cmdId.val d.leaseId.val ownSn.val d.inv d.nowMs).length < 1024
  /-- A full cache has one oldest slot. -/
  oldest : Touches ownSn c d → c.find d.cmdId.str = none → (∀ j, j < dedupCacheSize → ∃ entry, c.At j entry) →
    ∀ i j entry other, c.oldest = some i → c.At i entry → c.At j other → j ≠ i → entry.lastAccessed < other.lastAccessed

/-- What handling a command does to the cache. -/
inductive Effect (ownSn : Field 64) (c : Cache) (d : Delivery) : Handled → Cache → Prop
  | apart (h : Handled) (hrefused : h.answered = false) : Effect ownSn c d h c
  | replayed (i : Nat) (entry : CacheEntry) (htouches : Touches ownSn c d) (hat : c.At i entry)
      (hid : entry.commandId.val = d.cmdId.val) :
      Effect ownSn c d ⟨some entry.responsePayload.val, [], true⟩ (c.set i { entry with lastAccessed := d.time })
  | stored (i : Nat) (payload : Bytes) (hlength : payload.length < 1024) (executed : List Action) (hid : d.cmdId.val.length < 40)
      (htouches : Touches ownSn c d) (hnew : c.find d.cmdId.str = none) (hi : i < dedupCacheSize)
      (hslot : c.entries[i]? = some none ∨ c.oldest = some i ∧ ∀ j, j < dedupCacheSize → ∃ entry, c.At j entry) :
      Effect ownSn c d ⟨some payload, executed, true⟩ (c.set i ⟨⟨d.cmdId.val, d.cmdId.property.1, hid⟩, ⟨payload, hlength⟩, d.time⟩)

theorem handle_effect (hsound : SoundDelivery ownSn c d) : ∃ h c', handleCommand ownSn d c = some (h, c') ∧ Effect ownSn c d h c' := by
  unfold handleCommand
  split
  · exact ⟨_, _, rfl, .apart _ rfl⟩
  · next hrefused =>
      split
      · next found c' hget =>
          obtain ⟨i, entry, hat, hid, hfound, hc'⟩ := get_cases hget
          have htouches : Touches ownSn c d := ⟨hrefused, fun hnone => absurd hid (find_none hnone hat)⟩
          have hwhole : found = entry.responsePayload.val := by
            rw [hfound, List.take_of_length_le]
            have hlt := entry.responsePayload.property
            unfold maxResp
            omega
          refine ⟨_, _, rfl, ?_⟩
          rw [hwhole, hc']
          exact .replayed i entry htouches hat hid
      · next hget =>
          have hnew := get_none hget
          dsimp only
          split
          · next payload hpayload =>
              split
              · next hcached =>
                  have htouches : Touches ownSn c d := ⟨hrefused, fun _ => hcached⟩
                  have hid := hsound.id htouches
                  have hlength := respond_fits hid (hsound.inventory htouches) hcached payload hpayload
                  obtain ⟨i, hi, hput, hslot⟩ := put_cases hnew hid payload d.time
                  have hcut : cut payload = ⟨payload, hlength⟩ := Subtype.ext (List.take_of_length_le (by omega))
                  rw [hput, hcut]
                  exact ⟨_, _, rfl, .stored i payload hlength _ hid htouches hnew hi hslot⟩
              · exact ⟨_, _, rfl, .apart _ rfl⟩
          · exact ⟨_, _, rfl, .apart _ rfl⟩

structure Keeps (c : Cache) (id : CString) (response : Bytes) (others : Finset CString) : Prop where
  distinct : c.Distinct
  entry : ∃ i entry, c.At i entry ∧ entry.commandId.val = id.val ∧ entry.responsePayload.val = response ∧
    ∀ j other, c.At j other → entry.lastAccessed < other.lastAccessed → ∃ o ∈ others, o.val = other.commandId.val

variable {others : Finset CString} {id : CString} {response : Bytes}

theorem full_count {i : Nat} (hfull : ∀ j, j < dedupCacheSize → ∃ entry, c.At j entry)
    (hdistinct : c.Distinct) (hlater : ∀ j other, j ≠ i → c.At j other → ∃ o ∈ others, o.val = other.commandId.val)
    (hnew : c.find id = none) (hmem : id ∈ others) : dedupCacheSize ≤ others.card := by
  have hname : ∀ j, ∃ o : CString, j < dedupCacheSize → o ∈ others ∧
      (j = i ∧ o = id ∨ j ≠ i ∧ ∃ other, c.At j other ∧ o.val = other.commandId.val) := by
    intro j
    by_cases hji : j = i
    · exact ⟨id, fun _ => ⟨hmem, .inl ⟨hji, rfl⟩⟩⟩
    · by_cases hj : j < dedupCacheSize
      · obtain ⟨other, hat⟩ := hfull j hj
        obtain ⟨o, ho, hid⟩ := hlater j other hji hat
        exact ⟨o, fun _ => ⟨ho, .inr ⟨hji, other, hat, hid⟩⟩⟩
      · exact ⟨id, fun h => absurd h hj⟩
  choose name hname using hname
  have hinj : Set.InjOn name (Finset.range dedupCacheSize) := by
    intro j hj k hk hsame
    have hj' := (hname j (Finset.mem_range.mp hj)).2
    have hk' := (hname k (Finset.mem_range.mp hk)).2
    rw [hsame] at hj'
    rcases hj' with ⟨rfl, hjid⟩ | ⟨-, first, hfirst, hjname⟩
    · rcases hk' with ⟨rfl, -⟩ | ⟨-, second, hsecond, hkname⟩
      · rfl
      · exact absurd (hkname.symm.trans (congrArg Subtype.val hjid)) (find_none hnew hsecond)
    · rcases hk' with ⟨rfl, hkid⟩ | ⟨-, second, hsecond, hkname⟩
      · exact absurd (hjname.symm.trans (congrArg Subtype.val hkid)) (find_none hnew hfirst)
      · exact hdistinct j k first second hfirst hsecond (hjname.symm.trans hkname)
  have hcard := Finset.card_le_card_of_injOn name (fun j hj => (hname j (Finset.mem_range.mp hj)).1) hinj
  rwa [Finset.card_range] at hcard

theorem set_keeps {i : Nat} {entry : CacheEntry} (hi : i < dedupCacheSize)
    (hdistinct : (c.set i entry).Distinct) (hid : entry.commandId.val = id.val)
    (hclock : ∀ j other, c.At j other → other.lastAccessed ≤ entry.lastAccessed) :
    Keeps (c.set i entry) id entry.responsePayload.val others := by
  refine ⟨hdistinct, i, entry, at_set_self hi, hid, rfl, fun j other hj hlt => ?_⟩
  by_cases hji : j = i
  · subst hji
    rw [at_unique hj (at_set_self hi)] at hlt
    exact absurd hlt (Nat.lt_irrefl entry.lastAccessed.val)
  · rw [at_set_ne hji] at hj
    exact absurd hlt (Nat.not_lt.mpr (hclock j other hj))

theorem Keeps.set {i : Nat} {entry : CacheEntry}
    (hkeeps : Keeps c id response others) (hi : i < dedupCacheSize) (hdistinct : (c.set i entry).Distinct)
    (hother : ∀ kept, c.At i kept → kept.commandId.val ≠ id.val) (hmem : ∃ o ∈ others, o.val = entry.commandId.val) :
    Keeps (c.set i entry) id response others := by
  obtain ⟨k, kept, hat, hid, hresponse, hlater⟩ := hkeeps.entry
  have hki : k ≠ i := by
    rintro rfl
    exact hother kept hat hid
  refine ⟨hdistinct, k, kept, (at_set_ne hki).mpr hat, hid, hresponse, fun j other hj hlt => ?_⟩
  by_cases hji : j = i
  · subst hji
    rw [at_unique hj (at_set_self hi)]
    exact hmem
  · exact hlater j other ((at_set_ne hji).mp hj) hlt

theorem Effect.distinct (heffect : Effect ownSn c d h c') (hdistinct : c.Distinct) : c'.Distinct := by
  cases heffect with
  | apart => exact hdistinct
  | replayed i entry htouches hat hid =>
      refine hdistinct.set (at_lt hat) fun j other hji hj hsame => ?_
      exact hji (hdistinct j i other entry hj hat hsame)
  | stored i payload hlength executed hid htouches hnew hi hslot =>
      exact hdistinct.set hi fun j other hji hj hsame => find_none hnew hj hsame

theorem Effect.keeps (heffect : Effect ownSn c d h c')
    (hsound : SoundDelivery ownSn c d) (hkeeps : Keeps c id response others)
    (hmem : h.answered = true → d.cmdId.str ≠ id → d.cmdId.str ∈ others) (hcount : others.card < dedupCacheSize) :
    Keeps c' id response others := by
  have hdistinct := heffect.distinct hkeeps.distinct
  obtain ⟨k, kept, hkept, hkeptid, hresponse, hlater⟩ := hkeeps.entry
  cases heffect with
  | apart => exact hkeeps
  | replayed i entry htouches hat hid =>
      by_cases hsame : d.cmdId.str = id
      · have hki : k = i := hkeeps.distinct k i kept entry hkept hat (by rw [hkeptid, ← hsame, hid]; rfl)
        subst hki
        obtain rfl := at_unique hkept hat
        rw [← hresponse]
        exact set_keeps (at_lt hat) hdistinct hkeptid (hsound.clock htouches)
      · refine hkeeps.set (at_lt hat) hdistinct (fun other hother hname => hsame (Subtype.ext ?_)) ⟨d.cmdId.str, hmem rfl hsame, hid.symm⟩
        rw [← hname, at_unique hother hat]
        exact hid.symm
  | stored i payload hlength executed hid htouches hnew hi hslot =>
      have hne : d.cmdId.str ≠ id := by
        intro hsame
        exact find_none hnew hkept (by rw [hkeptid, hsame])
      refine hkeeps.set hi hdistinct (fun other hother hname => ?_) ⟨d.cmdId.str, hmem rfl hne, rfl⟩
      rcases hslot with hfree | ⟨holdest, hfull⟩
      · rw [Cache.At, hfree] at hother
        cases hother
      · have hki : k = i := hkeeps.distinct k i kept other hkept hother (hkeptid.trans hname.symm)
        subst hki
        have hothers : ∀ j other, j ≠ k → c.At j other → ∃ o ∈ others, o.val = other.commandId.val := fun j other hjk hj =>
          hlater j other hj (hsound.oldest htouches hnew hfull k j kept other holdest hkept hj hjk)
        exact absurd (full_count hfull hkeeps.distinct hothers hnew (hmem rfl hne)) (not_le.mpr hcount)

theorem Effect.answered (heffect : Effect ownSn c d h c') (hsound : SoundDelivery ownSn c d)
    (hdistinct : c.Distinct) (hanswered : h.answered = true) :
    ∃ payload, h.published = some payload ∧ Keeps c' d.cmdId.str payload others := by
  have hafter := heffect.distinct hdistinct
  cases heffect with
  | apart _ hnot =>
      rw [hnot] at hanswered
      cases hanswered
  | replayed i entry htouches hat hid => exact ⟨_, rfl, set_keeps (at_lt hat) hafter hid (hsound.clock htouches)⟩
  | stored i payload hlength executed hid htouches hnew hi hslot => exact ⟨_, rfl, set_keeps hi hafter rfl (hsound.clock htouches)⟩

theorem replayed (hkeeps : Keeps c id response others)
    (hid : d.cmdId.str = id) : ∃ h c', handleCommand ownSn d c = some (h, c') ∧ h.executed = [] ∧
      (refused ownSn d = none → h.published = some response) := by
  unfold handleCommand
  cases hrefused : refused ownSn d with
  | some published => exact ⟨_, _, rfl, rfl, fun hnone => by cases hnone⟩
  | none =>
      obtain ⟨i, entry, hat, hname, hresponse, -⟩ := hkeeps.entry
      dsimp only
      split
      · next found c' hget =>
          obtain ⟨j, entry', hat', hname', hfound, -⟩ := get_cases hget
          have hij : j = i := hkeeps.distinct j i entry' entry hat' hat (by rw [hname', hname, hid])
          subst hij
          obtain rfl := at_unique hat hat'
          have hlt := entry.responsePayload.property
          have hwhole : found = response := by
            rw [hfound, List.take_of_length_le, hresponse]
            unfold maxResp
            omega
          exact ⟨_, _, rfl, rfl, fun _ => by rw [hwhole]⟩
      · next hget => exact absurd (hname.trans (congrArg Subtype.val hid).symm) (find_none (get_none hget) hat)

end Retention

section Runs

variable {ownSn : Field 64}

def agent (ownSn : Field 64) (c : Option Cache) (d : Delivery) : Option Cache := do
  let c ← c
  let (_, c) ← handleCommand ownSn d c
  some c

def Sound (ownSn : Field 64) (c : Option Cache) (d : Delivery) : Prop := ∀ c' ∈ c, SoundDelivery ownSn c' d

def answeredIds (ownSn : Field 64) : Cache → List Delivery → List CString
  | _, [] => []
  | c, d :: rest =>
      match handleCommand ownSn d c with
      | some (h, c) => if h.answered then d.cmdId.str :: answeredIds ownSn c rest else answeredIds ownSn c rest
      | none => []

theorem agent_effect {c : Cache} {d : Delivery} (hsound : Sound ownSn (some c) d) :
    ∃ h c', handleCommand ownSn d c = some (h, c') ∧ agent ownSn (some c) d = some c' ∧ Effect ownSn c d h c' := by
  obtain ⟨h, c', hhandle, heffect⟩ := handle_effect (hsound c rfl)
  exact ⟨h, c', hhandle, by simp [agent, hhandle], heffect⟩

theorem run_distinct {deliveries : List Delivery} {c : Cache} (hsound : Along (agent ownSn) (Sound ownSn) (some c) deliveries)
    (hdistinct : c.Distinct) : ∃ c', run (agent ownSn) (some c) deliveries = some c' ∧ c'.Distinct := by
  induction deliveries generalizing c with
  | nil => exact ⟨c, rfl, hdistinct⟩
  | cons d rest ih =>
      obtain ⟨hfirst, hrest⟩ := hsound
      obtain ⟨h, c', -, hagent, heffect⟩ := agent_effect hfirst
      rw [hagent] at hrest
      obtain ⟨c'', hrun, hdistinct'⟩ := ih hrest (heffect.distinct hdistinct)
      refine ⟨c'', ?_, hdistinct'⟩
      rw [run, List.foldl_cons, hagent]
      exact hrun

theorem run_keeps {deliveries : List Delivery} {c : Cache} {id : CString} {response : Bytes} {others : Finset CString}
    (hsound : Along (agent ownSn) (Sound ownSn) (some c) deliveries) (hkeeps : Keeps c id response others)
    (hmem : ∀ o ∈ answeredIds ownSn c deliveries, o ≠ id → o ∈ others) (hcount : others.card < dedupCacheSize) :
    ∃ c', run (agent ownSn) (some c) deliveries = some c' ∧ Keeps c' id response others := by
  induction deliveries generalizing c with
  | nil => exact ⟨c, rfl, hkeeps⟩
  | cons d rest ih =>
      obtain ⟨hfirst, hrest⟩ := hsound
      obtain ⟨h, c', hhandle, hagent, heffect⟩ := agent_effect hfirst
      rw [hagent] at hrest
      simp only [answeredIds, hhandle] at hmem
      have hnow : h.answered = true → d.cmdId.str ≠ id → d.cmdId.str ∈ others := by
        intro hanswered
        rw [if_pos hanswered] at hmem
        exact hmem _ List.mem_cons_self
      have hlater : ∀ o ∈ answeredIds ownSn c' rest, o ≠ id → o ∈ others := by
        intro o ho
        refine hmem o ?_
        split
        · exact List.mem_cons_of_mem _ ho
        · exact ho
      obtain ⟨c'', hrun, hkeeps'⟩ := ih hrest (heffect.keeps (hfirst c rfl) hkeeps hnow hcount) hlater
      refine ⟨c'', ?_, hkeeps'⟩
      rw [run, List.foldl_cons, hagent]
      exact hrun

end Runs

theorem commands_once (ownSn : Field 64) (before between : List Delivery) (first again : Delivery)
    (hsound : Along (agent ownSn) (Sound ownSn) (some Cache.init) (before ++ first :: (between ++ [again]))) :
    ∃ c h₁ c₁ c₂ h₂ c₃, run (agent ownSn) (some Cache.init) before = some c ∧ handleCommand ownSn first c = some (h₁, c₁) ∧
      run (agent ownSn) (some c₁) between = some c₂ ∧ handleCommand ownSn again c₂ = some (h₂, c₃) ∧
      (h₁.answered = true → again.cmdId = first.cmdId →
        ((answeredIds ownSn c₁ between).filter (· ≠ first.cmdId.str)).toFinset.card ≤ 255 →
        h₂.executed = [] ∧ (refused ownSn again = none → h₂.published = h₁.published)) := by
  obtain ⟨hbefore, hfirst, hrest⟩ := hsound.split
  obtain ⟨c, hrun, hdistinct⟩ := run_distinct hbefore init_distinct
  rw [hrun] at hfirst hrest
  obtain ⟨h₁, c₁, hhandle, hagent, heffect⟩ := agent_effect hfirst
  rw [hagent] at hrest
  obtain ⟨hbetween, hagain, -⟩ := hrest.split
  obtain ⟨c₂, hrun₂, -⟩ := run_distinct hbetween (heffect.distinct hdistinct)
  rw [hrun₂] at hagain
  obtain ⟨h₂, c₃, hhandle₂, -, -⟩ := agent_effect hagain
  refine ⟨c, h₁, c₁, c₂, h₂, c₃, hrun, hhandle, hrun₂, hhandle₂, fun hanswered hid hcount => ?_⟩
  obtain ⟨payload, hpublished, hkeeps⟩ := heffect.answered (hfirst c rfl) hdistinct hanswered
  obtain ⟨c₂', hrun₂', hkeeps₂⟩ := run_keeps hbetween hkeeps (fun o ho hne => by simp [ho, hne]) (Nat.lt_succ_of_le hcount)
  obtain rfl := Option.some.inj (hrun₂.symm.trans hrun₂')
  obtain ⟨h, c', hagain', hnothing, hsame⟩ := replayed hkeeps₂ (congrArg Field.str hid)
  obtain ⟨rfl, -⟩ := Prod.mk.inj (Option.some.inj (hhandle₂.symm.trans hagain'))
  exact ⟨hnothing, fun hnone => (hsame hnone).trans hpublished.symm⟩

/-- A click on a running desktop stream, with this id. -/
def click (id : List UInt8) (time : Seconds) (hid : 0 ∉ id) : Delivery where
  payload := ⟨text "\x7b\"v\":1,\"type\":\"mouse_click\",\"x\":1,\"y\":1,\"command_id\":\"" ++ id ++ text "\"\x7d", by
    simp only [List.mem_append, hid]
    decide⟩
  payloadLen := 60 + id.length
  fileTime := 116444736000000000
  time := time
  inv := ⟨[], [], []⟩
  start := .ok ⟨[], by decide⟩
  stop := .ok ⟨[], by decide⟩
  stream := ⟨empty, empty, ⟨text "desktop", by decide⟩, empty, .running⟩
  access := .ok
  coordinates := true
  allowF12 := false
  allowAltF4 := false
  allowWinD := false
  vkAllowed _ := false
  injected := .ok ()

def ownSerial : Field 64 := ⟨text "s", by decide⟩

def firstClick : Delivery := click [0x61] 0 (by decide)
def secondClick : Delivery := click [0x61] 0x7ffffffe (by decide)
def longClick : Delivery := click (List.replicate 40 0x61) 0 (by decide)

theorem commands_once_click : ∃ h₁ c₁ h₂ c₃, handleCommand ownSerial firstClick Cache.init = some (h₁, c₁) ∧
    handleCommand ownSerial secondClick c₁ = some (h₂, c₃) ∧ h₂.executed = [] ∧ h₂.published = h₁.published := by
  have hfirst : SoundDelivery ownSerial Cache.init firstClick :=
    ⟨fun _ _ _ hat => absurd hat init_at, fun _ => by decide +kernel, fun _ hget => absurd hget (by decide +kernel),
      fun _ _ _ _ _ _ _ _ hat => absurd hat init_at⟩
  have hfound : (agent ownSerial (some Cache.init) firstClick).map (·.find secondClick.cmdId.str) = some (some 0) := by decide +kernel
  have hsecond : Sound ownSerial (agent ownSerial (some Cache.init) firstClick) secondClick := by
    intro c hc
    rw [hc] at hfound
    refine ⟨fun _ _ entry _ => Nat.le_of_lt_succ entry.lastAccessed.isLt, fun _ => by decide +kernel,
      fun _ hget => absurd hget (by decide +kernel), fun _ hnone => ?_⟩
    rw [Option.map_some, hnone] at hfound
    cases hfound
  have hsound : Along (agent ownSerial) (Sound ownSerial) (some Cache.init) ([] ++ firstClick :: ([] ++ [secondClick])) :=
    ⟨fun c hc => Option.some.inj hc ▸ hfirst, hsecond, trivial⟩
  obtain ⟨c, h₁, c₁, c₂, h₂, c₃, hrun, hhandle, hrun₂, hagain, hreplay⟩ := commands_once ownSerial [] [] firstClick secondClick hsound
  obtain rfl := Option.some.inj hrun
  obtain rfl := Option.some.inj hrun₂
  have hanswered : (handleCommand ownSerial firstClick Cache.init).map (·.1.answered) = some true := by decide +kernel
  rw [hhandle] at hanswered
  obtain ⟨hnothing, hsame⟩ := hreplay (Option.some.inj hanswered) (by decide +kernel) (Nat.zero_le _)
  have hadmitted : (refused ownSerial secondClick).isNone = true := by decide +kernel
  exact ⟨h₁, c₁, h₂, c₃, hhandle, hagain, hnothing, hsame (Option.isNone_iff_eq_none.mp hadmitted)⟩

theorem long_id_aborts : ¬ ∀ (ownSn : Field 64) (before between : List Delivery) (first again : Delivery),
    isValidIdentifier first.cmdId.str = true → ∃ c h₁ c₁ c₂ h₂ c₃, run (agent ownSn) (some Cache.init) before = some c ∧
      handleCommand ownSn first c = some (h₁, c₁) ∧ run (agent ownSn) (some c₁) between = some c₂ ∧
      handleCommand ownSn again c₂ = some (h₂, c₃) ∧
      (h₁.answered = true → again.cmdId = first.cmdId →
        ((answeredIds ownSn c₁ between).filter (· ≠ first.cmdId.str)).toFinset.card ≤ 255 →
        h₂.executed = [] ∧ (refused ownSn again = none → h₂.published = h₁.published)) := by
  intro h
  have haborts : (handleCommand ownSerial longClick Cache.init).isNone = true := by decide +kernel
  obtain ⟨c, h₁, c₁, c₂, h₂, c₃, hrun, hhandle, -⟩ := h ownSerial [] [] longClick longClick (by decide +kernel)
  obtain rfl := Option.some.inj hrun
  rw [hhandle] at haborts
  cases haborts

end EtranProcessing.Desk.CommandsOnce
