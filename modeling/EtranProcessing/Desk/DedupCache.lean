import EtranProcessing.Desk.JsonMin

namespace EtranProcessing.Desk.DedupCache

open CaptureAdapter JsonMin

def dedupCacheSize : Nat := 256

abbrev Seconds := Fin 0x7fffffff

structure CacheEntry where
  commandId : Field 40
  responsePayload : { s : List UInt8 // s.length < 1024 }
  lastAccessed : Seconds

structure Cache where
  entries : List (Option CacheEntry)
  size : entries.length = dedupCacheSize

def Cache.init : Cache := ⟨List.replicate dedupCacheSize none, List.length_replicate⟩

def Cache.set (c : Cache) (i : Nat) (entry : CacheEntry) : Cache :=
  ⟨c.entries.set i (some entry), by rw [List.length_set, c.size]⟩

def named (id : CString) (slot : Option CacheEntry) : Bool := slot.any (·.commandId.val = id.val)

def Cache.find (c : Cache) (id : CString) : Option Nat := c.entries.findIdx? (named id)

def oldestSlot : List (Option CacheEntry) → Nat → Nat → Option Nat → Option Nat
  | [], _, _, target => target
  | none :: _, i, _, _ => some i
  | some entry :: rest, i, oldest, target =>
      if entry.lastAccessed < oldest then oldestSlot rest (i + 1) entry.lastAccessed (some i)
      else oldestSlot rest (i + 1) oldest target

def Cache.oldest (c : Cache) : Option Nat := oldestSlot c.entries 0 0x7fffffff none

def Cache.get (c : Cache) (id : CString) (maxLen : Nat) (now : Seconds) : Option (List UInt8 × Cache) := do
  let i ← c.find id
  let entry ← c.entries[i]?.join
  some (entry.responsePayload.val.take (maxLen - 1), c.set i { entry with lastAccessed := now })

def strcpyS (size : Nat) (src : CString) : Option (Field size) :=
  if h : src.val.length < size then some ⟨src.val, src.property, h⟩ else none

def cut (response : List UInt8) : { s : List UInt8 // s.length < 1024 } :=
  ⟨response.take 1023, Nat.lt_succ_of_le (List.length_take_le 1023 response)⟩

def Cache.put (c : Cache) (id : CString) (response : List UInt8) (now : Seconds) : Option Cache :=
  match (c.find id).or c.oldest with
  | none => some c
  | some i => (strcpyS 40 id).map fun commandId => c.set i ⟨commandId, cut response, now⟩

section Slots

variable {c : Cache} {id : CString} {i j : Nat} {entry other : CacheEntry}

def Cache.At (c : Cache) (i : Nat) (entry : CacheEntry) : Prop := c.entries[i]? = some (some entry)

theorem at_set_self (hi : i < dedupCacheSize) : (c.set i entry).At i entry := by
  unfold Cache.At Cache.set
  rw [List.getElem?_set_self (by rw [c.size]; exact hi)]

theorem at_set_ne (h : j ≠ i) : (c.set i entry).At j other ↔ c.At j other := by
  unfold Cache.At Cache.set
  rw [List.getElem?_set_ne (Ne.symm h)]

theorem at_unique (h : c.At i entry) (h' : c.At i other) : entry = other :=
  Option.some.inj (Option.some.inj (h.symm.trans h'))

theorem at_lt (h : c.At i entry) : i < dedupCacheSize := by
  rw [← c.size]
  exact (List.getElem?_eq_some_iff.mp h).1

theorem find_some (h : c.find id = some i) : ∃ entry, c.At i entry ∧ entry.commandId.val = id.val := by
  unfold Cache.find at h
  obtain ⟨hlt, hnamed, -⟩ := List.findIdx?_eq_some_iff_getElem.mp h
  cases hslot : c.entries[i] with
  | none =>
      rw [hslot] at hnamed
      cases hnamed
  | some entry =>
      rw [hslot] at hnamed
      exact ⟨entry, List.getElem?_eq_some_iff.mpr ⟨hlt, hslot⟩, by simpa [named] using hnamed⟩

theorem find_none (h : c.find id = none) (hat : c.At i entry) : entry.commandId.val ≠ id.val := by
  unfold Cache.find at h
  intro hid
  have hmem : some entry ∈ c.entries := List.mem_of_getElem? hat
  have hnot := List.findIdx?_eq_none_iff.mp h _ hmem
  simp [named, hid] at hnot

theorem init_at : ¬ Cache.init.At i entry := by
  unfold Cache.At Cache.init
  intro h
  have hmem := List.mem_of_getElem? h
  simp at hmem

def Picks (slots : List (Option CacheEntry)) (start : Nat) (target picked : Option Nat) : Prop :=
  (∃ j, picked = some (start + j) ∧ slots[j]? = some none) ∨
    (∀ slot ∈ slots, slot ≠ none) ∧ (picked = target ∨ ∃ j, picked = some (start + j) ∧ j < slots.length)

theorem Picks.cons {slots : List (Option CacheEntry)} {start : Nat} {target target' picked : Option Nat}
    (h : Picks slots (start + 1) target' picked) (htarget : target' = target ∨ target' = some start) :
    Picks (some entry :: slots) start target picked := by
  rcases h with ⟨j, hpicked, hfree⟩ | ⟨hused, hkept | ⟨j, hpicked, hlt⟩⟩
  · exact .inl ⟨j + 1, by rw [hpicked, Nat.add_right_comm, Nat.add_assoc], hfree⟩
  · refine .inr ⟨by simpa using hused, ?_⟩
    rcases htarget with rfl | rfl
    · exact .inl hkept
    · exact .inr ⟨0, hkept, Nat.zero_lt_succ _⟩
  · exact .inr ⟨by simpa using hused, .inr ⟨j + 1, by rw [hpicked, Nat.add_right_comm, Nat.add_assoc], Nat.succ_lt_succ hlt⟩⟩

theorem oldestSlot_picks (slots : List (Option CacheEntry)) (start oldest : Nat) (target : Option Nat) :
    Picks slots start target (oldestSlot slots start oldest target) := by
  induction slots generalizing start oldest target with
  | nil => exact .inr ⟨fun _ h => absurd h List.not_mem_nil, .inl rfl⟩
  | cons slot rest ih =>
      cases slot with
      | none => exact .inl ⟨0, rfl, rfl⟩
      | some entry =>
          rw [oldestSlot]
          split
          · exact (ih (start + 1) entry.lastAccessed (some start)).cons (.inr rfl)
          · exact (ih (start + 1) oldest target).cons (.inl rfl)

theorem used_at (hall : ∀ slot ∈ c.entries, slot ≠ none) {j : Nat} (hj : j < dedupCacheSize) : ∃ entry, c.At j entry := by
  have hlt : j < c.entries.length := by
    rw [c.size]
    exact hj
  obtain ⟨entry, hentry⟩ := Option.ne_none_iff_exists'.mp (hall _ (List.getElem_mem hlt))
  exact ⟨entry, List.getElem?_eq_some_iff.mpr ⟨hlt, hentry⟩⟩

theorem oldest_cases (c : Cache) : ∃ i, c.oldest = some i ∧ i < dedupCacheSize ∧
    (c.entries[i]? = some none ∨ ∀ j, j < dedupCacheSize → ∃ entry, c.At j entry) := by
  have hpicks := oldestSlot_picks c.entries 0 0x7fffffff none
  change Picks c.entries 0 none c.oldest at hpicks
  rcases hpicks with ⟨j, hpicked, hfree⟩ | ⟨hused, hnone | ⟨j, hpicked, hlt⟩⟩
  · rw [Nat.zero_add] at hpicked
    exact ⟨j, hpicked, by rw [← c.size]; exact (List.getElem?_eq_some_iff.mp hfree).1, .inl hfree⟩
  · exfalso
    obtain ⟨entries, hsize⟩ := c
    cases entries with
    | nil => cases hsize
    | cons slot rest =>
        obtain ⟨entry, rfl⟩ := Option.ne_none_iff_exists'.mp (hused slot List.mem_cons_self)
        simp only [Cache.oldest, oldestSlot, if_pos entry.lastAccessed.isLt] at hnone
        rcases oldestSlot_picks rest 1 entry.lastAccessed (some 0) with ⟨j, hpicked, -⟩ | ⟨-, hkept | ⟨j, hpicked, -⟩⟩
        · simp [hpicked] at hnone
        · simp [hkept] at hnone
        · simp [hpicked] at hnone
  · rw [Nat.zero_add] at hpicked
    exact ⟨j, hpicked, by rw [← c.size]; exact hlt, .inr fun j hj => used_at hused hj⟩

end Slots

section Ids

def Cache.Distinct (c : Cache) : Prop :=
  ∀ i j entry other, c.At i entry → c.At j other → entry.commandId.val = other.commandId.val → i = j

variable {c c' : Cache} {id : CString} {i : Nat} {entry : CacheEntry} {response : List UInt8} {now : Seconds}

theorem init_distinct : Cache.init.Distinct := fun _ _ _ _ h => absurd h init_at

theorem Cache.Distinct.set (h : c.Distinct) (hi : i < dedupCacheSize)
    (hnew : ∀ j other, j ≠ i → c.At j other → other.commandId.val ≠ entry.commandId.val) : (c.set i entry).Distinct := by
  intro j k first second hj hk hid
  by_cases hji : j = i
  · by_cases hki : k = i
    · rw [hji, hki]
    · subst hji
      rw [at_set_ne hki] at hk
      rw [at_unique hj (at_set_self hi)] at hid
      exact absurd hid.symm (hnew k second hki hk)
  · rw [at_set_ne hji] at hj
    by_cases hki : k = i
    · subst hki
      rw [at_unique hk (at_set_self hi)] at hid
      exact absurd hid (hnew j first hji hj)
    · rw [at_set_ne hki] at hk
      exact h j k first second hj hk hid

theorem get_cases {maxLen : Nat} {found : List UInt8} (h : c.get id maxLen now = some (found, c')) :
    ∃ i entry, c.At i entry ∧ entry.commandId.val = id.val ∧ found = entry.responsePayload.val.take (maxLen - 1) ∧
      c' = c.set i { entry with lastAccessed := now } := by
  simp only [Cache.get, Option.bind_eq_bind, Option.bind_eq_some_iff, Option.some.injEq, Prod.mk.injEq] at h
  obtain ⟨i, hfind, entry, hentry, rfl, rfl⟩ := h
  have hat : c.At i entry := Option.join_eq_some_iff.mp hentry
  obtain ⟨entry', hat', hid⟩ := find_some hfind
  obtain rfl := at_unique hat hat'
  exact ⟨i, entry, hat, hid, rfl, rfl⟩

theorem get_none {maxLen : Nat} (h : c.get id maxLen now = none) : c.find id = none := by
  cases hfind : c.find id with
  | none => rfl
  | some i =>
      obtain ⟨entry, hat, -⟩ := find_some hfind
      have hjoin : c.entries[i]?.join = some entry := Option.join_eq_some_iff.mpr hat
      simp [Cache.get, hfind, hjoin] at h

theorem put_cases (hfind : c.find id = none) (hid : id.val.length < 40) (response : List UInt8) (now : Seconds) :
    ∃ i, i < dedupCacheSize ∧
      c.put id response now = some (c.set i ⟨⟨id.val, id.property, hid⟩, cut response, now⟩) ∧
      (c.entries[i]? = some none ∨ c.oldest = some i ∧ ∀ j, j < dedupCacheSize → ∃ entry, c.At j entry) := by
  obtain ⟨i, holdest, hi, hslot⟩ := oldest_cases c
  have hput : c.put id response now = some (c.set i ⟨⟨id.val, id.property, hid⟩, cut response, now⟩) := by
    unfold Cache.put strcpyS
    rw [hfind, Option.none_or, holdest]
    dsimp only
    rw [dif_pos hid]
    rfl
  exact ⟨i, hi, hput, hslot.imp (fun hfree => hfree) fun hfull => ⟨holdest, hfull⟩⟩

end Ids

end EtranProcessing.Desk.DedupCache
