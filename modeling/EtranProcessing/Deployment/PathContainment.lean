import EtranProcessing.Deployment.Paths

namespace EtranProcessing.Deployment.PathContainment

open Library.Segments Paths

def devices : List Wide :=
  ["con", "prn", "aux", "nul", "conin$", "conout$"].map wide ++
    ["com", "lpt"].flatMap fun device => "123456789".toList.map fun port => wide device ++ [UInt16.ofNat port.toNat]

def stem (segment : Wide) : Wide := segment.takeWhile (· ≠ 46)

def ReservedStem (segment : Wide) : Prop := (stem segment).map lower ∈ devices

/-- A name that stays in its directory and is no device, stream or alias of another name. -/
structure GoodSegment (s : Wide) : Prop where
  nonempty : s ≠ []
  dot : s ≠ wide "."
  dotDot : s ≠ wide ".."
  last : ∀ c ∈ s.getLast?, c ≠ 46 ∧ c ≠ 32
  chars : ∀ c ∈ s, 32 ≤ c ∧ c ∉ wide "/:\"<>|?*" ∧ c ≠ slash
  stem : ¬ ReservedStem s

def Inside (root path : Wide) : Prop :=
  ∃ segments, segments ≠ [] ∧ (∀ s ∈ segments, GoodSegment s) ∧ path = extend slash root segments

def OnDrive (path : Wide) : Prop :=
  ∃ drive segments, letter drive = true ∧ (∀ s ∈ segments, GoodSegment s) ∧ path = extend slash [drive, 58] segments

def Nested (root path : Wide) : Prop := Under slash lower root path

section Folding

theorem toNat_lower (c : UInt16) :
    (lower c).toNat = if 65 ≤ c.toNat ∧ c.toNat ≤ 90 then c.toNat + 32 else c.toNat := by
  simp only [lower, UInt16.le_iff_toNat_le]
  split_ifs with h h' h'
  · simp only [UInt16.reduceToNat] at h
    simp only [UInt16.toNat_add, UInt16.reduceToNat]
    omega
  · exact absurd h h'
  · exact absurd h' h
  · rfl

theorem letter_iff (c : UInt16) :
    letter c = true ↔ (97 ≤ c.toNat ∧ c.toNat ≤ 122) ∨ (65 ≤ c.toNat ∧ c.toNat ≤ 90) := by
  simp [letter, UInt16.le_iff_toNat_le]

theorem lower_of_not_letter {c : UInt16} (h : letter c = false) : lower c = c := by
  have hc : ¬ letter c = true := by simp [h]
  rw [letter_iff] at hc
  apply UInt16.toNat_inj.mp
  rw [toNat_lower, if_neg (by omega)]

theorem eq_of_lower {c d : UInt16} (h : lower c = lower d) : c = d ∨ (letter c = true ∧ letter d = true) := by
  by_cases hc : letter c = true ∧ letter d = true
  · exact .inr hc
  · refine .inl (UInt16.toNat_inj.mp ?_)
    have hnat := congrArg UInt16.toNat h
    simp only [toNat_lower, letter_iff] at hnat hc
    split_ifs at hnat <;> omega

theorem eq_of_lower_plain {c d : UInt16} (hd : letter d = false) (h : lower c = lower d) : c = d :=
  (eq_of_lower h).resolve_right fun hletters => by simp [hd] at hletters

theorem lower_slash : lower slash = slash := by decide

end Folding

section Names

theorem take_stem (segment : Wide) : segment.take (stem segment).length = stem segment :=
  (List.prefix_iff_eq_take.mp (List.takeWhile_prefix _)).symm

theorem wcsnicmp_of_stem {segment name device : Wide} (h : (stem segment).map lower = device)
    (hname : name.map lower = device) : (stem segment).length = name.length ∧ wcsnicmp segment name name.length = true := by
  have hlength : (stem segment).length = name.length := by
    rw [← List.length_map lower, h, ← hname, List.length_map]
  refine ⟨hlength, ?_⟩
  rw [wcsnicmp, wcsicmp, ← hlength, take_stem, hlength, List.take_length, h, hname, beq_self_eq_true]

theorem wcsnicmp_of_port {segment name device : Wide} {port : UInt16} (hlength : name.length = 3)
    (h : (stem segment).map lower = device ++ [port]) (hname : name.map lower = device) (hport : 49 ≤ port ∧ port ≤ 57) :
    (stem segment).length = 4 ∧ wcsnicmp segment name 3 = true ∧ ∃ c ∈ segment[3]?, 49 ≤ c ∧ c ≤ 57 := by
  have hdevice : device.length = 3 := by rw [← hname, List.length_map, hlength]
  have hstem : (stem segment).length = 4 := by
    rw [← List.length_map lower, h, List.length_append, hdevice]
    rfl
  have hthree : segment.take 3 = (stem segment).take 3 := by
    rw [← take_stem segment, hstem, List.take_take]
    rfl
  have hlast : segment[3]? = (stem segment)[3]? := by
    rw [← take_stem segment, hstem, List.getElem?_take_of_lt (by decide)]
  refine ⟨hstem, ?_, ?_⟩
  · rw [wcsnicmp, wcsicmp, hthree, List.map_take, h, List.take_left' hdevice, ← hlength, List.take_length, hname,
      beq_self_eq_true]
  · have hmapped : ((stem segment).map lower)[3]? = some port := by
      rw [h, List.getElem?_append_right (by omega), hdevice]
      rfl
    obtain ⟨c, hc, hlower⟩ := Option.map_eq_some_iff.mp (List.getElem?_map ▸ hmapped)
    have hplain : letter port = false := by
      have := hport.1
      have := hport.2
      by_contra hletter
      have := (letter_iff port).mp (by simpa using hletter)
      simp only [UInt16.le_iff_toNat_le, UInt16.reduceToNat] at *
      omega
    have hsame : c = port := eq_of_lower_plain hplain (by rw [hlower, lower_of_not_letter hplain])
    exact ⟨c, hlast ▸ hc, hsame ▸ hport⟩

theorem reservedName_iff (segment : Wide) : reservedName segment = true ↔
    ((stem segment).length = 3 ∧ (wcsnicmp segment (wide "CON") 3 = true ∨ wcsnicmp segment (wide "PRN") 3 = true ∨
      wcsnicmp segment (wide "AUX") 3 = true ∨ wcsnicmp segment (wide "NUL") 3 = true)) ∨
    ((stem segment).length = 4 ∧ (wcsnicmp segment (wide "COM") 3 = true ∨ wcsnicmp segment (wide "LPT") 3 = true) ∧
      ∃ c ∈ segment[3]?, 49 ≤ c ∧ c ≤ 57) ∨
    ((stem segment).length = 6 ∧ wcsnicmp segment (wide "CONIN$") 6 = true) ∨
    ((stem segment).length = 7 ∧ wcsnicmp segment (wide "CONOUT$") 7 = true) := by
  change (if _ then true else if _ then true else _) = true ↔ _
  change (if (stem segment).length = 3 ∧ _ then true else if (stem segment).length = 4 ∧ _ then true else
    decide ((stem segment).length = 6) && _ || decide ((stem segment).length = 7) && _) = true ↔ _
  simp only [Bool.or_eq_true, or_assoc]
  split_ifs with hthree hfour
  · exact iff_of_true rfl (.inl hthree)
  · exact iff_of_true rfl (.inr (.inl hfour))
  · simp only [hthree, hfour, false_or, Bool.or_eq_true, Bool.and_eq_true, decide_eq_true_eq]

theorem reservedName_of_stem {segment : Wide} (h : ReservedStem segment) : reservedName segment = true := by
  rw [reservedName_iff]
  have hname (name : Wide) {device : Wide} (hdevice : device = (stem segment).map lower) (hname : name.map lower = device) :
      (stem segment).length = name.length ∧ wcsnicmp segment name name.length = true := wcsnicmp_of_stem hdevice.symm hname
  rcases List.mem_append.mp h with h | h
  · obtain ⟨text, htext, hdevice⟩ := List.mem_map.mp h
    simp only [List.mem_cons, List.not_mem_nil, or_false] at htext
    rcases htext with rfl | rfl | rfl | rfl | rfl | rfl
    · exact .inl ((hname (wide "CON") hdevice (by decide)).imp_right .inl)
    · exact .inl ((hname (wide "PRN") hdevice (by decide)).imp_right (.inr ∘ .inl))
    · exact .inl ((hname (wide "AUX") hdevice (by decide)).imp_right (.inr ∘ .inr ∘ .inl))
    · exact .inl ((hname (wide "NUL") hdevice (by decide)).imp_right (.inr ∘ .inr ∘ .inr))
    · exact .inr (.inr (.inl (hname (wide "CONIN$") hdevice (by decide))))
    · exact .inr (.inr (.inr (hname (wide "CONOUT$") hdevice (by decide))))
  · obtain ⟨device, hdevice, hport⟩ := List.mem_flatMap.mp h
    obtain ⟨port, hdigit, hstem⟩ := List.mem_map.mp hport
    have hrange (port : Char) (hport : port ∈ "123456789".toList) :
        49 ≤ UInt16.ofNat port.toNat ∧ UInt16.ofNat port.toNat ≤ 57 := by
      have hall : ("123456789".toList.all fun port =>
          decide (49 ≤ UInt16.ofNat port.toNat ∧ UInt16.ofNat port.toNat ≤ 57)) = true := by decide
      exact of_decide_eq_true (List.all_eq_true.mp hall port hport)
    simp only [List.mem_cons, List.not_mem_nil, or_false] at hdevice
    rcases hdevice with rfl | rfl
    · obtain ⟨hlength, hsame, hnumber⟩ :=
        @wcsnicmp_of_port segment (wide "COM") _ _ (by decide) hstem.symm (by decide) (hrange port hdigit)
      exact .inr (.inl ⟨hlength, .inl hsame, hnumber⟩)
    · obtain ⟨hlength, hsame, hnumber⟩ :=
        @wcsnicmp_of_port segment (wide "LPT") _ _ (by decide) hstem.symm (by decide) (hrange port hdigit)
      exact .inr (.inl ⟨hlength, .inr hsame, hnumber⟩)

end Names

section Segments

theorem lower_eq_slash {c : UInt16} (h : lower c = lower slash) : c = slash := eq_of_lower_plain (by decide) h

variable {s : Wide}

theorem none_of_any {p : UInt16 → Bool} (h : s.any p = false) : ∀ c ∈ s, p c = false := fun c hc => by
  simpa using List.any_eq_false.mp h c hc

theorem plain_forbidden : ∀ c ∈ wide "/:\"<>|?*", letter c = false := none_of_any (by decide)

theorem letter_not_control {c : UInt16} (h : letter c = true) : 32 ≤ c := by
  rw [letter_iff] at h
  simp only [UInt16.le_iff_toNat_le, UInt16.reduceToNat]
  omega

theorem stem_fold {s t : Wide} (h : s.map lower = t.map lower) : (stem s).map lower = (stem t).map lower := by
  induction s generalizing t with
  | nil =>
      obtain rfl : t = [] := by simpa using h.symm
      rfl
  | cons c s ih =>
      cases t with
      | nil => simp at h
      | cons d t =>
          simp only [List.map_cons, List.cons.injEq] at h
          have hdot : c = 46 ↔ d = 46 := by
            constructor
            · rintro rfl
              exact eq_of_lower_plain (by decide) h.1.symm
            · rintro rfl
              exact eq_of_lower_plain (by decide) h.1
          by_cases hc : c = 46
          · simp [stem, hc, hdot.mp hc]
          · have hd : d ≠ 46 := fun hd => hc (hdot.mpr hd)
            simpa [stem, hc, hd, h.1] using ih h.2

theorem eq_of_fold_plain {s t : Wide} (ht : ∀ c ∈ t, letter c = false) (h : s.map lower = t.map lower) : s = t := by
  induction t generalizing s with
  | nil => simpa using h
  | cons d t ih =>
      obtain ⟨c, rest, rfl, hc, hrest⟩ := List.map_eq_cons_iff.mp h
      rw [eq_of_lower_plain (ht d List.mem_cons_self) hc, ih (fun c hc => ht c (List.mem_cons_of_mem d hc)) hrest]

theorem GoodSegment.fold {s t : Wide} (hs : GoodSegment s) (h : t.map lower = s.map lower) : GoodSegment t where
  nonempty := by
    rintro rfl
    exact hs.nonempty (by simpa using h.symm)
  dot := by
    rintro rfl
    exact hs.dot (eq_of_fold_plain (none_of_any (by decide)) h.symm)
  dotDot := by
    rintro rfl
    exact hs.dotDot (eq_of_fold_plain (none_of_any (by decide)) h.symm)
  last := by
    intro c hc
    have hlast : (s.getLast?).map lower = some (lower c) := by
      rw [← List.getLast?_map, ← h, List.getLast?_map, hc, Option.map_some]
    obtain ⟨d, hd, hlower⟩ := Option.map_eq_some_iff.mp hlast
    have hplain := hs.last d hd
    constructor
    · rintro rfl
      exact hplain.1 (eq_of_lower_plain (by decide) hlower)
    · rintro rfl
      exact hplain.2 (eq_of_lower_plain (by decide) hlower)
  chars := by
    intro c hc
    obtain ⟨d, hd, hlower⟩ := List.mem_map.mp (h ▸ List.mem_map_of_mem hc)
    rcases eq_of_lower hlower with rfl | ⟨-, hletter⟩
    · exact hs.chars d hd
    · refine ⟨letter_not_control hletter, ?_, ?_⟩
      · intro hforbidden
        simp [plain_forbidden c hforbidden] at hletter
      · rintro rfl
        exact absurd hletter (by decide)
  stem := by
    intro hreserved
    exact hs.stem ((congrArg (· ∈ devices) (stem_fold h)).mp hreserved)

theorem not_mem_slash (hs : GoodSegment s) : slash ∉ s := fun h => (hs.chars slash h).2.2 rfl

theorem not_mem_lower_slash (hs : GoodSegment s) : slash ∉ s.map lower := by
  intro h
  obtain ⟨c, hc, hlower⟩ := List.mem_map.mp h
  obtain rfl := lower_eq_slash (hlower.trans lower_slash.symm)
  exact not_mem_slash hs hc

theorem goodSegment_of_pass (hnonempty : s ≠ []) (hlast : endsBadly s = false) (hname : reservedName s = false)
    (hchars : ∀ c ∈ s, c ≠ slash ∧ forbidden c = false) : GoodSegment s where
  nonempty := hnonempty
  dot := by
    rintro rfl
    exact absurd hlast (by decide)
  dotDot := by
    rintro rfl
    exact absurd hlast (by decide)
  last := by
    intro c hc
    simpa [endsBadly, Option.mem_def.mp hc] using hlast
  chars := by
    intro c hc
    obtain ⟨hslash, hplain⟩ := hchars c hc
    simp only [forbidden, Bool.or_eq_false_iff, decide_eq_false_iff_not, UInt16.not_lt, List.contains_eq_mem] at hplain
    exact ⟨hplain.1, hplain.2, hslash⟩
  stem := by
    intro hreserved
    simp [reservedName_of_stem hreserved] at hname

theorem rootSegment_good (h : rootSegment s = true) (hchars : ∀ c ∈ s, c ≠ slash ∧ forbidden c = false) :
    GoodSegment s := by
  simp only [rootSegment, Bool.and_eq_true, Bool.not_eq_true', List.isEmpty_eq_false_iff] at h
  exact goodSegment_of_pass h.1.1 h.1.2 h.2 hchars

theorem fileSegment_good (h : fileSegment s = true) (hchars : ∀ c ∈ s, c ≠ slash ∧ forbidden c = false) :
    GoodSegment s := by
  simp only [fileSegment, Bool.and_eq_true, Bool.not_eq_true', List.isEmpty_eq_false_iff] at h
  exact goodSegment_of_pass h.1.1.1.1 h.1.1.1.2 h.1.1.2 hchars

theorem digit_iff (c : UInt16) : digit c = true ↔ 48 ≤ c.toNat ∧ c.toNat ≤ 57 := by
  simp [digit, UInt16.le_iff_toNat_le]

theorem forbidden_of {c : UInt16} {p : UInt16 → Bool} (hnone : ∀ d ∈ wide "/:\"<>|?*", p d = false) (hp : p c = true)
    (hcontrol : 32 ≤ c.toNat) : forbidden c = false := by
  simp only [forbidden, Bool.or_eq_false_iff, decide_eq_false_iff_not, List.contains_eq_mem]
  refine ⟨?_, fun hc => by simp [hnone c hc] at hp⟩
  simp only [UInt16.lt_iff_toNat_lt, UInt16.reduceToNat]
  omega

theorem simpleName_good (h : simpleName s = true) : GoodSegment s := by
  unfold simpleName at h
  split_ifs at h with hdots hname
  simp only [not_or] at hdots
  rw [List.all_eq_true] at h
  refine goodSegment_of_pass hdots.1 ?_ (by simpa using hname) ?_
  · cases hlast : s.getLast? with
    | none => simp [endsBadly, hlast]
    | some c =>
        have hc := h c (List.mem_of_getLast? hlast)
        simp only [endsBadly, hlast, Option.any_some, Bool.or_eq_false_iff, beq_eq_false_iff_ne]
        constructor
        · rintro rfl
          exact absurd hc (by decide)
        · rintro rfl
          exact absurd hc (by decide)
  · intro c hc
    refine ⟨?_, @forbidden_of c (fun c => letter c || digit c || c == 95 || c == 45) (none_of_any (by decide)) (h c hc) ?_⟩
    · rintro rfl
      exact absurd (h slash hc) (by decide)
    · have hclass := h c hc
      simp only [Bool.or_eq_true, letter_iff, digit_iff, beq_iff_eq] at hclass
      rcases hclass with ((_ | _) | rfl) | rfl
      · omega
      · omega
      · decide
      · decide

end Segments

section Versions

theorem versionPart_digits {value rest : Wide} (h : versionPart value = some rest) :
    ∃ number, number ≠ [] ∧ (∀ c ∈ number, digit c = true) ∧ value = number ++ rest := by
  unfold versionPart at h
  split at h
  · exact absurd h (by simp)
  · next c tail =>
      split_ifs at h with hdigit hzero hlong
      obtain rfl := Option.some.inj h
      refine ⟨(c :: tail).takeWhile digit, ?_, fun d hd => List.mem_takeWhile_imp hd, List.takeWhile_append_dropWhile.symm⟩
      simp [hdigit]

theorem versionDot_some {value rest : Wide} (h : versionDot value = some rest) : value = 46 :: rest := by
  unfold versionDot at h
  split at h
  · obtain rfl := Option.some.inj h
    rfl
  · exact absurd h (by simp)

variable {value : Wide}

theorem releaseVersion_numbers (h : releaseVersion value = true) :
    ∃ major minor patch : Wide, (∀ c ∈ major ++ minor ++ patch, digit c = true) ∧ major ≠ [] ∧ patch ≠ [] ∧
      value = major ++ 46 :: (minor ++ 46 :: patch) := by
  simp only [releaseVersion, beq_iff_eq, Option.bind_eq_bind, Option.bind_eq_some_iff] at h
  obtain ⟨rest₄, ⟨rest₃, ⟨rest₂, ⟨rest₁, hmajor, hdot₁⟩, hminor⟩, hdot₂⟩, hpatch⟩ := h
  obtain ⟨major, hne, hdigits, rfl⟩ := versionPart_digits hmajor
  obtain rfl := versionDot_some hdot₁
  obtain ⟨minor, -, hdigits', rfl⟩ := versionPart_digits hminor
  obtain rfl := versionDot_some hdot₂
  obtain ⟨patch, hne', hdigits'', rfl⟩ := versionPart_digits hpatch
  refine ⟨major, minor, patch, ?_, hne, hne', by simp⟩
  intro c hc
  simp only [List.mem_append] at hc
  rcases hc with (hc | hc) | hc
  · exact hdigits c hc
  · exact hdigits' c hc
  · exact hdigits'' c hc

theorem version_chars (h : releaseVersion value = true) : ∀ c ∈ value, digit c = true ∨ c = 46 := by
  obtain ⟨major, minor, patch, hdigits, -, -, rfl⟩ := releaseVersion_numbers h
  intro c hc
  simp only [List.mem_append, List.mem_cons] at hc hdigits
  rcases hc with hc | rfl | hc | rfl | hc
  · exact .inl (hdigits c (.inl (.inl hc)))
  · exact .inr rfl
  · exact .inl (hdigits c (.inl (.inr hc)))
  · exact .inr rfl
  · exact .inl (hdigits c (.inr hc))

theorem digit_not_letter {c : UInt16} (h : digit c = true) : letter c = false := by
  rw [digit_iff] at h
  by_contra hletter
  have := (letter_iff c).mp (by simpa using hletter)
  omega

theorem version_plain (h : releaseVersion value = true) : ∀ c ∈ value, letter c = false := by
  intro c hc
  rcases version_chars h c hc with hdigit | rfl
  · exact digit_not_letter hdigit
  · decide

theorem devices_head : ∀ device ∈ devices, device.head?.any letter = true := by decide

theorem releaseVersion_good (h : releaseVersion value = true) : GoodSegment value := by
  have hchars := version_chars h
  have hplain := version_plain h
  obtain ⟨major, minor, patch, hdigits, hmajor, hpatch, rfl⟩ := releaseVersion_numbers h
  have hlast : (major ++ 46 :: (minor ++ 46 :: patch)).getLast? = patch.getLast? := by
    rw [List.getLast?_append, List.getLast?_cons, List.getLast?_append, List.getLast?_cons]
    cases hend : patch.getLast? with
    | none => exact absurd (List.getLast?_eq_none_iff.mp hend) hpatch
    | some c => simp
  have hends : ∀ c ∈ (major ++ 46 :: (minor ++ 46 :: patch)).getLast?, digit c = true := by
    rw [hlast]
    exact fun c hc => hdigits c (List.mem_append_right _ (List.mem_of_getLast? hc))
  constructor
  · simp
  · intro hdot
    exact absurd (hends 46 (by rw [hdot]; decide)) (by decide)
  · intro hdots
    exact absurd (hends 46 (by rw [hdots]; decide)) (by decide)
  · intro c hc
    constructor
    · rintro rfl
      exact absurd (hends 46 hc) (by decide)
    · rintro rfl
      exact absurd (hends 32 hc) (by decide)
  · intro c hc
    rcases hchars c hc with hdigit | rfl
    · have hnat := (digit_iff c).mp hdigit
      have hforbidden := @forbidden_of c digit (none_of_any (by decide)) hdigit (by omega)
      simp only [forbidden, Bool.or_eq_false_iff, decide_eq_false_iff_not, UInt16.not_lt, List.contains_eq_mem] at hforbidden
      refine ⟨hforbidden.1, hforbidden.2, ?_⟩
      · rintro rfl
        exact absurd hdigit (by decide)
    · decide
  · intro hreserved
    have hhead := devices_head _ hreserved
    cases hstem : stem (major ++ 46 :: (minor ++ 46 :: patch)) with
    | nil => simp [hstem] at hhead
    | cons c rest =>
        have hc : c ∈ major ++ 46 :: (minor ++ 46 :: patch) :=
          List.takeWhile_subset _ (hstem ▸ List.mem_cons_self : c ∈ stem _)
        have hletter := hplain c hc
        simp [hstem, lower_of_not_letter hletter, hletter] at hhead

end Versions

section Containment

variable {sys : System}

theorem within_iff (root path : Wide) : within root path = true ↔ Nested root path := by
  simp only [within, wcsnicmp, wcsicmp, List.take_length, Bool.and_eq_true, Bool.or_eq_true, beq_iff_eq, List.isEmpty_iff]
  constructor
  · rintro ⟨hsame, hend⟩
    refine ⟨(path.drop root.length).map lower, ?_, ?_⟩
    · rw [hsame, ← List.map_append, List.take_append_drop]
    · rcases hend with hend | hend
      · exact .inl (by rw [hend]; rfl)
      · have hsplit := @List.drop_eq_getElem?_toList_append _ path root.length
        rw [hend] at hsplit
        exact .inr ⟨_, by rw [hsplit]; rfl⟩
  · rintro ⟨rest, hpath, hshape⟩
    have hdrop : (path.drop root.length).map lower = rest := by
      rw [List.map_drop, hpath, List.drop_left' (List.length_map lower)]
    refine ⟨by rw [List.map_take, hpath, List.take_left' (List.length_map lower)], ?_⟩
    rcases hshape with rfl | ⟨tail, rfl⟩
    · exact .inl (by simpa using hdrop)
    · obtain ⟨c, after, hafter, hc, -⟩ := List.map_eq_cons_iff.mp hdrop
      right
      rw [← List.head?_drop, hafter, lower_eq_slash (hc.trans lower_slash.symm)]
      rfl

theorem join_some {base leaf out : Wide} (h : join base leaf = some out) : out = base ++ slash :: leaf := by
  unfold join at h
  split_ifs at h
  exact (Option.some.inj h).symm

theorem inside_join {base s out : Wide} (hs : GoodSegment s) (h : join base s = some out) : Inside base out :=
  ⟨[s], by simp, by simpa using hs, by rw [join_some h, extend_singleton]⟩

theorem Inside.trans {root directory path : Wide} (h : Inside root directory) (h' : Inside directory path) : Inside root path := by
  obtain ⟨first, -, hfirst, rfl⟩ := h
  obtain ⟨second, hne, hsecond, rfl⟩ := h'
  refine ⟨first ++ second, by simp [hne], ?_, (extend_append root first second).symm⟩
  intro s hs
  rcases List.mem_append.mp hs with hs | hs
  · exact hfirst s hs
  · exact hsecond s hs

theorem Inside.nested {root path : Wide} (h : Inside root path) : Nested root path := by
  obtain ⟨segments, -, -, rfl⟩ := h
  exact under_extend lower_slash root segments

theorem absoluteRoot_onDrive {value out : Wide} (h : absoluteRoot sys value = some out) : OnDrive out := by
  unfold absoluteRoot at h
  split_ifs at h with hlong
  split at h
  · next drive rest =>
      split_ifs at h with hdrive hpass
      split at h
      · exact absurd h (by simp)
      · next out' hfull =>
          split_ifs at h with hsame
          obtain rfl := Option.some.inj h
          have hfold : out'.map lower = (drive :: 58 :: 92 :: rest).map lower := by
            exact (beq_iff_eq.mp hsame.2.2).symm
          obtain ⟨segments, hsplit, -, hgood⟩ :=
            segmentsPass_split rest [] (by simp) (by simpa using hpass)
          have hvalue : drive :: 58 :: 92 :: rest = extend slash [drive, 58] segments := by
            simpa [extend] using hsplit
          rw [hvalue] at hfold
          obtain ⟨root', segments', rfl, hroot, hsegments⟩ := extend_of_fold (fun c => lower_eq_slash) segments hfold
          obtain ⟨drive', more, rfl, hdrive', hmore⟩ := List.map_eq_cons_iff.mp hroot
          obtain rfl : more = [58] := eq_of_fold_plain (none_of_any (by decide)) hmore
          simp only [not_or, Bool.not_eq_false] at hdrive
          have hletter : letter drive' = true := by
            rcases eq_of_lower hdrive' with rfl | ⟨hletter, -⟩
            · exact hdrive.1
            · exact hletter
          refine ⟨drive', segments', hletter, ?_, rfl⟩
          intro s' hs'
          obtain ⟨s, hs, hsame⟩ := List.mem_map.mp (hsegments ▸ List.mem_map_of_mem hs')
          obtain ⟨hpass, hchars⟩ := hgood s hs
          exact (rootSegment_good hpass hchars).fold hsame.symm
  · exact absurd h (by simp)

/-- What the layout of two roots promises. -/
structure Contained (layout : Layout) (version : Wide) : Prop where
  accepted : releaseVersion version = true
  binaries : OnDrive layout.binaries
  data : OnDrive layout.data
  apart : ¬ Nested layout.binaries layout.data ∧ ¬ Nested layout.data layout.binaries
  named : layout.release = extend slash layout.binaries [wide "releases", version]
  release : Inside layout.binaries layout.release
  launchers : Inside layout.binaries layout.launchers
  config : Inside layout.data layout.config
  state : Inside layout.data layout.state
  logs : Inside layout.data layout.logs
  operations : Inside layout.data layout.operations
  cache : Inside layout.data layout.cache
  staging : Inside layout.data layout.staging

def directories : List Wide := ["releases", "bin", "config", "state", "logs", "update", "operations", "cache", "staging"].map wide

theorem directories_good : ∀ s ∈ directories, GoodSegment s := by
  intro s hs
  apply simpleName_good
  revert s
  decide

theorem inside_directory {base s out : Wide} (hs : s ∈ directories) (h : join base s = some out) : Inside base out :=
  inside_join (directories_good s hs) h

theorem inside_update {base s leaf out : Wide} (hs : s ∈ directories) (hleaf : leaf = wide "update" ++ slash :: s)
    (h : join base leaf = some out) : Inside base out := by
  refine ⟨[wide "update", s], by simp, ?_, ?_⟩
  · intro t ht
    simp only [List.mem_cons, List.not_mem_nil, or_false] at ht
    rcases ht with rfl | rfl
    · exact directories_good _ (by decide)
    · exact directories_good _ hs
  · rw [join_some h, hleaf]
    simp [extend]

theorem fromRoots_contained {binaries data version : Wide} {layout : Layout}
    (h : fromRoots sys binaries data version = some layout) : Contained layout version := by
  unfold fromRoots at h
  split_ifs at h with hversion
  simp only [Option.bind_eq_bind, Option.bind_eq_some_iff] at h
  obtain ⟨binaries', hbinaries, data', hdata, h⟩ := h
  split_ifs at h with hapart
  simp only [Option.bind_eq_some_iff, Option.some.injEq] at h
  obtain ⟨release, hrelease, launchers, hlaunchers, config, hconfig, state, hstate, logs, hlogs, operations, hoperations,
    cache, hcache, staging, hstaging, rfl⟩ := h
  simp only [Bool.or_eq_true, not_or, within_iff] at hapart
  have hnamed : release = extend slash binaries' [wide "releases", version] := by
    have hleaf : wide "releases\\" ++ version = wide "releases" ++ slash :: version := by
      rw [show wide "releases\\" = wide "releases" ++ [slash] by decide, List.append_assoc]
      rfl
    rw [join_some hrelease, hleaf]
    simp [extend]
  exact {
    accepted := by simpa using hversion
    binaries := absoluteRoot_onDrive hbinaries
    data := absoluteRoot_onDrive hdata
    apart := hapart
    named := hnamed
    release := by
      refine ⟨[wide "releases", version], by simp, ?_, hnamed⟩
      intro s hs
      simp only [List.mem_cons, List.not_mem_nil, or_false] at hs
      rcases hs with rfl | rfl
      · exact directories_good _ (by decide)
      · exact releaseVersion_good (by simpa using hversion)
    launchers := inside_directory (by decide) hlaunchers
    config := inside_directory (by decide) hconfig
    state := inside_directory (by decide) hstate
    logs := inside_directory (by decide) hlogs
    operations := @inside_update _ (wide "operations") _ _ (by decide) (by decide) hoperations
    cache := @inside_update _ (wide "cache") _ _ (by decide) (by decide) hcache
    staging := @inside_update _ (wide "staging") _ _ (by decide) (by decide) hstaging }

theorem relative_inside {root relative : Wide} (h : segmentsPass slash forbidden fileSegment [] relative = true) :
    Inside root (root ++ slash :: relative) := by
  obtain ⟨segments, hsplit, hne, hgood⟩ := segmentsPass_split relative [] (by simp) h
  refine ⟨segments, hne, fun s hs => fileSegment_good (hgood s hs).1 (hgood s hs).2, ?_⟩
  rw [← List.nil_append relative, hsplit]
  simp [extend]

theorem component_inside {release name relativeFile out : Wide} (h : component release name relativeFile = some out) :
    Inside release out ∧ segmentsPass slash forbidden fileSegment [] relativeFile = true := by
  unfold component at h
  split_ifs at h with hname hpass
  simp only [Option.bind_eq_bind, Option.bind_eq_some_iff] at h
  obtain ⟨directory, hdirectory, hout⟩ := h
  simp only [not_or, Bool.not_eq_false] at hname hpass
  rw [join_some hout]
  exact ⟨(inside_join (simpleName_good hname.1) hdirectory).trans (relative_inside hpass), hpass⟩

theorem dataPath_inside {layout : Layout} {relative out : Wide} (h : dataPath sys layout relative = some out) :
    Inside layout.data out ∧ ∃ version, Contained layout version := by
  unfold dataPath at h
  simp only [Option.bind_eq_bind, Option.bind_eq_some_iff] at h
  obtain ⟨⟨parent, version⟩, hsplit, expected, hexpected, h⟩ := h
  split_ifs at h with hsame
  simp only [Option.bind_eq_some_iff] at h
  obtain ⟨checked, hchecked, hout⟩ := h
  rw [not_not] at hsame
  rw [join_some hout]
  exact ⟨relative_inside (component_inside hchecked).2, version, hsame ▸ fromRoots_contained hexpected⟩

theorem OnDrive.parent {path parent leaf : Wide} (h : OnDrive path) (hsplit : rsplit slash path = some (parent, leaf)) :
    OnDrive parent := by
  obtain ⟨drive, segments, hdrive, hgood, rfl⟩ := h
  rcases List.eq_nil_or_concat' segments with rfl | ⟨before, s, rfl⟩
  · have hplain : slash ∉ [drive, 58] := by
      simp only [List.mem_cons, List.not_mem_nil, or_false, not_or]
      refine ⟨?_, by decide⟩
      rintro rfl
      exact absurd hdrive (by decide)
    rw [extend_nil, rsplit_none hplain] at hsplit
    exact absurd hsplit (by simp)
  · rw [rsplit_extend _ _ (not_mem_slash (hgood s (by simp)))] at hsplit
    obtain ⟨rfl, rfl⟩ := Prod.mk.inj (Option.some.inj hsplit)
    exact ⟨drive, before, hdrive, fun t ht => hgood t (by simp [ht]), rfl⟩

theorem OnDrive.dropped {path : Wide} (h : OnDrive path) (test : Wide → Bool) :
    OnDrive (match rsplit slash path with
      | some (parent, leaf) => if test leaf then parent else path
      | none => path) := by
  split
  · next parent leaf hsplit =>
      split_ifs
      · exact h.parent hsplit
      · exact h
  · exact h

def Installed (sys : System) (release : Wide) : Prop :=
  ∃ system version root, resolve sys (wide "0.0.0") = some system ∧ releaseVersion version = true ∧
    release = extend slash root [version] ∧ root.map lower = (extend slash system.binaries [wide "releases"]).map lower

theorem installed_of {system : Layout} {pre canonical : Wide} (hsystem : resolve sys (wide "0.0.0") = some system)
    (hpre : join system.binaries (wide "releases") = some pre) (hwithin : within pre canonical = true)
    (hslash : canonical[pre.length]? = some slash) (hversion : releaseVersion (canonical.drop (pre.length + 1)) = true) :
    Installed sys canonical := by
  refine ⟨system, canonical.drop (pre.length + 1), canonical.take pre.length, hsystem, hversion, ?_, ?_⟩
  · have hdrop : canonical.drop pre.length = slash :: canonical.drop (pre.length + 1) := by
      rw [@List.drop_eq_getElem?_toList_append _ canonical pre.length, hslash]
      rfl
    rw [extend_singleton, ← hdrop, List.take_append_drop]
  · simp only [within, wcsnicmp, wcsicmp, List.take_length, Bool.and_eq_true, beq_iff_eq] at hwithin
    rw [← hwithin.1, join_some hpre, extend_singleton]

theorem runtimeRelease_onDrive {exe name release : Wide} {installed : Bool}
    (h : runtimeReleaseFromExe sys exe name = some (release, installed)) :
    OnDrive release ∧ (installed = true → Installed sys release) := by
  unfold runtimeReleaseFromExe at h
  split_ifs at h with hname
  simp only [Option.bind_eq_bind, Option.bind_eq_some_iff] at h
  obtain ⟨canonical, hcanonical, ⟨directory, file⟩, hfile, h⟩ := h
  have hdirectory := (absoluteRoot_onDrive hcanonical).parent hfile
  dsimp only at h
  split_ifs at h with hshort
  have hbits := hdirectory.dropped (fun leaf => wcsicmp leaf (wide "x86") || wcsicmp leaf (wide "x64"))
  have hbin := hbits.dropped (fun leaf => wcsicmp leaf (wide "bin"))
  simp only [Option.bind_eq_some_iff] at h
  obtain ⟨⟨parent, leaf⟩, hleaf, h⟩ := h
  split_ifs at h with hsame
  simp only [Option.bind_eq_some_iff] at h
  obtain ⟨system, hsystem, pre, hpre, h⟩ := h
  split_ifs at h with hbad
  obtain ⟨rfl, rfl⟩ := Prod.mk.inj (Option.some.inj h)
  refine ⟨hbin.parent hleaf, fun hinstalled => ?_⟩
  simp only [hinstalled, true_and, not_or, Bool.not_eq_false, beq_iff_eq] at hbad
  exact installed_of hsystem hpre hinstalled hbad.1 hbad.2

theorem Nested.of_root {root root' path : Wide} (h : root.map lower = root'.map lower) (hnested : Nested root path) :
    Nested root' path := by
  obtain ⟨rest, hpath, hshape⟩ := hnested
  exact ⟨rest, hpath.trans (by rw [h]), hshape⟩

theorem release_apart {layout layout' : Layout} {version version' path : Wide} (h : Contained layout version)
    (h' : Contained layout' version') (hroots : layout.binaries.map lower = layout'.binaries.map lower)
    (hother : version ≠ version') (hpath : Inside layout.release path) :
    Nested layout.binaries path ∧ ¬ Nested layout.data path ∧ ¬ Nested layout'.release path := by
  have hinstallation := h.release.nested.trans hpath.nested
  refine ⟨hinstallation, fun hdata => ?_, fun hrelease => ?_⟩
  · rcases hinstallation.nested hdata with hnested | hnested
    · exact h.apart.1 hnested
    · exact h.apart.2 hnested
  · have hsame : (extend slash layout'.binaries [wide "releases", version']).map lower =
        (extend slash (extend slash layout.binaries [wide "releases"]) [version']).map lower := by
      simp only [extend, List.map_append, hroots]
      simp
    have hown := hpath.nested
    rw [h.named, show [wide "releases", version] = [wide "releases"] ++ [version] from rfl, extend_append] at hown
    rw [h'.named] at hrelease
    have hfold := under_sibling lower_slash (not_mem_lower_slash (releaseVersion_good h.accepted))
      (not_mem_lower_slash (releaseVersion_good h'.accepted)) hown (hrelease.of_root hsame)
    exact hother (eq_of_fold_plain (version_plain h'.accepted) hfold)

end Containment

end EtranProcessing.Deployment.PathContainment
