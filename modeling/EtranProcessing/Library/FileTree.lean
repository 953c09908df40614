import Mathlib

namespace EtranProcessing.Library.FileTree

/-- Files and the directories that hold them under their names. -/
inductive Tree (ν β : Type) where
  | file (content : β)
  | directory (entries : List (ν × Tree ν β))

variable {ν κ β : Type} [DecidableEq κ]

def child (fold : ν → κ) (entries : List (ν × Tree ν β)) (key : κ) : Option (Tree ν β) :=
  (entries.find? fun e => fold e.1 = key).map (·.2)

def Tree.find (fold : ν → κ) : Tree ν β → List κ → Option (Tree ν β)
  | t, [] => some t
  | .file _, _ :: _ => none
  | .directory entries, key :: rest => (child fold entries key).bind fun t => t.find fold rest

/-- Replace, add or take away what is under a name. -/
def alterEntry (fold : ν → κ) (f : Option (Tree ν β) → Option (Tree ν β)) (name : ν) :
    List (ν × Tree ν β) → List (ν × Tree ν β)
  | [] => (f none).toList.map fun t => (name, t)
  | (n, t) :: rest =>
      if fold n = fold name then
        match f (some t) with
        | some t' => (n, t') :: rest
        | none => rest
      else (n, t) :: alterEntry fold f name rest

def Tree.alter (fold : ν → κ) (f : Option (Tree ν β) → Option (Tree ν β)) : List ν → Tree ν β → Tree ν β
  | [], t => t
  | _ :: _, .file content => .file content
  | [name], .directory entries => .directory (alterEntry fold f name entries)
  | name :: next :: rest, .directory entries =>
      .directory (alterEntry fold (Option.map (Tree.alter fold f (next :: rest))) name entries)

mutual

def Tree.files (fold : ν → κ) : Tree ν β → List (List κ)
  | .file _ => [[]]
  | .directory entries => filesOf fold entries

def filesOf (fold : ν → κ) : List (ν × Tree ν β) → List (List κ)
  | [] => []
  | (name, t) :: rest => (t.files fold).map (fold name :: ·) ++ filesOf fold rest

end

/-- No directory has two entries under one name or an entry under a name that is none. -/
inductive WellFormed (fold : ν → κ) (ok : ν → Prop) : Tree ν β → Prop
  | file (content : β) : WellFormed fold ok (.file content)
  | directory (entries : List (ν × Tree ν β)) (distinct : (entries.map fun e => fold e.1).Nodup)
      (names : ∀ e ∈ entries, ok e.1) (below : ∀ e ∈ entries, WellFormed fold ok e.2) :
      WellFormed fold ok (.directory entries)

section Finding

variable {fold : ν → κ} {entries : List (ν × Tree ν β)} {key : κ} {t : Tree ν β}

@[simp] theorem find_nil (t : Tree ν β) : t.find fold [] = some t := by
  cases t <;> rfl

@[simp] theorem find_file (content : β) (keys : List κ) :
    (Tree.file content : Tree ν β).find fold (key :: keys) = none := rfl

theorem find_directory (keys : List κ) :
    (Tree.directory entries).find fold (key :: keys) = (child fold entries key).bind fun t => t.find fold keys := rfl

theorem find_append (t : Tree ν β) (first second : List κ) :
    t.find fold (first ++ second) = (t.find fold first).bind fun t => t.find fold second := by
  induction first generalizing t with
  | nil => simp
  | cons key first ih =>
      cases t with
      | file content => rfl
      | directory entries =>
          rw [List.cons_append, find_directory, find_directory]
          cases child fold entries key with
          | none => rfl
          | some t => exact ih t

theorem find_above {node : Tree ν β} {first second : List κ} (h : t.find fold (first ++ second) = some node)
    (hsecond : second ≠ []) : ∃ entries, t.find fold first = some (.directory entries) := by
  rw [find_append] at h
  obtain ⟨middle, hmiddle, hrest⟩ := Option.bind_eq_some_iff.mp h
  obtain ⟨key, rest, rfl⟩ := List.exists_cons_of_ne_nil hsecond
  cases middle with
  | file content => cases hrest
  | directory entries => exact ⟨entries, hmiddle⟩

theorem child_some {node : Tree ν β} (h : child fold entries key = some node) :
    ∃ e ∈ entries, fold e.1 = key ∧ e.2 = node := by
  obtain ⟨e, he, hnode⟩ := Option.map_eq_some_iff.mp h
  exact ⟨e, List.mem_of_find?_eq_some he, by simpa using List.find?_some he, hnode⟩

theorem child_of_mem (hdistinct : (entries.map fun e => fold e.1).Nodup) {e : ν × Tree ν β} (he : e ∈ entries) :
    child fold entries (fold e.1) = some e.2 := by
  induction entries with
  | nil => cases he
  | cons first rest ih =>
      rw [List.map_cons, List.nodup_cons] at hdistinct
      rcases List.mem_cons.mp he with rfl | hrest
      · simp [child]
      · have hne : fold first.1 ≠ fold e.1 := fun hsame =>
          hdistinct.1 (hsame ▸ List.mem_map_of_mem hrest)
        rw [child, List.find?_cons_of_neg (by simpa using hne)]
        exact ih hdistinct.2 hrest

end Finding

section Altering

variable {fold : ν → κ} {f : Option (Tree ν β) → Option (Tree ν β)} {entries : List (ν × Tree ν β)} {name : ν} {key : κ}

theorem child_cons (e : ν × Tree ν β) (rest : List (ν × Tree ν β)) :
    child fold (e :: rest) key = if fold e.1 = key then some e.2 else child fold rest key := by
  by_cases h : fold e.1 = key
  · simp [child, h]
  · simp [child, h]

theorem child_alterEntry_ne (h : fold name ≠ key) :
    child fold (alterEntry fold f name entries) key = child fold entries key := by
  induction entries with
  | nil =>
      cases hf : f none with
      | none => simp [alterEntry, hf]
      | some t => simp [alterEntry, hf, child, h]
  | cons e rest ih =>
      unfold alterEntry
      by_cases he : fold e.1 = fold name
      · have hne : fold e.1 ≠ key := he ▸ h
        cases hf : f (some e.2) with
        | none => simp [he, child_cons, h]
        | some t => simp [he, child_cons, h]
      · rw [if_neg he, child_cons, child_cons, ih]

theorem child_alterEntry_self (hf : ∀ t, (f (some t)).isSome = true) :
    child fold (alterEntry fold f name entries) (fold name) = f (child fold entries (fold name)) := by
  induction entries with
  | nil =>
      cases h : f none with
      | none | some t => simp [alterEntry, h, child]
  | cons e rest ih =>
      unfold alterEntry
      by_cases he : fold e.1 = fold name
      · rw [if_pos he, child_cons, if_pos he]
        obtain ⟨t, ht⟩ := Option.isSome_iff_exists.mp (hf e.2)
        simp only [ht, child_cons, if_pos he]
      · rw [if_neg he, child_cons, child_cons, if_neg he, if_neg he, ih]

theorem find_alter_beside {names : List ν} {keys : List κ} (h : ¬ names.map fold <+: keys)
    (h' : ¬ keys <+: names.map fold) (t : Tree ν β) : (t.alter fold f names).find fold keys = t.find fold keys := by
  induction names generalizing keys t f with
  | nil => exact absurd (List.nil_prefix) h
  | cons name rest ih =>
      cases keys with
      | nil => exact absurd (List.nil_prefix) h'
      | cons key keys =>
          cases t with
          | file content => rfl
          | directory entries =>
              cases rest with
              | nil =>
                  have hne : fold name ≠ key := by
                    rintro rfl
                    exact h (by simp)
                  rw [Tree.alter, find_directory, find_directory, child_alterEntry_ne hne]
              | cons =>
                  rw [Tree.alter, find_directory, find_directory]
                  by_cases hkey : fold name = key
                  · subst hkey
                    rw [List.map_cons, List.cons_prefix_cons] at h h'
                    rw [child_alterEntry_self fun _ => rfl]
                    cases child fold entries (fold name) with
                    | none => rfl
                    | some t => exact ih (fun hp => h ⟨rfl, hp⟩) (fun hp => h' ⟨rfl, hp⟩) t
                  · rw [child_alterEntry_ne hkey]

theorem find_put {parent : List ν} {node : Tree ν β} (t : Tree ν β)
    (h : t.find fold (parent.map fold) = some (.directory entries)) :
    (t.alter fold (fun _ => some node) (parent ++ [name])).find fold ((parent ++ [name]).map fold) = some node := by
  induction parent generalizing t with
  | nil =>
      obtain rfl := Option.some_inj.mp ((find_nil t).symm.trans h)
      change ((child fold (alterEntry fold _ name entries) (fold name)).bind fun t => t.find fold []) = _
      rw [child_alterEntry_self fun _ => rfl]
      simp
  | cons first parent ih =>
      cases t with
      | file content => cases h
      | directory es =>
          obtain ⟨next, rest, hnext⟩ : ∃ next rest, parent ++ [name] = next :: rest :=
            List.exists_cons_of_ne_nil (by simp)
          rw [List.map_cons, find_directory] at h
          obtain ⟨sub, hsub, hbelow⟩ := Option.bind_eq_some_iff.mp h
          rw [List.cons_append, List.map_cons, hnext, Tree.alter, find_directory,
            child_alterEntry_self fun _ => rfl, hsub, ← hnext]
          exact ih sub hbelow

end Altering

section Formed

variable {fold : ν → κ} {ok : ν → Prop} {f : Option (Tree ν β) → Option (Tree ν β)} {entries : List (ν × Tree ν β)} {name : ν}

omit [DecidableEq κ] in
theorem WellFormed.distinct (h : WellFormed fold ok (.directory entries)) : (entries.map fun e => fold e.1).Nodup := by
  cases h with
  | directory _ distinct => exact distinct

omit [DecidableEq κ] in
theorem WellFormed.entry (h : WellFormed fold ok (.directory entries)) {e : ν × Tree ν β} (he : e ∈ entries) :
    ok e.1 ∧ WellFormed fold ok e.2 := by
  cases h with
  | directory _ _ names below => exact ⟨names e he, below e he⟩

theorem WellFormed.found {t node : Tree ν β} {keys : List κ} (h : WellFormed fold ok t)
    (hfind : t.find fold keys = some node) : WellFormed fold ok node := by
  induction keys generalizing t with
  | nil => exact Option.some_inj.mp ((find_nil t).symm.trans hfind) ▸ h
  | cons key keys ih =>
      cases t with
      | file content => cases hfind
      | directory entries =>
          rw [find_directory] at hfind
          obtain ⟨sub, hsub, hrest⟩ := Option.bind_eq_some_iff.mp hfind
          obtain ⟨e, he, -, rfl⟩ := child_some hsub
          exact ih (h.entry he).2 hrest

theorem mem_alterEntry {e : ν × Tree ν β} (he : e ∈ alterEntry fold f name entries) :
    e ∈ entries ∨ (fold e.1 = fold name ∧ (e.1 = name ∨ ∃ e' ∈ entries, e'.1 = e.1) ∧
      ∃ o, f o = some e.2 ∧ ∀ t ∈ o, ∃ e' ∈ entries, e'.2 = t) := by
  induction entries with
  | nil =>
      simp only [alterEntry, List.mem_map, Option.mem_toList] at he
      obtain ⟨t, ht, rfl⟩ := he
      exact .inr ⟨rfl, .inl rfl, none, ht, by simp⟩
  | cons first rest ih =>
      unfold alterEntry at he
      split_ifs at he with hname
      · cases hf : f (some first.2) with
        | none =>
            simp only [hf] at he
            exact .inl (List.mem_cons_of_mem _ he)
        | some t =>
            simp only [hf] at he
            rcases List.mem_cons.mp he with rfl | he
            · exact .inr ⟨hname, .inr ⟨first, by simp, rfl⟩, some first.2, hf, by simp⟩
            · exact .inl (List.mem_cons_of_mem _ he)
      · rcases List.mem_cons.mp he with rfl | he
        · exact .inl (by simp)
        · rcases ih he with hmem | ⟨hkey, horigin, o, ho, hall⟩
          · exact .inl (List.mem_cons_of_mem _ hmem)
          · refine .inr ⟨hkey, horigin.imp_right ?_, o, ho, ?_⟩
            · rintro ⟨e', he', hsame⟩
              exact ⟨e', List.mem_cons_of_mem _ he', hsame⟩
            · intro t ht
              obtain ⟨e', he', hsame⟩ := hall t ht
              exact ⟨e', List.mem_cons_of_mem _ he', hsame⟩

theorem alterEntry_distinct (h : (entries.map fun e => fold e.1).Nodup) :
    ((alterEntry fold f name entries).map fun e => fold e.1).Nodup := by
  induction entries with
  | nil =>
      cases hf : f none with
      | none => simp [alterEntry, hf]
      | some t => simp [alterEntry, hf]
  | cons first rest ih =>
      rw [List.map_cons, List.nodup_cons] at h
      unfold alterEntry
      split_ifs with hname
      · cases hf : f (some first.2) with
        | none => exact h.2
        | some t => simpa [hf] using h
      · rw [List.map_cons, List.nodup_cons]
        refine ⟨?_, ih h.2⟩
        intro hmem
        obtain ⟨e, he, hkey⟩ := List.mem_map.mp hmem
        rcases mem_alterEntry he with he | ⟨hsame, -, -⟩
        · exact h.1 (List.mem_map.mpr ⟨e, he, hkey⟩)
        · exact hname (hkey.symm.trans hsame)

theorem WellFormed.alterEntry (h : WellFormed fold ok (.directory entries)) (hname : ok name)
    (hf : ∀ o, (∀ t ∈ o, WellFormed fold ok t) → ∀ t ∈ f o, WellFormed fold ok t) :
    WellFormed fold ok (.directory (alterEntry fold f name entries)) := by
  have hentry (e : ν × Tree ν β) (he : e ∈ FileTree.alterEntry fold f name entries) : ok e.1 ∧ WellFormed fold ok e.2 := by
    rcases mem_alterEntry he with he | ⟨-, horigin, o, ho, hall⟩
    · exact h.entry he
    · constructor
      · rcases horigin with hsame | ⟨e', he', hsame⟩
        · exact hsame ▸ hname
        · exact hsame ▸ (h.entry he').1
      · refine hf o ?_ e.2 ho
        intro t ht
        obtain ⟨e', he', rfl⟩ := hall t ht
        exact (h.entry he').2
  exact .directory _ (alterEntry_distinct h.distinct) (fun e he => (hentry e he).1) fun e he => (hentry e he).2

theorem WellFormed.alter {names : List ν} {t : Tree ν β} (h : WellFormed fold ok t) (hnames : ∀ n ∈ names, ok n)
    (hf : ∀ o, (∀ t ∈ o, WellFormed fold ok t) → ∀ t ∈ f o, WellFormed fold ok t) :
    WellFormed fold ok (t.alter fold f names) := by
  induction names generalizing t with
  | nil => cases t <;> exact h
  | cons name rest ih =>
      cases t with
      | file content => exact h
      | directory entries =>
          cases rest with
          | nil => exact h.alterEntry (hnames name (by simp)) hf
          | cons =>
              refine h.alterEntry (hnames name (by simp)) ?_
              rintro o ho t ht
              obtain ⟨sub, hsub, rfl⟩ := Option.map_eq_some_iff.mp ht
              exact ih (ho sub hsub) fun n hn => hnames n (List.mem_cons_of_mem _ hn)

theorem find_cons_iff (h : WellFormed fold ok (.directory entries)) {key : κ} {keys : List κ} {node : Tree ν β} :
    (Tree.directory entries).find fold (key :: keys) = some node ↔
      ∃ e ∈ entries, fold e.1 = key ∧ e.2.find fold keys = some node := by
  rw [find_directory, Option.bind_eq_some_iff]
  constructor
  · rintro ⟨t, ht, hnode⟩
    obtain ⟨e, he, hkey, rfl⟩ := child_some ht
    exact ⟨e, he, hkey, hnode⟩
  · rintro ⟨e, he, rfl, hnode⟩
    exact ⟨e.2, child_of_mem h.distinct he, hnode⟩

omit [DecidableEq κ] in
theorem filesOf_eq (entries : List (ν × Tree ν β)) :
    filesOf fold entries = entries.flatMap fun e => (e.2.files fold).map (fold e.1 :: ·) := by
  induction entries with
  | nil => simp [filesOf]
  | cons e rest ih => rw [filesOf, ih, List.flatMap_cons]

theorem mem_files_iff {t : Tree ν β} (h : WellFormed fold ok t) {keys : List κ} :
    keys ∈ t.files fold ↔ ∃ content, t.find fold keys = some (.file content) := by
  induction h generalizing keys with
  | file content =>
      cases keys with
      | nil => simp [Tree.files]
      | cons => simp [Tree.files]
  | directory entries distinct names below ih =>
      rw [Tree.files, filesOf_eq, List.mem_flatMap]
      cases keys with
      | nil => simp
      | cons key keys =>
          simp only [find_cons_iff (.directory entries distinct names below), List.mem_map, List.cons.injEq]
          constructor
          · rintro ⟨e, he, rest, hrest, hkey, rfl⟩
            obtain ⟨content, hcontent⟩ := (ih e he).mp hrest
            exact ⟨content, e, he, hkey, hcontent⟩
          · rintro ⟨content, e, he, hkey, hcontent⟩
            exact ⟨e, he, keys, (ih e he).mpr ⟨content, hcontent⟩, hkey, rfl⟩

omit [DecidableEq κ] in
theorem files_nodup {t : Tree ν β} (h : WellFormed fold ok t) : (t.files fold).Nodup := by
  induction h with
  | file content => simp [Tree.files]
  | directory entries distinct names below ih =>
      rw [Tree.files, filesOf_eq]
      clear names below
      induction entries with
      | nil => simp
      | cons e rest ih' =>
          rw [List.map_cons, List.nodup_cons] at distinct
          rw [List.flatMap_cons]
          refine List.Nodup.append ?_ (ih' distinct.2 fun e' he' => ih e' (List.mem_cons_of_mem _ he')) ?_
          · exact (ih e (by simp)).map fun a b hab => (List.cons.inj hab).2
          · intro path hpath hrest
            obtain ⟨a, -, rfl⟩ := List.mem_map.mp hpath
            obtain ⟨e', he', hmem⟩ := List.mem_flatMap.mp hrest
            obtain ⟨b, -, hsame⟩ := List.mem_map.mp hmem
            exact distinct.1 (List.mem_map.mpr ⟨e', he', (List.cons.inj hsame).1⟩)

end Formed

end EtranProcessing.Library.FileTree
