import EtranProcessing.Deployment.Catalog
import EtranProcessing.Library.BreadthFirst

namespace EtranProcessing.Deployment.CatalogRoutes

open Catalog

inductive RouteError where
  | invalidParameter
  | notFound
  deriving DecidableEq

/-- The arrays of the search: `parent` has an entry for each release, nothing
where C has a negative number, and `queue` is the part of the array that is filled. -/
structure Frontier where
  parent : List (Option Nat)
  queue : List Nat
  head : Nat

section Route

variable (c : L4Catalog) (arch profile : Text)

/-- One transition on the way from `place`; nothing where an array is left. -/
def visit (place : Nat) (s : Frontier) (e : L4CatalogTransition) : Option Frontier :=
  if e.source = place ∧ e.arch = arch ∧ e.profile = profile then do
    let r ← c.releases[e.target]?
    if r.revoked then some s
    else do
      let p ← s.parent[e.target]?
      if p.isSome then some s
      else if s.queue.length = maxReleases then none
      else some { s with parent := s.parent.set e.target (some place), queue := s.queue ++ [e.target] }
  else some s

/-- The loop over the queue, for at most `fuel` tests of its condition. -/
def scan (target : Nat) : Nat → Frontier → Option Frontier
  | 0, _ => none
  | fuel + 1, s => do
      let p ← s.parent[target]?
      if s.head < s.queue.length ∧ p = none then do
        let place ← s.queue[s.head]?
        let s ← c.transitions.foldlM (visit c arch profile place) { s with head := s.head + 1 }
        scan target fuel s
      else some s

/-- The loop along the parents, for at most `fuel` tests of its condition. -/
def back (parent : List (Option Nat)) (start : Nat) : Nat → List Nat → Nat → Option (List Nat)
  | 0, _, _ => none
  | fuel + 1, reversed, place =>
      if place = start then some reversed
      else if reversed.length = maxReleases then none
      else do
        let p ← parent[place]?
        let p ← p
        back parent start fuel (reversed ++ [place]) p

def releasesAt (places : List Nat) : Option (List L4CatalogRelease) := places.mapM fun i => c.releases[i]?

/-- The answer, nothing when a loop does not end within `fuel` rounds or an array is left. -/
def l4CatalogRoute (fuel : Nat) (current : Text) (currentManifest : Digest) (requested : Text) :
    Option (Except RouteError (List L4CatalogRelease)) :=
  if archKnown arch = false ∨ profileValid profile = false then some (.error .invalidParameter)
  else
    match find c current, if requested = "latest".toList then c.stable else find c requested with
    | some start, some target => do
        let s ← c.releases[start]?
        let t ← c.releases[target]?
        if t.revoked ∨ s.manifestSha256 ≠ currentManifest then some (.error .notFound)
        else do
          let parent := (List.replicate c.releases.length none).set start (some start)
          let found ← scan c arch profile target fuel ⟨parent, [start], 0⟩
          let p ← found.parent[target]?
          if p = none then some (.error .notFound)
          else do
            let reversed ← back found.parent start fuel [] target
            let steps ← releasesAt c reversed.reverse
            some (.ok steps)
    | _, _ => some (.error .notFound)

end Route

/-- A route with what it was asked for. -/
structure L4RoutePlan where
  catalog : L4Catalog
  now : Nat
  current : Text
  requested : Text
  arch : Text
  profile : Text
  currentSha256 : Digest
  route : List L4CatalogRelease
  ownerTrusted : Bool

def l4RouteSource (p : L4RoutePlan) : Option L4CatalogRelease :=
  p.catalog.releases.find? fun r => r.version == p.current

def l4RouteEvidence (p : L4RoutePlan) (step : Nat) : Option Digest := do
  let taken ← p.route[step]?
  let origin ← (if step = 0 then some p.current else (p.route[step - 1]?).map L4CatalogRelease.version)
  let e ← p.catalog.transitions.find? fun e =>
    (p.catalog.releases[e.source]?).any (·.version == origin) &&
      (p.catalog.releases[e.target]?).any (·.version == taken.version) && e.arch == p.arch && e.profile == p.profile
  some e.evidence

section Meaning

variable (c : L4Catalog) (arch profile : Text)

def Joins (e : L4CatalogTransition) (u v : L4CatalogRelease) : Prop :=
  e ∈ c.transitions ∧ c.releases[e.source]? = some u ∧ c.releases[e.target]? = some v ∧ e.arch = arch ∧ e.profile = profile

def Admissible : L4CatalogRelease → List L4CatalogRelease → L4CatalogRelease → Prop
  | u, [], v => u = v
  | u, w :: p, v => (∃ e, Joins c arch profile e u w) ∧ w.revoked = false ∧ Admissible w p v

def Requested (requested : Text) (r : L4CatalogRelease) : Prop :=
  if requested = "latest".toList then ∃ i, c.stable = some i ∧ c.releases[i]? = some r
  else r ∈ c.releases ∧ r.version = requested

end Meaning

open Library Library.BreadthFirst

section Rounds

variable (c : L4Catalog) (arch profile : Text)

def passes (e : L4CatalogTransition) : Bool :=
  e.arch == arch && e.profile == profile && (c.releases[e.target]?).any fun r => !r.revoked

def targets (place : Nat) (ts : List L4CatalogTransition) : List Nat :=
  (ts.filter fun e => e.source == place && passes c arch profile e).map L4CatalogTransition.target

def next (place : Nat) : List Nat := targets c arch profile place c.transitions

def Frontier.search (s : Frontier) : Search Nat :=
  ⟨fun v => (s.parent[v]?).join, s.queue.take s.head, s.queue.drop s.head⟩

structure Frontier.Sized (c : L4Catalog) (s : Frontier) : Prop where
  parents : s.parent.length = c.releases.length
  head : s.head ≤ s.queue.length

variable {c arch profile} {s s' : Frontier} {place root target : Nat} {depth : Nat → Nat}

theorem seen_search (s : Frontier) : s.search.seen = s.queue := List.take_append_drop s.head s.queue

theorem mem_next {v : Nat} : v ∈ next c arch profile place ↔
    ∃ e ∈ c.transitions, e.source = place ∧ passes c arch profile e = true ∧ e.target = v := by
  simp [next, targets, and_assoc]

theorem next_lt (hc : Accepted c) {v : Nat} (hv : v ∈ next c arch profile place) : v < c.releases.length := by
  obtain ⟨e, he, -, -, rfl⟩ := mem_next.mp hv
  exact (hc.ends e he).2

theorem within (hc : Accepted c) (hroot : root < c.releases.length) :
    Within (next c arch profile) root (Finset.range c.releases.length) :=
  ⟨Finset.mem_range.mpr hroot, fun _ _ hv => Finset.mem_range.mpr (next_lt hc hv)⟩

theorem search_push (hs : s.Sized c) {v : Nat} (hv : v < c.releases.length) (hnew : s.parent[v]? = some none) :
    Frontier.search { s with parent := s.parent.set v (some place), queue := s.queue ++ [v] } =
      discover place s.search v := by
  have hold : ¬ ((s.search.parent v).isSome = true) := by simp [Frontier.search, hnew]
  rw [discover, if_neg hold]
  have hparent : (fun w => ((s.parent.set v (some place))[w]?).join) = Function.update s.search.parent v (some place) := by
    funext w
    by_cases heq : w = v
    · rw [heq, Function.update_self, List.getElem?_set_self (by rw [hs.parents]; exact hv), Option.join_some]
    · rw [Function.update_of_ne heq, List.getElem?_set_ne (Ne.symm heq)]
      rfl
  rw [Frontier.search, hparent, List.take_append_of_le_length hs.head, List.drop_append_of_le_length hs.head]
  rfl

theorem visit_discovers (hc : Accepted c) (hroot : root < c.releases.length) (hs : s.Sized c)
    (h : Expanding (next c arch profile) root depth place s.search) {e : L4CatalogTransition} (he : e ∈ c.transitions) :
    ∃ s', visit c arch profile place s e = some s' ∧ s'.Sized c ∧ s'.head = s.head ∧
      s'.search = (targets c arch profile place [e]).foldl (discover place) s.search := by
  obtain ⟨r, hr⟩ : ∃ r, c.releases[e.target]? = some r := ⟨_, List.getElem?_eq_getElem (hc.ends e he).2⟩
  by_cases hstep : e.source = place ∧ e.arch = arch ∧ e.profile = profile
  · cases hrevoked : r.revoked with
    | true =>
        refine ⟨s, ?_, hs, rfl, ?_⟩
        · simp [visit, hstep, hr, hrevoked]
        · simp [targets, passes, hr, hrevoked]
    | false =>
        have htargets : targets c arch profile place [e] = [e.target] := by
          simp [targets, passes, hr, hrevoked, hstep]
        obtain ⟨p, hp⟩ : ∃ p, s.parent[e.target]? = some p :=
          ⟨_, List.getElem?_eq_getElem (by rw [hs.parents]; exact (hc.ends e he).2)⟩
        rw [htargets, List.foldl_cons, List.foldl_nil]
        cases p with
        | some u =>
            refine ⟨s, ?_, hs, rfl, ?_⟩
            · simp [visit, hstep, hr, hp]
            · rw [discover, if_pos (by simp [Frontier.search, hp])]
        | none =>
            have hunseen : e.target ∉ s.search.seen := fun hin => by
              have := (h.found e.target).mpr hin
              simp [Frontier.search, hp] at this
            have hroom := h.room (within hc hroot) hunseen (Finset.mem_range.mpr (hc.ends e he).2)
            rw [seen_search, Finset.card_range] at hroom
            have hle := hc.room
            refine ⟨{ s with parent := s.parent.set e.target (some place), queue := s.queue ++ [e.target] }, ?_, ⟨?_, ?_⟩,
              rfl, search_push hs (hc.ends e he).2 hp⟩
            · simp [visit, hstep, hr, hrevoked, hp, show s.queue.length ≠ maxReleases by omega]
            · rw [List.length_set, hs.parents]
            · rw [List.length_append, List.length_singleton]
              exact Nat.le_succ_of_le hs.head
  · refine ⟨s, if_neg hstep, hs, rfl, ?_⟩
    have hnot : targets c arch profile place [e] = [] := by
      rw [not_and_or, not_and_or] at hstep
      simp only [targets, passes, List.map_eq_nil_iff, List.filter_eq_nil_iff, List.mem_singleton]
      rintro _ rfl
      simp only [Bool.and_eq_true, beq_iff_eq, not_and]
      tauto
    rw [hnot, List.foldl_nil]

theorem visits_discover (hc : Accepted c) (hroot : root < c.releases.length) (ts : List L4CatalogTransition)
    (hts : ts ⊆ c.transitions) (hs : s.Sized c) (h : Expanding (next c arch profile) root depth place s.search) :
    ∃ s', ts.foldlM (visit c arch profile place) s = some s' ∧ s'.Sized c ∧ s'.head = s.head ∧
      s'.search = (targets c arch profile place ts).foldl (discover place) s.search := by
  induction ts generalizing s depth with
  | nil => exact ⟨s, rfl, hs, rfl, rfl⟩
  | cons e ts ih =>
      obtain ⟨he, hts⟩ := List.cons_subset.mp hts
      obtain ⟨s₁, hone, hs₁, hhead₁, hsearch₁⟩ := visit_discovers hc hroot hs h he
      have hsub : targets c arch profile place [e] ⊆ next c arch profile place := by
        intro v hv
        rw [targets, List.mem_map] at hv
        obtain ⟨e', he', rfl⟩ := hv
        rw [List.mem_filter, List.mem_singleton, Bool.and_eq_true, beq_iff_eq] at he'
        obtain ⟨rfl, hsource, hpasses⟩ := he'
        exact mem_next.mpr ⟨e', he, hsource, hpasses, rfl⟩
      obtain ⟨depth', h'⟩ := (h.fold _ hsub).1
      obtain ⟨s₂, hrest, hs₂, hhead₂, hsearch₂⟩ := ih hts hs₁ (hsearch₁ ▸ h')
      refine ⟨s₂, ?_, hs₂, hhead₂.trans hhead₁, ?_⟩
      · rw [List.foldlM_cons, hone]
        exact hrest
      · have hsplit : targets c arch profile place (e :: ts) =
            targets c arch profile place [e] ++ targets c arch profile place ts := by
          rw [targets, targets, targets, ← List.map_append, ← List.filter_append, List.singleton_append]
        rw [hsearch₂, hsearch₁, hsplit, List.foldl_append]

theorem scan_searches (hc : Accepted c) (hroot : root < c.releases.length) (htarget : target < c.releases.length)
    (fuel : Nat) (hs : s.Sized c) (h : Layers (next c arch profile) root depth s.search) {found : Search Nat}
    (hfound : BreadthFirst.search (next c arch profile) target fuel s.search = some found) :
    ∃ s', scan c arch profile target fuel s = some s' ∧ s'.Sized c ∧ s'.search = found := by
  induction fuel generalizing s depth with
  | zero => exact absurd hfound (Option.some_ne_none found).symm
  | succ fuel ih =>
      obtain ⟨p, hp⟩ : ∃ p, s.parent[target]? = some p :=
        ⟨_, List.getElem?_eq_getElem (by rw [hs.parents]; exact htarget)⟩
      have hparent : s.search.parent target = p := by simp [Frontier.search, hp]
      rw [BreadthFirst.search, hparent] at hfound
      by_cases hgo : s.head < s.queue.length ∧ p = none
      · obtain ⟨hlt, rfl⟩ := hgo
        have hpending : s.search.pending = s.queue[s.head] :: s.queue.drop (s.head + 1) :=
          List.drop_eq_getElem_cons hlt
        have htaken : s.search.done ++ [s.queue[s.head]] = s.queue.take (s.head + 1) :=
          List.take_append_getElem hlt
        have hwaits : s.search.pending ≠ [] := hpending ▸ List.cons_ne_nil _ _
        rw [Option.isSome_none, if_neg (not_or.mpr ⟨hwaits, Bool.false_ne_true⟩)] at hfound
        have hbegin := h.begin hpending
        rw [htaken] at hbegin
        obtain ⟨s₁, hvisits, hs₁, -, hsearch₁⟩ := visits_discover (s := { s with head := s.head + 1 }) hc hroot
          c.transitions (fun _ he => he) ⟨hs.parents, hlt⟩ hbegin
        obtain ⟨depth', h'⟩ := h.expand
        have hexpand : expand (next c arch profile) s.search = s₁.search := by
          rw [expand_cons hpending, hsearch₁, htaken]
          rfl
        rw [hexpand] at hfound h'
        obtain ⟨s₂, hscan, hs₂, hsearch₂⟩ := ih hs₁ h' hfound
        refine ⟨s₂, ?_, hs₂, hsearch₂⟩
        simp [scan, hp, hlt, hvisits, hscan]
      · have hstop : s.search.pending = [] ∨ p.isSome = true := by
          rw [not_and_or] at hgo
          refine hgo.imp (fun hle => List.drop_eq_nil_of_le (Nat.le_of_not_lt hle)) fun hne => ?_
          exact Option.isSome_iff_ne_none.mpr hne
        rw [if_pos hstop] at hfound
        refine ⟨s, ?_, hs, Option.some.inj hfound⟩
        simp only [scan, hp, Option.bind_eq_bind, Option.bind_some, if_neg hgo]

theorem back_traces {parent : List (Option Nat)} (fuel : Nat) (reversed : List Nat) (place : Nat) {r : List Nat}
    (htrace : trace (fun v => (parent[v]?).join) root fuel place = some r)
    (hroom : reversed.length + r.length ≤ maxReleases) :
    back parent root fuel reversed place = some (reversed ++ r) := by
  induction fuel generalizing reversed place r with
  | zero => exact absurd htrace (Option.some_ne_none r).symm
  | succ fuel ih =>
      rw [trace] at htrace
      rw [back]
      by_cases heq : place = root
      · rw [if_pos heq] at htrace ⊢
        obtain rfl := Option.some.inj htrace
        rw [List.append_nil]
      · rw [if_neg heq, Option.bind_eq_some_iff] at htrace
        obtain ⟨u, hu, hrest⟩ := htrace
        obtain ⟨r', hr', rfl⟩ := Option.map_eq_some_iff.mp hrest
        rw [List.length_cons] at hroom
        have hlink : parent[place]? = some (some u) := Option.join_eq_some_iff.mp hu
        have hroom' : (reversed ++ [place]).length + r'.length ≤ maxReleases := by
          rw [List.length_append, List.length_singleton]
          omega
        rw [if_neg heq, if_neg (by omega), hlink]
        simpa using ih (reversed ++ [place]) u hr' hroom'

end Rounds

section Releases

variable {c : L4Catalog} {arch profile : Text} {u v w : L4CatalogRelease} {e e' : L4CatalogTransition} {i j : Nat}

theorem index_unique (hc : Accepted c) (hi : c.releases[i]? = some u) (hj : c.releases[j]? = some v)
    (hversion : u.version = v.version) : i = j := by
  obtain ⟨hltI, rfl⟩ := List.getElem?_eq_some_iff.mp hi
  obtain ⟨hltJ, rfl⟩ := List.getElem?_eq_some_iff.mp hj
  have hinj := List.nodup_iff_injective_get.mp hc.distinct
  have hlength : (c.releases.map L4CatalogRelease.version).length = c.releases.length := List.length_map _
  have hsame := @hinj ⟨i, hlength ▸ hltI⟩ ⟨j, hlength ▸ hltJ⟩ (by simpa using hversion)
  exact congrArg Fin.val hsame

theorem find_eq_some (hc : Accepted c) {version : Text} :
    find c version = some i ↔ ∃ r, c.releases[i]? = some r ∧ r.version = version := by
  refine ⟨find_some, ?_⟩
  rintro ⟨r, hr, rfl⟩
  cases hfind : find c r.version with
  | none => exact absurd (List.mem_map_of_mem (List.mem_of_getElem? hr)) (find_none hfind)
  | some k =>
      obtain ⟨r', hr', hversion⟩ := find_some hfind
      rw [index_unique hc hr' hr hversion]

def Places (c : L4Catalog) : List Nat → List L4CatalogRelease → Prop := List.Forall₂ fun i r => c.releases[i]? = some r

theorem releasesAt_places {p : List Nat} {rs : List L4CatalogRelease} (h : Places c p rs) : releasesAt c p = some rs := by
  induction h with
  | nil => rfl
  | cons hi _ ih =>
      rw [releasesAt] at ih ⊢
      rw [List.mapM_cons, hi, ih]
      rfl

theorem mem_next_joins (hc : Accepted c) (hi : c.releases[i]? = some u) (hj : c.releases[j]? = some w) :
    j ∈ next c arch profile i ↔ (∃ e, Joins c arch profile e u w) ∧ w.revoked = false := by
  rw [mem_next]
  constructor
  · rintro ⟨e, he, rfl, hpasses, rfl⟩
    simp only [passes, hj, Option.any_some, Bool.and_eq_true, beq_iff_eq, Bool.not_eq_true'] at hpasses
    exact ⟨⟨e, he, hi, hj, hpasses.1.1, hpasses.1.2⟩, hpasses.2⟩
  · rintro ⟨⟨e, he, hsource, htarget, rfl, rfl⟩, hlive⟩
    refine ⟨e, he, index_unique hc hsource hi rfl, ?_, index_unique hc htarget hj rfl⟩
    simp [passes, htarget, hlive]

theorem admissible_of_path (hc : Accepted c) (p : List Nat) (hi : c.releases[i]? = some u) (hj : c.releases[j]? = some v)
    (hpath : Path (next c arch profile) i p j) : ∃ rs, Places c p rs ∧ Admissible c arch profile u rs v := by
  induction p generalizing i u with
  | nil =>
      obtain rfl : i = j := hpath
      exact ⟨[], .nil, Option.some.inj (hi.symm.trans hj)⟩
  | cons k p ih =>
      obtain ⟨hk, hrest⟩ := hpath
      obtain ⟨w, hw⟩ : ∃ w, c.releases[k]? = some w := ⟨_, List.getElem?_eq_getElem (next_lt hc hk)⟩
      obtain ⟨rs, hrs, hadmissible⟩ := ih hw hrest
      obtain ⟨hjoins, hlive⟩ := (mem_next_joins hc hi hw).mp hk
      exact ⟨w :: rs, .cons hw hrs, hjoins, hlive, hadmissible⟩

theorem path_of_admissible (hc : Accepted c) (rs : List L4CatalogRelease) (hi : c.releases[i]? = some u)
    (hj : c.releases[j]? = some v) (hadmissible : Admissible c arch profile u rs v) :
    ∃ p, Places c p rs ∧ Path (next c arch profile) i p j := by
  induction rs generalizing i u with
  | nil =>
      obtain rfl : u = v := hadmissible
      exact ⟨[], .nil, index_unique hc hi hj rfl⟩
  | cons w rs ih =>
      obtain ⟨⟨e, hjoins⟩, hlive, hrest⟩ := hadmissible
      obtain ⟨p, hp, hpath⟩ := ih hjoins.2.2.1 hrest
      exact ⟨e.target :: p, .cons hjoins.2.2.1 hp, (mem_next_joins hc hi hjoins.2.2.1).mpr ⟨⟨e, hjoins⟩, hlive⟩, hpath⟩

theorem sameStep_symm (h : sameStep e' e = false) : sameStep e e' = false := by
  rw [Bool.eq_false_iff] at h ⊢
  simp only [sameStep, ne_eq, Bool.and_eq_true, beq_iff_eq] at h ⊢
  exact fun hsame => h ⟨⟨⟨hsame.1.1.1.symm, hsame.1.1.2.symm⟩, hsame.1.2.symm⟩, hsame.2.symm⟩

theorem joins_unique (hc : Accepted c) (h : Joins c arch profile e u w) (h' : Joins c arch profile e' u w) : e' = e := by
  obtain ⟨he, hsource, htarget, harch, hprofile⟩ := h
  obtain ⟨he', hsource', htarget', harch', hprofile'⟩ := h'
  by_contra hne
  have hsymm : Std.Symm fun prior e : L4CatalogTransition => sameStep e prior = false := ⟨fun _ _ => sameStep_symm⟩
  have hapart := List.Pairwise.forall hc.single he he' (Ne.symm hne)
  have hsame : sameStep e' e = true := by
    simp [sameStep, index_unique hc hsource hsource' rfl, index_unique hc htarget htarget' rfl, harch, harch', hprofile,
      hprofile']
  rw [hsame] at hapart
  exact Bool.noConfusion hapart

def stepFrom (source : L4CatalogRelease) (steps : List L4CatalogRelease) (k : Nat) (hk : k < steps.length) :
    L4CatalogRelease := (source :: steps).get ⟨k, Nat.lt_succ_of_lt hk⟩

theorem admissible_joins (p : List L4CatalogRelease) (h : Admissible c arch profile u p v) (k : Nat) (hk : k < p.length) :
    ∃ e, Joins c arch profile e (stepFrom u p k hk) p[k] := by
  induction p generalizing u k with
  | nil => exact absurd hk (Nat.not_lt_zero k)
  | cons w p ih =>
      cases k with
      | zero => exact h.1
      | succ k => exact ih h.2.2 k (Nat.lt_of_succ_lt_succ hk)

theorem requested_iff (hc : Accepted c) {requested : Text} :
    (if requested = "latest".toList then c.stable else find c requested) = some i ↔
      ∃ r, c.releases[i]? = some r ∧ Requested c requested r := by
  unfold Requested
  split
  next hlatest =>
    constructor
    · intro hstable
      exact ⟨_, List.getElem?_eq_getElem (hc.stable i hstable), i, hstable, List.getElem?_eq_getElem (hc.stable i hstable)⟩
    · rintro ⟨r, hr, k, hk, hr'⟩
      rw [index_unique hc hr hr' rfl, hk]
  next hversion =>
    rw [find_eq_some hc]
    constructor
    · rintro ⟨r, hr, hsame⟩
      exact ⟨r, hr, List.mem_of_getElem? hr, hsame⟩
    · rintro ⟨r, hr, -, hsame⟩
      exact ⟨r, hr, hsame⟩

theorem requested_mem {requested : Text} {r : L4CatalogRelease} (h : Requested c requested r) :
    ∃ i : Nat, c.releases[i]? = some r := by
  rw [Requested] at h
  split at h
  next =>
    obtain ⟨i, -, hr⟩ := h
    exact ⟨i, hr⟩
  next => exact List.mem_iff_getElem?.mp h.1

end Releases

section Answers

variable {c : L4Catalog} {arch profile current requested : Text} {manifest : Digest} {source target : L4CatalogRelease}
  {steps : List L4CatalogRelease} {fuel i j : Nat}

/-- The ends of a route: where the machine is, and where it is to go. -/
structure Ends (c : L4Catalog) (current : Text) (manifest : Digest) (requested : Text)
    (source target : L4CatalogRelease) : Prop where
  listed : source ∈ c.releases
  current : source.version = current
  manifest : source.manifestSha256 = manifest
  requested : Requested c requested target
  live : target.revoked = false

theorem Ends.places (hc : Accepted c) (h : Ends c current manifest requested source target) :
    ∃ i j : Nat, find c current = some i ∧ (if requested = "latest".toList then c.stable else find c requested) = some j ∧
      c.releases[i]? = some source ∧ c.releases[j]? = some target := by
  obtain ⟨i, hi⟩ := List.mem_iff_getElem?.mp h.listed
  obtain ⟨j, hj⟩ := requested_mem h.requested
  exact ⟨i, j, (find_eq_some hc).mpr ⟨source, hi, h.current⟩, (requested_iff hc).mpr ⟨target, hj, h.requested⟩, hi, hj⟩

/-- What the search from one place to another ends with. -/
inductive Found (c : L4Catalog) (arch profile : Text) (source target : L4CatalogRelease) :
    Option (Except RouteError (List L4CatalogRelease)) → Prop
  | lost (h : ∀ p, ¬ Admissible c arch profile source p target) :
      Found c arch profile source target (some (.error .notFound))
  | led {steps : List L4CatalogRelease} (path : Admissible c arch profile source steps target)
      (least : ∀ p, Admissible c arch profile source p target → steps.length ≤ p.length)
      (apart : ((source :: steps).map L4CatalogRelease.version).Nodup) :
      Found c arch profile source target (some (.ok steps))

theorem Places.mem {p : List Nat} {rs : List L4CatalogRelease} {r : L4CatalogRelease} (h : Places c p rs) (hr : r ∈ rs) :
    ∃ k ∈ p, c.releases[k]? = some r := by
  induction h with
  | nil => exact absurd hr List.not_mem_nil
  | cons hk _ ih =>
      rcases List.mem_cons.mp hr with rfl | hr
      · exact ⟨_, List.mem_cons_self, hk⟩
      · obtain ⟨k, hmem, hplace⟩ := ih hr
        exact ⟨k, List.mem_cons_of_mem _ hmem, hplace⟩

theorem versions_nodup (hc : Accepted c) {p : List Nat} {rs : List L4CatalogRelease} (h : Places c p rs) (hp : p.Nodup) :
    (rs.map L4CatalogRelease.version).Nodup := by
  induction h with
  | nil => exact List.nodup_nil
  | @cons k r p rs hk hrest ih =>
      obtain ⟨hnew, hp⟩ := List.nodup_cons.mp hp
      refine List.nodup_cons.mpr ⟨fun hin => ?_, ih hp⟩
      obtain ⟨r', hr', hversion⟩ := List.mem_map.mp hin
      obtain ⟨k', hk', hplace⟩ := Places.mem hrest hr'
      exact hnew (index_unique hc hplace hk hversion ▸ hk')

theorem search_found (hc : Accepted c) (hi : c.releases[i]? = some source) (hj : c.releases[j]? = some target)
    (hfuel : maxReleases < fuel) :
    Found c arch profile source target (do
      let found ← scan c arch profile j fuel ⟨(List.replicate c.releases.length none).set i (some i), [i], 0⟩
      let p ← found.parent[j]?
      if p = none then some (.error .notFound)
      else do
        let reversed ← back found.parent i fuel [] j
        let steps ← releasesAt c reversed.reverse
        some (.ok steps)) := by
  obtain ⟨hi', -⟩ := List.getElem?_eq_some_iff.mp hi
  obtain ⟨hj', -⟩ := List.getElem?_eq_some_iff.mp hj
  have hroom := hc.room
  have hwithin : Within (next c arch profile) i (Finset.range c.releases.length) := within hc hi'
  have hstart : Frontier.search ⟨(List.replicate c.releases.length none).set i (some i), [i], 0⟩ = BreadthFirst.start i := by
    rw [Frontier.search, BreadthFirst.start]
    congr 1
    funext v
    by_cases hv : v = i
    · rw [hv, List.getElem?_set_self (by simpa using hi'), Function.update_self, Option.join_some]
    · rw [List.getElem?_set_ne (Ne.symm hv), Function.update_of_ne hv, List.getElem?_replicate]
      split <;> rfl
  have hsized : Frontier.Sized c ⟨(List.replicate c.releases.length none).set i (some i), [i], 0⟩ :=
    ⟨by simp, Nat.zero_le _⟩
  obtain ⟨found, depth, hsearch, hlayers, hstop⟩ := (layers_start (next c arch profile) i).search hwithin j fuel (by
    rw [Finset.card_range]
    omega)
  obtain ⟨s, hscan, hs, rfl⟩ := scan_searches hc hi' hj' fuel hsized (hstart ▸ layers_start _ i) (hstart ▸ hsearch)
  obtain ⟨p, hp⟩ : ∃ p, s.parent[j]? = some p := ⟨_, List.getElem?_eq_getElem (by rw [hs.parents]; exact hj')⟩
  have hparent : s.search.parent j = p := by simp [Frontier.search, hp]
  simp only [hscan, hp, Option.bind_eq_bind, Option.bind_some]
  cases p with
  | none =>
      rw [if_pos rfl]
      refine .lost fun rs hrs => ?_
      obtain ⟨p, -, hpath⟩ := path_of_admissible hc rs hi hj hrs
      have hempty : s.search.pending = [] := hstop.resolve_right (by simp [hparent])
      have hseen := (hlayers.found j).mpr (hlayers.reaches hempty p j hpath)
      simp [hparent] at hseen
  | some u =>
      rw [if_neg (Option.some_ne_none u)]
      have hseen : j ∈ s.search.seen := (hlayers.found j).mp (by simp [hparent])
      have hdepth := hlayers.depth_lt hwithin hseen
      rw [Finset.card_range] at hdepth
      obtain ⟨r, htrace, hpath, hlength, hnodup, hbelow⟩ := hlayers.trace fuel j hseen (by omega)
      obtain ⟨rs, hrs, hadmissible⟩ := admissible_of_path hc r.reverse hi hj hpath
      have hback := back_traces fuel [] j htrace (by rw [List.length_nil]; omega)
      rw [List.nil_append] at hback
      simp only [hback, Option.bind_some, releasesAt_places hrs]
      refine .led hadmissible (fun rs' hrs' => ?_) ?_
      · obtain ⟨p, hp, hpath'⟩ := path_of_admissible hc rs' hi hj hrs'
        have hleast := hlayers.least p j hpath' hseen
        rw [← hrs.length_eq, ← hp.length_eq, List.length_reverse]
        omega
      · have hall : (i :: r.reverse).Nodup :=
          List.nodup_cons.mpr ⟨fun hin => (hbelow i (List.mem_reverse.mp hin)).1 rfl, List.nodup_reverse.mpr hnodup⟩
        exact versions_nodup hc (.cons hi hrs) hall

/-- The answer is a refusal of the arguments, a refusal of the ends, or what the search finds. -/
inductive Answer (c : L4Catalog) (current : Text) (manifest : Digest) (requested arch profile : Text) :
    Option (Except RouteError (List L4CatalogRelease)) → Prop
  | refused (h : ¬ (archKnown arch = true ∧ profileValid profile = true)) :
      Answer c current manifest requested arch profile (some (.error .invalidParameter))
  | absent (h : ∀ source target, ¬ Ends c current manifest requested source target) :
      Answer c current manifest requested arch profile (some (.error .notFound))
  | searched {source target : L4CatalogRelease} {answer : Option (Except RouteError (List L4CatalogRelease))}
      (known : archKnown arch = true ∧ profileValid profile = true) (ends : Ends c current manifest requested source target)
      (found : Found c arch profile source target answer) : Answer c current manifest requested arch profile answer

theorem route_answers (hc : Accepted c) (hfuel : maxReleases < fuel) (current : Text) (manifest : Digest)
    (requested arch profile : Text) :
    Answer c current manifest requested arch profile (l4CatalogRoute c arch profile fuel current manifest requested) := by
  rw [l4CatalogRoute]
  by_cases hknown : archKnown arch = false ∨ profileValid profile = false
  · rw [if_pos hknown]
    refine .refused fun hboth => ?_
    rcases hknown with h | h
    · exact Bool.false_ne_true (h.symm.trans hboth.1)
    · exact Bool.false_ne_true (h.symm.trans hboth.2)
  rw [if_neg hknown]
  split
  next i j hi hj =>
    obtain ⟨source, hsource, hversion⟩ := find_some hi
    obtain ⟨target, htarget, hrequested⟩ := (requested_iff hc).mp hj
    simp only [hsource, htarget, Option.bind_eq_bind, Option.bind_some]
    by_cases hbad : target.revoked = true ∨ source.manifestSha256 ≠ manifest
    · rw [if_pos hbad]
      refine .absent fun source' target' hends => ?_
      obtain ⟨i', j', hi', hj', hsource', htarget'⟩ := hends.places hc
      obtain rfl := Option.some.inj (hi.symm.trans hi')
      obtain rfl := Option.some.inj (hj.symm.trans hj')
      obtain rfl := Option.some.inj (hsource.symm.trans hsource')
      obtain rfl := Option.some.inj (htarget.symm.trans htarget')
      rcases hbad with h | h
      · exact Bool.false_ne_true (hends.live.symm.trans h)
      · exact h hends.manifest
    · rw [if_neg hbad]
      rw [not_or, Bool.not_eq_true, not_not] at hbad
      have hboth : archKnown arch = true ∧ profileValid profile = true := by simpa [not_or] using hknown
      exact .searched hboth ⟨List.mem_of_getElem? hsource, hversion, hbad.2, hrequested, hbad.1⟩
        (search_found hc hsource htarget hfuel)
  next hnone =>
    refine .absent fun source target hends => ?_
    obtain ⟨i, j, hi, hj, -, -⟩ := hends.places hc
    exact hnone i j hi hj

def planned (c : L4Catalog) (now : Nat) (current : Text) (manifest : Digest) (requested arch profile : Text)
    (steps : List L4CatalogRelease) (ownerTrusted : Bool) : L4RoutePlan :=
  ⟨c, now, current, requested, arch, profile, manifest, steps, ownerTrusted⟩

theorem source_planned (hc : Accepted c) (hends : Ends c current manifest requested source target) (now : Nat)
    (trusted : Bool) : l4RouteSource (planned c now current manifest requested arch profile steps trusted) = some source := by
  obtain ⟨i, -, hi, -, hplace, -⟩ := hends.places hc
  cases hfind : c.releases.find? fun r => r.version == current with
  | none =>
      have hno := List.find?_eq_none.mp hfind source hends.listed
      simp [hends.current] at hno
  | some r =>
      obtain ⟨k, hk⟩ := List.mem_iff_getElem?.mp (List.mem_of_find?_eq_some hfind)
      have hversion : r.version = current := by simpa using List.find?_some hfind
      obtain rfl := index_unique hc hk hplace (hversion.trans hends.current.symm)
      rw [l4RouteSource, planned, hfind, Option.some.inj (hk.symm.trans hplace)]

theorem evidence_planned (hc : Accepted c) (hends : Ends c current manifest requested source target)
    (hpath : Admissible c arch profile source steps target) (now : Nat) (trusted : Bool) (k : Nat) (hk : k < steps.length) :
    ∃ e, Joins c arch profile e (stepFrom source steps k hk) steps[k] ∧
      (∀ e', Joins c arch profile e' (stepFrom source steps k hk) steps[k] → e' = e) ∧
      l4RouteEvidence (planned c now current manifest requested arch profile steps trusted) k = some e.evidence := by
  obtain ⟨e, hjoins⟩ := admissible_joins steps hpath k hk
  refine ⟨e, hjoins, fun e' he' => joins_unique hc hjoins he', ?_⟩
  have horigin : (if k = 0 then some current else (steps[k - 1]?).map L4CatalogRelease.version) =
      some (stepFrom source steps k hk).version := by
    cases k with
    | zero => simp [stepFrom, hends.current]
    | succ k => simp [stepFrom, List.getElem?_eq_getElem (Nat.lt_of_succ_lt hk)]
  generalize stepFrom source steps k hk = u at hjoins horigin
  rw [l4RouteEvidence, planned]
  simp only [List.getElem?_eq_getElem hk, Option.bind_eq_bind, Option.bind_some, horigin, Option.bind_eq_some_iff]
  have hcheck : ∀ x ∈ c.transitions, ((c.releases[x.source]?).any (·.version == u.version) &&
      (c.releases[x.target]?).any (·.version == steps[k].version) && x.arch == arch && x.profile == profile) = true →
      x = e := by
    intro x hx hpass
    simp only [Bool.and_eq_true, Option.any_eq_true, beq_iff_eq] at hpass
    obtain ⟨⟨⟨⟨a, ha, hsource⟩, b, hb, htarget⟩, harch⟩, hprofile⟩ := hpass
    have hs := index_unique hc ha hjoins.2.1 hsource
    have ht := index_unique hc hb hjoins.2.2.1 htarget
    exact joins_unique hc hjoins ⟨hx, hs ▸ hjoins.2.1, ht ▸ hjoins.2.2.1, harch, hprofile⟩
  obtain ⟨he, hsource, htarget, harch, hprofile⟩ := hjoins
  cases hfind : c.transitions.find? fun x => (c.releases[x.source]?).any (·.version == u.version) &&
      (c.releases[x.target]?).any (·.version == steps[k].version) && x.arch == arch && x.profile == profile with
  | none =>
      have hno := List.find?_eq_none.mp hfind e he
      simp [hsource, htarget, harch, hprofile] at hno
  | some x =>
      have hpass := List.find?_some hfind
      have hx := hcheck x (List.mem_of_find?_eq_some hfind) hpass
      exact ⟨x, rfl, by rw [hx]⟩

/-- Every accepted catalogue is searched to an end without leaving an array,
and the route is there exactly when there is an admissible path: then it is a
shortest one, without a release twice, and each step has the evidence of the
transition that was taken. -/
theorem route_shortest {sys : Paths.System} {toWide : Text → Option Paths.Wide} {bytes keyId : Text} {authenticated : Digest}
    {now : Nat} (hparse : parse sys toWide bytes authenticated keyId now = some c) (hfuel : maxReleases < fuel)
    (current : Text) (manifest : Digest) (requested arch profile : Text) :
    ∃ answer, l4CatalogRoute c arch profile fuel current manifest requested = some answer ∧
      ((∃ steps, answer = .ok steps) ↔ (archKnown arch = true ∧ profileValid profile = true) ∧
        ∃ source target p, Ends c current manifest requested source target ∧ Admissible c arch profile source p target) ∧
      ∀ steps, answer = .ok steps → ∃ source target, Ends c current manifest requested source target ∧
        Admissible c arch profile source steps target ∧
        (∀ p, Admissible c arch profile source p target → steps.length ≤ p.length) ∧
        ((source :: steps).map L4CatalogRelease.version).Nodup ∧
        ∀ now trusted,
          l4RouteSource (planned c now current manifest requested arch profile steps trusted) = some source ∧
          ∀ k, (hk : k < steps.length) → ∃ e, Joins c arch profile e (stepFrom source steps k hk) steps[k] ∧
            (∀ e', Joins c arch profile e' (stepFrom source steps k hk) steps[k] → e' = e) ∧
            l4RouteEvidence (planned c now current manifest requested arch profile steps trusted) k = some e.evidence := by
  have hc := parse_accepted hparse
  have hanswer := route_answers hc hfuel current manifest requested arch profile
  generalize l4CatalogRoute c arch profile fuel current manifest requested = answer at hanswer
  have hsingle : ∀ {source target source' target'}, Ends c current manifest requested source target →
      Ends c current manifest requested source' target' → source' = source ∧ target' = target := by
    intro source target source' target' h h'
    obtain ⟨i, j, hi, hj, hsource, htarget⟩ := h.places hc
    obtain ⟨i', j', hi', hj', hsource', htarget'⟩ := h'.places hc
    obtain rfl := Option.some.inj (hi.symm.trans hi')
    obtain rfl := Option.some.inj (hj.symm.trans hj')
    exact ⟨Option.some.inj (hsource'.symm.trans hsource), Option.some.inj (htarget'.symm.trans htarget)⟩
  cases hanswer with
  | refused h =>
      refine ⟨_, rfl, ⟨fun ⟨_, hok⟩ => (by cases hok), fun hboth => absurd hboth.1 h⟩, fun _ hok => (by cases hok)⟩
  | absent h =>
      refine ⟨_, rfl, ⟨fun ⟨_, hok⟩ => (by cases hok), ?_⟩, fun _ hok => (by cases hok)⟩
      rintro ⟨-, source, target, -, hends, -⟩
      exact absurd hends (h source target)
  | @searched source target _ hknown hends hfound =>
      cases hfound with
      | lost h =>
          refine ⟨_, rfl, ⟨fun ⟨_, hok⟩ => (by cases hok), ?_⟩, fun _ hok => (by cases hok)⟩
          rintro ⟨-, source', target', p, hends', hpath⟩
          obtain ⟨rfl, rfl⟩ := hsingle hends hends'
          exact absurd hpath (h p)
      | @led steps hpath hleast hapart =>
          refine ⟨_, rfl, ⟨fun _ => ⟨hknown, source, target, steps, hends, hpath⟩, fun _ => ⟨steps, rfl⟩⟩, ?_⟩
          rintro _ hok
          cases hok
          exact ⟨source, target, hends, hpath, hleast, hapart, fun now trusted =>
            ⟨source_planned hc hends now trusted, evidence_planned hc hends hpath now trusted⟩⟩

end Answers

section Sample

def sampleSystem : Paths.System := ⟨some, none, none⟩

def sampleWide (s : Text) : Option Paths.Wide := some (s.map fun c => UInt16.ofNat c.toNat)

def sampleDigest : Text := List.replicate 64 '1'

/-- A release, and a transition to its successor. -/
def sampleBytes : Text :=
  "\x7b\"schema\":1,\"key_id\":\"".toList ++ sampleDigest ++
    "\",\"revision\":1,\"issued_at\":1,\"expires_at\":9,\"stable\":\"1.0.1\",\"releases\":[".toList ++
    "\x7b\"version\":\"1.0.0\",\"revoked\":true,\"manifest_sha256\":\"".toList ++ sampleDigest ++
    "\"\x7d,\x7b\"version\":\"1.0.1\",\"revoked\":false,\"manifest_sha256\":\"".toList ++ sampleDigest ++
    "\"\x7d],\"transitions\":[\x7b\"from\":\"1.0.0\",\"to\":\"1.0.1\",\"arch\":\"x64\",\"profile\":\"desk\",".toList ++
    "\"evidence_sha256\":\"".toList ++ sampleDigest ++ "\"\x7d]\x7d".toList

def sampleTarget : L4CatalogRelease := ⟨"1.0.1".toList, List.replicate 32 17, false⟩

def sampleCatalog : L4Catalog where
  revision := 1
  issued := 1
  expires := 9
  digest := []
  keyId := sampleDigest
  stable := some 1
  releases := [⟨"1.0.0".toList, List.replicate 32 17, true⟩, sampleTarget]
  transitions := [⟨0, 1, "x64".toList, "desk".toList, List.replicate 32 17⟩]

theorem sample_parsed : parse sampleSystem sampleWide sampleBytes [] sampleDigest 5 = some sampleCatalog := by
  decide +kernel

theorem route_shortest_sample : ∃ answer,
    l4CatalogRoute sampleCatalog "x64".toList "desk".toList 25 "1.0.0".toList (List.replicate 32 17) "latest".toList =
      some answer ∧ ∃ steps, answer = .ok steps ∧ steps.length = 1 := by
  obtain ⟨answer, hroute, -, -⟩ := route_shortest sample_parsed (show maxReleases < 25 by decide) "1.0.0".toList
    (List.replicate 32 17) "latest".toList "x64".toList "desk".toList
  refine ⟨answer, hroute, [sampleTarget], ?_, rfl⟩
  exact Option.some.inj (hroute.symm.trans (by decide +kernel))

/-- A machine that is where it is to go needs no transition, but its processor
and its profile are looked at before that. -/
theorem route_refused : ∃ c, parse sampleSystem sampleWide sampleBytes [] sampleDigest 5 = some c ∧
    (∃ source target, Ends c "1.0.1".toList (List.replicate 32 17) "1.0.1".toList source target ∧
      Admissible c "arm".toList "desk".toList source [] target) ∧
    l4CatalogRoute c "arm".toList "desk".toList 25 "1.0.1".toList (List.replicate 32 17) "1.0.1".toList =
      some (.error .invalidParameter) := by
  have hlisted : sampleTarget ∈ sampleCatalog.releases := List.mem_cons_of_mem _ List.mem_cons_self
  have hrequested : Requested sampleCatalog "1.0.1".toList sampleTarget := by
    rw [Requested, if_neg (by decide)]
    exact ⟨hlisted, rfl⟩
  exact ⟨sampleCatalog, sample_parsed, ⟨sampleTarget, sampleTarget, ⟨hlisted, rfl, rfl, hrequested, rfl⟩, rfl⟩,
    by decide +kernel⟩

end Sample

end EtranProcessing.Deployment.CatalogRoutes
