import Mathlib

namespace EtranProcessing.Library.BreadthFirst

variable {V : Type} [DecidableEq V]

section Paths

variable {next : V → List V}

/-- The vertices after `u` of a path from `u` to `v`. -/
def Path (next : V → List V) : V → List V → V → Prop
  | u, [], v => u = v
  | u, w :: p, v => w ∈ next u ∧ Path next w p v

omit [DecidableEq V] in
theorem path_concat {u v w : V} (p : List V) : Path next u (p ++ [w]) v ↔ w = v ∧ ∃ x, Path next u p x ∧ w ∈ next x := by
  induction p generalizing u with
  | nil => simp [Path, and_comm]
  | cons x p ih =>
      simp only [List.cons_append, Path, ih]
      constructor
      · rintro ⟨hx, hw, y, hy, hmem⟩
        exact ⟨hw, y, ⟨hx, hy⟩, hmem⟩
      · rintro ⟨hw, y, ⟨hx, hy⟩, hmem⟩
        exact ⟨hx, hw, y, hy, hmem⟩

end Paths

structure Search (V : Type) where
  parent : V → Option V
  done : List V
  pending : List V

def Search.seen (s : Search V) : List V := s.done ++ s.pending

def start (root : V) : Search V := ⟨Function.update (fun _ => none) root (some root), [], [root]⟩

def discover (a : V) (s : Search V) (v : V) : Search V :=
  if (s.parent v).isSome then s
  else { s with parent := Function.update s.parent v (some a), pending := s.pending ++ [v] }

def expand (next : V → List V) (s : Search V) : Search V :=
  match s.pending with
  | [] => s
  | a :: rest => (next a).foldl (discover a) { s with done := s.done ++ [a], pending := rest }

def search (next : V → List V) (target : V) : Nat → Search V → Option (Search V)
  | 0, _ => none
  | fuel + 1, s => if s.pending = [] ∨ (s.parent target).isSome then some s else search next target fuel (expand next s)

def trace (parent : V → Option V) (root : V) : Nat → V → Option (List V)
  | 0, _ => none
  | fuel + 1, v => if v = root then some [] else (parent v).bind fun u => (trace parent root fuel u).map (v :: ·)

/-- What is known of every vertex found: its depth is that of its parent and
one more, and no path to it is shorter. -/
structure Tree (next : V → List V) (root : V) (depth : V → Nat) (s : Search V) : Prop where
  nodup : s.seen.Nodup
  found : ∀ v, (s.parent v).isSome ↔ v ∈ s.seen
  rooted : root ∈ s.seen
  zero : depth root = 0
  link : ∀ v u, s.parent v = some u → v ≠ root → u ∈ s.done ∧ v ∈ next u ∧ depth v = depth u + 1
  order : s.pending.Pairwise (depth · ≤ depth ·)
  least : ∀ p v, Path next root p v → v ∈ s.seen → depth v ≤ p.length

structure Layers (next : V → List V) (root : V) (depth : V → Nat) (s : Search V) : Prop extends Tree next root depth s where
  band : ∀ u ∈ s.pending, ∀ v ∈ s.pending, depth v ≤ depth u + 1
  closed : ∀ u ∈ s.done, ∀ v ∈ next u, v ∈ s.seen

/-- While the successors of `a` are looked at. -/
structure Expanding (next : V → List V) (root : V) (depth : V → Nat) (a : V) (s : Search V) : Prop
    extends Tree next root depth s where
  taken : a ∈ s.done
  low : ∀ v ∈ s.pending, depth a ≤ depth v
  high : ∀ v ∈ s.pending, depth v ≤ depth a + 1
  near : ∀ p v, Path next root p v → p.length ≤ depth a → v ∈ s.seen

section Runs

variable {next : V → List V} {root a v target : V} {depth : V → Nat} {s : Search V}

theorem seen_discover (a : V) (s : Search V) (v : V) :
    (discover a s v).seen = if (s.parent v).isSome then s.seen else s.seen ++ [v] := by
  rw [discover]
  split
  · rfl
  · rw [Search.seen, Search.seen, List.append_assoc]

@[simp] theorem done_discover (a : V) (s : Search V) (v : V) : (discover a s v).done = s.done := by
  rw [discover]
  split <;> rfl

theorem Expanding.discover (h : Expanding next root depth a s) (hv : v ∈ next a) :
    ∃ depth', Expanding next root depth' a (discover a s v) := by
  by_cases hold : (s.parent v).isSome
  · exact ⟨depth, by rwa [BreadthFirst.discover, if_pos hold]⟩
  have hnew : v ∉ s.seen := fun hmem => hold ((h.found v).mpr hmem)
  have hne : ∀ {w}, w ∈ s.seen → w ≠ v := fun hw heq => hnew (heq ▸ hw)
  have ha : a ∈ s.seen := List.mem_append_left _ h.taken
  have hroot : root ≠ v := hne h.rooted
  have hpending : ∀ {w}, w ∈ s.pending → w ≠ v := fun hw => hne (List.mem_append_right _ hw)
  have hdone : ∀ {w}, w ∈ s.done → w ≠ v := fun hw => hne (List.mem_append_left _ hw)
  rw [BreadthFirst.discover, if_neg hold]
  refine ⟨Function.update depth v (depth a + 1), ⟨?_, ?_, ?_, ?_, ?_, ?_, ?_⟩, h.taken, ?_, ?_, ?_⟩
  · rw [Search.seen, ← List.append_assoc, List.nodup_append]
    refine ⟨h.nodup, List.nodup_singleton v, ?_⟩
    intro w hw x hx
    rw [List.mem_singleton.mp hx]
    exact hne hw
  · intro w
    by_cases hw : w = v
    · simp [hw, Search.seen]
    · simp only [Function.update_of_ne hw, h.found w, Search.seen, List.mem_append, List.mem_singleton, hw, or_false]
  · rw [Search.seen, ← List.append_assoc]
    exact List.mem_append_left _ h.rooted
  · rw [Function.update_of_ne hroot]
    exact h.zero
  · intro w u hparent hw
    change Function.update s.parent v (some a) w = some u at hparent
    by_cases heq : w = v
    · subst heq
      rw [Function.update_self] at hparent
      obtain rfl := Option.some.inj hparent
      rw [Function.update_self, Function.update_of_ne (hdone h.taken)]
      exact ⟨h.taken, hv, rfl⟩
    · rw [Function.update_of_ne heq] at hparent
      obtain ⟨hu, hmem, hdepth⟩ := h.link w u hparent hw
      rw [Function.update_of_ne heq, Function.update_of_ne (hdone hu)]
      exact ⟨hu, hmem, hdepth⟩
  · rw [List.pairwise_append]
    refine ⟨h.order.imp_of_mem ?_, List.pairwise_singleton _ _, ?_⟩
    · intro x y hx hy hle
      rwa [Function.update_of_ne (hpending hx), Function.update_of_ne (hpending hy)]
    · intro x hx y hy
      rw [List.mem_singleton.mp hy, Function.update_self, Function.update_of_ne (hpending hx)]
      exact h.high x hx
  · intro p w hpath hw
    by_cases heq : w = v
    · subst heq
      rw [Function.update_self]
      by_contra hshort
      exact hnew (h.near p w hpath (by omega))
    · rw [Function.update_of_ne heq]
      refine h.least p w hpath ?_
      simpa [Search.seen, heq] using hw
  · intro w hw
    rw [Function.update_of_ne (hdone h.taken)]
    rcases List.mem_append.mp hw with hw | hw
    · rw [Function.update_of_ne (hpending hw)]
      exact h.low w hw
    · rw [List.mem_singleton.mp hw, Function.update_self]
      exact Nat.le_succ _
  · intro w hw
    rw [Function.update_of_ne (hdone h.taken)]
    rcases List.mem_append.mp hw with hw | hw
    · rw [Function.update_of_ne (hpending hw)]
      exact h.high w hw
    · rw [List.mem_singleton.mp hw, Function.update_self]
  · intro p w hpath hle
    rw [Function.update_of_ne (hdone h.taken)] at hle
    rw [Search.seen, ← List.append_assoc]
    exact List.mem_append_left _ (h.near p w hpath hle)

theorem seen_discover_mono (a : V) (s : Search V) (v : V) : s.seen ⊆ (discover a s v).seen := by
  intro w hw
  rw [seen_discover]
  split
  · exact hw
  · exact List.mem_append_left _ hw

theorem Expanding.mem_discover (h : Expanding next root depth a s) (v : V) : v ∈ (BreadthFirst.discover a s v).seen := by
  rw [seen_discover]
  split
  next hold => exact (h.found v).mp hold
  next => exact List.mem_append_right _ (List.mem_singleton_self v)

theorem Expanding.fold (h : Expanding next root depth a s) (l : List V) (hl : l ⊆ next a) :
    (∃ depth', Expanding next root depth' a (l.foldl (BreadthFirst.discover a) s)) ∧
      s.seen ⊆ (l.foldl (BreadthFirst.discover a) s).seen ∧ l ⊆ (l.foldl (BreadthFirst.discover a) s).seen ∧
      (l.foldl (BreadthFirst.discover a) s).done = s.done := by
  induction l generalizing s depth with
  | nil => exact ⟨⟨depth, h⟩, fun _ hw => hw, List.nil_subset _, rfl⟩
  | cons v l ih =>
      obtain ⟨hv, hl⟩ := List.cons_subset.mp hl
      obtain ⟨depth', h'⟩ := h.discover hv
      obtain ⟨hend, hkeep, hfound, hdone⟩ := ih h' hl
      refine ⟨hend, fun w hw => hkeep (seen_discover_mono a s v hw), List.cons_subset.mpr ⟨?_, hfound⟩, ?_⟩
      · exact hkeep (h.mem_discover v)
      · rw [List.foldl_cons, hdone, done_discover]

omit [DecidableEq V] in
theorem seen_taken {rest : List V} (hpending : s.pending = a :: rest) :
    Search.seen { s with done := s.done ++ [a], pending := rest } = s.seen := by
  rw [Search.seen, Search.seen, hpending, List.append_assoc, List.singleton_append]

theorem Layers.near (h : Layers next root depth s) {rest : List V} (hpending : s.pending = a :: rest) (p : List V) (v : V)
    (hpath : Path next root p v) (hle : p.length ≤ depth a) : v ∈ s.seen := by
  induction p using List.reverseRecOn generalizing v with
  | nil => exact hpath ▸ h.rooted
  | append_singleton p w ih =>
      obtain ⟨rfl, u, hu, hmem⟩ := (path_concat p).mp hpath
      rw [List.length_append, List.length_singleton] at hle
      have hseen := ih u hu (by omega)
      have hdepth := h.least p u hu hseen
      rcases List.mem_append.mp hseen with hdone | hwait
      · exact h.closed u hdone w hmem
      · have horder := h.order
        rw [hpending, List.pairwise_cons] at horder
        rw [hpending, List.mem_cons] at hwait
        rcases hwait with rfl | hwait
        · omega
        · have := horder.1 u hwait
          omega

theorem Layers.begin (h : Layers next root depth s) {rest : List V} (hpending : s.pending = a :: rest) :
    Expanding next root depth a { s with done := s.done ++ [a], pending := rest } := by
  have hseen := seen_taken hpending
  have horder := h.order
  rw [hpending, List.pairwise_cons] at horder
  have ha : a ∈ s.pending := hpending ▸ List.mem_cons_self
  have hrest : ∀ v ∈ rest, v ∈ s.pending := fun v hv => hpending ▸ List.mem_cons_of_mem a hv
  refine ⟨⟨hseen ▸ h.nodup, fun v => hseen ▸ h.found v, hseen ▸ h.rooted, h.zero, ?_, horder.2, ?_⟩, ?_, ?_, ?_, ?_⟩
  · intro v u hparent hv
    obtain ⟨hu, hrest⟩ := h.link v u hparent hv
    exact ⟨List.mem_append_left _ hu, hrest⟩
  · intro p v hpath hv
    exact h.least p v hpath (hseen ▸ hv)
  · exact List.mem_append_right _ (List.mem_singleton_self a)
  · exact horder.1
  · exact fun v hv => h.band a ha v (hrest v hv)
  · exact fun p v hpath hle => hseen ▸ h.near hpending p v hpath hle

theorem expand_cons {rest : List V} (hpending : s.pending = a :: rest) :
    expand next s = (next a).foldl (discover a) { s with done := s.done ++ [a], pending := rest } := by
  rw [expand, hpending]

theorem Layers.expand (h : Layers next root depth s) : ∃ depth', Layers next root depth' (expand next s) := by
  rw [BreadthFirst.expand]
  split
  next => exact ⟨depth, h⟩
  next a rest hpending =>
    obtain ⟨⟨depth', h'⟩, hkeep, hfound, hdone⟩ := (h.begin hpending).fold (next a) fun _ hw => hw
    refine ⟨depth', h'.toTree, ?_, ?_⟩
    · intro u hu v hv
      have := h'.low u hu
      have := h'.high v hv
      omega
    · intro u hu v hv
      rw [hdone, List.mem_append, List.mem_singleton] at hu
      rcases hu with hu | rfl
      · refine hkeep ?_
        rw [seen_taken hpending]
        exact h.closed u hu v hv
      · exact hfound hv

theorem layers_start (next : V → List V) (root : V) : Layers next root (fun _ => 0) (start root) := by
  refine ⟨⟨List.nodup_singleton root, ?_, List.mem_singleton_self root, rfl, ?_, List.pairwise_singleton _ _, ?_⟩, ?_, ?_⟩
  · intro v
    by_cases hv : v = root
    · simp [hv, start, Search.seen]
    · simp [hv, start, Search.seen]
  · intro v u hparent hv
    simp [start, Function.update_of_ne hv] at hparent
  · exact fun p _ _ _ => Nat.zero_le p.length
  · exact fun _ _ _ _ => Nat.zero_le _
  · exact fun u hu => absurd hu (List.not_mem_nil)

end Runs

structure Within (next : V → List V) (root : V) (vertices : Finset V) : Prop where
  root : root ∈ vertices
  step : ∀ u, ∀ v ∈ next u, v ∈ vertices

section Ends

variable {next : V → List V} {root a v target : V} {depth : V → Nat} {s : Search V} {vertices : Finset V}

theorem Tree.within (h : Tree next root depth s) (hw : Within next root vertices) (hv : v ∈ s.seen) : v ∈ vertices := by
  by_cases heq : v = root
  · exact heq ▸ hw.root
  obtain ⟨u, hu⟩ := Option.isSome_iff_exists.mp ((h.found v).mpr hv)
  exact hw.step u v (h.link v u hu heq).2.1

theorem Tree.seen_le (h : Tree next root depth s) (hw : Within next root vertices) : s.seen.length ≤ vertices.card := by
  rw [← List.toFinset_card_of_nodup h.nodup]
  exact Finset.card_le_card fun v hv => h.within hw (List.mem_toFinset.mp hv)

theorem Tree.room (h : Tree next root depth s) (hw : Within next root vertices) (hv : v ∉ s.seen) (hmem : v ∈ vertices) :
    s.seen.length < vertices.card := by
  rw [← List.toFinset_card_of_nodup h.nodup]
  refine Finset.card_lt_card (Finset.ssubset_iff_of_subset ?_ |>.mpr ⟨v, hmem, fun hin => hv (List.mem_toFinset.mp hin)⟩)
  exact fun w hin => h.within hw (List.mem_toFinset.mp hin)

theorem expand_done (hpending : s.pending ≠ []) : (expand next s).done.length = s.done.length + 1 := by
  obtain ⟨a, rest, heq⟩ := List.exists_cons_of_ne_nil hpending
  have hfold : ∀ (l : List V) (s : Search V), (l.foldl (discover a) s).done = s.done := by
    intro l
    induction l with
    | nil => exact fun _ => rfl
    | cons v l ih => exact fun s => (ih _).trans (done_discover a s v)
  rw [expand_cons heq, hfold, List.length_append, List.length_singleton]

theorem Layers.search (h : Layers next root depth s) (hw : Within next root vertices) (target : V) (fuel : Nat)
    (hfuel : vertices.card < s.done.length + fuel) :
    ∃ s' depth', search next target fuel s = some s' ∧ Layers next root depth' s' ∧
      (s'.pending = [] ∨ (s'.parent target).isSome) := by
  induction fuel generalizing s depth with
  | zero =>
      have hlen := h.seen_le hw
      rw [Search.seen, List.length_append] at hlen
      omega
  | succ fuel ih =>
      rw [BreadthFirst.search]
      split
      next hstop => exact ⟨s, depth, rfl, h, hstop⟩
      next hgo =>
        obtain ⟨depth', h'⟩ := h.expand
        have hdone : (BreadthFirst.expand next s).done.length = s.done.length + 1 := expand_done fun hnil => hgo (.inl hnil)
        exact ih h' (by omega)

omit [DecidableEq V] in
theorem Layers.reaches (h : Layers next root depth s) (hpending : s.pending = []) (p : List V) (v : V)
    (hpath : Path next root p v) : v ∈ s.seen := by
  induction p using List.reverseRecOn generalizing v with
  | nil => exact hpath ▸ h.rooted
  | append_singleton p w ih =>
      obtain ⟨rfl, u, hu, hmem⟩ := (path_concat p).mp hpath
      have hseen := ih u hu
      rw [Search.seen, hpending, List.append_nil] at hseen
      exact h.closed u hseen w hmem

theorem Tree.trace (h : Tree next root depth s) (fuel : Nat) (v : V) (hv : v ∈ s.seen) (hfuel : depth v < fuel) :
    ∃ r, trace s.parent root fuel v = some r ∧ Path next root r.reverse v ∧ r.length = depth v ∧ r.Nodup ∧
      (∀ w ∈ r, w ≠ root ∧ depth w ≤ depth v) := by
  induction fuel generalizing v with
  | zero => exact absurd hfuel (Nat.not_lt_zero _)
  | succ fuel ih =>
      by_cases heq : v = root
      · refine ⟨[], ?_, heq.symm, ?_, List.nodup_nil, fun _ hw => absurd hw List.not_mem_nil⟩
        · rw [BreadthFirst.trace, if_pos heq]
        · rw [heq, h.zero, List.length_nil]
      obtain ⟨u, hu⟩ := Option.isSome_iff_exists.mp ((h.found v).mpr hv)
      obtain ⟨hdone, hmem, hdepth⟩ := h.link v u hu heq
      obtain ⟨r, htrace, hpath, hlen, hnodup, hbelow⟩ := ih u (List.mem_append_left _ hdone) (by omega)
      refine ⟨v :: r, ?_, ?_, ?_, ?_, ?_⟩
      · rw [BreadthFirst.trace, if_neg heq, hu, Option.bind_some, htrace, Option.map_some]
      · rw [List.reverse_cons, path_concat]
        exact ⟨rfl, u, hpath, hmem⟩
      · rw [List.length_cons, hlen, hdepth]
      · refine List.nodup_cons.mpr ⟨fun hin => ?_, hnodup⟩
        have := (hbelow v hin).2
        omega
      · intro w hw
        rcases List.mem_cons.mp hw with rfl | hw
        · exact ⟨heq, Nat.le_refl _⟩
        · exact ⟨(hbelow w hw).1, by have := (hbelow w hw).2; omega⟩

theorem Tree.depth_lt (h : Tree next root depth s) (hw : Within next root vertices) (hv : v ∈ s.seen) :
    depth v < vertices.card := by
  obtain ⟨r, -, hpath, hlen, hnodup, hbelow⟩ := h.trace (depth v + 1) v hv (Nat.lt_succ_self _)
  have hinside : ∀ w ∈ root :: r, w ∈ vertices := by
    have hstep : ∀ (p : List V) (u : V), Path next u p v → ∀ w ∈ p, w ∈ vertices := by
      intro p
      induction p with
      | nil => exact fun _ _ w hin => absurd hin List.not_mem_nil
      | cons x p ih =>
          rintro u ⟨hx, hrest⟩ w hin
          rcases List.mem_cons.mp hin with rfl | hin
          · exact hw.step u w hx
          · exact ih x hrest w hin
    intro w hin
    rcases List.mem_cons.mp hin with rfl | hin
    · exact hw.root
    · exact hstep _ root hpath w (List.mem_reverse.mpr hin)
  have hall : (root :: r).Nodup := List.nodup_cons.mpr ⟨fun hin => (hbelow root hin).1 rfl, hnodup⟩
  have hcard : (root :: r).length ≤ vertices.card := by
    rw [← List.toFinset_card_of_nodup hall]
    exact Finset.card_le_card fun w hin => hinside w (List.mem_toFinset.mp hin)
  rw [List.length_cons, hlen] at hcard
  omega

end Ends

end EtranProcessing.Library.BreadthFirst
