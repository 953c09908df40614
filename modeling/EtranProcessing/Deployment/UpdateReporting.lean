import EtranProcessing.Library.Runs

namespace EtranProcessing.Deployment.UpdateReporting

open Library.Runs

def reportHistory : Nat := 64
def maxAttempts : Nat := 2
def recoveryRequired : Nat := 3

structure Delivery where
  operation : List Char
  correlation : List Char
  id : Nat
  attempts : Nat
  sent : Bool
  retry : Nat
  finished : Nat

structure L4UpdateReporting where
  deliveries : List Delivery
  historyFloor : Nat

/-- What is read of the status of an operation. -/
structure L4RemoteStatus where
  hasOutcome : Bool
  outcomeResult : Nat
  outcomeFinishedAt : Nat
  outcomeCleared : Bool
  hasResult : Bool
  resultFinishedAt : Nat

/-- A status that has been observed, and what the calls that it leads to answer. -/
structure Observation where
  operation : List Char
  status : L4RemoteStatus
  guid : Option (Nat × List Char)
  ticks : Nat
  ready : Bool
  json : Bool
  event : Bool
  ticksAfter : Nat

def folded (operation : List Char) : List Char := operation.map Char.toLower

def Delivery.name (d : Delivery) : List Char := folded d.operation

def L4RemoteStatus.finishedAt (status : L4RemoteStatus) : Option Nat :=
  if status.hasOutcome then
    if status.outcomeResult ≠ recoveryRequired ∧ status.outcomeCleared = false then none else some status.outcomeFinishedAt
  else if status.hasResult then some status.resultFinishedAt
  else none

def oldest : List Delivery → Nat
  | [] => 0
  | d :: ds => match ds[oldest ds]? with
    | none => 0
    | some e => if e.finished < d.finished then oldest ds + 1 else 0

def newDelivery (operation : List Char) (finished : Nat) (guid : Nat × List Char) : Delivery where
  operation := operation
  correlation := guid.2
  id := if guid.1 % 2 ^ 31 = 0 then 1 else guid.1 % 2 ^ 31
  attempts := 0
  sent := false
  retry := 0
  finished := finished

/-- The record of an operation, a new one at need; a full history gives up its oldest. -/
def delivery (r : L4UpdateReporting) (operation : List Char) (finished : Nat) (guid : Option (Nat × List Char)) :
    Option (Nat × L4UpdateReporting) :=
  match r.deliveries.findIdx? fun d => d.name = folded operation with
  | some n => some (n, r)
  | none =>
      if finished ≤ r.historyFloor then none
      else if r.deliveries.length < reportHistory then
        guid.map fun g => (r.deliveries.length, { r with deliveries := r.deliveries ++ [newDelivery operation finished g] })
      else
        match r.deliveries[oldest r.deliveries]? with
        | none => none
        | some evicted =>
            if finished ≤ evicted.finished then none
            else guid.map fun g =>
              (oldest r.deliveries,
                ⟨r.deliveries.set (oldest r.deliveries) (newDelivery operation finished g), evicted.finished⟩)

structure Reported where
  reporting : L4UpdateReporting
  made : List (List Char)
  attempts : List (List Char × Bool)

def started : Reported := ⟨⟨[], 0⟩, [], []⟩

def Delivery.due (d : Delivery) (o : Observation) : Bool :=
  !d.sent && d.attempts < maxAttempts && d.retry ≤ o.ticks && o.ready && o.json

def Delivery.tried (d : Delivery) (o : Observation) : Delivery :=
  { d with attempts := d.attempts + 1, sent := o.event, retry := o.ticksAfter + 5000 }

def sendResult (s : Reported) (o : Observation) : Reported :=
  match o.status.finishedAt with
  | none => s
  | some finished =>
      match delivery s.reporting o.operation finished o.guid with
      | none => s
      | some (n, r) =>
          match r.deliveries[n]? with
          | none => s
          | some d =>
              let made := if (s.reporting.deliveries.findIdx? fun e => e.name = folded o.operation).isSome then s.made
                else s.made ++ [folded o.operation]
              if d.due o then
                ⟨{ r with deliveries := r.deliveries.set n (d.tried o) }, made, s.attempts ++ [(folded o.operation, o.event)]⟩
              else ⟨r, made, s.attempts⟩

/-! ### The record of an operation -/

theorem oldest_le (ds : List Delivery) {e : Delivery} (h : ds[oldest ds]? = some e) : ∀ d ∈ ds, e.finished ≤ d.finished := by
  induction ds generalizing e with
  | nil => simp
  | cons d ds ih =>
      intro x hx
      rw [oldest] at h
      cases hrest : ds[oldest ds]? with
      | none =>
          have hempty : ds = [] := by
            cases ds with
            | nil => rfl
            | cons c cs =>
                exfalso
                rw [oldest] at hrest
                split at hrest
                next hnone => simp at hrest
                next e he => split at hrest <;> simp_all
          rw [hrest] at h
          subst hempty
          obtain rfl : d = e := by simpa using h
          obtain rfl : x = d := by simpa using hx
          exact Nat.le_refl _
      | some y =>
          have hmin := ih hrest
          simp only [hrest] at h
          split at h
          next hlt =>
            obtain rfl : y = e := Option.some.inj (hrest.symm.trans (by simpa using h))
            rcases List.mem_cons.mp hx with rfl | hx
            · exact Nat.le_of_lt hlt
            · exact hmin x hx
          next hle =>
            obtain rfl : d = e := by simpa using h
            rcases List.mem_cons.mp hx with rfl | hx
            · exact Nat.le_refl _
            · exact Nat.le_trans (Nat.le_of_not_lt hle) (hmin x hx)

variable {operation : List Char}

theorem delivery_cases {r r' : L4UpdateReporting} {finished n : Nat} {guid : Option (Nat × List Char)}
    (h : delivery r operation finished guid = some (n, r')) :
    (r' = r ∧ (∃ d, r.deliveries[n]? = some d ∧ d.name = folded operation) ∧
        ((r.deliveries.findIdx? fun d => d.name = folded operation).isSome)) ∨
      ((r.deliveries.findIdx? fun d => d.name = folded operation) = none ∧ r.historyFloor < finished ∧ ∃ g,
        (r.deliveries.length < reportHistory ∧ n = r.deliveries.length ∧
          r' = { r with deliveries := r.deliveries ++ [newDelivery operation finished g] }) ∨
        ∃ evicted, r.deliveries[n]? = some evicted ∧ (∀ d ∈ r.deliveries, evicted.finished ≤ d.finished) ∧
          evicted.finished < finished ∧ r' = ⟨r.deliveries.set n (newDelivery operation finished g), evicted.finished⟩) := by
  unfold delivery at h
  cases hfind : r.deliveries.findIdx? fun d => d.name = folded operation with
  | some i =>
      rw [hfind] at h
      obtain ⟨rfl, rfl⟩ := Prod.mk.inj (Option.some.inj h)
      obtain ⟨hlt, hname, -⟩ := List.findIdx?_eq_some_iff_getElem.mp hfind
      exact .inl ⟨rfl, ⟨_, List.getElem?_eq_getElem hlt, by simpa using hname⟩, rfl⟩
  | none =>
      rw [hfind] at h
      dsimp only at h
      split at h
      next => cases h
      next hfloor =>
        refine .inr ⟨rfl, Nat.lt_of_not_le hfloor, ?_⟩
        split at h
        next hroom =>
          obtain ⟨g, -, hg⟩ := Option.map_eq_some_iff.mp h
          obtain ⟨rfl, rfl⟩ := Prod.mk.inj hg
          exact ⟨g, .inl ⟨hroom, rfl, rfl⟩⟩
        next =>
          split at h
          next => cases h
          next evicted hevicted =>
            split at h
            next => cases h
            next hnewer =>
              obtain ⟨g, -, hg⟩ := Option.map_eq_some_iff.mp h
              obtain ⟨rfl, rfl⟩ := Prod.mk.inj hg
              exact ⟨g, .inr ⟨evicted, hevicted, oldest_le _ hevicted, Nat.lt_of_not_le hnewer, rfl⟩⟩

/-! ### What every observation keeps -/

def names (r : L4UpdateReporting) : List (List Char) := r.deliveries.map Delivery.name

def tries (attempts : List (List Char × Bool)) (name : List Char) : List (List Char × Bool) :=
  attempts.filter fun a => a.1 = name

structure Kept (finish : List Char → Nat) (s : Reported) : Prop where
  room : s.reporting.deliveries.length ≤ reportHistory
  distinct : (names s.reporting).Nodup
  finished : ∀ d ∈ s.reporting.deliveries, d.finished = finish d.name ∧ s.reporting.historyFloor ≤ d.finished
  once : s.made.Nodup
  gone : ∀ name ∈ s.made, name ∈ names s.reporting ∨ finish name ≤ s.reporting.historyFloor
  known : ∀ name ∈ names s.reporting, name ∈ s.made
  counted : ∀ d ∈ s.reporting.deliveries, (tries s.attempts d.name).length = d.attempts ∧
    ∀ a ∈ tries s.attempts d.name, a.2 = true → d.sent = true
  limited : ∀ name, (tries s.attempts name).length ≤ maxAttempts
  quiet : s.attempts.Pairwise fun a b => a.1 = b.1 → a.2 = false
  recorded : ∀ a ∈ s.attempts, a.1 ∈ s.made

variable {finish : List Char → Nat} {s : Reported}

theorem kept_started : Kept finish started := by
  constructor <;> simp [started, names, tries]

theorem findIdx_names {r : L4UpdateReporting} :
    (r.deliveries.findIdx? fun d => d.name = folded operation) = none ↔ folded operation ∉ names r := by
  simp [names, List.findIdx?_eq_none_iff]

theorem Kept.unmade (h : Kept finish s) {name : List Char} (hname : name ∉ names s.reporting)
    (hfloor : s.reporting.historyFloor < finish name) : name ∉ s.made := by
  intro hmade
  rcases h.gone name hmade with hthere | hold
  · exact hname hthere
  · omega

theorem tries_nil (h : Kept finish s) {name : List Char} (hname : name ∉ s.made) : tries s.attempts name = [] := by
  refine List.filter_eq_nil_iff.mpr fun a ha e => hname ?_
  simp only [decide_eq_true_eq] at e
  exact e ▸ h.recorded a ha

theorem kept_appended (h : Kept finish s) {g : Nat × List Char}
    (hroom : s.reporting.deliveries.length < reportHistory) (hname : folded operation ∉ names s.reporting)
    (hfloor : s.reporting.historyFloor < finish (folded operation)) :
    Kept finish ⟨{ s.reporting with
      deliveries := s.reporting.deliveries ++ [newDelivery operation (finish (folded operation)) g] },
      s.made ++ [folded operation], s.attempts⟩ := by
  have hunmade := h.unmade hname hfloor
  constructor
  case room => simpa using Nat.succ_le_of_lt hroom
  case distinct =>
    rw [names, List.map_append, List.nodup_append]
    exact ⟨h.distinct, by simp, by simpa [Delivery.name, newDelivery, names] using hname⟩
  case finished =>
    intro d hd
    rcases List.mem_append.mp hd with hd | hd
    · exact h.finished d hd
    · obtain rfl := List.mem_singleton.mp hd
      exact ⟨rfl, Nat.le_of_lt hfloor⟩
  case once =>
    refine List.nodup_append.mpr ⟨h.once, by simp, fun a ha b hb e => ?_⟩
    obtain rfl := List.mem_singleton.mp hb
    exact hunmade (e ▸ ha)
  case gone =>
    intro name hmade
    rcases List.mem_append.mp hmade with hmade | hmade
    · exact (h.gone name hmade).imp (by simp only [names, List.map_append]; exact List.mem_append_left _) id
    · obtain rfl := List.mem_singleton.mp hmade
      exact .inl (by simp [names, Delivery.name, newDelivery])
  case known =>
    intro name hthere
    simp only [names, List.map_append, List.mem_append] at hthere
    rcases hthere with hthere | hthere
    · exact List.mem_append_left _ (h.known name hthere)
    · exact List.mem_append_right _ (by simpa [Delivery.name, newDelivery] using hthere)
  case counted =>
    intro d hd
    rcases List.mem_append.mp hd with hd | hd
    · exact h.counted d hd
    · obtain rfl := List.mem_singleton.mp hd
      simp [Delivery.name, newDelivery, tries_nil h hunmade]
  case limited => exact h.limited
  case quiet => exact h.quiet
  case recorded => exact fun a ha => List.mem_append_left _ (h.recorded a ha)

theorem mem_set_cases {ds : List Delivery} {n : Nat} {d x : Delivery} (hx : x ∈ ds.set n d) :
    x = d ∨ ∃ j, j ≠ n ∧ ds[j]? = some x := by
  obtain ⟨j, hj⟩ := List.mem_iff_getElem?.mp hx
  by_cases hjn : n = j
  · subst hjn
    obtain ⟨hlt, -⟩ := List.getElem?_eq_some_iff.mp hj
    rw [List.length_set] at hlt
    rw [List.getElem?_set_self hlt] at hj
    exact .inl (Option.some.inj hj).symm
  · rw [List.getElem?_set_ne hjn] at hj
    exact .inr ⟨j, Ne.symm hjn, hj⟩

theorem kept_replaced (h : Kept finish s) {g : Nat × List Char} {n : Nat} {evicted : Delivery}
    (hn : s.reporting.deliveries[n]? = some evicted) (hmin : ∀ d ∈ s.reporting.deliveries, evicted.finished ≤ d.finished)
    (hnewer : evicted.finished < finish (folded operation)) (hname : folded operation ∉ names s.reporting)
    (hfloor : s.reporting.historyFloor < finish (folded operation)) :
    Kept finish ⟨⟨s.reporting.deliveries.set n (newDelivery operation (finish (folded operation)) g), evicted.finished⟩,
      s.made ++ [folded operation], s.attempts⟩ := by
  have hunmade := h.unmade hname hfloor
  have hevicted := List.mem_of_getElem? hn
  have hnames : names ⟨s.reporting.deliveries.set n (newDelivery operation (finish (folded operation)) g), evicted.finished⟩ =
      (names s.reporting).set n (folded operation) := by
    simp only [names, List.map_set]
    rfl
  have hat : (names s.reporting)[n]? = some evicted.name := by simp [names, hn]
  constructor
  case room => simpa using h.room
  case distinct =>
    rw [hnames]
    exact List.Nodup.set h.distinct hname
  case finished =>
    intro d hd
    rcases mem_set_cases hd with rfl | ⟨j, -, hj⟩
    · exact ⟨rfl, Nat.le_of_lt hnewer⟩
    · have hmem := List.mem_of_getElem? hj
      exact ⟨(h.finished d hmem).1, hmin d hmem⟩
  case once =>
    refine List.nodup_append.mpr ⟨h.once, by simp, fun a ha b hb e => ?_⟩
    obtain rfl := List.mem_singleton.mp hb
    exact hunmade (e ▸ ha)
  case gone =>
    intro name hmade
    rw [hnames]
    rcases List.mem_append.mp hmade with hmade | hmade
    · rcases h.gone name hmade with hthere | hold
      · obtain ⟨j, hj⟩ := List.mem_iff_getElem?.mp hthere
        by_cases hjn : n = j
        · subst hjn
          obtain rfl : evicted.name = name := Option.some.inj (hat.symm.trans hj)
          exact .inr (Nat.le_of_eq (h.finished evicted hevicted).1.symm)
        · exact .inl (List.mem_iff_getElem?.mpr ⟨j, by rw [List.getElem?_set_ne hjn, hj]⟩)
      · exact .inr (Nat.le_trans hold (h.finished evicted hevicted).2)
    · obtain rfl := List.mem_singleton.mp hmade
      obtain ⟨hlt, -⟩ := List.getElem?_eq_some_iff.mp hat
      exact .inl (List.mem_iff_getElem?.mpr ⟨n, List.getElem?_set_self hlt⟩)
  case known =>
    intro name hthere
    rw [hnames] at hthere
    rcases List.mem_or_eq_of_mem_set hthere with hthere | rfl
    · exact List.mem_append_left _ (h.known name hthere)
    · exact List.mem_append_right _ List.mem_cons_self
  case counted =>
    intro d hd
    rcases mem_set_cases hd with rfl | ⟨j, -, hj⟩
    · simp [Delivery.name, newDelivery, tries_nil h hunmade]
    · exact h.counted d (List.mem_of_getElem? hj)
  case limited => exact h.limited
  case quiet => exact h.quiet
  case recorded => exact fun a ha => List.mem_append_left _ (h.recorded a ha)

theorem tries_append (attempts : List (List Char × Bool)) (name name' : List Char) (ok : Bool) :
    tries (attempts ++ [(name, ok)]) name' = if name = name' then tries attempts name' ++ [(name, ok)]
      else tries attempts name' := by
  by_cases hname : name = name' <;> simp [tries, hname]

theorem kept_tried (h : Kept finish s) {n : Nat} {d : Delivery} {o : Observation}
    (hn : s.reporting.deliveries[n]? = some d) (hdue : d.due o = true) :
    Kept finish ⟨{ s.reporting with deliveries := s.reporting.deliveries.set n (d.tried o) }, s.made,
      s.attempts ++ [(d.name, o.event)]⟩ := by
  have hd := List.mem_of_getElem? hn
  obtain ⟨hcount, hsuccess⟩ := h.counted d hd
  simp only [Delivery.due, Bool.and_eq_true, Bool.not_eq_true', decide_eq_true_eq] at hdue
  have hnames : names { s.reporting with deliveries := s.reporting.deliveries.set n (d.tried o) } = names s.reporting := by
    have hat : (names s.reporting)[n]? = some d.name := by simp [names, hn]
    obtain ⟨hlt, hget⟩ := List.getElem?_eq_some_iff.mp hat
    simp only [names, List.map_set]
    rw [show (d.tried o).name = d.name from rfl, ← hget]
    exact List.set_getElem_self hlt
  have hother : ∀ {j x}, j ≠ n → s.reporting.deliveries[j]? = some x → d.name ≠ x.name := by
    intro j x hj hx e
    have hlt : n < (names s.reporting).length := by
      obtain ⟨hlt, -⟩ := List.getElem?_eq_some_iff.mp hn
      simpa [names] using hlt
    refine hj ((List.getElem?_inj hlt h.distinct).mp ?_).symm
    simp [names, hn, hx, e]
  constructor
  case room => simpa using h.room
  case distinct =>
    rw [hnames]
    exact h.distinct
  case finished =>
    intro x hx
    rcases mem_set_cases hx with rfl | ⟨j, -, hj⟩
    · exact h.finished d hd
    · exact h.finished x (List.mem_of_getElem? hj)
  case once => exact h.once
  case gone =>
    rw [hnames]
    exact h.gone
  case known =>
    rw [hnames]
    exact h.known
  case counted =>
    intro x hx
    rcases mem_set_cases hx with rfl | ⟨j, hjn, hj⟩
    · rw [show (d.tried o).name = d.name from rfl, tries_append, if_pos rfl]
      refine ⟨by simp [hcount, Delivery.tried], fun a ha hok => ?_⟩
      rcases List.mem_append.mp ha with ha | ha
      · have hsent := hsuccess a ha hok
        rw [hdue.1.1.1.1] at hsent
        cases hsent
      · obtain rfl := List.mem_singleton.mp ha
        exact hok
    · rw [tries_append, if_neg (hother hjn hj)]
      exact h.counted x (List.mem_of_getElem? hj)
  case limited =>
    intro name
    rw [tries_append]
    split
    next hname =>
      rw [List.length_append, ← hname, hcount]
      exact hdue.1.1.1.2
    next => exact h.limited name
  case quiet =>
    refine List.pairwise_append.mpr ⟨h.quiet, by simp, fun a ha b hb hname => ?_⟩
    obtain rfl := List.mem_singleton.mp hb
    by_contra hok
    have hsent := hsuccess a (List.mem_filter.mpr ⟨ha, by simpa using hname⟩) (by simpa using hok)
    rw [hdue.1.1.1.1] at hsent
    cases hsent
  case recorded =>
    intro a ha
    rcases List.mem_append.mp ha with ha | ha
    · exact h.recorded a ha
    · obtain rfl := List.mem_singleton.mp ha
      exact h.known d.name (List.mem_map_of_mem hd)

def Steady (finish : List Char → Nat) (o : Observation) : Prop :=
  ∀ finished, o.status.finishedAt = some finished → finished = finish (folded o.operation)

theorem kept_sendResult (h : Kept finish s) {o : Observation} (ho : Steady finish o) :
    Kept finish (sendResult s o) ∧ s.reporting.historyFloor ≤ (sendResult s o).reporting.historyFloor := by
  unfold sendResult
  split
  next => exact ⟨h, Nat.le_refl _⟩
  next finished hfinished =>
    obtain rfl := ho finished hfinished
    split
    next => exact ⟨h, Nat.le_refl _⟩
    next n r hdelivery =>
      split
      next => exact ⟨h, Nat.le_refl _⟩
      next d hd =>
        have hmade : ∃ made, (if (s.reporting.deliveries.findIdx? fun e => e.name = folded o.operation).isSome then s.made
            else s.made ++ [folded o.operation]) = made ∧ Kept finish ⟨r, made, s.attempts⟩ ∧
            s.reporting.historyFloor ≤ r.historyFloor ∧ d.name = folded o.operation := by
          rcases delivery_cases hdelivery with ⟨rfl, ⟨e, he, hname⟩, hsome⟩ | ⟨hnone, hfloor, g, hnew⟩
          · obtain rfl : e = d := Option.some.inj (he.symm.trans hd)
            exact ⟨_, if_pos hsome, h, Nat.le_refl _, hname⟩
          · have hname := findIdx_names.mp hnone
            refine ⟨_, if_neg (by simp [hnone]), ?_⟩
            rcases hnew with ⟨hroom, rfl, rfl⟩ | ⟨evicted, hevicted, hmin, hnewer, rfl⟩
            · obtain rfl : _ = d := by simpa using hd
              exact ⟨kept_appended h hroom hname hfloor, Nat.le_refl _, rfl⟩
            · obtain ⟨hlt, -⟩ := List.getElem?_eq_some_iff.mp hevicted
              rw [List.getElem?_set_self hlt] at hd
              obtain rfl := Option.some.inj hd
              exact ⟨kept_replaced h hevicted hmin hnewer hname hfloor, (h.finished evicted (List.mem_of_getElem? hevicted)).2, rfl⟩
        obtain ⟨made, hmade, hkept, hle, hname⟩ := hmade
        simp only [hmade]
        split
        next hdue =>
          rw [← hname]
          exact ⟨kept_tried hkept hd hdue, hle⟩
        next => exact ⟨hkept, hle⟩

theorem kept_run (observations : List Observation) : ∀ s, Kept finish s → (∀ o ∈ observations, Steady finish o) →
    Kept finish (run sendResult s observations) ∧
      s.reporting.historyFloor ≤ (run sendResult s observations).reporting.historyFloor := by
  induction observations with
  | nil => exact fun s h _ => ⟨h, Nat.le_refl _⟩
  | cons o observations ih =>
      intro s h hsteady
      obtain ⟨hkept, hfloor⟩ := kept_sendResult h (hsteady o List.mem_cons_self)
      obtain ⟨hrun, hrise⟩ := ih (sendResult s o) hkept fun o' ho' => hsteady o' (List.mem_cons_of_mem o ho')
      exact ⟨hrun, Nat.le_trans hfloor hrise⟩

/-- Over any observations with steady finish times: no operation has two records or gets a second one, the floor only
rises, and at most two attempts are made to send a result, none after one that succeeded. -/
theorem reported_once (finish : List Char → Nat) (observations more : List Observation)
    (h : ∀ o ∈ observations ++ more, Steady finish o) :
    let s := run sendResult started observations
    (s.reporting.deliveries.map Delivery.name).Nodup ∧ s.made.Nodup ∧
      (∀ d ∈ s.reporting.deliveries, d.name ∈ s.made) ∧
      s.reporting.historyFloor ≤ (run sendResult started (observations ++ more)).reporting.historyFloor ∧
      (∀ name, (s.attempts.filter fun a => a.1 = name).length ≤ 2) ∧
      s.attempts.Pairwise fun a b => a.1 = b.1 → a.2 = false := by
  have hkept := (kept_run observations started kept_started fun o ho => h o (List.mem_append_left _ ho)).1
  have hrise := (kept_run more _ hkept fun o ho => h o (List.mem_append_right _ ho)).2
  refine ⟨hkept.distinct, hkept.once, fun d hd => hkept.known _ (List.mem_map_of_mem hd), ?_, hkept.limited, hkept.quiet⟩
  rw [run_append]
  exact hrise

/-- An operation of which a result is seen at 5. -/
def seen (operation : String) (event : Bool) : Observation where
  operation := operation.toList
  status := ⟨false, 0, 0, false, true, 5⟩
  guid := some (7, "c".toList)
  ticks := 100000
  ready := true
  json := true
  event := event
  ticksAfter := 10

theorem reported_once_twice : let s := run sendResult started [seen "a" false, seen "A" true]
    s.attempts = [("a".toList, false), ("a".toList, true)] ∧ (s.reporting.deliveries.map Delivery.name).Nodup :=
  ⟨by decide, (reported_once (fun _ => 5) [seen "a" false, seen "A" true] [] (by
    intro o ho finished hfinished
    rcases List.mem_cons.mp ho with rfl | ho
    · exact (Option.some.inj hfinished).symm
    · obtain rfl := List.mem_singleton.mp ho
      exact (Option.some.inj hfinished).symm)).1⟩

end EtranProcessing.Deployment.UpdateReporting
