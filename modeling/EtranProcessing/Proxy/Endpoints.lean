import Mathlib

namespace EtranProcessing.Proxy.Endpoints

def endpointMax : Nat := 16
def maxHostLen : Nat := 256

abbrev Host := List UInt8

inductive Source
  | unset | srv | srvDisabled | srvLkg | policy | cli | default | policyIp | bootstrapIp
  deriving DecidableEq

structure Leo4Endpoint where
  host : Host
  port : Nat
  source : Source
  priority : UInt16
  weight : UInt16
  deriving DecidableEq

inductive Channel
  | mqtt | https | stream | rtp
  deriving DecidableEq

def Channel.ofInt? : Int → Option Channel
  | 0 => some .mqtt
  | 1 => some .https
  | 2 => some .stream
  | 3 => some .rtp
  | _ => none

def Channel.service : Channel → String
  | .mqtt => "_mqtt._tls."
  | .https => "_https._tcp."
  | .stream => "_l4stream._tls."
  | .rtp => "_l4rtp._tls."

structure ProxyConfig where
  srvEnabled : Bool
  remoteExplicit : Channel → Bool
  srvNames : Channel → Host
  remoteHost : Channel → Host
  remotePort : Channel → Nat
  policyBootstrapIp : Host
  policyBootstrapPort : Nat

/-- What `dns_worker` leaves in a slot: services, or the one entry that says there are none. -/
structure DnsAnswer where
  entries : List Leo4Endpoint
  size : entries.length ≤ 8
  sources : (∀ e ∈ entries, e.source = .srv) ∨ ∃ e, entries = [e] ∧ e.source = .srvDisabled

/-- One channel of the last policy, as `parse_policy` accepts it. -/
structure CachedPolicy where
  host : Leo4Endpoint
  ips : List Leo4Endpoint
  host_source : host.host ≠ [] → host.source = .policy
  ip_count : ips.length ≤ 4
  ip_source : ∀ e ∈ ips, e.source = .policyIp

structure Cache where
  policy : Channel → CachedPolicy
  active : Channel → Leo4Endpoint
  activeUntil : Channel → Nat
  expiresAt : Nat
  expiresTick : Nat

/-- What a call reads outside the cache: the answers, the random numbers and the clocks. -/
structure Moment where
  dnsQuery : Host → Nat → DnsAnswer
  random : Nat → UInt32
  activeTick : Nat
  time : Nat
  policyTick : Nat

variable {es : List Leo4Endpoint}

/-! ### Weighted selection, without replacement -/

def minPriority (es : List Leo4Endpoint) : UInt16 :=
  es.foldl (fun priority e => if e.priority < priority then e.priority else priority) 65535

def totalWeight (priority : UInt16) (es : List Leo4Endpoint) : Nat :=
  es.foldl (fun total e => if e.priority = priority then total + e.weight.toNat else total) 0

def select (priority : UInt16) (total : Nat) : List Leo4Endpoint → Nat → Nat → Nat → Nat
  | [], _, _, selected => selected
  | e :: es, k, pick, selected =>
    if e.priority = priority then
      if total = 0 ∨ pick ≤ e.weight.toNat then k
      else select priority total es (k + 1) (pick - e.weight.toNat) k
    else select priority total es (k + 1) pick selected

def exchange {α : Type} : List α → Nat → List α
  | [], _ => []
  | x :: xs, 0 => x :: xs
  | x :: xs, s + 1 =>
    match xs[s]? with
    | some y => y :: xs.set s x
    | none => x :: xs

/-- The rounds of the loop from the `n`-th on, on what is not placed yet. -/
def arrange (random : Nat → UInt32) : Nat → Nat → List Leo4Endpoint → List Leo4Endpoint
  | 0, _, es => es
  | fuel + 1, n, es =>
    let priority := minPriority es
    let total := totalWeight priority es
    let pick := if total = 0 then 0 else (random n).toNat % (total + 1)
    match exchange es (select priority total es 0 pick 0) with
    | [] => []
    | e :: rest => e :: arrange random fuel (n + 1) rest

theorem foldl_min (es : List Leo4Endpoint) (p : UInt16) :
    let m := es.foldl (fun priority e => if e.priority < priority then e.priority else priority) p
    m ≤ p ∧ (∀ e ∈ es, m ≤ e.priority) ∧ (m = p ∨ ∃ e ∈ es, e.priority = m) := by
  induction es generalizing p with
  | nil => simp
  | cons e es ih =>
      obtain ⟨hp, hall, hex⟩ := ih (if e.priority < p then e.priority else p)
      simp only [List.foldl_cons]
      set m := es.foldl (fun priority e => if e.priority < priority then e.priority else priority)
        (if e.priority < p then e.priority else p)
      have hstep : (if e.priority < p then e.priority else p) ≤ p ∧
          (if e.priority < p then e.priority else p) ≤ e.priority := by
        split
        next h => exact ⟨UInt16.le_of_lt h, UInt16.le_refl _⟩
        next h => exact ⟨UInt16.le_refl _, UInt16.not_lt.mp h⟩
      refine ⟨UInt16.le_trans hp hstep.1, ?_, ?_⟩
      · intro f hf
        obtain rfl | hf := List.mem_cons.mp hf
        · exact UInt16.le_trans hp hstep.2
        · exact hall f hf
      · obtain h | ⟨f, hf, h⟩ := hex
        · split at h
          · exact .inr ⟨e, by simp, h.symm⟩
          · exact .inl h
        · exact .inr ⟨f, by simp [hf], h⟩

theorem minPriority_le {e : Leo4Endpoint} (h : e ∈ es) : minPriority es ≤ e.priority :=
  (foldl_min es 65535).2.1 e h

theorem exists_minPriority (h : es ≠ []) : ∃ e ∈ es, e.priority = minPriority es := by
  obtain ⟨-, hall, heq | h⟩ := foldl_min es 65535
  · obtain ⟨e, hmem⟩ := List.exists_mem_of_ne_nil es h
    have hle : e.priority ≤ 65535 := UInt16.le_iff_toNat_le.mpr (by have := e.priority.toNat_lt; simp; omega)
    exact ⟨e, hmem, UInt16.le_antisymm (by rw [minPriority, heq]; exact hle) (hall e hmem)⟩
  · exact h

theorem select_spec (priority : UInt16) (total : Nat) (es : List Leo4Endpoint) (k pick selected : Nat) :
    (∃ j e, select priority total es k pick selected = k + j ∧ es[j]? = some e ∧ e.priority = priority) ∨
      select priority total es k pick selected = selected ∧ ∀ e ∈ es, e.priority ≠ priority := by
  induction es generalizing k pick selected with
  | nil => simp [select]
  | cons e es ih =>
      unfold select
      split
      next hp =>
        split
        next => exact .inl ⟨0, e, by simp [hp]⟩
        next =>
          obtain ⟨j, f, heq, hj, hf⟩ | ⟨heq, -⟩ := ih (k + 1) (pick - e.weight.toNat) k
          · exact .inl ⟨j + 1, f, by rw [heq]; omega, by simpa using hj, hf⟩
          · exact .inl ⟨0, e, by simp [heq, hp]⟩
      next hp =>
        obtain ⟨j, f, heq, hj, hf⟩ | ⟨heq, hnone⟩ := ih (k + 1) pick selected
        · exact .inl ⟨j + 1, f, by rw [heq]; omega, by simpa using hj, hf⟩
        · exact .inr ⟨heq, by simpa [hp] using hnone⟩

theorem set_perm {α : Type} {xs : List α} {s : Nat} {x y : α} (h : xs[s]? = some y) :
    (y :: xs.set s x).Perm (x :: xs) := by
  induction xs generalizing s with
  | nil => simp at h
  | cons z xs ih =>
      cases s with
      | zero =>
          obtain rfl : z = y := by simpa using h
          simpa using List.Perm.swap x z xs
      | succ s =>
          rw [List.set_cons_succ]
          calc (y :: z :: xs.set s x).Perm (z :: y :: xs.set s x) := List.Perm.swap z y _
            _ |>.Perm (z :: x :: xs) := (ih (by simpa using h)).cons z
            _ |>.Perm (x :: z :: xs) := List.Perm.swap x z xs

theorem exchange_perm {α : Type} (xs : List α) (s : Nat) : (exchange xs s).Perm xs := by
  unfold exchange
  split
  · exact .rfl
  · exact .rfl
  · split
    next h => exact set_perm h
    next => exact .rfl

theorem exchange_head {α : Type} {xs : List α} {s : Nat} {y : α} (h : xs[s]? = some y) :
    (exchange xs s).head? = some y := by
  cases xs with
  | nil => simp at h
  | cons x xs =>
      cases s with
      | zero => simpa [exchange] using h
      | succ s =>
          have h : xs[s]? = some y := by simpa using h
          simp [exchange, h]

theorem arrange_perm (random : Nat → UInt32) (fuel n : Nat) (es : List Leo4Endpoint) :
    (arrange random fuel n es).Perm es := by
  induction fuel generalizing n es with
  | zero => exact .rfl
  | succ fuel ih =>
      have hperm := exchange_perm es (select (minPriority es) (totalWeight (minPriority es) es) es 0
        (if totalWeight (minPriority es) es = 0 then 0
          else (random n).toNat % (totalWeight (minPriority es) es + 1)) 0)
      unfold arrange
      dsimp only
      split
      next h => rwa [h] at hperm
      next e rest h =>
        rw [h] at hperm
        exact ((ih (n + 1) rest).cons e).trans hperm

theorem arrange_sorted (random : Nat → UInt32) (fuel n : Nat) (es : List Leo4Endpoint) (hfuel : es.length ≤ fuel) :
    (arrange random fuel n es).Pairwise (·.priority ≤ ·.priority) := by
  induction fuel generalizing n es with
  | zero =>
      obtain rfl := List.length_eq_zero_iff.mp (by omega : es.length = 0)
      exact .nil
  | succ fuel ih =>
      set selected := select (minPriority es) (totalWeight (minPriority es) es) es 0
        (if totalWeight (minPriority es) es = 0 then 0
          else (random n).toNat % (totalWeight (minPriority es) es + 1)) 0 with hsel
      have hperm := exchange_perm es selected
      unfold arrange
      dsimp only
      rw [← hsel]
      split
      next => exact .nil
      next e rest h =>
        rw [h] at hperm
        have hlen : rest.length + 1 = es.length := by simpa using hperm.length_eq
        have hne : es ≠ [] := by rintro rfl; simp at hlen
        have he : e.priority = minPriority es := by
          obtain ⟨j, f, heq, hj, hf⟩ | ⟨-, hnone⟩ :=
            select_spec (minPriority es) (totalWeight (minPriority es) es) es 0
              (if totalWeight (minPriority es) es = 0 then 0
                else (random n).toNat % (totalWeight (minPriority es) es + 1)) 0
          · have hhead := exchange_head (s := selected) (by rw [hsel, heq, zero_add]; exact hj)
            rw [h] at hhead
            obtain rfl : e = f := by simpa using hhead
            exact hf
          · obtain ⟨f, hf, hmin⟩ := exists_minPriority hne
            exact absurd hmin (hnone f hf)
        refine .cons (fun f hf => ?_) (ih (n + 1) rest (by omega))
        rw [he]
        exact minPriority_le (hperm.subset (List.mem_cons_of_mem e ((arrange_perm random fuel (n + 1) rest).subset hf)))

/-! ### The list of candidates -/

def lower (b : UInt8) : UInt8 := if 0x41 ≤ b ∧ b ≤ 0x5a then b + 0x20 else b

def Leo4Endpoint.Alias (e f : Leo4Endpoint) : Prop := e.port = f.port ∧ e.host.map lower = f.host.map lower

instance (e f : Leo4Endpoint) : Decidable (e.Alias f) := inferInstanceAs (Decidable (_ ∧ _))

def unique (es : List Leo4Endpoint) : List Leo4Endpoint :=
  es.foldl (fun kept e => if kept.any fun f => decide (f.Alias e) then kept else kept ++ [e]) []

def srvOwner (c : ProxyConfig) (channel : Channel) : Host :=
  let owner := (channel.service.toList.map fun ch => UInt8.ofNat ch.toNat) ++ c.remoteHost channel
  if c.srvNames channel ≠ [] then c.srvNames channel
  else if maxHostLen ≤ owner.length then []
  else owner

def srvEntries (c : ProxyConfig) (m : Moment) (channel : Channel) (timeout : Nat) : List Leo4Endpoint :=
  if c.srvEnabled && !c.remoteExplicit channel then
    if srvOwner c channel = [] then [] else (m.dnsQuery (srvOwner c channel) (min timeout 2000)).entries
  else []

def Disabled (answer : List Leo4Endpoint) : Prop := ∃ e, answer.head? = some e ∧ e.source = .srvDisabled

instance (answer : List Leo4Endpoint) : Decidable (Disabled answer) :=
  match h : answer.head? with
  | none => .isFalse (by simp [Disabled, h])
  | some e => decidable_of_iff (e.source = .srvDisabled) (by simp [Disabled, h])

def lastKnownGood (c : ProxyConfig) (s : Cache) (m : Moment) (channel : Channel) (out : List Leo4Endpoint) :
    List Leo4Endpoint :=
  let active := s.active channel
  if !c.remoteExplicit channel && c.srvEnabled && decide (m.activeTick < s.activeUntil channel ∧ active.source = .srv) &&
      !(out.any fun e => decide (e.Alias active)) && decide (out.length < endpointMax - 1) then
    [{ active with source := .srvLkg }]
  else []

def fresh (s : Cache) (m : Moment) : Bool := decide (m.time < s.expiresAt ∧ m.policyTick < s.expiresTick)

def policyHost (c : ProxyConfig) (s : Cache) (m : Moment) (channel : Channel) : List Leo4Endpoint :=
  if !c.remoteExplicit channel && fresh s m && decide ((s.policy channel).host.host ≠ []) then [(s.policy channel).host]
  else []

def fallback (c : ProxyConfig) (channel : Channel) : Leo4Endpoint :=
  ⟨c.remoteHost channel, c.remotePort channel, if c.remoteExplicit channel then .cli else .default, 0, 0⟩

def policyIps (c : ProxyConfig) (s : Cache) (m : Moment) (channel : Channel) (recovery : Bool) (count : Nat) :
    List Leo4Endpoint :=
  if !c.remoteExplicit channel && (fresh s m || recovery) then (s.policy channel).ips.take (endpointMax - 1 - count)
  else []

def bootstrap (c : ProxyConfig) (recovery : Bool) (count : Nat) : List Leo4Endpoint :=
  if recovery && decide (c.policyBootstrapIp ≠ []) && decide (count < endpointMax) then
    [⟨c.policyBootstrapIp, c.policyBootstrapPort, .bootstrapIp, 0, 0⟩]
  else []

def services (c : ProxyConfig) (m : Moment) (channel : Channel) (timeout : Nat) : List Leo4Endpoint :=
  arrange m.random (srvEntries c m channel timeout).length 0 (srvEntries c m channel timeout)

def primaries (c : ProxyConfig) (s : Cache) (m : Moment) (channel : Channel) (timeout : Nat) : List Leo4Endpoint :=
  services c m channel timeout ++ lastKnownGood c s m channel (services c m channel timeout) ++
    policyHost c s m channel ++ [fallback c channel]

def gathered (c : ProxyConfig) (s : Cache) (m : Moment) (channel : Channel) (recovery : Bool) (timeout : Nat) :
    List Leo4Endpoint :=
  let named := primaries c s m channel timeout
  let out := named ++ policyIps c s m channel recovery named.length
  out ++ bootstrap c recovery out.length

def candidatesTimed (c : ProxyConfig) (s : Cache) (m : Moment) (channel : Int) (recovery : Bool) (timeout : Nat) :
    List Leo4Endpoint :=
  match Channel.ofInt? channel with
  | none => []
  | some channel =>
    if Disabled (srvEntries c m channel timeout) then []
    else unique (gathered c s m channel recovery timeout)

theorem Leo4Endpoint.Alias.symm {e f : Leo4Endpoint} (h : e.Alias f) : f.Alias e := ⟨h.1.symm, h.2.symm⟩

theorem unique_concat (es : List Leo4Endpoint) (e : Leo4Endpoint) :
    unique (es ++ [e]) = if (unique es).any fun f => decide (f.Alias e) then unique es else unique es ++ [e] := by
  simp [unique]

theorem unique_append (es fs : List Leo4Endpoint) : ∃ kept, unique (es ++ fs) = unique es ++ kept ∧ kept.Sublist fs := by
  induction fs using List.reverseRecOn with
  | nil => exact ⟨[], by simp, .slnil⟩
  | append_singleton fs f ih =>
      obtain ⟨kept, heq, hsub⟩ := ih
      rw [← List.append_assoc, unique_concat, heq]
      split
      · exact ⟨kept, rfl, hsub.trans (List.sublist_append_left fs [f])⟩
      · exact ⟨kept ++ [f], by simp, hsub.append (List.Sublist.refl [f])⟩

theorem unique_sublist (es : List Leo4Endpoint) : (unique es).Sublist es := by
  obtain ⟨kept, heq, hsub⟩ := unique_append [] es
  rw [List.nil_append] at heq
  rw [heq]
  exact hsub

theorem unique_pairwise (es : List Leo4Endpoint) : (unique es).Pairwise fun e f => ¬ e.Alias f := by
  induction es using List.reverseRecOn with
  | nil => exact .nil
  | append_singleton es e ih =>
      rw [unique_concat]
      split
      · exact ih
      next h =>
        refine List.pairwise_append.mpr ⟨ih, List.pairwise_singleton _ _, fun f hf g hg => ?_⟩
        obtain rfl := List.mem_singleton.mp hg
        simpa using fun halias => h (List.any_eq_true.mpr ⟨f, hf, by simpa using halias⟩)

theorem unique_covers {e : Leo4Endpoint} (h : e ∈ es) : ∃ f ∈ unique es, f.Alias e := by
  induction es using List.reverseRecOn with
  | nil => simp at h
  | append_singleton es g ih =>
      rw [unique_concat]
      obtain h | h := List.mem_append.mp h
      · obtain ⟨f, hf, halias⟩ := ih h
        split
        · exact ⟨f, hf, halias⟩
        · exact ⟨f, List.mem_append_left _ hf, halias⟩
      · obtain rfl := List.mem_singleton.mp h
        split
        next hany =>
          obtain ⟨f, hf, halias⟩ := List.any_eq_true.mp hany
          exact ⟨f, hf, by simpa using halias⟩
        next => exact ⟨e, by simp, rfl, rfl⟩

theorem unique_eq_self (h : es.Pairwise fun e f => ¬ e.Alias f) : unique es = es := by
  induction es using List.reverseRecOn with
  | nil => rfl
  | append_singleton es e ih =>
      obtain ⟨hes, -, hlast⟩ := List.pairwise_append.mp h
      rw [unique_concat, ih hes, if_neg]
      rw [Bool.not_eq_true, List.any_eq_false]
      exact fun f hf => by simpa using hlast f hf e (by simp)

def Leo4Endpoint.isIp (e : Leo4Endpoint) : Bool := e.source == .policyIp || e.source == .bootstrapIp

variable (c : ProxyConfig) (s : Cache) (m : Moment) (channel : Channel) (recovery : Bool) (timeout : Nat)

theorem srvEntries_length : (srvEntries c m channel timeout).length ≤ 8 := by
  unfold srvEntries
  split
  · split
    · simp
    · exact (m.dnsQuery _ _).size
  · simp

theorem srvEntries_source (h : ¬ Disabled (srvEntries c m channel timeout)) :
    ∀ e ∈ srvEntries c m channel timeout, e.source = .srv := by
  unfold srvEntries at h ⊢
  split
  next hasked =>
    rw [if_pos hasked] at h
    split
    · simp
    next howner =>
      rw [if_neg howner] at h
      obtain hall | ⟨e, heq, hsource⟩ := (m.dnsQuery (srvOwner c channel) (min timeout 2000)).sources
      · exact hall
      · exact absurd ⟨e, by rw [heq]; rfl, hsource⟩ h
  · simp

theorem services_perm : (services c m channel timeout).Perm (srvEntries c m channel timeout) := arrange_perm _ _ _ _

theorem services_sorted : (services c m channel timeout).Pairwise (·.priority ≤ ·.priority) :=
  arrange_sorted _ _ _ _ le_rfl

theorem lastKnownGood_length (out : List Leo4Endpoint) : (lastKnownGood c s m channel out).length ≤ 1 := by
  unfold lastKnownGood
  dsimp only
  split <;> simp

theorem policyHost_length : (policyHost c s m channel).length ≤ 1 := by
  unfold policyHost
  split <;> simp

theorem policyIps_length (count : Nat) : (policyIps c s m channel recovery count).length ≤ 4 := by
  have h := (s.policy channel).ip_count
  unfold policyIps
  split
  · rw [List.length_take]
    omega
  · simp

theorem bootstrap_length (count : Nat) : (bootstrap c recovery count).length ≤ 1 := by
  unfold bootstrap
  split <;> simp

theorem gathered_length : (gathered c s m channel recovery timeout).length ≤ endpointMax := by
  have h1 := (services_perm c m channel timeout).length_eq
  have h2 := srvEntries_length c m channel timeout
  have h3 := lastKnownGood_length c s m channel (services c m channel timeout)
  have h4 := policyHost_length c s m channel
  have h5 := policyIps_length c s m channel recovery (primaries c s m channel timeout).length
  have h6 := bootstrap_length c recovery
    (primaries c s m channel timeout ++ policyIps c s m channel recovery (primaries c s m channel timeout).length).length
  simp only [gathered, primaries, endpointMax, List.length_append, List.length_cons, List.length_nil] at *
  omega

theorem others_source : ∀ e ∈ lastKnownGood c s m channel (services c m channel timeout) ++ policyHost c s m channel ++
    [fallback c channel], e.source ≠ .srv ∧ e.isIp = false := by
  intro e he
  obtain he | he := List.mem_append.mp he
  · obtain he | he := List.mem_append.mp he
    · unfold lastKnownGood at he
      dsimp only at he
      split at he
      · obtain rfl := List.mem_singleton.mp he
        simp [Leo4Endpoint.isIp]
      · simp at he
    · unfold policyHost at he
      split at he
      next h =>
        obtain rfl := List.mem_singleton.mp he
        have hsource := (s.policy channel).host_source (by simp at h; exact h.2)
        simp [Leo4Endpoint.isIp, hsource]
      · simp at he
  · obtain rfl := List.mem_singleton.mp he
    unfold fallback
    cases c.remoteExplicit channel <;> simp [Leo4Endpoint.isIp]

theorem addresses_source (count count' : Nat) :
    ∀ e ∈ policyIps c s m channel recovery count ++ bootstrap c recovery count', e.source ≠ .srv ∧ e.isIp = true := by
  intro e he
  obtain he | he := List.mem_append.mp he
  · unfold policyIps at he
    split at he
    · have hsource := (s.policy channel).ip_source e (List.mem_of_mem_take he)
      simp [Leo4Endpoint.isIp, hsource]
    · simp at he
  · unfold bootstrap at he
    split at he
    · obtain rfl := List.mem_singleton.mp he
      simp [Leo4Endpoint.isIp]
    · simp at he

/-! ### The time of an attempt -/

def quotient (n d : Int) : Option Int := if d = 0 then none else some (n / d)

def attemptTimeout (candidates : List Leo4Endpoint) (index remaining : Int) : Option Int :=
  if index < 0 ∨ candidates.length ≤ index ∨ remaining ≤ 0 then some 0
  else
    let left := candidates.drop index.toNat
    let ips : Int := left.countP (·.isIp)
    let primary : Int := left.countP (!·.isIp)
    let isFallback := candidates[index.toNat]?.any (·.isIp)
    let reserved := if 3000 < ips * 1500 then 3000 else ips * 1500
    let share :=
      if ips ≠ 0 && !isFallback then
        if remaining ≤ reserved then some 0 else quotient (remaining - reserved) primary
      else quotient remaining (candidates.length - index)
    share.map fun share => if 2500 < share then 2500 else share

/-- The attempts on the first candidates in turn, none longer than the time it is given, and the time they took. -/
inductive Attempts (candidates : List Leo4Endpoint) (budget : Int) : Nat → Int → Prop
  | start : Attempts candidates budget 0 0
  | next {n : Nat} {spent share used : Int} : Attempts candidates budget n spent → n < candidates.length →
      attemptTimeout candidates n (budget - spent) = some share → 0 ≤ used → used ≤ share →
      Attempts candidates budget (n + 1) (spent + used)

def reserve (candidates : List Leo4Endpoint) : Int := min 3000 (1500 * (candidates.countP (·.isIp) : Nat))

def Ordered (candidates : List Leo4Endpoint) : Prop :=
  ∃ names ips, candidates = names ++ ips ∧ (∀ e ∈ names, e.isIp = false) ∧ ∀ e ∈ ips, e.isIp = true

theorem quotient_le {n d : Int} (hn : 0 ≤ n) (hd : 0 < d) : ∃ q, quotient n d = some q ∧ 0 ≤ q ∧ q ≤ n := by
  refine ⟨n / d, by simp [quotient, hd.ne'], Int.ediv_nonneg hn hd.le, ?_⟩
  exact Int.ediv_le_self d hn

theorem capped (share : Int) (h : 0 ≤ share) :
    0 ≤ (if 2500 < share then 2500 else share) ∧ (if 2500 < share then 2500 else share) ≤ share := by
  split <;> omega

theorem attemptTimeout_spec (candidates : List Leo4Endpoint) (index remaining : Int) :
    ∃ share, attemptTimeout candidates index remaining = some share ∧ 0 ≤ share ∧ (0 ≤ remaining → share ≤ remaining) ∧
      (0 ≤ index → candidates[index.toNat]?.any (·.isIp) = false →
        reserve (candidates.drop index.toNat) ≤ remaining →
        share ≤ remaining - reserve (candidates.drop index.toNat)) := by
  unfold attemptTimeout
  split
  next => exact ⟨0, rfl, le_rfl, id, fun _ _ h => by omega⟩
  next hrange =>
    obtain ⟨hindex, hcount, hremaining⟩ : 0 ≤ index ∧ index < candidates.length ∧ 0 < remaining := by omega
    have hlt : index.toNat < candidates.length := by omega
    have hdrop : candidates.drop index.toNat = candidates[index.toNat] :: candidates.drop (index.toNat + 1) :=
      List.drop_eq_getElem_cons hlt
    dsimp only
    set ips : Nat := (candidates.drop index.toNat).countP (·.isIp) with hips
    have hreserve : (if 3000 < (ips : Int) * 1500 then 3000 else (ips : Int) * 1500) =
        reserve (candidates.drop index.toNat) := by
      unfold reserve
      rw [← hips]
      split <;> omega
    have hpositive : 0 ≤ reserve (candidates.drop index.toNat) := by unfold reserve; omega
    rw [hreserve]
    split
    next hname =>
      obtain ⟨-, hname⟩ : ips ≠ 0 ∧ candidates[index.toNat].isIp = false := by simpa [hlt] using hname
      split
      next => exact ⟨0, rfl, le_rfl, fun h => h, fun _ _ h => by omega⟩
      next hover =>
        have hprimary : 0 < (candidates.drop index.toNat).countP (!·.isIp) := by
          rw [hdrop, List.countP_cons_of_pos (by simp [hname])]
          omega
        obtain ⟨q, hq, hnonneg, hle⟩ := quotient_le (n := remaining - reserve (candidates.drop index.toNat))
          (d := ((candidates.drop index.toNat).countP (!·.isIp) : Nat)) (by omega) (by omega)
        obtain ⟨hcap, hcap'⟩ := capped q hnonneg
        exact ⟨_, by rw [hq]; rfl, hcap, fun _ => by omega, fun _ _ _ => by omega⟩
    next hname =>
      obtain ⟨q, hq, hnonneg, hle⟩ := quotient_le (n := remaining) (d := candidates.length - index) hremaining.le (by omega)
      obtain ⟨hcap, hcap'⟩ := capped q hnonneg
      refine ⟨_, by rw [hq]; rfl, hcap, fun _ => by omega, fun _ hip _ => ?_⟩
      have hzero : ips = 0 := by
        by_contra h
        exact hname (by simpa [h] using hip)
      have hnone : reserve (candidates.drop index.toNat) = 0 := by
        unfold reserve
        rw [← hips, hzero]
        rfl
      omega

theorem reserve_names {names ips : List Leo4Endpoint} (hnames : ∀ e ∈ names, e.isIp = false) {n : Nat}
    (hn : n ≤ names.length) : reserve ((names ++ ips).drop n) = reserve (names ++ ips) := by
  have hzero : names.countP (·.isIp) = 0 := List.countP_eq_zero.mpr fun e he => by simp [hnames e he]
  have hdropped : (names.drop n).countP (·.isIp) = 0 :=
    List.countP_eq_zero.mpr fun e he => by simp [hnames e (List.mem_of_mem_drop he)]
  simp [reserve, List.drop_append_of_le_length hn, hzero, hdropped]

theorem Attempts.spent_le {names ips : List Leo4Endpoint} {budget spent : Int} {n : Nat}
    (hnames : ∀ e ∈ names, e.isIp = false) (hbudget : reserve (names ++ ips) < budget)
    (h : Attempts (names ++ ips) budget n spent) :
    spent ≤ budget ∧ (n ≤ names.length → reserve (names ++ ips) ≤ budget - spent) := by
  have hpositive : 0 ≤ reserve (names ++ ips) := by unfold reserve; omega
  induction h with
  | start => exact ⟨by omega, fun _ => by omega⟩
  | @next n spent share used _ _ hshare _ hused ih =>
      obtain ⟨share', heq, -, hle, hname⟩ := attemptTimeout_spec (names ++ ips) n (budget - spent)
      obtain rfl : share = share' := by rw [hshare] at heq; simpa using heq
      refine ⟨by have := hle (by omega); omega, fun hn => ?_⟩
      have hlt : n < names.length := by omega
      rw [Int.toNat_natCast, reserve_names hnames hlt.le] at hname
      have := hname (by omega) (by simp [List.getElem?_append_left hlt, hlt, hnames _ (List.getElem_mem hlt)]) (ih.2 hlt.le)
      omega

theorem services_source (h : ¬ Disabled (srvEntries c m channel timeout)) :
    ∀ e ∈ services c m channel timeout, e.source = .srv := fun e he =>
  srvEntries_source c m channel timeout h e ((services_perm c m channel timeout).subset he)

theorem gathered_parts : ∃ named ips,
    gathered c s m channel recovery timeout = services c m channel timeout ++ named ++ ips ∧
      fallback c channel ∈ named ∧ (∀ e ∈ named, e.source ≠ .srv ∧ e.isIp = false) ∧
      ∀ e ∈ ips, e.source ≠ .srv ∧ e.isIp = true := by
  refine ⟨_, _, ?_, ?_, others_source c s m channel timeout, addresses_source c s m channel recovery
    (primaries c s m channel timeout).length
    (primaries c s m channel timeout ++ policyIps c s m channel recovery (primaries c s m channel timeout).length).length⟩
  · simp [gathered, primaries]
  · simp

theorem unique_ordered (h : ¬ Disabled (srvEntries c m channel timeout)) :
    Ordered (unique (gathered c s m channel recovery timeout)) := by
  obtain ⟨named, ips, heq, -, hnamed, hips⟩ := gathered_parts c s m channel recovery timeout
  obtain ⟨kept, hkept, hsub⟩ := unique_append (services c m channel timeout ++ named) ips
  rw [heq]
  refine ⟨_, kept, hkept, fun e he => ?_, fun e he => (hips e (hsub.subset he)).2⟩
  obtain he | he := List.mem_append.mp ((unique_sublist _).subset he)
  · simp [Leo4Endpoint.isIp, services_source c m channel timeout h e he]
  · exact (hnamed e he).2

theorem unique_services (h : ¬ Disabled (srvEntries c m channel timeout)) :
    (unique (gathered c s m channel recovery timeout)).filter (·.source = .srv) =
      unique (services c m channel timeout) := by
  obtain ⟨named, ips, heq, -, hnamed, hips⟩ := gathered_parts c s m channel recovery timeout
  obtain ⟨kept, hkept, hsub⟩ := unique_append (services c m channel timeout) (named ++ ips)
  rw [heq, List.append_assoc, hkept, List.filter_append, List.filter_eq_self.mpr, List.filter_eq_nil_iff.mpr,
    List.append_nil]
  · intro e he
    obtain he | he := List.mem_append.mp (hsub.subset he)
    · simp [(hnamed e he).1]
    · simp [(hips e he).1]
  · intro e he
    simp [services_source c m channel timeout h e ((unique_sublist _).subset he)]

theorem candidatesTimed_ordered (index : Int) : Ordered (candidatesTimed c s m index recovery timeout) := by
  unfold candidatesTimed
  split
  · exact ⟨[], [], by simp⟩
  next channel _ =>
    split
    · exact ⟨[], [], by simp⟩
    next h => exact unique_ordered c s m channel recovery timeout h

theorem Attempts.within {candidates : List Leo4Endpoint} {budget spent : Int} {n : Nat} (hordered : Ordered candidates)
    (hbudget : reserve candidates < budget) (h : Attempts candidates budget n spent) :
    spent ≤ budget ∧ (candidates[n]?.any (·.isIp) = true → (∀ e ∈ candidates.take n, e.isIp = false) →
      reserve candidates ≤ budget - spent) := by
  obtain ⟨names, ips, rfl, hnames, hips⟩ := hordered
  obtain ⟨hspent, hreserve⟩ := h.spent_le hnames hbudget
  refine ⟨hspent, fun hip hfirst => hreserve ?_⟩
  by_contra hlt
  cases ips with
  | nil =>
      rw [List.append_nil, List.getElem?_eq_none (by omega)] at hip
      simp at hip
  | cons e ips =>
      have hmem : e ∈ (names ++ e :: ips).take n := by
        obtain ⟨k, hk⟩ : ∃ k, n - names.length = k + 1 := ⟨n - names.length - 1, by omega⟩
        rw [List.take_append, hk]
        simp
      exact absurd (hips e (by simp)) (by simp [hfirst e hmem])

theorem endpoint_choice (c : ProxyConfig) (s : Cache) (m : Moment) (recovery : Bool) (timeout : Nat) (index : Int) :
    let out := candidatesTimed c s m index recovery timeout
    out.length ≤ endpointMax ∧ out.Pairwise (fun e f => ¬ e.Alias f) ∧
      (∀ channel, Channel.ofInt? index = some channel → ¬ Disabled (srvEntries c m channel timeout) →
        (∃ f ∈ out, f.Alias (fallback c channel)) ∧ (gathered c s m channel recovery timeout).length ≤ endpointMax ∧
        ∃ srv rest, gathered c s m channel recovery timeout = srv ++ rest ∧ srv.Perm (srvEntries c m channel timeout) ∧
          srv.Pairwise (·.priority ≤ ·.priority) ∧ out.filter (·.source = .srv) = unique srv ∧
          (out.filter (·.source = .srv)).Pairwise (·.priority ≤ ·.priority) ∧
          ((srvEntries c m channel timeout).Pairwise (fun e f => ¬ e.Alias f) →
            (out.filter (·.source = .srv)).Perm (srvEntries c m channel timeout))) ∧
      (∀ i remaining, (attemptTimeout out i remaining).isSome) ∧
      ∀ budget, reserve out < budget → ∀ n spent, Attempts out budget n spent →
        spent ≤ budget ∧ (out[n]?.any (·.isIp) = true → (∀ e ∈ out.take n, e.isIp = false) →
          reserve out ≤ budget - spent) := by
  have hout (channel : Channel) (h : Channel.ofInt? index = some channel)
      (hserved : ¬ Disabled (srvEntries c m channel timeout)) :
      candidatesTimed c s m index recovery timeout = unique (gathered c s m channel recovery timeout) := by
    simp [candidatesTimed, h, hserved]
  refine ⟨?_, ?_, fun channel hchannel hserved => ?_, fun i remaining => ?_, fun budget hbudget n spent h => ?_⟩
  · unfold candidatesTimed
    split
    · simp
    next channel _ =>
      split
      · simp
      · exact (unique_sublist _).length_le.trans (gathered_length c s m channel recovery timeout)
  · unfold candidatesTimed
    split
    · exact .nil
    · split
      · exact .nil
      · exact unique_pairwise _
  · obtain ⟨named, ips, heq, hfallback, -⟩ := gathered_parts c s m channel recovery timeout
    rw [hout channel hchannel hserved, unique_services c s m channel recovery timeout hserved]
    refine ⟨unique_covers (by simp [heq, hfallback]), gathered_length c s m channel recovery timeout,
      services c m channel timeout, named ++ ips, by rw [heq, List.append_assoc],
      services_perm c m channel timeout, services_sorted c m channel timeout, rfl,
      (services_sorted c m channel timeout).sublist (unique_sublist _), fun hdistinct => ?_⟩
    have hperm := services_perm c m channel timeout
    rw [unique_eq_self ((hperm.pairwise_iff fun halias h => halias h.symm).mpr hdistinct)]
    exact hperm
  · obtain ⟨share, heq, -⟩ := attemptTimeout_spec (candidatesTimed c s m index recovery timeout) i remaining
    rw [heq]
    rfl
  · exact h.within (candidatesTimed_ordered c s m recovery timeout index) hbudget

namespace Recovering

def config : ProxyConfig where
  srvEnabled := true
  remoteExplicit := fun _ => false
  srvNames := fun _ => [0x73]
  remoteHost := fun _ => [0x68]
  remotePort := fun _ => 443
  policyBootstrapIp := [0x38]
  policyBootstrapPort := 443

def answer : DnsAnswer where
  entries := [⟨[0x62], 443, .srv, 20, 1⟩, ⟨[0x61], 443, .srv, 10, 5⟩]
  size := by decide
  sources := .inl (by simp)

def cache : Cache where
  policy := fun _ => ⟨⟨[], 0, .unset, 0, 0⟩, [⟨[0x39], 443, .policyIp, 0, 0⟩], by simp, by simp, by simp⟩
  active := fun _ => ⟨[], 0, .unset, 0, 0⟩
  activeUntil := fun _ => 0
  expiresAt := 0
  expiresTick := 0

def moment : Moment := ⟨fun _ _ => answer, fun _ => 3, 1, 1, 1⟩

def candidates : List Leo4Endpoint := candidatesTimed config cache moment 1 true 8000

theorem tried : Attempts candidates 4500 3 1500 := by
  have h0 : Attempts candidates 4500 0 0 := .start
  have h1 := h0.next (by decide) (show attemptTimeout candidates (0 : Nat) (4500 - 0) = some 500 by decide)
    (by decide : (0 : Int) ≤ 500) (by decide)
  have h2 := h1.next (by decide) (show attemptTimeout candidates (1 : Nat) (4500 - 500) = some 500 by decide)
    (by decide : (0 : Int) ≤ 500) (by decide)
  exact h2.next (by decide) (show attemptTimeout candidates (2 : Nat) (4500 - 1000) = some 500 by decide)
    (by decide : (0 : Int) ≤ 500) (by decide)

end Recovering

theorem endpoint_choice_recovering :
    Recovering.candidates.map (·.host) = [[0x61], [0x62], [0x68], [0x39], [0x38]] ∧
      reserve Recovering.candidates ≤ 4500 - 1500 :=
  ⟨by decide, ((endpoint_choice Recovering.config Recovering.cache Recovering.moment true 8000 1).2.2.2.2 4500 (by decide)
    3 1500 Recovering.tried).2 (by decide) (by decide)⟩

end EtranProcessing.Proxy.Endpoints
