import EtranProcessing.Ingress.State
import EtranProcessing.Library.RawMemory

namespace EtranProcessing.Ingress.Listing

open State Library.RawMemory

def httpRespBufferSize : Nat := 65536

/-- The response body: the string in the buffer, and the offset that the next
snprintf is given, which counts what did not fit as well. -/
structure Page where
  body : CString := []
  off : Nat := 0
  deriving DecidableEq

def Page.print (p : Page) (text : CString) : Checked Page := do
  let room ← minus httpRespBufferSize p.off
  .done ⟨if p.body.length = p.off then p.body ++ text.take (room - 1) else p.body, p.off + text.length⟩

def routeText (first : Bool) (r : RouteEntry) : CString :=
  (if first then [] else bytes ",") ++ bytes "\x7b\"sn\":\"" ++ r.sn ++ bytes "\",\"rtp_port\":" ++ decimal r.rtpPort ++
    bytes ",\"rtcp_port\":" ++ decimal r.rtcpPort ++ bytes "\x7d"

def routeLoop : Bool → Page → List RouteEntry → Checked Page
  | _, p, [] => .done p
  | first, p, r :: routes => do
      let p ← p.print (routeText first r)
      routeLoop false p routes

def listRoutes (routes : List RouteEntry) : Checked Page := do
  let p ← Page.print {} (bytes "[")
  let p ← routeLoop true p routes
  p.print (bytes "]\n")

structure StatsClient where
  client : IngressClient
  peerAddr : CString

def stateStr (c : IngressClient) : CString :=
  match c.state with
  | .preamble => bytes "preamble"
  | .framing => if 0 < c.rtpPort then bytes "streaming" else bytes "connected"

def transportIdle (c : IngressClient) (now : Int) : Int := max 0 (now - c.lastActivity)

def rtpIdle (c : IngressClient) (now : Int) : Int := if 0 < c.lastRtpTime then max 0 (now - c.lastRtpTime) else -1

def effectiveIdle (c : IngressClient) (now : Int) : Int :=
  if 0 < c.lastRtpTime then rtpIdle c now else transportIdle c now

def freshRtp (c : IngressClient) (now : Int) : Bool :=
  c.state == .framing && decide (0 < c.rtpPort) && c.rtpPackets != 0 &&
    decide (0 ≤ rtpIdle c now ∧ rtpIdle c now ≤ rtpStaleDeadlineSec)

def mediaState (c : IngressClient) (now : Int) : CString :=
  if c.state = .preamble ∨ c.rtpPort ≤ 0 then bytes "connected"
  else if c.rtpPackets = 0 then bytes "unknown"
  else if freshRtp c now then bytes "receiving_fresh_media"
  else bytes "stale"

def boolText (b : Bool) : CString := if b then bytes "true" else bytes "false"

def shownSn (c : IngressClient) : CString := if c.sn = [] then bytes "pending" else c.sn

def headText (s : StatsClient) (now : Int) : CString :=
  bytes "\x7b\"sn\":\"" ++ shownSn s.client ++ bytes "\",\"peer\":\"" ++ s.peerAddr ++ bytes "\",\"state\":\"" ++
    stateStr s.client ++ bytes "\",\"media_state\":\"" ++ mediaState s.client now ++ bytes "\",\"fresh_rtp\":" ++
    boolText (freshRtp s.client now) ++ bytes ",\"transport_connected\":true,\"route_exists\":" ++
    boolText (decide (0 < s.client.rtpPort)) ++ bytes ",\"connection_epoch\":" ++ decimal s.client.epoch ++
    bytes ",\"stale_deadline_sec\":" ++ decimal rtpStaleDeadlineSec ++ bytes ",\"rtp_port\":" ++
    decimal s.client.rtpPort ++ bytes ",\"rtcp_port\":" ++ decimal s.client.rtcpPort ++ bytes ",\"rtp_packets\":" ++
    decimal s.client.rtpPackets ++ bytes ",\"rtcp_packets\":" ++ decimal s.client.rtcpPackets ++
    bytes ",\"unrouted_packets\":" ++ decimal s.client.unroutedPackets ++ bytes ",\"keepalive_packets\":" ++
    decimal s.client.keepalivePackets ++ bytes ",\"bytes\":" ++ decimal s.client.totalBytes ++
    bytes ",\"duration_sec\":" ++ decimal (now - s.client.connectTime) ++ bytes ",\"idle_sec\":" ++
    decimal (effectiveIdle s.client now) ++ bytes ",\"transport_idle_sec\":" ++
    decimal (transportIdle s.client now) ++ bytes ","

def rtpText (c : IngressClient) (now : Int) : CString :=
  if 0 < c.lastRtpTime then
    bytes "\"last_rtp_at\":" ++ decimal c.lastRtpTime ++ bytes ",\"rtp_idle_sec\":" ++ decimal (rtpIdle c now) ++
      bytes ","
  else bytes "\"last_rtp_at\":null,\"rtp_idle_sec\":null,"

def rtcpText (c : IngressClient) : CString :=
  if 0 < c.lastRtcpTime then bytes "\"last_rtcp_at\":" ++ decimal c.lastRtcpTime ++ bytes ","
  else bytes "\"last_rtcp_at\":null,"

def activityText (c : IngressClient) : CString :=
  bytes "\"last_activity\":" ++ decimal c.lastActivity ++ bytes ",\"last_activity_at\":" ++ decimal c.lastActivity ++
    bytes "\x7d"

/-- With no room at all the element is left out. -/
def formatSessionJson (p : Page) (s : StatsClient) (now : Int) : Checked Page := do
  let room ← minus httpRespBufferSize p.off
  if room = 0 then .done p
  else do
    let p ← p.print (headText s now)
    let p ← p.print (rtpText s.client now)
    let p ← p.print (rtcpText s.client)
    p.print (activityText s.client)

def statsLoop (now : Int) : Bool → Page → List StatsClient → Checked Page
  | _, p, [] => .done p
  | first, p, s :: clients => do
      let p ← if first then .done p else p.print (bytes ",")
      let p ← formatSessionJson p s now
      statsLoop now false p clients

def statsHead (clients : List StatsClient) (now serverStart : Int) : CString :=
  bytes "\x7b\"status\":\"ok\",\"uptime_sec\":" ++ decimal (now - serverStart) ++ bytes ",\"stale_deadline_sec\":" ++
    decimal rtpStaleDeadlineSec ++ bytes ",\"active_connections\":" ++ decimal clients.length ++ bytes ",\"sessions\":["

def listStats (clients : List StatsClient) (now serverStart : Int) : Checked Page := do
  let p ← Page.print {} (statsHead clients now serverStart)
  let p ← statsLoop now true p clients
  p.print (bytes "]\x7d\n")

def Safe (x : Checked Page) : Prop := ∃ p, x = .done p

def digits (n : Int) : Nat := (decimal n).length

def routeSize (r : RouteEntry) : Nat := 34 + r.sn.length + digits r.rtpPort + digits r.rtcpPort

def routesSize (routes : List RouteEntry) : Nat := (routes.map routeSize).sum + (routes.length - 1)

def sessionSize (now : Int) (s : StatsClient) : Nat :=
  (headText s now).length + (rtpText s.client now).length + (rtcpText s.client).length + (activityText s.client).length

def statsSize (now : Int) (clients : List StatsClient) : Nat :=
  (clients.map (sessionSize now)).sum + (clients.length - 1)

theorem print_done {p q : Page} {text : CString} (h : p.print text = .done q) :
    p.off ≤ httpRespBufferSize ∧ q.off = p.off + text.length := by
  obtain ⟨room, hroom, hq⟩ := bind_eq_done.mp h
  obtain rfl := Checked.done.inj hq
  exact ⟨(minus_eq_done.mp hroom).1, rfl⟩

theorem print_some {p : Page} (text : CString) (h : p.off ≤ httpRespBufferSize) : ∃ q, p.print text = .done q :=
  ⟨_, bind_eq_done.mpr ⟨_, minus_eq_done.mpr ⟨h, rfl⟩, rfl⟩⟩

theorem print_safe_iff {p : Page} {text : CString} : Safe (p.print text) ↔ p.off ≤ httpRespBufferSize := by
  constructor
  · rintro ⟨q, hq⟩
    exact (print_done hq).1
  · exact print_some text

theorem bind_safe {x : Checked Page} {f : Page → Checked Page} :
    Safe (x >>= f) ↔ ∃ q, x = .done q ∧ Safe (f q) := by
  constructor
  · rintro ⟨final, hfinal⟩
    obtain ⟨q, hq, hrest⟩ := bind_eq_done.mp hfinal
    exact ⟨q, hq, final, hrest⟩
  · rintro ⟨q, hq, final, hrest⟩
    exact ⟨final, bind_eq_done.mpr ⟨q, hq, hrest⟩⟩

section Routes

theorem routeText_length (first : Bool) (r : RouteEntry) :
    (routeText first r).length = (if first then 0 else 1) + routeSize r := by
  have hsn : (bytes "\x7b\"sn\":\"").length = 7 := by decide
  have hrtp : (bytes "\",\"rtp_port\":").length = 13 := by decide
  have hrtcp : (bytes ",\"rtcp_port\":").length = 13 := by decide
  have hclose : (bytes "\x7d").length = 1 := by decide
  have hcomma : (if first then [] else bytes ",").length = if first then 0 else 1 := by
    cases first <;> decide
  simp only [routeText, List.length_append, hsn, hrtp, hrtcp, hclose, hcomma, routeSize, digits]
  omega

def routesLeft (first : Bool) (routes : List RouteEntry) : Nat :=
  (routes.map routeSize).sum + if first then routes.length - 1 else routes.length

theorem routesLeft_cons (first : Bool) (r : RouteEntry) (routes : List RouteEntry) :
    routesLeft first (r :: routes) = (routeText first r).length + routesLeft false routes := by
  rw [routeText_length]
  cases first <;> simp [routesLeft] <;> omega

theorem routeLoop_safe_iff (text : CString) (routes : List RouteEntry) (first : Bool) (p : Page) :
    Safe (routeLoop first p routes >>= fun q => q.print text) ↔ p.off + routesLeft first routes ≤ httpRespBufferSize := by
  induction routes generalizing first p with
  | nil =>
      have hnone : routesLeft first [] = 0 := by cases first <;> rfl
      rw [hnone]
      exact print_safe_iff
  | cons r routes ih =>
      rw [routesLeft_cons, ← Nat.add_assoc]
      have hassoc : (routeLoop first p (r :: routes) >>= fun q => q.print text) =
          (p.print (routeText first r) >>= fun q => routeLoop false q routes >>= fun q => q.print text) := by
        simp only [routeLoop, bind, Checked.bind]
        cases p.print (routeText first r) <;> rfl
      rw [hassoc, bind_safe]
      constructor
      · rintro ⟨q, hq, hrest⟩
        rw [ih, (print_done hq).2] at hrest
        exact hrest
      · intro hfits
        obtain ⟨q, hq⟩ := print_some (routeText first r) (p := p) (by omega)
        refine ⟨q, hq, ?_⟩
        rw [ih, (print_done hq).2]
        exact hfits

theorem listRoutes_safe_iff (routes : List RouteEntry) :
    Safe (listRoutes routes) ↔ 1 + routesSize routes ≤ httpRespBufferSize := by
  obtain ⟨q, hq⟩ := print_some (bytes "[") (p := {}) (Nat.zero_le _)
  have hoff : q.off = 1 := (print_done hq).2
  have hopen : listRoutes routes = (routeLoop true q routes >>= fun q => q.print (bytes "]\n")) := by
    simp only [listRoutes, hq, bind, Checked.bind]
  rw [hopen, routeLoop_safe_iff, hoff]
  rfl

end Routes

section Stats

variable {now : Int}

theorem formatSessionJson_full {p : Page} (s : StatsClient) (h : p.off = httpRespBufferSize) :
    formatSessionJson p s now = .done p := by
  have hroom : minus httpRespBufferSize p.off = .done 0 := minus_eq_done.mpr ⟨by omega, by omega⟩
  simp only [formatSessionJson, hroom, bind, Checked.bind, if_true]

theorem formatSessionJson_done {p q : Page} {s : StatsClient} (h : formatSessionJson p s now = .done q)
    (hroom : p.off ≠ httpRespBufferSize) : p.off ≤ httpRespBufferSize ∧ q.off = p.off + sessionSize now s := by
  obtain ⟨room, hminus, h⟩ := bind_eq_done.mp h
  obtain ⟨hle, rfl⟩ := minus_eq_done.mp hminus
  rw [if_neg (by omega)] at h
  obtain ⟨p₁, h₁, h⟩ := bind_eq_done.mp h
  obtain ⟨p₂, h₂, h⟩ := bind_eq_done.mp h
  obtain ⟨p₃, h₃, h⟩ := bind_eq_done.mp h
  refine ⟨hle, ?_⟩
  rw [(print_done h).2, (print_done h₃).2, (print_done h₂).2, (print_done h₁).2, sessionSize]
  omega

theorem formatSessionJson_some {p : Page} (s : StatsClient)
    (h : p.off + sessionSize now s ≤ httpRespBufferSize) : ∃ q, formatSessionJson p s now = .done q := by
  rw [sessionSize] at h
  obtain ⟨p₁, h₁⟩ := print_some (headText s now) (p := p) (by omega)
  obtain ⟨p₂, h₂⟩ := print_some (rtpText s.client now) (p := p₁) (by rw [(print_done h₁).2]; omega)
  obtain ⟨p₃, h₃⟩ := print_some (rtcpText s.client) (p := p₂) (by rw [(print_done h₂).2, (print_done h₁).2]; omega)
  obtain ⟨p₄, h₄⟩ := print_some (activityText s.client) (p := p₃)
    (by rw [(print_done h₃).2, (print_done h₂).2, (print_done h₁).2]; omega)
  by_cases hroom : httpRespBufferSize - p.off = 0
  · exact ⟨p, formatSessionJson_full s (by omega)⟩
  · have hminus : minus httpRespBufferSize p.off = .done (httpRespBufferSize - p.off) :=
      minus_eq_done.mpr ⟨by omega, rfl⟩
    refine ⟨p₄, ?_⟩
    simp only [formatSessionJson, hminus, bind, Checked.bind, if_neg hroom, h₁, h₂, h₃, h₄]

theorem sessionSize_pos (s : StatsClient) : 0 < sessionSize now s := by
  have hclose : (bytes "\x7d").length = 1 := by decide
  have hactivity : 0 < (activityText s.client).length := by
    rw [activityText, List.length_append, hclose]
    omega
  rw [sessionSize]
  omega

def statsLeft (now : Int) (first : Bool) (clients : List StatsClient) : Nat :=
  (clients.map (sessionSize now)).sum + if first then clients.length - 1 else clients.length

theorem statsLeft_cons (first : Bool) (s : StatsClient) (clients : List StatsClient) :
    statsLeft now first (s :: clients) = (if first then 0 else 1) + sessionSize now s + statsLeft now false clients := by
  cases first <;> simp [statsLeft] <;> omega

def LastLeftOut (now : Int) (off : Nat) (first : Bool) (clients : List StatsClient) : Prop :=
  ∃ front s, clients = front ++ [s] ∧
    off + statsLeft now first front + (if first = true ∧ front = [] then 0 else 1) = httpRespBufferSize

theorem statsLeft_nil (first : Bool) : statsLeft now first [] = 0 := by
  cases first <;> rfl

theorem lastLeftOut_cons {off : Nat} {first : Bool} {s : StatsClient} {clients : List StatsClient} :
    LastLeftOut now off first (s :: clients) ↔
      (clients = [] ∧ off + (if first then 0 else 1) = httpRespBufferSize) ∨
        LastLeftOut now (off + (if first then 0 else 1) + sessionSize now s) false clients := by
  constructor
  · rintro ⟨front, last, hsplit, hoff⟩
    cases front with
    | nil =>
        obtain ⟨rfl, rfl⟩ := List.cons.inj hsplit
        rw [statsLeft_nil] at hoff
        exact .inl ⟨rfl, by simpa using hoff⟩
    | cons t front =>
        obtain ⟨rfl, rfl⟩ := List.cons.inj hsplit
        refine .inr ⟨front, last, rfl, ?_⟩
        rw [statsLeft_cons] at hoff
        simp only [reduceCtorEq, and_false, if_false, Bool.false_eq_true, false_and] at hoff ⊢
        omega
  · rintro (⟨rfl, hoff⟩ | ⟨front, last, rfl, hoff⟩)
    · exact ⟨[], s, rfl, by rw [statsLeft_nil]; simpa using hoff⟩
    · refine ⟨s :: front, last, rfl, ?_⟩
      rw [statsLeft_cons]
      simp only [reduceCtorEq, and_false, if_false, Bool.false_eq_true, false_and] at hoff ⊢
      omega

theorem lastLeftOut_nil (off : Nat) (first : Bool) : ¬ LastLeftOut now off first [] := by
  rintro ⟨front, last, hsplit, -⟩
  exact absurd (congrArg List.length hsplit) (by simp)

theorem lastLeftOut_le {off : Nat} {first : Bool} {clients : List StatsClient}
    (h : LastLeftOut now off first clients) : off ≤ httpRespBufferSize := by
  obtain ⟨front, last, -, hoff⟩ := h
  omega

theorem comma_done {p q : Page} {first : Bool} (h : (if first then .done p else p.print (bytes ",")) = .done q) :
    q.off = p.off + (if first then 0 else 1) ∧ (first = false → p.off ≤ httpRespBufferSize) := by
  have hlen : (bytes ",").length = 1 := by decide
  cases first with
  | true =>
      obtain rfl := Checked.done.inj h
      exact ⟨rfl, fun hfalse => absurd hfalse (by simp)⟩
  | false =>
      obtain ⟨hle, hoff⟩ := print_done h
      exact ⟨by rw [hoff, hlen]; rfl, fun _ => hle⟩

theorem statsLoop_safe_iff (text : CString) (clients : List StatsClient) (first : Bool) (p : Page) :
    Safe (statsLoop now first p clients >>= fun q => q.print text) ↔
      p.off + statsLeft now first clients ≤ httpRespBufferSize ∨ LastLeftOut now p.off first clients := by
  induction clients generalizing first p with
  | nil =>
      rw [statsLeft_nil]
      constructor
      · intro h
        exact .inl (print_safe_iff.mp h)
      · rintro (h | h)
        · exact print_safe_iff.mpr h
        · exact absurd h (lastLeftOut_nil _ _)
  | cons s clients ih =>
      have hassoc : (statsLoop now first p (s :: clients) >>= fun q => q.print text) =
          ((if first then .done p else p.print (bytes ",")) >>= fun q => formatSessionJson q s now >>= fun q =>
            statsLoop now false q clients >>= fun q => q.print text) := by
        simp only [statsLoop, bind, Checked.bind]
        cases first with
        | true =>
            simp only [if_true]
            cases formatSessionJson p s now <;> rfl
        | false =>
            simp only [Bool.false_eq_true, if_false]
            cases p.print (bytes ",") with
            | done q =>
                dsimp only
                cases formatSessionJson q s now <;> rfl
            | refused => rfl
            | fault => rfl
      have hpos := @sessionSize_pos now s
      rw [hassoc, lastLeftOut_cons, statsLeft_cons, ← Nat.add_assoc, ← Nat.add_assoc]
      generalize hcomma : (if first = true then 0 else 1) = comma
      constructor
      · intro hsafe
        obtain ⟨q, hq, hsafe⟩ := bind_safe.mp hsafe
        obtain ⟨hoff, -⟩ := comma_done hq
        rw [hcomma] at hoff
        obtain ⟨q', hq', hrest⟩ := bind_safe.mp hsafe
        by_cases hfull : q.off = httpRespBufferSize
        · rw [formatSessionJson_full s hfull] at hq'
          obtain rfl := Checked.done.inj hq'
          rw [ih] at hrest
          cases clients with
          | nil => exact .inr (.inl ⟨rfl, by omega⟩)
          | cons t clients =>
              rw [lastLeftOut_cons, statsLeft_cons] at hrest
              have htail := @sessionSize_pos now t
              simp only [Bool.false_eq_true, if_false] at hrest
              obtain hfits | ⟨-, hlast⟩ | hlast := hrest
              · omega
              · omega
              · have := lastLeftOut_le hlast
                omega
        · obtain ⟨-, hoff'⟩ := formatSessionJson_done hq' hfull
          rw [ih, hoff', hoff] at hrest
          obtain hfits | hlast := hrest
          · exact .inl hfits
          · exact .inr (.inr hlast)
      · intro hfits
        have hcommaFits : p.off + comma ≤ httpRespBufferSize := by
          obtain h | ⟨-, h⟩ | h := hfits
          · omega
          · omega
          · have := lastLeftOut_le h
            omega
        obtain ⟨q, hq⟩ : ∃ q, (if first then .done p else p.print (bytes ",")) = .done q := by
          cases first with
          | true => exact ⟨p, rfl⟩
          | false => exact print_some _ (by omega)
        obtain ⟨hoff, -⟩ := comma_done hq
        rw [hcomma] at hoff
        refine bind_safe.mpr ⟨q, hq, ?_⟩
        by_cases hfull : q.off = httpRespBufferSize
        · refine bind_safe.mpr ⟨q, formatSessionJson_full s hfull, ?_⟩
          have hnone : clients = [] := by
            obtain h | ⟨h, -⟩ | h := hfits
            · omega
            · exact h
            · have := lastLeftOut_le h
              omega
          subst hnone
          exact print_safe_iff.mpr (Nat.le_of_eq hfull)
        · have hroom : q.off + sessionSize now s ≤ httpRespBufferSize := by
            obtain h | ⟨-, h⟩ | h := hfits
            · omega
            · omega
            · have := lastLeftOut_le h
              omega
          obtain ⟨q', hq'⟩ := formatSessionJson_some s hroom
          refine bind_safe.mpr ⟨q', hq', ?_⟩
          rw [ih, (formatSessionJson_done hq' hfull).2, hoff]
          obtain h | ⟨-, h⟩ | h := hfits
          · exact .inl h
          · omega
          · exact .inr h

theorem listStats_safe_iff (clients : List StatsClient) (serverStart : Int) :
    Safe (listStats clients now serverStart) ↔
      (statsHead clients now serverStart).length + statsSize now clients ≤ httpRespBufferSize ∨
        LastLeftOut now (statsHead clients now serverStart).length true clients := by
  obtain ⟨q, hq⟩ := print_some (statsHead clients now serverStart) (p := {}) (Nat.zero_le _)
  have hoff : q.off = (statsHead clients now serverStart).length := by
    rw [(print_done hq).2]
    exact Nat.zero_add _
  have hopen : listStats clients now serverStart =
      (statsLoop now true q clients >>= fun q => q.print (bytes "]\x7d\n")) := by
    simp only [listStats, hq, bind, Checked.bind]
  rw [hopen, statsLoop_safe_iff, hoff]
  rfl

end Stats

/-- The two listings stay inside the buffer exactly as long as their text up to
the closing bracket does; a last connection may find the buffer just full. -/
theorem listings_safe_iff (routes : List RouteEntry) (clients : List StatsClient) (now serverStart : Int) :
    (Safe (listRoutes routes) ∧ Safe (listStats clients now serverStart)) ↔
      1 + routesSize routes ≤ httpRespBufferSize ∧
        ((statsHead clients now serverStart).length + statsSize now clients ≤ httpRespBufferSize ∨
          LastLeftOut now (statsHead clients now serverStart).length true clients) := by
  rw [listRoutes_safe_iff, listStats_safe_iff]

def fullTable : List RouteEntry := List.replicate maxRoutes ⟨List.replicate 127 120, 6010, 6011, true⟩

theorem full_table_overruns : fullTable.length ≤ maxRoutes ∧ ¬ Safe (listRoutes fullTable) := by
  have hsize : routeSize ⟨List.replicate 127 120, 6010, 6011, true⟩ = 169 := by
    rw [routeSize, List.length_replicate]
    decide +kernel
  refine ⟨by simp [fullTable], ?_⟩
  rw [listRoutes_safe_iff, routesSize, fullTable, List.map_replicate, hsize, List.sum_replicate_nat, List.length_replicate]
  decide

end EtranProcessing.Ingress.Listing
