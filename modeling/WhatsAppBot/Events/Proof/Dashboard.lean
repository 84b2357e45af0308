import WhatsAppBot.Events.Proof.Endpoint

/-!
# What the dashboard hears

`Attended` is what one thing that happens keeps of the dashboard: one socket at a time, a timer only
when there is none, and the handlers called with what was received. With `stream_faithful` it says
what an operator can rely on who sees the dashboard connected (`live`).
-/

set_option autoImplicit false

namespace Events

open Lib

variable {reprOf : Json → String} {adminApiKey : String} {w : World} {c c' : Conn} {i j : Nat}

/-! ## A connection as the client sees it -/

/-- What the client has received. -/
def Conn.received (c : Conn) : List Frame := c.sent.take c.taken

/-- A step of the server, on one connection, or of another client. -/
structure Conn.Served (c c' : Conn) : Prop where
  ours : c'.ours = c.ours
  readyState : c.ours = true → c'.readyState = c.readyState
  taken : c'.taken = c.taken
  sent : c.sent <+: c'.sent

namespace Conn.Served

theorem refl (c : Conn) : c.Served c := ⟨rfl, fun _ => rfl, rfl, List.prefix_refl _⟩

theorem received (h : c.Served c') (hc : c.taken ≤ c.sent.length) : c'.received = c.received := by
  obtain ⟨rest, hrest⟩ := h.sent
  unfold Conn.received
  rw [h.taken, ← hrest, List.take_append_of_le_length hc]

theorem resume (clock : Nat) (answer : Answer) :
    c.Served (c.resume reprOf adminApiKey clock answer) := by
  unfold Conn.resume
  split
  case h_9 =>
    unfold Conn.authenticate
    split
    · exact refl c
    · split
      · exact ⟨rfl, fun _ => rfl, rfl, List.prefix_refl _⟩
      · exact ⟨rfl, fun _ => rfl, rfl, List.prefix_refl _⟩
  case h_12 =>
    unfold Conn.polled
    split
    · exact ⟨rfl, fun _ => rfl, rfl, List.prefix_refl _⟩
    · split
      · exact ⟨rfl, fun _ => rfl, rfl, List.prefix_refl _⟩
      · exact refl c
  case h_11 | h_13 | h_14 => exact ⟨rfl, fun _ => rfl, rfl, List.prefix_append _ _⟩
  all_goals exact ⟨rfl, fun _ => rfl, rfl, List.prefix_refl _⟩

theorem subscribed (published : Nat) : c.Served (c.subscribed published) := by
  unfold Conn.subscribed
  split
  · exact ⟨rfl, fun _ => rfl, rfl, List.prefix_refl _⟩
  · exact refl c

theorem renewed : c.Served c.renewed := ⟨rfl, fun _ => rfl, rfl, List.prefix_refl _⟩

theorem publish (e : DashboardEvent) : c.Served (c.publish e) :=
  ⟨rfl, fun _ => rfl, rfl, List.prefix_refl _⟩

end Conn.Served

/-! ## What the handlers hear -/

namespace EventsProvider

/-- What came on a connection. -/
def heardOn (t : EventsProvider) (i : Nat) : List Json :=
  (t.handled.filter fun x => x.1 = i).map (·.2)

/-- Nothing on the bus passes for `ready` or for a heartbeat. -/
theorem onMessage_event (i : Nat) (e : DashboardEvent) (t : EventsProvider) :
    t.onMessage i e.json = { t with handled := t.handled ++ [(i, e.json)] } := by
  cases e <;> rfl

theorem onMessage_ready (i : Nat) (t : EventsProvider) :
    t.onMessage i Frame.ready.json = { t with connected := true, retryMs := reconnectMinMs } := rfl

theorem onMessage_heartbeat (i : Nat) (t : EventsProvider) :
    t.onMessage i Frame.heartbeat.json = t := rfl

end EventsProvider

/-! ## The invariant -/

structure Attended (w : World) : Prop where
  live : ∀ i c, w.conns[i]? = some c → c.ours = true → c.readyState ≠ .closed →
    w.tab.socket = some i ∧ w.tab.timer = none ∧ w.tab.authFailed = false
  disposed : w.tab.disposed = true → w.tab.timer = none ∧ ∀ c ∈ w.conns, c.ours = true →
    c.readyState = .closing ∨ c.readyState = .closed
  authFailed : w.tab.authFailed = true → w.tab.timer = none
  connected : w.tab.connected = true → ∃ (i : Nat) (c : Conn), w.conns[i]? = some c ∧ c.ours = true ∧
    (c.readyState = .isOpen ∨ c.readyState = .closing) ∧ .ready ∈ c.received
  retryMs : reconnectMinMs ≤ w.tab.retryMs ∧ w.tab.retryMs ≤ reconnectMaxMs
  timer : ∀ ms, w.tab.timer = some ms → reconnectMinMs ≤ ms ∧ ms ≤ reconnectMaxMs
  taken : ∀ c ∈ w.conns, c.taken ≤ c.sent.length
  heard : ∀ i c, w.conns[i]? = some c →
    w.tab.heardOn i = (c.received.filterMap Frame.event?).map DashboardEvent.json
  unheard : ∀ i, w.conns.length ≤ i → w.tab.heardOn i = []

/-- A step of the server. -/
structure World.Served (w w' : World) : Prop where
  tab : w'.tab = w.tab
  length : w'.conns.length = w.conns.length
  conns : ∀ (i : Nat) (c : Conn), w.conns[i]? = some c → ∃ c', w'.conns[i]? = some c' ∧ c.Served c'

theorem World.Served.back {w' : World} (h : w.Served w') (hc : w'.conns[i]? = some c') :
    ∃ c : Conn, w.conns[i]? = some c ∧ c.Served c' := by
  have hlt : i < w.conns.length := by
    rw [← h.length]
    exact (List.getElem?_eq_some_iff.mp hc).1
  obtain ⟨d, hd, hserved⟩ := h.conns i _ (List.getElem?_eq_getElem hlt)
  rw [hc] at hd
  obtain rfl := Option.some.inj hd
  exact ⟨_, List.getElem?_eq_getElem hlt, hserved⟩

theorem Attended.served {w' : World} (h : Attended w) (hw : w.Served w') : Attended w' := by
  have hback := fun {i : Nat} {c' : Conn} (hc' : w'.conns[i]? = some c') => hw.back hc'
  have htab := hw.tab
  refine ⟨fun i c' hc' hours hopen => ?_, fun hd => ?_, ?_, fun hcon => ?_, ?_, ?_, fun c' hc' => ?_,
    fun i c' hc' => ?_, fun i hi => ?_⟩
  · obtain ⟨c, hc, hs⟩ := hback hc'
    rw [hs.ours] at hours
    rw [htab]
    exact h.live i c hc hours (hs.readyState hours ▸ hopen)
  · rw [htab] at hd ⊢
    refine ⟨(h.disposed hd).1, fun c' hc' hours => ?_⟩
    obtain ⟨i, hi⟩ := List.mem_iff_getElem?.mp hc'
    obtain ⟨c, hc, hs⟩ := hback hi
    rw [hs.ours] at hours
    rw [hs.readyState hours]
    exact (h.disposed hd).2 c (List.mem_of_getElem? hc) hours
  · rw [htab]
    exact h.authFailed
  · rw [htab] at hcon
    obtain ⟨i, c, hc, hours, hstate, hready⟩ := h.connected hcon
    obtain ⟨c', hc', hs⟩ := hw.conns i c hc
    exact ⟨i, c', hc', hs.ours.trans hours, hs.readyState hours ▸ hstate,
      hs.received (h.taken c (List.mem_of_getElem? hc)) ▸ hready⟩
  · rw [htab]
    exact h.retryMs
  · rw [htab]
    exact h.timer
  · obtain ⟨i, hi⟩ := List.mem_iff_getElem?.mp hc'
    obtain ⟨c, hc, hs⟩ := hback hi
    rw [hs.taken]
    exact Nat.le_trans (h.taken c (List.mem_of_getElem? hc)) hs.sent.length_le
  · obtain ⟨c, hc, hs⟩ := hback hc'
    rw [htab, hs.received (h.taken c (List.mem_of_getElem? hc))]
    exact h.heard i c hc
  · rw [htab]
    exact h.unheard i (hw.length ▸ hi)

namespace World

theorem Served.update {f : Conn → Conn} (hf : ∀ c : Conn, c.Served (f c)) : w.Served (w.update i f) := by
  unfold World.update
  split
  · exact ⟨rfl, rfl, fun i c hc => ⟨c, hc, .refl c⟩⟩
  · rename_i c hc
    refine ⟨rfl, List.length_set, fun j d hd => ?_⟩
    by_cases hj : j = i
    · subst hj
      obtain rfl := Option.some.inj (hc.symm.trans hd)
      exact ⟨f c, List.getElem?_set_self (List.getElem?_eq_some_iff.mp hc).1, hf c⟩
    · exact ⟨d, by rw [← hd]; exact List.getElem?_set_ne (Ne.symm hj), .refl d⟩

theorem Served.publish (e : DashboardEvent) : w.Served { w with
    published := w.published ++ [e], conns := w.conns.map (Conn.publish e) } :=
  ⟨rfl, List.length_map _, fun i c hc => ⟨c.publish e, by simp [hc], .publish e⟩⟩

theorem conns_put (hc : w.conns[i]? = some c) (c' : Conn) (j : Nat) :
    (w.put i c').conns[j]? = if j = i then some c' else w.conns[j]? := by
  have hlt := (List.getElem?_eq_some_iff.mp hc).1
  by_cases hj : j = i
  · subst hj
    rw [if_pos rfl]
    exact List.getElem?_set_self hlt
  · rw [if_neg hj]
    exact List.getElem?_set_ne (Ne.symm hj)

end World

/-! ## The steps of the browser -/

/-- A socket changes, with the state of the page or without it. -/
structure Turned (w : World) (i : Nat) (c c' : Conn) (tab : EventsProvider) : Prop where
  conns : w.conns[i]? = some c
  ours : c.ours = true
  ours' : c'.ours = true
  live : c.readyState ≠ .closed
  sent : c'.sent = c.sent
  taken : c'.taken ≤ c'.sent.length
  socket : tab.socket = w.tab.socket
  elsewhere : ∀ j, j ≠ i → tab.heardOn j = w.tab.heardOn j
  heard : tab.heardOn i = (c'.received.filterMap Frame.event?).map DashboardEvent.json
  retryMs : reconnectMinMs ≤ tab.retryMs ∧ tab.retryMs ≤ reconnectMaxMs
  closing : tab.disposed = true → c'.readyState = .closing ∨ c'.readyState = .closed
  connected : tab.connected = true →
    (c'.readyState = .isOpen ∨ c'.readyState = .closing) ∧ .ready ∈ c'.received
  /-- A timer is only set when the socket is closed. -/
  timer : tab.timer = none ∧ tab.authFailed = false ∨
    c'.readyState = .closed ∧ (tab.authFailed = true → tab.timer = none) ∧
      (tab.disposed = true → tab.timer = none) ∧
      ∀ ms, tab.timer = some ms → reconnectMinMs ≤ ms ∧ ms ≤ reconnectMaxMs

theorem Attended.turned (tab : EventsProvider) (h : Attended w) (ht : Turned w i c c' tab) :
    Attended { w.put i c' with tab } := by
  obtain ⟨hsocket, -, -⟩ := h.live i c ht.conns ht.ours ht.live
  -- the other sockets are closed
  have hothers : ∀ j d, j ≠ i → w.conns[j]? = some d → d.ours = true → d.readyState = .closed := by
    intro j d hj hd hours
    by_contra hopen
    exact hj (Option.some.inj ((h.live j d hd hours hopen).1.symm.trans hsocket))
  have hcases : ∀ j d, (w.put i c').conns[j]? = some d →
      j = i ∧ d = c' ∨ j ≠ i ∧ w.conns[j]? = some d := by
    intro j d hd
    rw [World.conns_put ht.conns] at hd
    split at hd
    · exact .inl ⟨‹_›, (Option.some.inj hd).symm⟩
    · exact .inr ⟨‹_›, hd⟩
  have hself : (w.put i c').conns[i]? = some c' := by rw [World.conns_put ht.conns, if_pos rfl]
  constructor
  case live =>
    intro j d hd hours hopen
    rcases hcases j d hd with ⟨rfl, rfl⟩ | ⟨hj, hd⟩
    · rcases ht.timer with ⟨htimer, hauth⟩ | ⟨hclosed, -⟩
      · exact ⟨ht.socket.trans hsocket, htimer, hauth⟩
      · exact absurd hclosed hopen
    · exact absurd (hothers j d hj hd hours) hopen
  case disposed =>
    intro hdisposed
    refine ⟨?_, fun d hd hours => ?_⟩
    · rcases ht.timer with ⟨htimer, -⟩ | ⟨-, -, htimer, -⟩
      · exact htimer
      · exact htimer hdisposed
    · obtain ⟨j, hj⟩ := List.mem_iff_getElem?.mp hd
      rcases hcases j d hj with ⟨-, rfl⟩ | ⟨hj, hd⟩
      · exact ht.closing hdisposed
      · exact .inr (hothers j d hj hd hours)
  case authFailed =>
    intro hauth
    rcases ht.timer with ⟨htimer, -⟩ | ⟨-, htimer, -⟩
    · exact htimer
    · exact htimer hauth
  case connected =>
    intro hcon
    obtain ⟨hstate, hready⟩ := ht.connected hcon
    exact ⟨i, c', hself, ht.ours', hstate, hready⟩
  case retryMs => exact ht.retryMs
  case timer =>
    intro ms hms
    rcases ht.timer with ⟨htimer, -⟩ | ⟨-, -, -, hbound⟩
    · cases htimer.symm.trans hms
    · exact hbound ms hms
  case taken =>
    intro d hd
    obtain ⟨j, hj⟩ := List.mem_iff_getElem?.mp hd
    rcases hcases j d hj with ⟨-, rfl⟩ | ⟨-, hd⟩
    · exact ht.taken
    · exact h.taken d (List.mem_of_getElem? hd)
  case heard =>
    intro j d hd
    rcases hcases j d hd with ⟨rfl, rfl⟩ | ⟨hj, hd⟩
    · exact ht.heard
    · exact (ht.elsewhere j hj).trans (h.heard j d hd)
  case unheard =>
    intro j hj
    have hlen : (w.put i c').conns.length = w.conns.length := List.length_set
    have hne : j ≠ i := by
      rintro rfl
      exact absurd (hlen ▸ (List.getElem?_eq_some_iff.mp hself).1) (Nat.not_lt.mpr (hlen ▸ hj))
    exact (ht.elsewhere j hne).trans (h.unheard j (hlen ▸ hj))

/-- A step of a socket that tells the page nothing. -/
theorem Attended.socket (h : Attended w) (hc : w.conns[i]? = some c) (hours : c.ours = true)
    (hlive : c.readyState ≠ .closed) (hours' : c'.ours = c.ours) (hsent : c'.sent = c.sent)
    (htaken : c'.taken = c.taken) (hdisposed : w.tab.disposed = true → c'.readyState = .closing)
    (hopen : c'.readyState = .isOpen ∨ c'.readyState = .closing) : Attended (w.put i c') := by
  obtain ⟨hsocket, htimer, hauth⟩ := h.live i c hc hours hlive
  have hreceived : c'.received = c.received := by rw [Conn.received, hsent, htaken, Conn.received]
  refine h.turned w.tab ⟨hc, hours, hours'.trans hours, hlive, hsent, ?_, rfl,
    fun _ _ => rfl, ?_, h.retryMs, fun hd => .inl (hdisposed hd), fun hcon => ⟨hopen, ?_⟩,
    .inl ⟨htimer, hauth⟩⟩
  · rw [hsent, htaken]
    exact h.taken c (List.mem_of_getElem? hc)
  · rw [hreceived]
    exact h.heard i c hc
  · obtain ⟨j, d, hd, hours_d, hstate, hready⟩ := h.connected hcon
    have hne : d.readyState ≠ .closed := by rcases hstate with hs | hs <;> simp [hs]
    obtain rfl := Option.some.inj ((h.live j d hd hours_d hne).1.symm.trans hsocket)
    obtain rfl := Option.some.inj (hc.symm.trans hd)
    rw [hreceived]
    exact hready

/-- The connection the page is connected by is the one that lives. -/
theorem Attended.ready (h : Attended w) (hc : w.conns[i]? = some c) (hours : c.ours = true)
    (hlive : c.readyState ≠ .closed) (hcon : w.tab.connected = true) : .ready ∈ c.received := by
  obtain ⟨j, d, hd, hours_d, hstate, hready⟩ := h.connected hcon
  have hne : d.readyState ≠ .closed := by rcases hstate with hs | hs <;> simp [hs]
  have hsocket := (h.live i c hc hours hlive).1
  obtain rfl := Option.some.inj ((h.live j d hd hours_d hne).1.symm.trans hsocket)
  obtain rfl := Option.some.inj (hc.symm.trans hd)
  exact hready

theorem Attended.message {frame : Frame} (h : Attended w) (hc : w.conns[i]? = some c)
    (hours : c.ours = true) (hopen : c.readyState = .isOpen)
    (hframe : c.sent[c.taken]? = some frame) :
    Attended { w.put i { c with taken := c.taken + 1 } with tab := w.tab.onMessage i frame.json } := by
  have hlive : c.readyState ≠ .closed := by simp [hopen]
  obtain ⟨hsocket, htimer, hauth⟩ := h.live i c hc hours hlive
  have hmem := List.mem_of_getElem? hc
  have hnot : w.tab.disposed = true → False := by
    intro hd
    rcases (h.disposed hd).2 c hmem hours with hs | hs <;> simp [hs] at hopen
  have hlt := (List.getElem?_eq_some_iff.mp hframe).1
  have hreceived : ({ c with taken := c.taken + 1 } : Conn).received = c.received ++ [frame] := by
    simp only [Conn.received, List.take_add_one, hframe]
    rfl
  have hturned : ∀ tab : EventsProvider, tab.socket = w.tab.socket → tab.disposed = w.tab.disposed →
      tab.timer = w.tab.timer → tab.authFailed = w.tab.authFailed →
      (∀ j, j ≠ i → tab.heardOn j = w.tab.heardOn j) →
      tab.heardOn i = w.tab.heardOn i ++ frame.event?.toList.map DashboardEvent.json →
      (reconnectMinMs ≤ tab.retryMs ∧ tab.retryMs ≤ reconnectMaxMs) →
      (tab.connected = true → frame = .ready ∨ w.tab.connected = true) →
      Attended { w.put i { c with taken := c.taken + 1 } with tab } := by
    intro tab hs hd ht ha helsewhere hheard hretry hcon
    refine h.turned _ ⟨hc, hours, hours, hlive, rfl, hlt, hs, helsewhere, ?_, hretry,
      fun hdisposed => (hnot (hd ▸ hdisposed)).elim, fun hconnected => ⟨.inl hopen, ?_⟩,
      .inl ⟨ht.trans htimer, ha.trans hauth⟩⟩
    · rw [hheard, h.heard i c hc, hreceived, List.filterMap_append, List.map_append]
      cases frame <;> rfl
    · rw [hreceived]
      rcases hcon hconnected with rfl | hcon
      · simp
      · exact List.mem_append_left _ (h.ready hc hours hlive hcon)
  cases frame with
  | ready =>
    rw [EventsProvider.onMessage_ready]
    exact hturned _ rfl rfl rfl rfl (fun _ _ => rfl) (by simp [EventsProvider.heardOn, Frame.event?])
      ⟨Nat.le_refl _, by simp [reconnectMinMs, reconnectMaxMs]⟩ fun _ => .inl rfl
  | heartbeat =>
    rw [EventsProvider.onMessage_heartbeat]
    exact hturned _ rfl rfl rfl rfl (fun _ _ => rfl) (by simp [Frame.event?]) h.retryMs .inr
  | event e =>
    rw [show (Frame.event e).json = e.json from rfl, EventsProvider.onMessage_event]
    refine hturned _ rfl rfl rfl rfl (fun j hj => ?_) ?_ h.retryMs .inr
    · simp [EventsProvider.heardOn, Ne.symm hj]
    · simp [EventsProvider.heardOn, Frame.event?]

theorem Attended.closed (code : Nat) (h : Attended w) (hc : w.conns[i]? = some c)
    (hours : c.ours = true) (hlive : c.readyState ≠ .closed) : Attended (w.closed i c code) := by
  obtain ⟨hsocket, htimer, hauth⟩ := h.live i c hc hours hlive
  have htaken := h.taken c (List.mem_of_getElem? hc)
  have hturned : ∀ tab : EventsProvider, tab.socket = w.tab.socket →
      tab.handled = w.tab.handled → tab.connected = false →
      (reconnectMinMs ≤ tab.retryMs ∧ tab.retryMs ≤ reconnectMaxMs) →
      ((tab.authFailed = true → tab.timer = none) ∧ (tab.disposed = true → tab.timer = none) ∧
        ∀ ms, tab.timer = some ms → reconnectMinMs ≤ ms ∧ ms ≤ reconnectMaxMs) →
      Attended { w.put i { c with readyState := .closed } with tab } := by
    intro tab hs hhandled hcon hretry htimers
    have hheard : ∀ j, tab.heardOn j = w.tab.heardOn j := fun j => by
      simp only [EventsProvider.heardOn, hhandled]
    exact h.turned _ ⟨hc, hours, hours, hlive, rfl, htaken, hs, fun j _ => hheard j,
      (hheard i).trans (h.heard i c hc), hretry, fun _ => .inr rfl,
      fun hconnected => by simp [hcon] at hconnected, .inr ⟨rfl, htimers⟩⟩
  unfold World.closed EventsProvider.onClose
  dsimp only
  split
  · rename_i hdisposed
    exact hturned _ rfl rfl rfl h.retryMs
      ⟨fun _ => htimer, fun _ => htimer, fun ms hms => h.timer ms hms⟩
  · rename_i hdisposed
    split
    · exact hturned _ rfl rfl rfl h.retryMs
        ⟨fun _ => htimer, fun _ => htimer, fun ms hms => h.timer ms hms⟩
    · have hretry := h.retryMs
      refine hturned _ rfl rfl rfl ?_ ⟨fun ha => ?_, fun hd => absurd hd hdisposed, ?_⟩
      · simp only [reconnectMinMs, reconnectMaxMs] at hretry ⊢
        omega
      · exact absurd (hauth.symm.trans ha) Bool.false_ne_true
      · rintro ms hms
        obtain rfl := Option.some.inj hms
        exact hretry

/-! ## Connecting and leaving -/

/-- One more connection. -/
theorem Attended.append {tab : EventsProvider} {ours : Bool} (h : Attended w)
    (hlive : ∀ j d, w.conns[j]? = some d → d.ours = true → d.readyState ≠ .closed →
      tab.socket = some j ∧ tab.timer = none ∧ tab.authFailed = false)
    (hnew : ours = true → tab.socket = some w.conns.length ∧ tab.timer = none ∧
      tab.authFailed = false ∧ tab.disposed = false)
    (htimer : tab.timer = w.tab.timer ∨ tab.timer = none) (hauth : tab.authFailed = w.tab.authFailed)
    (hdisposed : tab.disposed = w.tab.disposed) (hconnected : tab.connected = w.tab.connected)
    (hretry : tab.retryMs = w.tab.retryMs) (hhandled : tab.handled = w.tab.handled) :
    Attended { w with conns := w.conns ++ [Conn.asking ours], tab := tab } := by
  have hcases : ∀ j d, (w.conns ++ [Conn.asking ours])[j]? = some d →
      w.conns[j]? = some d ∨ j = w.conns.length ∧ d = Conn.asking ours := by
    intro j d hd
    rw [List.getElem?_append] at hd
    split at hd
    · exact .inl hd
    · obtain ⟨hlt, rfl⟩ := List.getElem?_eq_some_iff.mp hd
      simp only [List.length_singleton] at hlt
      exact .inr ⟨by omega, by simp⟩
  have hheard : ∀ j, tab.heardOn j = w.tab.heardOn j := fun j => by
    simp only [EventsProvider.heardOn, hhandled]
  have hnone : w.tab.timer = none → tab.timer = none := by
    intro hnone
    rcases htimer with ht | ht
    · exact ht.trans hnone
    · exact ht
  constructor
  case live =>
    intro j d hd hours hopen
    rcases hcases j d hd with hd | ⟨rfl, rfl⟩
    · exact hlive j d hd hours hopen
    · obtain ⟨hsocket, ht, ha, -⟩ := hnew hours
      exact ⟨hsocket, ht, ha⟩
  case disposed =>
    intro hd
    refine ⟨hnone (h.disposed (hdisposed ▸ hd)).1, fun d hmem hours => ?_⟩
    rcases List.mem_append.mp hmem with hmem | hmem
    · exact (h.disposed (hdisposed ▸ hd)).2 d hmem hours
    · obtain rfl := List.mem_singleton.mp hmem
      exact absurd ((hnew hours).2.2.2.symm.trans hd) Bool.false_ne_true
  case authFailed => exact fun ha => hnone (h.authFailed (hauth ▸ ha))
  case connected =>
    intro hcon
    obtain ⟨j, d, hd, hours, hstate, hready⟩ := h.connected (hconnected ▸ hcon)
    refine ⟨j, d, ?_, hours, hstate, hready⟩
    rw [← hd]
    exact List.getElem?_append_left (List.getElem?_eq_some_iff.mp hd).1
  case retryMs => exact hretry ▸ h.retryMs
  case timer =>
    intro ms hms
    rcases htimer with ht | ht
    · exact h.timer ms (ht ▸ hms)
    · cases ht.symm.trans hms
  case taken =>
    intro d hmem
    rcases List.mem_append.mp hmem with hmem | hmem
    · exact h.taken d hmem
    · obtain rfl := List.mem_singleton.mp hmem
      exact Nat.le_refl _
  case heard =>
    intro j d hd
    rcases hcases j d hd with hd | ⟨rfl, rfl⟩
    · exact (hheard j).trans (h.heard j d hd)
    · exact (hheard _).trans (h.unheard _ (Nat.le_refl _))
  case unheard =>
    intro j hj
    have hle : w.conns.length ≤ j := by
      have : (w.conns ++ [Conn.asking ours]).length ≤ j := hj
      simp at this
      omega
    exact (hheard j).trans (h.unheard j hle)

/-- The page as its cleanup leaves it. -/
def EventsProvider.dispose (t : EventsProvider) : EventsProvider :=
  { t with disposed := true, timer := none }

theorem Attended.unmount (h : Attended w) : Attended (w.act reprOf adminApiKey .unmount) := by
  by_cases hsome : ∃ (i : Nat) (c : Conn), w.conns[i]? = some c ∧ c.ours = true ∧ c.readyState ≠ .closed
  · obtain ⟨i, c, hc, hours, hlive⟩ := hsome
    obtain ⟨hsocket, htimer, hauth⟩ := h.live i c hc hours hlive
    have hready := h.ready hc hours hlive
    simp only [World.act]
    split
    · rename_i hnone
      cases hsocket.symm.trans hnone
    · rename_i j hj
      obtain rfl := Option.some.inj (hsocket.symm.trans hj)
      unfold World.update
      split
      · rename_i hnone
        cases hc.symm.trans hnone
      · rename_i d hd
        obtain rfl := Option.some.inj (hc.symm.trans hd)
        unfold Conn.close
        rw [if_neg hlive]
        exact h.turned w.tab.dispose ⟨hc, hours, hours, hlive, rfl,
          h.taken c (List.mem_of_getElem? hc), rfl, fun _ _ => rfl, h.heard i c hc, h.retryMs,
          fun _ => .inl rfl, fun hcon => ⟨.inr rfl, hready hcon⟩, .inl ⟨rfl, hauth⟩⟩
  · have hclosed : ∀ (i : Nat) (c : Conn), w.conns[i]? = some c → c.ours = true →
        c.readyState = .closed := by
      intro i c hc hours
      by_contra hlive
      exact hsome ⟨i, c, hc, hours, hlive⟩
    have hleft : Attended { w with tab := w.tab.dispose } := by
      refine ⟨fun i c hc hours hlive => absurd (hclosed i c hc hours) hlive, fun _ => ⟨rfl, ?_⟩,
        fun _ => rfl, h.connected, h.retryMs, (fun _ htimer => by cases htimer), h.taken, h.heard,
        h.unheard⟩
      intro c hmem hours
      obtain ⟨i, hi⟩ := List.mem_iff_getElem?.mp hmem
      exact .inr (hclosed i c hi hours)
    simp only [World.act]
    split
    · exact hleft
    · rename_i i _
      unfold World.update
      split
      · exact hleft
      · rename_i c hc
        have hserved : c.Served c.close := by
          unfold Conn.close
          split
          · exact .refl c
          · rename_i hlive
            exact ⟨rfl, fun hours => absurd (hclosed i c hc hours) hlive, rfl, List.prefix_refl _⟩
        refine hleft.served ⟨rfl, List.length_set, fun j d hd => ?_⟩
        rw [World.conns_put hc]
        split
        · subst j
          obtain rfl := Option.some.inj (hc.symm.trans hd)
          exact ⟨_, rfl, hserved⟩
        · exact ⟨d, hd, .refl d⟩

theorem act_attended (a : Act) (h : Attended w) : Attended (w.act reprOf adminApiKey a) := by
  have honSocket : ∀ (i : Nat) (may : Conn → Bool) (f : Conn → World),
      (∀ c, w.conns[i]? = some c → c.ours = true → may c = true → Attended (f c)) →
      Attended (w.onSocket i may f) := by
    intro i may f hf
    unfold World.onSocket
    split
    · exact h
    · rename_i c hc
      split
      · rename_i hmay
        rw [Bool.and_eq_true] at hmay
        exact hf c hc hmay.1 hmay.2
      · exact h
  cases a with
  | publish e => exact h.served (.publish e)
  | tick => exact h.served ⟨rfl, rfl, fun i c hc => ⟨c, hc, .refl c⟩⟩
  | subscribed i => exact h.served (.update fun c => .subscribed _)
  | renewed i => exact h.served (.update fun c => .renewed)
  | resume i answer => exact h.served (.update fun c => .resume _ answer)
  | ask => exact h.append h.live nofun (.inl rfl) rfl rfl rfl rfl rfl
  | speak i parsed =>
    refine h.served (.update fun c => ?_)
    split
    · exact .refl c
    · exact ⟨rfl, fun _ => rfl, rfl, List.prefix_refl _⟩
  | opened i apiKey =>
    refine honSocket i _ _ fun c hc hours hmay => ?_
    simp only [Bool.and_eq_true, decide_eq_true_eq] at hmay
    refine h.socket hc hours (by simp [hmay.1]) rfl rfl rfl (fun hd => ?_) (.inl rfl)
    rcases (h.disposed hd).2 c (List.mem_of_getElem? hc) hours with hs | hs <;> simp [hs] at hmay
  | message i =>
    refine honSocket i _ _ fun c hc hours hmay => ?_
    split
    · exact h
    · exact h.message hc hours (by simpa using hmay) ‹_›
  | error i =>
    refine honSocket i _ _ fun c hc hours _ => ?_
    unfold Conn.close
    split
    · exact h.served ⟨rfl, List.length_set, fun j d hd => by
        refine ⟨d, ?_, .refl d⟩
        rw [World.conns_put hc]
        split
        · subst j
          exact hc.symm.trans hd ▸ rfl
        · exact hd⟩
    · exact h.socket hc hours ‹_› rfl rfl rfl (fun _ => rfl) (.inr rfl)
  | closeFrame i =>
    refine honSocket i _ _ fun c hc hours hmay => ?_
    split
    · exact h
    · refine h.closed _ hc hours fun hclosed => ?_
      simp [hclosed] at hmay
  | lost i =>
    refine honSocket i _ _ fun c hc hours hmay => ?_
    exact h.closed _ hc hours (by simpa using hmay)
  | timer =>
    simp only [World.act]
    split
    · exact h
    · rename_i ms hms
      have hnone : ∀ {p : Prop}, w.tab.timer = none → p := fun hnone => by
        rw [hnone] at hms
        cases hms
      refine Attended.append (w := w) h (fun j d hd hours hlive => hnone (h.live j d hd hours hlive).2.1)
        (fun _ => ⟨rfl, rfl, ?_, ?_⟩) (.inr rfl) rfl rfl rfl rfl rfl
      · exact Bool.eq_false_iff.mpr fun ha => hnone (h.authFailed ha)
      · exact Bool.eq_false_iff.mpr fun hd => hnone (h.disposed hd).1
  | unmount => exact h.unmount

theorem start_attended : Attended World.start := by
  have hempty : Attended ⟨[], 0, [], ⟨false, false, none, reconnectMinMs, none, false, []⟩⟩ := by
    constructor
    case retryMs => simp [reconnectMinMs, reconnectMaxMs]
    all_goals simp [EventsProvider.heardOn]
  exact hempty.append (by simp) (fun _ => ⟨rfl, rfl, rfl, rfl⟩) (.inl rfl) rfl rfl rfl rfl rfl

theorem run_attended (acts : List Act) : Attended (World.run reprOf adminApiKey acts) := by
  have hfold : ∀ w, Attended w → Attended (acts.foldl (World.act reprOf adminApiKey) w) := by
    induction acts with
    | nil => exact fun w hw => hw
    | cons a acts ih => exact fun w hw => ih _ (act_attended a hw)
  exact hfold _ start_attended

/-! ## What an operator can rely on -/

/-- What of a connection's line the client has still to hear. -/
def Conn.ahead (c : Conn) : List DashboardEvent :=
  (c.sent.drop c.taken).filterMap Frame.event? ++ c.phase.inHand ++ c.queue.getD []

theorem Conn.line_eq (c : Conn) : c.line = c.received.filterMap Frame.event? ++ c.ahead := by
  have hevents : c.events = c.received.filterMap Frame.event? ++
      (c.sent.drop c.taken).filterMap Frame.event? := by
    rw [← List.filterMap_append, Conn.received, List.take_append_drop]
    rfl
  rw [Conn.line, hevents, Conn.ahead]
  simp

namespace World

/-- Every connection is sent what it should be. -/
def Faithful (reprOf : Json → String) (adminApiKey : String) (w : World) : Prop :=
  ∀ c ∈ w.conns, c.Faithful reprOf adminApiKey w.published

/-- What the bus has carried since the subscription of a connection began. -/
def since (w : World) (c : Conn) : List Json :=
  (w.published.drop c.since).map DashboardEvent.json

structure Live (reprOf : Json → String) (adminApiKey : String) (w : World) : Prop where
  /-- One socket at a time, and none while a timer waits. -/
  one : ∀ (i j : Nat) (c d : Conn), w.conns[i]? = some c → w.conns[j]? = some d → c.ours = true → d.ours = true →
    c.readyState ≠ .closed → d.readyState ≠ .closed → i = j ∧ w.tab.timer = none
  /-- What is heard is in the order of the bus, and heard once. -/
  heard : ∀ (i : Nat) (c : Conn), w.conns[i]? = some c → (w.tab.heardOn i).Sublist (w.since c) ∧
    (c.unbroken = true → w.tab.heardOn i <+: w.since c)
  /-- A dashboard that is connected misses nothing: what it has not heard is on its way. -/
  connected : w.tab.connected = true → ∃ (i : Nat) (c : Conn), w.tab.socket = some i ∧ w.conns[i]? = some c ∧
    c.Admitted reprOf adminApiKey ∧ (c.unbroken = true → c.queue.isSome = true →
      w.tab.heardOn i ++ c.ahead.map DashboardEvent.json = w.since c)
  retry : ∀ ms, w.tab.timer = some ms → reconnectMinMs ≤ ms ∧ ms ≤ reconnectMaxMs
  /-- After a key that was refused, and after the unmount, nothing connects again. -/
  quit : w.tab.authFailed = true ∨ w.tab.disposed = true → w.tab.timer = none ∧
    ∀ c ∈ w.conns, c.ours = true → c.readyState = .closing ∨ c.readyState = .closed

end World

/-- **Nobody hears anything without the key**, and what a client is sent is what was published. -/
theorem stream_faithful (acts : List Act) :
    (World.run reprOf adminApiKey acts).Faithful reprOf adminApiKey :=
  fun c hc => (World.run_allGood acts c hc).1

/-- **The dashboard's stream**, whatever happens in the browser, on the server, in Redis and between
them. -/
theorem stream_live (acts : List Act) :
    (World.run reprOf adminApiKey acts).Live reprOf adminApiKey := by
  have h : Attended (World.run reprOf adminApiKey acts) := run_attended acts
  have hfaithful : (World.run reprOf adminApiKey acts).AllGood reprOf adminApiKey :=
    World.run_allGood acts
  have hmem := fun {i : Nat} {c : Conn} => List.mem_of_getElem?
    (l := (World.run reprOf adminApiKey acts).conns) (i := i) (a := c)
  constructor
  case one =>
    intro i j c d hc hd hours hours' hlive hlive'
    obtain ⟨hsocket, htimer, -⟩ := h.live i c hc hours hlive
    exact ⟨Option.some.inj (hsocket.symm.trans (h.live j d hd hours' hlive').1), htimer⟩
  case heard =>
    intro i c hc
    have hsent := (hfaithful c (hmem hc)).1
    have hpre : c.received.filterMap Frame.event? <+: c.line := by
      rw [c.line_eq]
      exact List.prefix_append _ _
    rw [h.heard i c hc]
    exact ⟨(hpre.sublist.trans hsent.ordered).map _,
      fun hu => (hpre.trans (hsent.unbroken hu).1).map _⟩
  case connected =>
    intro hcon
    obtain ⟨i, c, hc, hours, hstate, hready⟩ := h.connected hcon
    have hsent := (hfaithful c (hmem hc)).1
    have hlive : c.readyState ≠ .closed := by rcases hstate with hs | hs <;> simp [hs]
    have hne : c.sent ≠ [] := by
      intro hnil
      simp [Conn.received, hnil] at hready
    refine ⟨i, c, (h.live i c hc hours hlive).1, hc, hsent.admitted (.inr hne), fun hu hq => ?_⟩
    rw [h.heard i c hc, ← List.map_append, ← c.line_eq, (hsent.unbroken hu).2 hq]
    rfl
  case retry => exact h.timer
  case quit =>
    rintro (hauth | hdisposed)
    · refine ⟨h.authFailed hauth, fun c hc hours => .inr ?_⟩
      obtain ⟨i, hi⟩ := List.mem_iff_getElem?.mp hc
      by_contra hlive
      exact absurd ((h.live i c hi hours hlive).2.2.symm.trans hauth) Bool.false_ne_true
    · exact h.disposed hdisposed

example :
    let w := World.run (fun _ => "") "key" [.resume 0 (.limiter true), .opened 0 "key",
      .resume 0 .done, .resume 0 .done, .resume 0 .done, .subscribed 0, .message 0,
      .publish (.conversationActivity 41 true "2025-01-01T00:00:00+00:00"), .resume 0 .done,
      .resume 0 .done, .message 0]
    w.tab.connected = true ∧ w.tab.handled.map (·.1) = [0] := by decide

end Events
