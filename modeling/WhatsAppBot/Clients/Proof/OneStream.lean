import WhatsAppBot.Clients.WebSocketService

/-!
# One live connection

The service has no guard between the key it waits for and the channel it opens, and lets go of the old
channel by overwriting it. `one_stream`: as long as a key is only found when nothing is subscribed and
nobody has disconnected in the meantime (`InTurn`), what it knows of its channels is all there is
(`Tracked`), so there is one stream, which tells each event once, and none after `disconnect`.
-/

set_option autoImplicit false

namespace Clients

open Lib Callbacks

variable {w w' : Phone} {ks ks' : List Wait} {s s' : WebSocketService}

/-- A part of `disconnect` is still to come. -/
def Wait.disconnects : Wait → Bool
  | .apiKey => false
  | .subCancelled | .channelClosed _ => true

/-- The lookup leads to a channel. -/
def Lookup.opens : Lookup → Bool
  | .found (some apiKey) .opened | .found (some apiKey) .unsent => apiKey ≠ ""
  | _ => false

/-- `connect` is not called while `disconnect` is under way, and a key that is found finds no live
subscription and no `disconnect` since the last `connect`. -/
def InTurn (w : Phone) (ks : List Wait) : Act Wait StreamCall Lookup → Prop
  | .call (.connect _) => ∀ k ∈ ks, k.disconnects = false
  | .resume .apiKey lookup =>
    lookup.opens = true → (∀ i, w.listens i = false) ∧ w.service.manuallyClosed = false
  | _ => True

/-- The numbers of the events that the listeners were told. -/
def Phone.heard (w : Phone) : List Nat := w.service.eventStream.map (·.number)

/-- **One live connection.** -/
structure OneStream (w : Phone) : Prop where
  one : ∀ i j, w.listens i = true → w.listens j = true → i = j
  once : w.heard.Nodup
  quiet : w.disconnected = true → ∀ i, w.isOpen i = false

/-! ## The service -/

/-- Nothing that belongs to the connection differs. -/
structure SameConnection (s s' : WebSocketService) : Prop where
  channel : s'.channel = s.channel
  sub : s'.sub = s.sub
  manuallyClosed : s'.manuallyClosed = s.manuallyClosed
  eventStream : s'.eventStream = s.eventStream

namespace SameConnection

open WebSocketService

theorem setState (state : WsConnectionState) (s : WebSocketService) : SameConnection s (setState state s) :=
  ⟨rfl, rfl, rfl, rfl⟩

theorem scheduleReconnect (s : WebSocketService) : SameConnection s (scheduleReconnect s) :=
  ⟨rfl, rfl, rfl, rfl⟩

theorem onDone (s : WebSocketService) : SameConnection s (onDone s) := by
  unfold WebSocketService.onDone
  dsimp only
  split
  · exact ⟨rfl, rfl, rfl, rfl⟩
  · exact ⟨rfl, rfl, rfl, rfl⟩

theorem doConnect (s : WebSocketService) : SameConnection s (doConnect s).1 := by
  unfold WebSocketService.doConnect
  split
  · exact ⟨rfl, rfl, rfl, rfl⟩
  · exact setState .connecting s

end SameConnection

theorem doConnect_waits (s : WebSocketService) : ∀ k ∈ (s.doConnect).2, k = .apiKey := by
  unfold WebSocketService.doConnect
  split
  · exact List.forall_mem_nil _
  · exact List.forall_mem_singleton.mpr rfl

/-- A frame tells the listeners about itself, or about nothing. -/
theorem onMessage_spec (frame : Frame) (s : WebSocketService) :
    (s.onMessage frame).channel = s.channel ∧ (s.onMessage frame).sub = s.sub ∧
      (s.onMessage frame).manuallyClosed = s.manuallyClosed ∧
      ∃ told, told.Sublist [frame.number] ∧
        (s.onMessage frame).eventStream.map (·.number) = s.eventStream.map (·.number) ++ told := by
  have hsame : ∀ {t : WebSocketService}, SameConnection s t → t.channel = s.channel ∧ t.sub = s.sub ∧
      t.manuallyClosed = s.manuallyClosed ∧ ∃ told, told.Sublist [frame.number] ∧
        t.eventStream.map (·.number) = s.eventStream.map (·.number) ++ told := fun h =>
    ⟨h.channel, h.sub, h.manuallyClosed, [], List.nil_sublist _, by rw [h.eventStream, List.append_nil]⟩
  unfold WebSocketService.onMessage
  split
  · split
    · exact hsame ⟨rfl, rfl, rfl, rfl⟩
    · exact hsame ⟨rfl, rfl, rfl, rfl⟩
    · exact hsame ⟨rfl, rfl, rfl, rfl⟩
    · exact ⟨rfl, rfl, rfl, [frame.number], .refl _, List.map_append⟩
  · exact hsame ⟨rfl, rfl, rfl, rfl⟩

/-! ## The channels -/

section

variable {p : Channel → Bool} {i channel : Nat} {f : Channel → Channel}

theorem any_update : (w.update channel f).channels[i]?.any p =
    if i = channel then w.channels[i]?.any fun c => p (f c) else w.channels[i]?.any p := by
  rw [Phone.update, List.getElem?_modify]
  by_cases h : i = channel
  · rw [if_pos h]
    cases hc : w.channels[i]? with
    | none => rfl
    | some c => simp [h]
  · rw [if_neg h]
    cases hc : w.channels[i]? with
    | none => rfl
    | some c => simp [Ne.symm h]

theorem mem_update {c : Channel} (h : c ∈ (w.update channel f).channels) :
    c ∈ w.channels ∨ ∃ d, w.channels[channel]? = some d ∧ c = f d := by
  obtain ⟨i, hi⟩ := List.mem_iff_getElem?.mp h
  rw [Phone.update, List.getElem?_modify] at hi
  cases hd : w.channels[i]? with
  | none =>
    rw [hd] at hi
    cases hi
  | some d =>
    rw [hd] at hi
    by_cases hchannel : channel = i
    · right
      subst hchannel
      exact ⟨d, hd, by simpa using hi.symm⟩
    · left
      obtain rfl : d = c := by simpa [hchannel] using hi
      exact List.mem_of_getElem? hd

theorem any_openChannel {apiKey : Option String} (hp : p ⟨true, true, apiKey, []⟩ = true) :
    (w.openChannel apiKey).channels[i]?.any p =
      (decide (i = w.channels.length) || w.channels[i]?.any p) := by
  rw [Phone.openChannel]
  by_cases h : i = w.channels.length
  · simp [h, hp]
  · rw [decide_eq_false h, Bool.false_or]
    rcases Nat.lt_or_gt_of_ne h with hlt | hlt
    · rw [List.getElem?_append_left hlt]
    · have hlen : (w.channels ++ [(⟨true, true, apiKey, []⟩ : Channel)]).length ≤ i := by
        rw [List.length_append]
        exact hlt
      rw [List.getElem?_eq_none hlen, List.getElem?_eq_none (Nat.le_of_lt hlt)]

end

/-! ## What the service knows of its channels -/

/-- **The subscription and the channel it knows are all there are**; a channel that is open without a
subscription is about to be closed. -/
structure Tracked (w : Phone) (ks : List Wait) : Prop where
  sub : ∀ i, w.listens i = true → w.service.sub = some i
  channel : ∀ i, w.isOpen i = true → w.service.channel = some i
  leaving : ∀ i, w.isOpen i = true → w.listens i = false → ∃ k ∈ ks, k.disconnects = true
  target : ∀ channel, .channelClosed channel ∈ ks → channel = w.service.channel
  closed : (∃ k ∈ ks, k.disconnects = true) ∨ w.disconnected = true → w.service.manuallyClosed = true
  stopped : w.service.manuallyClosed = true → ∀ i, w.listens i = false
  quiet : w.disconnected = true → ∀ i, w.isOpen i = false

theorem mem_of_left {k next : Wait} (h : k ∈ ks ++ ks') : k ∈ ks ++ next :: ks' :=
  ((List.sublist_cons_self next ks').append_left ks).subset h

/-- The same connections, as the service knows them. -/
structure Alike (w w' : Phone) : Prop where
  listens : ∀ i, w'.listens i = w.listens i
  isOpen : ∀ i, w'.isOpen i = w.isOpen i
  channel : w'.service.channel = w.service.channel
  sub : w'.service.sub = w.service.sub
  manuallyClosed : w'.service.manuallyClosed = w.service.manuallyClosed
  disconnected : w'.disconnected = w.disconnected

theorem Alike.serve {f : WebSocketService → WebSocketService} (h : SameConnection w.service (f w.service)) :
    Alike w (w.serve f) :=
  ⟨fun _ => rfl, fun _ => rfl, h.channel, h.sub, h.manuallyClosed, rfl⟩

/-- A wait for a key does not matter. -/
theorem Tracked.alike {new : List Wait} (h : Tracked w ks) (hw : Alike w w') (hnew : ∀ k ∈ new, k = .apiKey) :
    Tracked w' (ks ++ new) := by
  have hmem : ∀ {k : Wait}, k ∈ ks ++ new → k.disconnects = true → k ∈ ks := fun {k} hk hdis => by
    refine (List.mem_append.mp hk).resolve_right fun hk => ?_
    rw [hnew k hk] at hdis
    cases hdis
  refine ⟨fun i hi => ?_, fun i hi => ?_, fun i hi hl => ?_, fun channel hk => ?_, fun hc => ?_, fun hm i => ?_,
    fun hd i => ?_⟩
  · rw [hw.listens] at hi
    rw [hw.sub, h.sub i hi]
  · rw [hw.isOpen] at hi
    rw [hw.channel, h.channel i hi]
  · rw [hw.isOpen] at hi
    rw [hw.listens] at hl
    obtain ⟨k, hk, hdis⟩ := h.leaving i hi hl
    exact ⟨k, List.mem_append_left _ hk, hdis⟩
  · rw [hw.channel]
    exact h.target channel (hmem hk rfl)
  · rw [hw.manuallyClosed]
    rw [hw.disconnected] at hc
    exact h.closed (hc.imp_left fun ⟨k, hk, hdis⟩ => ⟨k, hmem hk hdis, hdis⟩)
  · rw [hw.manuallyClosed] at hm
    rw [hw.listens, h.stopped hm]
  · rw [hw.disconnected] at hd
    rw [hw.isOpen, h.quiet hd]

theorem Tracked.connect (h : Tracked w ks) (baseUrl : String) (hks : ∀ k ∈ ks, k.disconnects = false) :
    Tracked (w.call (.connect baseUrl)).1 (ks ++ (w.call (.connect baseUrl)).2) := by
  have hnone : ∀ k ∈ ks ++ [Wait.apiKey], k.disconnects = false :=
    List.forall_mem_append.mpr ⟨hks, List.forall_mem_singleton.mpr rfl⟩
  have hnone' : ¬∃ k ∈ ks ++ [Wait.apiKey], k.disconnects = true := fun ⟨k, hk, hdis⟩ => by
    rw [hnone k hk] at hdis
    cases hdis
  refine ⟨h.sub, h.channel, fun i hi hl => ?_, fun channel hk => ?_, fun hc => ?_, nofun, nofun⟩
  · obtain ⟨k, hk, hdis⟩ := h.leaving i hi hl
    rw [hks k hk] at hdis
    cases hdis
  · exact absurd ⟨_, hk, rfl⟩ hnone'
  · cases hc.resolve_left hnone'

/-- Nothing else was listening. -/
theorem listens_cancelSub (h : ∀ i, w.listens i = true → w.service.sub = some i) (i : Nat) :
    w.cancelSub.listens i = false := by
  have hother : w.service.sub ≠ some i → w.listens i = false := fun hne => by
    by_contra hi
    exact hne (h i (by simpa using hi))
  unfold Phone.cancelSub
  cases hsub : w.service.sub with
  | none => exact hother (by rw [hsub]; exact nofun)
  | some sub =>
    refine any_update.trans ?_
    split
    · simp
    · rename_i hne
      exact hother (by rw [hsub]; exact fun heq => hne (Option.some.inj heq).symm)

theorem isOpen_cancelSub (i : Nat) : w.cancelSub.isOpen i = w.isOpen i := by
  unfold Phone.cancelSub
  cases w.service.sub with
  | none => rfl
  | some sub =>
    refine any_update.trans ?_
    split
    · rfl
    · rfl

theorem service_cancelSub : w.cancelSub.service = w.service ∧ w.cancelSub.disconnected = w.disconnected := by
  unfold Phone.cancelSub
  cases w.service.sub with
  | none => exact ⟨rfl, rfl⟩
  | some sub => exact ⟨rfl, rfl⟩

theorem Tracked.disconnect (h : Tracked w ks) : Tracked w.disconnect.1 (ks ++ w.disconnect.2) := by
  obtain ⟨f, hf⟩ : ∃ f : WebSocketService → WebSocketService, f = fun s =>
    WebSocketService.stopHeartbeat { s with manuallyClosed := true, reconnectTimer := none } := ⟨_, rfl⟩
  have hw : w.disconnect.1 = (w.serve f).cancelSub := by rw [hf]; rfl
  have hservice : (w.serve f).service = f w.service := rfl
  rw [hw]
  have hlistens : ∀ i, (w.serve f).cancelSub.listens i = false :=
    listens_cancelSub fun i hi => by rw [hservice, hf]; exact h.sub i hi
  have hcoming : Wait.subCancelled ∈ ks ++ w.disconnect.2 := List.mem_append_right _ List.mem_cons_self
  refine ⟨fun i hi => ?_, fun i hi => ?_, fun i hi hl => ?_, fun channel hk => ?_, fun hc => ?_, fun hm => hlistens,
    fun hd i => ?_⟩
  · rw [hlistens] at hi
    cases hi
  · rw [isOpen_cancelSub] at hi
    rw [service_cancelSub.1, hservice, hf]
    exact h.channel i hi
  · exact ⟨_, hcoming, rfl⟩
  · rw [service_cancelSub.1, hservice, hf]
    refine h.target channel ((List.mem_append.mp hk).resolve_right ?_)
    rintro hk
    cases List.mem_singleton.mp hk
  · rw [service_cancelSub.1, hservice, hf]
    rfl
  · rw [service_cancelSub.2] at hd
    rw [isOpen_cancelSub]
    exact h.quiet hd i

theorem Tracked.endStream (h : Tracked w ks) (channel : Nat) : Tracked (w.endStream channel) ks := by
  obtain ⟨ended, hended⟩ : ∃ ended : Phone, ended = w.update channel fun c =>
    { c with isOpen := false, listening := false } := ⟨_, rfl⟩
  have hlistens : ∀ i, ended.listens i = (decide (i ≠ channel) && w.listens i) := fun i => by
    rw [hended]
    refine any_update.trans ?_
    by_cases hi : i = channel
    · simp [hi]
    · simp [hi, Phone.listens]
  have hopen : ∀ i, ended.isOpen i = (decide (i ≠ channel) && w.isOpen i) := fun i => by
    rw [hended]
    refine any_update.trans ?_
    by_cases hi : i = channel
    · simp [hi]
    · simp [hi, Phone.isOpen]
  have hservice : ended.service = w.service := by rw [hended]; rfl
  have hdisconnected : ended.disconnected = w.disconnected := by rw [hended]; rfl
  have htracked : Tracked ended ks := by
    refine ⟨fun i hi => ?_, fun i hi => ?_, fun i hi hl => ?_, ?_, ?_, fun hm i => ?_, fun hd i => ?_⟩
    · rw [hlistens, Bool.and_eq_true] at hi
      rw [hservice]
      exact h.sub i hi.2
    · rw [hopen, Bool.and_eq_true] at hi
      rw [hservice]
      exact h.channel i hi.2
    · rw [hopen, Bool.and_eq_true] at hi
      rw [hlistens, hi.1, Bool.true_and] at hl
      exact h.leaving i hi.2 hl
    · rw [hservice]
      exact h.target
    · rw [hservice, hdisconnected]
      exact h.closed
    · rw [hservice] at hm
      rw [hlistens, h.stopped hm, Bool.and_false]
    · rw [hdisconnected] at hd
      rw [hopen, h.quiet hd, Bool.and_false]
  rw [Phone.endStream, ← hended]
  split
  · have halike : Tracked (ended.serve WebSocketService.onDone) (ks ++ []) :=
      htracked.alike (.serve (.onDone ended.service)) (List.forall_mem_nil _)
    rwa [List.append_nil] at halike
  · exact htracked

theorem Tracked.openChannel (h : Tracked w ks) (hlistens : ∀ i, w.listens i = false)
    (hclosed : w.service.manuallyClosed = false) (apiKey : Option String) : Tracked (w.openChannel apiKey) ks := by
  have hks : ∀ k ∈ ks, k.disconnects = false := fun k hk => by
    by_contra hdis
    rw [h.closed (.inl ⟨k, hk, by simpa using hdis⟩)] at hclosed
    cases hclosed
  have hnone : ∀ i, w.isOpen i = false := fun i => by
    by_contra hi
    obtain ⟨k, hk, hdis⟩ := h.leaving i (by simpa using hi) (hlistens i)
    rw [hks k hk] at hdis
    cases hdis
  have hopened : ∀ i, (w.openChannel apiKey).isOpen i = decide (i = w.channels.length) := fun i => by
    have hany : (w.openChannel apiKey).isOpen i = (decide (i = w.channels.length) || w.isOpen i) :=
      any_openChannel rfl
    rw [hany, hnone, Bool.or_false]
  have hheard : ∀ i, (w.openChannel apiKey).listens i = decide (i = w.channels.length) := fun i => by
    have hany : (w.openChannel apiKey).listens i = (decide (i = w.channels.length) || w.listens i) :=
      any_openChannel rfl
    rw [hany, hlistens, Bool.or_false]
  refine ⟨fun i hi => ?_, fun i hi => ?_, fun i hi hl => ?_, fun channel hk => ?_, fun hc => ?_, fun hm => ?_,
    fun hd => ?_⟩
  · rw [hheard] at hi
    rw [of_decide_eq_true hi]
    rfl
  · rw [hopened] at hi
    rw [of_decide_eq_true hi]
    rfl
  · rw [hheard, ← hopened, hi] at hl
    cases hl
  · cases hks _ hk
  · exact h.closed hc
  · rw [show (w.openChannel apiKey).service.manuallyClosed = w.service.manuallyClosed from rfl, hclosed] at hm
    cases hm
  · have hm := h.closed (.inr hd)
    rw [hclosed] at hm
    cases hm

/-- **The channel that is closed** is the one that was open. -/
theorem Tracked.closeChannel {channel : Option Nat} (h : Tracked w (ks ++ .channelClosed channel :: ks'))
    (lookup : Lookup) : Tracked (w.resume (.channelClosed channel) lookup).1 (ks ++ ks') := by
  have hmem : Wait.channelClosed channel ∈ ks ++ .channelClosed channel :: ks' := by simp
  have hmanually := h.closed (.inl ⟨_, hmem, rfl⟩)
  have hnone := h.stopped hmanually
  obtain ⟨closed, hclosed⟩ : ∃ closed : Phone, closed = w.closeSink channel := ⟨_, rfl⟩
  have hopen : ∀ i, closed.isOpen i = false := fun i => by
    by_contra hi
    have hi : closed.isOpen i = true := by simpa using hi
    rw [hclosed, h.target channel hmem] at hi
    unfold Phone.closeSink at hi
    cases hchannel : w.service.channel with
    | none =>
      rw [hchannel] at hi
      have hknown := h.channel i hi
      rw [hchannel] at hknown
      cases hknown
    | some open' =>
      rw [hchannel] at hi
      have hany := any_update.symm.trans hi
      split at hany
      · simp at hany
      · rename_i hne
        have hknown := h.channel i hany
        rw [hchannel] at hknown
        exact hne (Option.some.inj hknown).symm
  have hlistens : ∀ i, closed.listens i = w.listens i := fun i => by
    rw [hclosed]
    unfold Phone.closeSink
    cases channel with
    | none => rfl
    | some channel =>
      refine any_update.trans ?_
      split
      · rfl
      · rfl
  have hservice : closed.service = w.service := by
    rw [hclosed]
    cases channel with
    | none => rfl
    | some channel => rfl
  have hw : (w.resume (.channelClosed channel) lookup).1 =
      { closed.serve (WebSocketService.setState .disconnected) with disconnected := true } := by
    rw [hclosed]
    rfl
  rw [hw]
  refine ⟨fun i hi => ?_, fun i hi => ?_, fun i hi => ?_, fun other hk => ?_, fun _ => ?_, fun _ i => ?_,
    fun _ => hopen⟩
  · have hi : closed.listens i = true := hi
    rw [hlistens, hnone] at hi
    cases hi
  · have hi : closed.isOpen i = true := hi
    rw [hopen] at hi
    cases hi
  · have hi : closed.isOpen i = true := hi
    rw [hopen] at hi
    cases hi
  · show other = closed.service.channel
    rw [hservice]
    exact h.target other (mem_of_left hk)
  · show closed.service.manuallyClosed = true
    rw [hservice, hmanually]
  · show closed.listens i = false
    rw [hlistens, hnone]

/-! ## What the listeners are told -/

/-- A live subscription has nothing in front of it that was told before. -/
structure Numbered (w : Phone) : Prop where
  heard : ∀ n ∈ w.heard, n < w.sent
  once : w.heard.Nodup
  coming : ∀ c ∈ w.channels, c.listening = true →
    (w.heard ++ c.coming.map (·.number)).Nodup ∧ ∀ f ∈ c.coming, f.number < w.sent

/-- No channel has more in front of it than before. -/
theorem Numbered.same (h : Numbered w) (hheard : w'.heard = w.heard) (hsent : w'.sent = w.sent)
    (hchannels : ∀ c' ∈ w'.channels, c'.listening = true →
      c'.coming = [] ∨ ∃ c ∈ w.channels, c.listening = true ∧ c'.coming = c.coming) : Numbered w' := by
  refine ⟨?_, ?_, fun c' hc' hlistening => ?_⟩
  · rw [hheard, hsent]
    exact h.heard
  · rw [hheard]
    exact h.once
  · rw [hheard, hsent]
    rcases hchannels c' hc' hlistening with hnil | ⟨c, hc, hlistening, hcoming⟩
    · rw [hnil, List.map_nil, List.append_nil]
      exact ⟨h.once, List.forall_mem_nil _⟩
    · rw [hcoming]
      exact h.coming c hc hlistening

theorem Numbered.serve {f : WebSocketService → WebSocketService} (h : Numbered w)
    (hf : SameConnection w.service (f w.service)) : Numbered (w.serve f) :=
  h.same (congrArg (List.map _) hf.eventStream) rfl fun c hc hlistening => .inr ⟨c, hc, hlistening, rfl⟩

theorem Numbered.update {channel : Nat} {f : Channel → Channel} (h : Numbered w)
    (hf : ∀ c, (f c).coming = c.coming ∧ ((f c).listening = true → c.listening = true)) :
    Numbered (w.update channel f) := by
  refine h.same rfl rfl fun c' hc' hlistening => .inr ?_
  rcases mem_update hc' with hc | ⟨c, hc, rfl⟩
  · exact ⟨c', hc, hlistening, rfl⟩
  · exact ⟨c, List.mem_of_getElem? hc, (hf c).2 hlistening, (hf c).1⟩

theorem Numbered.openChannel (h : Numbered w) (apiKey : Option String) : Numbered (w.openChannel apiKey) := by
  refine h.same rfl rfl fun c hc hlistening => ?_
  rcases List.mem_append.mp hc with hc | hc
  · exact .inr ⟨c, hc, hlistening, rfl⟩
  · rw [List.mem_singleton.mp hc]
    exact .inl rfl

/-- What the backend sends is new to everyone. -/
theorem Numbered.send (h : Numbered w) (connections : List Nat) (data : Payload) :
    Numbered (w.call (.send connections data)).1 := by
  refine ⟨fun n hn => Nat.lt_succ_of_lt (h.heard n hn), h.once, fun c' hc' hlistening => ?_⟩
  obtain ⟨i, hi, rfl⟩ := List.mem_mapIdx.mp hc'
  have hmem := List.getElem_mem hi
  generalize w.channels[i] = c at hmem hlistening
  have hkept : c.listening = true := by
    split at hlistening
    · exact hlistening
    · exact hlistening
  obtain ⟨hnodup, hcoming⟩ := h.coming c hmem hkept
  have hold : ∀ f ∈ c.coming, f.number < w.sent + 1 := fun f hf => Nat.lt_succ_of_lt (hcoming f hf)
  show (w.heard ++ (if i ∈ connections ∧ c.isOpen = true then { c with coming := c.coming ++ [⟨w.sent, data⟩] }
    else c : Channel).coming.map (·.number)).Nodup ∧ _
  split
  · refine ⟨?_, List.forall_mem_append.mpr ⟨hold, List.forall_mem_singleton.mpr (Nat.lt_succ_self _)⟩⟩
    rw [List.map_append, ← List.append_assoc]
    refine List.nodup_append.mpr ⟨hnodup, List.nodup_singleton _, fun n hn m hm => ?_⟩
    rw [List.mem_singleton.mp hm]
    rcases List.mem_append.mp hn with hn | hn
    · exact Nat.ne_of_lt (h.heard n hn)
    · obtain ⟨f, hf, rfl⟩ := List.mem_map.mp hn
      exact Nat.ne_of_lt (hcoming f hf)
  · exact ⟨hnodup, hold⟩

/-- **A frame is told once**, as nobody else is listening. -/
theorem Numbered.arrive (h : Numbered w) (hone : ∀ i j, w.listens i = true → w.listens j = true → i = j)
    (channel : Nat) : Numbered (w.arrive channel) := by
  unfold Phone.arrive
  split
  · rename_i isOpen listening apiKey frame coming hchannel
    cases listening with
    | false =>
      refine h.same rfl rfl fun c' hc' hlistening => ?_
      rcases mem_update hc' with hc | ⟨c, hc, rfl⟩
      · exact .inr ⟨c', hc, hlistening, rfl⟩
      · cases hlistening
    | true =>
      obtain ⟨hnodup, hcoming⟩ := h.coming _ (List.mem_of_getElem? hchannel) rfl
      obtain ⟨popped, hpopped⟩ : ∃ popped : Phone,
        popped = w.update channel fun _ => ⟨isOpen, true, apiKey, coming⟩ := ⟨_, rfl⟩
      obtain ⟨-, -, -, told, htold, hheard⟩ := onMessage_spec frame popped.service
      have hheard : (popped.serve (WebSocketService.onMessage frame)).heard = w.heard ++ told := by
        rw [show w.heard = popped.heard by rw [hpopped]; rfl]
        exact hheard
      have hlast : ((w.heard ++ told) ++ coming.map (·.number)).Nodup := by
        refine hnodup.sublist ?_
        rw [List.append_assoc, List.map_cons, ← List.singleton_append]
        exact (htold.append_right _).append_left _
      have hsent : popped.sent = w.sent := by rw [hpopped]; rfl
      show Numbered ((w.update channel fun _ => ⟨isOpen, true, apiKey, coming⟩).serve
        (WebSocketService.onMessage frame))
      rw [← hpopped]
      refine ⟨fun n hn => ?_, ?_, fun c' hc' hlistening => ?_⟩
      · rw [hheard] at hn
        show n < popped.sent
        rw [hsent]
        rcases List.mem_append.mp hn with hn | hn
        · exact h.heard n hn
        · rw [List.mem_singleton.mp (htold.subset hn)]
          exact hcoming frame List.mem_cons_self
      · rw [hheard]
        exact hlast.sublist (List.sublist_append_left _ _)
      · obtain ⟨i, hi⟩ := List.mem_iff_getElem?.mp (show c' ∈ popped.channels from hc')
        obtain rfl : i = channel := by
          by_contra hne
          have hi' : popped.channels[i]?.any (·.listening) = true := by rw [hi]; exact hlistening
          rw [hpopped, any_update, if_neg hne] at hi'
          exact hne (hone i channel hi' (by rw [Phone.listens, hchannel]; rfl))
        rw [hpopped, Phone.update, List.getElem?_modify_eq, hchannel] at hi
        obtain rfl := Option.some.inj hi
        rw [hheard]
        refine ⟨hlast, fun f hf => ?_⟩
        show f.number < popped.sent
        rw [hsent]
        exact hcoming f (List.mem_cons_of_mem _ hf)
  · exact h

/-! ## Steps -/

theorem alike_arrive (channel : Nat) : Alike w (w.arrive channel) := by
  unfold Phone.arrive
  split
  · rename_i isOpen listening apiKey frame coming hchannel
    have hpop : Alike w (w.update channel fun _ => ⟨isOpen, listening, apiKey, coming⟩) := by
      refine ⟨fun i => any_update.trans ?_, fun i => any_update.trans ?_, rfl, rfl, rfl, rfl⟩
      · split
        · rename_i hi
          rw [hi, Phone.listens, hchannel]
          rfl
        · rfl
      · split
        · rename_i hi
          rw [hi, Phone.isOpen, hchannel]
          rfl
        · rfl
    dsimp only
    split
    · obtain ⟨hch, hsub, hmanually, -⟩ := onMessage_spec frame w.service
      exact ⟨hpop.listens, hpop.isOpen, hch, hsub, hmanually, rfl⟩
    · exact hpop
  · exact ⟨fun _ => rfl, fun _ => rfl, rfl, rfl, rfl, rfl⟩

theorem alike_send (connections : List Nat) (data : Payload) :
    Alike w (w.call (.send connections data)).1 := by
  have hany : ∀ (p : Channel → Bool), (∀ c coming, p { c with coming } = p c) → ∀ i : Nat,
      (w.call (.send connections data)).1.channels[i]?.any p = w.channels[i]?.any p := by
    intro p hp i
    show (w.channels.mapIdx _)[i]?.any p = _
    rw [List.getElem?_mapIdx]
    cases w.channels[i]? with
    | none => rfl
    | some c =>
      show p (if i ∈ connections ∧ c.isOpen = true then _ else c) = p c
      split
      · exact hp c _
      · rfl
  exact ⟨hany _ fun _ _ => rfl, hany _ fun _ _ => rfl, rfl, rfl, rfl, rfl⟩

theorem numbered_disconnect (h : Numbered w) : Numbered w.disconnect.1 := by
  have hserved : Numbered (w.serve fun s =>
      WebSocketService.stopHeartbeat { s with manuallyClosed := true, reconnectTimer := none }) :=
    h.same rfl rfl fun c hc hlistening => .inr ⟨c, hc, hlistening, rfl⟩
  show Numbered (Phone.cancelSub _)
  unfold Phone.cancelSub
  split
  · exact hserved
  · exact hserved.update fun c => ⟨rfl, nofun⟩

/-- What holds in between. -/
structure Sound (w : Phone) (ks : List Wait) : Prop where
  tracked : Tracked w ks
  numbered : Numbered w

theorem Sound.serve {f : WebSocketService → WebSocketService} {new : List Wait} (h : Sound w ks)
    (hf : SameConnection w.service (f w.service)) (hnew : ∀ k ∈ new, k = .apiKey) :
    Sound (w.serve f) (ks ++ new) :=
  ⟨h.tracked.alike (.serve hf) hnew, h.numbered.serve hf⟩

theorem Sound.call (h : Sound w ks) (e : StreamCall) (hturn : InTurn w ks (.call e)) :
    Sound (w.call e).1 (ks ++ (w.call e).2) := by
  have hone : ∀ i j, w.listens i = true → w.listens j = true → i = j := fun i j hi hj =>
    Option.some.inj ((h.tracked.sub i hi).symm.trans (h.tracked.sub j hj))
  have hsame : Sound w (ks ++ []) := by rwa [List.append_nil]
  cases e with
  | connect baseUrl =>
    exact ⟨h.tracked.connect baseUrl hturn,
      h.numbered.same rfl rfl fun c hc hlistening => .inr ⟨c, hc, hlistening, rfl⟩⟩
  | disconnect => exact ⟨h.tracked.disconnect, numbered_disconnect h.numbered⟩
  | send connections data =>
    exact ⟨h.tracked.alike (alike_send connections data) (List.forall_mem_nil _),
      h.numbered.send connections data⟩
  | frame channel =>
    exact ⟨h.tracked.alike (alike_arrive channel) (List.forall_mem_nil _), h.numbered.arrive hone channel⟩
  | socketClosed channel =>
    refine ⟨?_, ?_⟩
    · show Tracked (w.endStream channel) (ks ++ [])
      rw [List.append_nil]
      exact h.tracked.endStream channel
    · have hended : Numbered (w.update channel fun c => { c with isOpen := false, listening := false }) :=
        h.numbered.update fun c => ⟨rfl, nofun⟩
      show Numbered (w.endStream channel)
      unfold Phone.endStream
      dsimp only
      split
      · exact hended.serve (.onDone _)
      · exact hended
  | socketError channel =>
    simp only [Phone.call]
    split
    · exact h.serve (.onDone _) (List.forall_mem_nil _)
    · exact hsame
  | watchdog =>
    simp only [Phone.call]
    split
    · have hdone := SameConnection.onDone { w.service with heartbeatTimer := none }
      exact h.serve ⟨hdone.channel, hdone.sub, hdone.manuallyClosed, hdone.eventStream⟩ (List.forall_mem_nil _)
    · exact hsame
  | reconnect =>
    simp only [Phone.call]
    split
    · have hconnect := SameConnection.doConnect { w.service with reconnectTimer := none }
      exact h.serve (f := fun s => (WebSocketService.doConnect { s with reconnectTimer := none }).1)
        ⟨hconnect.channel, hconnect.sub, hconnect.manuallyClosed, hconnect.eventStream⟩ (doConnect_waits _)
    · exact hsame

/-- A key that was waited for does not matter either. -/
theorem Tracked.found (h : Tracked w (ks ++ .apiKey :: ks')) : Tracked w (ks ++ ks') := by
  have hother : ∀ {k : Wait}, k ∈ ks ++ .apiKey :: ks' → k.disconnects = true → k ∈ ks ++ ks' := by
    intro k hk hdis
    rcases List.mem_append.mp hk with hk | hk
    · exact List.mem_append_left _ hk
    · rcases List.mem_cons.mp hk with rfl | hk
      · cases hdis
      · exact List.mem_append_right _ hk
  exact { h with
    leaving := fun i hi hl => (h.leaving i hi hl).imp fun k hk => ⟨hother hk.1 hk.2, hk.2⟩
    target := fun channel hk => h.target channel (mem_of_left hk)
    closed := fun hc => h.closed (hc.imp_left fun ⟨k, hk, hdis⟩ => ⟨k, mem_of_left hk, hdis⟩) }

/-- The sink that is closed next is that of the channel. -/
theorem Tracked.cancelled (h : Tracked w (ks ++ .subCancelled :: ks')) :
    Tracked w (ks ++ ks' ++ [.channelClosed w.service.channel]) := by
  have hmanually := h.closed (.inl ⟨.subCancelled, by simp, rfl⟩)
  refine { h with
    leaving := fun i _ _ => ⟨_, List.mem_append_right _ List.mem_cons_self, rfl⟩
    target := fun channel hk => ?_
    closed := fun _ => hmanually }
  rcases List.mem_append.mp hk with hk | hk
  · exact h.target channel (mem_of_left hk)
  · exact Wait.channelClosed.inj (List.mem_singleton.mp hk)

theorem Sound.lookedUp (h : Sound w ks) (lookup : Lookup)
    (hturn : lookup.opens = true → (∀ i, w.listens i = false) ∧ w.service.manuallyClosed = false) :
    Sound (w.lookedUp lookup) ks := by
  have hserve : ∀ {w : Phone} {f : WebSocketService → WebSocketService}, Sound w ks →
      SameConnection w.service (f w.service) → Sound (w.serve f) ks := fun h hf => by
    have hserved := h.serve hf (List.forall_mem_nil _)
    rwa [List.append_nil] at hserved
  have hopen : ∀ {apiKey : Option String}, lookup.opens = true → Sound (w.openChannel apiKey) ks := fun hopens =>
    ⟨h.tracked.openChannel (hturn hopens).1 (hturn hopens).2 _, h.numbered.openChannel _⟩
  cases lookup with
  | unreadable => exact h
  | found key dial =>
    cases key with
    | none => exact hserve h (.setState _ _)
    | some apiKey =>
      simp only [Phone.lookedUp]
      split
      · exact hserve h (.setState _ _)
      · rename_i hkey
        cases dial with
        | noUrl => exact h
        | refused => exact hserve h (.scheduleReconnect _)
        | opened => exact hopen (by simpa [Lookup.opens] using hkey)
        | unsent => exact hserve (hopen (by simpa [Lookup.opens] using hkey)) (.scheduleReconnect _)

theorem Sound.resume {k : Wait} (h : Sound w (ks ++ k :: ks')) (lookup : Lookup)
    (hturn : InTurn w (ks ++ ks') (.resume k lookup)) :
    Sound (w.resume k lookup).1 (ks ++ ks' ++ (w.resume k lookup).2) := by
  cases k with
  | apiKey =>
    show Sound (w.lookedUp lookup) (ks ++ ks' ++ [])
    rw [List.append_nil]
    exact Sound.lookedUp ⟨h.tracked.found, h.numbered⟩ lookup hturn
  | subCancelled => exact ⟨h.tracked.cancelled, h.numbered⟩
  | channelClosed channel =>
    refine ⟨?_, ?_⟩
    · show Tracked (w.resume (.channelClosed channel) lookup).1 (ks ++ ks' ++ [])
      rw [List.append_nil]
      exact h.tracked.closeChannel lookup
    · have hclosed : Numbered (w.closeSink channel) := by
        unfold Phone.closeSink
        split
        · exact h.numbered
        · exact h.numbered.update fun c => ⟨rfl, id⟩
      exact hclosed.same rfl rfl fun c hc hlistening => .inr ⟨c, hc, hlistening, rfl⟩

/-- **A run.** -/
theorem sound_of_reach (h : Reach webSocketService InTurn {} w ks) : Sound w ks := by
  refine h.invariant ?_ ?_ ?_
  · exact ⟨⟨nofun, nofun, nofun, nofun, fun h => h.elim (fun ⟨_, hk, _⟩ => nomatch hk) nofun, nofun, nofun⟩,
      ⟨nofun, .nil, nofun⟩⟩
  · exact fun w ks e hsound hturn => hsound.call e hturn
  · exact fun w ks ks' k lookup hsound hturn => hsound.resume lookup hturn

/-- **One live connection** in every run in which `connect` waits for `disconnect`, and a key is found
only where nothing is subscribed and nobody has disconnected since. -/
theorem one_stream (w : Phone) (ks : List Wait) (h : Reach webSocketService InTurn {} w ks) : OneStream w := by
  obtain ⟨htracked, hnumbered⟩ := sound_of_reach h
  exact ⟨fun i j hi hj => Option.some.inj ((htracked.sub i hi).symm.trans (htracked.sub j hj)), hnumbered.once,
    htracked.quiet⟩

/-- A channel that is opened out of turn is one too many. -/
theorem OneStream.of_openChannel {apiKey : Option String} (h : OneStream (w.openChannel apiKey)) :
    (∀ i, w.listens i = false) ∧ w.disconnected = false := by
  have hnew : (w.openChannel apiKey).listens w.channels.length = true := by
    refine (any_openChannel rfl).trans ?_
    rw [decide_eq_true rfl, Bool.true_or]
  refine ⟨fun i => ?_, ?_⟩
  · by_contra hi
    have hi : w.listens i = true := by simpa using hi
    have hold : (w.openChannel apiKey).listens i = true := by
      refine (any_openChannel rfl).trans ?_
      rw [show w.channels[i]?.any (·.listening) = true from hi, Bool.or_true]
    have hlen := h.one i _ hold hnew
    rw [Phone.listens, hlen, List.getElem?_eq_none (Nat.le_refl _)] at hi
    cases hi
  · by_contra hdisconnected
    have hdisconnected : w.disconnected = true := by simpa using hdisconnected
    have hquiet := h.quiet hdisconnected w.channels.length
    rw [show (w.openChannel apiKey).isOpen w.channels.length = true from
      (any_openChannel rfl).trans (by rw [decide_eq_true rfl, Bool.true_or])] at hquiet
    cases hquiet

/-! ## Runs -/

def readyFrame : Payload := .text (some (.obj [("type", .str "ready")]))

def activityFrame : Payload := .text (some (.obj [("type", .str "conversation.activity")]))

def login : StreamCall := .connect "https://bot.example"

/-- The key is there, and so is the server. -/
def dialled : Lookup := .found (some "admin-key") .opened

/-- A socket that ends, another one in its place, and a disconnect. -/
theorem stream_ended : ∃ w, OneStream w ∧ w.heard = [1] ∧ w.channels.length = 2 ∧ w.disconnected = true := by
  have hstart : Reach webSocketService InTurn {} {} [] := .start
  have hfirst := (hstart.call login (List.forall_mem_nil _)).resume [] [] Wait.apiKey
    dialled fun _ => ⟨fun _ => rfl, rfl⟩
  have hready := (hfirst.call (StreamCall.send [0] readyFrame) trivial).call (StreamCall.frame 0) trivial
  have hended := (hready.call (StreamCall.socketClosed 0) trivial).call StreamCall.reconnect trivial
  have hsecond := hended.resume [] [] Wait.apiKey dialled fun _ => ⟨fun i => by cases i <;> rfl, rfl⟩
  have htold := (hsecond.call (StreamCall.send [0, 1] activityFrame) trivial).call (StreamCall.frame 1) trivial
  have hleft := (htold.call StreamCall.disconnect trivial).resume [] [] Wait.subCancelled Lookup.unreadable trivial
  have hclosed := hleft.resume [] [] (Wait.channelClosed (some 1)) Lookup.unreadable trivial
  exact ⟨_, one_stream _ _ hclosed, rfl, rfl, rfl⟩

/-- The watchdog leaves the old subscription behind, and both tell what happens; a `disconnect` during
the lookup of the key is forgotten. -/
theorem stream_doubled :
    (¬∀ w ks, Reach webSocketService (fun _ _ _ => True) {} w ks → w.heard.Nodup) ∧
      ¬∀ w ks, Reach webSocketService (fun _ _ _ => True) {} w ks → w.disconnected = true →
        ∀ i, w.isOpen i = false := by
  have hstart : Reach webSocketService (fun _ _ _ => True) {} {} [] := .start
  have hasked := hstart.call login trivial
  refine ⟨fun h => ?_, fun h => ?_⟩
  · have hfirst := hasked.resume [] [] Wait.apiKey dialled trivial
    have hready := (hfirst.call (StreamCall.send [0] readyFrame) trivial).call (StreamCall.frame 0) trivial
    have hstale := (hready.call StreamCall.watchdog trivial).call StreamCall.reconnect trivial
    have hsecond := hstale.resume [] [] Wait.apiKey dialled trivial
    have htold := (hsecond.call (StreamCall.send [0, 1] activityFrame) trivial).call (StreamCall.frame 0) trivial
    have htwice : [1, 1].Nodup := h _ _ (htold.call (StreamCall.frame 1) trivial)
    exact absurd htwice (by decide)
  · have hleft := hasked.call StreamCall.disconnect trivial
    have hcancelled := hleft.resume [Wait.apiKey] [] Wait.subCancelled Lookup.unreadable trivial
    have hclosed := hcancelled.resume [Wait.apiKey] [] (Wait.channelClosed none) Lookup.unreadable trivial
    have hopen : true = false := h _ _ (hclosed.resume [] [] Wait.apiKey dialled trivial) rfl 0
    cases hopen

end Clients
