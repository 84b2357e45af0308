import WhatsAppBot.Events.Dashboard

/-!
# What a connection is sent

`Conn.line` is everything of the bus that is anywhere on a connection's way: sent, in the
coroutine's hands or in its subscription. No step takes from the line or puts anything into it but
what is published (`Faithful`). Main result: `stream_faithful`.
-/

set_option autoImplicit false

namespace Events

open Lib

variable {reprOf : Json → String} {adminApiKey : String} {published : List DashboardEvent} {c : Conn}

/-- The event the coroutine has taken from the subscription. -/
def Phase.inHand : Phase → List DashboardEvent
  | forward e => [e]
  | _ => []

/-- The key has been accepted, and the coroutine has not ended. -/
def Phase.admitted : Phase → Bool
  | upgrade | authenticate | ended => false
  | _ => true

/-- `ready` has not been sent. -/
def Phase.early : Phase → Bool
  | upgrade | authenticate | subscribe | sendReady => true
  | _ => false

namespace Conn

def events (c : Conn) : List DashboardEvent := c.sent.filterMap Frame.event?

def line (c : Conn) : List DashboardEvent := c.events ++ c.phase.inHand ++ c.queue.getD []

/-- The client has presented the key. -/
def Admitted (reprOf : Json → String) (adminApiKey : String) (c : Conn) : Prop :=
  ∃ parsed, c.firstFrame = some parsed ∧ isAdmin reprOf adminApiKey parsed = true

/-- **What a connection is sent.** -/
structure Faithful (reprOf : Json → String) (adminApiKey : String)
    (published : List DashboardEvent) (c : Conn) : Prop where
  /-- Nobody without the key is sent anything. -/
  admitted : c.phase.admitted = true ∨ c.sent ≠ [] → c.Admitted reprOf adminApiKey
  /-- `ready` comes first, and once. -/
  opening : c.sent = [] ∨ ∃ rest, c.sent = .ready :: rest ∧ .ready ∉ rest
  since : c.since ≤ published.length
  /-- Nothing is sent twice, out of order, or that was not published. -/
  ordered : c.line.Sublist (published.drop c.since)
  /-- Nothing is left out. -/
  unbroken : c.unbroken = true → c.line <+: published.drop c.since ∧
    (c.queue.isSome = true → c.line = published.drop c.since)

/-- What else a step keeps. -/
structure Regular (c : Conn) : Prop where
  early : c.phase.early = true → c.sent = []
  late : c.phase.early = false → c.phase = .ended ∨ c.sent ≠ []
  idle : c.queue = none → c.phase = .ended ∨ c.line = []
  fresh : c.ours = true → c.readyState = .connecting → c.firstFrame = none

/-! ## The steps of the coroutine -/

theorem asking_faithful (ours : Bool) : (asking ours).Faithful reprOf adminApiKey published where
  admitted h := by rcases h with h | h <;> simp [asking, Phase.admitted] at h
  opening := .inl rfl
  since := Nat.zero_le _
  ordered := List.nil_sublist _
  unbroken _ := ⟨List.nil_prefix, nofun⟩

theorem asking_regular (ours : Bool) : (asking ours).Regular :=
  ⟨fun _ => rfl, nofun, fun _ => .inr rfl, fun _ _ => rfl⟩

theorem finish_faithful (code : Option Nat) (h : c.Faithful reprOf adminApiKey published) :
    (c.finish code).Faithful reprOf adminApiKey published := by
  have hline : (c.finish code).line <+: c.line := by
    simp only [line, finish, events, Phase.inHand, List.append_nil, Option.getD_none,
      List.append_assoc]
    exact List.prefix_append _ _
  refine ⟨fun hadmitted => ?_, h.opening, h.since, hline.sublist.trans h.ordered, fun hu => ?_⟩
  · rcases hadmitted with hphase | hsent
    · cases hphase
    · exact h.admitted (.inr hsent)
  · exact ⟨hline.trans (h.unbroken hu).1, nofun⟩

theorem finish_regular (code : Option Nat) (h : c.Regular) : (c.finish code).Regular :=
  ⟨nofun, fun _ => .inl rfl, fun _ => .inl rfl, h.fresh⟩

/-- A step that leaves the line as it is. -/
theorem Faithful.of_line {c' : Conn} (h : c.Faithful reprOf adminApiKey published)
    (hline : c'.line = c.line) (hsince : c'.since = c.since) (hunbroken : c'.unbroken = c.unbroken)
    (hqueue : c'.queue.isSome = c.queue.isSome)
    (hadmitted : c'.phase.admitted = true ∨ c'.sent ≠ [] → c'.Admitted reprOf adminApiKey)
    (hopening : c'.sent = [] ∨ ∃ rest, c'.sent = .ready :: rest ∧ .ready ∉ rest) :
    c'.Faithful reprOf adminApiKey published := by
  refine ⟨hadmitted, hopening, hsince ▸ h.since, ?_, ?_⟩
  · rw [hline, hsince]
    exact h.ordered
  · rw [hline, hsince, hunbroken, hqueue]
    exact h.unbroken

theorem send_line (frame : Frame) (c : Conn) :
    (c.send frame).line = c.events ++ frame.event?.toList ++ c.queue.getD [] := by
  cases frame <;> simp [line, events, send, Phase.inHand, Frame.event?]

/-- A frame goes out that is nothing of the bus, or is what the coroutine has in its hands. -/
theorem send_line_eq {frame : Frame} (hinHand : frame.event?.toList = c.phase.inHand) :
    (c.send frame).line = c.line := by
  rw [send_line, hinHand, line]

/-- Of one connection. -/
def Good (reprOf : Json → String) (adminApiKey : String) (published : List DashboardEvent)
    (c : Conn) : Prop :=
  c.Faithful reprOf adminApiKey published ∧ c.Regular

theorem Good.idle {phase : Phase} (h : c.Good reprOf adminApiKey published)
    (hphase : c.phase = phase) (hended : phase ≠ .ended) : c.queue = none → c.line = [] := by
  intro hqueue
  exact (h.2.idle hqueue).resolve_left (hphase ▸ hended)

theorem Good.sent {phase : Phase} (h : c.Good reprOf adminApiKey published)
    (hphase : c.phase = phase) (hlate : phase.early = false) (hended : phase ≠ .ended) :
    c.sent ≠ [] :=
  (h.2.late (hphase ▸ hlate)).resolve_left (hphase ▸ hended)

theorem send_good (frame : Frame) (h : c.Good reprOf adminApiKey published) (hsent : c.sent ≠ [])
    (hidle : c.queue = none → c.line = []) (hinHand : frame.event?.toList = c.phase.inHand)
    (hframe : frame ≠ .ready) : (c.send frame).Good reprOf adminApiKey published := by
  have hline := send_line_eq (c := c) hinHand
  refine ⟨h.1.of_line hline rfl rfl rfl (fun _ => h.1.admitted (.inr hsent)) (.inr ?_), nofun,
    fun _ => .inr (by simp [send]), fun hqueue => .inr (hline ▸ hidle hqueue), h.2.fresh⟩
  obtain hnil | ⟨rest, hrest, hready⟩ := h.1.opening
  · exact absurd hnil hsent
  · refine ⟨rest ++ [frame], by simp [send, hrest], ?_⟩
    simpa [hready] using hframe.symm

theorem ready_good (h : c.Good reprOf adminApiKey published) (hphase : c.phase = .sendReady) :
    (c.send .ready).Good reprOf adminApiKey published := by
  have hsent : c.sent = [] := h.2.early (by simp [hphase, Phase.early])
  have hline : (c.send .ready).line = c.line :=
    send_line_eq (by simp [hphase, Phase.inHand, Frame.event?])
  have hadmitted := h.1.admitted (.inl (by simp [hphase, Phase.admitted]))
  exact ⟨h.1.of_line hline rfl rfl rfl (fun _ => hadmitted) (.inr ⟨[], by simp [send, hsent], nofun⟩),
    nofun, fun _ => .inr (by simp [send]), fun hqueue => .inr (hline ▸ h.idle hphase nofun hqueue),
    h.2.fresh⟩

theorem authenticate_good (h : c.Good reprOf adminApiKey published)
    (hphase : c.phase = .authenticate) :
    (c.authenticate reprOf adminApiKey).Good reprOf adminApiKey published := by
  have hsent : c.sent = [] := h.2.early (by rw [hphase]; rfl)
  unfold authenticate
  split
  · exact h
  · rename_i parsed hparsed
    split
    · rename_i hadmin
      refine ⟨h.1.of_line ?_ rfl rfl rfl (fun _ => ⟨parsed, hparsed, hadmin⟩) (.inl hsent),
        fun _ => hsent, nofun, fun hqueue => .inr ?_, h.2.fresh⟩
      · simp [line, hphase, Phase.inHand, events]
      · have := h.idle hphase nofun hqueue
        simpa [line, hphase, Phase.inHand, events] using this
    · exact ⟨finish_faithful _ h.1, finish_regular _ h.2⟩

theorem polled_good (clock : Nat) (h : c.Good reprOf adminApiKey published)
    (hphase : c.phase = .poll) : (c.polled clock).Good reprOf adminApiKey published := by
  have hsent := h.sent hphase rfl nofun
  have hadmitted := h.1.admitted (.inr hsent)
  unfold polled
  split
  · rename_i e queue hqueue
    refine ⟨h.1.of_line ?_ rfl rfl (by simp [hqueue]) (fun _ => hadmitted) h.1.opening,
      nofun, fun _ => .inr hsent, nofun, h.2.fresh⟩
    simp [line, hphase, hqueue, Phase.inHand, events]
  · split
    · refine ⟨h.1.of_line ?_ rfl rfl rfl (fun _ => hadmitted) h.1.opening, nofun,
        fun _ => .inr hsent, fun hqueue => .inr ?_, h.2.fresh⟩
      · simp [line, hphase, Phase.inHand, events]
      · have := h.idle hphase nofun hqueue
        simpa [line, hphase, Phase.inHand, events] using this
    · exact h

variable (reprOf adminApiKey) in
/-- What is not the answer of an `await` that went well. -/
theorem resume_cases (clock : Nat) {answer : Answer} (hphase : c.phase ≠ .upgrade)
    (hanswer : answer ≠ .done) : c.resume reprOf adminApiKey clock answer = c ∨
      ∃ code, c.resume reprOf adminApiKey clock answer = c.finish code := by
  unfold resume
  split
  · exact .inl rfl
  · exact absurd ‹_› hphase
  · exact absurd ‹_› hphase
  · exact .inr ⟨_, rfl⟩
  · exact .inr ⟨_, rfl⟩
  · exact .inr ⟨_, rfl⟩
  · exact .inr ⟨_, rfl⟩
  · exact .inl rfl
  all_goals exact absurd rfl hanswer

theorem accepted_good (h : c.Good reprOf adminApiKey published) :
    ({ c with accepted := true } : Conn).Good reprOf adminApiKey published :=
  ⟨⟨h.1.admitted, h.1.opening, h.1.since, h.1.ordered, h.1.unbroken⟩,
    ⟨h.2.early, h.2.late, h.2.idle, h.2.fresh⟩⟩

theorem beat_good (clock : Nat) (h : c.Good reprOf adminApiKey published) :
    ({ c with lastBeat := clock } : Conn).Good reprOf adminApiKey published :=
  ⟨⟨h.1.admitted, h.1.opening, h.1.since, h.1.ordered, h.1.unbroken⟩,
    ⟨h.2.early, h.2.late, h.2.idle, h.2.fresh⟩⟩

/-- The next phase without a frame. -/
theorem phase_good (phase : Phase) (h : c.Good reprOf adminApiKey published)
    (hline : c.phase.inHand = [] ∧ phase.inHand = []) (hended : c.phase ≠ .ended)
    (hadmitted : phase.admitted = true → c.Admitted reprOf adminApiKey)
    (hearly : phase.early = c.phase.early) :
    ({ c with phase } : Conn).Good reprOf adminApiKey published := by
  have heq : ({ c with phase } : Conn).line = c.line := by
    simp only [line, hline.1, hline.2]
    rfl
  refine ⟨h.1.of_line heq rfl rfl rfl ?_ h.1.opening, ?_⟩
  · rintro (hphase | hsent)
    · exact hadmitted hphase
    · exact h.1.admitted (.inr hsent)
  · refine ⟨fun hphase => h.2.early (hearly ▸ hphase), fun hphase => ?_, fun hqueue => ?_, h.2.fresh⟩
    · exact .inr ((h.2.late (hearly ▸ hphase)).resolve_left hended)
    · exact .inr (heq ▸ (h.2.idle hqueue).resolve_left hended)

theorem resume_good (clock : Nat) (answer : Answer) (h : c.Good reprOf adminApiKey published) :
    (c.resume reprOf adminApiKey clock answer).Good reprOf adminApiKey published := by
  by_cases hupgrade : c.phase = .upgrade
  · have hsent : c.sent = [] := h.2.early (by simp [hupgrade, Phase.early])
    have hended : ({ c with phase := .ended } : Conn).Good reprOf adminApiKey published := by
      refine ⟨h.1.of_line ?_ rfl rfl rfl ?_ h.1.opening, nofun, fun _ => .inl rfl, fun _ => .inl rfl,
        h.2.fresh⟩
      · simp [line, hupgrade, Phase.inHand, events]
      · simp [Phase.admitted, hsent]
    cases answer with
    | limiter allowed =>
      cases allowed with
      | true =>
        have hgood := phase_good .authenticate h
          (by simp [hupgrade, Phase.inHand]) (by simp [hupgrade]) nofun
          (by simp [hupgrade, Phase.early])
        simpa [resume, hupgrade] using accepted_good hgood
      | false => simpa [resume, hupgrade] using hended
    | done | disconnected | failed => simpa [resume, hupgrade] using hended
  by_cases hdone : answer = .done
  · subst hdone
    cases hphase : c.phase with
    | upgrade => exact absurd hphase hupgrade
    | ended =>
      unfold resume
      rw [hphase]
      exact h
    | authenticate => simpa [resume, hphase] using authenticate_good h hphase
    | subscribe =>
      have hgood := phase_good .sendReady h (by simp [hphase, Phase.inHand])
        (by simp [hphase]) (fun _ => h.1.admitted (.inl (by simp [hphase, Phase.admitted])))
        (by simp [hphase, Phase.early])
      simpa [resume, hphase] using hgood
    | sendReady => simpa [resume, hphase] using beat_good clock (ready_good h hphase)
    | poll => simpa [resume, hphase] using polled_good clock h hphase
    | forward e =>
      have hgood := send_good (.event e) h (h.sent hphase rfl nofun) (h.idle hphase nofun)
        (by simp [hphase, Phase.inHand, Frame.event?]) nofun
      simpa [resume, hphase] using hgood
    | sendHeartbeat =>
      have hgood := send_good .heartbeat h (h.sent hphase rfl nofun)
        (h.idle hphase nofun) (by simp [hphase, Phase.inHand, Frame.event?]) nofun
      simpa [resume, hphase] using beat_good clock hgood
  · rcases resume_cases reprOf adminApiKey clock hupgrade hdone with
      heq | ⟨code, heq⟩
    · rw [heq]
      exact h
    · rw [heq]
      exact ⟨finish_faithful code h.1, finish_regular code h.2⟩

/-! ## Redis, and the client -/

theorem subscribed_good (h : c.Good reprOf adminApiKey published) :
    (c.subscribed published.length).Good reprOf adminApiKey published := by
  unfold subscribed
  split
  · rename_i hc
    simp only [Bool.and_eq_true, Option.isNone_iff_eq_none] at hc
    obtain ⟨hsubscribing, hqueue⟩ := hc
    have hended : c.phase ≠ .ended := by
      intro hended
      simp [subscribing, hended] at hsubscribing
    have hline := (h.2.idle hqueue).resolve_left hended
    have heq : ({ c with queue := some [], since := published.length } : Conn).line = [] := by
      simpa [line, hqueue, events] using hline
    refine ⟨⟨h.1.admitted, h.1.opening, Nat.le_refl _, ?_, fun _ => ?_⟩, h.2.early, h.2.late, nofun,
      h.2.fresh⟩
    · rw [heq]
      exact List.nil_sublist _
    · rw [heq]
      exact ⟨List.nil_prefix, fun _ => by simp⟩
  · exact h

theorem publish_good (e : DashboardEvent) (h : c.Good reprOf adminApiKey published) :
    (c.publish e).Good reprOf adminApiKey (published ++ [e]) := by
  have hdrop : (published ++ [e]).drop c.since = published.drop c.since ++ [e] :=
    List.drop_append_of_le_length h.1.since
  have hsince : c.since ≤ (published ++ [e]).length := by
    have := h.1.since
    simp
    omega
  obtain hnone | ⟨queue, hqueue⟩ := Option.eq_none_or_eq_some c.queue
  · have hc : c.publish e = c := by
      cases c
      simp_all [publish]
    rw [hc]
    refine ⟨⟨h.1.admitted, h.1.opening, hsince, ?_, fun hu => ?_⟩, h.2⟩
    · rw [hdrop]
      exact h.1.ordered.trans (List.sublist_append_left _ _)
    · rw [hdrop]
      exact ⟨(h.1.unbroken hu).1.trans (List.prefix_append _ _), by simp [hnone]⟩
  · have hline : (c.publish e).line = c.line ++ [e] := by
      simp [line, publish, hqueue, events]
    have hnext : (published ++ [e]).drop (c.publish e).since = published.drop c.since ++ [e] := hdrop
    refine ⟨⟨h.1.admitted, h.1.opening, hsince, ?_, fun hu => ?_⟩, h.2.early, h.2.late,
      by simp [publish, hqueue], h.2.fresh⟩
    · rw [hline, hnext]
      exact h.1.ordered.append_right _
    · have hexact := (h.1.unbroken hu).2 (by simp [hqueue])
      rw [hline, hnext, hexact]
      exact ⟨List.prefix_refl _, fun _ => rfl⟩

theorem renewed_good (h : c.Good reprOf adminApiKey published) :
    c.renewed.Good reprOf adminApiKey published := by
  have hsub : c.renewed.line.Sublist c.line := by
    simp only [line, renewed, events]
    cases c.queue with
    | none => exact List.Sublist.refl _
    | some queue => simp
  refine ⟨⟨h.1.admitted, h.1.opening, h.1.since, hsub.trans h.1.ordered, nofun⟩, h.2.early, h.2.late,
    fun hqueue => ?_, h.2.fresh⟩
  have hnone : c.queue = none := by simpa [renewed] using hqueue
  rcases h.2.idle hnone with hended | hline
  · exact .inl hended
  · exact .inr (List.sublist_nil.mp (hline ▸ hsub))

/-- What happens on the client's side. -/
theorem client_good {taken : Nat} {readyState : ReadyState} {firstFrame : Option (Option Json)}
    (h : c.Good reprOf adminApiKey published)
    (hfirst : firstFrame = c.firstFrame ∨ c.firstFrame = none)
    (hfresh : c.ours = true → readyState = .connecting → firstFrame = none) :
    ({ c with taken, readyState, firstFrame } : Conn).Good reprOf adminApiKey published := by
  refine ⟨⟨fun hphase => ?_, h.1.opening, h.1.since, h.1.ordered, h.1.unbroken⟩,
    h.2.early, h.2.late, h.2.idle, hfresh⟩
  obtain ⟨parsed, hparsed, hadmin⟩ := h.1.admitted hphase
  rcases hfirst with rfl | hnone
  · exact ⟨parsed, hparsed, hadmin⟩
  · rw [hnone] at hparsed
    cases hparsed

end Conn

/-! ## Every run -/

namespace World

variable {w : World} {i : Nat} {f : Conn → Conn}

/-- Every connection is in order. -/
def AllGood (reprOf : Json → String) (adminApiKey : String) (w : World) : Prop :=
  ∀ c ∈ w.conns, c.Good reprOf adminApiKey w.published

theorem AllGood.put (h : w.AllGood reprOf adminApiKey)
    (hc : c.Good reprOf adminApiKey w.published) : (w.put i c).AllGood reprOf adminApiKey := by
  intro d hd
  rcases List.mem_or_eq_of_mem_set hd with hd | rfl
  · exact h d hd
  · exact hc

theorem AllGood.update (h : w.AllGood reprOf adminApiKey)
    (hf : ∀ c, c.Good reprOf adminApiKey w.published → (f c).Good reprOf adminApiKey w.published) :
    (w.update i f).AllGood reprOf adminApiKey := by
  unfold World.update
  split
  · exact h
  · rename_i c hc
    exact h.put (hf c (h c (List.mem_of_getElem? hc)))

theorem AllGood.onSocket {may : Conn → Bool} {f : Conn → World}
    (h : w.AllGood reprOf adminApiKey)
    (hf : ∀ c, c.Good reprOf adminApiKey w.published → c.ours = true → may c = true →
      (f c).AllGood reprOf adminApiKey) : (w.onSocket i may f).AllGood reprOf adminApiKey := by
  unfold World.onSocket
  split
  · exact h
  · rename_i c hc
    split
    · rename_i hmay
      rw [Bool.and_eq_true] at hmay
      exact hf c (h c (List.mem_of_getElem? hc)) hmay.1 hmay.2
    · exact h

theorem AllGood.ask (ours : Bool) (h : w.AllGood reprOf adminApiKey) :
    ∀ c ∈ w.conns ++ [Conn.asking ours], c.Good reprOf adminApiKey w.published := by
  intro c hc
  rcases List.mem_append.mp hc with hc | hc
  · exact h c hc
  · rw [List.mem_singleton.mp hc]
    exact ⟨Conn.asking_faithful ours, Conn.asking_regular ours⟩

theorem closed_allGood {code : Nat} (h : w.AllGood reprOf adminApiKey)
    (hc : c.Good reprOf adminApiKey w.published) : (w.closed i c code).AllGood reprOf adminApiKey :=
  h.put (Conn.client_good hc (.inl rfl) (fun _ => nofun))

theorem act_allGood (a : Act) (h : w.AllGood reprOf adminApiKey) :
    (w.act reprOf adminApiKey a).AllGood reprOf adminApiKey := by
  cases a with
  | publish e =>
    intro c hc
    obtain ⟨c, hmem, rfl⟩ := List.mem_map.mp hc
    exact Conn.publish_good e (h c hmem)
  | tick => exact h
  | subscribed i => exact h.update fun c hc => Conn.subscribed_good hc
  | renewed i => exact h.update fun c hc => Conn.renewed_good hc
  | resume i answer => exact h.update fun c hc => Conn.resume_good _ answer hc
  | ask => exact h.ask false
  | speak i parsed =>
    refine h.update fun c hc => ?_
    split
    · exact hc
    · rename_i hnew
      simp only [Bool.or_eq_true, not_or, Bool.not_eq_true, Option.isSome_eq_false_iff,
        Option.isNone_iff_eq_none] at hnew
      exact Conn.client_good hc (.inr hnew.2) fun hours => by rw [hnew.1] at hours; cases hours
  | opened i apiKey =>
    refine h.onSocket fun c hc hours hmay => h.put ?_
    simp only [Bool.and_eq_true, decide_eq_true_eq] at hmay
    exact Conn.client_good hc (.inr (hc.2.fresh hours hmay.1)) (fun _ => nofun)
  | message i =>
    refine h.onSocket fun c hc hours hmay => ?_
    split
    · exact h
    · exact h.put (Conn.client_good hc (.inl rfl) hc.2.fresh)
  | error i =>
    refine h.onSocket fun c hc _ _ => h.put ?_
    unfold Conn.close
    split
    · exact hc
    · exact Conn.client_good hc (.inl rfl) (fun _ => nofun)
  | closeFrame i =>
    refine h.onSocket fun c hc _ _ => ?_
    split
    · exact h
    · exact closed_allGood h hc
  | lost i => exact h.onSocket fun c hc _ _ => closed_allGood h hc
  | timer =>
    simp only [act]
    split
    · exact h
    · exact AllGood.ask true h
  | unmount =>
    simp only [act]
    split
    · exact h
    · refine AllGood.update (w := { w with tab := _ }) h fun c hc => ?_
      unfold Conn.close
      split
      · exact hc
      · exact Conn.client_good hc (.inl rfl) (fun _ => nofun)

theorem run_allGood (acts : List Act) : (run reprOf adminApiKey acts).AllGood reprOf adminApiKey := by
  have hstart : start.AllGood reprOf adminApiKey := by
    intro c hc
    obtain rfl := List.mem_singleton.mp hc
    exact ⟨Conn.asking_faithful true, Conn.asking_regular true⟩
  have hfold : ∀ w : World, w.AllGood reprOf adminApiKey →
      (acts.foldl (act reprOf adminApiKey) w).AllGood reprOf adminApiKey := by
    induction acts with
    | nil => exact fun w hw => hw
    | cons a acts ih => exact fun w hw => ih _ (act_allGood a hw)
  exact hfold start hstart

end World

end Events
