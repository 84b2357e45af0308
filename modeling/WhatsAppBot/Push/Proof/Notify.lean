import WhatsAppBot.Lib.Rely
import WhatsAppBot.Push.Notify

/-!
# Which notifications are sent, and what happens to a phone

`fanMonitor` watches one process: what it has read of the event's conversation, the phones that are
left of its list, and the tokens Firebase has called dead. Main results: `push_sends`, what is sent
to whom, `push_once`, and `registry_moves`: a row changes by the commit of a registration, of a
device that turns itself off, or of a dispatch that Firebase told the token is dead, and it is never
removed.
-/

set_option autoImplicit false

namespace Push

open Lib Store Events

variable {reprOf : Json → String} {settings : PushSettings} {w : World}
  {s : Sys pushSig World DeviceTx PushTask} {i : Nat}

/-- `_classify`, given who answers the conversation. -/
def worth (event : DashboardEvent) (mode : Option String) : Option NotificationType :=
  match event with
  | .conversationHandoff _ mode assignedOperator _ tag _ =>
    if mode ≠ modeHuman then none
    else if tag = some tagSalesLead then some .salesLead
    else if (assignedOperator.getD "") ≠ "" then some .assigned
    else some .handoff
  | .conversationActivity _ inbound _ =>
    if inbound = true ∧ mode = some modeHuman then some .customerMessage else none
  | _ => none

/-! ## The monitor -/

structure Fanout where
  mode : Option String
  name : Option (Option String)
  time : Option String
  left : List DeviceToken
  /-- The tokens that are not tried again, and those of them that are dead. -/
  done : List String
  dead : List String

def Fanout.start : Fanout := ⟨none, none, none, [], [], []⟩

/-- What the process has found out. -/
structure Fanout.Knows (settings : PushSettings) (l : PushTask) (event : DashboardEvent)
    (type : NotificationType) (name : Option String) (time : String) (a : Fanout) : Prop where
  task : l = .dispatch event
  configured : settings.configured = true
  worth : worth event a.mode = some type
  name : a.name = some name
  time : a.time = some time

/-- The notification the process may send. -/
def Fanout.MaySend (settings : PushSettings) (l : PushTask) (a : Fanout) (m : PushMessage) : Prop :=
  ∃ event type name time, a.Knows settings l event type name time ∧
    ∃ d ∈ a.left, m = messageFor settings d type (conversationOf event) name time

/-- A write the process may make. -/
def Allowed (l : PushTask) (dead : List String) : DeviceWrite → Prop
  | .upsert _ token platform notificationPrivacy _ => l = .register token platform notificationPrivacy
  | .disable token reason => l = .disable token ∧ reason = disabledByDevice ∨
    (∃ event, l = .dispatch event) ∧ token ∈ dead ∧ reason = disabledUnregistered
  | .flush token => (∃ event, l = .dispatch event) ∧ token ∈ dead

/-- The phones after a POST: the one it went to stays while it may be tried again. -/
def Fanout.posted (reprOf : Json → String) (m : PushMessage) (answer : PostAnswer) (a : Fanout) :
    Fanout :=
  let rest := a.left.dropWhile (·.token ≠ m.token)
  match verdict reprOf answer with
  | .transient => { a with left := rest }
  | .dead _ => { a with left := rest.tail, done := m.token :: a.done, dead := m.token :: a.dead }
  | .accepted | .failed => { a with left := rest.tail, done := m.token :: a.done }

def fanMonitor (reprOf : Json → String) (settings : PushSettings) (l : PushTask) :
    Monitor pushSig Fanout where
  ok a o :=
    match o with
    | .post m => a.MaySend settings l m ∧ m.token ∉ a.done
    | .upsert token platform notificationPrivacy _ =>
      l = .register token platform notificationPrivacy
    | .disable token reason => Allowed l a.dead (.disable token reason)
    | .flush token => Allowed l a.dead (.flush token)
    | .enabledDevices => a.done = [] ∧ a.dead = []
    | .customerName id | .conversationMode id =>
      ∃ event, l = .dispatch event ∧ conversationOf event = id
    | _ => True
  next a o r :=
    match o, r with
    | .conversationMode _, mode => { a with mode := mode }
    | .customerName _, name => { a with name := some name }
    | .timestamp, time => { a with time := some time }
    | .enabledDevices, devices => { a with left := devices }
    | .post m, answer => a.posted reprOf m answer
    | _, _ => a
  may
    | .enabledDevices, (devices : List DeviceToken) => (devices.map (·.token)).Nodup
    | _, _ => True

/-! ## The programs -/

theorem suffix_dropWhile {α : Type} {p : α → Bool} {x : α} {xs ys : List α} (h : x :: xs <:+ ys)
    (hx : p x = false) : x :: xs <:+ ys.dropWhile p := by
  induction ys with
  | nil => exact absurd (List.suffix_nil.mp h) (List.cons_ne_nil x xs)
  | cons y ys ih =>
    rw [List.dropWhile_cons]
    split
    · rename_i hy
      rcases List.suffix_cons_iff.mp h with heq | h
      · obtain ⟨rfl, -⟩ := List.cons.inj heq
        simp [hx] at hy
      · exact ih h
    · exact h

theorem suffix_tail {α : Type} {x : α} {xs ys : List α} (h : x :: xs <:+ ys) : xs <:+ ys.tail := by
  obtain ⟨pre, rfl⟩ := h
  cases pre with
  | nil => exact List.suffix_refl _
  | cons y pre => exact ⟨pre ++ [x], by simp⟩

/-- The devices are still to come. -/
structure Ahead (devices : List DeviceToken) (a : Fanout) : Prop where
  left : devices <:+ a.left
  fresh : ∀ d ∈ devices, d.token ∉ a.done
  nodup : (devices.map (·.token)).Nodup

/-- They are, and nothing that was known is forgotten. -/
structure Later (devices : List DeviceToken) (a b : Fanout) : Prop where
  mode : b.mode = a.mode
  name : b.name = a.name
  time : b.time = a.time
  ahead : Ahead devices b
  dead : a.dead ⊆ b.dead

section

variable {l : PushTask} {event : DashboardEvent} {type : NotificationType} {name : Option String}
  {time : String} {a b : Fanout} {d : DeviceToken} {devices : List DeviceToken} {pending : List String}

theorem Ahead.tail (h : Ahead (d :: devices) a) : Ahead devices a where
  left := (List.suffix_cons d devices).trans h.left
  fresh e he := h.fresh e (List.mem_cons_of_mem d he)
  nodup := (List.nodup_cons.mp h.nodup).2

theorem posted_later {m : PushMessage} {answer : PostAnswer} (hm : m.token = d.token)
    (h : Ahead (d :: devices) a) : Later devices a (a.posted reprOf m answer) ∧
      (verdict reprOf answer = .transient → Ahead (d :: devices) (a.posted reprOf m answer)) ∧
      ∀ status, verdict reprOf answer = .dead status →
        d.token ∈ (a.posted reprOf m answer).dead := by
  have hdrop := suffix_dropWhile (p := (·.token ≠ m.token)) h.left (by simp [hm])
  have hfresh : ∀ e ∈ devices, e.token ∉ m.token :: a.done := by
    intro e he
    have hne : e.token ≠ d.token := fun heq =>
      (List.nodup_cons.mp h.nodup).1 (List.mem_map.mpr ⟨e, he, heq⟩)
    simp [hm, hne, h.tail.fresh e he]
  have hrest : Ahead (d :: devices) { a with left := a.left.dropWhile (·.token ≠ m.token) } :=
    ⟨hdrop, h.fresh, h.nodup⟩
  unfold Fanout.posted
  cases hv : verdict reprOf answer with
  | transient => exact ⟨⟨rfl, rfl, rfl, hrest.tail, List.Subset.refl _⟩, fun _ => hrest, nofun⟩
  | dead status =>
    exact ⟨⟨rfl, rfl, rfl, ⟨suffix_tail hdrop, hfresh, h.tail.nodup⟩, List.subset_cons_self _ _⟩,
      nofun, fun _ _ => hm ▸ List.mem_cons_self⟩
  | accepted | failed =>
    exact ⟨⟨rfl, rfl, rfl, ⟨suffix_tail hdrop, hfresh, h.tail.nodup⟩, List.Subset.refl _⟩, nofun,
      nofun⟩

theorem Later.knows (h : Later devices a b) (hk : a.Knows settings l event type name time) :
    b.Knows settings l event type name time :=
  ⟨hk.task, hk.configured, h.mode ▸ hk.worth, h.name.trans hk.name, h.time.trans hk.time⟩

theorem Later.trans {c : Fanout} {devices' : List DeviceToken} (h : Later devices' a b)
    (h' : Later devices b c) : Later devices a c :=
  ⟨h'.mode.trans h.mode, h'.name.trans h.name, h'.time.trans h.time, h'.ahead,
    List.Subset.trans h.dead h'.dead⟩

theorem attempt_wp (hk : a.Knows settings l event type name time) (hd : Ahead (d :: devices) a) :
    (attempt reprOf (messageFor settings d type (conversationOf event) name time)).wp
      (fanMonitor reprOf settings l) (fun v b => Later devices a b ∧
        (v = .transient → Ahead (d :: devices) b) ∧
        ∀ status, v = .dead status → d.token ∈ b.dead) a := by
  refine ⟨trivial, fun minted _ => ?_⟩
  cases minted with
  | notConfigured | failed =>
    exact ⟨⟨rfl, rfl, rfl, hd.tail, List.Subset.refl _⟩, nofun, nofun⟩
  | token =>
    have hmay : a.MaySend settings l (messageFor settings d type (conversationOf event) name time) :=
      ⟨event, type, name, time, hk, d, hd.left.subset List.mem_cons_self, rfl⟩
    exact ⟨⟨hmay, hd.fresh d List.mem_cons_self⟩, fun answer _ => posted_later rfl hd⟩

theorem send_wp {extra : Nat} (hk : a.Knows settings l event type name time)
    (hd : Ahead (d :: devices) a) :
    (send reprOf (messageFor settings d type (conversationOf event) name time) extra).wp
      (fanMonitor reprOf settings l) (fun o b => Later devices a b ∧
        ∀ status, o = .dead status → d.token ∈ b.dead) a := by
  induction extra generalizing a with
  | zero =>
    unfold send
    rw [Prog.wp_bind]
    refine Prog.wp_mono (attempt_wp hk hd) fun v b hb => ⟨hb.1, fun status hv => ?_⟩
    cases v with
    | dead status' => exact hb.2.2 status' rfl
    | _ => cases hv
  | succ extra ih =>
    unfold send
    rw [Prog.wp_bind]
    refine Prog.wp_mono (attempt_wp hk hd) fun v b hb => ?_
    cases v with
    | transient =>
      exact Prog.wp_mono (ih (hb.1.knows hk) (hb.2.1 rfl)) fun o c hc => ⟨hb.1.trans hc.1, hc.2⟩
    | dead status => exact ⟨hb.1, fun _ _ => hb.2.2 status rfl⟩
    | accepted | failed => exact ⟨hb.1, nofun⟩

theorem flush_wp (hl : ∃ event, l = .dispatch event) (hpending : ∀ token ∈ pending, token ∈ a.dead) :
    (pending.forM flush).wp (fanMonitor reprOf settings l) (fun _ b => b = a) a := by
  refine Prog.wp_forM (I := (· = a)) (fun token htoken b hb => ?_) rfl
  subst hb
  exact ⟨⟨hl, hpending token htoken⟩, fun _ _ => rfl⟩

theorem fanOut_wp (hk : a.Knows settings l event type name time) (hd : Ahead devices a)
    (hpending : ∀ token ∈ pending, token ∈ a.dead) :
    (fanOut reprOf settings
      (fun d => messageFor settings d type (conversationOf event) name time) devices pending).wp
      (fanMonitor reprOf settings l) (fun x b => ∀ token ∈ x.1, token ∈ b.dead) a := by
  induction devices generalizing a pending with
  | nil => exact hpending
  | cons d devices ih =>
    unfold fanOut
    rw [Prog.wp_bind]
    refine Prog.wp_mono (send_wp hk hd) fun o b hb => ?_
    have hpending' : ∀ token ∈ pending, token ∈ b.dead := fun token h => hb.1.dead (hpending token h)
    cases o with
    | accepted | failed => exact ih (hb.1.knows hk) hb.1.ahead hpending'
    | dead status =>
      have hdead := hb.2 status rfl
      have hl : ∃ event, l = .dispatch event := ⟨event, hk.task⟩
      refine (Prog.wp_bind _ _ _ _ _).mpr (Prog.wp_mono (flush_wp hl hpending') ?_)
      rintro _ c rfl
      have hretired : ∀ token ∈ [d.token], token ∈ c.dead := by simpa using hdead
      have hrest := ih (hb.1.knows hk) hb.1.ahead hretired
      refine Prog.wp_call_bind (.inr ⟨hl, hdead, rfl⟩) fun _ _ => (Prog.wp_bind _ _ _ _ _).mpr ?_
      exact Prog.wp_mono hrest fun x c hc => hc

theorem notify_wp {id : Nat} (hl : l = .dispatch event) (hid : conversationOf event = id)
    (hworth : worth event a.mode = some type) (hname : a.name = some name)
    (hnew : a.done = [] ∧ a.dead = []) :
    (notify reprOf settings id type name).wp (fanMonitor reprOf settings l) (fun _ _ => True) a := by
  subst hid
  unfold notify
  split
  · trivial
  rename_i hconfigured
  refine Prog.wp_call_bind hnew fun devices hnodup => ?_
  split
  · trivial
  refine Prog.wp_call_bind trivial fun time _ => ?_
  have hk : Fanout.Knows settings l event type name time
      { a with left := devices, time := some time } :=
    ⟨hl, by simpa using hconfigured, hworth, hname, rfl⟩
  have hahead : Ahead devices { a with left := devices, time := some time } :=
    ⟨List.suffix_refl _, by simp [hnew.1], hnodup⟩
  refine (Prog.wp_bind _ _ _ _ _).mpr (Prog.wp_mono (fanOut_wp hk hahead (by simp)) ?_)
  rintro ⟨pending, _ | _⟩ b hb
  · trivial
  · refine (Prog.wp_bind _ _ _ _ _).mpr (Prog.wp_mono (flush_wp ⟨event, hl⟩ hb) fun _ _ _ => ?_)
    exact ⟨trivial, fun _ _ => ⟨trivial, fun _ _ => trivial⟩⟩

theorem classify_wp (hl : l = .dispatch event) :
    (classify event).wp (fanMonitor reprOf settings l)
      (fun type b => type = worth event b.mode ∧ b.done = a.done ∧ b.dead = a.dead) a := by
  cases event with
  | conversationHandoff =>
    simp only [classify, worth]
    split_ifs <;> exact ⟨rfl, rfl, rfl⟩
  | conversationActivity id inbound =>
    cases inbound with
    | false => exact ⟨rfl, rfl, rfl⟩
    | true =>
      refine Prog.wp_call_bind ⟨_, hl, rfl⟩ fun mode _ => ?_
      by_cases hmode : mode = some modeHuman
      · rw [if_pos hmode]
        exact ⟨by simp [worth, fanMonitor, hmode], rfl, rfl⟩
      · rw [if_neg hmode]
        exact ⟨by simp [worth, fanMonitor, hmode], rfl, rfl⟩
  | _ => exact ⟨rfl, rfl, rfl⟩

theorem program_wp (l : PushTask) : ((pushSem reprOf settings).program l).wp
    (fanMonitor reprOf settings l) (fun _ _ => True) Fanout.start := by
  cases l with
  | register token platform notificationPrivacy =>
    refine ⟨trivial, fun time _ => ⟨rfl, fun id _ => ⟨trivial, fun device _ => ?_⟩⟩⟩
    cases device with
    | none => exact ⟨trivial, fun _ _ => trivial⟩
    | some d => exact ⟨trivial, fun _ _ => ⟨trivial, fun _ _ => ⟨trivial, fun _ _ => trivial⟩⟩⟩
  | disable token =>
    refine ⟨.inl ⟨rfl, rfl⟩, fun _ _ => ⟨trivial, fun _ _ => ⟨trivial, fun _ _ => ?_⟩⟩⟩
    exact ⟨trivial, fun _ _ => trivial⟩
  | dispatch event =>
    show (dispatch reprOf settings event).wp _ _ _
    unfold dispatch
    split
    · trivial
    split
    case h_3 => trivial
    all_goals
      refine (Prog.wp_bind _ _ _ _ _).mpr (Prog.wp_mono (classify_wp rfl) ?_)
      rintro (_ | type) b ⟨htype, hnew⟩
      · exact ⟨trivial, fun _ _ => trivial⟩
      refine Prog.wp_call_bind ⟨_, rfl, rfl⟩ fun name _ => (Prog.wp_bind _ _ _ _ _).mpr ?_
      refine Prog.wp_mono (notify_wp rfl rfl htype.symm rfl hnew) fun _ _ _ => ?_
      exact ⟨trivial, fun _ _ => trivial⟩

theorem step_may {others : List DeviceTx} {t : DeviceTx} {o : PushOp} {r : o.Resp}
    {x : World × DeviceTx} (h : step others w t o r = some x) :
    (fanMonitor reprOf settings l).may o r := by
  cases o with
  | enabledDevices =>
    simp only [step, Option.ite_none_right_eq_some] at h
    exact h.1 ▸ Registry.nodup_enabledDevices _
  | _ => trivial

end

/-! ## What the processes hold -/

theorem Allowed.mono {l : PushTask} {dead dead' : List String} {x : DeviceWrite}
    (h : Allowed l dead x) (hsub : dead ⊆ dead') : Allowed l dead' x := by
  cases x with
  | upsert => exact h
  | disable => exact h.imp_right fun ⟨hl, htoken, hreason⟩ => ⟨hl, hsub htoken, hreason⟩
  | flush => exact ⟨h.1, hsub h.2⟩

theorem dead_next {l : PushTask} {a : Fanout} {o : PushOp} {r : o.Resp} :
    a.dead ⊆ ((fanMonitor reprOf settings l).next a o r).dead := by
  cases o with
  | post m =>
    simp only [fanMonitor, Fanout.posted]
    split
    · exact List.Subset.refl _
    · exact List.subset_cons_self _ _
    · exact List.Subset.refl _
    · exact List.Subset.refl _
  | _ => exact List.Subset.refl _

/-- A write that is held was there before or is the one of this operation. -/
theorem step_held {l : PushTask} {a : Fanout} {others : List DeviceTx} {w' : World}
    {t t' : DeviceTx} {o : PushOp} {r : o.Resp} (h : step others w t o r = some (w', t'))
    (hok : (fanMonitor reprOf settings l).ok a o) {x : DeviceWrite} (hx : x ∈ t') :
    x ∈ t ∨ Allowed l a.dead x := by
  cases o with
  | upsert =>
    simp only [step, Option.ite_none_left_eq_some, Option.ite_none_right_eq_some,
      Option.some.injEq, Prod.mk.injEq] at h
    rw [← h.2.2.2, List.mem_append, List.mem_singleton] at hx
    obtain hx | rfl := hx
    exacts [.inl hx, .inr hok]
  | disable =>
    simp only [step] at h
    split_ifs at h
    all_goals
      obtain ⟨-, rfl⟩ := Prod.mk.inj (Option.some.inj h)
    · rw [List.mem_append, List.mem_singleton] at hx
      obtain hx | rfl := hx
      exacts [.inl hx, .inr hok]
    · exact .inl hx
  | flush =>
    simp only [step, Option.ite_none_left_eq_some, Option.some.injEq, Prod.mk.injEq] at h
    rw [← h.2.2, List.mem_append, List.mem_singleton] at hx
    obtain hx | rfl := hx
    exacts [.inl hx, .inr hok]
  | commit | rollback =>
    obtain ⟨-, rfl⟩ := Prod.mk.inj (Option.some.inj h)
    cases hx
  | now | getDevice | enabledDevices | countEnabled =>
    simp only [step, Option.ite_none_right_eq_some, Option.some.injEq, Prod.mk.injEq] at h
    exact .inl (h.2.2 ▸ hx)
  | conversationMode | customerName | timestamp | bearer | post =>
    obtain ⟨-, rfl⟩ := Prod.mk.inj (Option.some.inj h)
    exact .inl hx

variable {C : Sys pushSig World DeviceTx PushTask → Event pushSig World DeviceTx PushTask → Prop}
  {p : Proc pushSig DeviceTx PushTask}

theorem relies : Rely (pushSem reprOf settings) C w (fun _ => True) (fanMonitor reprOf settings)
    Fanout.start (fun _ _ => True) fun l a _ _ t => ∀ x ∈ t, Allowed l a.dead x where
  program l _ := program_wp l
  may := step_may
  start := trivial
  fresh := nofun
  quiet _ _ := ⟨trivial, fun _ _ _ h => h⟩
  op := by
    intro s i p o k r w t _ _ hF hp _ hok hstep _
    refine ⟨trivial, fun _ x hx => ?_, fun j q _ hq _ => hF j q hq trivial⟩
    exact ((step_held hstep (hok trivial) hx).elim (hF i p hp trivial x) id).mono dead_next

theorem writes_allowed (h : Reach (pushSem reprOf settings) C w s) (hp : s.proc i = some p) :
    ∀ x ∈ p.held, Allowed p.label
      (track (fanMonitor reprOf settings p.label) Fanout.start i s.hist).dead x :=
  (h.rely relies).2 i p hp trivial

/-! ## What the history says -/

abbrev PushEvent := Event pushSig World DeviceTx PushTask

/-- Process `i` performed `o`, and `r` came back. -/
def Did (i : Nat) (o : PushOp) (r : o.Resp) (h : List PushEvent) : Prop :=
  ∃ l held post, .op i l held o r post ∈ h

/-- Process `i` read the list of the enabled phones, and `d` was one of them. -/
def Listed (i : Nat) (d : DeviceToken) (h : List PushEvent) : Prop :=
  ∃ l devices post, .op i l [] .enabledDevices devices post ∈ h ∧ d ∈ devices ∧
    d ∈ post.registry.rows ∧ d.enabled = true

/-- Firebase told process `i` that the token is dead. -/
def CalledDead (reprOf : Json → String) (i : Nat) (token : String) (h : List PushEvent) : Prop :=
  ∃ m answer status, Did i (.post m) answer h ∧ m.token = token ∧
    verdict reprOf answer = .dead status

structure Learned (reprOf : Json → String) (event : DashboardEvent) (i : Nat) (a : Fanout)
    (h : List PushEvent) : Prop where
  mode : ∀ mode, a.mode = some mode →
    Did i (.conversationMode (conversationOf event)) (some mode) h
  name : ∀ name, a.name = some name → Did i (.customerName (conversationOf event)) name h
  time : ∀ time, a.time = some time → Did i .timestamp time h
  left : ∀ d ∈ a.left, Listed i d h
  dead : ∀ token ∈ a.dead, CalledDead reprOf i token h

section

variable {event : DashboardEvent} {a : Fanout} {e : PushEvent} {h : List PushEvent} {o : PushOp}
  {r : o.Resp}

theorem Did.cons (hd : Did i o r h) : Did i o r (e :: h) :=
  have ⟨l, held, post, hmem⟩ := hd
  ⟨l, held, post, List.mem_cons_of_mem e hmem⟩

theorem Learned.start : Learned reprOf event i Fanout.start h where
  mode _ hm := by cases hm
  name _ hn := by cases hn
  time _ ht := by cases ht
  left _ hd := by cases hd
  dead _ ht := by cases ht

theorem Learned.cons (hl : Learned reprOf event i a h) : Learned reprOf event i a (e :: h) where
  mode mode hm := (hl.mode mode hm).cons
  name name hn := (hl.name name hn).cons
  time time ht := (hl.time time ht).cons
  left d hd :=
    have ⟨l, devices, post, hmem, hrest⟩ := hl.left d hd
    ⟨l, devices, post, List.mem_cons_of_mem e hmem, hrest⟩
  dead token ht :=
    have ⟨m, answer, status, hdid, hrest⟩ := hl.dead token ht
    ⟨m, answer, status, hdid.cons, hrest⟩

theorem Learned.posted {m : PushMessage} {answer : PostAnswer} (hl : Learned reprOf event i a h)
    (hdid : Did i (.post m) answer h) : Learned reprOf event i (a.posted reprOf m answer) h := by
  have hrest : ∀ d ∈ a.left.dropWhile (·.token ≠ m.token), Listed i d h := fun d hd =>
    hl.left d ((List.dropWhile_suffix _).subset hd)
  have htail : ∀ d ∈ (a.left.dropWhile (·.token ≠ m.token)).tail, Listed i d h := fun d hd =>
    hrest d (List.mem_of_mem_tail hd)
  unfold Fanout.posted
  cases hv : verdict reprOf answer with
  | transient => exact { hl with left := hrest }
  | accepted | failed => exact { hl with left := htail }
  | dead status =>
    refine { hl with left := htail, dead := fun token ht => ?_ }
    rcases List.mem_cons.mp ht with rfl | ht
    · exact ⟨m, answer, status, hdid, rfl, hv⟩
    · exact hl.dead token ht

end

theorem learned {event : DashboardEvent} (h : Reach (pushSem reprOf settings) C w s)
    (hp : s.proc i = some p) (hl : p.label = .dispatch event) :
    Learned reprOf event i
      (track (fanMonitor reprOf settings (.dispatch event)) Fanout.start i s.hist) s.hist := by
  refine Reach.traced (· = .dispatch event)
    (fun i h => (.start : Learned reprOf event i Fanout.start h)) (fun _ hl => hl.cons) ?_ h hp hl
  intro s i p o k r w' t hr hp hl hrest hstep hlearned
  have hok := hr.wp_task (fun _ => True) (fanMonitor reprOf settings) (fun l _ => program_wp l)
    step_may hp trivial
  have hheld := writes_allowed hr hp
  rw [hl] at hok hheld
  rw [hrest] at hok
  have hdid : Did i o r (.op i p.label p.held o r w' :: s.hist) :=
    ⟨p.label, p.held, w', List.mem_cons_self⟩
  have hnext := hlearned.cons (e := .op i p.label p.held o r w')
  cases o with
  | conversationMode id =>
    obtain ⟨_, heq, rfl⟩ := hok.1
    obtain rfl := PushTask.dispatch.inj heq
    exact { hnext with mode := fun mode hm => (hm : r = some mode) ▸ hdid }
  | customerName id =>
    obtain ⟨_, heq, rfl⟩ := hok.1
    obtain rfl := PushTask.dispatch.inj heq
    exact { hnext with name := fun name hn => Option.some.inj hn ▸ hdid }
  | timestamp => exact { hnext with time := fun time ht => Option.some.inj ht ▸ hdid }
  | enabledDevices =>
    -- nothing has been written yet, so that what is read is what is there
    have hnone : p.held = [] := by
      rw [List.eq_nil_iff_forall_not_mem]
      intro x hx
      have hallowed := hheld x hx
      rw [hok.1.2] at hallowed
      cases x with
      | upsert => cases hallowed
      | disable => rcases hallowed with ⟨heq, -⟩ | ⟨-, hmem, -⟩ <;> [cases heq; cases hmem]
      | flush => cases hallowed.2
    simp only [pushSem, step, hnone, Option.ite_none_right_eq_some, Option.some.injEq,
      Prod.mk.injEq] at hstep
    obtain ⟨hdevices, hw, -⟩ := hstep
    refine { hnext with left := fun d hd => ⟨p.label, r, w', ?_, hd, ?_⟩ }
    · rw [hnone]
      exact List.mem_cons_self
    · rw [← hw]
      exact Registry.mem_enabledDevices.mp (hdevices ▸ hd)
  | post m => exact hnext.posted hdid
  | _ => exact hnext

/-! ## What is sent -/

/-- What a notification rests on. -/
structure Grounds (settings : PushSettings) (i : Nat) (event : DashboardEvent)
    (type : NotificationType) (name : Option String) (time : String) (d : DeviceToken)
    (h : List PushEvent) : Prop where
  configured : settings.configured = true
  worth : ∃ mode, worth event mode = some type ∧
    ∀ m, mode = some m → Did i (.conversationMode (conversationOf event)) (some m) h
  name : Did i (.customerName (conversationOf event)) name h
  time : Did i .timestamp time h
  listed : Listed i d h

/-- **Every POST is the notification of an event that deserves one**, made for a phone that was
registered and enabled when the process read its list, with what the process has read of the
event's conversation. -/
theorem push_sends {l : PushTask} {held : DeviceTx} {m : PushMessage} {answer : PostAnswer}
    {post : World} {h₁ h₂ : List PushEvent} (h : Reach (pushSem reprOf settings) C w s)
    (hsplit : s.hist = h₁ ++ .op i l held (.post m) answer post :: h₂) :
    ∃ event type name time d, l = .dispatch event ∧ Grounds settings i event type name time d h₂ ∧
      m = messageFor settings d type (conversationOf event) name time := by
  obtain ⟨s₁, _, hr, hs, -, rfl⟩ := h.event hsplit
  cases hs with
  | op hp hrest _ =>
    have hok := hr.wp_task (fun _ => True) (fanMonitor reprOf settings) (fun l _ => program_wp l)
      step_may hp trivial
    rw [hrest] at hok
    obtain ⟨⟨⟨event, type, name, time, hk, d, hd, hm⟩, -⟩, -⟩ := hok
    have htask := hk.task
    rw [htask] at hk hd
    have hl := learned hr hp htask
    exact ⟨event, type, name, time, d, htask, ⟨hk.configured, ⟨_, hk.worth, hl.mode⟩,
      hl.name _ hk.name, hl.time _ hk.time, hl.left d hd⟩, hm⟩

theorem done_next {l : PushTask} {a : Fanout} {o : PushOp} {r : o.Resp} :
    a.done ⊆ ((fanMonitor reprOf settings l).next a o r).done := by
  cases o with
  | post m =>
    simp only [fanMonitor, Fanout.posted]
    split
    · exact List.Subset.refl _
    all_goals exact List.subset_cons_self _ _
  | _ => exact List.Subset.refl _

/-- **A phone gets an event's notification once**: a process posts to a token again only after
answers that say to try again. -/
theorem push_once {l l' : PushTask} {held held' : DeviceTx} {m m' : PushMessage}
    {answer answer' : PostAnswer} {post post' : World} {h₁ h₂ : List PushEvent}
    (h : Reach (pushSem reprOf settings) C w s)
    (hsplit : s.hist = h₁ ++ .op i l held (.post m) answer post :: h₂)
    (hearlier : .op i l' held' (.post m') answer' post' ∈ h₂) (htoken : m'.token = m.token) :
    verdict reprOf answer' = .transient := by
  obtain ⟨s₁, _, hr, hs, -, rfl⟩ := h.event hsplit
  cases hs with
  | @op _ _ p _ _ _ _ hp hrest _ =>
    have hok := hr.wp_task (fun _ => True) (fanMonitor reprOf settings) (fun l _ => program_wp l)
      step_may hp trivial
    rw [hrest] at hok
    by_contra hfinal
    refine hok.1.2 (hr.remembers (P := fun a : Fanout => m.token ∈ a.done) hearlier (fun a => ?_)
      fun _ _ _ hm => done_next hm)
    simp only [fanMonitor, Fanout.posted, ← htoken]
    split
    · rename_i hv
      exact absurd hv hfinal
    all_goals exact List.mem_cons_self

namespace Sample

def configured : PushSettings := ⟨true, "shop", "key", "New message", 1⟩

/-- A sales lead of conversation 7. -/
def lead : DashboardEvent :=
  .conversationHandoff 7 modeHuman none "sales_lead" (some tagSalesLead) ""

def answer (post : PostAnswer) (w : World) (t : DeviceTx) : (o : PushOp) → Option o.Resp
  | .now => some w.clock
  | .upsert token _ _ _ => some ((((w.registry.applyAll t).find token).map (·.id)).getD w.nextId)
  | .disable token _ => some (((w.registry.applyAll t).find token).any (·.enabled))
  | .getDevice id => some ((w.registry.applyAll t).rows.find? (·.id == id))
  | .enabledDevices => some (w.registry.applyAll t).enabledDevices
  | .countEnabled => some ((w.registry.applyAll t).rows.filter (·.enabled)).length
  | .flush _ | .commit | .rollback => some ()
  | .conversationMode _ => some (some modeHuman)
  | .customerName _ => some (some "Mona")
  | .timestamp => some ""
  | .bearer => some .token
  | .post _ => some post

def steps (i n : Nat) (post : PostAnswer) : List (Act pushSig World DeviceTx PushTask) :=
  List.replicate n (.op i (answer post))

/-- A phone is enrolled; the first POST of a sales lead fails, the second goes through. -/
def retried : List (Act pushSig World DeviceTx PushTask) :=
  [.spawn (.register "phone" "android" privacyPreview)] ++ steps 0 6 .transportError ++
    [.finish 0, .spawn (.dispatch lead)] ++ steps 1 5 .transportError ++
      steps 1 2 (.response 200 (some (.obj [])))

/-- The last but one operation of process 1 was a POST to the same token. -/
def again : List PushEvent → Bool
  | .op 1 _ _ (.post m) _ _ :: _ :: .op 1 _ _ (.post m') _ _ :: _ => decide (m'.token = m.token)
  | _ => false

/-- The last operation of process 1 was the POST of the lead. -/
def posted : List PushEvent → Bool
  | .op 1 (.dispatch event) _ (.post _) _ _ :: _ => decide (event = lead)
  | _ => false

end Sample

theorem push_sends_sample : ∃ event type name time d m h,
    PushTask.dispatch Sample.lead = .dispatch event ∧
      Grounds Sample.configured 1 event type name time d h ∧
        m = messageFor Sample.configured d type (conversationOf event) name time := by
  obtain ⟨s, hs, hrun⟩ := Reach.exists_of_run (M := pushSem (fun _ => "") Sample.configured)
    (C := anyStep) (w := ⟨⟨[], List.nodup_nil⟩, 0, 0⟩) Sample.retried (fun s => Sample.posted s.hist)
    (by decide)
  unfold Sample.posted at hrun
  split at hrun
  · rename_i hsplit
    obtain rfl := of_decide_eq_true hrun
    obtain ⟨event, type, name, time, d, hl, hgrounds, hm⟩ :=
      push_sends hs (hsplit.trans (List.nil_append _).symm)
    exact ⟨event, type, name, time, d, _, _, hl, hgrounds, hm⟩
  · cases hrun

theorem push_once_sample : ∃ (m m' : PushMessage) (answer : PostAnswer), m'.token = m.token ∧
    verdict (fun _ => "") answer = .transient := by
  obtain ⟨s, hs, hrun⟩ := Reach.exists_of_run (M := pushSem (fun _ => "") Sample.configured)
    (C := anyStep) (w := ⟨⟨[], List.nodup_nil⟩, 0, 0⟩) Sample.retried (fun s => Sample.again s.hist)
    (by decide)
  unfold Sample.again at hrun
  split at hrun
  · rename_i hsplit
    have htoken := of_decide_eq_true hrun
    have hsplit' := hsplit.trans (List.nil_append _).symm
    exact ⟨_, _, _, htoken, push_once hs hsplit' (.tail _ (.head _)) htoken⟩
  · cases hrun

/-! ## What happens to a phone -/

variable {s' : Sys pushSig World DeviceTx PushTask}

/-- The device is as its registration says, under the id it had. -/
structure Registered (token platform notificationPrivacy : String) (old : Option DeviceToken)
    (d : DeviceToken) : Prop where
  token : d.token = token
  platform : d.platform = platform
  notificationPrivacy : d.notificationPrivacy = notificationPrivacy
  enabled : d.enabled = true
  disabledReason : d.disabledReason = none
  id : ∀ e, old = some e → d.id = e.id

/-- What the commit of a task makes of the row of a token. -/
def Moved (dead : String → Prop) (token : String) (old new : Option DeviceToken) : PushTask → Prop
  | .register token' platform notificationPrivacy =>
    token' = token ∧ ∃ d, new = some d ∧ Registered token platform notificationPrivacy old d
  | .disable token' => token' = token ∧ ∃ d, old = some d ∧
    new = some { d with enabled := false, disabledReason := some disabledByDevice }
  | .dispatch _ => dead token ∧ ∃ d reason, old = some d ∧
    (reason = d.disabledReason ∨ reason = some disabledUnregistered) ∧
      new = some { d with enabled := false, disabledReason := reason }

section

variable {dead : String → Prop} {token : String} {old mid new : Option DeviceToken} {l : PushTask}

theorem Moved.mono {dead' : String → Prop} (h : Moved dead token old new l)
    (hdead : dead token → dead' token) : Moved dead' token old new l := by
  cases l with
  | dispatch => exact ⟨hdead h.1, h.2⟩
  | _ => exact h

theorem Moved.trans (h : Moved dead token old mid l) (h' : Moved dead token mid new l) :
    Moved dead token old new l := by
  cases l with
  | register =>
    obtain ⟨rfl, d, rfl, hd⟩ := h
    obtain ⟨-, d', rfl, hd'⟩ := h'
    exact ⟨rfl, d', rfl, { hd' with id := fun e he => (hd'.id d rfl).trans (hd.id e he) }⟩
  | disable =>
    obtain ⟨rfl, d, rfl, rfl⟩ := h
    obtain ⟨-, _, heq, rfl⟩ := h'
    obtain rfl := Option.some.inj heq
    exact ⟨rfl, d, rfl, rfl⟩
  | dispatch =>
    obtain ⟨hdead, d, reason, rfl, hreason, rfl⟩ := h
    obtain ⟨-, _, reason', heq, hreason', rfl⟩ := h'
    obtain rfl := Option.some.inj heq
    refine ⟨hdead, d, reason', rfl, ?_, rfl⟩
    rcases hreason' with rfl | rfl
    · exact hreason
    · exact .inr rfl

theorem apply_moves {dead : List String} {x : DeviceWrite} (t : Registry) (token : String)
    (h : Allowed l dead x) : (x.apply t).find token = t.find token ∨
      Moved (· ∈ dead) token (t.find token) ((x.apply t).find token) l := by
  cases x with
  | upsert id token' platform notificationPrivacy now =>
    obtain rfl := (h : l = _)
    rw [DeviceWrite.apply, Keyed.find_put]
    split
    · rename_i htoken
      subst htoken
      refine .inr ⟨rfl, _, rfl, ?_⟩
      cases hx : t.find token with
      | none => exact ⟨rfl, rfl, rfl, rfl, rfl, fun _ he => by cases he⟩
      | some d =>
        exact ⟨(Keyed.find_eq_some.mp hx).2, rfl, rfl, rfl, rfl, fun e he => by cases he; rfl⟩
    · exact .inl rfl
  | disable token' reason =>
    rw [DeviceWrite.apply, Keyed.find_update]
    split
    · rename_i htoken
      subst htoken
      cases hx : t.find token with
      | none => exact .inl rfl
      | some d =>
        rcases h with ⟨rfl, rfl⟩ | ⟨⟨event, rfl⟩, hdead, rfl⟩
        · exact .inr ⟨rfl, d, rfl, rfl⟩
        · exact .inr ⟨hdead, d, _, rfl, .inr rfl, rfl⟩
    · exact .inl rfl
  | flush token' =>
    obtain ⟨⟨event, rfl⟩, hdead⟩ := h
    rw [DeviceWrite.apply, Keyed.find_update]
    split
    · rename_i htoken
      subst htoken
      cases hx : t.find token with
      | none => exact .inl rfl
      | some d => exact .inr ⟨hdead, d, d.disabledReason, rfl, .inl rfl, rfl⟩
    · exact .inl rfl

theorem applyAll_moves {dead : List String} {ws : List DeviceWrite} (t : Registry) (token : String)
    (h : ∀ x ∈ ws, Allowed l dead x) : (t.applyAll ws).find token = t.find token ∨
      Moved (· ∈ dead) token (t.find token) ((t.applyAll ws).find token) l := by
  induction ws generalizing t with
  | nil => exact .inl rfl
  | cons x ws ih =>
    have hfirst := apply_moves t token (h x List.mem_cons_self)
    have hrest := ih (x.apply t) fun y hy => h y (List.mem_cons_of_mem x hy)
    change (Registry.applyAll (x.apply t) ws).find token = _ ∨
      Moved _ token _ ((Registry.applyAll (x.apply t) ws).find token) l
    rcases hrest with hrest | hrest
    · rwa [hrest]
    · rcases hfirst with hfirst | hfirst
      · exact .inr (hfirst ▸ hrest)
      · exact .inr (hfirst.trans hrest)

end

/-- Only a commit changes the table. -/
theorem step_registry {others : List DeviceTx} {w w' : World} {t t' : DeviceTx} {o : PushOp}
    {r : o.Resp} (h : step others w t o r = some (w', t')) :
    w'.registry = w.registry ∨ o = .commit ∧ w'.registry = w.registry.applyAll t := by
  cases o with
  | commit =>
    obtain ⟨rfl, -⟩ := Prod.mk.inj (Option.some.inj h)
    exact .inr ⟨rfl, rfl⟩
  | rollback | conversationMode | customerName | timestamp | bearer | post =>
    obtain ⟨rfl, -⟩ := Prod.mk.inj (Option.some.inj h)
    exact .inl rfl
  | _ =>
    simp only [step] at h
    split_ifs at h
    all_goals
      obtain ⟨rfl, -⟩ := Prod.mk.inj (Option.some.inj h)
      exact .inl rfl

end Push
