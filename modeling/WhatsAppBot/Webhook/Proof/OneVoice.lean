import WhatsAppBot.Chat.Proof.Reading
import WhatsAppBot.Lib.Rely
import WhatsAppBot.Store.Proof.Row
import WhatsAppBot.Webhook.Proof.Request
import WhatsAppBot.Webhook.Proof.Sweeping
import WhatsAppBot.Webhook.Sample

/-!
# One voice at a time

A handler reads the conversation's mode once, when it starts, and a sweep when it claims. So the bot is
silent after a take-over as long as whoever speaks has looked at the row since (`LookedAfter`,
`silent`): a handler that looks at the row of a human's conversation says nothing. A handler that looked
before and is generating when the take-over commits speaks all the same, and an invitation to a
comment's author never looks.
-/

set_option autoImplicit false

namespace Webhook

open Lib Store Bot Chat

/-! ## One process -/

/-- The bot speaks in the conversation: it reserves an answer or hands one to the sender. -/
def speaks (c : Nat) : Op → Bool
  | .sql (.reserveReply d _ _ _) => d = c
  | .send out => out.conversationId = c ∧ out.purpose ≠ .manual
  | _ => false

/-- It reserves or sends an invitation to a private thread. -/
def invites : Op → Bool
  | .sql (.reserveReply _ _ _ type) => type = inviteType
  | .send out =>
    match out.purpose with
    | .invite _ => true
    | _ => false
  | _ => false

def modeIn (c : Nat) (x : Option Conversation) : Option Mode :=
  (x.filter fun x => x.id = c).map (·.mode)

theorem modeIn_of_ne {c : Nat} {x : Conversation} (h : x.id ≠ c) : modeIn c (some x) = none := by
  simp [modeIn, Option.filter, h]

theorem modeIn_self (x : Conversation) : modeIn x.id (some x) = some x.mode := by
  simp [modeIn, Option.filter]

/-- The mode of the conversation's row, where the answer shows it. -/
def shows (c : Nat) : (o : Op) → o.Resp → Option Mode
  | .sql (.activeForUser _), r => modeIn c r
  | .sql (.getConversation _), r => modeIn c r
  | .sql (.claimIdleSessions _ _ _), ids =>
    if (ids : List Nat).contains c then some .bot else none
  | _, _ => none

/-- Whoever speaks has last seen the bot answering the conversation. The state is what was seen. -/
def voiceMonitor (c : Nat) : Monitor botSig (Option Mode) where
  ok a o := speaks c o = true → invites o = false → a = some .bot
  next a o r := (shows c o r).or a
  may o r :=
    match o, r with
    | .sql (.idleTargets ids), targets => TargetsOf ids targets
    | .sql (.getConversation id), x => ∀ y, (x : Option Conversation) = some y → y.id = id
    | _, _ => True

variable {c : Nat} {cfg : Config} {a : Option Mode} {o : Op}

theorem voice_ok (h : speaks c o = false) : (voiceMonitor c).ok a o := fun hspeaks => by
  rw [h] at hspeaks
  cases hspeaks

/-- An operation that neither speaks nor shows the row. -/
def isMute (c : Nat) (o : Op) : Prop := speaks c o = false ∧ ∀ r, shows c o r = none

theorem isMute.next (h : isMute c o) (r : o.Resp) : (voiceMonitor c).next a o r = a := by
  change (shows c o r).or a = a
  rw [h.2 r]
  rfl

theorem mute_wp {α : Type} {P : BotM α} {Q : α → Option Mode → Prop} (hP : P.Only (isMute c))
    (hQ : ∀ x, Q x a) : P.wp (voiceMonitor c) Q a := by
  refine Prog.wp_mono (hP.wp (B := (· = a)) rfl ?_) fun x b hb => hb ▸ hQ x
  rintro b o rfl ho
  exact ⟨voice_ok ho.1, fun r _ => ho.next r⟩

theorem mute_of_isCalm (h : isCalm o = true) : isMute c o := by
  cases o with
  | sql s => cases s <;> first | exact ⟨rfl, fun _ => rfl⟩ | cases h
  | send => cases h
  | _ => exact ⟨rfl, fun _ => rfl⟩

theorem mute_of_isConfirm (h : isConfirm o = true) : isMute c o := by
  cases o with
  | sql s => cases s <;> first | exact ⟨rfl, fun _ => rfl⟩ | cases h
  | _ => cases h

theorem not_speaks_of_inContext (h : inContext o = true) : speaks c o = false := by
  cases o with
  | sql s => cases s <;> first | rfl | cases h
  | _ => first | rfl | cases h

theorem not_speaks_of_inOperator (h : inOperator o = true) : speaks c o = false := by
  cases o with
  | sql s => cases s <;> first | rfl | cases h
  | send out =>
    have hpurpose : out.purpose = .manual := by simpa [inOperator, inRequest] using h
    simp [speaks, hpurpose]
  | _ => rfl

/-! ## Deliveries -/

/-- The monitor knows the mode of the row that was read. -/
def KnowsMode (c : Nat) (x : Conversation) (a : Option Mode) : Prop := x.id = c → a = some x.mode

theorem shown_knows (x : Conversation) (a : Option Mode) :
    KnowsMode c x ((modeIn c (some x)).or a) := by
  rintro rfl
  rw [modeIn_self]
  rfl

theorem receives_voice (c : Nat) : Receives (voiceMonitor c) (fun _ => True) (KnowsMode c) where
  keep _ ho := ⟨voice_ok (not_speaks_of_inContext ho), fun _ _ => trivial⟩
  look _ := shown_knows _ _
  fetch _ := shown_knows _ _
  claim ha := ⟨voice_ok rfl, fun _ => ha⟩
  calm ha ho := ⟨voice_ok (mute_of_isCalm ho).1, fun r _ => ((mute_of_isCalm ho).next r).symm ▸ ha⟩
  leave _ := trivial

theorem serves_voice (channel : Channel) (waId key : String) (x : Conversation) :
    Serves (voiceMonitor c) cfg channel waId key x (KnowsMode c x) (fun _ => True) where
  calm ha ho := (receives_voice c).calm ha ho
  calmAfter _ ho := ⟨voice_ok (mute_of_isCalm ho).1, fun _ _ => trivial⟩
  le _ := trivial
  quota ha := ⟨voice_ok rfl, fun _ _ => ha⟩
  human _ ha _ := ⟨voice_ok rfl, fun _ _ => ha⟩
  send {a text form} hx ha := by
    have hbot : x.id = c → a = some .bot := by
      intro hid
      rw [ha hid]
      cases hmode : x.mode with
      | bot => rfl
      | human => exact absurd hmode hx
    have hsay : ∀ {o}, (speaks c o = true → x.id = c) → (voiceMonitor c).ok a o :=
      fun ho hspeaks _ => hbot (ho hspeaks)
    refine sendOnce_wp (fun _ _ ho => ?_) (fun _ ho => ⟨voice_ok ?_, fun _ _ => trivial⟩)
      (hsay of_decide_eq_true) (fun _ => trivial)
      fun _ _ => ⟨voice_ok rfl, hsay fun h => (of_decide_eq_true h).1, fun _ => trivial⟩
    · have hmute := mute_of_isCalm (c := c) (isCalm_of_isTouch ho)
      exact ⟨voice_ok hmute.1, hmute.next⟩
    · exact ho.elim (fun ho => (mute_of_isCalm ho).1) fun ho => (mute_of_isConfirm ho).1

/-- An invitation is free of the conversation's mode. -/
theorem inviteAfterComment_voice (channel : Channel) (e : Channels.InboundEvent) :
    (inviteAfterComment cfg channel e).wp (voiceMonitor c) (fun _ _ => True) a := by
  have hcalm : ∀ o, isCalm o = true → speaks c o = false ∨ invites o = true :=
    fun o ho => .inl (mute_of_isCalm ho).1
  have hcontext : ∀ o, inContext o = true → speaks c o = false ∨ invites o = true :=
    fun o ho => .inl (not_speaks_of_inContext ho)
  refine Prog.Only.wp (φ := fun o => speaks c o = false ∨ invites o = true) ?_ trivial
    fun b o _ ho => ⟨fun hspeaks hnot => ?_, fun _ _ => trivial⟩
  · refine Prog.Only.ite (Prog.only_pure _) (Prog.Only.ite (Prog.only_pure _)
      (Prog.Only.ite (Prog.only_pure _) ?_))
    refine ((asOptional_only e.senderName).mono hcalm).bind fun name =>
      ((getChannelContext_only cfg channel e.senderId name).mono hcontext).bind fun d =>
        Prog.Only.call_bind (.inr rfl) fun r => ?_
    cases r with
    | none => exact Prog.only_call.mpr (.inl rfl)
    | some r =>
      refine Prog.Only.call_bind (.inl rfl) fun _ => Prog.Only.bind ?_ fun result => ?_
      · exact Prog.Only.ite (Prog.only_pure _) (Prog.Only.call_bind (.inr rfl) fun _ =>
          Prog.only_pure _)
      · cases result with
        | failed => exact only_exec_bind (.inl rfl) (Prog.only_call.mpr (.inl rfl))
        | broken => exact only_raise (.inl rfl)
        | sent id => exact only_exec_bind (.inl rfl) (Prog.only_call.mpr (.inl rfl))
  · rcases ho with ho | ho
    · rw [ho] at hspeaks
      cases hspeaks
    · rw [ho] at hnot
      cases hnot

theorem delivers_voice (cfg : Config) (c : Nat) :
    Delivers (voiceMonitor c) cfg fun _ => True where
  calm _ ho := ⟨voice_ok (mute_of_isCalm ho).1, fun _ _ => trivial⟩
  handles channel waId name key := by
    refine ⟨KnowsMode c, fun _ => True, fun {a type content mediaId} ha => ?_,
      fun x => serves_voice channel waId key x, fun _ => trivial⟩
    exact (receives_voice c).receive_wp ha cfg channel waId name key type content mediaId
  stale waId name key type content ha :=
    (receives_voice c).recordWithoutAnswering_wp ha cfg waId name key type content
  status _ := ⟨voice_ok rfl, fun _ _ => trivial⟩
  invite channel e _ := inviteAfterComment_voice channel e

/-! ## The sweep -/

theorem shouldSendClosing_mute (target : IdleSession) :
    (Session.shouldSendClosing cfg target).Only (isMute c) := by
  unfold Session.shouldSendClosing
  generalize strip (Session.closingText cfg) = text
  refine Prog.Only.ite (Prog.only_pure _) (Prog.Only.ite (Prog.only_pure _)
    (Prog.Only.ite (Prog.only_pure _) (Prog.Only.call_bind ⟨rfl, fun _ => rfl⟩ fun last => ?_)))
  cases last with
  | none => exact Prog.only_pure _
  | some last => exact Prog.Only.call_bind ⟨rfl, fun _ => rfl⟩ fun _ => Prog.only_pure _

theorem sayGoodbye_voice {target : IdleSession} (h : target.conversationId = c → a = some .bot) :
    (Session.sayGoodbye cfg target).wp (voiceMonitor c) (fun _ b => b = a) a := by
  unfold Session.sayGoodbye
  rw [Prog.wp_bind]
  refine mute_wp (shouldSendClosing_mute target) fun allowed => ?_
  unfold when
  split
  · refine Prog.wp_call_bind (fun hspeaks _ => h (of_decide_eq_true hspeaks).1) fun wire _ => ?_
    cases wire.result with
    | failed => exact rfl
    | broken => exact mute_wp (only_raise ⟨rfl, fun _ => rfl⟩) fun _ => rfl
    | sent id =>
      exact mute_wp (Prog.Only.call_bind ⟨rfl, fun _ => rfl⟩ fun _ =>
        Prog.only_call.mpr ⟨rfl, fun _ => rfl⟩) fun _ => rfl
  · exact rfl

/-- A target that is not the conversation's leaves what was seen of it. -/
theorem finish_voice {target : IdleSession} (h : target.conversationId = c → a = some .bot) :
    (Session.finish cfg target).wp (voiceMonitor c)
      (fun _ b => target.conversationId ≠ c → b = a) a := by
  unfold Session.finish
  rw [Prog.wp_bind]
  refine Prog.wp_mono (sayGoodbye_voice h) ?_
  rintro _ b rfl
  refine Prog.wp_call_bind (voice_ok rfl) fun closedAt _ => Prog.wp_call_bind (voice_ok rfl) fun _ _ =>
    Prog.wp_call_bind (voice_ok rfl) fun _ _ => Prog.wp_call_bind (voice_ok rfl) fun x hx => ?_
  have hnext : target.conversationId ≠ c →
      (voiceMonitor c).next b (.sql (.getConversation target.conversationId)) x = b := by
    intro hne
    cases x with
    | none => rfl
    | some y =>
      change (modeIn c (some y)).or b = b
      rw [modeIn_of_ne (hx y rfl ▸ hne)]
      rfl
  cases x with
  | none => exact hnext
  | some y => exact mute_wp (Prog.only_call.mpr ⟨rfl, fun _ => rfl⟩) fun _ => hnext

/-- What is left to do: the conversation is only among the targets when it was claimed. -/
def Claimed (c : Nat) (targets : List IdleSession) (a : Option Mode) : Prop :=
  (targets.map (·.conversationId)).Nodup ∧ (c ∈ targets.map (·.conversationId) → a = some .bot)

theorem finish_claimed {target : IdleSession} {rest : List IdleSession}
    (h : Claimed c (target :: rest) a) :
    (Session.finish cfg target).wp (voiceMonitor c) (fun _ => Claimed c rest) a := by
  obtain ⟨hnodup, hseen⟩ := h
  rw [List.map_cons, List.nodup_cons] at hnodup
  rw [List.map_cons, List.mem_cons] at hseen
  refine Prog.wp_mono (finish_voice fun hc => hseen (.inl hc.symm)) fun _ b hb => ⟨hnodup.2, ?_⟩
  intro hmem
  have hne : target.conversationId ≠ c := fun hc => hnodup.1 (hc ▸ hmem)
  rw [hb hne]
  exact hseen (.inr hmem)

theorem closeIdleSessions_voice :
    (Session.closeIdleSessions cfg).wp (voiceMonitor c) (fun _ _ => True) none := by
  unfold Session.closeIdleSessions
  split
  · trivial
  · split
    · trivial
    · refine Prog.wp_call_bind (voice_ok rfl) fun _ _ => Prog.wp_call_bind (voice_ok rfl) fun _ _ =>
        Prog.wp_call_bind (voice_ok rfl) fun ids _ => ?_
      unfold Session.closeClaimed
      split
      · trivial
      · refine Prog.wp_call_bind (voice_ok rfl) fun targets htargets =>
          Prog.wp_call_bind (voice_ok rfl) fun _ _ => ?_
        have hclaimed : Claimed c targets ((voiceMonitor c).next none
            (.sql (.claimIdleSessions _ _ _)) ids) := by
          refine ⟨htargets.1, fun hmem => ?_⟩
          obtain ⟨t, ht, rfl⟩ := List.mem_map.mp hmem
          have hin : (ids : List Nat).contains t.conversationId = true :=
            List.contains_iff_mem.mpr (htargets.2 t ht)
          change (if (ids : List Nat).contains t.conversationId then some Mode.bot else none).or none = _
          rw [if_pos hin]
          rfl
        exact Prog.wp_mono (Prog.wp_forM_rest (f := Session.finish cfg)
          (fun _ _ _ => finish_claimed) hclaimed) fun _ _ _ => trivial

/-- **No task answers a conversation unless it has last seen it with the bot.** -/
theorem voice_discipline (cfg : Config) (c : Nat) :
    (voiceMonitor c).Accepts none (fun _ => True) (sem cfg) where
  program l := by
    have hoperator : ∀ {P : BotM Unit}, (P.Only fun o => inOperator o = true) →
        P.wp (voiceMonitor c) (fun _ _ => True) none := fun hP =>
      hP.wp trivial fun _ _ _ ho => ⟨voice_ok (not_speaks_of_inOperator ho), fun _ _ => trivial⟩
    cases l with
    | webhook payload => exact (delivers_voice cfg c).processWebhookPayload_wp trivial payload
    | metaWebhook surfaces payload =>
      exact Prog.wp_forM (I := fun _ => True) (fun surface _ _ hb =>
        (delivers_voice cfg c).processMetaPayload_wp hb surface payload) trivial
    | sweep => exact closeIdleSessions_voice
    | takeOver id operator operatorId => exact hoperator (program_only cfg (.takeOver id operator operatorId))
    | resumeAi id => exact hoperator (program_only cfg (.resumeAi id))
    | manualReply id text operatorId => exact hoperator (program_only cfg (.manualReply id text operatorId))
  may {ts w t o r x} h := by
    change step cfg _ _ _ o r = _ at h
    cases o with
    | sql s =>
      cases s with
      | idleTargets ids =>
        obtain ⟨ws, hexec, -⟩ := step_sql h
        obtain ⟨rfl, -⟩ := Prod.mk.inj (Option.some.inj hexec)
        exact ⟨Db.idleTargets_nodup _ ids, fun _ => Db.mem_of_idleTargets⟩
      | getConversation id =>
        obtain ⟨ws, hexec, -⟩ := step_sql h
        obtain ⟨rfl, -⟩ := Prod.mk.inj (Option.some.inj hexec)
        exact fun y hy => Db.conversation_id hy
      | _ => trivial
    | _ => trivial

/-! ## Take-overs -/

/-- A take-over commits: the conversation is a human's. The commit of a revival comes before it. -/
def takesOver (c : Nat) : Event botSig World Tx Task → Bool
  | .op _ (.takeOver d _ _) tx .commit _ post =>
    d = c ∧ post.db.mode c = some .human ∧ Kind.revive ∉ Tx.kinds tx c
  | _ => false

/-- A commit after which the conversation is not a human's. -/
def handsBack (c : Nat) : Event botSig World Tx Task → Bool
  | .op _ _ _ .commit _ post => post.db.mode c ≠ some .human
  | _ => false

/-- An operator took the conversation over, and it has been a human's since. -/
def silenced (c : Nat) : History → Bool
  | [] => false
  | e :: h => takesOver c e || !handsBack c e && silenced c h

/-- The bot speaks in the conversation. -/
def speaksIn (c : Nat) : Event botSig World Tx Task → Bool
  | .op _ _ _ o _ _ => speaks c o
  | _ => false

/-- What had happened when the process last looked at the conversation's row. -/
def beforeLook (c i : Nat) : History → History
  | [] => []
  | .op j _ _ o r _ :: h => if j = i ∧ (shows c o r).isSome then h else beforeLook c i h
  | _ :: h => beforeLook c i h

/-- Whoever speaks in a conversation that was taken over has looked at it since, and does not speak to
invite the author of a comment. -/
def LookedAfter (c : Nat) (s : Sys botSig World Tx Task) : Event botSig World Tx Task → Prop
  | .op i _ _ o _ _ => speaks c o = true → silenced c s.hist = true →
      invites o = false ∧ silenced c (beforeLook c i s.hist) = true
  | _ => True

instance (c : Nat) (s : Sys botSig World Tx Task) (e : Event botSig World Tx Task) :
    Decidable (LookedAfter c s e) :=
  match e with
  | .op i _ _ o _ _ =>
    inferInstanceAs (Decidable (speaks c o = true → silenced c s.hist = true →
      invites o = false ∧ silenced c (beforeLook c i s.hist) = true))
  | .spawn _ _ | .finish _ _ | .cut _ _ => .isTrue trivial

variable {C : Sys botSig World Tx Task → Event botSig World Tx Task → Prop} {w₀ : World}
  {s s' : Sys botSig World Tx Task} {e : Event botSig World Tx Task} {i : Nat}
  {p : Proc botSig Tx Task}

theorem takesOver_human (hs : Step (sem cfg) s e s') (ht : takesOver c e = true) :
    s'.shared.db.mode c = some .human := by
  cases hs with
  | op =>
    unfold takesOver at ht
    split at ht
    · rename_i heq
      obtain rfl := (Event.op.inj heq).2.2.2.2.2
      exact (of_decide_eq_true ht).2.1
    · cases ht
  | _ => cases ht

/-- The row of a conversation that was taken over is a human's. -/
theorem silenced_human (h : Reach (sem cfg) C w₀ s) (hs : silenced c s.hist = true) :
    s.shared.db.mode c = some .human := by
  induction h with
  | start => cases hs
  | @step s s' e hr hstep hc ih =>
    rw [hstep.hist_eq, silenced, Bool.or_eq_true, Bool.and_eq_true] at hs
    rcases hs with htook | ⟨hkept, hbefore⟩
    · exact takesOver_human hstep htook
    · rcases db_cases hstep with hdb | ⟨i, p, -, rfl, -⟩
      · rw [hdb]
        exact ih hbefore
      · simpa [handsBack] using hkept

/-- A delivery or a sweep has written nothing that hands a conversation back. -/
def Task.Retains (l : Task) (_ : Option Mode) (tx : Tx) : Prop :=
  l.target = none → ∀ w ∈ tx, w.handsBack = false

theorem retains_step {l : Task} {others : List Tx} {w w' : World} {tx tx' : Tx} {r : o.Resp}
    {b : Option Mode} (h : step cfg others w tx o r = some (w', tx')) (ho : alphabetOf l o = true)
    (hl : l.Retains a tx) : l.Retains b tx' := by
  intro hnone
  cases o with
  | sql stmt =>
    obtain ⟨ws, hexec, -, -, -, rfl⟩ := step_sql h
    refine List.forall_mem_append.mpr ⟨hl hnone, Stmt.exec_handsBack hexec fun i p hst => ?_⟩
    subst hst
    cases l with
    | webhook | metaWebhook => simpa [alphabetOf, inDelivery, isCalm, isConfirm, inContext] using ho
    | sweep => cases ho
    | _ => cases hnone
  | commit =>
    rw [(step_commit h).2.2]
    exact fun _ hw => absurd hw List.not_mem_nil
  | rollback =>
    rw [(step_rollback h).2]
    exact fun _ hw => absurd hw List.not_mem_nil
  | raise => cases r
  | _ =>
    rw [(step_quiet rfl h).2.2]
    exact hl hnone

theorem tasks_retain (h : Reach (sem cfg) C w₀ s) (c : Nat) (hp : s.proc i = some p) :
    p.label.Retains (track (voiceMonitor c) none i s.hist) p.held ∧
      p.rest.Only fun o => alphabetOf p.label o = true :=
  h.keeps (program_only cfg) (I := Task.Retains) (fun _ _ _ hw => absurd hw List.not_mem_nil)
    (fun hstep ho hl => retains_step hstep ho hl) hp

/-- What an answer shows of the row is what the transaction sees. -/
theorem shows_mode {db : Db} {ws : Tx} {stmt : Stmt} {r : stmt.Resp} {now : Time} {seq : Nat}
    {locked : Nat → Bool} {m : Mode} (hexec : stmt.exec now seq locked db = some (r, ws))
    (hshows : shows c (.sql stmt) r = some m) : db.mode c = some m := by
  have hrow : ∀ x : Option Conversation, (∀ y, x = some y → db.conversation y.id = some y) →
      modeIn c x = some m → db.mode c = some m := by
    intro x hx hmode
    obtain ⟨y, hy, hym⟩ := Option.map_eq_some_iff.mp hmode
    obtain ⟨rfl, hid⟩ := Option.filter_eq_some_iff.mp hy
    rw [Db.mode, ← of_decide_eq_true hid, hx y rfl]
    exact congrArg some hym
  cases stmt with
  | activeForUser userId =>
    obtain ⟨rfl, -⟩ := Prod.mk.inj (Option.some.inj hexec)
    exact hrow _ (fun y hy => (Db.mem_activeFor.mp (newest_mem hy)).1) hshows
  | getConversation id =>
    obtain ⟨rfl, -⟩ := Prod.mk.inj (Option.some.inj hexec)
    exact hrow _ (fun y hy => (Db.conversation_id hy).symm ▸ hy) hshows
  | claimIdleSessions idleBefore t limit =>
    obtain ⟨rfl, -⟩ := Prod.mk.inj (Option.some.inj hexec)
    change (if List.contains _ c then some Mode.bot else none) = some m at hshows
    split at hshows
    · rename_i hin
      obtain ⟨x, hx, rfl⟩ := List.mem_map.mp (List.contains_iff_mem.mp hin)
      obtain ⟨hmem, hidle, -⟩ := Db.mem_idleCandidates hx
      rw [Db.mode, Db.conversation_of_mem hmem, ← hshows]
      exact congrArg some (of_decide_eq_true hidle).2.1
    · cases hshows
  | _ => cases hshows

/-- Who has seen the bot answering the conversation looked before the take-over. -/
def Looked (c i : Nat) (a : Option Mode) (h : History) : Prop :=
  a = some .bot → silenced c (beforeLook c i h) = false

theorem looked (h : Reach (sem cfg) C w₀ s) (hp : s.proc i = some p)
    (hl : p.label.target = none) : Looked c i (track (voiceMonitor c) none i s.hist) s.hist := by
  refine h.traced (fun l => l.target = none) (fun i h hnone => by cases hnone)
    (fun {i a e h} hi hΦ ha => ?_) (fun {s i p o k r w tx} hr hp hl _ hstep ih hseen => ?_) hp hl
  · refine hΦ ha ▸ congrArg (silenced c) ?_
    cases e with
    | op j l tx o r w => exact if_neg fun h => hi h.1
    | _ => rfl
  · change (shows c o r).or _ = some Mode.bot at hseen
    cases hshows : shows c o r with
    | none =>
      rw [hshows] at hseen
      simpa [beforeLook, hshows] using ih hseen
    | some m =>
      rw [hshows] at hseen
      obtain rfl := Option.some.inj hseen
      suffices silenced c s.hist = false by simpa [beforeLook, hshows] using this
      by_contra hsilenced
      change step cfg _ _ _ o r = _ at hstep
      cases o with
      | sql stmt =>
        obtain ⟨ws, hexec, -⟩ := step_sql hstep
        have hhuman := Db.human_applyAll
          (silenced_human hr (Bool.eq_true_of_not_eq_false hsilenced)) ((tasks_retain hr c hp).1 hl)
        cases hhuman.symm.trans (shows_mode hexec hshows)
      | _ => cases hshows

/-- **The bot is silent after a take-over**, where whoever speaks has looked at the row since. -/
theorem silent {h₁ h₂ : History} (h : Reach (sem cfg) (LookedAfter c) w₀ s)
    (hsplit : s.hist = h₁ ++ e :: h₂) (he : speaksIn c e = true) : silenced c h₂ = false := by
  obtain ⟨s₁, s₂, hr, hstep, hlooked, rfl⟩ := h.event hsplit
  cases hstep with
  | @op i p o k r w tx hp hrest hstep =>
    by_contra hsilenced
    obtain ⟨hinvites, hbefore⟩ := hlooked he (Bool.eq_true_of_not_eq_false hsilenced)
    have hseen := hr.ok (voice_discipline cfg c) hp hrest he hinvites
    have honly := (tasks_retain hr c hp).2
    rw [hrest] at honly
    have hnone : p.label.target = none := by
      cases hl : p.label with
      | webhook | metaWebhook | sweep => rfl
      | _ =>
        rw [hl] at honly
        have hmute := not_speaks_of_inOperator (c := c) honly.1
        rw [show speaks c o = true from he] at hmute
        cases hmute
    have hfalse := looked hr hp hnone hseen
    rw [hbefore] at hfalse
    cases hfalse
  | _ => cases he

def asked (id : String) : Sample.Action :=
  .spawn (.webhook (Sample.delivery [Sample.textMessage "20100" id "question"]))

/-- An operator takes the conversation over, from the first read to the announcement. -/
def takenOver : List Sample.Action :=
  [.spawn (.takeOver 5 (some "Mona") (some 1))] ++ Sample.steps 1 8 Sample.accepted ++ [.finish 1]

/-- The first message is answered, and after a take-over the second one is left to the operator. -/
theorem silent_second : ∃ s : Sys botSig World Tx Task,
    s.shared.db.replies "wamid.1" = 1 ∧ silenced 5 s.hist = true ∧
      s.shared.db.hasWaMessageId "wamid.2" = true ∧ s.shared.db.replies "wamid.2" = 0 ∧
      ∀ h₁ e h₂, s.hist = h₁ ++ e :: h₂ → speaksIn 5 e = true → silenced 5 h₂ = false := by
  obtain ⟨s, hs, hrun⟩ := Reach.exists_of_run (M := sem Sample.config) (C := LookedAfter 5)
    (w := World.empty 0)
    ([asked "wamid.1"] ++ Sample.steps 0 38 Sample.accepted ++ [.finish 0] ++ takenOver ++
      [asked "wamid.2"] ++ Sample.steps 2 8 Sample.accepted ++ [.finish 2])
    (fun s => s.shared.db.replies "wamid.1" = 1 ∧ silenced 5 s.hist = true ∧
      s.shared.db.hasWaMessageId "wamid.2" = true ∧ s.shared.db.replies "wamid.2" = 0)
    (by decide +kernel)
  obtain ⟨hfirst, hsilenced, hsecond, hnone⟩ := of_decide_eq_true hrun
  exact ⟨s, hfirst, hsilenced, hsecond, hnone, fun _ _ _ hsplit he => silent hs hsplit he⟩

/-- The bot spoke in the conversation while it was a human's. -/
def spokeOver (c : Nat) : History → Bool
  | [] => false
  | e :: h => speaksIn c e && silenced c h || spokeOver c h

theorem exists_of_spokeOver {h : History} (hs : spokeOver c h = true) :
    ∃ h₁ e h₂, h = h₁ ++ e :: h₂ ∧ speaksIn c e = true ∧ silenced c h₂ = true := by
  induction h with
  | nil => cases hs
  | cons e h ih =>
    rw [spokeOver, Bool.or_eq_true, Bool.and_eq_true] at hs
    rcases hs with ⟨he, hsilenced⟩ | hs
    · exact ⟨[], e, h, rfl, he, hsilenced⟩
    · obtain ⟨h₁, e', h₂, rfl, he, hsilenced⟩ := ih hs
      exact ⟨e :: h₁, e', h₂, rfl, he, hsilenced⟩

/-- The take-over commits while the model is generating: the answer is reserved and sent. -/
theorem spoken_over : ¬ ∀ cfg clock s, Reach (sem cfg) anyStep (World.empty clock) s →
    ∀ c h₁ e h₂, s.hist = h₁ ++ e :: h₂ → speaksIn c e = true → silenced c h₂ = false := by
  intro h
  obtain ⟨s, hs, hrun⟩ := Reach.exists_of_run (M := sem Sample.config) (C := anyStep)
    (w := World.empty 0) ([asked "wamid.1"] ++ Sample.steps 0 20 Sample.accepted ++ takenOver ++
      Sample.steps 0 9 Sample.accepted) (fun s => spokeOver 5 s.hist) (by decide +kernel)
  obtain ⟨h₁, e, h₂, hsplit, he, hsilenced⟩ := exists_of_spokeOver hrun
  rw [h _ _ s hs 5 h₁ e h₂ hsplit he] at hsilenced
  cases hsilenced

end Webhook
