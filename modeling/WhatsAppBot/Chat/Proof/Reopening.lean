import Mathlib.Algebra.Order.Group.Basic
import Mathlib.Algebra.Order.Group.Int
import WhatsAppBot.Lib.Exec
import WhatsAppBot.Store.Proof.Row
import WhatsAppBot.Webhook.Sample

/-!
# Which session a returning customer gets

A customer without an open session resumes the one closed last, if the reopen window still holds it,
and opens a new one otherwise (`context_cases`). `new_session_after_hours` was meant as a second
bound; nothing reads it, and the property that reconciles the two widens it to the window
(`window_le_newSessionAfter`). So the bound holds exactly while no session between the two ages is
there to be resumed (`bounded_iff`).
-/

set_option autoImplicit false

namespace Chat

open Lib Store Bot Webhook

/-! ## The settings -/

structure ReopenSettings where
  conversationReopenWindowMinutes : Int
  newSessionAfterHours : Int

namespace ReopenSettings

def minute : Time := 60 * 1000000

def hour : Time := 60 * minute

/-- `conversation_reopen_window`. -/
def conversationReopenWindow (r : ReopenSettings) : Time :=
  max 0 r.conversationReopenWindowMinutes * minute

/-- `new_session_after`. -/
def newSessionAfter (r : ReopenSettings) : Time :=
  max (max 0 r.newSessionAfterHours * hour) r.conversationReopenWindow

theorem window_le_newSessionAfter (r : ReopenSettings) :
    r.conversationReopenWindow ≤ r.newSessionAfter := le_max_right _ _

/-- The smaller of the two settings. -/
def bound (r : ReopenSettings) : Time :=
  min r.conversationReopenWindow (max 0 r.newSessionAfterHours * hour)

end ReopenSettings

/-! ## What a message did -/

/-- The message opened the session. -/
def OpenedNew (tr : List (Obs botSig)) (id : Nat) : Prop :=
  ∃ userId channel, ⟨.sql (.insertConversation userId channel), some id⟩ ∈ tr

/-- The message revived the closed session. -/
def Resumed (tr : List (Obs botSig)) (id : Nat) : Prop :=
  ∃ userId notBefore t, ⟨.sql (.reopenRecent userId notBefore t), some id⟩ ∈ tr

/-- The first reading of the clock. -/
def reading : List (Obs botSig) → Option Time
  | [] => none
  | ⟨.now, t⟩ :: _ => some t
  | _ :: tr => reading tr

variable {cfg : Config} {w w' : World} {tx tx' : Tx} {tr : List (Obs botSig)} {c d : Conversation}
  {userId id : Nat} {channel : Channel} {window : Option Time}

/-- An operation that looks for a session to resume, or opens one. -/
def seeksSession : Op → Bool
  | .sql (.insertConversation _ _) | .sql (.reopenRecent _ _ _) => true
  | _ => false

theorem openedNew_cons {x : Obs botSig} (hx : seeksSession x.1 = false) :
    OpenedNew (x :: tr) id ↔ OpenedNew tr id := by
  constructor
  · rintro ⟨u, ch, h⟩
    rcases List.mem_cons.mp h with rfl | h
    · cases hx
    · exact ⟨u, ch, h⟩
  · rintro ⟨u, ch, h⟩
    exact ⟨u, ch, List.mem_cons_of_mem _ h⟩

theorem resumed_cons {x : Obs botSig} (hx : seeksSession x.1 = false) :
    Resumed (x :: tr) id ↔ Resumed tr id := by
  constructor
  · rintro ⟨u, b, t, h⟩
    rcases List.mem_cons.mp h with rfl | h
    · cases hx
    · exact ⟨u, b, t, h⟩
  · rintro ⟨u, b, t, h⟩
    exact ⟨u, b, t, List.mem_cons_of_mem _ h⟩

theorem resumed_insert {r : Option Nat} :
    Resumed (⟨.sql (.insertConversation userId channel), r⟩ :: tr) id ↔ Resumed tr id := by
  constructor
  · rintro ⟨u, b, t, h⟩
    rcases List.mem_cons.mp h with h | h
    · cases h
    · exact ⟨u, b, t, h⟩
  · rintro ⟨u, b, t, h⟩
    exact ⟨u, b, t, List.mem_cons_of_mem _ h⟩

theorem resumed_reopen {notBefore t : Time} {r : Option Nat} :
    Resumed (⟨.sql (.reopenRecent userId notBefore t), r⟩ :: tr) id ↔ r = some id ∨ Resumed tr id := by
  constructor
  · rintro ⟨u, b, t, h⟩
    rcases List.mem_cons.mp h with h | h
    · cases h
      exact .inl rfl
    · exact .inr ⟨u, b, t, h⟩
  · rintro (rfl | ⟨u, b, t, h⟩)
    · exact ⟨userId, notBefore, t, List.mem_cons_self⟩
    · exact ⟨u, b, t, List.mem_cons_of_mem _ h⟩

theorem not_resumed_nil : ¬Resumed [] id := fun ⟨_, _, _, h⟩ => nomatch h

/-! ## Opening a session -/

theorem performed_returned {α : Type} {o : Op} {k : o.Resp → BotM α} {x : α}
    (h : Exec (sem cfg) w tx (.op o k) tr (.returned x) w' tx') :
    ∃ r w₁ tx₁ tr₁, tr = ⟨o, r⟩ :: tr₁ ∧ step cfg [] w tx o r = some (w₁, tx₁) ∧
      Exec (sem cfg) w₁ tx₁ (k r) tr₁ (.returned x) w' tx' :=
  h.op_inv

theorem exec_insertConversation {now : Time} {seq : Nat} {locked : Nat → Bool} {db : Db}
    {r : Option Nat} {ws : List Write} (hreturning : db.activeFor userId = [])
    (h : (Stmt.insertConversation userId channel).exec now seq locked db = some (r, ws)) :
    r = some seq ∧ ∃ c, c.id = seq ∧ (db.applyAll ws).conversation seq = some c := by
  simp only [Stmt.exec, hreturning, ne_eq, not_true_eq_false, if_false] at h
  split at h
  · rename_i huser
    obtain ⟨rfl, rfl⟩ := Prod.mk.inj (Option.some.inj h)
    obtain ⟨u, hu, hid⟩ := List.any_eq_true.mp huser
    have hfound : ((db.applyAll [.insertConversation (newConversation seq userId channel now)]).conversation
        seq).isSome = true := by
      change ((db.insertConversation _).conversation seq).isSome = true
      rw [Db.insertConversation, dif_pos ⟨u, hu, of_decide_eq_true hid⟩]
      change (Lib.Table.find _ seq).isSome = true
      rw [Lib.Table.find_insert]
      simp [newConversation]
    obtain ⟨c, hc⟩ := Option.isSome_iff_exists.mp hfound
    exact ⟨rfl, c, Db.conversation_id hc, hc⟩
  · cases h

theorem openNew_opened (hreturning : (w.db.applyAll tx).activeFor userId = [])
    (h : Exec (sem cfg) w tx (openNew userId channel) tr (.returned c) w' tx') :
    OpenedNew tr c.id ∧ ∀ id, ¬Resumed tr id := by
  obtain ⟨created, w₁, tx₁, tr, rfl, hs, h⟩ := performed_returned h
  obtain ⟨ws, hexec, -, hdb, -, rfl⟩ := step_sql hs
  obtain ⟨rfl, d, hid, hd⟩ := exec_insertConversation hreturning hexec
  obtain ⟨row, w₂, tx₂, tr, rfl, hs, h⟩ := performed_returned h
  obtain ⟨_, hexec, -⟩ := step_sql hs
  have hrow := (Prod.mk.inj (Option.some.inj hexec)).1
  rw [hdb, Db.applyAll_append, hd] at hrow
  subst hrow
  cases h with
  | ret =>
    refine ⟨⟨userId, channel, ?_⟩, fun id => ?_⟩
    · rw [hid]
      exact List.mem_cons_self
    · rw [resumed_insert, resumed_cons rfl]
      exact not_resumed_nil

/-- What the reopen window holds for the customer at an instant. -/
def resumable (db : Db) (userId : Nat) (window moment : Time) : Option Conversation :=
  db.reopenCandidate userId (moment - window)

theorem mem_resumable {db : Db} {size moment : Time} (h : resumable db userId size moment = some d) :
    d ∈ db.conversations.rows ∧ d.userId = userId ∧ d.status = .closed ∧
      ∃ closedAt, d.closedAt = some closedAt ∧ moment - size ≤ closedAt := by
  obtain ⟨hmem, hd⟩ := List.mem_filter.mp (newest_mem h)
  obtain ⟨huser, hclosed, hat⟩ := of_decide_eq_true hd
  obtain ⟨closedAt, hsome, hle⟩ := (Option.any_eq_true _ _).mp hat
  exact ⟨hmem, huser, hclosed, closedAt, hsome, of_decide_eq_true hle⟩

theorem exec_reopenRecent {now notBefore t : Time} {seq : Nat} {locked : Nat → Bool} {db : Db}
    {r : Option Nat} {ws : List Write} (hreturning : db.activeFor userId = [])
    (h : (Stmt.reopenRecent userId notBefore t).exec now seq locked db = some (r, ws)) :
    r = (db.reopenCandidate userId notBefore).map (·.id) ∧ (r = none → ws = []) := by
  simp only [Stmt.exec] at h
  split at h
  · rename_i d hd
    obtain ⟨hmem, hd'⟩ := List.mem_filter.mp (newest_mem hd)
    obtain ⟨rfl, hclosed, -⟩ := of_decide_eq_true hd'
    rw [revive, if_pos ⟨hclosed, hreturning⟩] at h
    obtain ⟨rfl, -⟩ := Prod.mk.inj (Option.some.inj h)
    rw [hd]
    exact ⟨rfl, fun hno => by cases hno⟩
  · rename_i hnone
    obtain ⟨rfl, rfl⟩ := Prod.mk.inj (Option.some.inj h)
    rw [hnone]
    exact ⟨rfl, fun _ => rfl⟩

/-- The two readings of the clock and the query in front of a resumed session. -/
theorem resumeRecent_performed {size : Time} {k : Option Conversation → BotM Conversation}
    (hreturning : (w.db.applyAll tx).activeFor userId = [])
    (h : Exec (sem cfg) w tx (resumeRecent userId (some size) >>= k) tr (.returned c) w' tx') :
    ∃ moment t w₁ tx₁ tr₁, tr = ⟨.now, moment⟩ :: ⟨.now, t⟩ :: ⟨.sql (.reopenRecent userId
        (moment - size) t), (resumable (w.db.applyAll tx) userId size moment).map (·.id)⟩ :: tr₁ ∧
      w₁.db = w.db ∧ match resumable (w.db.applyAll tx) userId size moment with
        | none => tx₁ = tx ∧ Exec (sem cfg) w₁ tx₁ (k none) tr₁ (.returned c) w' tx'
        | some d => (∃ ws, tx₁ = tx ++ ws) ∧
            Exec (sem cfg) w₁ tx₁ (getConversation d.id >>= k) tr₁ (.returned c) w' tx' := by
  obtain ⟨moment, w₁, tx₁, tr, rfl, hs, h₁⟩ := performed_returned h
  obtain ⟨hdb₁, -, htx₁⟩ := step_quiet rfl hs
  obtain ⟨t, w₂, tx₂, tr, rfl, hs, h₂⟩ := performed_returned h₁
  obtain ⟨hdb₂, -, htx₂⟩ := step_quiet rfl hs
  obtain ⟨revived, w₃, tx₃, tr, rfl, hs, h₃⟩ := performed_returned h₂
  obtain ⟨ws, hexec, -, hdb₃, -, htx₃⟩ := step_sql hs
  have hsees : w₂.db.applyAll tx₂ = w.db.applyAll tx := by rw [hdb₂, hdb₁, htx₂, htx₁]
  rw [hsees] at hexec
  obtain ⟨hrevived, hws⟩ := exec_reopenRecent hreturning hexec
  subst hrevived
  refine ⟨moment, t, w₃, tx₃, tr, rfl, hdb₃.trans (hdb₂.trans hdb₁), ?_⟩
  change match resumable (w.db.applyAll tx) userId size moment with
    | none => _
    | some d => _
  unfold resumable at *
  cases hd : (w.db.applyAll tx).reopenCandidate userId (moment - size) with
  | none =>
    rw [hd] at hws h₃
    rw [hws rfl, List.append_nil, htx₂, htx₁] at htx₃
    exact ⟨htx₃, h₃⟩
  | some d =>
    rw [hd] at h₃
    exact ⟨⟨ws, by rw [htx₃, htx₂, htx₁]⟩, h₃⟩

/-- **A customer without an open session** resumes what the window holds, or opens a session. -/
theorem getOrCreateActive_cases (hreturning : (w.db.applyAll tx).activeFor userId = [])
    (h : Exec (sem cfg) w tx (getOrCreateActive userId window channel) tr (.returned c) w' tx') :
    (window = none ∧ OpenedNew tr c.id ∧ ∀ id, ¬Resumed tr id) ∨
      ∃ size moment, window = some size ∧ reading tr = some moment ∧
        match resumable (w.db.applyAll tx) userId size moment with
        | none => OpenedNew tr c.id ∧ ∀ id, ¬Resumed tr id
        | some d => c.id = d.id ∧ ∀ id, Resumed tr id ↔ id = d.id := by
  obtain ⟨found, w₁, tx₁, tr, rfl, hs, h₁⟩ := performed_returned h
  obtain ⟨_, hexec, -, hdb, -, htx₁⟩ := step_sql hs
  obtain ⟨hfound, rfl⟩ := Prod.mk.inj (Option.some.inj hexec)
  rw [hreturning] at hfound
  subst hfound
  have hsees : w₁.db.applyAll tx₁ = w.db.applyAll tx := by rw [hdb, htx₁, List.append_nil]
  have hreturning₁ : (w₁.db.applyAll tx₁).activeFor userId = [] := hsees ▸ hreturning
  change Exec _ _ _ (resumeRecent userId window >>= _) _ _ _ _ at h₁
  cases window with
  | none =>
    obtain ⟨hopened, hresumed⟩ := openNew_opened hreturning₁ h₁
    refine .inl ⟨rfl, (openedNew_cons rfl).mpr hopened, fun id => ?_⟩
    rw [resumed_cons rfl]
    exact hresumed id
  | some size =>
    obtain ⟨moment, t, w₂, tx₂, tr, rfl, hdb₂, h₂⟩ := resumeRecent_performed hreturning₁ h₁
    refine .inr ⟨size, moment, rfl, rfl, ?_⟩
    rw [hsees] at h₂ ⊢
    cases hd : resumable (w.db.applyAll tx) userId size moment with
    | none =>
      rw [hd] at h₂
      obtain ⟨htx₂, h₂⟩ := h₂
      have hreturning₂ : (w₂.db.applyAll tx₂).activeFor userId = [] := by
        rw [hdb₂, htx₂]
        exact hreturning₁
      obtain ⟨hopened, hresumed⟩ := openNew_opened hreturning₂ h₂
      obtain ⟨u, ch, hmem⟩ := hopened
      refine ⟨⟨u, ch, by simp [hmem]⟩, fun id => ?_⟩
      rw [resumed_cons rfl, resumed_cons rfl, resumed_cons rfl, resumed_reopen]
      exact not_or.mpr ⟨nofun, hresumed id⟩
    | some d =>
      rw [hd] at h₂
      obtain ⟨⟨ws, htx₂⟩, h₂⟩ := h₂
      obtain ⟨row, w₃, tx₃, tr, rfl, hs, h₃⟩ := performed_returned h₂
      obtain ⟨_, hexec, -⟩ := step_sql hs
      have hrow := (Prod.mk.inj (Option.some.inj hexec)).1
      have hmem := Db.conversation_of_mem (mem_resumable hd).1
      rw [htx₂, hdb₂, Db.applyAll_append, hsees, Db.conversation_applyAll hmem] at hrow
      subst hrow
      cases h₃ with
      | ret =>
        refine ⟨Tx.on_id _ _ _, fun id => ?_⟩
        rw [resumed_cons rfl, resumed_cons rfl, resumed_cons rfl, resumed_reopen, resumed_cons rfl,
          or_iff_left not_resumed_nil]
        simp [eq_comm]

/-! ## The whole path of a message -/

/-- Whom a message is from. -/
def customerOf (db : Db) (channel : Channel) (externalId : String) : Option User :=
  if channel = .whatsapp then db.users.find? fun u => u.waId = some externalId
  else db.users.find? fun u => u.channel = channel ∧ u.externalId = externalId

variable {u : User} {externalId : String} {name : Option String} {tr' : List (Obs botSig)}

/-- Two traces that tell the same of the session. -/
structure SameSession (tr tr' : List (Obs botSig)) : Prop where
  opened : ∀ id, OpenedNew tr id ↔ OpenedNew tr' id
  resumed : ∀ id, Resumed tr id ↔ Resumed tr' id
  clock : reading tr = reading tr'

theorem SameSession.cons {x : Obs botSig} (h : SameSession tr tr') (hx : seeksSession x.1 = false)
    (hclock : reading (x :: tr) = reading tr) : SameSession (x :: tr) tr' :=
  ⟨fun id => (openedNew_cons hx).trans (h.opened id), fun id => (resumed_cons hx).trans (h.resumed id),
    hclock.trans h.clock⟩

theorem renameUser_performed {k : User → BotM Conversation}
    (h : Exec (sem cfg) w [] (renameUser u name >>= k) tr (.returned c) w' tx') :
    ∃ v w₁ tx₁ tr₁, v.id = u.id ∧ SameSession tr tr₁ ∧
      (w₁.db.applyAll tx₁).conversations = w.db.conversations ∧
      Exec (sem cfg) w₁ tx₁ (k v) tr₁ (.returned c) w' tx' := by
  have hpure : ∀ {tr}, Exec (sem cfg) w [] (k u) tr (.returned c) w' tx' → ∃ v w₁ tx₁ tr₁, v.id = u.id ∧
      SameSession tr tr₁ ∧ (w₁.db.applyAll tx₁).conversations = w.db.conversations ∧
      Exec (sem cfg) w₁ tx₁ (k v) tr₁ (.returned c) w' tx' := fun {tr} h =>
    ⟨u, w, [], tr, rfl, ⟨fun _ => Iff.rfl, fun _ => Iff.rfl, rfl⟩, rfl, h⟩
  cases name with
  | none => exact hpure h
  | some n =>
    unfold renameUser at h
    dsimp only at h
    split at h
    · obtain ⟨_, w₁, tx₁, tr₁, rfl, hs, h⟩ := performed_returned h
      obtain ⟨ws, hexec, -, hdb, -, rfl⟩ := step_sql hs
      obtain ⟨-, rfl⟩ := Prod.mk.inj (Option.some.inj hexec)
      refine ⟨{ u with name := some n }, w₁, [.setUserName u.id n], tr₁, rfl, ?_, ?_, h⟩
      · exact SameSession.cons ⟨fun _ => Iff.rfl, fun _ => Iff.rfl, rfl⟩ rfl rfl
      · rw [hdb]
        rfl
    · exact hpure h

/-- A known customer's message comes to `get_or_create_active`. -/
theorem context_performed (hu : customerOf w.db channel externalId = some u)
    (h : Exec (sem cfg) w [] (context cfg channel externalId name) tr (.returned c) w' tx') :
    ∃ w₁ tx₁ tr₁, SameSession tr tr₁ ∧
      (w₁.db.applyAll tx₁).conversations = w.db.conversations ∧
      Exec (sem cfg) w₁ tx₁ (getOrCreateActive u.id (reopenWithin cfg) channel) tr₁ (.returned c)
        w' tx' := by
  have hrename : ∀ {w₁ tr₁}, w₁.db = w.db →
      Exec (sem cfg) w₁ [] (renameUser u name >>= fun v =>
        getOrCreateActive v.id (reopenWithin cfg) channel) tr₁ (.returned c) w' tx' →
      ∃ w₂ tx₂ tr₂, SameSession tr₁ tr₂ ∧
        (w₂.db.applyAll tx₂).conversations = w.db.conversations ∧
        Exec (sem cfg) w₂ tx₂ (getOrCreateActive u.id (reopenWithin cfg) channel) tr₂ (.returned c)
          w' tx' := by
    intro w₁ tr₁ hdb h
    obtain ⟨v, w₂, tx₂, tr₂, hid, hsame, hconversations, h⟩ := renameUser_performed h
    rw [hid] at h
    exact ⟨w₂, tx₂, tr₂, hsame, hconversations.trans (congrArg Db.conversations hdb), h⟩
  unfold context at h
  unfold customerOf at hu
  split at h
  · rename_i hchannel
    subst hchannel
    rw [if_pos rfl] at hu
    obtain ⟨found, w₁, tx₁, tr₁, rfl, hs, h⟩ := performed_returned h
    obtain ⟨ws, hexec, -, hdb, -, rfl⟩ := step_sql hs
    obtain ⟨hfound, rfl⟩ := Prod.mk.inj (Option.some.inj hexec)
    obtain rfl : some u = found := hu.symm.trans hfound
    obtain ⟨w₂, tx₂, tr₂, hsame, hconversations, h⟩ := hrename hdb h
    exact ⟨w₂, tx₂, tr₂, hsame.cons rfl rfl, hconversations, h⟩
  · rename_i hchannel
    rw [if_neg hchannel] at hu
    obtain ⟨found, w₁, tx₁, tr₁, rfl, hs, h⟩ := performed_returned h
    obtain ⟨ws, hexec, -, hdb, -, rfl⟩ := step_sql hs
    obtain ⟨hfound, rfl⟩ := Prod.mk.inj (Option.some.inj hexec)
    obtain rfl : some u = found := hu.symm.trans hfound
    obtain ⟨w₂, tx₂, tr₂, hsame, hconversations, h⟩ := hrename hdb h
    exact ⟨w₂, tx₂, tr₂, hsame.cons rfl rfl, hconversations, h⟩

/-- The session resumed was closed within the bound; without one, a session was opened. -/
def WithinBound (r : ReopenSettings) (db : Db) (tr : List (Obs botSig)) (id : Nat) (moment : Time) :
    Prop :=
  (∀ d ∈ db.conversations.rows, Resumed tr d.id →
    ∃ closedAt, d.closedAt = some closedAt ∧ moment - closedAt ≤ r.bound) ∧
  ((∀ id, ¬Resumed tr id) → OpenedNew tr id)

/-- The reopen window still holds the session closed last, which `new_session_after_hours` does
not. -/
def Overdue (cfg : Config) (r : ReopenSettings) (db : Db) (userId : Nat) (moment : Time) : Prop :=
  cfg.session.enableConversationSession = true ∧ 0 < r.conversationReopenWindow ∧
    ∃ d closedAt, resumable db userId r.conversationReopenWindow moment = some d ∧
      d.closedAt = some closedAt ∧ max 0 r.newSessionAfterHours * ReopenSettings.hour < moment - closedAt

/-- **The bound holds exactly when no session is overdue.** -/
theorem bounded_iff {r : ReopenSettings} {moment : Time}
    (hwindow : cfg.session.conversationReopenWindow = r.conversationReopenWindow)
    (hu : customerOf w.db channel externalId = some u) (hreturning : w.db.activeFor u.id = [])
    (h : Exec (sem cfg) w [] (context cfg channel externalId name) tr (.returned c) w' tx')
    (hmoment : ∀ t, reading tr = some t → t = moment) :
    WithinBound r w.db tr c.id moment ↔ ¬Overdue cfg r w.db u.id moment := by
  obtain ⟨w₁, tx₁, tr₁, hsame, hconversations, h⟩ := context_performed hu h
  have hreturning₁ : (w₁.db.applyAll tx₁).activeFor u.id = [] := by
    rw [Db.activeFor, hconversations]
    exact hreturning
  have hresumable : ∀ size, resumable (w₁.db.applyAll tx₁) u.id size moment =
      resumable w.db u.id size moment := by
    intro size
    rw [resumable, resumable, Db.reopenCandidate, Db.reopenCandidate, hconversations]
  simp only [WithinBound, hsame.opened, hsame.resumed]
  rw [hsame.clock] at hmoment
  rcases getOrCreateActive_cases hreturning₁ h with ⟨hoff, hopened, hresumed⟩ |
    ⟨size, t, hon, hreading, hcase⟩
  · refine iff_of_true ⟨fun d _ hd => absurd hd (hresumed _), fun _ => hopened⟩ ?_
    rintro ⟨henabled, hpos, -⟩
    rw [reopenWithin, if_pos ⟨henabled, hwindow ▸ hpos⟩] at hoff
    cases hoff
  · obtain rfl := hmoment t hreading
    have hsize : cfg.session.enableConversationSession = true ∧ 0 < r.conversationReopenWindow ∧
        size = r.conversationReopenWindow := by
      unfold reopenWithin at hon
      split at hon
      · rename_i hcond
        exact ⟨hcond.1, hwindow ▸ hcond.2, (Option.some.inj hon).symm.trans hwindow⟩
      · cases hon
    obtain ⟨henabled, hpos, rfl⟩ := hsize
    rw [hresumable] at hcase
    cases hd : resumable w.db u.id r.conversationReopenWindow t with
    | none =>
      rw [hd] at hcase
      refine iff_of_true ⟨fun d _ hd => absurd hd (hcase.2 _), fun _ => hcase.1⟩ ?_
      rintro ⟨-, -, d, closedAt, hd', -⟩
      exact nomatch hd.symm.trans hd'
    | some d =>
      rw [hd] at hcase
      obtain ⟨hid, hresumed⟩ := hcase
      obtain ⟨hmem, -, -, closedAt, hat, hle⟩ := mem_resumable hd
      constructor
      · rintro ⟨hbound, -⟩ ⟨-, -, x, at', hx, hat', hlate⟩
        obtain rfl := Option.some.inj (hd.symm.trans hx)
        obtain ⟨at'', hat'', hwithin⟩ := hbound d hmem ((hresumed _).mpr rfl)
        obtain rfl := Option.some.inj (hat'.symm.trans hat'')
        exact absurd (hwithin.trans (min_le_right _ _)) (not_le.mpr hlate)
      · intro hfresh
        refine ⟨fun x hx hxr => ?_, fun hnone => absurd ((hresumed _).mpr rfl) (hnone d.id)⟩
        have hxd : x = d := by
          have hfound := Lib.Table.find_of_mem hx
          rw [(hresumed _).mp hxr, Lib.Table.find_of_mem hmem] at hfound
          exact (Option.some.inj hfound).symm
        subst hxd
        refine ⟨closedAt, hat, le_min (sub_le_comm.mp hle) (not_lt.mp fun hlate => ?_)⟩
        exact hfresh ⟨henabled, hpos, x, closedAt, hd, hat, hlate⟩

/-! ## A customer who comes back after two hours -/

namespace Sample

/-- Three hours to come back. -/
def patientConfig : Config :=
  { Webhook.Sample.config with
    session := { Webhook.Sample.session with
      conversationReopenWindow := 180 * ReopenSettings.minute } }

def customer : User := ⟨0, .whatsapp, "20100", some "20100", none⟩

def closedAtZero : Conversation :=
  ConversationUpdate.apply (newConversation 1 0 .whatsapp 0) (.close 0)

def twoHours : Time := 2 * ReopenSettings.hour

def returning : World :=
  ⟨Db.empty.applyAll [.insertUser customer, .insertConversation (newConversation 1 0 .whatsapp 0),
    .updateConversation 1 0 (.close 0)], twoHours, 2⟩

def revived : Conversation := ConversationUpdate.apply closedAtZero (.revive twoHours)

def resuming : List (Obs botSig) :=
  [⟨.sql (.getByWaId "20100"), some customer⟩, ⟨.sql (.activeForUser 0), none⟩, ⟨.now, twoHours⟩,
    ⟨.now, twoHours⟩, ⟨.sql (.reopenRecent 0 (twoHours - 180 * ReopenSettings.minute) twoHours), some 1⟩,
    ⟨.sql (.getConversation 1), some revived⟩]

/-- The message resumes the session. -/
theorem resuming_run : Exec (sem patientConfig) returning []
    (context patientConfig .whatsapp "20100" none) resuming (.returned revived)
    { returning with seq := 6 } [.updateConversation 1 0 (.revive twoHours)] :=
  .op rfl (.op rfl (.op rfl (.op rfl (.op rfl (.op rfl .ret)))))

end Sample

/-- A bound of a day is kept. -/
theorem bounded_day :
    WithinBound ⟨180, 24⟩ Sample.returning.db Sample.resuming 1 Sample.twoHours := by
  have hcustomer : customerOf Sample.returning.db .whatsapp "20100" = some Sample.customer := rfl
  have hreturning : Sample.returning.db.activeFor Sample.customer.id = [] := rfl
  refine (bounded_iff rfl hcustomer hreturning Sample.resuming_run
    fun t ht => (Option.some.inj ht).symm).mpr ?_
  rintro ⟨-, -, d, closedAt, hd, hat, hlate⟩
  have hfound : resumable Sample.returning.db 0 (180 * ReopenSettings.minute) Sample.twoHours =
      some Sample.closedAtZero := by decide +kernel
  obtain rfl := Option.some.inj (hfound.symm.trans hd)
  obtain rfl := Option.some.inj hat
  exact absurd hlate (by decide)

/-- **A bound of one hour does not keep the customer from a session closed two hours ago.** -/
theorem resumed_overdue : ¬∀ (cfg : Config) (r : ReopenSettings) (w w' : World) (channel : Channel)
    (externalId : String) (u : User) (name : Option String) (tr : List (Obs botSig)) (tx' : Tx)
    (c : Conversation) (moment : Time),
    cfg.session.conversationReopenWindow = r.conversationReopenWindow →
    customerOf w.db channel externalId = some u → w.db.activeFor u.id = [] →
    Exec (sem cfg) w [] (context cfg channel externalId name) tr (.returned c) w' tx' →
    (∀ t, reading tr = some t → t = moment) → WithinBound r w.db tr c.id moment := by
  intro hclaim
  have hbound := (hclaim Sample.patientConfig ⟨180, 1⟩ _ _ .whatsapp "20100" Sample.customer none
    Sample.resuming _ _ Sample.twoHours rfl rfl rfl Sample.resuming_run
    fun t ht => (Option.some.inj ht).symm).1
  obtain ⟨closedAt, hat, hle⟩ := hbound Sample.closedAtZero (by decide +kernel)
    ⟨0, _, _, List.mem_of_getElem? (i := 4) rfl⟩
  obtain rfl := Option.some.inj hat
  exact absurd hle (by decide)

end Chat
