import WhatsAppBot.Store.Proof.Owner
import WhatsAppBot.Webhook.Proof.Filing

/-!
# An operator's request, step by step

`requestMonitor c l` follows the request `l` about the conversation `c`: it reads the row, reopens it
when it is closed, changes what it has in memory and writes that. The monitor keeps the row as it was
read and as the request has it in memory. `request_discipline`: every request reads and writes only
its own row, writes a column of the owner only with another value than it read, and commits with the
values it is to set.
-/

set_option autoImplicit false

namespace Webhook

open Lib Store Bot Chat

/-- The conversation an operator's request is about. -/
def Task.target : Task → Option Nat
  | .takeOver id _ _ | .resumeAi id | .manualReply id _ _ => some id
  | _ => none

/-- Whose the row `r` is when the request has made `m` of it. -/
def Task.Sets (l : Task) (r m : Conversation) : Prop :=
  match l with
  | .takeOver _ operator operatorId =>
    m.mode = .human ∧ m.assignedOperator = operator ∧ m.assignedOperatorId = operatorId
  | .resumeAi _ => m.ownership = ⟨.bot, none, none, none⟩
  | _ => m = r

/-- How far an operator's request has come. -/
inductive Request where
  | unread
  /-- It reopened the row, and perhaps read it back, and has not committed that. -/
  | reviving (x : Option Conversation)
  /-- The row as it was read, and as the request has it in memory. -/
  | read (r m : Conversation)
  | ended
  deriving DecidableEq

namespace Request

def inHand : Request → Bool
  | reviving _ | read _ _ => true
  | _ => false

def fetch : Request → Option Conversation → Request
  | unread, some x => if x.status = .closed then unread else read x x
  | reviving _, some x => reviving (some x)
  | a, _ => a

def reopened (a : Request) : Option Nat → Request
  | some _ => reviving none
  | none => a

def flush (p : ModePatch) : Request → Request
  | read r m => read r (ConversationUpdate.apply m (.setMode p))
  | a => a

def commit : Request → Request
  | reviving (some x) => read x x
  | read _ _ => ended
  | a => a

end Request

def requestMonitor (c : Nat) (l : Task) : Monitor botSig Request where
  ok a o :=
    match o with
    | .sql (.getConversation id) => a = .ended ∨ (a.inHand = false ∨ a = .reviving none) ∧ id = c
    | .sql (.reopen id _) => a = .unread ∧ id = c
    | .sql (.flushMode id p) => id = c ∧ ∃ r m, a = .read r m ∧ Ownership.Differs p r.ownership
    | .commit => (∃ x, a = .reviving (some x)) ∨ ∃ r m, a = .read r m ∧ l.Sets r m
    | o => isUnfiled o = true
  next a o r :=
    match o, r with
    | .sql (.getConversation _), r => a.fetch r
    | .sql (.reopen _ _), r => a.reopened r
    | .sql (.flushMode _ p), _ => a.flush p
    | .commit, _ => a.commit
    | _, _ => a
  may
    | .sql (.getConversation id), r => ∀ x, r = some x → Conversation.id x = id
    | .sql (.reopen id _), r => ∀ x, r = some x → x = id
    | _, _ => True

/-- The operations of a request between its reads, its flushes and its commits. -/
def isUntracked : Op → Bool
  | .sql (.flushMode _ _) => false
  | o => isUnfiled o

variable {a : Request} {o : Op} {c : Nat} {l : Task} {α β : Type}

theorem plain_request (h : isUntracked o = true) :
    (requestMonitor c l).ok a o ∧ ∀ r, (requestMonitor c l).next a o r = a := by
  cases o with
  | sql s => cases s <;> first | exact ⟨rfl, fun _ => rfl⟩ | cases h
  | commit | rollback => cases h
  | _ => exact ⟨rfl, fun _ => rfl⟩

theorem plain_bind {P : BotM α} {f : α → BotM β} {Q : β → Request → Prop}
    (hP : P.Only fun o => isUntracked o = true) (hf : ∀ x, (f x).wp (requestMonitor c l) Q a) :
    (P >>= f).wp (requestMonitor c l) Q a :=
  hP.wp_bind (fun _ => plain_request) hf

theorem raise_request (e : Exn) {Q : α → Request → Prop} :
    (raise e : BotM α).wp (requestMonitor c l) Q a :=
  ⟨rfl, nofun⟩

/-! ## Requests keep to it -/

/-- A column that is written only when it differs. -/
theorem changed {b v : α} [Decidable (b = v)] : (if b = v then none else some v) ≠ some b := by
  split
  · nofun
  · rename_i hne
    exact fun h => hne (Option.some.inj h).symm

theorem modePatch_differs (x : Conversation) (mode : Mode) (operator tag : Option String)
    (handoffAt : Option Time) (activity : Time) :
    Ownership.Differs (modePatch x mode operator tag handoffAt activity) x.ownership :=
  ⟨changed, changed, nofun, changed⟩

/-- What `set_mode` makes of the owner. -/
theorem modePatch_ownership (x : Conversation) (mode : Mode) (operator tag : Option String)
    (handoffAt : Option Time) (activity : Time) :
    (ConversationUpdate.apply x
      (.setMode (modePatch x mode operator tag handoffAt activity))).ownership =
        ⟨mode, operator, x.assignedOperatorId, handoffAt⟩ := by
  simp only [ConversationUpdate.apply, modePatch, Conversation.ownership, Ownership.mk.injEq]
  refine ⟨?_, ?_, rfl, ?_⟩ <;> split <;> simp_all

/-- The flush of `set_mode` or of the account. -/
theorem flush_request {p : ModePatch} {x m : Conversation} {f : Unit → BotM α}
    {Q : α → Request → Prop} (hp : Ownership.Differs p x.ownership)
    (hf : (f ()).wp (requestMonitor x.id l) Q
      (.read x (ConversationUpdate.apply m (.setMode p)))) :
    (exec (.flushMode x.id p) >>= f).wp (requestMonitor x.id l) Q (.read x m) :=
  ⟨⟨rfl, x, m, rfl, hp⟩, fun _ _ => hf⟩

theorem setMode_request (x : Conversation) (mode : Mode) (operator tag : Option String) :
    (setMode x mode operator tag).wp (requestMonitor x.id l) (fun y a => a = .read x y ∧ y.id = x.id ∧
      y.mode = mode ∧ y.assignedOperatorId = x.assignedOperatorId ∧
      (mode = .human → y.assignedOperator = operator) ∧
      (mode = .bot → y.assignedOperator = none ∧ y.handoffAt = none)) (.read x x) := by
  cases mode with
  | human =>
    refine plain_bind (Prog.only_call.mpr rfl) fun handoffAt =>
      plain_bind (Prog.only_call.mpr rfl) fun activity =>
        flush_request (modePatch_differs x .human operator tag (some handoffAt) activity) ?_
    have howner := modePatch_ownership x .human operator tag (some handoffAt) activity
    simp only [Conversation.ownership, Ownership.mk.injEq] at howner
    exact ⟨rfl, ConversationUpdate.apply_id _ _, howner.1, howner.2.2.1, fun _ => howner.2.1, nofun⟩
  | bot =>
    refine plain_bind (Prog.only_call.mpr rfl) fun activity =>
      flush_request (modePatch_differs x .bot none tag none activity) ?_
    have howner := modePatch_ownership x .bot none tag none activity
    simp only [Conversation.ownership, Ownership.mk.injEq] at howner
    exact ⟨rfl, ConversationUpdate.apply_id _ _, howner.1, howner.2.2.1, nofun,
      fun _ => ⟨howner.2.1, howner.2.2.2⟩⟩

/-- After the account, only the account has changed. -/
theorem assignOperator_request {x y : Conversation} (hid : y.id = x.id)
    (hsame : y.assignedOperatorId = x.assignedOperatorId) (operatorId : Option Nat) :
    (Operator.assignOperator y operatorId).wp (requestMonitor x.id l)
      (fun _ a => a = .read x { y with assignedOperatorId := operatorId }) (.read x y) := by
  unfold Operator.assignOperator
  split
  · rename_i heq
    subst heq
    rfl
  · rename_i hne
    refine ⟨⟨hid, x, y, rfl, nofun, nofun, fun h => hne ?_, nofun⟩, fun _ _ => ?_⟩
    · exact hsame.trans (Option.some.inj h).symm
    · change Request.read x _ = Request.read x _
      rfl

/-- `_switch_mode`, when it leaves the owner it is to set. -/
theorem switchOpen_request (mode : Mode) (operator : Option String) (reason : String)
    (operatorId : Option Nat) (x : Conversation)
    (hsets : ∀ y : Conversation, y.mode = mode → y.assignedOperatorId = operatorId →
      (mode = .human → y.assignedOperator = operator) →
      (mode = .bot → y.assignedOperator = none ∧ y.handoffAt = none) → l.Sets x y) :
    (switchOpen mode operator reason operatorId x).wp (requestMonitor x.id l) (fun _ _ => True)
      (.read x x) := by
  unfold switchOpen
  rw [Prog.wp_bind]
  refine Prog.wp_mono (setMode_request x mode operator none) fun y a ⟨ha, hid, hmode, hsame, hop, hbot⟩ => ?_
  subst ha
  rw [Prog.wp_bind]
  refine Prog.wp_mono (assignOperator_request hid hsame operatorId) fun _ a ha => ?_
  subst ha
  refine Prog.wp_call_bind (.inr ⟨x, _, rfl, hsets _ hmode rfl hop hbot⟩) fun _ _ =>
    Prog.wp_call_bind (.inl rfl) fun z _ => ?_
  cases z with
  | none => exact raise_request _
  | some z => exact ⟨rfl, fun _ _ => trivial⟩

theorem deliverReply_request (cfg : Config) (x : Conversation) (recipient text : String)
    (operatorId : Option Nat) (hsets : l.Sets x x) :
    (Operator.deliverReply cfg x recipient text operatorId).wp (requestMonitor c l)
      (fun _ _ => True) (.read x x) := by
  refine plain_bind (Prog.only_call.mpr rfl) fun wire => ?_
  cases wire.result with
  | failed => exact raise_request _
  | broken => exact raise_request _
  | sent id =>
    refine plain_bind (Prog.only_call.mpr rfl) fun messageId => plain_bind (only_exec rfl) fun _ =>
      plain_bind (only_when ?_) fun _ =>
        Prog.wp_call_bind (.inr ⟨x, x, rfl, hsets⟩) fun _ _ => ⟨rfl, fun _ _ => trivial⟩
    exact Prog.Only.call_bind rfl fun _ => only_exec rfl

theorem replyOpen_request (cfg : Config) (text : String) (operatorId : Option Nat)
    (x : Conversation) (hsets : l.Sets x x) :
    (replyOpen cfg text operatorId x).wp (requestMonitor c l) (fun _ _ => True) (.read x x) := by
  refine replyOpen_wp (I := fun a => a = .read x x) (fun {b o} hb ho => ?_) (fun recipient hb => ?_) rfl
  · have hplain : isUntracked o = true := by
      cases o with
      | sql s => cases s <;> first | rfl | cases ho
      | _ => first | rfl | cases ho
    exact ⟨(plain_request hplain).1, fun r _ => ((plain_request hplain).2 r).trans hb⟩
  · rw [hb]
    exact deliverReply_request cfg x recipient text operatorId hsets

theorem onOpenRow_request {rest : Conversation → BotM Unit}
    (h : ∀ x : Conversation, x.id = c →
      (rest x).wp (requestMonitor c l) (fun _ _ => True) (.read x x)) :
    (onOpenRow c rest).wp (requestMonitor c l) (fun _ _ => True) .unread := by
  refine Prog.wp_call_bind (.inr ⟨.inl rfl, rfl⟩) fun x hx => ?_
  cases x with
  | none => exact raise_request _
  | some x =>
    obtain rfl : x.id = c := hx x rfl
    unfold Operator.reviveForOperator
    dsimp only
    split
    · rename_i hopen
      have hread : (requestMonitor x.id l).next .unread (.sql (.getConversation x.id)) (some x) =
          .read x x := if_neg hopen
      rw [hread]
      exact h x rfl
    · rename_i hclosed
      have hread : (requestMonitor x.id l).next .unread (.sql (.getConversation x.id)) (some x) =
          .unread := if_pos (not_not.mp hclosed)
      rw [hread, Prog.wp_bind, Prog.wp_bind]
      refine plain_bind (Prog.only_call.mpr rfl) fun moment =>
        Prog.wp_call_bind ⟨rfl, rfl⟩ fun r hr => ?_
      cases r with
      | none => exact raise_request _
      | some id =>
        obtain rfl : id = x.id := hr id rfl
        refine ⟨.inr ⟨.inr rfl, rfl⟩, fun y hy => ?_⟩
        cases y with
        | none => exact raise_request _
        | some y =>
          refine Prog.wp_call_bind (.inl ⟨y, rfl⟩) fun _ _ =>
            plain_bind (Prog.only_call.mpr rfl) fun _ => h y (hy y rfl)

/-- **Every request keeps to it**, with the conversation it is about. -/
theorem request_discipline (cfg : Config) (h : l.target = some c) :
    (program cfg l).wp (requestMonitor c l) (fun _ _ => True) .unread := by
  cases l with
  | takeOver id operator operatorId =>
    obtain rfl := Option.some.inj h
    refine onOpenRow_request fun x hx => ?_
    subst hx
    exact switchOpen_request .human operator _ operatorId x fun y hmode hid hop _ =>
      ⟨hmode, hop rfl, hid⟩
  | resumeAi id =>
    obtain rfl := Option.some.inj h
    refine onOpenRow_request fun x hx => ?_
    subst hx
    refine switchOpen_request .bot none _ none x fun y hmode hid _ hbot => ?_
    simp [Task.Sets, Conversation.ownership, hmode, hid, hbot rfl]
  | manualReply id text operatorId =>
    obtain rfl := Option.some.inj h
    exact onOpenRow_request fun x _ => replyOpen_request cfg text operatorId x rfl
  | _ => cases h

theorem request_may {cfg : Config} {w : World} {tx : Tx} {others : List Tx} {o : Op} {r : o.Resp}
    {x : World × Tx} (h : (sem cfg).step others w tx o r = some x) :
    (requestMonitor c l).may o r := by
  obtain ⟨w', tx'⟩ := x
  change step cfg others w tx o r = some (w', tx') at h
  cases o with
  | sql st =>
    cases st with
    | getConversation id =>
      obtain ⟨ws, hexec, -⟩ := step_sql h
      intro y hy
      exact Db.conversation_id ((congrArg Prod.fst (Option.some.inj hexec)).trans hy)
    | reopen id t =>
      obtain ⟨ws, hexec, -⟩ := step_sql h
      intro d hd
      subst hd
      simp only [Stmt.exec] at hexec
      split at hexec
      · rename_i y hy
        have hrevived := congrArg Prod.fst (Option.some.inj hexec)
        unfold revive at hrevived
        split at hrevived
        · exact (Option.some.inj hrevived).symm.trans (Db.conversation_id hy)
        · cases hrevived
      · cases (Prod.mk.inj (Option.some.inj hexec)).1
    | _ => trivial
  | _ => trivial

end Webhook
