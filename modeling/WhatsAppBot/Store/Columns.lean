import WhatsAppBot.Store.Proof.Writes

/-!
# The columns' widths

The `String(n)` columns of `User` and `Message`. The server takes at most `n` characters in one, so a
row that is not `InSchema` is refused; a statement is `InSchema` if it writes no such row.
-/

set_option autoImplicit false

namespace Store

/-- A nullable `String(n)`. -/
def Within (n : Nat) (value : Option String) : Prop := ∀ s ∈ value, s.length ≤ n

structure User.InSchema (u : User) : Prop where
  externalId : u.externalId.length ≤ 64
  waId : Within 32 u.waId
  name : Within 255 u.name

structure Message.InSchema (m : Message) : Prop where
  waMessageId : Within 128 m.waMessageId
  replyToWaMessageId : Within 128 m.replyToWaMessageId
  type : m.type.length ≤ 20
  mediaId : Within 128 m.mediaId
  status : Within 20 m.status

/-- What the write puts into the users and the messages. -/
def Write.InSchema : Write → Prop
  | .insertUser u => u.InSchema
  | .setUserName _ name => name.length ≤ 255
  | .insertMessage m => m.InSchema
  | _ => True

def Stmt.InSchema (s : Stmt) : Prop :=
  ∀ now seq locked db r ws, s.exec now seq locked db = some (r, ws) → ∀ w ∈ ws, w.InSchema

@[simp] theorem within_none (n : Nat) : Within n none := nofun

@[simp] theorem within_some {n : Nat} {s : String} : Within n (some s) ↔ s.length ≤ n := by
  simp [Within]

/-! ## What each statement writes -/

/-- The statements that insert into these tables, or rename. -/
def Stmt.inserts : Stmt → Bool
  | .insertUser _ _ | .insertChannelUser _ _ _ | .setUserName _ _ | .claimInbound _ _ _ _ _
  | .reserveReply _ _ _ _ | .create _ _ _ _ => true
  | _ => false

theorem Stmt.inSchema_of_not_inserts {s : Stmt} (h : s.inserts = false) : s.InSchema := by
  intro now seq locked db r ws hexec w hw
  have hmade := Stmt.exec_made hexec hw
  cases w with
  | insertUser u => rcases hmade with ⟨_, _, rfl⟩ | ⟨_, _, _, rfl⟩ <;> cases h
  | setUserName id name => cases hmade; cases h
  | insertMessage m =>
    rcases hmade with ⟨_, _, _, _, rfl, -⟩ | ⟨_, _, _, rfl, -⟩ | ⟨_, _, _, rfl, -⟩ <;> cases h
  | _ => trivial

theorem insertChannelUser_inSchema_iff {channel : Channel} {externalId : String}
    {name : Option String} : (Stmt.insertChannelUser channel externalId name).InSchema ↔
      externalId.length ≤ 64 ∧ Within 255 name := by
  constructor
  · intro h
    have hrow := h 0 0 (fun _ => false) .empty () _ rfl _ List.mem_cons_self
    exact ⟨hrow.externalId, hrow.name⟩
  · rintro ⟨hid, hname⟩ now seq locked db r ws hexec w hw
    simp only [Stmt.exec] at hexec
    split at hexec
    · cases hexec; cases hw
    · cases hexec
      obtain rfl := List.mem_singleton.mp hw
      exact ⟨hid, within_none _, hname⟩

theorem setUserName_inSchema {id : Nat} {name : String} (h : name.length ≤ 255) :
    (Stmt.setUserName id name).InSchema := by
  intro now seq locked db r ws hexec w hw
  cases hexec
  obtain rfl := List.mem_singleton.mp hw
  exact h

/-- One customer with one conversation. -/
def Db.single (c : Conversation) : Db where
  users := [⟨c.userId, c.channel, "", none, none⟩]
  conversations := ⟨[c], List.nodup_singleton _⟩
  messages := []
  aiLogs := []
  fk := by simp

theorem Db.single_messages (c : Conversation) : (Db.single c).messages = [] := rfl

theorem Db.single_conversation (c : Conversation) : (Db.single c).conversation c.id = some c :=
  Db.conversation_of_mem List.mem_cons_self

theorem claimInbound_inSchema_iff {id : Nat} {waMessageId type : String}
    {content mediaId : Option String} :
    (Stmt.claimInbound id waMessageId type content mediaId).InSchema ↔
      waMessageId.length ≤ 128 ∧ type.length ≤ 20 ∧ Within 128 mediaId := by
  constructor
  · intro h
    let c : Conversation := newConversation id 0 .whatsapp 0
    have hexec : (Stmt.claimInbound id waMessageId type content mediaId).exec 0 0 (fun _ => false)
        (Db.single c) = some (some 0, [.insertMessage ⟨0, id, some waMessageId, none, .inbound, type,
          content, mediaId, none, none, 0⟩]) := by
      have hc : (Db.single c).conversation id = some c := Db.single_conversation c
      simp only [Stmt.exec, hc, Db.hasWaMessageId, Db.single_messages, List.any_nil]
      rfl
    have hrow := h _ _ _ _ _ _ hexec _ List.mem_cons_self
    exact ⟨within_some.mp hrow.waMessageId, hrow.type, hrow.mediaId⟩
  · rintro ⟨hid, htype, hmedia⟩ now seq locked db r ws hexec w hw
    simp only [Stmt.exec] at hexec
    split at hexec
    · cases hexec; cases hw
    · split at hexec
      · cases hexec
        obtain rfl := List.mem_singleton.mp hw
        exact ⟨within_some.mpr hid, within_none _, htype, hmedia, within_none _⟩
      · cases hexec

theorem reserveReply_inSchema_iff {id : Nat} {replyTo content type : String} :
    (Stmt.reserveReply id replyTo content type).InSchema ↔
      replyTo.length ≤ 128 ∧ type.length ≤ 20 := by
  constructor
  · intro h
    let c : Conversation := newConversation id 0 .whatsapp 0
    have hexec : (Stmt.reserveReply id replyTo content type).exec 0 0 (fun _ => false)
        (Db.single c) = some (some 0, [.insertMessage ⟨0, id, none, some replyTo, .outbound, type,
          some content, none, some statusPending, none, 0⟩]) := by
      have hc : (Db.single c).conversation id = some c := Db.single_conversation c
      simp only [Stmt.exec, hc, Db.hasReplyTo, Db.single_messages, List.any_nil]
      rfl
    have hrow := h _ _ _ _ _ _ hexec _ List.mem_cons_self
    exact ⟨within_some.mp hrow.replyToWaMessageId, hrow.type⟩
  · rintro ⟨hkey, htype⟩ now seq locked db r ws hexec w hw
    simp only [Stmt.exec] at hexec
    split at hexec
    · cases hexec; cases hw
    · split at hexec
      · cases hexec
        obtain rfl := List.mem_singleton.mp hw
        exact ⟨within_none _, within_some.mpr hkey, htype, within_none _,
          within_some.mpr (by decide)⟩
      · cases hexec

end Store
