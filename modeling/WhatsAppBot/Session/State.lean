import Mathlib.Algebra.Order.Group.Basic
import Mathlib.Algebra.Order.Group.Int
import WhatsAppBot.Session.Sweep
import WhatsAppBot.Store.Proof.Writes

/-!
# The state of a session

`derive_session_state`, which the admin API shows, against `claim_idle_sessions`, which the sweep
acts on.
-/

set_option autoImplicit false

namespace Session

open Store

inductive SessionState where
  | activeBot
  | activeHuman
  | waitingIdle
  | closing
  | closed
  deriving DecidableEq

/-- `derive_session_state`. -/
def deriveSessionState (status : Status) (mode : Mode) (lastActivityAt : Time)
    (closingSentAt : Option Time) (idleAfter now : Time) : SessionState :=
  if status ≠ .active then .closed
  else if closingSentAt ≠ none then .closing
  else if mode = .human then .activeHuman
  else if idleAfter ≤ now - lastActivityAt then .waitingIdle
  else .activeBot

/-- `Conversation.session_state`. -/
def sessionState (c : Conversation) (idleAfter now : Time) : SessionState :=
  deriveSessionState c.status c.mode c.lastActivityAt c.closingSentAt idleAfter now

/-- The bot's open session, with no goodbye claimed. -/
def Unattended (c : Conversation) : Prop :=
  c.status = .active ∧ c.closingSentAt = none ∧ c.mode = .bot

theorem sessionState_waitingIdle {c : Conversation} {idleAfter now : Time} :
    sessionState c idleAfter now = .waitingIdle ↔
      Unattended c ∧ idleAfter ≤ now - c.lastActivityAt := by
  obtain ⟨id, userId, channel, status, mode⟩ := c
  simp only [sessionState, deriveSessionState, Unattended]
  cases status <;> cases mode <;> split_ifs <;> simp_all

theorem idleCandidate_iff {c : Conversation} {idleBefore : Time} :
    Db.idleCandidate idleBefore c = true ↔
      Unattended c ∧ sweepable c.channel = true ∧ c.lastActivityAt < idleBefore := by
  simp only [Db.idleCandidate, Unattended, decide_eq_true_eq]
  tauto

/-- What `claim_idle_sessions` takes when no row is locked and the batch is large enough. -/
def claimed (db : Db) (idleBefore : Time) : List Nat :=
  (db.idleCandidates (fun _ => false) idleBefore db.conversations.rows.length).map (·.id)

theorem mem_claimed {db : Db} {idleBefore : Time} {c : Conversation}
    (hc : c ∈ db.conversations.rows) :
    c.id ∈ claimed db idleBefore ↔ Db.idleCandidate idleBefore c = true := by
  have hall : ∀ d, d ∈ db.idleCandidates (fun _ => false) idleBefore db.conversations.rows.length ↔
      d ∈ db.conversations.rows ∧ Db.idleCandidate idleBefore d = true := by
    intro d
    have hlength : (db.conversations.rows.filter fun c =>
        Db.idleCandidate idleBefore c && !false).length ≤ db.conversations.rows.length :=
      List.length_filter_le _ _
    rw [Db.idleCandidates, List.take_of_length_le (by simpa using hlength), List.mem_insertionSort,
      List.mem_filter]
    simp
  constructor
  · intro h
    obtain ⟨d, hd, hid⟩ := List.mem_map.mp h
    obtain ⟨hmem, hidle⟩ := (hall d).mp hd
    have hfound := Lib.Table.find_of_mem hmem
    rw [hid, Lib.Table.find_of_mem hc] at hfound
    exact (Option.some.inj hfound) ▸ hidle
  · intro h
    exact List.mem_map_of_mem ((hall c).mpr ⟨hc, h⟩)

/-- **When what operators see is what the sweep acts on**: a session that waits must be on a channel
the sweep closes, and must have waited for longer than the timeout. -/
theorem waitingIdle_iff_claimed {db : Db} {c : Conversation} (hc : c ∈ db.conversations.rows)
    (idleAfter now : Time) :
    (sessionState c idleAfter now = .waitingIdle ↔ c.id ∈ claimed db (now - idleAfter)) ↔
      (Unattended c → idleAfter ≤ now - c.lastActivityAt →
        sweepable c.channel = true ∧ now - c.lastActivityAt ≠ idleAfter) := by
  rw [sessionState_waitingIdle, mem_claimed hc, idleCandidate_iff, lt_sub_comm]
  constructor
  · intro h hopen hidle
    obtain ⟨-, hsweep, hlt⟩ := h.mp ⟨hopen, hidle⟩
    exact ⟨hsweep, hlt.ne'⟩
  · intro h
    constructor
    · rintro ⟨hopen, hidle⟩
      obtain ⟨hsweep, hne⟩ := h hopen hidle
      exact ⟨hopen, hsweep, lt_of_le_of_ne hidle hne.symm⟩
    · rintro ⟨hopen, -, hlt⟩
      exact ⟨hopen, hlt.le⟩

namespace Sample

/-- A customer's only session, last touched at `0`. -/
def quiet (channel : Channel) : Conversation := newConversation 1 0 channel 0

def holding (channel : Channel) : Db :=
  (Db.empty.insertUser ⟨0, channel, "20100", none, none⟩).insertConversation (quiet channel)

def minute : Time := 60 * 1000000

end Sample

theorem waitingIdle_whatsapp : sessionState (Sample.quiet .whatsapp) Sample.minute
    (2 * Sample.minute) = .waitingIdle ↔
      (Sample.quiet .whatsapp).id ∈ claimed (Sample.holding .whatsapp) Sample.minute :=
  have hc : Sample.quiet .whatsapp ∈ (Sample.holding .whatsapp).conversations.rows := by decide
  (waitingIdle_iff_claimed hc Sample.minute (2 * Sample.minute)).mpr fun _ _ => by decide

/-- **A direct message on Instagram waits for a sweep that does not come.** -/
theorem waiting_unswept : ¬∀ (db : Db) (c : Conversation) (idleAfter now : Time),
    c ∈ db.conversations.rows → Sample.minute ≤ idleAfter →
    (sessionState c idleAfter now = .waitingIdle ↔ c.id ∈ claimed db (now - idleAfter)) := by
  intro h
  have hx := h (Sample.holding .instagramDm) (Sample.quiet .instagramDm) Sample.minute
    (2 * Sample.minute) (by decide) (by decide)
  exact absurd (hx.mp (by decide)) (by decide)

end Session
