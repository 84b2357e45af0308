import WhatsAppBot.Chat.Proof.Welcome
import WhatsAppBot.Lib.Rely
import WhatsAppBot.Store.Proof.Active
import WhatsAppBot.Webhook.Proof.Tasks
import WhatsAppBot.Webhook.Sample

/-!
# One welcome per session

The flag is committed after the welcome has been sent, and every handler goes by the row it read when it
started. So a session is greeted once as long as whoever greets it has read the row after every earlier
greeting was recorded (`RecordedFirst`, `welcome_once`). Where handlers overlap, or one of them dies
between the send and the recording, it is greeted twice.
-/

set_option autoImplicit false

namespace Webhook

open Lib Store Bot Chat

variable {cfg : Config}

/-! ## One process -/

theorem notGreeting_of_inOperator {o : Op} {a : Greeter} (h : inOperator o = true) :
    (greetMonitor cfg).ok a o := by
  cases o with
  | send out =>
    intro hgreeting
    have hpurpose : out.purpose = .manual := by simpa [inOperator, inRequest] using h
    rw [isGreeting, hpurpose] at hgreeting
    cases hgreeting
  | _ => trivial

theorem notGreeting_of_inSweep {o : Op} {a : Greeter} (h : inSweep o = true) :
    (greetMonitor cfg).ok a o := by
  cases o with
  | send out =>
    intro hgreeting
    have hpurpose : out.purpose = .closing := by simpa [inSweep] using h
    rw [isGreeting, hpurpose] at hgreeting
    cases hgreeting
  | _ => trivial

theorem notGreeting_of_inInvite {o : Op} {a : Greeter} (h : inInvite o = true) :
    (greetMonitor cfg).ok a o := by
  cases o with
  | send out =>
    intro hgreeting
    rw [isGreeting] at hgreeting
    split at hgreeting
    · rename_i hpurpose
      simp [inInvite, isCalm, isConfirm, inContext, hpurpose] at h
    · cases hgreeting
  | _ => trivial

section

variable (hprevent : cfg.session.preventDuplicateWelcome = true) (hcopy : OwnCopy cfg)
include hprevent hcopy

theorem dispatches_greets : Dispatches (greetMonitor cfg) cfg fun _ => True where
  calm _ ho := ⟨silent_ok (isSilent_of_isCalm ho), fun _ _ => trivial⟩
  text _ _ name _ text _ := handleTextMessage_greets hprevent hcopy name text
  selection _ _ name _ id title _ := handleInteractiveMessage_greets hprevent hcopy name id title
  media _ _ name _ type mediaId caption _ :=
    handleMediaMessage_greets hprevent hcopy name type mediaId caption
  unsupported _ _ name _ type _ := handleUnsupportedMessage_greets hprevent hcopy name type
  stale _ _ _ _ _ _ := silent_wp ((recordWithoutAnswering_only ..).mono fun o ho => by
    cases o with
    | send => cases ho
    | _ => rfl)
  status _ := ⟨trivial, fun _ _ => trivial⟩
  invite channel e _ := (inviteAfterComment_only cfg channel e).wp trivial fun _ _ _ ho =>
    ⟨notGreeting_of_inInvite ho, fun _ _ => trivial⟩

/-- **Who greets has read the row of the conversation, and the flag was unset in it.** -/
theorem greets_discipline : (greetMonitor cfg).Accepts .idle (fun _ => True) (sem cfg) where
  program l := by
    have hoperator : ∀ {P : BotM Unit}, (P.Only fun o => inOperator o = true) →
        P.wp (greetMonitor cfg) (fun _ _ => True) .idle := fun hP =>
      hP.wp trivial fun _ _ _ ho => ⟨notGreeting_of_inOperator ho, fun _ _ => trivial⟩
    cases l with
    | webhook payload =>
      exact (dispatches_greets hprevent hcopy).processWebhookPayload_wp trivial payload
    | metaWebhook surfaces payload =>
      exact Prog.wp_forM (I := fun _ => True) (fun surface _ _ _ =>
        (dispatches_greets hprevent hcopy).processMetaPayload_wp trivial surface payload) trivial
    | sweep => exact (program_only cfg .sweep).wp trivial fun _ _ _ ho =>
        ⟨notGreeting_of_inSweep ho, fun _ _ => trivial⟩
    | takeOver id operator operatorId => exact hoperator (program_only cfg (.takeOver id operator operatorId))
    | resumeAi id => exact hoperator (program_only cfg (.resumeAi id))
    | manualReply id text operatorId => exact hoperator (program_only cfg (.manualReply id text operatorId))
  may _ := trivial

end

/-! ## The order of reading and recording -/

/-- The welcome messages of a conversation. -/
def greets (cfg : Config) (c : Nat) : Event botSig World Tx Task → Bool
  | .op _ _ _ (.send out) _ _ => out.conversationId = c && isGreeting cfg out
  | _ => false

/-- The answer is a conversation row. -/
def fetches : (o : Op) → o.Resp → Bool
  | .sql (.activeForUser _), r => (r : Option Conversation).isSome
  | .sql (.getConversation _), r => (r : Option Conversation).isSome
  | _, _ => false

/-- The process reads a conversation row. -/
def readsRow (i : Nat) : Event botSig World Tx Task → Bool
  | .op j _ _ o r _ => j = i && fetches o r
  | _ => false

/-- What had happened when the process last read a conversation row. -/
def beforeRead (i : Nat) : History → History
  | [] => []
  | e :: h => if readsRow i e then h else beforeRead i h

/-- A transaction was committed after which the row carries the welcome flag. -/
def recorded (c : Nat) (h : History) : Bool :=
  h.any fun
    | .op _ _ _ .commit _ post => post.db.greeted c
    | _ => false

/-- Who greets a conversation that has been greeted had read its row after that was recorded, and does
not repeat a welcome of the model's own. -/
def RecordedFirst (cfg : Config) (s : Sys botSig World Tx Task) : Event botSig World Tx Task → Prop
  | .op i _ _ (.send out) _ _ =>
    isGreeting cfg out = true → s.hist.any (greets cfg out.conversationId) = true →
      recorded out.conversationId (beforeRead i s.hist) = true ∧
        (track (greetMonitor cfg) .idle i s.hist).parrot = false
  | _ => True

/-- The message that leaves, and whose it is. -/
def sending : Event botSig World Tx Task → Option (Nat × Outbound)
  | .op i _ _ (.send out) _ _ => some (i, out)
  | _ => none

theorem recordedFirst_iff (cfg : Config) (s : Sys botSig World Tx Task)
    (e : Event botSig World Tx Task) : RecordedFirst cfg s e ↔
      ∀ x ∈ sending e, isGreeting cfg x.2 = true → s.hist.any (greets cfg x.2.conversationId) = true →
        recorded x.2.conversationId (beforeRead x.1 s.hist) = true ∧
          (track (greetMonitor cfg) .idle x.1 s.hist).parrot = false := by
  unfold RecordedFirst sending
  split <;> simp

instance (cfg : Config) (s : Sys botSig World Tx Task) (e : Event botSig World Tx Task) :
    Decidable (RecordedFirst cfg s e) :=
  decidable_of_iff' _ (recordedFirst_iff cfg s e)

variable {C : Sys botSig World Tx Task → Event botSig World Tx Task → Prop} {w₀ : World}
  {s s' : Sys botSig World Tx Task} {e : Event botSig World Tx Task} {i c : Nat}

/-- The flag of a committed row stays. -/
theorem greeted_step (hs : Step (sem cfg) s e s') (h : s.shared.db.greeted c = true) :
    s'.shared.db.greeted c = true := by
  rcases db_cases hs with hdb | ⟨i, p, -, -, hdb⟩
  · rwa [hdb]
  · rw [hdb]
    exact Db.greeted_applyAll h _

theorem recorded_greeted (h : Reach (sem cfg) C w₀ s) (hrec : recorded c s.hist = true) :
    s.shared.db.greeted c = true := by
  induction h with
  | start => cases hrec
  | @step s s' e hr hs hc ih =>
    rw [hs.hist_eq, recorded, List.any_cons, Bool.or_eq_true] at hrec
    rcases hrec with hnow | hbefore
    · cases hs with
      | @op i p o k r w tx _ _ _ =>
        cases o with
        | commit => exact hnow
        | _ => cases hnow
      | _ => cases hnow
    · exact greeted_step hs (ih hbefore)

theorem next_keeps {o : Op} {r : o.Resp} {a : Greeter} {x : Conversation} {b : Bool}
    (hfetch : fetches o r = false) (h : (greetMonitor cfg).next a o r = .read x b) : a.Has x := by
  have hgiven : ∀ {p : Bool}, a.given p = .read x b → a.Has x := by
    intro p hp
    cases a with
    | idle => cases hp
    | read y q =>
      obtain ⟨rfl, -⟩ := Greeter.read.inj hp
      exact ⟨q, rfl⟩
  have hsame : a = .read x b → a.Has x := fun ha => ⟨b, ha⟩
  cases o with
  | sql stmt =>
    cases stmt with
    | activeForUser | getConversation =>
      obtain rfl : r = none := Option.isSome_eq_false_iff.mp hfetch |> Option.isNone_iff_eq_none.mp
      exact hsame h
    | _ => exact hsame h
  | generateReply =>
    cases r with
    | ok => exact hgiven h
    | error => exact hsame h
  | getCachedGeneration =>
    cases r with
    | some => exact hgiven h
    | none => exact hsame h
  | _ => exact hsame h

/-- The row that is read is what the transaction sees. -/
theorem next_fetches {db : Db} {ws : Tx} {stmt : Stmt} {r : stmt.Resp} {now : Time} {seq : Nat}
    {locked : Nat → Bool} {a : Greeter} {x : Conversation} {b : Bool}
    (hexec : stmt.exec now seq locked db = some (r, ws)) (hfetch : fetches (.sql stmt) r = true)
    (h : (greetMonitor cfg).next a (.sql stmt) r = .read x b) : db.conversation x.id = some x := by
  cases stmt with
  | activeForUser userId =>
    obtain ⟨rfl, -⟩ := Prod.mk.inj (Option.some.inj hexec)
    obtain ⟨y, hy⟩ := Option.isSome_iff_exists.mp hfetch
    change a.fetched (newest _ _) = _ at h
    rw [hy] at h
    obtain ⟨rfl, -⟩ := Greeter.read.inj h
    exact (Db.mem_activeFor.mp (newest_mem hy)).1
  | getConversation id =>
    obtain ⟨rfl, -⟩ := Prod.mk.inj (Option.some.inj hexec)
    obtain ⟨y, hy⟩ := Option.isSome_iff_exists.mp hfetch
    change a.fetched (db.conversation id) = _ at h
    rw [hy] at h
    obtain ⟨rfl, -⟩ := Greeter.read.inj h
    rw [Db.conversation_id hy]
    exact hy
  | _ => cases hfetch

/-- A row that was read after the recording carries the flag. -/
def GoesBy (i : Nat) (a : Greeter) (h : History) : Prop :=
  ∀ x b, a = .read x b → recorded x.id (beforeRead i h) = true → x.welcomeSentAt.isSome = true

/-- **Every process goes by a row that was up to date when it was read.** -/
theorem goes_by {p : Proc botSig Tx Task} (h : Reach (sem cfg) C w₀ s) (hp : s.proc i = some p) :
    GoesBy i (track (greetMonitor cfg) .idle i s.hist) s.hist := by
  refine h.traced (fun _ => True) (fun i h x b hidle => by cases hidle)
    (fun {i a e h} hi hΦ x b ha hrec => ?_)
    (fun {s i p o k r w tx} hr _ _ _ hstep ih x b hread hrec => ?_) hp trivial
  · refine hΦ x b ha ?_
    have hother : readsRow i e = false := by
      cases e with
      | op => exact Bool.and_eq_false_iff.mpr (.inl (decide_eq_false hi))
      | _ => rfl
    simpa [beforeRead, hother] using hrec
  · cases hfetch : fetches o r with
    | false =>
      obtain ⟨b', hread'⟩ := next_keeps hfetch hread
      refine ih x b' hread' ?_
      simpa [beforeRead, readsRow, hfetch] using hrec
    | true =>
      have hbefore : recorded x.id s.hist = true := by
        simpa [beforeRead, readsRow, hfetch] using hrec
      change step cfg _ _ _ o r = _ at hstep
      cases o with
      | sql stmt =>
        obtain ⟨ws, hexec, -⟩ := step_sql hstep
        exact Db.greeted_row (Db.greeted_applyAll (recorded_greeted hr hbefore) p.held)
          (next_fetches hexec hfetch hread)
      | _ => cases hfetch

/-- A greeting is the first one of its conversation. -/
theorem first_greeting (hprevent : cfg.session.preventDuplicateWelcome = true) (hcopy : OwnCopy cfg)
    {p : Proc botSig Tx Task} {out : Outbound} {k : Wire → Prog botSig Unit} {r : Wire} {w : World}
    (h : Reach (sem cfg) C w₀ s) (hp : s.proc i = some p) (hrest : p.rest = .op (.send out) k)
    (hC : RecordedFirst cfg s (.op i p.label p.held (.send out) r w))
    (hgreeting : isGreeting cfg out = true) : s.hist.any (greets cfg out.conversationId) = false := by
  by_contra hbefore
  obtain ⟨hrec, hparrot⟩ := hC hgreeting (Bool.eq_true_of_not_eq_false hbefore)
  have howes : (track (greetMonitor cfg) .idle i s.hist).Owes out.conversationId :=
    h.ok (greets_discipline hprevent hcopy) hp hrest hgreeting
  cases htrack : track (greetMonitor cfg) .idle i s.hist with
  | idle => rw [htrack] at howes; exact howes
  | read x b =>
    rw [htrack] at howes hparrot
    obtain ⟨hid, hunset | hb⟩ := howes
    · rw [← hid] at hrec
      have hset := goes_by h hp x b htrack hrec
      rw [hunset] at hset
      cases hset
    · rw [show b = false from hparrot] at hb
      cases hb

/-- **Welcome at most once per session**, where whoever greets has read the row after the earlier
greetings were recorded. -/
theorem welcome_once (hprevent : cfg.session.preventDuplicateWelcome = true) (hcopy : OwnCopy cfg)
    (h : Reach (sem cfg) (RecordedFirst cfg) w₀ s) (c : Nat) : s.hist.countP (greets cfg c) ≤ 1 := by
  induction h with
  | start => exact Nat.zero_le _
  | @step s s' e hr hs hc ih =>
    rw [hs.hist_eq, List.countP_cons]
    cases hgreets : greets cfg c e with
    | false => simpa using ih
    | true =>
      have hzero : s.hist.countP (greets cfg c) = 0 := by
        cases hs with
        | @op i p o k r w tx hp hrest hstep =>
          cases o with
          | send out =>
            obtain ⟨hid, hgreeting⟩ := Bool.and_eq_true_iff.mp hgreets
            have hfirst := first_greeting hprevent hcopy hr hp hrest hc hgreeting
            rw [of_decide_eq_true hid] at hfirst
            exact List.countP_eq_zero.mpr fun x hx hgreet =>
              List.any_eq_false.mp hfirst x hx hgreet
          | _ => cases hgreets
        | _ => cases hgreets
      simp [hzero]

/-- Two workers have two greetings of a customer. -/
def greetings (steps : List Sample.Action) : List Sample.Action :=
  [.spawn (.webhook (Sample.delivery [Sample.textMessage "20100" "wamid.1" "hello"])),
    .spawn (.webhook (Sample.delivery [Sample.textMessage "20100" "wamid.2" "hello"]))] ++ steps

theorem serviceAck_head (id : String) : ∃ t, (Menu.serviceAck id).toList = 'ت' :: t := by
  unfold Menu.serviceAck
  rw [String.toList_append, String.toList_append]
  exact ⟨_, rfl⟩

theorem sample_ownCopy : OwnCopy Sample.config where
  serviceBusy := by decide +kernel
  unsupportedMessage := by decide +kernel
  handoffAck := by decide +kernel
  salesHandoffAck := by decide +kernel
  outOfScopeReply := by decide +kernel
  deflection := by decide +kernel
  quotaMessage _ := have h : Sample.copy.carries "later" = false := by decide +kernel
    h
  serviceAck id := by
    obtain ⟨t, ht⟩ := serviceAck_head id
    rw [Copy.carries, ht]
    rfl

/-- One worker after the other: the second message is answered without a welcome. -/
theorem welcome_once_greeted : ∃ s : Sys botSig World Tx Task,
    s.hist.countP (greets Sample.config 5) = 1 ∧ s.shared.db.replies "wamid.2" = 1 ∧
      s.hist.countP (greets Sample.config 5) ≤ 1 := by
  obtain ⟨s, hs, hrun⟩ := Reach.exists_of_run (M := sem Sample.config)
    (C := RecordedFirst Sample.config) (w := World.empty 0)
    (greetings (Sample.steps 0 29 Sample.accepted ++ [.finish 0] ++ Sample.steps 1 22 Sample.accepted))
    (fun s => s.hist.countP (greets Sample.config 5) = 1 ∧ s.shared.db.replies "wamid.2" = 1)
    (by decide +kernel)
  obtain ⟨hcount, hreply⟩ := of_decide_eq_true hrun
  exact ⟨s, hcount, hreply, welcome_once rfl sample_ownCopy hs 5⟩

/-- The second worker reads the row while the first one is about to greet. -/
theorem welcome_twice : ¬ ∀ cfg clock s, cfg.session.preventDuplicateWelcome = true → OwnCopy cfg →
    Reach (sem cfg) anyStep (World.empty clock) s → ∀ c, s.hist.countP (greets cfg c) ≤ 1 := by
  intro h
  obtain ⟨s, hs, hrun⟩ := Reach.exists_of_run (M := sem Sample.config) (C := anyStep)
    (w := World.empty 0)
    (greetings (Sample.steps 0 13 Sample.accepted ++ Sample.steps 1 6 Sample.accepted ++
      Sample.steps 0 16 Sample.accepted ++ [.finish 0] ++ Sample.steps 1 8 Sample.accepted))
    (fun s => s.hist.countP (greets Sample.config 5) = 2) (by decide +kernel)
  have hle := h _ _ s rfl sample_ownCopy hs 5
  rw [of_decide_eq_true hrun] at hle
  exact absurd hle (by decide)

/-- The first worker dies between the send and the recording. -/
example : (((Sys.start (World.empty 0)).run (sem Sample.config) anyStep
    (greetings (Sample.steps 0 21 Sample.accepted ++ [.cut 0] ++ Sample.steps 1 14 Sample.accepted))).any
      fun s => s.hist.countP (greets Sample.config 5) = 2) = true := by decide +kernel

end Webhook
