import WhatsAppBot.Lib.Call
import WhatsAppBot.Store.Proof.Users
import WhatsAppBot.Webhook.Proof.Slots
import WhatsAppBot.Webhook.Sample

/-!
# One customer, one thread

`threadMonitor` remembers the customer and the conversation a process has come by last. `thread_rely`:
what it remembers is so, in every run. Read off for a whole call of `get_or_create`, of
`get_or_create_by_channel` and of `get_or_create_active`, whatever runs beside it, that is
`one_customer_one_thread`.
-/

set_option autoImplicit false

namespace Webhook

open Lib Store Bot Chat

inductive Thread where
  | idle
  | user (x : Identity)
  /-- It has revived or created the conversation of the customer, and not read it yet. -/
  | opened (userId id : Nat)
  | found (userId : Nat) (c : Conversation)

namespace Thread

def met : Option User → Thread
  | some v => user v.identity
  | none => idle

def named : Thread → Thread
  | user x => user x
  | _ => idle

def looked (userId : Nat) : Option Conversation → Thread
  | some c => found userId c
  | none => idle

def opening (userId : Nat) : Option Nat → Thread
  | some id => opened userId id
  | none => idle

def fetched (id : Nat) (x : Option Conversation) : Thread → Thread
  | opened userId id' => if id' = id then looked userId x else idle
  | _ => idle

end Thread

def threadMonitor : Monitor botSig Thread where
  ok _ _ := True
  next a o r :=
    match o, r with
    | .sql (.getByWaId _), r => .met r
    | .sql (.getByChannelId _ _), r => .met r
    | .sql (.setUserName _ _), _ => a.named
    | .sql (.activeForUser userId), r => .looked userId r
    | .sql (.reopenRecent userId _ _), r => .opening userId r
    | .sql (.insertConversation userId _), r => .opening userId r
    | .sql (.getConversation id), r => a.fetched id r
    | _, _ => .idle
  may
    | .sql (.getByWaId waId), r => ∀ v, r = some v → User.waId v = some waId
    | .sql (.getByChannelId channel externalId), r =>
      ∀ v, r = some v → User.channel v = channel ∧ User.externalId v = externalId
    | _, _ => True

variable {a : Thread} {o : Op} {α : Type}

/-! ## What a call returns is what the monitor remembers -/

theorem any_wp (P : BotM α) : P.wp threadMonitor (fun _ _ => True) a := by
  induction P generalizing a with
  | ret x => trivial
  | op o k ih => exact ⟨trivial, fun r _ => ih r⟩

theorem renameUser_thread (v : User) (name : Option String) :
    (renameUser v name).wp threadMonitor (fun x b => x.identity = v.identity ∧ b = .user v.identity)
      (.user v.identity) := by
  unfold renameUser
  split
  · split
    · exact ⟨trivial, fun _ _ => ⟨rfl, rfl⟩⟩
    · exact ⟨rfl, rfl⟩
  · exact ⟨rfl, rfl⟩

theorem getOrCreate_thread (waId : String) (name : Option String) :
    (getOrCreate waId name).wp threadMonitor
      (fun v b => b = .user v.identity ∧ v.identity.waId = some waId) a := by
  have hname : ∀ v : User, v.waId = some waId → (renameUser v name).wp threadMonitor
      (fun v b => b = .user v.identity ∧ v.identity.waId = some waId) (.user v.identity) :=
    fun v hv => Prog.wp_mono (renameUser_thread v name) fun x b ⟨hx, hb⟩ => by
      rw [hx]
      exact ⟨hb, hv⟩
  refine Prog.wp_call_bind trivial fun v hv => ?_
  cases v with
  | some v => exact hname v (hv v rfl)
  | none =>
    refine ⟨trivial, fun _ _ => Prog.wp_call_bind trivial fun v hv => ?_⟩
    cases v with
    | some v => exact hname v (hv v rfl)
    | none => exact ⟨trivial, nofun⟩

theorem getOrCreateByChannel_thread (channel : Channel) (externalId : String)
    (name : Option String) : (getOrCreateByChannel channel externalId name).wp threadMonitor
      (fun v b => b = .user v.identity ∧ v.identity.key = (channel, externalId)) a := by
  have hname : ∀ v : User, v.channel = channel ∧ v.externalId = externalId →
      (renameUser v name).wp threadMonitor
        (fun v b => b = .user v.identity ∧ v.identity.key = (channel, externalId)) (.user v.identity) :=
    fun v hv => Prog.wp_mono (renameUser_thread v name) fun x b ⟨hx, hb⟩ => by
      rw [hx]
      exact ⟨hb, Prod.ext hv.1 hv.2⟩
  refine Prog.wp_call_bind trivial fun v hv => ?_
  cases v with
  | some v => exact hname v (hv v rfl)
  | none =>
    refine ⟨trivial, fun _ _ => Prog.wp_call_bind trivial fun v hv => ?_⟩
    cases v with
    | some v => exact hname v (hv v rfl)
    | none => exact ⟨trivial, nofun⟩

/-- A conversation came back, or none did. -/
def Back (userId : Nat) (c : Option Conversation) (a : Thread) : Prop :=
  ∀ x, c = some x → a = .found userId x

theorem back_none {userId : Nat} : Back userId none a := fun x hx => by cases hx

theorem fetch_thread (userId id : Nat) :
    (getConversation id).wp threadMonitor (Back userId) (.opened userId id) := by
  refine ⟨trivial, fun r _ x hx => ?_⟩
  obtain rfl : r = some x := hx
  exact if_pos rfl

theorem resumeRecent_thread (userId : Nat) (window : Option Time) :
    (resumeRecent userId window).wp threadMonitor (Back userId) a := by
  cases window with
  | none => exact back_none
  | some window =>
    refine Prog.wp_call_bind trivial fun _ _ => Prog.wp_call_bind trivial fun _ _ =>
      Prog.wp_call_bind trivial fun id _ => ?_
    cases id with
    | none => exact back_none
    | some id => exact fetch_thread userId id

theorem createActive_thread (userId : Nat) (channel : Channel) :
    (createActive userId channel).wp threadMonitor (Back userId) a := by
  refine Prog.wp_call_bind trivial fun id _ => ?_
  cases id with
  | none => exact back_none
  | some id => exact fetch_thread userId id

theorem openNew_thread (userId : Nat) (channel : Channel) :
    (openNew userId channel).wp threadMonitor (fun c b => b = .found userId c) a := by
  unfold openNew
  rw [Prog.wp_bind]
  refine Prog.wp_mono (createActive_thread userId channel) fun created b hb => ?_
  cases created with
  | some c => exact hb c rfl
  | none =>
    refine Prog.wp_call_bind trivial fun c _ => ?_
    cases c with
    | some c => rfl
    | none => exact ⟨trivial, nofun⟩

theorem getOrCreateActive_thread (userId : Nat) (window : Option Time) (channel : Channel) :
    (getOrCreateActive userId window channel).wp threadMonitor (fun c b => b = .found userId c) a := by
  refine Prog.wp_call_bind trivial fun c _ => ?_
  cases c with
  | some c => rfl
  | none =>
    rw [Prog.wp_bind]
    refine Prog.wp_mono (resumeRecent_thread userId window) fun c b hb => ?_
    cases c with
    | some c => exact hb c rfl
    | none => exact openNew_thread userId channel

/-! ## What the monitor remembers is so -/

def Thread.Knows (db : Db) (tx : Tx) : Thread → Prop
  | .idle => True
  | .user x => x ∈ (db.applyAll tx).identities
  | .opened userId id => HasOpened db tx id userId
  | .found userId c => c.userId = userId ∧ c.status = .active

variable {cfg : Config} {db : Db} {tx ws theirs : Tx} {w w' : World}

theorem thread_may {others : List Tx} {r : o.Resp} (h : step cfg others w tx o r = some (w', ws)) :
    threadMonitor.may o r := by
  cases o with
  | sql s =>
    obtain ⟨_, hexec, -⟩ := step_sql h
    cases s with
    | getByWaId waId =>
      obtain ⟨rfl, -⟩ := Prod.mk.inj (Option.some.inj hexec)
      intro v hv
      simpa using List.find?_some hv
    | getByChannelId channel externalId =>
      obtain ⟨rfl, -⟩ := Prod.mk.inj (Option.some.inj hexec)
      intro v hv
      simpa using List.find?_some hv
    | _ => trivial
  | _ => trivial

namespace Thread.Knows

/-- What a row is looked up by does not matter. -/
theorem met {p : User → Bool} : (Thread.met (db.users.find? p)).Knows db [] := by
  cases hv : db.users.find? p with
  | none => trivial
  | some v => exact Db.identity_mem (List.mem_of_find?_eq_some hv)

theorem of_view {tx' : Tx} {db' : Db} {v : Option User} (h : (Thread.met v).Knows (db.applyAll tx) [])
    (hdb : db' = db) (htx : tx' = tx) : (Thread.met v).Knows db' tx' := by
  subst hdb htx
  cases v with
  | none => trivial
  | some v => exact h

/-- A statement of the process itself. -/
theorem statement {s : Stmt} {r : s.Resp} {now : Time} {locked : Nat → Bool} {b : Filing}
    (h : a.Knows w.db tx) (ht : Tidy b w tx) (hok : filingMonitor.ok b (.sql s)) (hI : Sound w)
    (hexec : s.exec now w.seq locked (w.db.applyAll tx) = some (r, ws)) :
    (threadMonitor.next a (.sql s) r).Knows w.db (tx ++ ws) := by
  have hok := hok.resolve_left ht.found
  cases s with
  | getByWaId | getByChannelId =>
    obtain ⟨rfl, rfl⟩ := Prod.mk.inj (Option.some.inj hexec)
    exact of_view met rfl (List.append_nil tx)
  | setUserName id name =>
    change a.named.Knows w.db (tx ++ ws)
    cases a with
    | user x =>
      change x ∈ (w.db.applyAll (tx ++ ws)).identities
      rw [Db.applyAll_append]
      exact Db.mem_identities_applyAll h ws
    | _ => trivial
  | activeForUser userId =>
    obtain ⟨rfl, rfl⟩ := Prod.mk.inj (Option.some.inj hexec)
    change (Thread.looked userId (newest _ _)).Knows w.db (tx ++ [])
    cases hc : newest Conversation.createdAt ((w.db.applyAll tx).activeFor userId) with
    | none => trivial
    | some c => exact (Db.mem_activeFor.mp (newest_mem hc)).2
  | reopenRecent userId notBefore t =>
    cases r with
    | none => trivial
    | some id =>
      obtain rfl : b = .fresh := hok
      exact HasOpened.reopenRecent hexec (ht.creates_nothing (.inl rfl)) (ht.closed nofun id)
  | insertConversation userId channel =>
    cases r with
    | none => trivial
    | some id =>
      obtain rfl : b = .fresh := hok
      exact HasOpened.insertConversation hexec (ht.next_free hI) ht.inserts (ht.closed nofun id)
  | getConversation id =>
    obtain ⟨rfl, rfl⟩ := Prod.mk.inj (Option.some.inj hexec)
    change (a.fetched id _).Knows w.db (tx ++ [])
    cases a with
    | opened userId id' =>
      simp only [Thread.fetched]
      split
      · rename_i hid
        subst hid
        cases hc : (w.db.applyAll tx).conversation id' with
        | none => trivial
        | some c => exact HasOpened.row h hc
      · trivial
    | _ => trivial
  | _ => trivial

/-- The commit of another process. -/
theorem interfere (h : a.Knows db tx)
    (hlocks : ∀ l, Tx.holds tx l = true → Tx.holds theirs l = false)
    (hnew : ∀ n, Creates tx n → ¬ Creates theirs n)
    (hinsert : ∀ d, .insertConversation d ∈ theirs → d.status = .active) :
    a.Knows (db.applyAll theirs) tx := by
  cases a with
  | idle => trivial
  | user x =>
    change x ∈ ((db.applyAll theirs).applyAll tx).identities
    change x ∈ (db.applyAll tx).identities at h
    rw [Db.identities_applyAll, List.mem_append] at h ⊢
    exact h.imp_left fun hx => Db.mem_identities_applyAll hx theirs
  | opened userId id =>
    exact HasOpened.interfere h (hlocks _)
      (fun hcreates d hd hid => hnew id hcreates ⟨d, hd, hid⟩) hinsert
  | found userId c => exact h

end Thread.Knows

theorem thread_rely (cfg : Config) (clock : Time) : Rely (sem cfg) anyStep (World.empty clock)
    (fun _ => True) (fun _ => threadMonitor) .idle (fun w _ => w.db.Identified)
    (fun _ a w _ tx => (w.db.applyAll tx).Identified ∧ a.Knows w.db tx) where
  program l _ := any_wp _
  may := thread_may
  start := ⟨List.nodup_nil, fun _ hx => by cases hx⟩
  fresh hI _ := ⟨hI, trivial⟩
  quiet _ hI := ⟨hI, fun _ _ _ hF => hF⟩
  op {s i p o k r w tx} := by
    intro hr hI hF hp hrest _ hstep _
    obtain ⟨hself, hknows⟩ := hF i p hp trivial
    have hsound := sound (sound_empty clock) hr
    have htidy := tidy (sound_empty clock) hr hp
    have hothers : w.db = s.shared.db → ∀ j q, j ≠ i → s.proc j = some q → True →
        (w.db.applyAll q.held).Identified ∧
          Thread.Knows w.db q.held (track threadMonitor .idle j s.hist) := by
      intro hdb j q _ hq _
      rw [hdb]
      exact hF j q hq trivial
    change step cfg _ _ _ o r = _ at hstep
    cases o with
    | sql stmt =>
      obtain ⟨ws, hexec, -, hdb, -, rfl⟩ := step_sql hstep
      refine ⟨hdb ▸ hI, fun _ => ?_, hothers hdb⟩
      rw [hdb]
      refine ⟨?_, hknows.statement htidy (hr.ok (filing_discipline cfg) hp hrest) hsound hexec⟩
      rw [Db.applyAll_append]
      exact hself.exec hexec
    | commit =>
      obtain ⟨hdb, -, rfl⟩ := step_commit hstep
      have hI' : w.db.Identified := hdb ▸ hself
      refine ⟨hI', fun _ => ⟨hI', trivial⟩, fun j q hij hq _ => ?_⟩
      obtain ⟨hid, hk⟩ := hF j q hq trivial
      have hlocks : ∀ l, Tx.holds q.held l = true → Tx.holds p.held l = false := fun l hl =>
        Bool.eq_false_iff.mpr fun hheld => hij (lock_exclusive hr hq hp hl hheld)
      rw [hdb]
      exact ⟨hid.interfere hself hlocks, hk.interfere hlocks
        (fun n hn hn' => hij (creates_exclusive hr hq hp hn hn')) fun d hd => (htidy.inserts d hd).1⟩
    | rollback =>
      obtain ⟨rfl, rfl⟩ := step_rollback hstep
      exact ⟨hI, fun _ => ⟨hI, trivial⟩, hothers rfl⟩
    | raise => cases r
    | _ =>
      obtain ⟨hdb, -, rfl⟩ := step_quiet rfl hstep
      refine ⟨hdb ▸ hI, fun _ => ⟨?_, trivial⟩, hothers hdb⟩
      rw [hdb]
      exact hself

/-! ## What a whole call does -/

/-- What a process sees: the committed rows under its own writes. -/
def sees (s : Sys botSig World Tx Task) (p : Proc botSig Tx Task) : Db := s.shared.db.applyAll p.held

/-- Each id on a channel is one customer. -/
structure OneRow (cfg : Config) (s : Sys botSig World Tx Task) : Prop where
  committed : ∀ channel externalId, (s.shared.db.customers channel externalId).length ≤ 1
  seen : ∀ i p, s.proc i = some p →
    ∀ channel externalId, ((sees s p).customers channel externalId).length ≤ 1
  same : ∀ i p j q, s.proc i = some p → s.proc j = some q →
    ∀ x ∈ (sees s p).identities, ∀ y ∈ (sees s q).identities, x.key = y.key → x = y
  stays : ∀ e s', Step (sem cfg) s e s' → ∀ x ∈ s.shared.db.identities, x ∈ s'.shared.db.identities
  byPhone : ∀ i f waId name v s',
    Call (sem cfg) anyStep i f (getOrCreate waId name) s (.ret v) s' →
    v.channel = .whatsapp ∧ v.externalId = waId ∧
      ∃ p, s'.proc i = some p ∧ v.identity ∈ (sees s' p).identities
  byChannel : ∀ i f channel externalId name v s',
    Call (sem cfg) anyStep i f (getOrCreateByChannel channel externalId name) s (.ret v) s' →
    v.channel = channel ∧ v.externalId = externalId ∧
      ∃ p, s'.proc i = some p ∧ v.identity ∈ (sees s' p).identities

/-- The statement cannot fail in what the process sees. -/
def Answers (s : Sys botSig World Tx Task) (i : Nat) (stmt : Stmt) : Prop :=
  ∃ p, s.proc i = some p ∧ ∀ now seq locked, stmt.exec now seq locked (sees s p) ≠ none

/-- `get_or_create_active` answers an active conversation of the customer, or raises `ConflictError`:
nothing else it does ends it. -/
structure OneThread (cfg : Config) (s : Sys botSig World Tx Task) : Prop where
  returned : ∀ i f userId window channel c s',
    Call (sem cfg) anyStep i f (getOrCreateActive userId window channel) s (.ret c) s' →
    c.userId = userId ∧ c.status = .active
  raised : ∀ i f userId window channel o k s',
    Call (sem cfg) anyStep i f (getOrCreateActive userId window channel) s (.op o k) s' →
    (∃ p, s.proc i = some p ∧ ∃ v ∈ (sees s p).users, v.id = userId) →
    o = .raise .conflict ∨ o = .now ∨ ∃ stmt, o = .sql stmt ∧ Answers s' i stmt

open Classical in
/-- A revive that loses the race takes none of the earlier writes away. -/
structure Saved (cfg : Config) (s : Sys botSig World Tx Task) : Prop where
  savepoint : ∀ i p, s.proc i = some p → ∀ c ∈ (sees s p).conversations.rows, ∀ t,
    revive (sees s p) c t =
      if c.status = .closed ∧ ((sees s p).applyAll (reviveUpdate c t)).OneActive then
        (some c.id, reviveUpdate c t)
      else (none, [])
  returning : ∀ i p userId notBefore t w tx, s.proc i = some p →
    step cfg (s.others i) s.shared p.held (.sql (.reopenRecent userId notBefore t)) none =
      some (w, tx) → tx = p.held ∧ w.db = s.shared.db
  operator : ∀ i p id t w tx, s.proc i = some p →
    step cfg (s.others i) s.shared p.held (.sql (.reopen id t)) none = some (w, tx) →
    tx = p.held ∧ w.db = s.shared.db
  kept : ∀ i f userId window channel p Q s', s.proc i = some p →
    Call (sem cfg) anyStep i f (getOrCreateActive userId window channel) s Q s' →
    ∃ q, s'.proc i = some q ∧ p.held <+: q.held
  committed : ∀ i p, s.proc i = some p →
    ∃ w, step cfg (s.others i) s.shared p.held .commit () = some (w, []) ∧ w.db = sees s p

variable {clock : Time} {s s' : Sys botSig World Tx Task} {e : Event botSig World Tx Task} {i j : Nat}
  {p q : Proc botSig Tx Task} {f : α → Prog botSig Unit} {P Q : BotM α}

/-- A call that has returned left the monitor with something that is so. -/
theorem returned_knows {R : α → Thread → Prop} {x : α} (h : Reach (sem cfg) anyStep (World.empty clock) s)
    (hP : ∀ a, P.wp threadMonitor R a) (hcall : Call (sem cfg) anyStep i f P s (.ret x) s') :
    ∃ p b, s'.proc i = some p ∧ R x b ∧ b.Knows s'.shared.db p.held := by
  obtain ⟨p, hp, -⟩ := hcall.rest
  obtain ⟨-, hF⟩ := (hcall.reach h).rely (thread_rely cfg clock)
  exact ⟨p, _, hp, hcall.wp thread_may (hP _), (hF i p hp trivial).2⟩

theorem identities_step (hs : Step (sem cfg) s e s') {x : Identity}
    (hx : x ∈ s.shared.db.identities) : x ∈ s'.shared.db.identities := by
  rcases db_cases hs with hdb | ⟨i, p, -, -, hdb⟩
  · rwa [hdb]
  · rw [hdb]
    exact Db.mem_identities_applyAll hx _

theorem one_row (h : Reach (sem cfg) anyStep (World.empty clock) s) : OneRow cfg s := by
  obtain ⟨hI, hF⟩ := h.rely (thread_rely cfg clock)
  have hsees : ∀ {i p}, s.proc i = some p → (sees s p).Identified := fun hp => (hF _ _ hp trivial).1
  refine
    { committed := hI.customers
      seen := fun i p hp => (hsees hp).customers
      same := fun i p j q hp hq x hx y hy hkey => ?_
      stays := fun e s' hs x hx => identities_step hs hx
      byPhone := fun i f waId name v s' hcall => ?_
      byChannel := fun i f channel externalId name v s' hcall => ?_ }
  · by_cases hij : i = j
    · subst hij
      obtain rfl := Option.some.inj (hp.symm.trans hq)
      exact (hsees hp).eq hx hy hkey
    · refine Db.Identified.agree (hsees hp) (hsees hq) (fun l hl => ?_) hx hy hkey
      exact Bool.eq_false_iff.mpr fun hheld => hij (lock_exclusive h hp hq hl hheld)
  · obtain ⟨p, b, hp, ⟨rfl, hwa⟩, hmem⟩ := returned_knows h (fun a => getOrCreate_thread waId name) hcall
    obtain ⟨-, hF'⟩ := (hcall.reach h).rely (thread_rely cfg clock)
    obtain ⟨hchannel, hexternal⟩ := (hF' i p hp trivial).1.waId _ hmem waId hwa
    exact ⟨hchannel, hexternal, p, hp, hmem⟩
  · obtain ⟨p, b, hp, ⟨rfl, hkey⟩, hmem⟩ :=
      returned_knows h (fun a => getOrCreateByChannel_thread channel externalId name) hcall
    exact ⟨(Prod.mk.inj hkey).1, (Prod.mk.inj hkey).2, p, hp, hmem⟩

/-- During a call of `get_or_create_active` nothing the process has written is lost. -/
theorem opening_keeps {userId : Nat} (hP : OnlyOpening userId P)
    (hcall : Call (sem cfg) anyStep i f P s Q s') (hp : s.proc i = some p) :
    ∃ q, s'.proc i = some q ∧ p.held <+: q.held ∧ (sees s p).Within (sees s' q) := by
  refine hcall.keeps (K := fun w tx => p.held <+: tx ∧ (sees s p).Within (w.db.applyAll tx)) hP
    ?own ?other hp ⟨List.prefix_refl _, .refl _⟩
  case own =>
    rintro ts w tx o r w' tx' ho hstep ⟨hgrown, hwithin⟩
    change step cfg _ _ _ o r = _ at hstep
    cases o with
    | sql stmt =>
      obtain ⟨ws, -, -, hdb, -, rfl⟩ := step_sql hstep
      refine ⟨hgrown.trans (List.prefix_append tx ws), hwithin.trans ?_⟩
      rw [hdb, Db.applyAll_append]
      exact Db.within_applyAll _ ws
    | now =>
      obtain ⟨hdb, -, rfl⟩ := step_quiet rfl hstep
      rw [hdb]
      exact ⟨hgrown, hwithin⟩
    | raise => cases r
    | _ => cases ho
  case other =>
    rintro ts w tx o r w' tx' x hstep ⟨hgrown, hwithin⟩
    change step cfg _ _ _ o r = _ at hstep
    refine ⟨hgrown, hwithin.trans ?_⟩
    cases o with
    | sql stmt =>
      obtain ⟨_, -, -, hdb, -⟩ := step_sql hstep
      rw [hdb]
      exact .refl _
    | commit =>
      obtain ⟨hdb, -⟩ := step_commit hstep
      rw [hdb]
      exact (Db.within_applyAll _ tx).applyAll x
    | rollback =>
      obtain ⟨rfl, -⟩ := step_rollback hstep
      exact .refl _
    | raise => cases r
    | _ =>
      obtain ⟨hdb, -⟩ := step_quiet rfl hstep
      rw [hdb]
      exact .refl _

/-- Opening a conversation for a customer that is there violates no constraint. -/
theorem opening_answers {stmt : Stmt} {userId : Nat} {now : Time} {seq : Nat} {locked : Nat → Bool}
    (hstmt : inOpening userId (.sql stmt) = true) (huser : ∃ v ∈ db.users, v.id = userId) :
    stmt.exec now seq locked db ≠ none := by
  cases stmt with
  | activeForUser | getConversation => exact Option.some_ne_none _
  | reopenRecent =>
    simp only [Stmt.exec]
    split <;> exact Option.some_ne_none _
  | insertConversation id channel =>
    obtain rfl : id = userId := of_decide_eq_true hstmt
    obtain ⟨v, hv, hid⟩ := huser
    have hfk : (db.users.any fun u => u.id = id) = true :=
      List.any_eq_true.mpr ⟨v, hv, decide_eq_true hid⟩
    simp only [Stmt.exec, hfk, if_true]
    split <;> exact Option.some_ne_none _
  | _ => cases hstmt

theorem one_thread (h : Reach (sem cfg) anyStep (World.empty clock) s) : OneThread cfg s where
  returned i f userId window channel c s' hcall := by
    obtain ⟨p, b, -, rfl, hknows⟩ :=
      returned_knows h (fun a => getOrCreateActive_thread userId window channel) hcall
    exact hknows
  raised i f userId window channel o k s' hcall := by
    rintro ⟨p, hp, v, hv, hid⟩
    have hP := getOrCreateActive_only userId window channel
    have ho : inOpening userId o = true := (hcall.only hP).1
    cases o with
    | sql stmt =>
      obtain ⟨q, hq, -, hwithin⟩ := opening_keeps hP hcall hp
      obtain ⟨v', hv', hid'⟩ := hwithin.users v hv
      exact .inr (.inr ⟨stmt, rfl, q, hq, fun now seq locked =>
        opening_answers ho ⟨v', hv', hid'.trans hid⟩⟩)
    | now => exact .inr (.inl rfl)
    | raise e =>
      obtain rfl : e = .conflict := of_decide_eq_true ho
      exact .inl rfl
    | _ => cases ho

theorem saved (h : Reach (sem cfg) anyStep (World.empty clock) s) : Saved cfg s where
  savepoint i p hp c hc t := by
    have htidy := tidy (sound_empty clock) h hp
    exact revive_savepoint (fun u => Nat.le_trans (Db.activeFor_applyAll_le htidy.sound u)
      (htidy.slots u)) hc t
  returning i p userId notBefore t w tx hp hstep := by
    obtain ⟨ws, hexec, -, hdb, -, rfl⟩ := step_sql hstep
    have hws : ws = [] := Stmt.exec_reopenRecent hexec
    exact ⟨by rw [hws, List.append_nil], hdb⟩
  operator i p id t w tx hp hstep := by
    obtain ⟨ws, hexec, -, hdb, -, rfl⟩ := step_sql hstep
    have hws : ws = [] := Stmt.exec_reopen hexec
    exact ⟨by rw [hws, List.append_nil], hdb⟩
  kept i f userId window channel p Q s' hp hcall := by
    obtain ⟨q, hq, hgrown, -⟩ := opening_keeps (getOrCreateActive_only userId window channel) hcall hp
    exact ⟨q, hq, hgrown⟩
  committed i p hp := ⟨_, rfl, rfl⟩

/-- **One customer, one thread**, at every point of every run. -/
theorem one_customer_one_thread (h : Reach (sem cfg) anyStep (World.empty clock) s) :
    OneRow cfg s ∧ OneThread cfg s ∧ Saved cfg s :=
  ⟨one_row h, one_thread h, saved h⟩

/-- Two workers have the first two messages of a customer: the second one has looked for the row when
the first one creates it. -/
def firstContacts : List Sample.Action :=
  [.spawn (.webhook (Sample.delivery [Sample.textMessage "20100" "wamid.1" "hello"])),
    .spawn (.webhook (Sample.delivery [Sample.textMessage "20100" "wamid.2" "hello"]))] ++
    Sample.steps 1 1 Sample.accepted ++ Sample.steps 0 13 Sample.accepted ++
    Sample.steps 1 5 Sample.accepted

theorem one_customer_one_thread_first : ∃ s : Sys botSig World Tx Task,
    ((s.shared.db.customers .whatsapp "20100").length = 1 ∧
      s.shared.db.conversations.rows.length = 1 ∧ (s.proc 0).isSome ∧ (s.proc 1).isSome) ∧
    OneRow Sample.config s ∧ OneThread Sample.config s ∧ Saved Sample.config s := by
  obtain ⟨s, hs, hrun⟩ := Reach.exists_of_run (M := sem Sample.config) (C := anyStep)
    (w := World.empty 0) firstContacts
    (fun s => (s.shared.db.customers .whatsapp "20100").length = 1 ∧
      s.shared.db.conversations.rows.length = 1 ∧ (s.proc 0).isSome ∧ (s.proc 1).isSome) (by decide)
  exact ⟨s, of_decide_eq_true hrun, one_customer_one_thread hs⟩

end Webhook
