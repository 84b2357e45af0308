import WhatsAppBot.Webhook.Attempts
import WhatsAppBot.Webhook.Proof.Docket
import WhatsAppBot.Webhook.Sample

/-!
# The messages of one delivery

The loops over a delivery end at the first part that raises, and a retry starts again at the first
part. What is ahead of the part that raises is claimed by the first attempt and stays so
(`ahead_claimed`); what is behind it is never reached (`sibling_blocked`). In process, where every
surface has a session and an error boundary of its own, the same holds for each surface by itself.
-/

set_option autoImplicit false

namespace Webhook

open Lib Store Bot Channels Chat

variable {k : String} {cfg : Config} {α : Type}

/-! ## The parts ahead -/

variable {w w' : World} {tx tx' : Tx} {tr : List (Obs botSig)} {ys zs : List Part} {x p : Part}

theorem exec_clock {P : BotM α} {e : Ending α} (h : Exec (sem cfg) w tx P tr e w' tx') :
    w.clock ≤ w'.clock := by
  induction h with
  | ret | raised | died => exact Int.le_refl _
  | op hs _ ih => exact Int.le_trans (step_clock hs) ih

theorem exec_fits {P : BotM α} {Q : α → Ledger × Docket → Prop} {a : Ledger × Docket} {e : Ending α}
    (h : Exec (sem cfg) w tx P tr e w' tx') (hP : P.wp (ledgerMonitor.both (docketMonitor k)) Q a)
    (ha : Docket.Fits k a w tx) :
    Docket.Fits k (after (ledgerMonitor.both (docketMonitor k)) a tr) w' tx' ∧
      ∀ x, e = .returned x → Q x (after (ledgerMonitor.both (docketMonitor k)) a tr) := by
  refine h.sound (L := fun w tx a => Docket.Fits k a w tx) (fun hs hok hL => ?_) hP ha
  exact ⟨⟨trivial, trivial⟩, hL.step hok hs⟩

/-- A list of parts that is done has claimed what it carries. -/
theorem exec_stays (h : Exec (sem cfg) w [] (ys.forM (Part.run cfg)) tr (.returned ⟨⟩) w' tx')
    (hw : Numbered w) (hp : p ∈ ys) (hk : p.Carries k)
    (hfresh : ∀ t ∈ p.deadline cfg, w'.clock ≤ t) : Stays k .clear w' tx' := by
  have hP := Prog.wp_both (parts_ledger cfg ys rfl)
    (parts_docket (a := ⟨.none, []⟩) hp hk)
  obtain ⟨hfits, hdone⟩ := exec_fits h hP (Docket.Fits.start hw)
  obtain ⟨hclear, hfiled⟩ := hdone ⟨⟩ rfl
  rw [← hclear]
  rcases hfiled with hstage | ⟨t, ht, d, hd, hlate⟩
  · exact hfits.done hstage
  · have hseen := hfits.seen t ht
    have hle := hfresh d hd
    exact absurd (Int.le_trans hseen hle) (Int.not_le.mpr hlate)

theorem exec_numbered {task : Task} {e : Ending Unit} (ht : task.isDelivery = true)
    (h : Exec (sem cfg) w [] (program cfg task) tr e w' tx') (hw : Numbered w) : Numbered w' := by
  rw [program_parts ht] at h
  have hP := Prog.wp_both (parts_ledger cfg task.parts rfl)
    (docket_any (k := "") (a := ⟨.none, []⟩))
  have hfits := (exec_fits h hP (Docket.Fits.start hw)).1
  intro m hm
  have hlt := hfits.numbered _ (Db.mem_messages_applyAll.mpr (.inl ⟨m, hm, rfl⟩))
  rwa [Tx.revise_id] at hlt

theorem delivery_stored {task : Task} {e : Ending Unit} (ht : task.isDelivery = true)
    (h : Exec (sem cfg) w [] (program cfg task) tr e w' tx') (hk : Stored w k) : Stored w' k := by
  rw [program_parts ht] at h
  exact exec_stored (Stays.start hk) h (parts_ledger cfg task.parts rfl)

/-- A surface's session is a task for that surface alone. -/
theorem program_surface (payload : Json) (surface : Surface) :
    processMetaPayload cfg surface payload = program cfg (.metaWebhook [surface] payload) :=
  (Prog.forM_singleton (fun surface => processMetaPayload cfg surface payload) surface).symm

theorem Inline.numbered {payload : Json} {surfaces : List Surface}
    (h : Inline cfg payload surfaces w w') (hw : Numbered w) : Numbered w' := by
  induction h with
  | nil => exact hw
  | cons hrun _ _ ih =>
    rw [program_surface] at hrun
    exact ih (exec_numbered rfl hrun hw)

theorem Inline.stored {payload : Json} {surfaces : List Surface}
    (h : Inline cfg payload surfaces w w') (hk : Stored w k) : Stored w' k := by
  induction h with
  | nil => exact hk
  | cons hrun _ _ ih =>
    rw [program_surface] at hrun
    exact ih (delivery_stored rfl hrun hk)

/-- A session does the parts `ys` and ends as `e` in those that follow. -/
def EndsIn (cfg : Config) (ys zs : List Part) (e : Ending PUnit) (w w' : World) : Prop :=
  ∃ tr w₁ tx₁ tr' tx', Exec (sem cfg) w [] (ys.forM (Part.run cfg)) tr (.returned ⟨⟩) w₁ tx₁ ∧
    Exec (sem cfg) w₁ tx₁ (zs.forM (Part.run cfg)) tr' e w' tx'

theorem EndsIn.stored {e : Ending PUnit} (h : EndsIn cfg ys zs e w w') (hw : Numbered w)
    (hp : p ∈ ys) (hk : p.Carries k) (hfresh : ∀ t ∈ p.deadline cfg, w'.clock ≤ t) :
    Stored w' k := by
  obtain ⟨tr, w₁, tx₁, tr', tx', hdone, hrest⟩ := h
  have hclock := exec_clock hrest
  have hstays := exec_stays hdone hw hp hk fun t ht => Int.le_trans hclock (hfresh t ht)
  exact exec_stored hstays hrest (parts_ledger cfg zs rfl)

/-- An attempt that raises in `x`, when what is ahead of it is done. -/
structure FailsAt (cfg : Config) (task : Task) (ys : List Part) (x : Part) (d d' : Delivery) :
    Prop where
  attempt : Attempt cfg task d d'
  raises : EndsIn cfg ys [x] .raised d.world d'.world

theorem Attempt.keeps {task : Task} {d d' : Delivery} (h : Attempt cfg task d d')
    (ht : task.isDelivery = true) (hk : Stored d.world k) : Stored d'.world k := by
  rcases h.exec with ⟨hworld, -⟩ | ⟨tr, e, tx, hrun, -⟩
  · rwa [hworld]
  · exact delivery_stored ht hrun hk

/-- **What is ahead of the part that raises is claimed** and stays so, however often the delivery is
tried again; in process the same holds for each surface whatever becomes of the others. -/
theorem ahead_claimed (hp : p ∈ ys) (hk : p.Carries k) :
    (∀ task d d₁ d₂, task.isDelivery = true → task.parts = ys ++ x :: zs → Numbered d.world →
      FailsAt cfg task ys x d d₁ → (∀ t ∈ p.deadline cfg, d₁.world.clock ≤ t) →
      Relation.ReflTransGen (FailsAt cfg task ys x) d₁ d₂ → Stored d₂.world k) ∧
    (∀ payload surface before later e w w₁ w₂ w₃, surfaceParts payload surface = ys ++ zs →
      Numbered w → Inline cfg payload before w w₁ → EndsIn cfg ys zs e w₁ w₂ →
      (∀ t ∈ p.deadline cfg, w₂.clock ≤ t) → Inline cfg payload later w₂ w₃ → Stored w₃ k) := by
  constructor
  · intro task d d₁ d₂ ht _ hd hfirst hfresh hruns
    have hclaimed := hfirst.raises.stored hd hp hk hfresh
    clear hfirst hfresh
    induction hruns with
    | refl => exact hclaimed
    | tail _ hlast ih => exact hlast.attempt.keeps ht ih
  · intro payload surface before later e w w₁ w₂ w₃ _ hw hbefore hends hfresh hlater
    exact hlater.stored (hends.stored (hbefore.numbered hw) hp hk hfresh)

/-! ## The parts behind -/

namespace Sample

/-- A text message without its text. -/
def textless (sender id : String) : Json :=
  .obj [("from", .str sender), ("id", .str id), ("type", .str "text"), ("text", .null)]

end Sample

/-- A greeting, as a part of its delivery. -/
def hello : Part := .message [] (Sample.textMessage "20100" "wamid.1" "hello")

/-- A message whose processing raises: its text is missing. -/
def broken : Part := .message [] (Sample.textless "20101" "wamid.2")

theorem hello_carries : hello.Carries "wamid.1" :=
  ⟨⟨"20100", rfl, by decide⟩, rfl, by decide⟩

theorem broken_raises (w : World) (tx : Tx) :
    Exec (sem Sample.config) w tx ([broken].forM (Part.run Sample.config)) [] .raised w tx := .raised

/-- The greeting is answered. -/
theorem hello_succeeds : ∃ tr w tx, Exec (sem Sample.config) (World.empty 0) []
    ([hello].forM (Part.run Sample.config)) tr (.returned ⟨⟩) w tx := by
  have hplay : (play (sem Sample.config) (List.replicate 29 (Sample.answer Sample.accepted))
      (World.empty 0) [] ([hello].forM (Part.run Sample.config))).any
      (fun x => (x.2.2.2 matches .ret _) = true) = true := by decide +kernel
  obtain ⟨⟨tr, w, tx, P⟩, hplay, hend⟩ := (Option.any_eq_true _ _).mp hplay
  have hret := of_decide_eq_true hend
  cases P with
  | op => cases hret
  | ret u => exact ⟨tr, w, tx, Exec.of_play hplay .ret⟩

/-- The greeting ahead of the broken message is claimed by the attempt that then raises. -/
theorem ahead_claimed_hello : ∃ d : Delivery, d.deadLettered = false ∧ Stored d.world "wamid.1" := by
  obtain ⟨tr, w, tx, hdone⟩ := hello_succeeds
  let task : Task := .webhook (Sample.delivery [Sample.textMessage "20100" "wamid.1" "hello",
    Sample.textless "20101" "wamid.2"])
  have hparts : task.parts = [hello] ++ broken :: [] := rfl
  have hrun : Exec (sem Sample.config) (World.empty 0) [] (program Sample.config task) (tr ++ [])
      .raised w tx := by
    have hdelivery : task.isDelivery = true := rfl
    rw [program_parts hdelivery, hparts, Prog.forM_append]
    exact hdone.bind .raised
  have hfails : FailsAt Sample.config task [hello] broken ⟨World.empty 0, [0], [], false⟩ _ :=
    ⟨.retried (n := 0) List.mem_cons_self (by decide) hrun, tr, w, tx, [], tx, hdone,
      broken_raises w tx⟩
  exact ⟨_, rfl, (ahead_claimed List.mem_cons_self hello_carries).1 task _ _ _ rfl hparts
    (numbered_empty 0) hfails nofun .refl⟩

/-- The broken message first. -/
def textlessFirst : Task := .webhook (Sample.delivery [Sample.textless "20101" "wamid.2",
  Sample.textMessage "20100" "wamid.1" "hello"])

/-- The `n`-th retry finds what the first attempt found. -/
theorem blocked_fails {n : Nat} (hn : n ≤ maxRetries) :
    Relation.ReflTransGen (FailsAt Sample.config textlessFirst [] broken)
      ⟨World.empty 0, [0], [], false⟩ ⟨World.empty 0, [n], [], false⟩ := by
  induction n with
  | zero => exact .refl
  | succ n ih =>
    refine .tail (ih (by omega)) ⟨?_, [], World.empty 0, [], [], [], .ret, broken_raises _ _⟩
    have hattempt : Attempt Sample.config textlessFirst ⟨World.empty 0, [n], [], false⟩
        ⟨World.empty 0, (n + 1) :: [n].erase n, [] ++ [], false⟩ :=
      .retried List.mem_cons_self (by omega) .raised
    simpa using hattempt

/-- **A message is never reached** behind one that raises: the delivery is on the dead-letter list and
the greeting is not stored. -/
theorem sibling_blocked : ¬∀ (task : Task) (ys zs : List Part) (x : Part) (d d' : Delivery),
    task.parts = ys ++ x :: zs → Numbered d.world →
    Relation.TransGen (FailsAt Sample.config task ys x) d d' → d'.pending = [] →
    (∀ p ∈ ys ++ zs, ∃ tr w tx, Exec (sem Sample.config) d'.world []
      ([p].forM (Part.run Sample.config)) tr (.returned ⟨⟩) w tx) →
    ∀ p ∈ ys ++ zs, ∀ k, p.Carries k → Stored d'.world k := by
  intro h
  have hlast : FailsAt Sample.config textlessFirst [] broken ⟨World.empty 0, [maxRetries], [], false⟩
      ⟨World.empty 0, [], [], true⟩ :=
    ⟨.exhausted (n := maxRetries) true List.mem_cons_self (Nat.le_refl _) .raised, [], World.empty 0, [],
      [], [], .ret, broken_raises _ _⟩
  have hruns := Relation.TransGen.tail' (blocked_fails (Nat.le_refl _)) hlast
  obtain ⟨m, hm, -⟩ := h textlessFirst [] [hello] broken _ _ rfl (numbered_empty 0) hruns rfl
    (fun p hp => by rw [List.mem_singleton.mp hp]; exact hello_succeeds) hello List.mem_cons_self
    "wamid.1" hello_carries
  cases hm

end Webhook
