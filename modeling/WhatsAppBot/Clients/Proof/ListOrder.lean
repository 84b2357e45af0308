import Mathlib.Data.String.Basic
import WhatsAppBot.Clients.Conversations

/-!
# One order, three clients

The app's comparison is a total preorder (`compare_nonpos_iff`), so that sorting a page again is
`Lib.resort_iff`. `lists_agree_iff` says for which pages the app keeps the server's order and all
three see the same unclaimed leads.
-/

set_option autoImplicit false

namespace Clients

open Lib Store

variable {written : Written} {a b c : ConversationRead}

theorem compareTo_nonpos_iff {x y : String} : compareTo x y ≤ 0 ↔ x ≤ y := by
  unfold compareTo
  split
  · rename_i h
    exact iff_of_true (by decide) h.le
  · rename_i h
    split
    · rename_i heq
      exact iff_of_true le_rfl heq.le
    · rename_i hne
      exact iff_of_false (by decide) fun hle => h (lt_of_le_of_ne hle hne)

theorem compare_nonpos_iff : compareConversations written a b ≤ 0 ↔
    mobileLead b < mobileLead a ∨
      mobileLead a = mobileLead b ∧ written b.updatedAt ≤ written a.updatedAt := by
  unfold compareConversations
  by_cases hlead : mobileLead a = mobileLead b
  · rw [if_neg (not_not_intro hlead), compareTo_nonpos_iff]
    simp [hlead]
  · rw [if_pos hlead]
    simp only [hlead, false_and, or_false]
    omega

theorem compare_trans (hab : compareConversations written a b ≤ 0)
    (hbc : compareConversations written b c ≤ 0) : compareConversations written a c ≤ 0 := by
  rw [compare_nonpos_iff] at *
  rcases hab with hab | ⟨hab, htab⟩
  · rcases hbc with hbc | ⟨hbc, -⟩
    · exact .inl (by omega)
    · exact .inl (by omega)
  · rcases hbc with hbc | ⟨hbc, htbc⟩
    · exact .inl (by omega)
    · exact .inr ⟨hab.trans hbc, htbc.trans htab⟩

theorem compare_total (a b : ConversationRead) :
    compareConversations written a b ≤ 0 ∨ compareConversations written b a ≤ 0 := by
  rw [compare_nonpos_iff, compare_nonpos_iff]
  rcases lt_trichotomy (mobileLead a) (mobileLead b) with h | h | h
  · exact .inr (.inl h)
  · rcases le_total (written b.updatedAt) (written a.updatedAt) with ht | ht
    · exact .inl (.inr ⟨h, ht⟩)
    · exact .inr (.inr ⟨h.symm, ht⟩)
  · exact .inl (.inl h)

theorem sort_trans (a b c : ConversationRead)
    (hab : decide (compareConversations written a b ≤ 0) = true)
    (hbc : decide (compareConversations written b c ≤ 0) = true) :
    decide (compareConversations written a c ≤ 0) = true :=
  decide_eq_true (compare_trans (of_decide_eq_true hab) (of_decide_eq_true hbc))

theorem sort_total (a b : ConversationRead) :
    (decide (compareConversations written a b ≤ 0) ||
      decide (compareConversations written b a ≤ 0)) = true := by
  simpa using compare_total a b

theorem orderBy_refl (k : Nat × Time) : OrderBy k k := .inr ⟨rfl, le_rfl⟩

theorem orderBy_antisymm (j k : Nat × Time) (hjk : OrderBy j k) (hkj : OrderBy k j) : j = k := by
  rcases hjk with hlt | ⟨hsame, hle⟩
  · rcases hkj with hlt' | ⟨hsame', -⟩ <;> omega
  · rcases hkj with hlt' | ⟨-, hle'⟩
    · omega
    · exact Prod.ext hsame (le_antisymm hle' hle)

theorem IsPage.pairwise {rows page : List ConversationRead} {offset limit : Nat}
    {status : Option Status} (h : IsPage rows offset limit status page) :
    page.Pairwise fun a b => OrderBy (orderKey a) (orderKey b) := by
  obtain ⟨ordered, -, hordered, rfl⟩ := h
  exact hordered.sublist ((List.take_sublist _ _).trans (List.drop_sublist _ _))

/-! ## Leads -/

/-- A sales lead is active exactly while it waits for an operator, and no operator is nameless. -/
structure LeadWaits (c : ConversationRead) : Prop where
  active_iff : c.tag = some tagSalesLead →
    (c.status = .active ↔ c.mode = .human ∧ c.assignedOperator = none)
  named : c.tag = some tagSalesLead → c.mode = .human → c.assignedOperator ≠ some ""

/-- The three see the same. -/
def SameLead (c : ConversationRead) : Prop :=
  (mobileLead c = 1 ↔ unclaimedLead c = true) ∧ (isUnclaimedLead c = true ↔ unclaimedLead c = true)

theorem mobileLead_iff : mobileLead c = 1 ↔ c.tag = some tagSalesLead ∧ c.status = .active := by
  simp [mobileLead]

theorem unclaimedLead_iff : unclaimedLead c = true ↔ c.status = .active ∧
    c.tag = some tagSalesLead ∧ c.mode = .human ∧ c.assignedOperator = none := by
  simp only [unclaimedLead, Bool.and_eq_true, beq_iff_eq, and_assoc]

theorem isUnclaimedLead_iff : isUnclaimedLead c = true ↔ c.tag = some tagSalesLead ∧
    c.mode = .human ∧ (c.assignedOperator = none ∨ c.assignedOperator = some "") := by
  cases hoperator : c.assignedOperator <;> simp [isUnclaimedLead, hoperator, and_assoc]

theorem sameLead_iff : SameLead c ↔ LeadWaits c := by
  unfold SameLead
  rw [mobileLead_iff, isUnclaimedLead_iff, unclaimedLead_iff]
  constructor
  · rintro ⟨hmobile, hdashboard⟩
    refine ⟨fun htag => ⟨fun hactive => ?_, fun ⟨hhuman, hnone⟩ => ?_⟩, fun htag hhuman hempty => ?_⟩
    · exact (hmobile.mp ⟨htag, hactive⟩).2.2
    · exact (hdashboard.mp ⟨htag, hhuman, .inl hnone⟩).1
    · have hnone := (hdashboard.mp ⟨htag, hhuman, .inr hempty⟩).2.2.2
      rw [hempty] at hnone
      cases hnone
  · intro h
    constructor
    · constructor
      · rintro ⟨htag, hactive⟩
        exact ⟨hactive, htag, (h.active_iff htag).mp hactive⟩
      · rintro ⟨hactive, htag, -⟩
        exact ⟨htag, hactive⟩
    · constructor
      · rintro ⟨htag, hhuman, hnone | hempty⟩
        · exact ⟨(h.active_iff htag).mpr ⟨hhuman, hnone⟩, htag, hhuman, hnone⟩
        · exact absurd hempty (h.named htag hhuman)
      · rintro ⟨-, htag, hhuman, hnone⟩
        exact ⟨htag, hhuman, .inl hnone⟩

theorem SameLead.first (h : SameLead c) :
    (unclaimedLeadFirst c : Int) = 1 - mobileLead c := by
  have hmobile := h.1
  unfold unclaimedLeadFirst
  by_cases hlead : unclaimedLead c = true
  · rw [if_pos hlead, hmobile.mpr hlead]
    rfl
  · have hzero : mobileLead c = 0 := by
      have hne : ¬ mobileLead c = 1 := fun hone => hlead (hmobile.mp hone)
      revert hne
      unfold mobileLead
      split <;> simp
    rw [if_neg hlead, hzero]
    rfl

/-- Where the leads are the same, the app disagrees with the server only about times. -/
theorem orderBy_of_compare_iff (ha : SameLead a) (hb : SameLead b) :
    (compareConversations written a b ≤ 0 → OrderBy (orderKey a) (orderKey b)) ↔
      (unclaimedLeadFirst a = unclaimedLeadFirst b → a.updatedAt < b.updatedAt →
        written a.updatedAt < written b.updatedAt) := by
  have hfirst := ha.first
  have hfirst' := hb.first
  rw [compare_nonpos_iff]
  simp only [OrderBy, orderKey]
  constructor
  · intro h hsame hlater
    by_contra hle
    rcases h (.inr ⟨by omega, not_lt.mp hle⟩) with hlt | ⟨-, hle'⟩
    · omega
    · exact absurd hlater (not_lt.mpr hle')
  · rintro h (hlead | ⟨hlead, hle⟩)
    · exact .inl (by omega)
    · have hsame : unclaimedLeadFirst a = unclaimedLeadFirst b := by omega
      exact .inr ⟨hsame, not_lt.mp fun hlater => absurd (h hsame hlater) (not_lt.mpr hle)⟩

/-- **The lists agree**: every way to sort the page again leaves its order, and all three see the
same leads. -/
theorem lists_agree_iff (written : Written) (rows : List ConversationRead) (offset limit : Nat)
    (status : Option Status) (page : List ConversationRead)
    (hpage : IsPage rows offset limit status page) :
    ((∀ sorted, SortConversations written page sorted →
        sorted.map orderKey = page.map orderKey) ∧ ∀ c ∈ page, SameLead c) ↔
      (∀ c ∈ page, LeadWaits c) ∧ ∀ a ∈ page, ∀ b ∈ page,
        unclaimedLeadFirst a = unclaimedLeadFirst b → a.updatedAt < b.updatedAt →
          written a.updatedAt < written b.updatedAt := by
  have hresort := resort_iff (@sort_trans written) sort_total orderBy_refl orderBy_antisymm
    hpage.pairwise
  simp only [decide_eq_true_eq] at hresort
  rw [show (∀ c ∈ page, LeadWaits c) ↔ ∀ c ∈ page, SameLead c by simp only [sameLead_iff], and_comm]
  refine and_congr_right fun hlead => ?_
  refine hresort.trans ?_
  constructor
  · intro h a ha b hb
    exact (orderBy_of_compare_iff (hlead a ha) (hlead b hb)).mp (h a ha b hb)
  · intro h a ha b hb
    exact (orderBy_of_compare_iff (hlead a ha) (hlead b hb)).mpr (h a ha b hb)

/-! ## Three rows -/

def waitingCustomer : ConversationRead where
  id := 1
  userId := 1
  channel := .whatsapp
  status := .active
  mode := .bot
  tag := none
  assignedOperator := none
  assignedOperatorId := none
  handoffAt := none
  lastActivityAt := 60
  welcomeSentAt := none
  closingSentAt := none
  closedAt := none
  createdAt := 0
  updatedAt := 60

def lead : ConversationRead :=
  { waitingCustomer with id := 2, mode := .human, tag := some tagSalesLead, updatedAt := 30 }

/-- `lead` after Take Over. -/
def claimedLead : ConversationRead := { lead with assignedOperator := some "operator" }

theorem isPage_self {page : List ConversationRead}
    (h : page.Pairwise fun a b => OrderBy (orderKey a) (orderKey b)) :
    IsPage page 0 page.length none page := by
  refine ⟨page, ?_, h, ?_⟩
  · simp
  · rw [List.drop_zero, List.take_length]

/-- The page of an unclaimed lead stays as it is. -/
theorem lead_on_top :
    (∀ sorted, SortConversations (fun _ => "") [lead, waitingCustomer] sorted →
      sorted.map orderKey = [lead, waitingCustomer].map orderKey) ∧
        ∀ c ∈ [lead, waitingCustomer], SameLead c := by
  refine (lists_agree_iff (fun _ => "") _ 0 2 none _ (isPage_self ?_)).mpr ⟨?_, ?_⟩
  · simp [OrderBy, orderKey, unclaimedLeadFirst, unclaimedLead, lead, waitingCustomer]
  · intro c hc
    rw [← sameLead_iff]
    simp only [List.mem_cons, List.not_mem_nil, or_false] at hc
    rcases hc with rfl | rfl <;> exact ⟨by decide, by decide⟩
  · simp [unclaimedLeadFirst, unclaimedLead, lead, waitingCustomer]

/-- A lead somebody has taken is put above the customer who waits; once it is closed, the dashboard
still marks it; and a time on the full second sorts as the later one. -/
theorem claimed_lead_on_top :
    (IsPage [waitingCustomer, claimedLead] 0 2 none [waitingCustomer, claimedLead] ∧
      ∀ written, SortConversations written [waitingCustomer, claimedLead]
          [claimedLead, waitingCustomer] ∧
        [claimedLead, waitingCustomer].map orderKey
          ≠ [waitingCustomer, claimedLead].map orderKey) ∧
    (isUnclaimedLead { lead with status := .closed } = true ∧
      unclaimedLead { lead with status := .closed } = false) ∧
    "1970-01-01T00:00:00.500000Z" < "1970-01-01T00:00:00Z" := by
  refine ⟨⟨isPage_self ?_, fun written => ⟨⟨List.Perm.swap _ _ _, ?_⟩, by decide⟩⟩,
    ⟨by decide, by decide⟩, by decide⟩
  · simp [OrderBy, orderKey, unclaimedLeadFirst, unclaimedLead, lead, claimedLead, waitingCustomer]
  · simp [compareConversations, mobileLead, lead, claimedLead, waitingCustomer]

end Clients
