import WhatsAppBot.Store.Proof.Writes

/-!
# Customers

Only the name of a customer's row ever changes; `User.identity` is the rest of it. `Db.Identified`:
one row for each id on a channel. A statement keeps it, and so does the commit of another transaction
that holds no key in common (`Db.Identified.interfere`); two such transactions never see different
rows under one key (`Db.Identified.agree`).
-/

set_option autoImplicit false

namespace Store

structure Identity where
  id : Nat
  channel : Channel
  externalId : String
  waId : Option String
  deriving DecidableEq

def Identity.key (x : Identity) : Channel × String := (x.channel, x.externalId)

def User.identity (u : User) : Identity := ⟨u.id, u.channel, u.externalId, u.waId⟩

def Db.identities (db : Db) : List Identity := db.users.map User.identity

def Write.newcomer : Write → Option Identity
  | .insertUser u => some u.identity
  | _ => none

/-- The customers a transaction creates. -/
def Tx.newcomers (tx : Tx) : List Identity := tx.filterMap Write.newcomer

/-- The rows of the customer with this id on the channel. -/
def Db.customers (db : Db) (channel : Channel) (externalId : String) : List Identity :=
  db.identities.filter fun x => x.key = (channel, externalId)

/-- One row for each id on a channel; the number of a WhatsApp customer is that id. -/
structure Db.Identified (db : Db) : Prop where
  one : (db.identities.map Identity.key).Nodup
  waId : ∀ x ∈ db.identities, ∀ k, x.waId = some k → x.channel = .whatsapp ∧ x.externalId = k

variable {db : Db} {tx ws mine theirs : Tx} {x y : Identity} {u : User} {v : Write}

theorem Db.identities_apply (db : Db) (v : Write) :
    (db.apply v).identities = db.identities ++ v.newcomer.toList := by
  cases v with
  | insertUser u => simp [Db.apply, insertUser, identities, Write.newcomer]
  | setUserName id name =>
    simp only [Db.apply, setUserName, identities, Write.newcomer, Option.toList_none, List.append_nil,
      List.map_map]
    refine List.map_congr_left fun u _ => ?_
    simp only [Function.comp_apply]
    split <;> rfl
  | insertConversation c =>
    simp only [Db.apply, insertConversation, Write.newcomer, Option.toList_none, List.append_nil]
    split <;> rfl
  | _ => exact (List.append_nil _).symm

theorem Db.identities_applyAll (db : Db) (tx : Tx) :
    (db.applyAll tx).identities = db.identities ++ tx.newcomers := by
  induction tx generalizing db with
  | nil => exact (List.append_nil _).symm
  | cons v tx ih =>
    rw [show db.applyAll (v :: tx) = (db.apply v).applyAll tx from rfl, ih, identities_apply,
      List.append_assoc]
    cases hv : v.newcomer with
    | none => simp [Tx.newcomers, List.filterMap_cons_none hv]
    | some x => simp [Tx.newcomers, List.filterMap_cons_some hv]

/-- A customer's key is locked until the row is committed. -/
theorem Tx.holds_newcomer (h : x ∈ tx.newcomers) :
    Tx.holds tx (.identity x.channel x.externalId) = true := by
  obtain ⟨v, hv, hx⟩ := List.mem_filterMap.mp h
  refine holds_of_mem hv ?_
  cases v with
  | insertUser u =>
    obtain rfl := Option.some.inj hx
    exact List.mem_cons_self
  | _ => cases hx

theorem Db.identity_mem (h : u ∈ db.users) : u.identity ∈ db.identities := List.mem_map_of_mem h

/-- Rows are never lost and keep their identity. -/
theorem Db.mem_identities_applyAll (h : x ∈ db.identities) (tx : Tx) :
    x ∈ (db.applyAll tx).identities := by
  rw [identities_applyAll]
  exact List.mem_append_left _ h

namespace Db.Identified

theorem eq (h : db.Identified) (hx : x ∈ db.identities) (hy : y ∈ db.identities)
    (hkey : x.key = y.key) : x = y :=
  List.inj_on_of_nodup_map h.one hx hy hkey

theorem customers (h : db.Identified) (channel : Channel) (externalId : String) :
    (db.customers channel externalId).length ≤ 1 := by
  have hcount : (db.customers channel externalId).length =
      (db.identities.map Identity.key).count (channel, externalId) := by
    simp [Db.customers, List.count, List.countP_eq_length_filter, List.filter_map,
      Function.comp_def, beq_eq_decide]
  rw [hcount]
  exact List.nodup_iff_count_le_one.mp h.one _

theorem of_same {db' : Db} (h : db.Identified) (hsame : db'.identities = db.identities) :
    db'.Identified :=
  ⟨hsame ▸ h.one, hsame ▸ h.waId⟩

theorem insert (h : db.Identified) (hnew : ∀ v ∈ db.users, v.identity.key ≠ u.identity.key)
    (hwa : ∀ k, u.waId = some k → u.channel = .whatsapp ∧ u.externalId = k) :
    (db.applyAll [.insertUser u]).Identified := by
  have hids : (db.applyAll [.insertUser u]).identities = db.identities ++ [u.identity] :=
    db.identities_applyAll _
  refine ⟨?_, fun x hx k hk => ?_⟩
  · rw [hids, List.map_append]
    refine h.one.append (List.nodup_singleton _) fun key hold hkey => ?_
    obtain ⟨x, hx, rfl⟩ := List.mem_map.mp hold
    obtain ⟨v, hv, rfl⟩ := List.mem_map.mp hx
    exact hnew v hv (List.mem_singleton.mp hkey)
  · rw [hids] at hx
    rcases List.mem_append.mp hx with hx | hx
    · exact h.waId x hx k hk
    · obtain rfl := List.mem_singleton.mp hx
      exact hwa k hk

/-- **A statement** leaves one row for each id on a channel. -/
theorem exec {now : Time} {seq : Nat} {locked : Nat → Bool} {s : Stmt} {r : s.Resp} (h : db.Identified)
    (hexec : s.exec now seq locked db = some (r, ws)) : (db.applyAll ws).Identified := by
  cases s with
  | insertUser waId name =>
    simp only [Stmt.exec] at hexec
    split at hexec
    · obtain ⟨-, rfl⟩ := Prod.mk.inj (Option.some.inj hexec)
      exact h
    · rename_i hnone
      obtain ⟨-, rfl⟩ := Prod.mk.inj (Option.some.inj hexec)
      refine h.insert (fun v hv hkey => hnone ?_) fun k hk => ⟨rfl, Option.some.inj hk⟩
      exact List.any_eq_true.mpr ⟨v, hv, decide_eq_true (.inr (Prod.mk.inj hkey))⟩
  | insertChannelUser channel externalId name =>
    simp only [Stmt.exec] at hexec
    split at hexec
    · obtain ⟨-, rfl⟩ := Prod.mk.inj (Option.some.inj hexec)
      exact h
    · rename_i hnone
      obtain ⟨-, rfl⟩ := Prod.mk.inj (Option.some.inj hexec)
      refine h.insert (fun v hv hkey => hnone ?_) fun k hk => by cases hk
      exact List.any_eq_true.mpr ⟨v, hv, decide_eq_true (Prod.mk.inj hkey)⟩
  | _ =>
    have hnone : ws.newcomers = [] := by
      refine List.filterMap_eq_nil_iff.mpr fun v hv => ?_
      have hmade := Stmt.exec_made hexec hv
      cases v with
      | insertUser => rcases hmade with ⟨_, _, hs⟩ | ⟨_, _, _, hs⟩ <;> cases hs
      | _ => rfl
    exact h.of_same (by rw [identities_applyAll, hnone, List.append_nil])

variable (hm : (db.applyAll mine).Identified) (ht : (db.applyAll theirs).Identified)
  (hexcl : ∀ l, Tx.holds mine l = true → Tx.holds theirs l = false)
include hm ht hexcl

/-- Two open transactions see the same row under one key. -/
theorem agree (hx : x ∈ (db.applyAll mine).identities) (hy : y ∈ (db.applyAll theirs).identities)
    (hkey : x.key = y.key) : x = y := by
  rw [identities_applyAll, List.mem_append] at hx hy
  rcases hx with hx | hx
  · refine ht.eq (mem_identities_applyAll hx theirs) ?_ hkey
    rw [identities_applyAll, List.mem_append]
    exact hy
  · rcases hy with hy | hy
    · refine hm.eq ?_ (mem_identities_applyAll hy mine) hkey
      rw [identities_applyAll]
      exact List.mem_append_right _ hx
    · -- both have created it: one of them waits for the other's key
      obtain ⟨hchannel, hexternal⟩ := Prod.mk.inj hkey
      have hfree := hexcl _ (Tx.holds_newcomer hx)
      rw [hchannel, hexternal, Tx.holds_newcomer hy] at hfree
      cases hfree

/-- **The commit of another transaction** leaves one row for each id on a channel. -/
theorem interfere : ((db.applyAll theirs).applyAll mine).Identified := by
  have hids := identities_applyAll (db.applyAll theirs) mine
  have hmem : ∀ {x}, x ∈ mine.newcomers → x ∈ (db.applyAll mine).identities := fun hx => by
    rw [identities_applyAll]
    exact List.mem_append_right _ hx
  refine ⟨?_, fun x hx k hk => ?_⟩
  · have hnodup := hm.one
    rw [identities_applyAll, List.map_append] at hnodup
    rw [hids, List.map_append]
    refine ht.one.append (List.nodup_append.mp hnodup).2.1 fun key hold hnew => ?_
    obtain ⟨y, hy, rfl⟩ := List.mem_map.mp hold
    obtain ⟨x, hx, hkey⟩ := List.mem_map.mp hnew
    obtain rfl := hm.agree ht hexcl (hmem hx) hy hkey
    rw [identities_applyAll, List.mem_append] at hy
    rcases hy with hy | hy
    · exact List.disjoint_of_nodup_append hnodup (List.mem_map_of_mem hy) (List.mem_map_of_mem hx)
    · have hfree := hexcl _ (Tx.holds_newcomer hx)
      rw [Tx.holds_newcomer hy] at hfree
      cases hfree
  · rw [hids, List.mem_append] at hx
    exact hx.elim (fun hx => ht.waId x hx k hk) fun hx => hm.waId x (hmem hx) k hk

end Db.Identified

end Store
