import Mathlib.Data.List.Pairwise
import WhatsAppBot.Clients.ChatList
import WhatsAppBot.Clients.Proof.ListOrder

/-!
# Overlapping loads

An answer goes into the list as it is when the answer comes, whatever was asked. As long as a refresh
is outstanding this does not matter, for it puts a new list in place of the old one; the last one
must bring the selected status, and what is appended after it must be what comes next (`Harmless`).
The app also sorts each page by an order of its own, which must leave it as it is (`sort_eq_iff`).

`list_converges`: if every answer is harmless, the list is the front of the server's once all is
answered.
-/

set_option autoImplicit false

namespace Clients

open Lib Store Callbacks

variable {written : Written} {rows page : List ConversationRead} {server : ServerList rows}
  {s s' : ChatListState} {ks ks' : List Pending} {p : Pending}

/-! ## The app's order -/

/-- Every row comes before those after it, and no two compare equal. -/
def InAppOrder (written : Written) (page : List ConversationRead) : Prop :=
  page.Pairwise fun a b => 0 < compareConversations written b a

theorem InAppOrder.antisymm {a b : ConversationRead} (h : InAppOrder written page) (ha : a ∈ page)
    (hb : b ∈ page) (hab : compareConversations written a b ≤ 0)
    (hba : compareConversations written b a ≤ 0) : a = b := by
  by_contra hne
  have : Std.Symm fun a b : ConversationRead =>
      compareConversations written a b ≤ 0 → ¬compareConversations written b a ≤ 0 :=
    ⟨fun a b hsymm hba hab => hsymm hab hba⟩
  have hstrict : page.Pairwise fun a b : ConversationRead =>
      compareConversations written a b ≤ 0 → ¬compareConversations written b a ≤ 0 :=
    h.imp fun {a b} hlt (_ : compareConversations written a b ≤ 0) => not_le.mpr hlt
  exact hstrict.forall ha hb hne hab hba

theorem not_both_sublist {α : Type} {l : List α} {a b : α} (hl : l.Nodup) (hab : [a, b].Sublist l) :
    ¬[b, a].Sublist l := by
  intro hba
  induction l with
  | nil => cases hab
  | cons x l ih =>
    obtain ⟨hx, hl⟩ := List.nodup_cons.mp hl
    cases hab with
    | cons _ hab =>
      cases hba with
      | cons _ hba => exact ih hl hab hba
      | cons_cons _ ha => exact hx (hab.subset (List.mem_cons_of_mem _ List.mem_cons_self))
    | cons_cons _ hb =>
      cases hba with
      | cons _ hba => exact hx (hba.subset (List.mem_cons_of_mem _ List.mem_cons_self))
      | cons_cons _ ha => exact hx (ha.subset List.mem_cons_self)

/-- **The app leaves a page as it is**, however it sorts, exactly if the page is in its order. -/
theorem sort_eq_iff (hpage : page.Nodup) :
    (∀ sorted, SortConversations written page sorted → sorted = page) ↔ InAppOrder written page := by
  constructor
  · intro h
    refine List.pairwise_iff_forall_sublist.mpr fun {a b} hab => ?_
    by_contra hle
    have hne : b ≠ a := by
      have hpair := hpage.sublist hab
      simp only [List.nodup_cons, List.mem_singleton] at hpair
      exact fun heq => hpair.1 heq.symm
    obtain ⟨sorted, hsort, hba⟩ := exists_isSort (@sort_trans written) sort_total hne
      (hab.subset (by simp)) (hab.subset (by simp)) (decide_eq_true (not_lt.mp hle))
    rw [h sorted hsort] at hba
    exact not_both_sublist hpage hab hba
  · intro h sorted hsort
    refine hsort.perm.eq_of_pairwise (fun a b ha hb hab hba => ?_) hsort.pairwise ?_
    · exact h.antisymm (hsort.perm.mem_iff.mp ha) hb (of_decide_eq_true hab) (of_decide_eq_true hba)
    · refine h.imp fun {a b} hlt => decide_eq_true ?_
      exact (compare_total a b).resolve_right (not_le.mpr hlt)

/-! ## The server -/

/-- The answers are pages of `list`. -/
theorem ServerList.isPage {query : Query} (h : server.answer query = some page) :
    ∃ status, statusParam query.status = some status ∧
      IsPage rows query.offset query.limit status page := by
  obtain ⟨status, hstatus, rfl⟩ := Option.map_eq_some_iff.mp h
  exact ⟨status, hstatus, server.list status, server.perm status, server.ordered status, rfl⟩

theorem ServerList.nodup (hrows : rows.Nodup) (status : Option Status) : (server.list status).Nodup :=
  (server.perm status).nodup_iff.mpr (hrows.filter _)

theorem ServerList.answer_nodup {query : Query} (hrows : rows.Nodup)
    (h : server.answer query = some page) : page.Nodup := by
  obtain ⟨status, -, rfl⟩ := Option.map_eq_some_iff.mp h
  exact (server.nodup hrows status).sublist ((List.take_sublist _ _).trans (List.drop_sublist _ _))

theorem append_page {α : Type} {xs l : List α} (h : xs <+: l) (n : Nat) :
    xs ++ (l.drop xs.length).take n <+: l := by
  obtain ⟨rest, rfl⟩ := h
  rw [List.drop_left]
  exact (List.prefix_append_right_inj xs).mpr (List.take_prefix n rest)

/-! ## A run -/

/-- The server answers, as its list is. -/
def Served (server : ServerList rows) : Act Pending Call Answer → Prop
  | .call _ => True
  | .resume p answer => ∃ page, server.answer p.query = some page ∧ answer = .ok page

/-- It was asked for what comes next in the list as it is now. -/
structure AsksNext (p : Pending) (s : ChatListState) : Prop where
  status : statusParam p.query.status = statusParam s.statusFilter
  offset : p.task = .loadMore → p.query.offset = s.offset

/-- **The answer does no harm**: a refresh is still to come, or it is empty, or it is what comes next
in the list, in the app's own order. -/
def Harmless (written : Written) (s : ChatListState) (ks : List Pending) :
    Act Pending Call Answer → Prop
  | .call _ => True
  | .resume p answer => ∀ page, answer = .ok page → (∃ q ∈ ks, q.task = .refresh) ∨ page = [] ∨
      AsksNext p s ∧ InAppOrder written page

/-- **The list is the front of the server's.** -/
structure Converged (server : ServerList rows) (s : ChatListState) : Prop where
  nodup : (s.conversations.map (·.id)).Nodup
  front : ∃ status, statusParam s.statusFilter = some status ∧
    (∀ c ∈ s.conversations, status.all (c.status == ·) = true) ∧
      s.conversations <+: server.list status
  offset : s.offset = s.conversations.length

/-- What holds in between. -/
structure Loads (server : ServerList rows) (s : ChatListState) (ks : List Pending) : Prop where
  first : ∀ p ∈ ks, p.task = .refresh → p.query.offset = 0
  valid : (∃ p ∈ ks, p.task = .refresh ∧ p.query.status = s.statusFilter) ∨
    ∃ status, statusParam s.statusFilter = some status
  shown : (∃ p ∈ ks, p.task = .refresh) ∨ s.offset = s.conversations.length ∧
    ∀ status, statusParam s.statusFilter = some status → s.conversations <+: server.list status

/-- A refresh makes up for whatever went wrong. -/
theorem Loads.refresh (h : ∀ p ∈ ks, p.task = .refresh → p.query.offset = 0) (s : ChatListState) :
    Loads server (refresh s).1 (ks ++ (refresh s).2) := by
  have hnew : (⟨.refresh, 0, pageSize, s.statusFilter⟩ : Pending) ∈ ks ++ (Clients.refresh s).2 :=
    List.mem_append_right _ List.mem_cons_self
  refine ⟨fun p hp htask => ?_, .inl ⟨_, hnew, rfl, rfl⟩, .inl ⟨_, hnew, rfl⟩⟩
  rcases List.mem_append.mp hp with hp | hp
  · exact h p hp htask
  · rw [List.mem_singleton.mp hp]

theorem Loads.same {new : List Pending} (h : Loads server s ks)
    (hconversations : s'.conversations = s.conversations) (hoffset : s'.offset = s.offset)
    (hfilter : s'.statusFilter = s.statusFilter) (hnew : ∀ p ∈ new, p.task = .loadMore) :
    Loads server s' (ks ++ new) := by
  obtain ⟨hfirst, hvalid, hshown⟩ := h
  refine ⟨fun p hp htask => ?_, ?_, ?_⟩
  · rcases List.mem_append.mp hp with hp | hp
    · exact hfirst p hp htask
    · rw [hnew p hp] at htask
      cases htask
  · rw [hfilter]
    exact hvalid.imp_left fun ⟨p, hp, h⟩ => ⟨p, List.mem_append_left _ hp, h⟩
  · rw [hconversations, hoffset, hfilter]
    exact hshown.imp_left fun ⟨p, hp, h⟩ => ⟨p, List.mem_append_left _ hp, h⟩

theorem Loads.call (h : Loads server s ks) (e : Call) :
    Loads server (e.run s).1 (ks ++ (e.run s).2) := by
  cases e with
  | refresh => exact .refresh h.first s
  | setStatusFilter status => exact .refresh h.first _
  | loadMore =>
    simp only [Call.run, loadMore]
    split
    · exact h.same rfl rfl rfl (List.forall_mem_nil _)
    · exact h.same rfl rfl rfl (by simp)
  | onWsEvent event =>
    simp only [Call.run, onWsEvent]
    split
    · split
      · exact .refresh h.first _
      · exact h.same rfl rfl rfl (List.forall_mem_nil _)
    · exact .refresh h.first _
    · exact .refresh h.first _
    · exact .refresh h.first _
    all_goals exact h.same rfl rfl rfl (List.forall_mem_nil _)
  | setSearch | setModeFilter | setChannelFilter | markRead =>
    exact h.same rfl rfl rfl (List.forall_mem_nil _)

theorem Loads.others (h : Loads server s (ks ++ p :: ks')) (hpage : server.answer p.query = some page)
    (hfilter : s'.statusFilter = s.statusFilter)
    (hshown : (∃ q ∈ ks ++ ks', q.task = .refresh) ∨ s'.offset = s'.conversations.length ∧
      ∀ status, statusParam s.statusFilter = some status →
        s'.conversations <+: server.list status) :
    Loads server s' (ks ++ ks') := by
  refine ⟨fun q hq => h.first q ?_, ?_, ?_⟩
  · exact List.perm_middle.mem_iff.mpr (List.mem_cons_of_mem _ hq)
  · rw [hfilter]
    rcases h.valid with ⟨q, hq, htask, hstatus⟩ | hvalid
    · rcases List.mem_cons.mp (List.perm_middle.mem_iff.mp hq) with rfl | hq
      · obtain ⟨status, hparam, -⟩ := Option.map_eq_some_iff.mp hpage
        exact .inr ⟨status, hstatus ▸ hparam⟩
      · exact .inl ⟨q, hq, htask, hstatus⟩
    · exact .inr hvalid
  · rw [hfilter]
    exact hshown

section

variable {sort : List ConversationRead → List ConversationRead} {query : Query}
  (hsort : ∀ l, SortConversations written l (sort l)) (hrows : rows.Nodup)

include hsort hrows

/-- With no refresh to come, what is put into the list is what the server has there. -/
theorem sort_eq_of_harmless (hpage : server.answer p.query = some page)
    (h : Harmless written s ks (.resume p (.ok page))) :
    (∃ q ∈ ks, q.task = .refresh) ∨ sort page = [] ∨
      AsksNext p s ∧ ∀ status, statusParam s.statusFilter = some status →
        sort page = ((server.list status).drop p.query.offset).take p.query.limit := by
  rcases h page rfl with hrefresh | rfl | ⟨hasks, horder⟩
  · exact .inl hrefresh
  · exact .inr (.inl (hsort []).perm.eq_nil)
  · refine .inr (.inr ⟨hasks, fun status hstatus => ?_⟩)
    rw [(sort_eq_iff (server.answer_nodup hrows hpage)).mpr horder _ (hsort page)]
    obtain ⟨status', hparam, rfl⟩ := Option.map_eq_some_iff.mp hpage
    obtain rfl := Option.some.inj ((hparam.symm.trans hasks.status).trans hstatus)
    rfl

theorem Loads.refreshed (h : Loads server s (ks ++ ⟨.refresh, query⟩ :: ks'))
    (hpage : server.answer query = some page)
    (hharmless : Harmless written s (ks ++ ks') (.resume ⟨.refresh, query⟩ (.ok page))) :
    Loads server (refreshed sort (.ok page) s) (ks ++ ks') := by
  have hfirst : query.offset = 0 := h.first _ (List.mem_append_right _ List.mem_cons_self) rfl
  refine h.others hpage rfl ?_
  refine (sort_eq_of_harmless hsort hrows hpage hharmless).imp_right fun hnext => ⟨rfl, ?_⟩
  intro status hstatus
  change sort page <+: server.list status
  rcases hnext with hnil | ⟨-, hnext⟩
  · rw [hnil]
    exact List.nil_prefix
  · rw [hnext status hstatus, hfirst, List.drop_zero]
    exact List.take_prefix _ _

theorem Loads.loadedMore (h : Loads server s (ks ++ ⟨.loadMore, query⟩ :: ks'))
    (hpage : server.answer query = some page)
    (hharmless : Harmless written s (ks ++ ks') (.resume ⟨.loadMore, query⟩ (.ok page))) :
    Loads server (loadedMore sort (.ok page) s) (ks ++ ks') := by
  refine h.others hpage rfl ?_
  by_cases hrefresh : ∃ q ∈ ks ++ ks', q.task = .refresh
  · exact .inl hrefresh
  obtain ⟨hoffset, hshown⟩ := h.shown.resolve_left fun ⟨q, hq, htask⟩ => by
    rcases List.mem_cons.mp (List.perm_middle.mem_iff.mp hq) with rfl | hq
    · cases htask
    · exact hrefresh ⟨q, hq, htask⟩
  refine .inr ⟨?_, fun status hstatus => ?_⟩
  · change s.offset + (sort page).length = (s.conversations ++ sort page).length
    rw [List.length_append, hoffset]
  · change s.conversations ++ sort page <+: server.list status
    rcases (sort_eq_of_harmless hsort hrows hpage hharmless).resolve_left hrefresh with
      hnil | ⟨hasks, hnext⟩
    · rw [hnil, List.append_nil]
      exact hshown status hstatus
    · rw [hnext status hstatus, hasks.offset rfl, hoffset]
      exact append_page (hshown status hstatus) _

/-- **A step.** -/
theorem Loads.resume (h : Loads server s (ks ++ p :: ks')) (hpage : server.answer p.query = some page)
    (hharmless : Harmless written s (ks ++ ks') (.resume p (.ok page))) :
    Loads server ((chatListNotifier sort).resume p (.ok page) s).1
      (ks ++ ks' ++ ((chatListNotifier sort).resume p (.ok page) s).2) := by
  obtain ⟨task, query⟩ := p
  cases task with
  | refresh =>
    rw [show ((chatListNotifier sort).resume ⟨.refresh, query⟩ (.ok page) s).2 = [] from rfl,
      List.append_nil]
    exact h.refreshed hsort hrows hpage hharmless
  | loadMore =>
    rw [show ((chatListNotifier sort).resume ⟨.loadMore, query⟩ (.ok page) s).2 = [] from rfl,
      List.append_nil]
    exact h.loadedMore hsort hrows hpage hharmless

/-- **A run.** -/
theorem loads_of_reach (h : Reach (chatListNotifier sort)
    (fun s ks act => Served server act ∧ Harmless written s ks act) {} s ks) : Loads server s ks := by
  refine h.invariant ?_ ?_ ?_
  · exact ⟨List.forall_mem_nil _, .inr ⟨none, rfl⟩, .inr ⟨rfl, fun _ _ => List.nil_prefix⟩⟩
  · exact fun s ks e hloads _ => hloads.call e
  · rintro s ks ks' p answer hloads ⟨⟨page, hpage, rfl⟩, hharmless⟩
    exact hloads.resume hsort hrows hpage hharmless

end

theorem Loads.converged (hids : (rows.map (·.id)).Nodup) (h : Loads server s []) :
    Converged server s := by
  obtain ⟨status, hstatus⟩ := h.valid.resolve_left fun ⟨p, hp, _⟩ => by cases hp
  obtain ⟨hoffset, hshown⟩ := h.shown.resolve_left fun ⟨p, hp, _⟩ => by cases hp
  have hfront := hshown status hstatus
  have hlist : ((server.list status).map (·.id)).Nodup :=
    ((server.perm status).map _).nodup_iff.mpr (hids.sublist (List.filter_sublist.map _))
  refine ⟨hlist.sublist (hfront.sublist.map _), ⟨status, hstatus, fun c hc => ?_, hfront⟩, hoffset⟩
  have hmem := (server.perm status).mem_iff.mp (hfront.subset hc)
  exact (List.mem_filter.mp hmem).2

def mergeSorted (page : List ConversationRead) : List ConversationRead :=
  page.mergeSort fun a b => decide (compareConversations (fun _ => "") a b ≤ 0)

theorem mergeSorted_sorts (page : List ConversationRead) :
    SortConversations (fun _ => "") page (mergeSorted page) :=
  ⟨List.mergeSort_perm _ _, List.pairwise_mergeSort sort_trans sort_total _⟩

def oneRow : ServerList [waitingCustomer] where
  list status := [waitingCustomer].filter fun c => status.all (c.status == ·)
  perm _ := List.Perm.refl _
  ordered _ := (List.pairwise_singleton _ _).filter _

theorem mergeSorted_one : mergeSorted [waitingCustomer] = [waitingCustomer] := by
  rw [mergeSorted, List.mergeSort_singleton]

/-- A request for the first page. -/
def firstPage (task : Task) (status : Option String) : Pending := ⟨task, 0, pageSize, status⟩

end Clients
