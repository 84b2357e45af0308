import WhatsAppBot.Lib.Url

/-!
# Credentials, host and port

What `SplitResult` reads off a `netloc` (`isHost_hostPort`), and a `netloc` that is put together from
credentials, a host and a port: its parts (`hostPort_withHost`) and when it passes the check of its
brackets (`checkBrackets_iff`).
-/

set_option autoImplicit false

namespace Lib

/-- A host with a colon in it is put in brackets. -/
def withBrackets (host : Chars) : Chars := if ':' ∈ host then '[' :: host ++ [']'] else host

/-- What a host that is read off a `netloc` is. -/
structure IsHost (host : Chars) : Prop where
  at_notMem : '@' ∉ host
  not_both : ¬('[' ∈ host ∧ ']' ∈ host)
  address : ':' ∈ host → ']' ∉ host ∧ checkBracketedHost host = true

variable {p : SplitResult} {netloc front host port user password info : Chars}

theorem splitTail_nil (c : Char) (back : Chars) : splitTail c (withTail c back) = ([], back) :=
  splitTail_append List.not_mem_nil back

/-! ## Putting together -/

theorem hostPort_withBrackets (h : ':' ∈ host ∧ ']' ∉ host ∨ '[' ∉ host ∧ ':' ∉ host)
    (hport : '[' ∉ port) : hostPort (withBrackets host ++ withTail ':' port) = (host, port) := by
  unfold hostPort withBrackets
  rcases h with ⟨hcolon, hclose⟩ | ⟨hopen, hcolon⟩
  · have hcut : cut '[' ('[' :: host ++ [']'] ++ withTail ':' port) =
        ([], some (host ++ ']' :: withTail ':' port)) := by
      rw [← List.nil_append ('[' :: host ++ [']'] ++ withTail ':' port)]
      simpa using @cut_append Char _ '[' [] (host ++ ']' :: withTail ':' port) List.not_mem_nil
    rw [if_pos hcolon, hcut]
    dsimp only
    rw [splitTail, cut_append hclose]
    dsimp only
    rw [Option.getD_some, splitTail_nil]
  · have hnone : '[' ∉ host ++ withTail ':' port := fun h => by
      rcases List.mem_append.mp h with h | h
      · exact hopen h
      · exact (mem_withTail h).elim (by decide) hport
    rw [if_neg hcolon, cut_of_notMem hnone]
    exact splitTail_append hcolon port

theorem userinfo_of (hnetloc : p.netloc = user ++ ':' :: password ++ '@' :: info) (huser : ':' ∉ user)
    (hinfo : '@' ∉ info) : p.userinfo = (some user, some password) := by
  rw [SplitResult.userinfo, hnetloc, rcut_append hinfo]
  dsimp only
  rw [cut_append huser]

theorem hostinfo_of (hnetloc : p.netloc = front ++ '@' :: info) (hinfo : '@' ∉ info) :
    p.hostinfo = ((hostPort info).1,
      if (hostPort info).2.isEmpty then none else some (hostPort info).2) := by
  rw [SplitResult.hostinfo, hnetloc, rcut_append hinfo]

/-! ## Reading off -/

theorem rcut_back (c : Char) (netloc : Chars) :
    c ∉ (rcut c netloc).2 ∧ ∀ d ∈ (rcut c netloc).2, d ∈ netloc := by
  rcases rcut_cases c netloc with ⟨hnot, hcut⟩ | ⟨front, back, hnot, rfl, hcut⟩
  · rw [hcut]
    exact ⟨hnot, fun d hd => hd⟩
  · rw [hcut]
    exact ⟨hnot, fun d hd => List.mem_append_right _ (List.mem_cons_of_mem _ hd)⟩

theorem checkBracketedNetloc_of (h : checkBrackets netloc = true) (hopen : '[' ∈ netloc) :
    checkBracketedNetloc netloc = true := by
  unfold checkBrackets at h
  split at h
  · exact h
  · simp [hopen] at h

/-- The host in a `netloc` that passes the checks. -/
theorem isHost_hostPort (h : checkBrackets netloc = true) :
    IsHost (hostPort (rcut '@' netloc).2).1 ∧
      ∀ c ∈ (hostPort (rcut '@' netloc).2).1, c ∈ netloc := by
  obtain ⟨hat, hmem⟩ := rcut_back '@' netloc
  have hcheck := checkBracketedNetloc_of h
  unfold checkBracketedNetloc at hcheck
  generalize (rcut '@' netloc).2 = info at hat hmem hcheck
  unfold hostPort
  rcases cut_cases '[' info with ⟨hopen, hcut⟩ | ⟨before, inside, -, hinfo, hcut⟩
  · obtain ⟨hcolon, hinit, -⟩ := splitTail_spec ':' info
    rw [hcut]
    refine ⟨⟨fun h => hat (hinit.subset h), fun h => hopen (hinit.subset h.1), fun h => ?_⟩,
      fun c hc => hmem c (hinit.subset hc)⟩
    exact absurd h hcolon
  · obtain ⟨hclose, hinit, -⟩ := splitTail_spec ']' inside
    have hinside (c : Char) (hc : c ∈ (splitTail ']' inside).1) : c ∈ info := by
      rw [hinfo]
      exact List.mem_append_right _ (List.mem_cons_of_mem _ (hinit.subset hc))
    dsimp only at hcheck
    rw [hcut] at hcheck ⊢
    simp only [Bool.and_eq_true] at hcheck
    refine ⟨⟨fun h => hat (hinside _ h), fun h => hclose h.2, fun _ => ⟨hclose, ?_⟩⟩,
      fun c hc => hmem c (hinside c hc)⟩
    exact (hcheck (hmem _ (by rw [hinfo]; simp))).2

/-! ## The check of what is put together -/

theorem checkBrackets_iff (hhost : IsHost host) (hfront : '[' ∉ front ∧ ']' ∉ front)
    (hport : '[' ∉ port ∧ ']' ∉ port ∧ '@' ∉ port) :
    checkBrackets (front ++ '@' :: (withBrackets host ++ withTail ':' port)) = true ↔
      ':' ∈ host ∨ '[' ∉ host ∧ ']' ∉ host := by
  have htail (c : Char) (hc : c ∉ port) (hne : c ≠ ':') : c ∉ withTail ':' port := fun h =>
    (mem_withTail h).elim hne hc
  have hopen := htail '[' hport.1 (by decide)
  have hclose := htail ']' hport.2.1 (by decide)
  have hat := htail '@' hport.2.2 (by decide)
  unfold checkBrackets
  by_cases hcolon : ':' ∈ host
  · obtain ⟨hnot, hcheck⟩ := hhost.address hcolon
    have hboth : (front ++ '@' :: (withBrackets host ++ withTail ':' port)).contains '[' = true ∧
        (front ++ '@' :: (withBrackets host ++ withTail ':' port)).contains ']' = true := by
      simp [withBrackets, hcolon]
    rw [if_pos (by rw [hboth.1, hboth.2]; rfl)]
    refine iff_of_true ?_ (.inl hcolon)
    have hinfo : '@' ∉ withBrackets host ++ withTail ':' port := by
      simp [withBrackets, hcolon, hhost.at_notMem, hat]
    have hcut : cut '[' (withBrackets host ++ withTail ':' port) =
        ([], some (host ++ ']' :: withTail ':' port)) := by
      rw [withBrackets, if_pos hcolon]
      simpa using @cut_append Char _ '[' [] (host ++ ']' :: withTail ':' port) List.not_mem_nil
    rw [checkBracketedNetloc, rcut_append hinfo]
    dsimp only
    rw [hcut]
    dsimp only
    rw [splitTail, cut_append hnot]
    simp only [Option.getD_some, List.isEmpty_nil, Bool.true_and, Bool.and_eq_true]
    refine ⟨?_, hcheck⟩
    unfold withTail
    split <;> rfl
  · have hmem (c : Char) (hne : c ≠ '@') (hf : c ∉ front) (ht : c ∉ withTail ':' port) :
        (front ++ '@' :: (withBrackets host ++ withTail ':' port)).contains c = host.contains c := by
      simp [withBrackets, hcolon, hne, hf, ht]
    rw [hmem '[' (by decide) hfront.1 hopen, hmem ']' (by decide) hfront.2 hclose]
    have hnot : ¬((host.contains '[' && host.contains ']') = true) := by
      simpa using fun h h' => hhost.not_both ⟨h, h'⟩
    rw [if_neg hnot]
    simp [hcolon]

end Lib
