import WhatsAppBot.Lib.Unwind
import WhatsAppBot.Quota.Keys

/-!
# Customers do not touch each other's quota

Every key a check reads or writes carries the platform's id of its customer (`KeyOf`), and the ids
can be read back from the keys (`KeyOf.unique`). So the checks of customers with another id are not
noticed (`unwinding`), and a customer's decisions depend on its own messages only (`isolated`). The
channel is in no key: `shared_block` is a block that another channel's customer earned.
-/

set_option autoImplicit false

namespace Quota

open Lib

variable {st : Settings} {waId waId' : String} {clock : Seconds} {spend : Spend} {ks ks' : KeySpace}
  {key key' : String} {o : Op}

/-! ## Keys -/

/-- The keys of the customer `waId`. -/
inductive KeyOf (st : Settings) (waId : String) : String → Prop
  | messages : KeyOf st waId (messagesKey waId)
  | blocked : KeyOf st waId (blockedKey waId)
  | duplicates (body : String) : KeyOf st waId (duplicateKey waId (st.fingerprint body))

/-- What a key counts can be read off it. -/
@[simp] theorem messagesKey_mark (waId : String) : (messagesKey waId).toList[6]? = some 'm' := by
  simp [messagesKey]

@[simp] theorem blockedKey_mark (waId : String) : (blockedKey waId).toList[6]? = some 'b' := by
  simp [blockedKey]

@[simp] theorem duplicateKey_mark (waId fingerprint : String) :
    (duplicateKey waId fingerprint).toList[6]? = some 'd' := by
  simp [duplicateKey]

theorem messagesKey_inj (h : messagesKey waId = messagesKey waId') : waId = waId' := by
  simpa [messagesKey, ← String.toList_inj] using h

theorem blockedKey_inj (h : blockedKey waId = blockedKey waId') : waId = waId' := by
  simpa [blockedKey, ← String.toList_inj] using h

/-- The fingerprint is the end of the key, so the id is what is left. -/
theorem duplicateKey_inj {f g : String} (hlen : f.length = g.length)
    (h : duplicateKey waId f = duplicateKey waId' g) : waId = waId' := by
  have h := congrArg String.toList h
  simp only [duplicateKey, String.toList_append] at h
  have hend := List.append_inj_left' h (by rw [String.length_toList, String.length_toList, hlen])
  have hid := List.append_inj_left' hend rfl
  exact String.toList_inj.mp (List.append_cancel_left hid)

theorem KeyOf.unique (hfp : ∀ body, (st.fingerprint body).length = 16) (h : KeyOf st waId key)
    (h' : KeyOf st waId' key) : waId = waId' := by
  generalize hkey : key = key' at h'
  have hmark : key.toList[6]? = key'.toList[6]? := by rw [hkey]
  cases h with
  | messages =>
    cases h' with
    | messages => exact messagesKey_inj hkey
    | _ => simp at hmark
  | blocked =>
    cases h' with
    | blocked => exact blockedKey_inj hkey
    | _ => simp at hmark
  | duplicates body =>
    cases h' with
    | duplicates body' => exact duplicateKey_inj ((hfp body).trans (hfp body').symm) hkey
    | _ => simp at hmark

/-! ## Commands -/

/-- A command writes its customer's keys only. -/
theorem serveKeys_other (ho : o.About st waId) (hkey : ¬KeyOf st waId key) :
    (serveKeys clock spend o ks).2 key = ks key := by
  have hne : ∀ {k}, KeyOf st waId k → key ≠ k := fun hk h => hkey (h ▸ hk)
  cases o with
  | countMessage id member now burst =>
    obtain rfl : id = waId := ho
    exact KeySpace.set_other _ _ (hne .messages)
  | countText id fingerprint member now window =>
    obtain ⟨rfl, body, rfl⟩ := ho
    exact KeySpace.set_other _ _ (hne (.duplicates body))
  | setBlock id seconds =>
    obtain rfl : id = waId := ho
    simp only [serveKeys]
    split
    · exact KeySpace.set_other _ _ (hne .blocked)
    · rfl
  | _ => rfl

/-- The customer's keys hold the same. -/
def SameKeys (st : Settings) (waId : String) (ks ks' : KeySpace) : Prop :=
  ∀ key, KeyOf st waId key → ks key = ks' key

theorem SameKeys.set (h : SameKeys st waId ks ks') (key : String) (c : Option Cell) :
    SameKeys st waId (ks.set key c) (ks'.set key c) := by
  intro k hk
  by_cases heq : k = key
  · subst heq
    rw [KeySpace.set_self, KeySpace.set_self]
  · rw [KeySpace.set_other _ _ heq, KeySpace.set_other _ _ heq, h k hk]

/-- A command reads its customer's keys only. -/
theorem serveKeys_same (ho : o.About st waId) (h : SameKeys st waId ks ks') :
    (serveKeys clock spend o ks).1 = (serveKeys clock spend o ks').1 ∧
      SameKeys st waId (serveKeys clock spend o ks).2 (serveKeys clock spend o ks').2 := by
  cases o with
  | countMessage id member now burst =>
    obtain rfl : id = waId := ho
    have hm : ks.redis.messages id = ks'.redis.messages id := by
      simp only [KeySpace.redis, h _ .messages]
    simp only [serveKeys, Redis.countMessage, Redis.recentMessages, hm, Function.update_self,
      true_and]
    exact h.set _ _
  | countText id fingerprint member now window =>
    obtain ⟨rfl, body, rfl⟩ := ho
    have hd : ks.redis.duplicates (id, st.fingerprint body) =
        ks'.redis.duplicates (id, st.fingerprint body) := by
      simp only [KeySpace.redis, h _ (.duplicates body)]
    simp only [serveKeys, Redis.countText, hd, Function.update_self, true_and]
    exact h.set _ _
  | setBlock id seconds =>
    obtain rfl : id = waId := ho
    by_cases hs : seconds = 0
    · simpa [serveKeys, Redis.setBlock, hs] using h
    · simpa [serveKeys, Redis.setBlock, hs] using h.set _ _
  | ttl id =>
    obtain rfl : id = waId := ho
    have hb : ks.redis.blocked id = ks'.redis.blocked id := by
      simp only [KeySpace.redis, h _ .blocked]
    exact ⟨by simp only [serveKeys, Redis.ttl, hb], h⟩
  | time | today | killed | total => exact ⟨rfl, h⟩
  | addUsage | complete => exact ho.elim

/-! ## Checks -/

namespace Checks

variable {c a : Customer} {fate : Fate}

/-- A check's next command writes its customer's keys only. -/
theorem advance_other (P : Checking st c) (hkey : ¬KeyOf st c.externalId key) :
    (advance clock spend fate ks P).1 key = ks key := by
  obtain ⟨_ | ⟨o, k⟩, h⟩ := P
  · rfl
  · cases fate with
    | answered | lost => exact serveKeys_other h.1 hkey
    | unsent => rfl

/-- What a check's next command does depends on its customer's keys only. -/
theorem advance_same (P : Checking st c) (h : SameKeys st c.externalId ks ks') :
    (advance clock spend fate ks P).2 = (advance clock spend fate ks' P).2 ∧
      SameKeys st c.externalId (advance clock spend fate ks P).1
        (advance clock spend fate ks' P).1 := by
  obtain ⟨_ | ⟨o, k⟩, hP⟩ := P
  · exact ⟨rfl, h⟩
  · have hserve : (serveKeys clock spend o ks).1 = (serveKeys clock spend o ks').1 ∧ _ :=
      serveKeys_same hP.1 h
    obtain ⟨hanswer, hkeys⟩ := hserve
    cases fate with
    | answered => exact ⟨Subtype.ext (congrArg k hanswer), hkeys⟩
    | lost => exact ⟨rfl, hkeys⟩
    | unsent => exact ⟨rfl, h⟩

/-- What the customer can see: its own checks and its own keys. -/
def Alike (a : Customer) (s t : Checks st) : Prop :=
  s.of a = t.of a ∧ SameKeys st a.externalId s.keys t.keys

theorem alike_equiv (a : Customer) : Equivalence (@Alike st a) where
  refl _ := ⟨rfl, fun _ _ => rfl⟩
  symm h := ⟨h.1.symm, fun key hkey => (h.2 key hkey).symm⟩
  trans h h' := ⟨h.1.trans h'.1, fun key hkey => (h.2 key hkey).trans (h'.2 key hkey)⟩

/-- The checks of customers with another id are not noticed. -/
theorem step_other (hfp : ∀ body, (st.fingerprint body).length = 16) (s : Checks st)
    {x : Customer × Action} (hx : x.1 ≠ a) (hid : x.1.externalId ≠ a.externalId) :
    Alike a (s.step x) s := by
  obtain ⟨c, action⟩ := x
  cases action with
  | receive waMessageId text =>
    exact ⟨Function.update_of_ne (Ne.symm hx) _ _, fun _ _ => rfl⟩
  | perform n clock spend fate =>
    simp only [step]
    split
    · exact (alike_equiv a).refl s
    · refine ⟨Function.update_of_ne (Ne.symm hx) _ _, fun key hkey => ?_⟩
      exact advance_other _ fun hc => hid (KeyOf.unique hfp hc hkey)

theorem step_own {s t : Checks st} {x : Customer × Action} (hx : x.1 = a) (h : Alike a s t) :
    Alike a (s.step x) (t.step x) := by
  obtain ⟨c, action⟩ := x
  obtain rfl : c = a := hx
  obtain ⟨hof, hkeys⟩ := h
  cases action with
  | receive waMessageId text =>
    refine ⟨?_, hkeys⟩
    simp only [step, Function.update_self, hof]
  | perform n clock spend fate =>
    simp only [step, hof]
    split
    · exact ⟨hof, hkeys⟩
    · rename_i P _
      have hadvance : (advance clock spend fate s.keys P).2 = (advance clock spend fate t.keys P).2 ∧
          _ := advance_same P hkeys
      obtain ⟨hnext, hkeys⟩ := hadvance
      refine ⟨?_, hkeys⟩
      simp only [Function.update_self, hnext]

/-- `a`'s own steps, and those of customers with another id. -/
theorem unwinding (hfp : ∀ body, (st.fingerprint body).length = 16) (a : Customer) :
    Unwinding (@step st) (fun x => x.1 = a) (fun x => x.1.externalId ≠ a.externalId)
      (Alike a) where
  equiv := alike_equiv a
  respect s _ hx hid := step_other hfp s (of_decide_eq_false hx) hid
  consistent _ _ _ hx h := step_own (of_decide_eq_true hx) h

/-- **A customer's decisions do not depend on what customers with other ids send**, in any order of
the commands and whichever of them fail. -/
theorem isolated (hfp : ∀ body, (st.fingerprint body).length = 16) (s : Checks st) (a : Customer)
    (xs ys : List (Customer × Action)) (hown : xs.filter (·.1 = a) = ys.filter (·.1 = a))
    (hids : ∀ x ∈ xs ++ ys, x.1 ≠ a → x.1.externalId ≠ a.externalId) :
    (s.run xs).decisions a = (s.run ys).decisions a := by
  have hothers : ∀ zs, zs ⊆ xs ++ ys → ∀ x ∈ zs, decide (x.1 = a) = false →
      x.1.externalId ≠ a.externalId :=
    fun zs hzs x hx hne => hids x (hzs hx) (of_decide_eq_false hne)
  have hrun := (unwinding hfp a).run hown (hothers xs (List.subset_append_left xs ys))
    (hothers ys (List.subset_append_right xs ys)) ((alike_equiv a).refl s)
  exact congrArg (List.map Checking.decision) hrun.1

end Checks

/-! ## One id on two channels -/

namespace Sample

/-- The digests of the two texts of the runs below. -/
def hashed : Settings :=
  { settings with
    fingerprint := fun body => if body = "hi" then "8f434346648f6b96" else "e3b0c44298fc1c14" }

def phone : Customer := ⟨.whatsapp, "201001234567"⟩
def page : Customer := ⟨.messenger, "201001234567"⟩
def stranger : Customer := ⟨.messenger, "5551234"⟩

def noSpend : Spend := ⟨false, fun _ => none⟩

/-- The customer's `n`-th message comes and is checked. -/
def sends (c : Customer) (n : Nat) (id : String) : List (Customer × Action) :=
  (c, .receive id (some "hi")) :: List.replicate 8 (c, .perform n 1000000 noSpend .answered)

def flood (c : Customer) : List (Customer × Action) :=
  sends c 0 "m0" ++ sends c 1 "m1" ++ sends c 2 "m2" ++ sends c 3 "m3" ++ sends c 4 "m4" ++
    sends c 5 "m5"

end Sample

/-- Somebody else's flood is not held against the customer. -/
theorem Checks.isolated_stranger :
    ((Checks.empty Sample.hashed).run
      (Sample.flood Sample.stranger ++ Sample.sends Sample.phone 0 "w0")).decisions Sample.phone =
        [some allowed] := by
  have hfp : ∀ body, (Sample.hashed.fingerprint body).length = 16 := by
    intro body
    simp only [Sample.hashed]
    split <;> rfl
  have hrun := Checks.isolated hfp (.empty Sample.hashed) Sample.phone
    (Sample.flood Sample.stranger ++ Sample.sends Sample.phone 0 "w0") (Sample.sends Sample.phone 0 "w0")
    rfl (by decide +kernel)
  rw [hrun]
  decide +kernel

/-- **Six messages at once on Messenger block the WhatsApp customer with the same id.** -/
theorem shared_block : ¬∀ (st : Settings) (a b : Customer) (xs ys : List (Customer × Action)),
    a ≠ b → (∀ x ∈ xs ++ ys, x.1 = a ∨ x.1 = b) → xs.filter (·.1 = a) = ys.filter (·.1 = a) →
    ((Checks.empty st).run xs).decisions a = ((Checks.empty st).run ys).decisions a := by
  intro h
  have hx := h Sample.hashed Sample.phone Sample.page
    (Sample.flood Sample.page ++ Sample.sends Sample.phone 0 "w0") (Sample.sends Sample.phone 0 "w0")
    (by decide) (by decide) rfl
  revert hx
  decide +kernel

end Quota
