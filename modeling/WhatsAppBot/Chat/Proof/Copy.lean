import WhatsAppBot.Chat.Copy
import WhatsAppBot.Chat.Proof.Welcome

/-!
# The shipped texts and the welcome

Only the two welcomes begin with the company's opening line; the first two letters of every other text
tell it apart (`ownCopy`).
-/

set_option autoImplicit false

namespace Chat.Shipped

open Lib Bot

def Begins (text : String) (c d : Char) : Prop := ∃ t, text.toList = c :: d :: t

variable {text : String} {c d : Char}

theorem begins_literal (h : ∃ t, text = String.ofList (c :: d :: t)) : Begins text c d := by
  obtain ⟨t, rfl⟩ := h
  exact ⟨t, String.toList_ofList⟩

theorem Begins.append (h : Begins text c d) (rest : String) : Begins (text ++ rest) c d := by
  obtain ⟨t, ht⟩ := h
  exact ⟨t ++ rest.toList, by rw [String.toList_append, ht]; rfl⟩

/-- What does not begin like the welcome does not carry it. -/
theorem Begins.carries (h : Begins text c d) (hcd : c ≠ 'أ' ∨ d ≠ 'ه') : copy.carries text = false := by
  have hopening : Begins Prompt.opening 'أ' 'ه' := begins_literal ⟨_, rfl⟩
  have hnot : ∀ {w : String}, Begins w 'أ' 'ه' → w.toList.isPrefixOf text.toList = false := by
    rintro w ⟨t₁, ht₁⟩
    obtain ⟨t, ht⟩ := h
    rw [ht, ht₁]
    rcases hcd with hc | hd
    · simp [List.isPrefixOf, Ne.symm hc]
    · simp [List.isPrefixOf, Ne.symm hd]
  have hwelcome : Begins copy.welcome 'أ' 'ه' :=
    ((((hopening.append _).append _).append _).append _).append _
  have hshort : Begins copy.welcomePrefix 'أ' 'ه' := hopening.append _
  rw [Copy.carries, hnot hwelcome, hnot hshort]
  rfl

set_option maxRecDepth 2000 in
theorem messageFor_carries (d : QuotaDecision) (salesPhone : String) :
    copy.carries (messageFor d salesPhone) = false := by
  unfold messageFor
  split
  · have hbase : Begins capacityBase 'ش' 'ك' := (begins_literal ⟨_, rfl⟩).append _
    exact (hbase.append _).carries (.inl (by decide))
  · split
    · have habuse : Begins abuseMessage 'ل' 'ا' := ((begins_literal ⟨_, rfl⟩).append _).append _
      exact habuse.carries (.inl (by decide))
    · have hlimit : Begins rateLimitMessage 'و' 'ص' := (begins_literal ⟨_, rfl⟩).append _
      exact hlimit.carries (.inl (by decide))

set_option maxRecDepth 2000 in
theorem deflection_carries (salesPhone : String) :
    copy.carries (deflection salesPhone) = false := by
  have hopening : ∃ t, Prompt.deflectionOpening = 'ش' :: 'ك' :: t := by
    obtain ⟨t, ht⟩ : Begins "شكراً لاهتمام حضرتك. كل مشروع بيختلف عن التاني على حسب نوع الوحدة والمساحة "
      'ش' 'ك' := begins_literal ⟨_, rfl⟩
    unfold Prompt.deflectionOpening
    rw [ht]
    exact ⟨_, rfl⟩
  obtain ⟨t, ht⟩ := hopening
  have hbegins : Begins (deflection salesPhone) 'ش' 'ك' := by
    rw [Begins, deflection, String.toList_ofList, Prompt.deflection, ht]
    exact ⟨_, rfl⟩
  exact hbegins.carries (.inl (by decide))

set_option maxRecDepth 2000 in
theorem salesHandoffAck_carries (salesPhone : String) :
    copy.carries (salesHandoffAck salesPhone) = false := by
  have hfirst : Begins salesHandoffAr 'أ' 'ك' := (begins_literal ⟨_, rfl⟩).append _
  exact (((hfirst.append _).append _).append _).carries (.inr (by decide))

theorem outOfScopeReply_carries (companyName : String) :
    copy.carries (outOfScopeReply companyName) = false := by
  have hfirst : Begins "أنا هنا لمساعدة حضرتك في أي استفسار عن " 'أ' 'ن' := begins_literal ⟨_, rfl⟩
  exact ((((((((hfirst.append _).append _).append _).append _).append _).append _).append _).append
    _).carries (.inr (by decide))

set_option maxRecDepth 2000 in
/-- **The shipped texts**: none but the welcome carries it. -/
theorem ownCopy {cfg : Config} (h : cfg.copy = copy) : OwnCopy cfg where
  serviceBusy := by
    have hfirst : Begins serviceBusy 'ن' 'ع' := (begins_literal ⟨_, rfl⟩).append _
    rw [h]
    exact hfirst.carries (.inl (by decide))
  unsupportedMessage := by
    have hfirst : Begins unsupportedMessage 'ن' 'ع' := (begins_literal ⟨_, rfl⟩).append _
    rw [h]
    exact hfirst.carries (.inl (by decide))
  handoffAck := by
    have hfirst : Begins handoffAck 'س' 'ي' := ((begins_literal ⟨_, rfl⟩).append _).append _
    rw [h]
    exact hfirst.carries (.inl (by decide))
  salesHandoffAck := by rw [h]; exact salesHandoffAck_carries _
  outOfScopeReply := by rw [h]; exact outOfScopeReply_carries _
  deflection := by rw [h]; exact deflection_carries _
  quotaMessage d := by rw [h]; exact messageFor_carries d _
  serviceAck id := by
    have hfirst : Begins "تمام، اختيار حضرتك: " 'ت' 'م' := begins_literal ⟨_, rfl⟩
    rw [h]
    exact ((hfirst.append _).append _).carries (.inl (by decide))

end Chat.Shipped
