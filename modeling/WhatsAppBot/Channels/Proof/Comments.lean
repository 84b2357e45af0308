import WhatsAppBot.Channels.Comments
import WhatsAppBot.Lib.MapM

/-!
# What the comment parsers return

Every event of a parsed delivery can be routed, and is a text or unsupported: `parsed_isComment`.
-/

set_option autoImplicit false

namespace Channels

open Lib Store Bot

variable {cfg : Config} {payload : Json} {events : List InboundEvent} {e : InboundEvent}

/-- The shape of a parsed comment. -/
def IsComment (e : InboundEvent) : Prop :=
  e.routable = true ∧ (e.kind = .text ∨ e.kind = .unsupported)

theorem commentEvent_kind (channel : Channel) (senderId commentId : String) (senderName : Json)
    (text : Option String) (sentAt : Option Time) :
    let e := commentEvent channel senderId commentId senderName text sentAt
    e.kind = .text ∨ e.kind = .unsupported := by
  cases text with
  | none => exact .inr rfl
  | some text => exact .inl rfl

theorem parseFacebookChange_kind {change : Json} {pageId : String}
    (h : parseFacebookChange cfg change pageId = some e) :
    e.kind = .text ∨ e.kind = .unsupported := by
  simp only [parseFacebookChange, Option.ite_none_left_eq_some, Option.some.injEq] at h
  obtain ⟨-, -, -, -, -, -, -, rfl⟩ := h
  exact commentEvent_kind ..

theorem parseInstagramChange_kind {change : Json} {accountId : String}
    (h : parseInstagramChange cfg change accountId = some e) :
    e.kind = .text ∨ e.kind = .unsupported := by
  simp only [parseInstagramChange, Option.ite_none_left_eq_some, Option.some.injEq] at h
  obtain ⟨-, -, -, -, -, rfl⟩ := h
  exact commentEvent_kind ..

theorem mem_parseComments {changes : Json → Option (List Json)}
    {parseChange : Json → String → Option InboundEvent}
    (h : parseComments cfg changes parseChange payload = some events) (he : e ∈ events) :
    e.routable = true ∧ ∃ change accountId, parseChange change accountId = some e := by
  simp only [parseComments, Option.bind_eq_bind, Option.bind_eq_some_iff, Option.some.injEq] at h
  obtain ⟨entries, -, parts, hparts, rfl⟩ := h
  obtain ⟨part, hpart, he⟩ := List.mem_flatten.mp he
  obtain ⟨entry, -, hentry⟩ := (mem_mapM_iff hparts _).mp hpart
  split at hentry
  · obtain rfl := Option.some.inj hentry
    cases he
  · obtain ⟨items, -, hitems⟩ := Option.bind_eq_some_iff.mp hentry
    obtain rfl := Option.some.inj hitems
    obtain ⟨hmem, hroutable⟩ := List.mem_filter.mp he
    obtain ⟨change, -, hparse⟩ := List.mem_filterMap.mp hmem
    exact ⟨hroutable, change, _, hparse⟩

/-- **Every event of a comment delivery is a comment that can be routed.** -/
theorem parsed_isComment {surface : Surface}
    (hs : surface = facebookComments cfg ∨ surface = instagramComments cfg)
    (h : surface.parse payload = some events) (he : e ∈ events) : IsComment e := by
  rcases hs with rfl | rfl
  · obtain ⟨hroutable, change, pageId, hparse⟩ := mem_parseComments h he
    exact ⟨hroutable, parseFacebookChange_kind hparse⟩
  · obtain ⟨hroutable, change, accountId, hparse⟩ := mem_parseComments h he
    exact ⟨hroutable, parseInstagramChange_kind hparse⟩

end Channels
