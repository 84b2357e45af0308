import WhatsAppBot.Bot.Ops
import WhatsAppBot.Lib.Clip

/-!
# The texts of the requests

Each client cuts a text to its provider's limit before it posts it: `WhatsAppClient`,
`MessengerAdapter` and `FacebookCommentAdapter` count characters, the Instagram adapters UTF-8
bytes. `textPosts` are the requests of one send with the texts they carry.
-/

set_option autoImplicit false

namespace Channels

open Lib Store Bot

/-- `clip_utf8`. -/
def clipUtf8 (text : String) (maxBytes : Nat) : String :=
  let encoded := encodeUtf8 text.toList
  if encoded.length ≤ maxBytes then text
  else String.ofList (decodeUtf8 (encoded.take maxBytes))

/-- `text[:max]`, or `clip_utf8(text, max)`. -/
inductive Limit where
  | chars (max : Nat)
  | bytes (max : Nat)
  deriving DecidableEq

namespace Limit

def cut : Limit → String → String
  | chars max, text => String.ofList (text.toList.take max)
  | bytes max, text => clipUtf8 text max

/-- What a character counts for. -/
def size : Limit → Char → Nat
  | chars _ => fun _ => 1
  | bytes _ => Char.utf8Size

def max : Limit → Nat
  | chars max | bytes max => max

/-- The text is within the limit. -/
def Fits (l : Limit) (text : String) : Prop := (text.toList.map l.size).sum ≤ l.max

instance (l : Limit) (text : String) : Decidable (l.Fits text) :=
  inferInstanceAs (Decidable (_ ≤ _))

/-- `cut` is the longest start of `text` that is within the limit. -/
structure IsCut (l : Limit) (text cut : String) : Prop where
  start : cut.toList <+: text.toList
  fits : l.Fits cut
  longest : ∀ other : String, other.toList <+: text.toList → l.Fits other →
    other.toList <+: cut.toList

variable {l : Limit} {text : String}

theorem toList_clipUtf8 (text : String) (maxBytes : Nat) :
    (clipUtf8 text maxBytes).toList = clip Char.utf8Size maxBytes text.toList := by
  unfold clipUtf8
  dsimp only
  split
  · rename_i h
    rw [length_encodeUtf8] at h
    exact (clip_eq_self_iff.mpr h).symm
  · rw [String.toList_ofList, decodeUtf8_take]

theorem toList_cut (l : Limit) (text : String) :
    (l.cut text).toList = clip l.size l.max text.toList := by
  cases l with
  | chars max => exact (String.toList_ofList).trans (clip_one max text.toList).symm
  | bytes max => exact toList_clipUtf8 text max

theorem isCut_cut (l : Limit) (text : String) : l.IsCut text (l.cut text) where
  start := by
    rw [toList_cut]
    exact clip_start l.size l.max text.toList
  fits := by
    show ((l.cut text).toList.map l.size).sum ≤ l.max
    rw [toList_cut]
    exact clip_fits l.size l.max text.toList
  longest other hstart hfits := by
    rw [toList_cut]
    exact prefix_clip hstart hfits

theorem cut_eq_self_iff : l.cut text = text ↔ l.Fits text := by
  rw [← String.toList_inj, toList_cut]
  exact clip_eq_self_iff

end Limit

/-- **The longest start of a text that fits**: one character more is too many bytes. -/
theorem clipUtf8_longest (text : String) (maxBytes : Nat) :
    (clipUtf8 text maxBytes).toList <+: text.toList ∧
      (encodeUtf8 (clipUtf8 text maxBytes).toList).length ≤ maxBytes ∧
      ∀ c, (clipUtf8 text maxBytes).toList ++ [c] <+: text.toList →
        maxBytes < (encodeUtf8 ((clipUtf8 text maxBytes).toList ++ [c])).length := by
  have hcut := Limit.isCut_cut (.bytes maxBytes) text
  refine ⟨hcut.start, ?_, ?_⟩
  · rw [length_encodeUtf8]
    exact hcut.fits
  · intro c hnext
    by_contra hfits
    rw [length_encodeUtf8] at hfits
    -- the longer start would be within the limit as well
    have hwithin : (Limit.bytes maxBytes).Fits
        (String.ofList ((clipUtf8 text maxBytes).toList ++ [c])) := by
      show ((String.ofList _).toList.map Char.utf8Size).sum ≤ maxBytes
      rw [String.toList_ofList]
      omega
    have hlonger := hcut.longest _ (by rwa [String.toList_ofList]) hwithin
    have hlen := hlonger.length_le
    rw [String.toList_ofList, List.length_append] at hlen
    exact absurd hlen (by simp [Limit.cut])

/-! ## The clients' limits -/

/-- `BODY_MAX` of `whatsapp.py`. -/
def bodyMax : Nat := 1024

/-- `TEXT_MAX` of `messenger.py`. -/
def messengerTextMax : Nat := 2000

/-- `TEXT_MAX_BYTES` of `instagram.py`. -/
def instagramTextMaxBytes : Nat := 1000

/-- `COMMENT_TEXT_MAX` of `facebook_comments.py`. -/
def facebookCommentTextMax : Nat := 2000

/-- `DM_TEXT_MAX` of `facebook_comments.py`. -/
def facebookDmTextMax : Nat := 2000

/-- `COMMENT_TEXT_MAX_BYTES` of `instagram_comments.py`. -/
def instagramCommentTextMaxBytes : Nat := 2000

/-- `send_text`; that of a comment adapter is `reply_to_comment`. -/
def sendTextLimit : Channel → Limit
  | .whatsapp => .chars 4096
  | .messenger => .chars messengerTextMax
  | .instagramDm => .bytes instagramTextMaxBytes
  | .facebookComment => .chars facebookCommentTextMax
  | .instagramComment => .bytes instagramCommentTextMaxBytes

/-- `send_buttons`, `send_quick_replies`; the comment adapters send the text alone. -/
def sendOptionsLimit : Channel → Limit
  | .whatsapp => .chars bodyMax
  | channel => sendTextLimit channel

/-- `invite_to_private_thread`, which only the comment adapters have. -/
def inviteLimit : Channel → Limit
  | .instagramComment => .bytes instagramTextMaxBytes
  | _ => .chars facebookDmTextMax

/-- The limit of the sender that is called. -/
def senderLimit (out : Outbound) : Limit :=
  match out.purpose, out.form with
  | .invite _, _ => inviteLimit out.channel
  | _, .buttons _ => sendOptionsLimit out.channel
  | _, .text => sendTextLimit out.channel

/-! ## Requests -/

structure TextPost where
  post : Post
  limit : Limit
  text : String

/-- One after another, the fallback's after the buttons'. -/
def textPosts (out : Outbound) (wire : Wire) : List TextPost :=
  let made (l : Limit) (post : Post) : TextPost := ⟨post, l, l.cut out.text⟩
  wire.first.map (made (senderLimit out)) ++
    (wire.fallback.getD []).map (made (sendTextLimit out.channel))

/-- A usable answer says that the message was taken. -/
def confirmed (p : Post) : Bool :=
  match p.answer with
  | .ok _ => true
  | _ => false

/-- The requests whose text reached the provider. -/
def arrived (out : Outbound) (wire : Wire) : List TextPost :=
  (textPosts out wire).filter fun r => r.post.accepted || confirmed r.post

section

variable {out : Outbound} {wire : Wire} {r : TextPost}

theorem textPost_text (h : r ∈ textPosts out wire) : r.text = r.limit.cut out.text := by
  simp only [textPosts, List.mem_append, List.mem_map] at h
  rcases h with ⟨post, -, rfl⟩ | ⟨post, -, rfl⟩ <;> rfl

theorem arrived_isCut (h : r ∈ arrived out wire) : r.limit.IsCut out.text r.text := by
  rw [textPost_text (List.mem_of_mem_filter h)]
  exact r.limit.isCut_cut out.text

theorem arrived_whole_iff (h : r ∈ arrived out wire) :
    r.text = out.text ↔ r.limit.Fits out.text := by
  rw [textPost_text (List.mem_of_mem_filter h)]
  exact Limit.cut_eq_self_iff

theorem confirmed_of_postResult {posts : List Post} {id : Option String}
    (h : postResult posts = .sent id) : ∃ post ∈ posts, confirmed post = true := by
  unfold postResult at h
  split at h
  · rename_i accepted answer hlast
    exact ⟨_, List.mem_of_getLast? hlast, rfl⟩
  · cases h
  · cases h

/-- A send that went well reached the provider. -/
theorem arrived_ne_nil {id : Option String} (h : wire.result = .sent id) :
    arrived out wire ≠ [] := by
  obtain ⟨post, hpost, hconfirmed⟩ := confirmed_of_postResult h
  have hmem : ∃ r ∈ textPosts out wire, r.post = post := by
    unfold textPosts
    dsimp only
    cases hfallback : wire.fallback with
    | none =>
      rw [hfallback] at hpost
      exact ⟨_, List.mem_append_left _ (List.mem_map_of_mem hpost), rfl⟩
    | some posts =>
      rw [hfallback] at hpost
      exact ⟨_, List.mem_append_right _ (List.mem_map_of_mem hpost), rfl⟩
  obtain ⟨r, hr, rfl⟩ := hmem
  refine List.ne_nil_of_mem (List.mem_filter.mpr ⟨hr, ?_⟩)
  rw [hconfirmed, Bool.or_true]

end

end Channels
