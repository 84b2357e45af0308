import WhatsAppBot.Channels.Proof.Comments
import WhatsAppBot.Webhook.Sample

/-!
# Parsing, item by item

The four adapters share the way through a delivery (`Envelope`): where nothing raises, what `parse`
returns is what it returns for the items one at a time. `parse_itemwise_iff` says for which payloads
that is: the comment adapters skip what is malformed, the direct message adapters raise.
-/

set_option autoImplicit false

namespace Channels

open Lib Store Bot

/-- The payload with one item of the entry. -/
def alone (key : String) (entry item : Json) : Json :=
  .obj [("entry", .arr [.obj [("id", entry.field "id"), (key, .arr [item])]])]

/-- How an adapter goes through a delivery. -/
structure Envelope (ε : Type) where
  /-- An entry that is no dictionary raises; otherwise it is skipped. -/
  strict : Bool
  key : String
  items : Json → Option (List Json)
  parseItem : Json → String → Option (List ε)
  items_alone : ∀ id item, items (.obj [("id", id), (key, .arr [item])]) = some [item]
  key_ne : key ≠ "id"

/-- `parse` returns, and what it returns is what the items come to one at a time. -/
def TotalItemwise {ε : Type} (parse : Json → Option (List ε)) (singles : Json → List Json)
    (payload : Json) : Prop :=
  ∃ events parts, parse payload = some events ∧ (singles payload).mapM parse = some parts ∧
    parts.flatten = events

namespace Envelope

variable {ε : Type} (E : Envelope ε) (cfg : Config)

def idOf (entry : Json) : String := (entry.field "id").textOr cfg.reprOf

def parseEntry (entry : Json) : Option (List ε) :=
  if !entry.isObj then if E.strict then none else some []
  else do
    let items ← E.items entry
    let events ← items.mapM fun item => E.parseItem item (idOf cfg entry)
    some events.flatten

def parse (payload : Json) : Option (List ε) := do
  let entries ← itemsOf payload "entry"
  let events ← entries.mapM (E.parseEntry cfg)
  some events.flatten

def singlesOf (entry : Json) : List Json :=
  if entry.isObj then ((E.items entry).getD []).map (alone E.key entry) else []

/-- The payloads with one item each. -/
def singles (payload : Json) : List Json := ((itemsOf payload "entry").getD []).flatMap E.singlesOf

/-- Nothing on the way raises. -/
def Readable (payload : Json) : Prop :=
  ∃ entries, itemsOf payload "entry" = some entries ∧ ∀ entry ∈ entries,
    if entry.isObj then ∃ items, E.items entry = some items ∧
      ∀ item ∈ items, (E.parseItem item (idOf cfg entry)).isSome = true
    else E.strict = false

variable {E cfg} {entry item payload : Json}

theorem parse_alone : E.parse cfg (alone E.key entry item) = E.parseItem item (idOf cfg entry) := by
  have hid : (Json.obj [("id", entry.field "id"), (E.key, .arr [item])]).field "id"
      = entry.field "id" := by
    have hne : (E.key == "id") = false := by simpa using E.key_ne
    simp [Json.field, Json.getD, Json.lookup, hne]
  have hentry : itemsOf (alone E.key entry item) "entry"
      = some [.obj [("id", entry.field "id"), (E.key, .arr [item])]] := rfl
  unfold parse
  rw [hentry]
  simp only [Option.bind_eq_bind, Option.bind_some, List.mapM_cons, List.mapM_nil, parseEntry, idOf,
    hid, E.items_alone, Json.isObj]
  cases E.parseItem item ((entry.field "id").textOr cfg.reprOf) <;> simp

theorem parseEntry_isSome_iff : (E.parseEntry cfg entry).isSome = true ↔
    if entry.isObj then ∃ items, E.items entry = some items ∧
      ∀ item ∈ items, (E.parseItem item (idOf cfg entry)).isSome = true
    else E.strict = false := by
  unfold parseEntry
  by_cases hobj : entry.isObj = true
  · rw [if_pos hobj, hobj]
    cases hitems : E.items entry with
    | none => simp
    | some items =>
      simp only [Bool.not_true, Bool.false_eq_true, if_false, Option.bind_eq_bind, Option.bind_some,
        Option.some.injEq, exists_eq_left', ← mapM_isSome_iff]
      cases items.mapM fun item => E.parseItem item (idOf cfg entry) <;> simp
  · rw [if_neg hobj, Bool.eq_false_iff.mpr hobj]
    cases E.strict <;> simp

theorem parse_isSome_iff : (E.parse cfg payload).isSome = true ↔ E.Readable cfg payload := by
  unfold parse Readable
  cases itemsOf payload "entry" with
  | none => simp
  | some entries =>
    have hall : (entries.mapM (E.parseEntry cfg)).isSome = true ↔
        ∀ entry ∈ entries, (E.parseEntry cfg entry).isSome = true := mapM_isSome_iff
    simp only [parseEntry_isSome_iff] at hall
    simp only [Option.bind_eq_bind, Option.bind_some, Option.some.injEq, exists_eq_left', ← hall]
    cases entries.mapM (E.parseEntry cfg) <;> simp

/-- The items of an entry, one at a time. -/
theorem singlesOf_eq {events : List ε} (h : E.parseEntry cfg entry = some events) :
    ∃ parts, (E.singlesOf entry).mapM (E.parse cfg) = some parts ∧ parts.flatten = events := by
  unfold parseEntry at h
  unfold singlesOf
  by_cases hobj : entry.isObj = true
  · rw [hobj] at h
    simp only [Bool.not_true, Bool.false_eq_true, if_false, Option.bind_eq_bind,
      Option.bind_eq_some_iff, Option.some.injEq] at h
    obtain ⟨items, hitems, parts, hparts, rfl⟩ := h
    refine ⟨parts, ?_, rfl⟩
    rw [if_pos hobj, hitems, Option.getD_some, List.mapM_map, ← hparts]
    congr 1
    funext item
    exact parse_alone
  · refine ⟨[], by rw [if_neg hobj]; rfl, ?_⟩
    rw [Bool.eq_false_iff.mpr hobj] at h
    cases hstrict : E.strict with
    | true =>
      rw [hstrict] at h
      cases h
    | false =>
      rw [hstrict] at h
      exact Option.some.inj h

theorem singles_eq {events : List ε} (h : E.parse cfg payload = some events) :
    ∃ parts, (E.singles payload).mapM (E.parse cfg) = some parts ∧ parts.flatten = events := by
  unfold parse at h
  simp only [Option.bind_eq_bind, Option.bind_eq_some_iff, Option.some.injEq] at h
  obtain ⟨entries, hentries, groups, hgroups, rfl⟩ := h
  unfold singles
  rw [hentries, Option.getD_some]
  clear hentries
  induction entries generalizing groups with
  | nil =>
    obtain rfl := Option.some.inj hgroups
    exact ⟨[], rfl, rfl⟩
  | cons entry entries ih =>
    rw [List.mapM_cons] at hgroups
    obtain ⟨events, hevents, hgroups⟩ := Option.bind_eq_some_iff.mp hgroups
    obtain ⟨rest, hrest, hgroups⟩ := Option.bind_eq_some_iff.mp hgroups
    obtain rfl := Option.some.inj hgroups
    obtain ⟨parts, hparts, rfl⟩ := singlesOf_eq hevents
    obtain ⟨parts', hparts', hflat⟩ := ih rest hrest
    refine ⟨parts ++ parts', ?_, ?_⟩
    · rw [List.flatMap_cons, List.mapM_append, hparts, hparts']
      rfl
    · rw [List.flatten_append, hflat, List.flatten_cons]

/-- **Parsing is itemwise** wherever it does not raise. -/
theorem totalItemwise_iff :
    TotalItemwise (E.parse cfg) E.singles payload ↔ E.Readable cfg payload := by
  rw [← parse_isSome_iff, Option.isSome_iff_exists]
  constructor
  · rintro ⟨events, -, hparse, -⟩
    exact ⟨events, hparse⟩
  · rintro ⟨events, hparse⟩
    obtain ⟨parts, hparts, hflat⟩ := singles_eq hparse
    exact ⟨events, parts, hparse, hparts, hflat⟩

end Envelope

/-! ## Items of the direct message adapters -/

/-- `j or {}` can be looked up in. -/
def IsDict (j : Json) : Prop := j.truthy = true → j.isObj = true

variable {cfg : Config} {cv : Conversions} {r : DirectRules} {j d item message : Json}
  {ownId senderId : String} {sentAt : Option Time}

theorem dictOr_isSome_iff : (dictOr j).isSome = true ↔ IsDict j := by
  unfold dictOr IsDict Json.orElse
  cases hj : j.truthy with
  | false => simp [Json.isObj]
  | true => cases hobj : j.isObj <;> simp [hobj]

theorem dictOr_eq (h : dictOr j = some d) : d = j.orElse (.obj []) := by
  unfold dictOr at h
  dsimp only at h
  split at h
  · exact (Option.some.inj h).symm
  · cases h

theorem truthy_dictOr (h : dictOr j = some d) : d.truthy = j.truthy := by
  rw [dictOr_eq h, Json.orElse]
  cases hj : j.truthy with
  | true => exact hj
  | false => rfl

theorem field_of_not_truthy {key : String} (h : j.truthy = false) : j.field key = .null := by
  cases j with
  | obj kvs =>
    cases kvs with
    | nil => rfl
    | cons kv kvs => cases h
  | _ => rfl

theorem field_dictOr {key : String} (h : dictOr j = some d) : d.field key = j.field key := by
  rw [dictOr_eq h, Json.orElse]
  cases hj : j.truthy with
  | true => rfl
  | false => exact (field_of_not_truthy hj).symm

/-- What the message has to be for the event to be made. -/
structure ReadableMessage (message : Json) : Prop where
  quickReply : IsDict (message.field "quick_reply")
  attachment : (message.field "quick_reply").truthy = false →
    (message.field "attachments").truthy = true →
    ∃ first, firstOf (message.field "attachments") = some first ∧ IsDict first ∧
      IsDict (first.field "payload")

theorem parseMessage_isSome_iff : (parseMessage cfg r message senderId sentAt).isSome = true ↔
    (r.unreadable message = false → ReadableMessage message) := by
  unfold parseMessage
  cases hunreadable : r.unreadable message with
  | true => simp
  | false =>
    simp only [Bool.false_eq_true, if_false, forall_const]
    cases hquick : dictOr (message.field "quick_reply") with
    | none =>
      have hno : ¬IsDict (message.field "quick_reply") := by
        rw [← dictOr_isSome_iff, hquick]
        simp
      exact iff_of_false (by simp) fun h => hno h.quickReply
    | some quickReply =>
      have hyes : IsDict (message.field "quick_reply") := by
        rw [← dictOr_isSome_iff, hquick]
        rfl
      have htruthy := truthy_dictOr hquick
      cases hreply : (message.field "quick_reply").truthy with
      | true =>
        rw [hreply] at htruthy
        simp only [Option.bind_eq_bind, Option.bind_some, htruthy, if_true]
        exact iff_of_true rfl ⟨hyes, fun hfalse => by rw [hreply] at hfalse; cases hfalse⟩
      | false =>
        rw [hreply] at htruthy
        simp only [Option.bind_eq_bind, Option.bind_some, htruthy, Bool.false_eq_true, if_false]
        cases hattach : (message.field "attachments").truthy with
        | false =>
          simp only [Bool.false_eq_true, if_false]
          refine iff_of_true ?_ ⟨hyes, fun _ htrue => by rw [hattach] at htrue; cases htrue⟩
          split <;> rfl
        | true =>
          have hexact : ReadableMessage message ↔ ∃ first,
              firstOf (message.field "attachments") = some first ∧ IsDict first ∧
                IsDict (first.field "payload") :=
            ⟨fun h => h.attachment hreply hattach, fun h => ⟨hyes, fun _ _ => h⟩⟩
          rw [hexact]
          cases firstOf (message.field "attachments") with
          | none => simp
          | some first =>
            simp only [if_true, Option.bind_some, Option.some.injEq, exists_eq_left',
              ← dictOr_isSome_iff]
            cases hfirst : dictOr first with
            | none => simp
            | some d =>
              rw [Option.bind_some, field_dictOr hfirst]
              cases dictOr (first.field "payload") <;> simp

/-- What an item has to be for `_parse_item` not to raise. -/
structure ReadableItem (cfg : Config) (cv : Conversions) (r : DirectRules) (item : Json)
    (ownId : String) : Prop where
  object : item.isObj = true
  sender : IsDict (item.field "sender")
  message : IsDict (item.field "message")
  /-- Where there is something to answer. -/
  answered : r.ignored ((item.field "message").orElse (.obj []))
      ((((item.field "sender").orElse (.obj [])).field "id").textOr cfg.reprOf) ownId = false →
    (item.field "message").truthy = true ∨ (item.field "postback").truthy = true →
    (∀ e, cv.sentAt (item.field "timestamp") = .error e → e = .typeError ∨ e = .valueError) ∧
      IsDict (item.field "postback") ∧
      ((item.field "postback").truthy = false →
        r.unreadable (item.field "message") = false → ReadableMessage (item.field "message"))

theorem timestamp_isSome_iff {value : Json} : (cv.timestamp value).isSome = true ↔
    ∀ e, cv.sentAt value = .error e → e = .typeError ∨ e = .valueError := by
  unfold Conversions.timestamp
  cases cv.sentAt value with
  | ok time => simp
  | error e => cases e <;> simp

theorem parseDirectItem_isSome_iff :
    (parseDirectItem cfg cv r item ownId).isSome = true ↔ ReadableItem cfg cv r item ownId := by
  unfold parseDirectItem
  cases hobj : item.isObj with
  | false => exact iff_of_false (by simp) fun h => by rw [h.object] at hobj; cases hobj
  | true =>
    simp only [Bool.not_true, Bool.false_eq_true, if_false, Option.bind_eq_bind]
    cases hsender : dictOr (item.field "sender") with
    | none => exact iff_of_false (by simp) fun h => by simpa [hsender] using dictOr_isSome_iff.mpr h.sender
    | some sender =>
      cases hmessage : dictOr (item.field "message") with
      | none =>
        exact iff_of_false (by simp) fun h => by simpa [hmessage] using dictOr_isSome_iff.mpr h.message
      | some message =>
        have hsenderDict : IsDict (item.field "sender") := dictOr_isSome_iff.mp (by rw [hsender]; rfl)
        have hmessageDict : IsDict (item.field "message") :=
          dictOr_isSome_iff.mp (by rw [hmessage]; rfl)
        have hexact : ReadableItem cfg cv r item ownId ↔ _ :=
          ⟨fun h => h.answered, fun h => ⟨hobj, hsenderDict, hmessageDict, h⟩⟩
        rw [hexact, ← dictOr_eq hsender, ← dictOr_eq hmessage, ← truthy_dictOr hmessage]
        simp only [Option.bind_some]
        cases hignored : r.ignored message ((sender.field "id").textOr cfg.reprOf) ownId with
        | true => simp
        | false =>
          cases hsomething : message.truthy || (item.field "postback").truthy with
          | false =>
            rw [Bool.or_eq_false_iff] at hsomething
            simp [hsomething.1, hsomething.2]
          | true =>
            have hor := (Bool.or_eq_true _ _).mp hsomething
            have hand : (!message.truthy && !(item.field "postback").truthy) = false := by
              rw [← Bool.not_or, hsomething]
              rfl
            simp only [hand, Bool.false_eq_true, if_false, forall_const, hor,
              ← timestamp_isSome_iff]
            cases cv.timestamp (item.field "timestamp") with
            | none => simp
            | some sentAt =>
              cases hpostback : (item.field "postback").truthy with
              | true =>
                simp only [IsDict, hpostback]
                cases (item.field "postback").isObj <;> simp
              | false =>
                have hmtrue : message.truthy = true := by simpa [hpostback] using hor
                have hsame : message = item.field "message" := by
                  rw [dictOr_eq hmessage, Json.orElse, ← truthy_dictOr hmessage, hmtrue]
                  rfl
                have hmsg : (parseMessage cfg r message ((sender.field "id").textOr cfg.reprOf)
                    sentAt).isSome = true ↔ _ := parseMessage_isSome_iff
                simp only [IsDict, hpostback, Bool.false_eq_true, if_false, Option.bind_some,
                  Option.isSome_some, true_and, forall_const, ← hsame, ← hmsg, false_implies]
                cases parseMessage cfg r message ((sender.field "id").textOr cfg.reprOf) sentAt <;> simp

/-! ## The four adapters -/

/-- The way both direct message adapters go. -/
def directEnvelope (cfg : Config) (cv : Conversions) (r : DirectRules) : Envelope DirectEvent where
  strict := true
  key := "messaging"
  items entry := itemsOf entry "messaging"
  parseItem item ownId :=
    (parseDirectItem cfg cv r item ownId).map fun e => e.toList.filter (·.routable)
  items_alone _ _ := rfl
  key_ne := by decide

/-- The way both comment adapters go. -/
def commentEnvelope (changes : Json → Option (List Json))
    (parseChange : Json → String → Option InboundEvent)
    (h : ∀ id item, changes (.obj [("id", id), ("changes", .arr [item])]) = some [item]) :
    Envelope InboundEvent where
  strict := false
  key := "changes"
  items := changes
  parseItem change ownId := some ((parseChange change ownId).toList.filter (·.routable))
  items_alone := h
  key_ne := by decide

theorem filter_filterMap_eq {α β : Type} (f : α → Option β) (p : β → Bool) (xs : List α) :
    (xs.filterMap f).filter p = (xs.map fun x => (f x).toList.filter p).flatten := by
  induction xs with
  | nil => rfl
  | cons x xs ih =>
    rw [List.map_cons, List.flatten_cons, ← ih]
    cases hx : f x with
    | none => rw [List.filterMap_cons_none hx]; rfl
    | some y =>
      rw [List.filterMap_cons_some hx, ← List.singleton_append, List.filter_append]
      rfl

theorem parseDirect_eq (cfg : Config) (cv : Conversions) (r : DirectRules) :
    parseDirect cfg cv r = (directEnvelope cfg cv r).parse cfg := by
  funext payload
  unfold parseDirect Envelope.parse
  congr! with entries entry
  simp only [Envelope.parseEntry, directEnvelope, Envelope.idOf, mapM_map_eq, if_true,
    filter_filterMap_eq, Option.bind_eq_bind, Option.bind_map, Function.comp_def, id]

theorem parseComments_eq (cfg : Config) (changes : Json → Option (List Json))
    (parseChange : Json → String → Option InboundEvent)
    (h : ∀ id item, changes (.obj [("id", id), ("changes", .arr [item])]) = some [item]) :
    parseComments cfg changes parseChange = (commentEnvelope changes parseChange h).parse cfg := by
  have hpure (items : List Json) (g : Json → List InboundEvent) :
      (items.mapM fun item => some (g item)) = some (items.map g) := List.mapM_pure
  funext payload
  unfold parseComments Envelope.parse
  congr! with entries entry
  simp only [Envelope.parseEntry, commentEnvelope, Envelope.idOf, Bool.false_eq_true, if_false,
    filter_filterMap_eq, hpure, Option.bind_eq_bind, Option.bind_some]

theorem facebookChanges_alone (id item : Json) :
    facebookChanges (.obj [("id", id), ("changes", .arr [item])]) = some [item] := rfl

theorem instagramChanges_alone (id item : Json) :
    instagramChanges (.obj [("id", id), ("changes", .arr [item])]) = some [item] := rfl

/-- The payloads with one item each. -/
def messagingSingles (payload : Json) : List Json :=
  ((itemsOf payload "entry").getD []).flatMap fun entry =>
    if entry.isObj then ((itemsOf entry "messaging").getD []).map (alone "messaging" entry) else []

def changesSingles (changes : Json → Option (List Json)) (payload : Json) : List Json :=
  ((itemsOf payload "entry").getD []).flatMap fun entry =>
    if entry.isObj then ((changes entry).getD []).map (alone "changes" entry) else []

/-- The shape without which a direct message adapter raises. -/
def ReadableDirect (cfg : Config) (cv : Conversions) (r : DirectRules) (payload : Json) : Prop :=
  ∃ entries, itemsOf payload "entry" = some entries ∧ ∀ entry ∈ entries,
    entry.isObj = true ∧ ∃ items, itemsOf entry "messaging" = some items ∧
      ∀ item ∈ items, ReadableItem cfg cv r item ((entry.field "id").textOr cfg.reprOf)

theorem parseDirect_itemwise_iff {payload : Json} :
    TotalItemwise (parseDirect cfg cv r) messagingSingles payload ↔
      ReadableDirect cfg cv r payload := by
  have hsingles : messagingSingles = (directEnvelope cfg cv r).singles := rfl
  rw [parseDirect_eq, hsingles, Envelope.totalItemwise_iff]
  refine exists_congr fun entries => and_congr_right fun _ => forall₂_congr fun entry _ => ?_
  by_cases hobj : entry.isObj = true
  · simp only [hobj, if_true, true_and, directEnvelope, Option.isSome_map, Envelope.idOf,
      parseDirectItem_isSome_iff]
  · rw [if_neg hobj]
    exact iff_of_false (by simp [directEnvelope]) fun h => hobj h.1

theorem parseComments_itemwise_iff {changes : Json → Option (List Json)}
    {parseChange : Json → String → Option InboundEvent} {payload : Json}
    (h : ∀ id item, changes (.obj [("id", id), ("changes", .arr [item])]) = some [item]) :
    TotalItemwise (parseComments cfg changes parseChange) (changesSingles changes) payload ↔
      ∃ entries, itemsOf payload "entry" = some entries ∧
        ∀ entry ∈ entries, entry.isObj = true → (changes entry).isSome = true := by
  have hsingles : changesSingles changes = (commentEnvelope changes parseChange h).singles := rfl
  rw [parseComments_eq cfg changes parseChange h, hsingles, Envelope.totalItemwise_iff]
  refine exists_congr fun entries => and_congr_right fun _ => forall₂_congr fun entry _ => ?_
  by_cases hobj : entry.isObj = true
  · simp [hobj, commentEnvelope, Option.isSome_iff_exists]
  · simp [hobj, commentEnvelope]

/-- Two messages, the second of which is dated `Infinity`. -/
def infiniteTimestamp : List (String × Json) :=
  let item (mid : String) (timestamp : Json) : Json := .obj [("sender", .obj [("id", .str "a")]),
    ("message", .obj [("mid", .str mid), ("text", .str "hi")]), ("timestamp", timestamp)]
  [("entry", .arr [.obj [("id", .str "p"),
    ("messaging", .arr [item "m1" .null, item "m2" (.float "inf")])]])]

end Channels
