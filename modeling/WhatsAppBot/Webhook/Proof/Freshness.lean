import WhatsAppBot.Webhook.Proof.Tasks
import WhatsAppBot.Webhook.Sample

/-!
# A stale message against a live one

Two decision trees say what is stored for a WhatsApp message: `_content_of` when it came too late,
and the handlers when it did not. Each claims the message exactly once, so each path has one reading
(`dispatched_reads`, `stale_reads`); `stale_reads_live_iff` says for which messages they agree.

Both trees are taken apart from the claim backwards: what was read before it returned
(`Prog.MayDo.of_bind`), and nothing else on the path claims.
-/

set_option autoImplicit false

namespace Webhook

open Lib Store Bot Chat

/-- What is stored of a message's contents. -/
structure Reading where
  type : String
  content : Option String
  mediaId : Option String
  deriving DecidableEq

/-- The operation claims a message with this reading. -/
def IsClaim (r : Reading) (o : Op) : Prop :=
  ∃ c key, o = .sql (.claimInbound c key r.type r.content r.mediaId)

variable {α β : Type}

/-- Some run of `P` stores the reading `r`. -/
def Records (P : BotM α) (r : Reading) : Prop := P.MayDo (IsClaim r)

/-- Whatever is claimed is claimed with the reading `r`. -/
def ClaimsAs (r : Reading) (o : Op) : Prop := ∀ r', IsClaim r' o → r' = r

variable {cfg : Config} {channel : Channel} {waId key : String} {name : Option String}
  {message : Json} {contacts : Contacts} {r r' : Reading} {o : Op}

/-! ## A handler's reading -/

theorem not_isClaim_of_isCalm (h : isCalm o = true) : ¬IsClaim r o := by
  rintro ⟨c, key, rfl⟩
  cases h

theorem not_isClaim_of_inContext (h : inContext o = true) : ¬IsClaim r o := by
  rintro ⟨c, key, rfl⟩
  cases h

theorem claimsAs_of_isCalm (h : isCalm o = true) : ClaimsAs r o :=
  fun _ hclaim => absurd hclaim (not_isClaim_of_isCalm h)

theorem claimsAs_sql {s : Stmt} (h : ∀ c key type content mediaId,
    s ≠ .claimInbound c key type content mediaId) : ClaimsAs r (.sql s) := by
  rintro r' ⟨c, key, heq⟩
  exact absurd (Op.sql.inj heq) (h _ _ _ _ _)

theorem claimsAs_sendOnce (text : String) (id : Nat) (form : Form) :
    (sendOnce cfg channel waId id text (some key) form).Only (ClaimsAs r) :=
  sendOnce_only_of ((touch_only cfg id true).mono fun _ => claimsAs_of_isCalm) (claimsAs_sql nofun)
    nofun (fun _ _ _ => claimsAs_sql nofun) nofun nofun fun _ => nofun

theorem claimsAs_receive (type : String) (content mediaId : Option String) :
    (receive cfg channel waId name key type content mediaId).Only
      (ClaimsAs ⟨type, content, mediaId⟩) := by
  refine receive_only_of ((context_only cfg channel waId name).mono fun _ h =>
      fun _ hclaim => absurd hclaim (not_isClaim_of_inContext h))
    (fun id => (touch_only cfg id false).mono fun _ => claimsAs_of_isCalm) ?_ nofun nofun
  rintro id ⟨_, _, _⟩ ⟨_, _, heq⟩
  cases heq
  rfl

theorem claimsAs_serves (r : Reading) (c : Conversation) :
    Serves (Prog.alphabet (ClaimsAs r)) cfg channel waId key c (fun _ => True) (fun _ => True) where
  calm := fun _ ho => ⟨claimsAs_of_isCalm ho, fun _ _ => trivial⟩
  calmAfter := fun _ ho => ⟨claimsAs_of_isCalm ho, fun _ _ => trivial⟩
  le := id
  quota := fun _ => ⟨nofun, fun _ _ => trivial⟩
  human := fun _ _ _ => ⟨claimsAs_sql nofun, fun _ _ => trivial⟩
  send := fun _ _ => alphabet_wp (claimsAs_sendOnce ..)

theorem receivesTo_claimsAs (type : String) (content mediaId : Option String) :
    ReceivesTo (Prog.alphabet (ClaimsAs ⟨type, content, mediaId⟩)) (fun _ => True)
      (fun _ _ => True) (receive cfg channel waId name key type content mediaId) () :=
  Prog.wp_mono (alphabet_wp (claimsAs_receive type content mediaId))
    fun r _ _ => by cases r <;> trivial

theorem claimsAs_recorder (type : String) (content : Option String) :
    (recordWithoutAnswering cfg waId name key type content).Only
      (ClaimsAs ⟨type, content, none⟩) := by
  refine ((getContext_only cfg waId name).mono fun _ h =>
    fun _ hclaim => absurd hclaim (not_isClaim_of_inContext h)).bind fun c =>
      Prog.Only.call_bind ?_ fun claimed => ?_
  · rintro ⟨_, _, _⟩ ⟨_, _, heq⟩
    cases heq
    rfl
  · cases claimed with
    | none => exact Prog.only_call.mpr nofun
    | some claimed => exact Prog.Only.call_bind nofun fun _ => Prog.only_call.mpr nofun

/-- A program that claims as `r` records nothing else. -/
theorem Records.eq {P : BotM α} (h : Records P r') (hP : P.Only (ClaimsAs r)) : r' = r := by
  obtain ⟨o, ho, hclaim⟩ := hP.of_mayDo h
  exact ho r' hclaim

theorem text_reads {text : String} (h : Records (handleTextMessage cfg channel waId name key text) r) :
    r = ⟨"text", some text, none⟩ :=
  h.eq (Prog.Only.of_wp (handleText_wp (claimsAs_serves _) (fun _ h => h) (receivesTo_claimsAs ..)))

theorem interactive_reads {id title : String}
    (h : Records (handleInteractiveMessage cfg channel waId name key id title) r) :
    r = ⟨"interactive", some (Menu.labelFor id title), none⟩ :=
  h.eq (Prog.Only.of_wp
    (handleInteractive_wp (claimsAs_serves _) (fun _ h => h) (receivesTo_claimsAs ..)))

theorem media_reads {type : String} {mediaId caption : Option String}
    (h : Records (handleMediaMessage cfg channel waId name key type mediaId caption) r) :
    r = ⟨type, some (captionOr type caption), mediaId⟩ :=
  h.eq (Prog.Only.of_wp (handleMedia_wp (claimsAs_serves _) (fun _ h => h) (receivesTo_claimsAs ..)))

theorem unsupported_reads {type : String}
    (h : Records (handleUnsupportedMessage cfg channel waId name key type) r) :
    r = ⟨type, some (receivedText type), none⟩ :=
  h.eq (Prog.Only.of_wp
    (handleUnsupported_wp (claimsAs_serves _) (fun _ h => h) (receivesTo_claimsAs ..)))

/-! ## The two trees -/

/-- `message.get("type", "unknown")`, a string. -/
def typeOf (message : Json) : String :=
  ((message.getD "type" (.str "unknown")).bind Json.str?).getD ""

/-- `message.get(key, {})` is a dictionary. -/
def hasDict (message : Json) (key : String) : Bool :=
  (message.getD key (.obj [])).any Json.isObj

/-- What `_interactive_selection` returns. -/
def selectionOf (cfg : Config) (message : Json) : Option (String × String) :=
  let pick (key : String) : Option (String × String) :=
    let reply := (message.field "interactive").field key
    if (reply.field "id").truthy then
      some ((reply.field "id").text cfg.reprOf, (reply.field "title").textOr cfg.reprOf)
    else none
  (pick "button_reply").or (pick "list_reply")

/-- What is stored of a live message that its handler accepts. -/
def liveReading (cfg : Config) (message : Json) : Reading :=
  let type := typeOf message
  if type = "text" then ⟨type, some (((message.field "text").field "body").str?.getD ""), none⟩
  else if type = "image" ∨ type = "document" then
    let media := message.field type
    ⟨type, some (captionOr type (media.field "caption").str?), (media.field "id").str?⟩
  else if type = "interactive" then
    match selectionOf cfg message with
    | none => ⟨type, some (receivedText type), none⟩
    | some (id, title) => ⟨"interactive", some (Menu.labelFor id title), none⟩
  else if type = "button" then
    let button := message.field "button"
    if (button.field "payload").truthy then
      ⟨"interactive", some (Menu.labelFor ((button.field "payload").text cfg.reprOf)
        ((button.field "text").textOr cfg.reprOf)), none⟩
    else ⟨type, some (receivedText type), none⟩
  else ⟨type, some (receivedText type), none⟩

/-- What is stored of a stale one. -/
def staleReading (cfg : Config) (message : Json) : Reading :=
  let type := typeOf message
  if type = "text" then ⟨type, ((message.field "text").field "body").str?, none⟩
  else if type = "image" ∨ type = "document" then
    ⟨type, some (captionOr type ((message.field type).field "caption").str?), none⟩
  else if type = "interactive" then
    match selectionOf cfg message with
    | none => ⟨type, some (receivedText type), none⟩
    | some (id, title) => ⟨type, some (if title ≠ "" then title else id), none⟩
  else if type = "button" then
    let button := message.field "button"
    if hasDict message "button" then
      ⟨type, some (((button.field "text").orElse (button.field "payload")).textOr cfg.reprOf), none⟩
    else ⟨type, some (receivedText type), none⟩
  else ⟨type, some (receivedText type), none⟩

/-! ## What was read -/

theorem reads_bind {P : BotM α} {f : α → BotM β} (hP : OnlyCalm P) (h : Records (P >>= f) r) :
    ∃ x, P.MayReturn x ∧ Records (f x) r :=
  Prog.MayDo.of_bind (hP.mono fun _ => not_isClaim_of_isCalm) h

theorem get_returns {j v d : Json} {key : String} (h : (get j key d).MayReturn v) :
    j.getD key d = some v := by
  unfold get at h
  split at h
  · rename_i heq
    rw [heq]
    exact congrArg some h
  · obtain ⟨x, -⟩ := h
    cases x

theorem asString_returns {j : Json} {s : String} (h : (asString j).MayReturn s) : j = .str s := by
  unfold asString at h
  split at h
  · exact congrArg Json.str h
  · obtain ⟨x, -⟩ := h
    cases x

theorem asOptional_returns {j : Json} {s : Option String} (h : (asOptional j).MayReturn s) :
    s = j.str? ∧ (s.isSome = true ∨ j = .null) := by
  unfold asOptional at h
  split at h
  · obtain rfl := h
    exact ⟨rfl, .inl rfl⟩
  · exact ⟨Eq.symm h, .inr rfl⟩
  · obtain ⟨x, -⟩ := h
    cases x

/-- A default of `{}` reads as an absent key. -/
theorem field_of_getD {j v : Json} {key key' : String} (h : j.getD key (.obj []) = some v) :
    v.field key' = (j.field key).field key' := by
  cases j with
  | obj kvs =>
    simp only [Json.getD, Option.some.injEq] at h
    subst h
    simp only [Json.field, Json.getD, Option.getD_some]
    cases Json.lookup kvs key with
    | none => rfl
    | some v => rfl
  | _ => cases h

theorem field_of_get {j v : Json} {key : String} (h : j.getD key .null = some v) :
    j.field key = v := by
  rw [Json.field, h]
  rfl

theorem getD_str {j : Json} {key d s : String} (h : j.getD key (.str d) = some (.str s)) :
    s = (j.field key).str?.getD d := by
  cases j with
  | obj kvs =>
    simp only [Json.getD, Option.some.injEq] at h
    simp only [Json.field, Json.getD, Option.getD_some]
    cases hv : Json.lookup kvs key with
    | none =>
      rw [hv] at h
      exact (Json.str.inj h).symm
    | some v =>
      rw [hv] at h
      obtain rfl : v = .str s := h
      rfl
  | _ => cases h

theorem selection_returns {x : Option (String × String)}
    (h : (interactiveSelection cfg message).MayReturn x) : x = selectionOf cfg message := by
  obtain ⟨interactive, hget, hx⟩ := Prog.mayReturn_bind.mp h
  have hfield (key : String) : interactive.field key = (message.field "interactive").field key :=
    field_of_getD (get_returns hget)
  refine Eq.trans (Eq.symm hx) ?_
  simp only [selectionOf, hfield]

theorem typeOf_eq {v : Json} {type : String} (hget : (get message "type" (.str "unknown")).MayReturn v)
    (hstr : (asString v).MayReturn type) : typeOf message = type := by
  rw [typeOf, get_returns hget, asString_returns hstr]
  rfl

/-- **The handler that is chosen stores `liveReading`.** -/
theorem dispatched_reads (h : Records (dispatchMessage cfg message contacts) r) :
    r = liveReading cfg message := by
  unfold dispatchMessage at h
  obtain ⟨_, -, h⟩ := reads_bind (get_only ..) h
  obtain ⟨waId, -, h⟩ := reads_bind (asString_only _) h
  obtain ⟨_, -, h⟩ := reads_bind (get_only ..) h
  obtain ⟨waMessageId, -, h⟩ := reads_bind (asString_only _) h
  obtain ⟨_, hget, h⟩ := reads_bind (get_only ..) h
  obtain ⟨type, hstr, h⟩ := reads_bind (asString_only _) h
  obtain ⟨name, -, h⟩ := reads_bind (asOptional_only _) h
  have htype := typeOf_eq hget hstr
  unfold liveReading
  rw [htype]
  by_cases htext : type = "text"
  · rw [if_pos htext] at h ⊢
    obtain ⟨text, hget, h⟩ := reads_bind (get_only ..) h
    obtain ⟨_, hbody, h⟩ := reads_bind (get_only ..) h
    obtain ⟨body, hs, h⟩ := reads_bind (asString_only _) h
    have hval := getD_str (asString_returns hs ▸ get_returns hbody)
    rw [text_reads h, htext, ← field_of_getD (get_returns hget), ← hval]
  rw [if_neg htext] at h ⊢
  by_cases hmedia : type = "image" ∨ type = "document"
  · rw [if_pos hmedia] at h ⊢
    obtain ⟨media, hget, h⟩ := reads_bind (get_only ..) h
    obtain ⟨_, hid, h⟩ := reads_bind (get_only ..) h
    obtain ⟨mediaId, hids, h⟩ := reads_bind (asOptional_only _) h
    obtain ⟨_, hcaption, h⟩ := reads_bind (get_only ..) h
    obtain ⟨caption, hcaptions, h⟩ := reads_bind (asOptional_only _) h
    have hfield (key : String) : media.field key = (message.field type).field key :=
      field_of_getD (get_returns hget)
    simp only [← hfield]
    rw [media_reads h, field_of_get (get_returns hid), field_of_get (get_returns hcaption),
      (asOptional_returns hids).1, (asOptional_returns hcaptions).1]
  rw [if_neg hmedia] at h ⊢
  by_cases hinteractive : type = "interactive"
  · rw [if_pos hinteractive] at h ⊢
    obtain ⟨selection, hselection, h⟩ := reads_bind (interactiveSelection_only _ _) h
    rw [← selection_returns hselection]
    cases selection with
    | none => exact unsupported_reads h
    | some selection => exact interactive_reads h
  rw [if_neg hinteractive] at h ⊢
  by_cases hbutton : type = "button"
  · rw [if_pos hbutton] at h ⊢
    obtain ⟨button, hget, h⟩ := reads_bind (get_only ..) h
    have hfield (key : String) : button.field key = (message.field "button").field key :=
      field_of_getD (get_returns hget)
    simp only [← hfield]
    by_cases hpayload : (button.field "payload").truthy = true
    · rw [if_pos hpayload] at h ⊢
      exact interactive_reads h
    · rw [if_neg hpayload] at h ⊢
      exact unsupported_reads h
  · rw [if_neg hbutton] at h ⊢
    exact unsupported_reads h

/-- `caption or "[... received]"`. -/
theorem captionOr_returns {j : Json} {type : String} {content : Option String}
    (h : (if j.truthy = true then asOptional j else pure (some (received type)) :
      BotM (Option String)).MayReturn content) : content = some (captionOr type j.str?) := by
  split at h
  · rename_i htruthy
    obtain ⟨heq, hsome | rfl⟩ := asOptional_returns h
    · cases j with
      | str s => simp_all [Json.str?, Json.truthy, captionOr]
      | _ => simp_all [Json.str?]
    · cases htruthy
  · rename_i hfalsy
    refine Eq.trans (Eq.symm h) ?_
    cases j with
    | str s => simp_all [Json.str?, Json.truthy, captionOr, received, receivedText]
    | _ => rfl

theorem contentOf_reads {type : String} {content : Option String} (htype : typeOf message = type)
    (h : (contentOf cfg message type).MayReturn content) :
    ⟨type, content, none⟩ = staleReading cfg message := by
  unfold contentOf at h
  unfold staleReading
  rw [htype]
  by_cases htext : type = "text"
  · rw [if_pos htext] at h ⊢
    obtain ⟨text, hget, h⟩ := Prog.mayReturn_bind.mp h
    obtain ⟨body, hbody, h⟩ := Prog.mayReturn_bind.mp h
    rw [(asOptional_returns h).1, ← field_of_getD (get_returns hget),
      field_of_get (get_returns hbody)]
  rw [if_neg htext] at h ⊢
  by_cases hmedia : type = "image" ∨ type = "document"
  · rw [if_pos hmedia] at h ⊢
    obtain ⟨media, hget, h⟩ := Prog.mayReturn_bind.mp h
    dsimp only at h
    rw [field_of_getD (get_returns hget)] at h
    rw [captionOr_returns h]
  rw [if_neg hmedia] at h ⊢
  by_cases hinteractive : type = "interactive"
  · rw [if_pos hinteractive] at h ⊢
    obtain ⟨selection, hselection, h⟩ := Prog.mayReturn_bind.mp h
    rw [← selection_returns hselection]
    cases selection with
    | none => rw [hinteractive, ← show _ = content from h]; rfl
    | some selection => rw [← show _ = content from h]
  rw [if_neg hinteractive] at h ⊢
  by_cases hbutton : type = "button"
  · rw [if_pos hbutton] at h ⊢
    obtain ⟨button, hget, h⟩ := Prog.mayReturn_bind.mp h
    have hfield (key : String) : button.field key = (message.field "button").field key :=
      field_of_getD (get_returns hget)
    have hdict : hasDict message "button" = button.isObj := by
      rw [hasDict, get_returns hget, Option.any_some]
    simp only [← hfield, hdict]
    by_cases hobj : button.isObj = true
    · rw [if_pos hobj] at h ⊢
      rw [← show _ = content from h]
    · rw [if_neg hobj] at h ⊢
      rw [← show _ = content from h]; rfl
  · rw [if_neg hbutton] at h ⊢
    rw [← show _ = content from h]; rfl

/-- **A stale message is stored as `staleReading`.** -/
theorem stale_reads (h : Records (handledAsStale cfg message contacts) r) :
    r = staleReading cfg message := by
  unfold handledAsStale at h
  split at h
  · cases h
  obtain ⟨stale, -, h⟩ := reads_bind (messageIsStale_only ..) h
  split at h
  · obtain ⟨waId, -, h⟩ := reads_bind (get_only ..) h
    obtain ⟨waMessageId, -, h⟩ := reads_bind (get_only ..) h
    split at h
    · cases h
    · obtain ⟨waId, -, h⟩ := reads_bind (asString_only _) h
      obtain ⟨waMessageId, -, h⟩ := reads_bind (asString_only _) h
      obtain ⟨name, -, h⟩ := reads_bind (asOptional_only _) h
      obtain ⟨_, hget, h⟩ := reads_bind (get_only ..) h
      obtain ⟨type, hstr, h⟩ := reads_bind (asString_only _) h
      obtain ⟨content, hcontent, h⟩ := reads_bind (contentOf_only ..) h
      rw [← contentOf_reads (typeOf_eq hget hstr) hcontent]
      exact h.eq ((claimsAs_recorder type content).bind fun _ => trivial)
  · cases h

/-! ## Where they agree -/

/-- Both paths store the same of the message: a text has a body, media has no id, a selection from our
menu has our label as its title, and a template button has no payload and a text that says just what
is stored for it live. -/
def ReadsSame (cfg : Config) (message : Json) : Prop :=
  let type := typeOf message
  if type = "text" then ((message.field "text").field "body").str?.isSome = true
  else if type = "image" ∨ type = "document" then ((message.field type).field "id").str? = none
  else if type = "interactive" then
    ∀ id title, selectionOf cfg message = some (id, title) →
      ∀ label, Menu.label? id = some label → title = label
  else if type = "button" then
    let button := message.field "button"
    (button.field "payload").truthy = false ∧ (hasDict message "button" = true →
      (button.field "text").truthy = true ∧ (button.field "text").text cfg.reprOf = "[button received]")
  else True

/-- Our labels are no ids. -/
theorem label_ne {id label : String} (h : Menu.label? id = some label) : label ≠ id ∧ label ≠ "" := by
  have hall : (Menu.labels.all fun p => decide (p.2 ≠ p.1) && decide (p.2 ≠ "")) = true := by decide
  obtain ⟨xs, ys, hlabels, -⟩ := List.lookup_eq_some_iff.mp h
  have hmem : (id, label) ∈ Menu.labels := by
    rw [hlabels]
    simp
  simpa using List.all_eq_true.mp hall _ hmem

theorem labelFor_eq_iff {id title : String} :
    Menu.labelFor id title = (if title ≠ "" then title else id) ↔
      ∀ label, Menu.label? id = some label → title = label := by
  unfold Menu.labelFor
  cases hlabel : Menu.label? id with
  | none => simp
  | some label =>
    obtain ⟨hid, hempty⟩ := label_ne hlabel
    simp only [Option.some.injEq, forall_eq']
    by_cases htitle : title ≠ ""
    · rw [if_pos htitle, eq_comm]
    · rw [if_neg htitle]
      exact iff_of_false hid fun h => htitle (h ▸ hempty)

/-- A button without a payload. -/
theorem buttonText_eq_iff {text payload : Json} (h : payload.truthy = false) :
    (text.orElse payload).textOr cfg.reprOf = "[button received]" ↔
      text.truthy = true ∧ text.text cfg.reprOf = "[button received]" := by
  unfold Json.textOr Json.orElse
  cases htext : text.truthy with
  | true => simp [htext]
  | false => simp [h, Json.text]

theorem reading_eq_iff : staleReading cfg message = liveReading cfg message ↔
    ReadsSame cfg message := by
  unfold staleReading liveReading ReadsSame
  generalize typeOf message = type
  by_cases htext : type = "text"
  · simp only [if_pos htext]
    cases ((message.field "text").field "body").str? <;> simp
  simp only [if_neg htext]
  by_cases hmedia : type = "image" ∨ type = "document"
  · simp only [if_pos hmedia, Reading.mk.injEq, true_and]
    exact eq_comm
  simp only [if_neg hmedia]
  by_cases hinteractive : type = "interactive"
  · simp only [if_pos hinteractive]
    cases hselection : selectionOf cfg message with
    | none => simp
    | some selection =>
      obtain ⟨id, title⟩ := selection
      simp only [Option.some.injEq, Prod.mk.injEq, and_imp, Reading.mk.injEq, hinteractive, true_and,
        and_true]
      rw [eq_comm, labelFor_eq_iff]
      exact ⟨fun h _ _ hid htitle => hid ▸ htitle ▸ h, fun h => h id title rfl rfl⟩
  simp only [if_neg hinteractive]
  by_cases hbutton : type = "button"
  · simp only [if_pos hbutton]
    cases hpayload : ((message.field "button").field "payload").truthy with
    | true =>
      -- Live it is stored as a selection.
      refine iff_of_false (fun h => hinteractive ?_) (by simp)
      have htype := congrArg Reading.type h
      rwa [if_pos rfl, apply_ite Reading.type, ite_self] at htype
    | false =>
      cases hdict : hasDict message "button" with
      | true => simp [buttonText_eq_iff hpayload, hbutton, receivedText]
      | false => simp
  · simp only [if_neg hbutton]

/-- Messages are fresh for a quarter of an hour; all of these were sent at the time 0. -/
def datedConfig : Config := { Sample.config with fromTimestamp := fun _ => some 0 }

/-- A row of our menu, picked by its id. -/
def menuMessage (title : String) : Json :=
  .obj [("from", .str "c"), ("id", .str "m"), ("type", .str "interactive"), ("interactive",
    .obj [("button_reply", .obj [("id", .str "request_quote"), ("title", .str title)])])]

theorem getContext_returns (cfg : Config) (waId : String) :
    (getContext cfg waId none).MayReturn (newConversation 0 0 .whatsapp 0) :=
  .call_bind (some ⟨0, .whatsapp, waId, some waId, none⟩ : Option User)
    (.call_bind (some (newConversation 0 0 .whatsapp 0) : Option Conversation) rfl)

theorem recordWithoutAnswering_records (type : String) (content : Option String) :
    Records (recordWithoutAnswering cfg waId none key type content) ⟨type, content, none⟩ :=
  (getContext_returns cfg waId).mayDo_bind (.inl ⟨_, _, rfl⟩)

theorem interactive_records (id title : String) :
    Records (handleInteractiveMessage cfg .whatsapp waId none key id title)
      ⟨"interactive", some (Menu.labelFor id title), none⟩ := by
  have hreceive : (receive cfg .whatsapp waId none key "interactive"
      (some (Menu.labelFor id title)) none).MayDo
        (IsClaim ⟨"interactive", some (Menu.labelFor id title), none⟩) :=
    (getContext_returns cfg waId).mayDo_bind (.inl ⟨_, _, rfl⟩)
  exact hreceive.bind_left

/-- Sixteen minutes after it was sent. -/
theorem recorded_late (content : Option String) : Records
    (recordWithoutAnswering datedConfig "c" none "m" "interactive" content >>= fun _ =>
      (pure true : BotM Bool)) ⟨"interactive", content, none⟩ :=
  (recordWithoutAnswering_records _ _).bind_left

theorem menuMessage_stale : Records (handledAsStale datedConfig (menuMessage "Quote") [])
    ⟨"interactive", some "Quote", none⟩ := by
  refine .inr ⟨(16 * Sample.minute : Int), ?_⟩
  with_unfolding_all exact recorded_late (some "Quote")

theorem menuMessage_live : Records (dispatchMessage datedConfig (menuMessage "Quote") [])
    ⟨"interactive", some "طلب عرض سعر", none⟩ := by
  with_unfolding_all exact interactive_records "request_quote" "Quote"

end Webhook
