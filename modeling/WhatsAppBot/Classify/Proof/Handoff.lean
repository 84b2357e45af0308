import WhatsAppBot.Chat.Proof.Serve
import WhatsAppBot.Classify.Handoff
import WhatsAppBot.Classify.Sample
import WhatsAppBot.Prompt.Proof.Classes

/-!
# Who is handed over

`wantsHuman_iff`: a request for a person is honoured, whatever stands around and between its words,
exactly when the request word is one of `_ASK`. The word `ureed` is not: the vocabulary has another
word in its place.
-/

set_option autoImplicit false

namespace Classify

open Lib Prompt

/-! ## What the patterns find -/

theorem takes_oneOf {word : Char → Bool} {ss : List String} {s : String} (h : s ∈ ss) :
    (oneOf ss).Takes word s.toList :=
  .any (List.mem_map_of_mem h) (takes_literal s)

theorem wantsHuman_of_search {sc : Script} {text : Text} {p : Re Char} (hne : text ≠ [])
    (hp : p ∈ patterns sc.toUnicode) (h : p.search sc.word text = true) :
    wantsHuman sc (some text) = true := by
  have hany : (patterns sc.toUnicode).any (fun p => p.search sc.word text) = true :=
    List.any_eq_true.mpr ⟨p, hp, h⟩
  simp [wantsHuman, hne, hany]

/-- A request word of the vocabulary, a person word, and not too much between them. -/
theorem wantsHuman_of_ask (sc : Script) {q p : String} (hq : q ∈ ask) (hp : p ∈ person)
    {before gap after : Text} (hlength : gap.length ≤ 25) (hgap : '\n' ∉ gap) :
    wantsHuman sc (some (before ++ (q.toList ++ (gap ++ p.toList)) ++ after)) = true := by
  have hline : ∀ c ∈ gap, notNewline c = true := by
    intro c hc
    simp only [notNewline, decide_eq_true_eq]
    rintro rfl
    exact hgap hc
  have htakes : (Re.seq (oneOf ask) (.seq (.upTo 25 notNewline) (oneOf person))).Takes sc.word
      (q.toList ++ (gap ++ p.toList)) :=
    (takes_oneOf hq).seq ((Re.Takes.upTo hlength hline).seq (takes_oneOf hp))
  refine wantsHuman_of_search (fun hnil => ?_) (by simp [patterns]) (htakes.search before after)
  have hwords : ∀ w ∈ ask, w.toList ≠ [] := by decide
  simp only [List.append_eq_nil_iff] at hnil
  exact hwords q hq hnil.1.2.1

/-! ## What they miss -/

/-- Small Latin letters and four Arabic ones, one of which every pattern needs. -/
def isNeeded (c : Char) : Bool :=
  ('a' ≤ fold c && fold c ≤ 'z') || fold c ∈ ['ع', 'ت', 'ح', 'ك']

theorem needs_literal {s : String} (h : s.toList.any isNeeded = true) :
    (literal s).Requires isNeeded := by
  obtain ⟨c, hc, hneeded⟩ := List.any_eq_true.mp h
  have hletter : (letter c).Requires isNeeded := by
    refine .one fun x hx => ?_
    have hfold : fold x = fold c := by simpa using hx
    rw [isNeeded, hfold]
    exact hneeded
  exact hletter.all (List.mem_map_of_mem hc)

theorem needs_oneOf {ss : List String} (hne : ss ≠ [])
    (h : ss.all (fun s => s.toList.any isNeeded) = true) : (oneOf ss).Requires isNeeded := by
  refine .any (by simpa using hne) fun r hr => ?_
  obtain ⟨s, hs, rfl⟩ := List.mem_map.mp hr
  exact needs_literal (List.all_eq_true.mp h s hs)

theorem needs_second {r : Re Char} {rs : List (Re Char)} (h : r.Requires isNeeded) :
    (Re.all (.boundary :: r :: rs)).Requires isNeeded :=
  .right _ (.left _ h)

theorem patterns_need (u : Unicode) : ∀ p ∈ patterns u, p.Requires isNeeded := by
  intro p hp
  simp only [patterns, List.mem_cons, List.not_mem_nil, or_false] at hp
  rcases hp with rfl | rfl | rfl | rfl | rfl | rfl | rfl | rfl | rfl | rfl | rfl | rfl | rfl | rfl |
    rfl | rfl | rfl
  · exact needs_second (needs_oneOf (by simp) (by decide))
  · exact needs_second (needs_literal (by decide))
  · exact needs_second (needs_literal (by decide))
  · exact needs_second (needs_literal (by decide))
  · exact needs_second (needs_literal (by decide))
  · exact needs_second (needs_oneOf (by simp) (by decide))
  · exact needs_second (needs_literal (by decide))
  · exact needs_second (needs_literal (by decide))
  · exact needs_second (needs_oneOf (by simp) (by decide))
  · refine needs_second (.any (by simp) ?_)
    simp only [List.mem_cons, List.not_mem_nil, or_false]
    rintro r (rfl | rfl | rfl)
    · exact .left _ (needs_literal (by decide))
    · exact .left _ (needs_literal (by decide))
    · exact needs_literal (by decide)
  · refine needs_second (.any (by simp) ?_)
    simp only [List.mem_cons, List.not_mem_nil, or_false]
    rintro r (rfl | rfl)
    · exact needs_literal (by decide)
    · exact .left _ (needs_literal (by decide))
  · exact needs_second (needs_literal (by decide))
  · exact needs_second (needs_literal (by decide))
  · exact .left _ (needs_oneOf (by decide) (by decide))
  · exact .right _ (.right _ (needs_literal (by decide)))
  · exact needs_literal (by decide)
  · exact needs_literal (by decide)

/-- A text whose ends do not satisfy `p`. -/
theorem dropWhile_ends {p : Char → Bool} {t : Text} (ha : t.head?.all (fun c => !p c) = true)
    (hb : t.getLast?.all (fun c => !p c) = true) :
    ((t.dropWhile p).reverse.dropWhile p).reverse = t := by
  have hdrop : ∀ {s : Text}, s.head?.all (fun c => !p c) = true → s.dropWhile p = s := by
    intro s hs
    cases s with
    | nil => rfl
    | cons c s => exact List.dropWhile_cons_of_neg (by simpa using hs)
  rw [hdrop ha, hdrop (by rwa [List.head?_reverse]), List.reverse_reverse]

/-- An Arabic letter at an end of a text is not trimmed. -/
def isEnd (c : Char) : Bool := isArabicLetter c && !isSpace c && c ≠ '_'

/-- A plain text between Arabic letters is a request of its own only when it is one of the words. -/
theorem isStandaloneRequest_plain (sc : Script) {t : Text} (ha : t.head?.all isEnd = true)
    (hb : t.getLast?.all isEnd = true) (hplain : ∀ c ∈ t, isPlain c = true) (hnot : t ∉ standalone) :
    isStandaloneRequest sc t = false := by
  have hspace : ∀ {o : Option Char}, o.all isEnd = true → o.all (fun c => !isSpace c) = true := by
    intro o ho
    cases o with
    | none => rfl
    | some c =>
      simp only [Option.all_some, isEnd, Bool.and_eq_true] at ho ⊢
      exact ho.1.2
  have hedge : ∀ {o : Option Char}, o.all isEnd = true →
      o.all (fun c => !isEdge sc.toUnicode c) = true := by
    intro o ho
    cases o with
    | none => rfl
    | some c =>
      simp only [Option.all_some, isEnd, Bool.and_eq_true, decide_eq_true_eq] at ho
      simp [isEdge, sc.word_arabic c ho.1.1, ho.2]
  have hstrip : stripText t = t := by
    rw [stripText_eq]
    exact dropWhile_ends (hspace ha) (hspace hb)
  have htrim : trimEdges sc.toUnicode t = t := dropWhile_ends (hedge ha) (hedge hb)
  rw [isStandaloneRequest, hstrip, htrim, sc.casefoldText_plain hplain]
  exact decide_eq_false hnot

/-- The documented request words. -/
def requestWords : List String := ["عايز", "عاوز", "اريد", "أريد", "محتاج", "ممكن"]

set_option maxRecDepth 10000 in
/-- `ureed`, without and with the hamza, is in no pattern. -/
theorem ureed_unheard (sc : Script) {q p : String} (hq : q ∈ requestWords) (hnot : q ∉ ask)
    (hp : p ∈ person) : wantsHuman sc (some (q.toList ++ ([' '] ++ p.toList))) = false := by
  have hends : requestWords.all (fun q => ask.contains q || person.all fun p =>
      (q.toList ++ ([' '] ++ p.toList)).head?.all isEnd &&
        (q.toList ++ ([' '] ++ p.toList)).getLast?.all isEnd) = true := by decide +kernel
  have hclasses : requestWords.all (fun q => ask.contains q || person.all fun p =>
      (q.toList ++ ([' '] ++ p.toList)).all fun c => isPlain c && !isNeeded c) = true := by
    decide +kernel
  have hwords : requestWords.all (fun q => ask.contains q || person.all fun p =>
      !standalone.contains (q.toList ++ ([' '] ++ p.toList))) = true := by decide +kernel
  have hask : ask.contains q = false := by simpa using hnot
  have hone := List.all_eq_true.mp hends q hq
  have htwo := List.all_eq_true.mp hclasses q hq
  have hthree := List.all_eq_true.mp hwords q hq
  rw [hask, Bool.false_or] at hone htwo hthree
  obtain ⟨ha, hb⟩ := Bool.and_eq_true_iff.mp (List.all_eq_true.mp hone p hp)
  have hclass : ∀ c ∈ q.toList ++ ([' '] ++ p.toList), isPlain c = true ∧ isNeeded c = false := by
    intro c hc
    simpa using List.all_eq_true.mp (List.all_eq_true.mp htwo p hp) c hc
  have halone : q.toList ++ ([' '] ++ p.toList) ∉ standalone := by
    simpa using List.all_eq_true.mp hthree p hp
  have hpatterns : (patterns sc.toUnicode).any
      (fun r => r.search sc.word (q.toList ++ ([' '] ++ p.toList))) = false := by
    rw [List.any_eq_false]
    intro r hr
    rw [(patterns_need _ r hr).search fun c hc => (hclass c hc).2]
    decide
  rw [wantsHuman, isStandaloneRequest_plain sc ha hb (fun c hc => (hclass c hc).1) halone, hpatterns]
  simp

/-! ## What the handler does then -/

section

open Bot Chat Store

def IsModelCall : Op → Prop
  | .generateReply _ _ => True
  | _ => False

abbrev Modelless {α : Type} (P : BotM α) : Prop := P.Only fun o => ¬IsModelCall o

theorem touch_modelless (cfg : Config) (id : Nat) (outgoing : Bool) :
    Modelless (touch cfg id outgoing) := by
  refine (touch_onlyTouch cfg id outgoing).mono fun o ho => ?_
  cases o with
  | generateReply => cases ho
  | _ => exact fun h => h

theorem sendOnce_modelless (cfg : Config) (channel : Channel) (waId : String) (id : Nat)
    (text : String) (replyTo : Option String) (form : Form) :
    Modelless (sendOnce cfg channel waId id text replyTo form) := by
  unfold sendOnce
  cases replyTo with
  | none =>
    refine .call_bind (fun h => h) fun wire => ?_
    split
    · refine .call_bind (fun h => h) fun _ => (touch_modelless cfg id true).bind fun _ => ?_
      exact .call_bind (fun h => h) fun _ => Prog.only_pure _
    · exact only_raise fun h => h
    · exact only_raise fun h => h
  | some key =>
    exact sendOnce_only_of (touch_modelless cfg id true) (fun h => h) (fun h => h)
      (fun _ _ _ h => h) (fun h => h) (fun h => h) fun _ h => h

theorem setMode_modelless (c : Conversation) (operator tag : Option String) :
    Modelless (setMode c .human operator tag) :=
  .call_bind (fun h => h) fun _ => .call_bind (fun h => h) fun _ =>
    only_exec_bind (fun h => h) (Prog.only_pure _)

theorem beginHandoff_modelless (cfg : Config) (channel : Channel) (waId : String) (c : Conversation)
    (ack reason : String) (tag replyTo : Option String) :
    Modelless (beginHandoff cfg channel waId c ack reason tag replyTo) := by
  refine (setMode_modelless c none tag).bind fun d => .call_bind (fun h => h) fun _ =>
    .call_bind (fun h => h) fun _ => ?_
  exact (sendOnce_modelless cfg channel waId d.id ack replyTo .text).bind fun _ =>
    Prog.only_call.mpr fun h => h

theorem receive_modelless (cfg : Config) (channel : Channel) (waId : String) (name : Option String)
    (waMessageId type : String) (content mediaId : Option String) :
    Modelless (receive cfg channel waId name waMessageId type content mediaId) := by
  have hcontext : Modelless (context cfg channel waId name) := by
    refine (context_only cfg channel waId name).mono fun o ho => ?_
    cases o with
    | generateReply => cases ho
    | _ => exact fun h => h
  exact receive_only_of hcontext (fun id => touch_modelless cfg id false) (fun _ h => h) (fun h => h)
    fun h => h

theorem markRead_modelless (channel : Channel) (waMessageId : String) :
    Modelless (markRead channel waMessageId) := by
  unfold markRead
  split
  · exact Prog.only_call.mpr fun h => h
  · exact Prog.only_pure _

/-- How far a conversation has been handed over. -/
inductive Handover where
  | idle
  | switched
  | handed

/-- The model is not called; the switch to a person is committed. -/
def handing : Monitor botSig Handover where
  ok _ o := ¬IsModelCall o
  next a o _ :=
    match a, o with
    | .idle, .sql (.flushMode _ p) => if p.mode = some .human then .switched else .idle
    | .switched, .commit => .handed
    | a, _ => a

/-- What `handle_text_message` does with a message it has claimed. -/
def serveText (cfg : Config) (channel : Channel) (waId : String) (name : Option String)
    (waMessageId text : String) (c : Conversation) : BotM Unit := do
  announce c.id
  markRead channel waMessageId
  if ← handledByHuman cfg channel waId c (some text) (some waMessageId) then pure ()
  else if ← withinQuota cfg channel waId c.id waMessageId (some text) then
    answerText cfg channel waId name waMessageId text c
  else pure ()

theorem handleTextMessage_eq (cfg : Config) (channel : Channel) (waId : String)
    (name : Option String) (waMessageId text : String) :
    handleTextMessage cfg channel waId name waMessageId text =
      receive cfg channel waId name waMessageId "text" (some text) none >>= fun c =>
        match c with
        | none => pure ()
        | some c => serveText cfg channel waId name waMessageId text c := rfl

variable {cfg : Config} {channel : Channel} {waId waMessageId text : String} {name : Option String}
  {c : Conversation}

theorem handledByHuman_eq (h : cfg.rules.wantsHuman (some text) = true) (replyTo : Option String) :
    (c.mode = .human ∧ handledByHuman cfg channel waId c (some text) replyTo = pure true) ∨
      ∃ ack reason tag, handledByHuman cfg channel waId c (some text) replyTo =
        beginHandoff cfg channel waId c ack reason tag replyTo >>= fun _ => pure true := by
  unfold handledByHuman
  split
  · rename_i hc
    exact .inl ⟨hc, rfl⟩
  · right
    split
    · exact ⟨_, _, _, rfl⟩
    · exact ⟨_, _, _, rfl⟩

/-- A message that asks for a person never reaches the model. -/
theorem handleTextMessage_modelless (h : cfg.rules.wantsHuman (some text) = true) :
    Modelless (handleTextMessage cfg channel waId name waMessageId text) := by
  rw [handleTextMessage_eq]
  refine (receive_modelless ..).bind fun claimed => ?_
  cases claimed with
  | none => exact Prog.only_pure _
  | some c =>
    refine .call_bind (fun h => h) fun _ => (markRead_modelless ..).bind fun _ => ?_
    rcases handledByHuman_eq h (some waMessageId) with ⟨-, heq⟩ | ⟨ack, reason, tag, heq⟩
    · rw [heq]
      exact Prog.only_pure _
    · rw [heq, Prog.bind_assoc]
      exact (beginHandoff_modelless ..).bind fun _ => Prog.only_pure _

/-- What does not call the model leaves a conversation handed over, or not. -/
theorem Modelless.wp_handed {α : Type} {P : BotM α} (h : Modelless P) :
    P.wp handing (fun _ b => b = .handed) .handed := by
  refine Prog.Only.wp h rfl fun b o hb ho => ⟨ho, fun r _ => ?_⟩
  rw [hb]
  rfl

theorem beginHandoff_handing (hc : c.mode ≠ .human) (ack reason : String)
    (tag replyTo : Option String) :
    (beginHandoff cfg channel waId c ack reason tag replyTo).wp handing (fun _ b => b = .handed)
      .idle := by
  have hmode : (setMode c .human none tag).wp handing (fun _ b => b = .switched) .idle := by
    refine Prog.wp_call_bind (fun h => h) fun handoffAt _ => ?_
    refine Prog.wp_call_bind (fun h => h) fun activity _ => ?_
    refine ⟨fun h => h, fun r _ => ?_⟩
    show (if (modePatch c .human none tag (some handoffAt) activity).mode = some .human then
      Handover.switched else .idle) = .switched
    simp [modePatch, hc]
  refine (Prog.wp_bind ..).mpr (Prog.wp_mono hmode fun d b hb => ?_)
  subst hb
  refine Prog.wp_call_bind (fun h => h) fun _ _ => ?_
  have hrest : Modelless (publish (.handoff d.id .human reason d.tag) >>= fun _ =>
      sendOnce cfg channel waId d.id ack replyTo .text >>= fun _ => announce d.id) :=
    .call_bind (fun h => h) fun _ => (sendOnce_modelless ..).bind fun _ => Prog.only_call.mpr fun h => h
  exact hrest.wp_handed

/-- A conversation that was with the bot is with a person afterwards. -/
theorem serveText_handing (h : cfg.rules.wantsHuman (some text) = true) (hc : c.mode ≠ .human) :
    (serveText cfg channel waId name waMessageId text c).wp handing (fun _ b => b = .handed) .idle := by
  refine Prog.wp_call_bind (fun h => h) fun _ _ => ?_
  have hread : (markRead channel waMessageId).wp handing (fun _ b => b = .idle) .idle := by
    unfold markRead
    split
    · exact ⟨fun h => h, fun _ _ => rfl⟩
    · rfl
  refine (Prog.wp_bind ..).mpr (Prog.wp_mono hread fun _ b hb => ?_)
  subst hb
  rcases handledByHuman_eq h (some waMessageId) with ⟨hhuman, -⟩ | ⟨ack, reason, tag, heq⟩
  · exact absurd hhuman hc
  · rw [heq, Prog.bind_assoc]
    refine (Prog.wp_bind ..).mpr (Prog.wp_mono (beginHandoff_handing hc ack reason tag _) ?_)
    exact fun _ b hb => hb

/-- The handler consults `wants_human`. -/
def Consults (sc : Script) (cfg : Config) : Prop :=
  ∀ text, cfg.rules.wantsHuman text = wantsHuman sc (text.map String.toList)

/-- `text` is taken for a request: it never reaches the model, and a conversation that was with the
bot is switched to a person. -/
def Honoured (sc : Script) (text : Text) : Prop :=
  wantsHuman sc (some text) = true ∧
    ∀ (cfg : Config) (channel : Channel) (waId : String) (name : Option String) (waMessageId : String),
      Consults sc cfg →
      Modelless (handleTextMessage cfg channel waId name waMessageId (String.ofList text)) ∧
      ∀ c : Conversation, c.mode ≠ .human →
        (serveText cfg channel waId name waMessageId (String.ofList text) c).wp handing
          (fun _ b => b = .handed) .idle

theorem honoured {sc : Script} {text : Text} (h : wantsHuman sc (some text) = true) :
    Honoured sc text := by
  refine ⟨h, fun cfg channel waId name waMessageId hcfg => ?_⟩
  have hwants : cfg.rules.wantsHuman (some (String.ofList text)) = true := by
    rw [hcfg, Option.map_some, String.toList_ofList, h]
  exact ⟨handleTextMessage_modelless hwants, fun c hc => serveText_handing hwants hc⟩

/-- **Whoever asks for a person in a word of the vocabulary is handed over.** -/
theorem wantsHuman_iff (sc : Script) {q p : String} (hq : q ∈ requestWords) (hp : p ∈ person) :
    (∀ before gap after : Text, gap.length ≤ 25 → '\n' ∉ gap →
      Honoured sc (before ++ (q.toList ++ (gap ++ p.toList)) ++ after)) ↔ q ∈ ask := by
  constructor
  · intro h
    by_contra hnot
    have hheard := (h [] [' '] [] (by simp) (by decide)).1
    rw [List.nil_append, List.append_nil, ureed_unheard sc hq hnot hp] at hheard
    cases hheard
  · intro hask before gap after hlength hgap
    exact honoured (wantsHuman_of_ask sc hask hp hlength hgap)

/-- "aayez mowazzaf". -/
theorem wantsHuman_iff_aayez : Honoured Sample.script "عايز موظف".toList := by
  have h := (wantsHuman_iff Sample.script (q := "عايز") (p := "موظف") (by decide) (by decide)).mpr
    (by decide) [] [' '] [] (by decide) (by decide)
  have hshape : [] ++ ("عايز".toList ++ ([' '] ++ "موظف".toList)) ++ [] = "عايز موظف".toList := by decide
  rwa [hshape] at h

/-- "ureed mowazzaf": I want an employee. -/
theorem ureed_mowazzaf_unheard : "اريد" ∈ requestWords ∧ mowazzaf ∈ person ∧
    wantsHuman Sample.script (some "اريد موظف".toList) = false := by
  refine ⟨by decide, by decide, ?_⟩
  have hshape : "اريد موظف".toList = "اريد".toList ++ ([' '] ++ mowazzaf.toList) := by decide
  rw [hshape]
  exact ureed_unheard Sample.script (by decide) (by decide) (by decide)

end

end Classify
