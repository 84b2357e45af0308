import Mathlib.Algebra.GroupWithZero.Nat
import WhatsAppBot.Lib.Exec
import WhatsAppBot.Webhook.Sample

/-!
# When the history can be built

`trim_history` counts the messages newest first, until the budget is spent. Counting a text that
holds the literal of a special token raises, so the history can be built exactly when every message
that is counted is `Clean`.

* `trimLoop_isSome`: the loop after at least one message was kept.
* `trimHistory_isSome`, `buildHistory_returns_iff`: the same for `trim_history` and, run on any
  database, for `build_history`.
* `special_token_blocks`: a customer's text after which no history is built.
-/

set_option autoImplicit false

namespace Chat

open Lib Store Bot Webhook

/-- What a message takes of the token budget. -/
def tokenCost (enc : Encoding) (message : Turn) : Nat :=
  (enc.encodeOrdinary message.content).length + messageOverheadTokens

def spent (enc : Encoding) (messages : List Turn) : Nat := (messages.map (tokenCost enc)).sum

/-- Every counted message of a window, newest first, is free of special tokens. The two newest are
always counted, an older one when the messages after it fit the budget. -/
def CountedClean (enc : Encoding) (maxTokens : Nat) (window : List Turn) : Prop :=
  ∀ k m, window[k]? = some m → (k ≤ 1 ∨ spent enc (window.take k) ≤ maxTokens) →
    Clean enc m.content

/-- The messages `trim_history` looks at, newest first. -/
def historyWindow (cfg : Config) (messages : List Message) : List Turn :=
  (lastN cfg.maxContextMessages (messages.map turnOf)).reverse

variable {enc : Encoding} {maxTokens : Nat}

theorem countTokens_of_clean {text : String} (h : Clean enc text) :
    countTokens enc text = some (enc.encodeOrdinary text).length := by
  simp [countTokens, encode, h]

theorem countTokens_of_not_clean {text : String} (h : ¬Clean enc text) :
    countTokens enc text = none := by
  simp [countTokens, encode, h]

theorem trimLoop_isSome {messages trimmed : List Turn} {total : Nat} (ht : trimmed ≠ []) :
    (trimLoop enc maxTokens messages trimmed total).isSome ↔
      ∀ k m, messages[k]? = some m → (k = 0 ∨ total + spent enc (messages.take k) ≤ maxTokens) →
        Clean enc m.content := by
  induction messages generalizing trimmed total with
  | nil => simp [trimLoop]
  | cons m messages ih =>
    by_cases hm : Clean enc m.content
    · rw [trimLoop, countTokens_of_clean hm]
      have hcost : (enc.encodeOrdinary m.content).length + messageOverheadTokens =
          tokenCost enc m := rfl
      simp only [hcost]
      split
      · rename_i hbudget
        -- The loop stops here: no older message fits.
        refine iff_of_true rfl fun k m' hk hfit => ?_
        cases k with
        | zero => obtain rfl := Option.some.inj hk; exact hm
        | succ k =>
          simp only [spent, List.take_succ_cons, List.map_cons, List.sum_cons] at hfit
          omega
      · rename_i hbudget
        rw [ih (List.cons_ne_nil _ _)]
        have hfits : total + tokenCost enc m ≤ maxTokens := by
          by_contra hgt
          exact hbudget ⟨ht, Nat.not_le.mp hgt⟩
        constructor
        · intro h k m' hk hfit
          cases k with
          | zero => obtain rfl := Option.some.inj hk; exact hm
          | succ k =>
            refine h k m' (by simpa using hk) (.inr ?_)
            simp only [spent, List.take_succ_cons, List.map_cons, List.sum_cons] at hfit ⊢
            omega
        · intro h k m' hk hfit
          refine h (k + 1) m' (by simpa using hk) (.inr ?_)
          simp only [spent, List.take_succ_cons, List.map_cons, List.sum_cons] at hfit ⊢
          rcases hfit with rfl | hfit
          · simpa using hfits
          · omega
    · rw [trimLoop, countTokens_of_not_clean hm]
      refine iff_of_false nofun fun h => hm (h 0 m rfl (.inl rfl))

theorem trimHistory_isSome {history : List Turn} {maxMessages : Nat} :
    (trimHistory enc history maxMessages maxTokens).isSome ↔
      CountedClean enc maxTokens (lastN maxMessages history).reverse := by
  unfold trimHistory CountedClean
  cases (lastN maxMessages history).reverse with
  | nil => simp [trimLoop]
  | cons m messages =>
    by_cases hm : Clean enc m.content
    · rw [trimLoop, countTokens_of_clean hm]
      simp only [ne_eq, not_true_eq_false, false_and, if_false]
      rw [trimLoop_isSome (List.cons_ne_nil _ _)]
      constructor
      · intro h k m' hk hfit
        cases k with
        | zero => obtain rfl := Option.some.inj hk; exact hm
        | succ k =>
          refine h k m' (by simpa using hk) ?_
          simp only [spent, List.take_succ_cons, List.map_cons, List.sum_cons, tokenCost] at hfit ⊢
          omega
      · intro h k m' hk hfit
        refine h (k + 1) m' (by simpa using hk) ?_
        simp only [spent, List.take_succ_cons, List.map_cons, List.sum_cons, tokenCost] at hfit ⊢
        omega
    · rw [trimLoop, countTokens_of_not_clean hm]
      refine iff_of_false nofun fun h => hm (h 0 m rfl (.inl (Nat.zero_le _)))

theorem historyOf_isSome {cfg : Config} {messages : List Message} :
    (historyOf cfg messages).isSome ↔
      CountedClean cfg.encoding cfg.maxContextTokens (historyWindow cfg messages) :=
  trimHistory_isSome

theorem buildHistory_eq (cfg : Config) (id : Nat) : buildHistory cfg id =
    recent id (cfg.maxContextMessages * 2) >>= fun messages =>
      (historyOf cfg messages).elim (raise .disallowedSpecialToken) pure := by
  unfold buildHistory
  refine congrArg _ (funext fun messages => ?_)
  cases historyOf cfg messages <;> rfl

/-- `build_history` returns what `historyOf` makes of the rows it reads. -/
theorem buildHistory_returns {cfg : Config} {w w' : World} {tx tx' : Tx} {id : Nat}
    {tr : List (Obs botSig)} {history : List Turn}
    (h : Exec (sem cfg) w tx (buildHistory cfg id) tr (.returned history) w' tx') :
    historyOf cfg ((w.db.applyAll tx).recent id (cfg.maxContextMessages * 2)) = some history := by
  rw [buildHistory_eq] at h
  cases h with
  | @op _ w₁ _ _ t₁ _ _ rows _ _ _ hs h =>
    have hs : step cfg [] w tx (.sql (.recent id (cfg.maxContextMessages * 2))) rows =
        some (w₁, t₁) := hs
    obtain ⟨ws, hexec, -⟩ := step_sql hs
    have hrows := (Prod.mk.inj (Option.some.inj hexec)).1
    change Exec _ w₁ t₁ ((historyOf cfg rows).elim (raise .disallowedSpecialToken) pure) _ _ _ _ at h
    rw [hrows]
    cases hh : historyOf cfg rows with
    | some value =>
      rw [hh] at h
      cases h with
      | ret => rfl
    | none =>
      rw [hh] at h
      cases h with
      | @op _ _ _ _ _ _ _ r => cases r

/-- **`build_history` can return** exactly when every message it counts is free of special tokens. -/
theorem buildHistory_returns_iff (cfg : Config) (w : World) (tx : Tx) (id : Nat) :
    (∃ tr history w' tx',
      Exec (sem cfg) w tx (buildHistory cfg id) tr (.returned history) w' tx') ↔
    CountedClean cfg.encoding cfg.maxContextTokens
      (historyWindow cfg ((w.db.applyAll tx).recent id (cfg.maxContextMessages * 2))) := by
  rw [← historyOf_isSome, Option.isSome_iff_exists, buildHistory_eq]
  constructor
  · rintro ⟨tr, history, w', tx', h⟩
    exact ⟨history, buildHistory_returns (buildHistory_eq cfg id ▸ h)⟩
  · rintro ⟨history, hh⟩
    have hstep : (sem cfg).step [] w tx (.sql (.recent id (cfg.maxContextMessages * 2)))
        ((w.db.applyAll tx).recent id (cfg.maxContextMessages * 2)) =
        some ({ w with seq := w.seq + 1 }, tx ++ []) :=
      if_pos ⟨rfl, rfl⟩
    have hrest : Exec (sem cfg) { w with seq := w.seq + 1 } (tx ++ [])
        ((historyOf cfg ((w.db.applyAll tx).recent id (cfg.maxContextMessages * 2))).elim
          (raise .disallowedSpecialToken) pure) [] (.returned history)
        { w with seq := w.seq + 1 } (tx ++ []) := by
      rw [hh]
      exact .ret
    exact ⟨_, history, _, _, .op hstep hrest⟩

/-- A customer sends the end-of-text marker; the worker stops where it builds the history. -/
def endOfText : List Sample.Action :=
  [.spawn (.webhook (Sample.delivery
    [Sample.textMessage "20100" "wamid.1" "<|endoftext|>"]))] ++
    Sample.steps 0 17 Sample.accepted

/-- No history of that conversation can be built from then on. -/
theorem special_token_blocks : ∃ s c,
    Reach (sem Sample.config) anyStep (World.empty 0) s ∧
    c ∈ s.shared.db.conversations.rows ∧ ∀ tr history w tx,
      ¬Exec (sem Sample.config) s.shared []
        (buildHistory Sample.config c.id) tr (.returned history) w tx := by
  obtain ⟨s, hs, hrun⟩ := Reach.exists_of_run (M := sem Sample.config) (C := anyStep)
    (w := World.empty 0) endOfText (fun s => s.shared.db.conversations.rows.any fun c =>
      (historyOf Sample.config (s.shared.db.recent c.id 40)).isNone) (by decide +kernel)
  obtain ⟨c, hc, hnone⟩ := List.any_eq_true.mp hrun
  refine ⟨s, c, hs, hc, fun tr history w tx h => ?_⟩
  exact nomatch (buildHistory_returns h).symm.trans (Option.isNone_iff_eq_none.mp hnone)

end Chat
