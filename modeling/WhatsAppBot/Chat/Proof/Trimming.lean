import WhatsAppBot.Chat.Proof.History

/-!
# What a trimmed history keeps

`trim_history` walks the window from the newest message back and stops at the first one that no longer
fits. `trimHistory_longest`: what it keeps is the longest suffix of the history within both limits,
and the newest message in any case.
-/

set_option autoImplicit false

namespace Chat

open Lib Store Bot

variable {enc : Encoding} {maxTokens : Nat}

theorem spent_cons (m : Turn) (messages : List Turn) :
    spent enc (m :: messages) = tokenCost enc m + spent enc messages := rfl

/-- A longer suffix costs at least as much. -/
theorem spent_le_of_suffix {xs ys : List Turn} (h : xs <:+ ys) : spent enc xs ≤ spent enc ys := by
  obtain ⟨front, rfl⟩ := h
  simp only [spent, List.map_append, List.sum_append]
  omega

/-- Where the walk stops: behind `front`, at the first message that no longer fits. -/
theorem trimLoop_stops {messages trimmed kept : List Turn} {total : Nat}
    (h : trimLoop enc maxTokens messages trimmed total = some kept)
    (htotal : total = spent enc trimmed) (hfits : trimmed.length ≤ 1 ∨ total ≤ maxTokens) :
    ∃ front back, messages = front ++ back ∧ kept = front.reverse ++ trimmed ∧
      (kept.length ≤ 1 ∨ spent enc kept ≤ maxTokens) ∧
      ∀ m ∈ back.head?, kept ≠ [] ∧ maxTokens < spent enc (m :: kept) := by
  induction messages generalizing trimmed total with
  | nil =>
    obtain rfl := Option.some.inj h
    exact ⟨[], [], rfl, rfl, htotal ▸ hfits, nofun⟩
  | cons m messages ih =>
    by_cases hm : Clean enc m.content
    · simp only [trimLoop, countTokens_of_clean hm] at h
      have hcost : total + ((enc.encodeOrdinary m.content).length + messageOverheadTokens) =
          spent enc (m :: trimmed) := by
        rw [htotal, spent_cons, Nat.add_comm]
        rfl
      rw [hcost] at h
      split at h
      · rename_i hstop
        obtain rfl := Option.some.inj h
        refine ⟨[], m :: messages, rfl, rfl, htotal ▸ hfits, fun x hx => ?_⟩
        obtain rfl := Option.some.inj hx
        exact hstop
      · rename_i hgo
        have hkeep : (m :: trimmed).length ≤ 1 ∨ spent enc (m :: trimmed) ≤ maxTokens := by
          by_cases ht : trimmed = []
          · exact .inl (by simp [ht])
          · exact .inr (Nat.le_of_not_lt fun hlt => hgo ⟨ht, hlt⟩)
        obtain ⟨front, back, hsplit, hkept, hbound, hnext⟩ := ih h rfl hkeep
        refine ⟨m :: front, back, by rw [hsplit, List.cons_append], ?_, hbound, hnext⟩
        rw [hkept, List.reverse_cons, List.append_assoc]
        rfl
    · simp only [trimLoop, countTokens_of_not_clean hm] at h
      cases h

theorem trimLoop_clean {messages trimmed : List Turn} {total : Nat}
    (h : ∀ m ∈ messages, Clean enc m.content) :
    (trimLoop enc maxTokens messages trimmed total).isSome = true := by
  induction messages generalizing trimmed total with
  | nil => rfl
  | cons m messages ih =>
    simp only [trimLoop, countTokens_of_clean (h m List.mem_cons_self)]
    split
    · rfl
    · exact ih fun x hx => h x (List.mem_cons_of_mem _ hx)

theorem lastN_suffix {α : Type} (n : Nat) (xs : List α) : lastN n xs <:+ xs := by
  unfold lastN
  split
  · exact List.suffix_refl xs
  · exact List.drop_suffix _ xs

theorem length_lastN {α : Type} {n : Nat} (hn : 1 ≤ n) (xs : List α) :
    (lastN n xs).length = min n xs.length := by
  rw [lastN, if_neg (by omega), List.length_drop]
  omega

/-- **The longest suffix within both limits.** When every message can be counted the history is
trimmed. What is kept is a suffix with the newest message, of at most `maxMessages` messages and,
unless it is a single message, within the budget; a longer suffix breaks one of the limits. -/
theorem trimHistory_longest (enc : Encoding) (history : List Turn) (maxMessages maxTokens : Nat)
    (hmax : 1 ≤ maxMessages) :
    ((∀ m ∈ history, Clean enc m.content) →
      (trimHistory enc history maxMessages maxTokens).isSome = true) ∧
    ∀ kept, trimHistory enc history maxMessages maxTokens = some kept →
      kept <:+ history ∧ kept.length ≤ maxMessages ∧ kept.getLast? = history.getLast? ∧
      (kept.length ≤ 1 ∨ spent enc kept ≤ maxTokens) ∧
      ∀ longer, longer <:+ history → kept.length < longer.length →
        maxMessages < longer.length ∨ maxTokens < spent enc longer := by
  refine ⟨fun hclean => trimLoop_clean fun m hm => ?_, fun kept h => ?_⟩
  · exact hclean m ((lastN_suffix _ _).subset (List.mem_reverse.mp hm))
  have hwindow := lastN_suffix maxMessages history
  have hlength := length_lastN hmax history
  obtain ⟨front, back, hsplit, hkept, hbound, hnext⟩ := trimLoop_stops h rfl (.inl (by simp))
  rw [List.append_nil] at hkept
  have hsuffix : lastN maxMessages history = back.reverse ++ kept := by
    rw [← List.reverse_reverse (lastN maxMessages history), hsplit, List.reverse_append, hkept]
  have hin : kept <:+ lastN maxMessages history := ⟨_, hsuffix.symm⟩
  have hle := hin.length_le
  refine ⟨hin.trans hwindow, by omega, ?_, hbound, fun longer hlonger hlt => ?_⟩
  · cases hhistory : history with
    | nil =>
      rw [hhistory] at hin hwindow
      rw [List.suffix_nil.mp (hin.trans hwindow)]
    | cons m rest =>
      have hne : kept ≠ [] := by
        cases back with
        | nil =>
          intro hnil
          rw [hsuffix, hnil, hhistory] at hlength
          simp only [List.reverse_nil, List.append_nil, List.length_nil, List.length_cons] at hlength
          omega
        | cons x back => exact (hnext x rfl).1
      obtain ⟨pre, hpre⟩ := hin.trans hwindow
      rw [← hhistory, ← hpre, List.getLast?_append_of_ne_nil _ hne]
  · cases back with
    | nil =>
      have hsame : kept.length = (lastN maxMessages history).length := by
        rw [hsuffix, List.reverse_nil, List.nil_append]
      have hall := hlonger.length_le
      omega
    | cons x back =>
      refine .inr (Nat.lt_of_lt_of_le (hnext x rfl).2 (spent_le_of_suffix ?_))
      refine List.suffix_of_suffix_length_le ?_ hlonger hlt
      refine List.IsSuffix.trans ⟨back.reverse, ?_⟩ hwindow
      rw [hsuffix, List.reverse_cons, List.append_assoc]
      rfl

def exchange : List Turn := [⟨"user", "hello"⟩, ⟨"assistant", "yes"⟩, ⟨"user", "no"⟩]

/-- Three messages of which the budget has room for two. -/
theorem trimHistory_longest_two : ∃ kept,
    trimHistory Webhook.Sample.config.encoding exchange 20 14 = some kept ∧ kept.length = 2 ∧
      kept <:+ exchange ∧ spent Webhook.Sample.config.encoding kept ≤ 14 := by
  have hkept : trimHistory Webhook.Sample.config.encoding exchange 20 14 =
      some [⟨"assistant", "yes"⟩, ⟨"user", "no"⟩] := by decide +kernel
  obtain ⟨hsuffix, -, -, hbound, -⟩ := (trimHistory_longest _ _ _ _ (by decide)).2 _ hkept
  exact ⟨_, hkept, rfl, hsuffix, hbound.resolve_left (by decide)⟩

end Chat
