import WhatsAppBot.Lib.Interleave

/-!
# What a process relies on

An operation often goes on from what an earlier one found, although nothing keeps the others from
changing it in between. `Rely` is the rule for that: `I w h` holds of the shared state, and a
process whose task is of the kind `on`, with its monitor in `a` and holding `t`, relies on
`F l a w h t`. One step, of whichever process, has to keep `I`, what its own process relies on and
what the others rely on; the condition `C` on the steps is what the others promise.

`Reach.rely`: in every reachable state `I` holds, and every process has what it relies on.
`Reach.traced` is the rule for what a process knows of the history by its own operations,
`Reach.remembers` the one for what its monitor keeps of an operation that is in the history.
-/

set_option autoImplicit false

namespace Lib

variable {S : Sig} {σ τ Λ A : Type}

def Event.isOp : Event S σ τ Λ → Bool
  | .op .. => true
  | _ => false

/-- Every running process of the kind `on` has what it relies on. -/
def Sys.Relies (on : Λ → Prop) (mon : Λ → Monitor S A) (a₀ : A)
    (F : Λ → A → σ → List (Event S σ τ Λ) → τ → Prop) (s : Sys S σ τ Λ) : Prop :=
  ∀ i p, s.proc i = some p → on p.label →
    F p.label (track (mon p.label) a₀ i s.hist) s.shared s.hist p.held

structure Rely (M : Sem S σ τ Λ) (C : Sys S σ τ Λ → Event S σ τ Λ → Prop) (w₀ : σ)
    (on : Λ → Prop) (mon : Λ → Monitor S A) (a₀ : A) (I : σ → List (Event S σ τ Λ) → Prop)
    (F : Λ → A → σ → List (Event S σ τ Λ) → τ → Prop) : Prop where
  program : ∀ l, on l → (M.program l).wp (mon l) (fun _ _ => True) a₀
  may : ∀ {l ts w t o r x}, M.step ts w t o r = some x → (mon l).may o r
  start : I w₀ []
  fresh : ∀ {l w h}, I w h → on l → F l a₀ w h M.idle
  /-- A process that starts or leaves takes nothing away. -/
  quiet : ∀ {e w h}, e.isOp = false → I w h →
    I w (e :: h) ∧ ∀ l a t, F l a w h t → F l a w (e :: h) t
  op : ∀ {s i p o k r w t},
    Reach M C w₀ s → I s.shared s.hist → s.Relies on mon a₀ F → s.proc i = some p →
    p.rest = .op o k → (on p.label → (mon p.label).ok (track (mon p.label) a₀ i s.hist) o) →
    M.step (s.others i) s.shared p.held o r = some (w, t) →
    C s (.op i p.label p.held o r w) →
    let h := .op i p.label p.held o r w :: s.hist
    I w h ∧
      (on p.label → F p.label ((mon p.label).next (track (mon p.label) a₀ i s.hist) o r) w h t) ∧
      ∀ j q, j ≠ i → s.proc j = some q → on q.label →
        F q.label (track (mon q.label) a₀ j s.hist) w h q.held

variable {M : Sem S σ τ Λ} {C : Sys S σ τ Λ → Event S σ τ Λ → Prop} {w : σ} {on : Λ → Prop}
  {mon : Λ → Monitor S A} {a₀ : A} {I : σ → List (Event S σ τ Λ) → Prop}
  {F : Λ → A → σ → List (Event S σ τ Λ) → τ → Prop} {s : Sys S σ τ Λ}

theorem Reach.rely (hR : Rely M C w on mon a₀ I F) (h : Reach M C w s) :
    I s.shared s.hist ∧ s.Relies on mon a₀ F := by
  induction h with
  | start => exact ⟨hR.start, fun i p hp => by simp [Sys.proc, Sys.start] at hp⟩
  | @step s s' e hr hs hc ih =>
    obtain ⟨hI, hF⟩ := ih
    -- a process that leaves: the others go on relying on what they did
    have hleave : ∀ {i p e}, s.proc i = some p → e.isOp = false →
        (∀ l a j, track (mon l) a j (e :: s.hist) = track (mon l) a j s.hist) →
        I s.shared (e :: s.hist) ∧ (s.put i none s.shared e).Relies on mon a₀ F := by
      intro i p e hp he ht
      obtain ⟨hI', hF'⟩ := hR.quiet he hI
      refine ⟨hI', fun j q hq hon => ?_⟩
      rw [Sys.proc_put hp] at hq
      split at hq
      · cases hq
      · have hrely := hF' _ _ _ (hF j q hq hon)
        rw [← ht] at hrely
        exact hrely
    cases hs with
    | spawn l =>
      obtain ⟨hI', hF'⟩ := hR.quiet (e := .spawn s.procs.length l) rfl hI
      refine ⟨hI', fun j q hq hon => ?_⟩
      rw [Sys.proc_add] at hq
      rw [track_add]
      split at hq
      · rename_i hj
        obtain rfl := Option.some.inj hq
        rw [if_pos hj]
        exact hR.fresh hI' hon
      · rename_i hj
        rw [if_neg hj]
        exact hF' _ _ _ (hF j q hq hon)
    | @op i p o k r w' t hp hrest hstep =>
      have hok : on p.label → (mon p.label).ok (track (mon p.label) a₀ i s.hist) o := by
        intro hon
        have hwp := hr.wp_task on mon hR.program hR.may hp hon
        rw [hrest] at hwp
        exact hwp.1
      obtain ⟨hI', hself, hother⟩ := hR.op hr hI hF hp hrest hok hstep hc
      refine ⟨hI', fun j q hq hon => ?_⟩
      rw [Sys.proc_put hp] at hq
      split at hq
      · rename_i hj
        subst hj
        obtain rfl := Option.some.inj hq
        rw [track_op_self]
        exact hself hon
      · rename_i hj
        rw [track_op_other hj]
        exact hother j q hj hq hon
    | finish hp _ => exact hleave hp rfl fun _ _ _ => rfl
    | cut hp => exact hleave hp rfl fun _ _ _ => rfl

variable (on) in
/-- What the state of a process's monitor says about the history: the process's own operations
establish it, and no step of another takes it away. -/
theorem Reach.traced {mon : Monitor S A} {Φ : Nat → A → List (Event S σ τ Λ) → Prop}
    (hfresh : ∀ i h, Φ i a₀ h) (hother : ∀ {i a e h}, e.actor ≠ i → Φ i a h → Φ i a (e :: h))
    (hown : ∀ {s i p o k r w' t}, Reach M C w s → s.proc i = some p → on p.label →
      p.rest = .op o k → M.step (s.others i) s.shared p.held o r = some (w', t) →
      Φ i (track mon a₀ i s.hist) s.hist →
      Φ i (mon.next (track mon a₀ i s.hist) o r) (.op i p.label p.held o r w' :: s.hist))
    (h : Reach M C w s) {i : Nat} {p : Proc S τ Λ} (hp : s.proc i = some p) (hon : on p.label) :
    Φ i (track mon a₀ i s.hist) s.hist := by
  induction h generalizing i p with
  | start => simp [Sys.proc, Sys.start] at hp
  | @step s s' e hr hs _ ih =>
    by_cases hi : e.actor = i
    · cases hs with
      | spawn l =>
        obtain rfl : s.procs.length = i := hi
        rw [track_add, if_pos rfl]
        exact hfresh _ _
      | @op j q o k r w' t hq hrest hstep =>
        obtain rfl : j = i := hi
        rw [Sys.proc_put hq, if_pos rfl] at hp
        obtain rfl := Option.some.inj hp
        rw [track_op_self]
        exact hown hr hq hon hrest hstep (ih hq hon)
      | finish hq _ | cut hq =>
        rw [Sys.proc_put hq] at hp
        cases (if_pos hi.symm).symm.trans hp
    · rw [hs.proc_other hi] at hp
      rw [hs.track_other hi, hs.hist_eq]
      exact hother hi (ih hp hon)

theorem Reach.actor_lt (h : Reach M C w s) {e : Event S σ τ Λ} (he : e ∈ s.hist) :
    e.actor < s.procs.length := by
  induction h with
  | start => cases he
  | step _ hs _ ih =>
    rw [hs.hist_eq, List.mem_cons] at he
    cases hs with
    | spawn =>
      rw [Sys.add, List.length_append]
      rcases he with rfl | he
      · exact Nat.lt_succ_self _
      · exact Nat.lt_succ_of_lt (ih he)
    | op hp _ _ | finish hp _ | cut hp =>
      rw [Sys.put, List.length_set]
      rcases he with rfl | he
      · exact Sys.lt_of_proc hp
      · exact ih he

/-- What an operation makes of its process's monitor, when the later ones keep it. -/
theorem Reach.remembers {mon : Monitor S A} {P : A → Prop} {i : Nat} {l : Λ} {t : τ} {o : S.Op}
    {r : S.Resp o} {post : σ} (h : Reach M C w s) (he : .op i l t o r post ∈ s.hist)
    (hset : ∀ a, P (mon.next a o r)) (hkeep : ∀ a o r, P a → P (mon.next a o r)) :
    P (track mon a₀ i s.hist) := by
  induction h with
  | start => cases he
  | @step s s' e hr hs _ ih =>
    rw [hs.hist_eq, List.mem_cons] at he
    rcases he with rfl | he
    · rw [hs.hist_eq, track, if_pos rfl]
      exact hset _
    · by_cases hi : e.actor = i
      · cases hs with
        | spawn => exact absurd hi (Nat.ne_of_gt (hr.actor_lt he))
        | @op j =>
          obtain rfl : j = i := hi
          rw [track_op_self]
          exact hkeep _ _ _ (ih he)
        | finish | cut => exact ih he
      · rw [hs.track_other hi]
        exact ih he

end Lib
