import WhatsAppBot.Lib.Interleave

/-!
# Ghost state along a run

An invariant that ties the shared state to what each process is doing is often stated through a
ghost state `G`: `I g w h` relates it to the shared state and the history, `F g i a t` to process
`i`, whose monitor is in `a` and which holds `t`. A process that does not run is in the monitor's
first state and holds nothing (`Sys.view`), so starting one changes nothing.

`Simulated` asks only what an operation and a process that leaves do to `g`; `Reach.simulated` is
the invariant for every reachable state.
-/

set_option autoImplicit false

namespace Lib

variable {S : Sig} {σ τ Λ A G : Type}

/-- The state of the monitor for process `i`, and what it holds. -/
def Sys.view (M : Sem S σ τ Λ) (mon : Monitor S A) (a₀ : A) (s : Sys S σ τ Λ) (i : Nat) : A × τ :=
  match s.proc i with
  | some p => (track mon a₀ i s.hist, p.held)
  | none => (a₀, M.idle)

structure Simulated (M : Sem S σ τ Λ) (C : Sys S σ τ Λ → Event S σ τ Λ → Prop) (w₀ : σ)
    (mon : Monitor S A) (a₀ : A) (Q : A → Prop) (I : G → σ → List (Event S σ τ Λ) → Prop)
    (F : G → σ → Nat → A → τ → Prop) : Prop where
  start : ∃ g, I g w₀ [] ∧ ∀ i, F g w₀ i a₀ M.idle
  spawn : ∀ {g w h i l}, I g w h → I g w (.spawn i l :: h)
  leave : ∀ {g w h i t e l}, I g w h → F g w i (track mon a₀ i h) t →
    e = .finish i l ∧ Q (track mon a₀ i h) ∨ e = .cut i l →
    ∃ g', I g' w (e :: h) ∧ F g' w i a₀ M.idle ∧ ∀ j b u, j ≠ i → F g w j b u → F g' w j b u
  op : ∀ {g s i p o k r w t},
    let view := Sys.view M mon a₀ s
    Reach M C w₀ s → I g s.shared s.hist → (∀ j, F g s.shared j (view j).1 (view j).2) →
    s.proc i = some p → p.rest = .op o k → mon.ok (view i).1 o →
    M.step (s.others i) s.shared p.held o r = some (w, t) →
    C s (.op i p.label p.held o r w) →
    ∃ g', I g' w (.op i p.label p.held o r w :: s.hist) ∧ F g' w i (mon.next (view i).1 o r) t ∧
      ∀ j, j ≠ i → F g' w j (view j).1 (view j).2

variable {M : Sem S σ τ Λ} {C : Sys S σ τ Λ → Event S σ τ Λ → Prop} {mon : Monitor S A} {a₀ : A}
  {w : σ} {s : Sys S σ τ Λ} {i j : Nat} {p : Proc S τ Λ}

theorem Sys.view_some (h : s.proc i = some p) :
    s.view M mon a₀ i = (track mon a₀ i s.hist, p.held) := by
  simp [view, h]

theorem Sys.view_none (h : s.proc i = none) : s.view M mon a₀ i = (a₀, M.idle) := by
  simp [view, h]

/-- What another process holds is among what the others hold. -/
theorem Sys.view_others (hij : j ≠ i) :
    (s.view M mon a₀ j).2 = M.idle ∨ (s.view M mon a₀ j).2 ∈ s.others i := by
  cases h : s.proc j with
  | none => exact .inl (by rw [view_none h])
  | some q => exact .inr (by rw [view_some h]; exact mem_others h hij)

theorem Sys.view_add (p : Proc S τ Λ) (hp : p.held = M.idle) (j : Nat) :
    (s.add p).view M mon a₀ j = s.view M mon a₀ j := by
  by_cases hj : j = s.procs.length
  · have hnone : s.proc j = none := by
      cases h : s.proc j with
      | none => rfl
      | some q => exact absurd (lt_of_proc h) (by omega)
    have hadd : (s.add p).proc j = some p := by rw [proc_add, if_pos hj]
    rw [view_none hnone, view_some hadd, track_add, if_pos hj, hp]
  · unfold view
    rw [proc_add, if_neg hj, track_add, if_neg hj]

theorem Sys.view_put (hp : s.proc i = some p) (x : Option (Proc S τ Λ)) (w : σ)
    {e : Event S σ τ Λ} (he : ∀ j, j ≠ i → track mon a₀ j (e :: s.hist) = track mon a₀ j s.hist)
    (hij : j ≠ i) : (s.put i x w e).view M mon a₀ j = s.view M mon a₀ j := by
  have ht : track mon a₀ j (s.put i x w e).hist = track mon a₀ j s.hist := he j hij
  unfold view
  rw [proc_put hp, if_neg hij, ht]

/-- **The ghost state exists along every run.** -/
theorem Reach.simulated {Q : A → Prop} {I : G → σ → List (Event S σ τ Λ) → Prop}
    {F : G → σ → Nat → A → τ → Prop} (hA : mon.Accepts a₀ Q M)
    (hS : Simulated M C w mon a₀ Q I F) (h : Reach M C w s) :
    ∃ g, I g s.shared s.hist ∧
      ∀ j, F g s.shared j (s.view M mon a₀ j).1 (s.view M mon a₀ j).2 := by
  induction h with
  | start => simpa [Sys.start, Sys.view, Sys.proc] using hS.start
  | @step s s' e hr hs hc ih =>
    obtain ⟨g, hI, hF⟩ := ih
    -- A process that leaves: its view is the idle one, the others' views stay.
    have hleave : ∀ {i p e}, s.proc i = some p →
        (e = .finish i p.label ∧ Q (s.view M mon a₀ i).1 ∨ e = .cut i p.label) →
        ∃ g, I g s.shared (e :: s.hist) ∧ ∀ j, F g s.shared j
          ((s.put i none s.shared e).view M mon a₀ j).1
          ((s.put i none s.shared e).view M mon a₀ j).2 := by
      intro i p e hp he
      have hFi := hF i
      rw [Sys.view_some hp] at hFi he
      obtain ⟨g', hI', hself, hother⟩ := hS.leave hI hFi he
      refine ⟨g', hI', fun j => ?_⟩
      by_cases hj : j = i
      · subst hj
        rw [Sys.view_none (by rw [Sys.proc_put hp, if_pos rfl])]
        exact hself
      · rw [Sys.view_put hp _ _ (fun _ _ => by rcases he with ⟨rfl, -⟩ | rfl <;> rfl) hj]
        exact hother j _ _ hj (hF j)
    cases hs with
    | spawn l =>
      refine ⟨g, hS.spawn hI, fun j => ?_⟩
      rw [Sys.view_add _ rfl]
      exact hF j
    | @op i p o k r w' t hp hrest hstep =>
      have hok := hr.ok hA hp hrest
      have hview : s.view M mon a₀ i = (track mon a₀ i s.hist, p.held) := Sys.view_some hp
      obtain ⟨g', hI', hself, hother⟩ := hS.op hr hI hF hp hrest (by rw [hview]; exact hok) hstep hc
      refine ⟨g', hI', fun j => ?_⟩
      by_cases hj : j = i
      · subst hj
        have hput : (s.put j (some ⟨p.label, t, k r⟩) w' (.op j p.label p.held o r w')).proc j =
            some ⟨p.label, t, k r⟩ := by rw [Sys.proc_put hp, if_pos rfl]
        rw [Sys.view_some hput, track_op_self]
        rw [hview] at hself
        exact hself
      · rw [Sys.view_put hp _ _ (fun j hj => by simp [track, Ne.symm hj]) hj]
        exact hother j hj
    | @finish i p u hp hrest =>
      have hQ := hr.exit hA hp hrest
      exact hleave hp (.inl ⟨rfl, by rw [Sys.view_some hp]; exact hQ⟩)
    | @cut i p hp => exact hleave hp (.inr rfl)

end Lib
