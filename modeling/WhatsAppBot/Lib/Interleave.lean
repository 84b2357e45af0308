import WhatsAppBot.Lib.Prog

/-!
# Interleaved runs of programs over shared state

A `Sem` says which program a task runs and what one operation does to the shared state `σ` and to
what the process itself holds, `τ` (an open transaction). A `Sys` is a set of running processes
over one shared state with the history of what happened; `Step` starts a task, lets one process
perform its next operation, lets a finished one leave, or cuts one off, dropping what it holds.
`Reach M C w`: the states reached from `w` when every step satisfies the condition `C`.

`Reach.wp`: if every task's program is accepted by a monitor, then in every reachable state what is
left of every running process is accepted from the state the monitor is in after that process's
part of the history (`track`). `run` executes a schedule, `Reach.of_run` makes a run of it.
-/

set_option autoImplicit false

namespace Lib

variable {S : Sig} {σ τ Λ A : Type}

structure Sem (S : Sig) (σ τ Λ : Type) where
  idle : τ
  program : Λ → Prog S Unit
  step : List τ → σ → τ → (o : S.Op) → S.Resp o → Option (σ × τ)

structure Proc (S : Sig) (τ Λ : Type) where
  label : Λ
  held : τ
  rest : Prog S Unit

/-- What happened. An operation records what its process held before it and the shared state
after it. -/
inductive Event (S : Sig) (σ τ Λ : Type) where
  | spawn (i : Nat) (l : Λ)
  | op (i : Nat) (l : Λ) (held : τ) (o : S.Op) (r : S.Resp o) (post : σ)
  | finish (i : Nat) (l : Λ)
  | cut (i : Nat) (l : Λ)

/-- The process whose step it was. -/
def Event.actor : Event S σ τ Λ → Nat
  | .spawn i _ | .op i _ _ _ _ _ | .finish i _ | .cut i _ => i

/-- `hist` is newest first. -/
structure Sys (S : Sig) (σ τ Λ : Type) where
  shared : σ
  procs : List (Option (Proc S τ Λ))
  hist : List (Event S σ τ Λ)

namespace Sys

def start (w : σ) : Sys S σ τ Λ := ⟨w, [], []⟩

def proc (s : Sys S σ τ Λ) (i : Nat) : Option (Proc S τ Λ) := s.procs[i]?.join

def add (s : Sys S σ τ Λ) (p : Proc S τ Λ) : Sys S σ τ Λ :=
  ⟨s.shared, s.procs ++ [some p], .spawn s.procs.length p.label :: s.hist⟩

def put (s : Sys S σ τ Λ) (i : Nat) (p : Option (Proc S τ Λ)) (w : σ) (e : Event S σ τ Λ) :
    Sys S σ τ Λ :=
  ⟨w, s.procs.set i p, e :: s.hist⟩

/-- What the processes other than `i` hold. -/
def others (s : Sys S σ τ Λ) (i : Nat) : List τ :=
  (List.range s.procs.length).filterMap fun j => if j = i then none else (s.proc j).map (·.held)

variable {s : Sys S σ τ Λ} {i j : Nat} {p q : Proc S τ Λ}

theorem lt_of_proc (h : s.proc i = some p) : i < s.procs.length := by
  by_contra hlt
  simp [proc, List.getElem?_eq_none (Nat.le_of_not_lt hlt)] at h

theorem proc_of_all_none (h : ∀ p ∈ s.procs, p = none) : s.proc i = none := by
  cases hi : s.procs[i]? with
  | none => simp [proc, hi]
  | some p => simp [proc, hi, h p (List.mem_of_getElem? hi)]

theorem proc_add (p : Proc S τ Λ) (j : Nat) :
    (s.add p).proc j = if j = s.procs.length then some p else s.proc j := by
  unfold proc add
  rcases Nat.lt_trichotomy j s.procs.length with hj | hj | hj
  · simp [List.getElem?_append_left hj, Nat.ne_of_lt hj]
  · simp [hj]
  · rw [List.getElem?_eq_none (by simp; omega), List.getElem?_eq_none (by omega)]
    simp [Nat.ne_of_gt hj]

theorem proc_put (h : s.proc i = some p) (x : Option (Proc S τ Λ)) (w : σ) (e : Event S σ τ Λ)
    (j : Nat) : (s.put i x w e).proc j = if j = i then x else s.proc j := by
  have hi := lt_of_proc h
  unfold proc put
  by_cases hj : j = i
  · subst hj; simp [hi]
  · simp [hj, List.getElem?_set_ne (Ne.symm hj)]

theorem mem_others (h : s.proc j = some q) (hij : j ≠ i) : q.held ∈ s.others i := by
  refine List.mem_filterMap.mpr ⟨j, List.mem_range.mpr (lt_of_proc h), ?_⟩
  simp [hij, h]

end Sys

/-- One step of a system, and the event it leaves in the history. -/
inductive Step (M : Sem S σ τ Λ) : Sys S σ τ Λ → Event S σ τ Λ → Sys S σ τ Λ → Prop
  | spawn {s : Sys S σ τ Λ} (l : Λ) :
      Step M s (.spawn s.procs.length l) (s.add ⟨l, M.idle, M.program l⟩)
  | op {s : Sys S σ τ Λ} {i : Nat} {p : Proc S τ Λ} {o : S.Op} {k : S.Resp o → Prog S Unit}
      {r : S.Resp o} {w : σ} {t : τ} :
      s.proc i = some p → p.rest = .op o k → M.step (s.others i) s.shared p.held o r = some (w, t) →
      Step M s (.op i p.label p.held o r w)
        (s.put i (some ⟨p.label, t, k r⟩) w (.op i p.label p.held o r w))
  | finish {s : Sys S σ τ Λ} {i : Nat} {p : Proc S τ Λ} {u : Unit} :
      s.proc i = some p → p.rest = .ret u →
      Step M s (.finish i p.label) (s.put i none s.shared (.finish i p.label))
  | cut {s : Sys S σ τ Λ} {i : Nat} {p : Proc S τ Λ} :
      s.proc i = some p → Step M s (.cut i p.label) (s.put i none s.shared (.cut i p.label))

theorem Step.hist_eq {M : Sem S σ τ Λ} {s s' : Sys S σ τ Λ} {e : Event S σ τ Λ}
    (h : Step M s e s') : s'.hist = e :: s.hist := by
  cases h <;> rfl

/-- A process that runs after a step ran before it, or has just been started. -/
theorem Step.proc_cases {M : Sem S σ τ Λ} {s s' : Sys S σ τ Λ} {e : Event S σ τ Λ}
    (h : Step M s e s') {i : Nat} {p : Proc S τ Λ} (hp : s'.proc i = some p) :
    (∃ q, s.proc i = some q) ∨ i = s.procs.length := by
  cases h with
  | spawn l =>
    rw [Sys.proc_add] at hp
    split at hp
    · rename_i hi
      exact .inr hi
    · exact .inl ⟨p, hp⟩
  | op hq _ _ =>
    rw [Sys.proc_put hq] at hp
    split at hp
    · rename_i hi
      exact .inl ⟨_, hi ▸ hq⟩
    · exact .inl ⟨p, hp⟩
  | finish hq _ | cut hq =>
    rw [Sys.proc_put hq] at hp
    split at hp
    · cases hp
    · exact .inl ⟨p, hp⟩

/-- The states reached from the shared state `w` by steps that satisfy `C`. -/
inductive Reach (M : Sem S σ τ Λ) (C : Sys S σ τ Λ → Event S σ τ Λ → Prop) (w : σ) :
    Sys S σ τ Λ → Prop
  | start : Reach M C w (.start w)
  | step {s s' : Sys S σ τ Λ} {e : Event S σ τ Λ} :
      Reach M C w s → Step M s e s' → C s e → Reach M C w s'

/-- No condition on the steps. -/
def anyStep : Sys S σ τ Λ → Event S σ τ Λ → Prop := fun _ _ => True

instance (s : Sys S σ τ Λ) (e : Event S σ τ Λ) : Decidable (anyStep s e) := .isTrue trivial

theorem Reach.mono {M : Sem S σ τ Λ} {C C' : Sys S σ τ Λ → Event S σ τ Λ → Prop} {w : σ}
    {s : Sys S σ τ Λ} (h : Reach M C w s) (hC : ∀ s e, C s e → C' s e) : Reach M C' w s := by
  induction h with
  | start => exact .start
  | step _ hs hc ih => exact .step ih hs (hC _ _ hc)

theorem Reach.any {M : Sem S σ τ Λ} {C : Sys S σ τ Λ → Event S σ τ Λ → Prop} {w : σ}
    {s : Sys S σ τ Λ} (h : Reach M C w s) : Reach M anyStep w s := h.mono fun _ _ _ => trivial

/-- Every event of the history was a step from a reachable state. -/
theorem Reach.event {M : Sem S σ τ Λ} {C : Sys S σ τ Λ → Event S σ τ Λ → Prop} {w : σ}
    {s : Sys S σ τ Λ} {e : Event S σ τ Λ} {h₁ h₂ : List (Event S σ τ Λ)} (h : Reach M C w s)
    (hsplit : s.hist = h₁ ++ e :: h₂) :
    ∃ s₁ s₂, Reach M C w s₁ ∧ Step M s₁ e s₂ ∧ C s₁ e ∧ s₁.hist = h₂ := by
  induction h generalizing h₁ with
  | start => simp [Sys.start] at hsplit
  | @step s s' e' hr hs hc ih =>
    rw [hs.hist_eq] at hsplit
    cases h₁ with
    | nil =>
      obtain ⟨rfl, rfl⟩ := List.cons.inj hsplit
      exact ⟨s, s', hr, hs, hc, rfl⟩
    | cons x h₁ => exact ih (List.cons.inj hsplit).2

/-! ## Monitors along a run -/

/-- The state of the monitor after what process `i` did. -/
def track (mon : Monitor S A) (a₀ : A) (i : Nat) : List (Event S σ τ Λ) → A
  | [] => a₀
  | .spawn j _ :: h => if j = i then a₀ else track mon a₀ i h
  | .op j _ _ o r _ :: h =>
    if j = i then mon.next (track mon a₀ i h) o r else track mon a₀ i h
  | .finish _ _ :: h => track mon a₀ i h
  | .cut _ _ :: h => track mon a₀ i h

section

variable {mon : Monitor S A} {a₀ : A} {s : Sys S σ τ Λ} {i j : Nat} {l : Λ} {t : τ} {o : S.Op}
  {r : S.Resp o} {w w' : σ} {x : Option (Proc S τ Λ)}

@[simp] theorem track_op_self :
    track mon a₀ i (s.put i x w (.op i l t o r w')).hist = mon.next (track mon a₀ i s.hist) o r := by
  simp [Sys.put, track]

theorem track_op_other (h : j ≠ i) :
    track mon a₀ j (s.put i x w (.op i l t o r w')).hist = track mon a₀ j s.hist := by
  simp [Sys.put, track, Ne.symm h]

@[simp] theorem track_finish :
    track mon a₀ j (s.put i x w (.finish i l)).hist = track mon a₀ j s.hist := rfl

@[simp] theorem track_cut :
    track mon a₀ j (s.put i x w (.cut i l)).hist = track mon a₀ j s.hist := rfl

theorem track_add (p : Proc S τ Λ) : track mon a₀ j (s.add p).hist =
    if j = s.procs.length then a₀ else track mon a₀ j s.hist := by
  simp only [Sys.add, track, eq_comm]

end

/-- Another process leaves a process where it was. -/
theorem Step.proc_other {M : Sem S σ τ Λ} {s s' : Sys S σ τ Λ} {e : Event S σ τ Λ}
    (h : Step M s e s') {i : Nat} (hi : e.actor ≠ i) : s'.proc i = s.proc i := by
  cases h with
  | spawn l =>
    rw [Sys.proc_add]
    exact if_neg (Ne.symm hi)
  | op hq _ _ | finish hq _ | cut hq =>
    rw [Sys.proc_put hq]
    exact if_neg (Ne.symm hi)

theorem Step.track_other {M : Sem S σ τ Λ} {s s' : Sys S σ τ Λ} {e : Event S σ τ Λ}
    (h : Step M s e s') {i : Nat} {mon : Monitor S A} {a₀ : A} (hi : e.actor ≠ i) :
    track mon a₀ i s'.hist = track mon a₀ i s.hist := by
  cases h with
  | spawn l =>
    rw [track_add]
    exact if_neg (Ne.symm hi)
  | op => exact track_op_other (Ne.symm hi)
  | finish | cut => rfl

/-- Every task's program is accepted and leaves in `Q`; the semantics gives only answers the
monitor expects. -/
structure Monitor.Accepts (mon : Monitor S A) (a₀ : A) (Q : A → Prop) (M : Sem S σ τ Λ) :
    Prop where
  program : ∀ l, (M.program l).wp mon (fun _ => Q) a₀
  may : ∀ {ts w t o r x}, M.step ts w t o r = some x → mon.may o r

section

variable {M : Sem S σ τ Λ} {C : Sys S σ τ Λ → Event S σ τ Λ → Prop} {w : σ} {s : Sys S σ τ Λ}
  {mon : Monitor S A} {a₀ : A} {Q : A → Prop} {i : Nat} {p : Proc S τ Λ}

/-- What is left of a running process is accepted from the tracked state. The task decides which
monitor watches it, and only the tasks of the kind `on` are watched. -/
theorem Reach.wp_task (on : Λ → Prop) (mon : Λ → Monitor S A)
    (hprogram : ∀ l, on l → (M.program l).wp (mon l) (fun _ => Q) a₀)
    (hmay : ∀ {l ts w t o r x}, M.step ts w t o r = some x → (mon l).may o r)
    (h : Reach M C w s) (hp : s.proc i = some p) (hon : on p.label) :
    p.rest.wp (mon p.label) (fun _ => Q) (track (mon p.label) a₀ i s.hist) := by
  induction h generalizing i p with
  | start => simp [Sys.proc, Sys.start] at hp
  | @step s s' e _ hs _ ih =>
    cases hs with
    | spawn l =>
      rw [Sys.proc_add] at hp
      split at hp
      · obtain rfl := Option.some.inj hp
        rename_i hi
        simpa [Sys.add, track, hi] using hprogram l hon
      · rename_i hi
        simpa [Sys.add, track, Ne.symm hi] using ih hp hon
    | @op j q o k r w' t hq hrest hstep =>
      rw [Sys.proc_put hq] at hp
      split at hp
      · rename_i hi
        obtain rfl := Option.some.inj hp
        have hwp := ih hq hon
        rw [hrest] at hwp
        simpa [Sys.put, track, hi] using hwp.2 r (hmay hstep)
      · rename_i hi
        simpa [Sys.put, track, Ne.symm hi] using ih hp hon
    | @finish j q u hq hrest =>
      rw [Sys.proc_put hq] at hp
      split at hp
      · cases hp
      · simpa [Sys.put, track] using ih hp hon
    | @cut j q hq =>
      rw [Sys.proc_put hq] at hp
      split at hp
      · cases hp
      · simpa [Sys.put, track] using ih hp hon

theorem Reach.wp (hA : mon.Accepts a₀ Q M) (h : Reach M C w s) (hp : s.proc i = some p) :
    p.rest.wp mon (fun _ => Q) (track mon a₀ i s.hist) :=
  h.wp_task (fun _ => True) (fun _ => mon) (fun l _ => hA.program l) hA.may hp trivial

/-- Nothing happened to a process that was not started. -/
theorem Reach.track_fresh (h : Reach M C w s) (hi : s.procs.length ≤ i) :
    track mon a₀ i s.hist = a₀ := by
  induction h with
  | start => rfl
  | @step s s' e _ hs _ ih =>
    cases hs with
    | spawn l =>
      have hlt : s.procs.length + 1 ≤ i := by simpa [Sys.add] using hi
      rw [track_add, if_neg (by omega)]
      exact ih (by omega)
    | @op j q o k r w' t hq hrest hstep =>
      rw [show (s.put j _ w' _).procs.length = s.procs.length from List.length_set] at hi
      have hj := Sys.lt_of_proc hq
      rw [track_op_other (by omega)]
      exact ih hi
    | finish hq _ | cut hq =>
      rw [show (s.put _ _ _ _).procs.length = s.procs.length from List.length_set] at hi
      exact ih hi

theorem Reach.ok (hA : mon.Accepts a₀ Q M) (h : Reach M C w s) (hp : s.proc i = some p)
    {o : S.Op} {k : S.Resp o → Prog S Unit} (hrest : p.rest = .op o k) :
    mon.ok (track mon a₀ i s.hist) o := by
  have hwp := h.wp hA hp
  rw [hrest] at hwp
  exact hwp.1

theorem Reach.exit (hA : mon.Accepts a₀ Q M) (h : Reach M C w s) (hp : s.proc i = some p)
    {u : Unit} (hrest : p.rest = .ret u) : Q (track mon a₀ i s.hist) := by
  have hwp := h.wp hA hp
  rwa [hrest] at hwp

/-- What the operations of a program's alphabet keep holds of its process. -/
theorem Reach.keeps {φ : Λ → S.Op → Prop} {I : Λ → A → τ → Prop}
    (hφ : ∀ l, (M.program l).Only (φ l)) (hidle : ∀ l, I l a₀ M.idle)
    (hI : ∀ {l ts w a t o r w' t'}, M.step ts w t o r = some (w', t') → φ l o → I l a t →
      I l (mon.next a o r) t')
    (h : Reach M C w s) (hp : s.proc i = some p) :
    I p.label (track mon a₀ i s.hist) p.held ∧ p.rest.Only (φ p.label) := by
  induction h generalizing i p with
  | start => simp [Sys.proc, Sys.start] at hp
  | @step s s' e _ hs _ ih =>
    cases hs with
    | spawn l =>
      rw [Sys.proc_add] at hp
      rw [track_add]
      split at hp
      · obtain rfl := Option.some.inj hp
        rename_i hi
        rw [if_pos hi]
        exact ⟨hidle l, hφ l⟩
      · rename_i hi
        rw [if_neg hi]
        exact ih hp
    | @op j q o k r w' t hq hrest hstep =>
      rw [Sys.proc_put hq] at hp
      split at hp
      · rename_i hi
        subst hi
        obtain rfl := Option.some.inj hp
        obtain ⟨hheld, honly⟩ := ih hq
        rw [hrest] at honly
        rw [track_op_self]
        exact ⟨hI hstep honly.1 hheld, honly.2 r⟩
      · rename_i hi
        rw [track_op_other hi]
        exact ih hp
    | finish hq _ | cut hq =>
      rw [Sys.proc_put hq] at hp
      split at hp
      · cases hp
      · exact ih hp

end

/-! ## Running a schedule -/

inductive Act (S : Sig) (σ τ Λ : Type) where
  | spawn (l : Λ)
  | op (i : Nat) (answer : σ → τ → (o : S.Op) → Option (S.Resp o))
  | finish (i : Nat)
  | cut (i : Nat)

def Sys.act (M : Sem S σ τ Λ) (s : Sys S σ τ Λ) :
    Act S σ τ Λ → Option (Event S σ τ Λ × Sys S σ τ Λ)
  | .spawn l => some (.spawn s.procs.length l, s.add ⟨l, M.idle, M.program l⟩)
  | .op i answer =>
    match s.proc i with
    | none => none
    | some p =>
      match p.rest with
      | .ret _ => none
      | .op o k =>
        match answer s.shared p.held o with
        | none => none
        | some r =>
          match M.step (s.others i) s.shared p.held o r with
          | none => none
          | some (w, t) => some (.op i p.label p.held o r w,
            s.put i (some ⟨p.label, t, k r⟩) w (.op i p.label p.held o r w))
  | .finish i =>
    match s.proc i with
    | none => none
    | some p =>
      match p.rest with
      | .ret _ => some (.finish i p.label, s.put i none s.shared (.finish i p.label))
      | .op _ _ => none
  | .cut i =>
    match s.proc i with
    | none => none
    | some p => some (.cut i p.label, s.put i none s.shared (.cut i p.label))

/-- Plays a schedule, as long as its steps satisfy `C`. -/
def Sys.run (M : Sem S σ τ Λ) (C : Sys S σ τ Λ → Event S σ τ Λ → Prop)
    [∀ s e, Decidable (C s e)] : Sys S σ τ Λ → List (Act S σ τ Λ) → Option (Sys S σ τ Λ)
  | s, [] => some s
  | s, a :: as =>
    match s.act M a with
    | none => none
    | some (e, s') => if C s e then s'.run M C as else none

theorem Sys.act_step {M : Sem S σ τ Λ} {s s' : Sys S σ τ Λ} {a : Act S σ τ Λ} {e : Event S σ τ Λ}
    (h : s.act M a = some (e, s')) : Step M s e s' := by
  cases a with
  | spawn l =>
    obtain ⟨rfl, rfl⟩ := Prod.mk.inj (Option.some.inj h)
    exact .spawn l
  | op i answer =>
    simp only [Sys.act] at h
    split at h
    · cases h
    · rename_i p hp
      split at h
      · cases h
      · rename_i o k hrest
        split at h
        · cases h
        · rename_i r _
          split at h
          · cases h
          · rename_i w t hstep
            obtain ⟨rfl, rfl⟩ := Prod.mk.inj (Option.some.inj h)
            exact .op hp hrest hstep
  | finish i =>
    simp only [Sys.act] at h
    split at h
    · cases h
    · rename_i p hp
      split at h
      · rename_i u hrest
        obtain ⟨rfl, rfl⟩ := Prod.mk.inj (Option.some.inj h)
        exact .finish hp hrest
      · cases h
  | cut i =>
    simp only [Sys.act] at h
    split at h
    · cases h
    · rename_i p hp
      obtain ⟨rfl, rfl⟩ := Prod.mk.inj (Option.some.inj h)
      exact .cut hp

theorem Reach.of_run {M : Sem S σ τ Λ} {C : Sys S σ τ Λ → Event S σ τ Λ → Prop}
    [∀ s e, Decidable (C s e)] {w : σ} {s s' : Sys S σ τ Λ} {as : List (Act S σ τ Λ)}
    (h : Reach M C w s) (hr : s.run M C as = some s') : Reach M C w s' := by
  induction as generalizing s with
  | nil => exact Option.some.inj hr ▸ h
  | cons a as ih =>
    simp only [Sys.run] at hr
    split at hr
    · cases hr
    · rename_i e s₁ ha
      split at hr
      · rename_i hc
        exact ih (.step h (Sys.act_step ha) hc) hr
      · cases hr

/-- A schedule whose last state satisfies a decidable property shows it reachable. -/
theorem Reach.exists_of_run {M : Sem S σ τ Λ} {C : Sys S σ τ Λ → Event S σ τ Λ → Prop}
    [∀ s e, Decidable (C s e)] {w : σ} (as : List (Act S σ τ Λ)) (P : Sys S σ τ Λ → Bool)
    (h : ((Sys.start w).run M C as).any P = true) : ∃ s, Reach M C w s ∧ P s = true := by
  obtain ⟨s, hs, hP⟩ := (Option.any_eq_true _ _).mp h
  exact ⟨s, Reach.start.of_run hs, hP⟩

end Lib
