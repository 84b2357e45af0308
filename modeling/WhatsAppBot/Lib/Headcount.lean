import WhatsAppBot.Lib.Interleave

/-!
# Counting processes

`Sys.headcount mon a₀ p`: how many running processes have their monitor in a state that satisfies
`p`. A step moves one process, so it changes the count by that process alone (`headcount_add`,
`headcount_put`). `crowd n` is the condition that a process starts only while fewer than `n` run;
under it no more than `n` run (`Reach.running_le`).
-/

set_option autoImplicit false

namespace Lib

variable {S : Sig} {σ τ Λ A : Type}

theorem countP_cons_toNat {α : Type} (p : α → Bool) (x : α) (xs : List α) :
    (x :: xs).countP p = xs.countP p + (p x).toNat := by
  cases hx : p x <;> simp [hx]

theorem toNat_pos_le (n : Nat) : (decide (0 < n)).toNat ≤ n := by
  cases n with
  | zero => exact Nat.le_refl 0
  | succ n => exact Nat.succ_le_succ (Nat.zero_le n)

/-- Changing a predicate at one number changes its count by that number. -/
theorem countP_range_change {p q : Nat → Bool} {i n : Nat} (hi : i < n)
    (h : ∀ j, j ≠ i → q j = p j) :
    (List.range n).countP q + (p i).toNat = (List.range n).countP p + (q i).toNat := by
  have hone : ∀ (r : Nat → Bool) (n : Nat), [n].countP r = (r n).toNat := fun r n => by
    cases hr : r n <;> simp [hr]
  induction n with
  | zero => exact absurd hi (Nat.not_lt_zero i)
  | succ n ih =>
    rw [List.range_succ, List.countP_append, List.countP_append, hone, hone]
    rcases Nat.lt_succ_iff_lt_or_eq.mp hi with hlt | rfl
    · have hn := h n (Nat.ne_of_gt hlt)
      have := ih hlt
      rw [hn]
      omega
    · -- below `i` nothing changes
      have hbelow : (List.range i).countP q = (List.range i).countP p :=
        List.countP_congr fun j hj => by rw [h j (Nat.ne_of_lt (List.mem_range.mp hj))]
      rw [hbelow]
      omega

namespace Sys

/-- Process `i` runs, with its monitor in a state that satisfies `p`. -/
def has (mon : Monitor S A) (a₀ : A) (p : A → Bool) (s : Sys S σ τ Λ) (i : Nat) : Bool :=
  (s.proc i).isSome && p (track mon a₀ i s.hist)

def headcount (mon : Monitor S A) (a₀ : A) (p : A → Bool) (s : Sys S σ τ Λ) : Nat :=
  (List.range s.procs.length).countP (s.has mon a₀ p)

def running (s : Sys S σ τ Λ) : Nat := (List.range s.procs.length).countP fun i => (s.proc i).isSome

variable {mon : Monitor S A} {a₀ : A} {p q : A → Bool} {s : Sys S σ τ Λ} {i : Nat}
  {x : Proc S τ Λ} {y : Option (Proc S τ Λ)} {w : σ} {e : Event S σ τ Λ}

theorem headcount_le_running : s.headcount mon a₀ p ≤ s.running :=
  List.countP_mono_left fun _ _ h => (Bool.and_eq_true_iff.mp h).1

theorem headcount_mono (h : ∀ a, p a = true → q a = true) :
    s.headcount mon a₀ p ≤ s.headcount mon a₀ q :=
  List.countP_mono_left fun i _ hi => by
    obtain ⟨hrun, hp⟩ := Bool.and_eq_true_iff.mp hi
    exact Bool.and_eq_true_iff.mpr ⟨hrun, h _ hp⟩

theorem headcount_start (w : σ) : (Sys.start w : Sys S σ τ Λ).headcount mon a₀ p = 0 := rfl

theorem running_add (x : Proc S τ Λ) : (s.add x).running = s.running + 1 := by
  have hlen : (s.add x).procs.length = s.procs.length + 1 := by simp [add]
  unfold running
  rw [hlen, List.range_succ, List.countP_append]
  have hold : (List.range s.procs.length).countP (fun i => ((s.add x).proc i).isSome) =
      (List.range s.procs.length).countP fun i => (s.proc i).isSome :=
    List.countP_congr fun j hj => by
      rw [proc_add, if_neg (Nat.ne_of_lt (List.mem_range.mp hj))]
  rw [hold]
  simp [proc_add]

/-- A new process is counted in its monitor's first state. -/
theorem headcount_add (x : Proc S τ Λ) :
    (s.add x).headcount mon a₀ p = s.headcount mon a₀ p + (p a₀).toNat := by
  have hlen : (s.add x).procs.length = s.procs.length + 1 := by simp [add]
  unfold headcount
  rw [hlen, List.range_succ, List.countP_append]
  have hold : (List.range s.procs.length).countP ((s.add x).has mon a₀ p) =
      (List.range s.procs.length).countP (s.has mon a₀ p) :=
    List.countP_congr fun j hj => by
      have hj := Nat.ne_of_lt (List.mem_range.mp hj)
      rw [has, has, proc_add, track_add, if_neg hj, if_neg hj]
  have hnew : (s.add x).has mon a₀ p s.procs.length = p a₀ := by
    rw [has, proc_add, track_add, if_pos rfl, if_pos rfl]
    rfl
  rw [hold]
  cases hp : p a₀ <;> simp [hnew, hp]

theorem running_put (hx : s.proc i = some x) :
    (s.put i y w e).running + 1 = s.running + y.isSome.toNat := by
  have hlen : (s.put i y w e).procs.length = s.procs.length := List.length_set
  have hchange := countP_range_change (p := fun j => (s.proc j).isSome)
    (q := fun j => ((s.put i y w e).proc j).isSome) (lt_of_proc hx)
    fun j hj => by rw [proc_put hx, if_neg hj]
  rw [hx, proc_put hx, if_pos rfl] at hchange
  unfold running
  rw [hlen]
  exact hchange

/-- A step of one process changes the count by that process. -/
theorem headcount_put (hx : s.proc i = some x)
    (he : ∀ j, j ≠ i → track mon a₀ j (e :: s.hist) = track mon a₀ j s.hist) :
    (s.put i y w e).headcount mon a₀ p + (p (track mon a₀ i s.hist)).toNat =
      s.headcount mon a₀ p + (y.isSome && p (track mon a₀ i (e :: s.hist))).toNat := by
  have hlen : (s.put i y w e).procs.length = s.procs.length := List.length_set
  have hchange := countP_range_change (p := s.has mon a₀ p)
    (q := (s.put i y w e).has mon a₀ p) (lt_of_proc hx) fun j hj => by
      rw [has, has, proc_put hx, if_neg hj, show (s.put i y w e).hist = e :: s.hist from rfl, he j hj]
  rw [has, has, hx, proc_put hx, if_pos rfl] at hchange
  unfold headcount
  rw [hlen]
  exact hchange

theorem headcount_op (mon : Monitor S A) (a₀ : A) (p : A → Bool) (hx : s.proc i = some x)
    (z : Proc S τ Λ) {o : S.Op} (r : S.Resp o) (w : σ) :
    (s.put i (some z) w (.op i x.label x.held o r w)).headcount mon a₀ p +
        (p (track mon a₀ i s.hist)).toNat =
      s.headcount mon a₀ p + (p (mon.next (track mon a₀ i s.hist) o r)).toNat := by
  have hself : track mon a₀ i (.op i x.label x.held o r w :: s.hist) =
      mon.next (track mon a₀ i s.hist) o r := if_pos rfl
  have hcount : _ = s.headcount mon a₀ p +
      (true && p (track mon a₀ i (.op i x.label x.held o r w :: s.hist))).toNat :=
    headcount_put (y := some z) (w := w) hx fun j hj => if_neg (Ne.symm hj)
  rwa [hself, Bool.true_and] at hcount

/-- A process that leaves is not counted any more. -/
theorem headcount_leave (hx : s.proc i = some x)
    (he : ∀ j, track mon a₀ j (e :: s.hist) = track mon a₀ j s.hist) :
    (s.put i none w e).headcount mon a₀ p ≤ s.headcount mon a₀ p := by
  have hcount := headcount_put (p := p) (y := none) (w := w) hx fun j _ => he j
  rw [Option.isSome_none, Bool.false_and, Bool.toNat_false] at hcount
  omega

end Sys

/-- A process starts only while fewer than `n` run. -/
def crowd (n : Nat) (s : Sys S σ τ Λ) : Event S σ τ Λ → Prop
  | .spawn _ _ => s.running < n
  | _ => True

instance (n : Nat) (s : Sys S σ τ Λ) : (e : Event S σ τ Λ) → Decidable (crowd n s e)
  | .spawn _ _ => inferInstanceAs (Decidable (s.running < n))
  | .op .. | .finish _ _ | .cut _ _ => .isTrue trivial

variable {M : Sem S σ τ Λ} {w : σ} {s : Sys S σ τ Λ} {n : Nat}

theorem Reach.running_le (h : Reach M (crowd n) w s) : s.running ≤ n := by
  induction h with
  | start => exact Nat.zero_le n
  | @step s s' e _ hs hc ih =>
    cases hs with
    | spawn l => rw [Sys.running_add]; exact hc
    | op hp _ _ | finish hp _ | cut hp =>
      refine Nat.le_trans (Nat.le_of_succ_le_succ ?_) ih
      exact Nat.le_trans (Nat.le_of_eq (Sys.running_put hp)) (Nat.add_le_add_left (Bool.toNat_le _) _)

end Lib
