import Mathlib.Data.List.Nodup

/-!
# Interleaved runs

A system of concurrent processes is given by what one action does to its state. An action
names the process that moves, with whatever that process does not decide itself; a run is a
list of actions, so every interleaving is one.

## Main definitions

- `run` — the state after a list of actions
- `Along` — every action of a run is taken in a state that permits it
- `order` — the calls of a run, in the order in which they take effect
- `Once` — a call takes effect at most once, and is settled from then on

## Main results

- `run_invariant`, `Along.invariant` — what every (permitted) step keeps, a run keeps
- `Along.iff_forall_take`, `along_iff_forall_take` — a run is permitted exactly if the property
  holds all along it
- `run_collect` — what every step keeps of the state and the calls so far, a run keeps
- `run_counter` — a counter that goes with a kind of call counts the calls of that kind
- `Along.related` — the run is matched by the sequential execution of its calls
- `Once.nodup_order`, `Once.mem_order` — that execution is about each settled call once
-/

namespace Interleaving

variable {α σ τ ι : Type*} {step : α → σ → σ}

def run (step : α → σ → σ) (acts : List α) (s : σ) : σ := acts.foldl (fun s a => step a s) s

@[simp] theorem run_nil (s : σ) : run step [] s = s := rfl

@[simp] theorem run_cons (a : α) (acts : List α) (s : σ) :
    run step (a :: acts) s = run step acts (step a s) := rfl

theorem run_append (acts acts' : List α) (s : σ) :
    run step (acts ++ acts') s = run step acts' (run step acts s) := List.foldl_append

theorem run_invariant {I : σ → Prop} (hstep : ∀ a s, I s → I (step a s)) (acts : List α)
    {s : σ} (hs : I s) : I (run step acts s) := by
  induction acts generalizing s with
  | nil => exact hs
  | cons a acts ih => exact ih (hstep a s hs)

/-- Every action is taken in a state that permits it. -/
def Along (step : α → σ → σ) (P : α → σ → Prop) : List α → σ → Prop
  | [], _ => True
  | a :: acts, s => P a s ∧ Along step P acts (step a s)

instance decidableAlong (P : α → σ → Prop) [∀ a s, Decidable (P a s)] :
    ∀ (acts : List α) (s : σ), Decidable (Along step P acts s)
  | [], _ => inferInstanceAs (Decidable True)
  | a :: acts, s =>
    have := decidableAlong P acts (step a s)
    inferInstanceAs (Decidable (P a s ∧ Along step P acts (step a s)))

theorem along_of_forall {P : α → σ → Prop} (h : ∀ a s, P a s) (acts : List α) (s : σ) :
    Along step P acts s := by
  induction acts generalizing s with
  | nil => trivial
  | cons a acts ih => exact ⟨h a s, ih (step a s)⟩

theorem along_append {P : α → σ → Prop} {acts acts' : List α} {s : σ} :
    Along step P (acts ++ acts') s ↔
      Along step P acts s ∧ Along step P acts' (run step acts s) := by
  induction acts generalizing s with
  | nil => exact (and_iff_right trivial).symm
  | cons a acts ih =>
    rw [List.cons_append, Along, Along, ih, and_assoc]
    rfl

theorem Along.and {P Q : α → σ → Prop} {acts : List α} {s : σ} (hP : Along step P acts s)
    (hQ : Along step Q acts s) : Along step (fun a s => P a s ∧ Q a s) acts s := by
  induction acts generalizing s with
  | nil => trivial
  | cons a acts ih => exact ⟨⟨hP.1, hQ.1⟩, ih hP.2 hQ.2⟩

theorem Along.invariant {P : α → σ → Prop} {I : σ → Prop}
    (hstep : ∀ a s, P a s → I s → I (step a s)) {acts : List α} {s : σ}
    (hrun : Along step P acts s) (hs : I s) : I (run step acts s) := by
  induction acts generalizing s with
  | nil => exact hs
  | cons a acts ih => exact ih hrun.2 (hstep a s hrun.1 hs)

/-- A run is permitted exactly if every action is, in the state before it. -/
theorem along_iff_forall_split {P : α → σ → Prop} {acts : List α} {s : σ} :
    Along step P acts s ↔
      ∀ pre a post, acts = pre ++ a :: post → P a (run step pre s) := by
  induction acts generalizing s with
  | nil =>
    refine ⟨fun _ pre a post h => ?_, fun _ => trivial⟩
    simp at h
  | cons a acts ih =>
    constructor
    · rintro ⟨ha, hrest⟩ pre b post h
      cases pre with
      | nil => exact (List.cons.inj h).1 ▸ ha
      | cons c pre =>
        obtain ⟨rfl, htail⟩ := List.cons.inj h
        exact ih.mp hrest pre b post htail
    · intro h
      refine ⟨h [] a acts rfl, ih.mpr fun pre b post htail => ?_⟩
      exact h (a :: pre) b post (by rw [htail]; rfl)

/-- Where an action of the run is permitted exactly if the property holds after it, the property
holds all along the run exactly if every action is permitted. -/
theorem Along.iff_forall_take {G P : α → σ → Prop} {I Q : σ → Prop} (hQ : ∀ s, I s → Q s)
    (hstep : ∀ a s, G a s → P a s → I s → I (step a s))
    (hperm : ∀ a s, G a s → I s → Q (step a s) → P a s) {acts : List α} {s : σ}
    (hrun : Along step G acts s) (hs : I s) :
    Along step P acts s ↔ ∀ n, Q (run step (acts.take n) s) := by
  induction acts generalizing s with
  | nil =>
    refine ⟨fun _ n => ?_, fun _ => trivial⟩
    rw [List.take_nil]
    exact hQ s hs
  | cons a acts ih =>
    obtain ⟨hG, hrun⟩ := hrun
    constructor
    · rintro ⟨ha, hrest⟩ n
      cases n with
      | zero => exact hQ s hs
      | succ n => exact (ih hrun (hstep a s hG ha hs)).mp hrest n
    · intro h
      have ha : P a s := hperm a s hG hs (h 1)
      exact ⟨ha, (ih hrun (hstep a s hG ha hs)).mpr fun n => h (n + 1)⟩

theorem along_iff_forall_take {P : α → σ → Prop} {I Q : σ → Prop} (hQ : ∀ s, I s → Q s)
    (hstep : ∀ a s, P a s → I s → I (step a s)) (hperm : ∀ a s, I s → Q (step a s) → P a s)
    {acts : List α} {s : σ} (hs : I s) :
    Along step P acts s ↔ ∀ n, Q (run step (acts.take n) s) :=
  (along_of_forall (P := fun _ _ => True) (fun _ _ => trivial) acts s).iff_forall_take hQ
    (fun a s _ => hstep a s) (fun a s _ => hperm a s) hs

/-! ### Where calls take effect -/

variable {point : α → σ → Option ι}

def order (step : α → σ → σ) (point : α → σ → Option ι) : List α → σ → List ι
  | [], _ => []
  | a :: acts, s => (point a s).toList ++ order step point acts (step a s)

/-- What every step keeps of the state and the calls so far, a run keeps. -/
theorem run_collect {I : σ → List ι → Prop}
    (hstep : ∀ a s l, I s l → I (step a s) (l ++ (point a s).toList)) (acts : List α) {s : σ}
    {l : List ι} (hs : I s l) : I (run step acts s) (l ++ order step point acts s) := by
  induction acts generalizing s l with
  | nil => exact (List.append_nil l).symm ▸ hs
  | cons a acts ih =>
    rw [order, ← List.append_assoc]
    exact ih (hstep a s l hs)

/-- A counter that every step with point `v` increments, and no other step changes. -/
theorem run_counter [DecidableEq ι] {I : σ → Prop} {f : σ → ℕ} {v : ι}
    (hI : ∀ a s, I s → I (step a s))
    (hstep : ∀ a s, I s → f (step a s) = f s + if point a s = some v then 1 else 0)
    (acts : List α) {s : σ} (hs : I s) :
    f (run step acts s) = f s + (order step point acts s).count v := by
  induction acts generalizing s with
  | nil => rfl
  | cons a acts ih =>
    rw [run_cons, ih (hI a s hs), hstep a s hs, order, List.count_append, Nat.add_assoc]
    cases hpoint : point a s with
    | none => rfl
    | some i => simp [List.count_singleton]

/-- A step that is no call's point leaves the abstract state alone, a call's point has that
call's effect on it. -/
theorem Along.related {P : α → σ → Prop} {R : σ → τ → Prop} {effect : τ → ι → τ}
    (hstep : ∀ a s t, P a s → R s t → R (step a s) ((point a s).toList.foldl effect t))
    {acts : List α} {s : σ} {t : τ} (hrun : Along step P acts s) (hs : R s t) :
    R (run step acts s) ((order step point acts s).foldl effect t) := by
  induction acts generalizing s t with
  | nil => exact hs
  | cons a acts ih =>
    rw [order, List.foldl_append]
    exact ih hrun.2 (hstep a s t hrun.1 hs)

structure Once (step : α → σ → σ) (point : α → σ → Option ι) (settled : ι → σ → Prop) :
    Prop where
  fresh : ∀ {a s i}, point a s = some i → ¬ settled i s
  settled_step : ∀ {a s i}, settled i (step a s) ↔ point a s = some i ∨ settled i s

variable {settled : ι → σ → Prop}

theorem Once.settled_run (h : Once step point settled) (acts : List α) {s : σ} {i : ι}
    (hs : settled i s) : settled i (run step acts s) :=
  run_invariant (fun _ _ ht => h.settled_step.mpr (.inr ht)) acts hs

theorem Once.mem_order (h : Once step point settled) {acts : List α} {s : σ} {i : ι} :
    i ∈ order step point acts s ↔ settled i (run step acts s) ∧ ¬ settled i s := by
  induction acts generalizing s with
  | nil => simp [order]
  | cons a acts ih =>
    rw [order, List.mem_append, Option.mem_toList, ih, h.settled_step, run_cons]
    constructor
    · rintro (hpoint | ⟨hrun, hnot⟩)
      · exact ⟨h.settled_run acts (h.settled_step.mpr (.inl hpoint)), h.fresh hpoint⟩
      · exact ⟨hrun, fun hs => hnot (.inr hs)⟩
    · rintro ⟨hrun, hnot⟩
      by_cases hpoint : point a s = some i
      · exact .inl hpoint
      · exact .inr ⟨hrun, fun hor => hor.elim hpoint hnot⟩

theorem Once.nodup_order (h : Once step point settled) (acts : List α) (s : σ) :
    (order step point acts s).Nodup := by
  induction acts generalizing s with
  | nil => exact List.nodup_nil
  | cons a acts ih =>
    rw [order, List.nodup_append]
    refine ⟨by cases point a s <;> simp, ih (step a s), ?_⟩
    intro i hi j hj hij
    subst hij
    have hpoint : point a s = some i := by simpa using hi
    exact (h.mem_order.mp hj).2 (h.settled_step.mpr (.inl hpoint))

end Interleaving
