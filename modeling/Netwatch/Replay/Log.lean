import Mathlib.Data.List.Basic
import Netwatch.Interleaving.Run

/-!
# Replayed logs

What is left of a log whose entries are applied one after the other. A column that an entry may
leave out has the last value that was sent for it. A token that has one holder at a time is taken
by the entry that carries it from whoever holds it.

## Main definitions

- `lastSent` — the last value that an entry carried
- `claim` — what one entry does to the holders of the tokens

## Main results

- `run_claim_of_silent` — a key that sends no token keeps its own until another key takes it
- `run_claim_of_last` — who holds the token of a key's last claim
-/

namespace Replay

open Interleaving

variable {α β κ τ : Type*}

section LastSent

variable (f : α → Option β)

def lastSent (log : List α) : Option β := (log.filterMap f).getLast?

theorem lastSent_nil : lastSent f [] = none := rfl

theorem lastSent_append_singleton (log : List α) (a : α) :
    lastSent f (log ++ [a]) = (f a).or (lastSent f log) := by
  rw [lastSent, List.filterMap_append, List.getLast?_append, lastSent]
  cases h : f a <;> simp [h]

theorem lastSent_singleton (a : α) : lastSent f [a] = f a := by
  rw [← List.nil_append [a], lastSent_append_singleton, lastSent_nil, Option.or_none]

end LastSent

section Claim

variable [DecidableEq κ] [DecidableEq τ] (who : α → κ) (token : α → Option τ)

/-- The key of the entry takes the token that it carries, if it carries one, from the other
keys. -/
def claim (a : α) (held : κ → Option τ) : κ → Option τ := fun k =>
  if k = who a then (token a).or (held k)
  else if held k = token a then none
  else held k

variable {who token}

theorem claim_of_who {a : α} {k : κ} (h : who a = k) (held : κ → Option τ) :
    claim who token a held k = (token a).or (held k) := if_pos h.symm

/-- Another key's entry leaves a key its token, unless it carries that token. -/
theorem claim_of_ne {a : α} {k : κ} (h : who a ≠ k) (held : κ → Option τ) :
    claim who token a held k = if held k = token a then none else held k :=
  if_neg fun heq => h heq.symm

theorem run_claim_of_none {log : List α} {k : κ} {held : κ → Option τ} (hheld : held k = none)
    (hsilent : ∀ a ∈ log, who a = k → token a = none) :
    run (claim who token) log held k = none := by
  induction log generalizing held with
  | nil => exact hheld
  | cons a log ih =>
    rw [run_cons]
    refine ih ?_ fun e he => hsilent e (List.mem_cons_of_mem a he)
    by_cases hwho : who a = k
    · rw [claim_of_who hwho, hsilent a List.mem_cons_self hwho, hheld]
      rfl
    · rw [claim_of_ne hwho, hheld, ite_self]

/-- While a key sends no token, it keeps its own until another key takes it. -/
theorem run_claim_of_silent {log : List α} {k : κ} {held : κ → Option τ} {x : τ}
    (hheld : held k = some x) (hsilent : ∀ a ∈ log, who a = k → token a = none) :
    run (claim who token) log held k =
      if ∃ a ∈ log, who a ≠ k ∧ token a = some x then none else some x := by
  induction log generalizing held with
  | nil => simpa using hheld
  | cons a log ih =>
    have htail : ∀ e ∈ log, who e = k → token e = none := fun e he =>
      hsilent e (List.mem_cons_of_mem a he)
    rw [run_cons]
    by_cases htaken : who a ≠ k ∧ token a = some x
    · -- once taken it stays away, because the key does not ask for it again
      have hnone : claim who token a held k = none := by
        rw [claim_of_ne htaken.1, hheld, htaken.2, if_pos rfl]
      rw [run_claim_of_none hnone htail, if_pos ⟨a, List.mem_cons_self, htaken⟩]
    · have hkept : claim who token a held k = some x := by
        by_cases hwho : who a = k
        · rw [claim_of_who hwho, hsilent a List.mem_cons_self hwho, hheld]
          rfl
        · have hother : some x ≠ token a := fun heq => htaken ⟨hwho, heq.symm⟩
          rw [claim_of_ne hwho, hheld, if_neg hother]
      rw [ih hkept htail]
      simp only [List.exists_mem_cons_iff, htaken, false_or]

/-- A key holds the token of its last claim, unless another key has claimed it since. -/
theorem run_claim_of_last {before after : List α} {a : α} {k : κ} {x : τ}
    {held : κ → Option τ} (hwho : who a = k) (htoken : token a = some x)
    (hlast : ∀ e ∈ after, who e = k → token e = none) :
    run (claim who token) (before ++ a :: after) held k =
      if ∃ e ∈ after, who e ≠ k ∧ token e = some x then none else some x := by
  rw [run_append, run_cons]
  refine run_claim_of_silent ?_ hlast
  rw [claim_of_who hwho, htoken]
  rfl

end Claim

end Replay
