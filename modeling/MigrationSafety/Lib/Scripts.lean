import Mathlib.Data.List.Basic
import Mathlib.Logic.Relation

/-! # Scripts

A script is a list of operations, each of which may fail. It is executed from its first operation on; an
execution that is cut off has executed a prefix (`Partial`), and the next one starts again
(`Partials`). What every operation of the script keeps is kept by all of them (`Partials.inv`). -/

namespace MigrationSafety.Lib.Scripts

variable {σ α : Type}

/-- The operations in order, all of which succeed. -/
def exec (step : σ → α → Option σ) : σ → List α → Option σ
  | s, [] => some s
  | s, a :: as => (step s a).bind fun t => exec step t as

/-- **A partial execution.** -/
def Partial (step : σ → α → Option σ) (as : List α) (s t : σ) : Prop :=
  ∃ k, exec step s (as.take k) = some t

/-- Partial executions one after the other, each from the first operation. -/
abbrev Partials (step : σ → α → Option σ) (as : List α) : σ → σ → Prop :=
  Relation.ReflTransGen (Partial step as)

variable {step : σ → α → Option σ} {as bs : List α} {s t : σ} {a : α} {I : σ → Prop}

@[simp] theorem exec_nil : exec step s [] = some s := rfl

theorem exec_cons : exec step s (a :: as) = (step s a).bind fun t => exec step t as := rfl

theorem exec_append : exec step s (as ++ bs) = (exec step s as).bind fun t => exec step t bs := by
  induction as generalizing s with
  | nil => rfl
  | cons a as ih =>
    rw [List.cons_append, exec_cons, exec_cons, Option.bind_assoc]
    exact Option.bind_congr fun t _ => ih

/-- **The rule for invariants.** -/
theorem exec_inv (hI : ∀ a ∈ as, ∀ s t, I s → step s a = some t → I t) (hs : I s)
    (h : exec step s as = some t) : I t := by
  induction as generalizing s with
  | nil =>
    cases h
    exact hs
  | cons a as ih =>
    obtain ⟨hstep, hsteps⟩ := List.forall_mem_cons.mp hI
    obtain ⟨u, hu, ht⟩ := Option.bind_eq_some_iff.mp h
    exact ih hsteps (hstep s u hs hu) ht

/-- Operations that succeed where `I` holds, and keep it. -/
theorem exec_total (hI : ∀ a ∈ as, ∀ s, I s → ∃ t, step s a = some t ∧ I t) (hs : I s) :
    ∃ t, exec step s as = some t ∧ I t := by
  induction as generalizing s with
  | nil => exact ⟨s, rfl, hs⟩
  | cons a as ih =>
    obtain ⟨hstep, hsteps⟩ := List.forall_mem_cons.mp hI
    obtain ⟨u, hu, hIu⟩ := hstep s hs
    obtain ⟨t, ht, hIt⟩ := ih hsteps hIu
    exact ⟨t, by rw [exec_cons, hu]; exact ht, hIt⟩

theorem Partials.inv (hI : ∀ a ∈ as, ∀ s t, I s → step s a = some t → I t) (hs : I s)
    (h : Partials step as s t) : I t := by
  induction h with
  | refl => exact hs
  | tail _ ht ih =>
    obtain ⟨k, hk⟩ := ht
    exact exec_inv (fun a ha => hI a (List.mem_of_mem_take ha)) ih hk

end MigrationSafety.Lib.Scripts
