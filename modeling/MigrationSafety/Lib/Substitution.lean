import MigrationSafety.Lib.Effects

/-! # Programs inside programs

An operation of one signature may be a program over another. `Prog.subst h p` puts the program `h e` in
the place of each operation `e` of `p`; its runs are those of `p`, with a run of `h e` for each event
(`runs_subst`), so what is proved of `p` for all answers holds of the whole. -/

namespace MigrationSafety.Lib.Substitution

open MigrationSafety.Lib.Effects

variable {S T : Sig} {α β : Type}

/-- The program `h e` in the place of each operation `e`. -/
def Prog.subst (h : (e : T.Op) → Prog S (T.Ret e)) : Prog T α → Prog S α
  | .ret a => .ret a
  | .call e k => h e >>= fun r => Prog.subst h (k r)

/-- A trace of runs of the `h e`, one for each event. -/
inductive Refines (h : (e : T.Op) → Prog S (T.Ret e)) : List (Event T) → List (Event S) → Prop
  | nil : Refines h [] []
  | cons {e : T.Op} {r : T.Ret e} {u : List (Event T)} {t t' : List (Event S)} (hr : Runs (h e) t r)
      (ht : Refines h u t') : Refines h (⟨e, r⟩ :: u) (t ++ t')

variable {h : (e : T.Op) → Prog S (T.Ret e)}

@[simp] theorem subst_ret {a : α} : Prog.subst h (.ret a) = .ret a := rfl

@[simp] theorem subst_call {e : T.Op} {k : T.Ret e → Prog T α} :
    Prog.subst h (.call e k) = h e >>= fun r => Prog.subst h (k r) := rfl

theorem subst_bind (p : Prog T α) (f : α → Prog T β) :
    Prog.subst h (p >>= f) = Prog.subst h p >>= fun a => Prog.subst h (f a) := by
  induction p with
  | ret a => rfl
  | call e k ih =>
    rw [Prog.bind_call, subst_call, subst_call, Prog.bind_assoc]
    congr 1
    funext r
    exact ih r

/-- **The runs of the whole** are the runs of the outer program with a run inside each event. -/
theorem runs_subst {p : Prog T α} {t : List (Event S)} {a : α} :
    Runs (Prog.subst h p) t a ↔ ∃ u, Runs p u a ∧ Refines h u t := by
  induction p generalizing t with
  | ret b =>
    constructor
    · intro hr
      obtain ⟨rfl, rfl⟩ := runs_ret.mp hr
      exact ⟨[], runs_ret.mpr ⟨rfl, rfl⟩, .nil⟩
    · rintro ⟨u, hu, hr⟩
      obtain ⟨rfl, rfl⟩ := runs_ret.mp hu
      cases hr
      exact runs_ret.mpr ⟨rfl, rfl⟩
  | call e k ih =>
    rw [subst_call, runs_bind]
    constructor
    · rintro ⟨t1, t2, r, rfl, h1, h2⟩
      obtain ⟨u, hu, hr⟩ := (ih r).mp h2
      exact ⟨⟨e, r⟩ :: u, runs_call.mpr ⟨r, u, rfl, hu⟩, .cons h1 hr⟩
    · rintro ⟨u, hu, hr⟩
      obtain ⟨r, u', rfl, hu'⟩ := runs_call.mp hu
      cases hr with
      | @cons _ _ _ t t' h1 h2 => exact ⟨t, t', r, rfl, h1, (ih r).mpr ⟨u', hu', h2⟩⟩

end MigrationSafety.Lib.Substitution
