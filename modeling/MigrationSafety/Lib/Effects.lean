import Mathlib.Data.List.Basic

/-! # Programs over a signature of effects

A program asks for operations of a signature and continues with their answers; it is a finite tree,
and a loop is a family of programs that name each other by their results. Who answers is left open,
so one program can be run against a nondeterministic environment or against a concrete world.

* `After p tr q`: after the operations and answers `tr`, what remains of `p` is `q`; `Runs p tr a`:
  `p` has returned `a`. Both are inverted over `bind` (`after_bind`, `runs_bind`).
* `Prog.All P Q p`: `p` only ever asks for operations in `P` and only returns values in `Q`.
* `Prog.Spec C Q p tr`: continuing `tr`, every operation `p` asks for meets `C` and every value it
  returns meets `Q`, with the rules `Spec.mono`, `Spec.bind`, `Spec.after`; `Prog.Post Q` leaves the
  operations free.
* `Prog.under h p`: what `p` returns where `h` answers, whatever was asked before. -/

namespace MigrationSafety.Lib.Effects

/-- A signature: the operations, and the type of the answer to each. -/
structure Sig where
  Op : Type
  Ret : Op → Type

/-- A program over the signature `S`. -/
inductive Prog (S : Sig) (α : Type) : Type
  | ret (a : α) : Prog S α
  | call (e : S.Op) (k : S.Ret e → Prog S α) : Prog S α

/-- An operation together with the answer it got. -/
structure Event (S : Sig) where
  op : S.Op
  ans : S.Ret op

variable {S : Sig} {α β γ σ : Type}

namespace Prog

/-- Sequencing. -/
def bind : Prog S α → (α → Prog S β) → Prog S β
  | ret a, f => f a
  | call e k, f => call e fun r => (k r).bind f

instance : Monad (Prog S) where
  pure := ret
  bind := bind

/-- The program that asks for one operation and returns its answer. -/
def perform (e : S.Op) : Prog S (S.Ret e) := call e ret

@[simp] theorem pure_eq (a : α) : (pure a : Prog S α) = ret a := rfl

@[simp] theorem bind_ret (a : α) (f : α → Prog S β) : (ret a >>= f) = f a := rfl

@[simp] theorem bind_call (e : S.Op) (k : S.Ret e → Prog S α) (f : α → Prog S β) :
    (call e k >>= f) = call e fun r => k r >>= f := rfl

/-- The type of the answer is left out of the index: in a program it has been computed. -/
@[simp] theorem perform_bind (e : S.Op) (f : S.Ret e → Prog S β) :
    @Bind.bind (Prog S) _ (no_index (S.Ret e)) β (perform e) f = call e f := rfl

theorem bind_assoc (p : Prog S α) (f : α → Prog S β) (g : β → Prog S γ) :
    (p >>= f) >>= g = p >>= fun a => f a >>= g := by
  induction p with
  | ret a => rfl
  | call e k ih =>
    simp only [bind_call]
    congr 1
    funext r
    exact ih r

end Prog

open Prog

/-! ### What remains after a trace -/

/-- After the events `tr`, what remains of the program is the last argument. -/
inductive After : Prog S α → List (Event S) → Prog S α → Prop
  | nil {p : Prog S α} : After p [] p
  | cons {e : S.Op} {k : S.Ret e → Prog S α} {r : S.Ret e} {tr : List (Event S)} {q : Prog S α}
      (h : After (k r) tr q) : After (call e k) (⟨e, r⟩ :: tr) q

/-- The program has returned `a` after the events `tr`. -/
def Runs (p : Prog S α) (tr : List (Event S)) (a : α) : Prop := After p tr (ret a)

theorem After.append {p q q' : Prog S α} {t t' : List (Event S)} (h : After p t q)
    (h' : After q t' q') : After p (t ++ t') q' := by
  induction h with
  | nil => exact h'
  | cons _ ih => exact After.cons (ih h')

/-- One more answer. -/
theorem After.snoc {p : Prog S α} {t : List (Event S)} {e : S.Op} {k : S.Ret e → Prog S α}
    (h : After p t (call e k)) (r : S.Ret e) : After p (t ++ [⟨e, r⟩]) (k r) :=
  h.append (After.cons After.nil)

@[simp] theorem after_ret {a : α} {t : List (Event S)} {q : Prog S α} :
    After (ret a) t q ↔ t = [] ∧ q = ret a := by
  constructor
  · rintro ⟨⟩; exact ⟨rfl, rfl⟩
  · rintro ⟨rfl, rfl⟩; exact After.nil

theorem after_call {e : S.Op} {k : S.Ret e → Prog S α} {t : List (Event S)} {q : Prog S α} :
    After (call e k) t q ↔
      (t = [] ∧ q = call e k) ∨ ∃ r t', t = ⟨e, r⟩ :: t' ∧ After (k r) t' q := by
  constructor
  · rintro (_ | h)
    · exact Or.inl ⟨rfl, rfl⟩
    · exact Or.inr ⟨_, _, rfl, h⟩
  · rintro (⟨rfl, rfl⟩ | ⟨r, t', rfl, h⟩)
    · exact After.nil
    · exact After.cons h

/-- **Sequencing, inverted**: either the first program is still waiting for an answer, or it has
returned and the rest of the trace belongs to the second. -/
theorem after_bind {p : Prog S α} {f : α → Prog S β} {t : List (Event S)} {q : Prog S β}
    (h : After (p >>= f) t q) :
    (∃ e k, After p t (call e k) ∧ q = call e fun r => k r >>= f) ∨
      ∃ t1 t2 a, t = t1 ++ t2 ∧ Runs p t1 a ∧ After (f a) t2 q := by
  induction p generalizing t with
  | ret a => exact Or.inr ⟨[], t, a, rfl, After.nil, h⟩
  | call e k ih =>
    rw [bind_call] at h
    rcases after_call.mp h with ⟨rfl, rfl⟩ | ⟨r, t', rfl, h'⟩
    · exact Or.inl ⟨e, k, After.nil, rfl⟩
    · rcases ih r h' with ⟨e', k', ha, rfl⟩ | ⟨t1, t2, a, rfl, hr, hf⟩
      · exact Or.inl ⟨e', k', After.cons ha, rfl⟩
      · exact Or.inr ⟨_ :: t1, t2, a, rfl, After.cons hr, hf⟩

theorem After.bind {p : Prog S α} {f : α → Prog S β} {t1 t2 : List (Event S)} {a : α}
    {q : Prog S β} (h : Runs p t1 a) (h' : After (f a) t2 q) : After (p >>= f) (t1 ++ t2) q := by
  induction p generalizing t1 with
  | ret b =>
    obtain ⟨rfl, hb⟩ := after_ret.mp h
    cases hb
    exact h'
  | call e k ih =>
    rcases after_call.mp h with ⟨-, hk⟩ | ⟨r, t', rfl, hr⟩
    · cases hk
    · exact After.cons (ih r hr)

/-- What remains of the first program is followed by the second. -/
theorem After.seq {p q : Prog S α} {t : List (Event S)} (h : After p t q) (f : α → Prog S β) :
    After (p >>= f) t (q >>= f) := by
  induction h with
  | nil => exact After.nil
  | cons _ ih => exact After.cons ih

@[simp] theorem runs_ret {a b : α} {t : List (Event S)} :
    Runs (ret a) t b ↔ t = [] ∧ b = a := by
  unfold Runs
  rw [after_ret]
  simp

@[simp] theorem runs_call {e : S.Op} {k : S.Ret e → Prog S α} {t : List (Event S)} {a : α} :
    Runs (call e k) t a ↔ ∃ r t', t = ⟨e, r⟩ :: t' ∧ Runs (k r) t' a := by
  unfold Runs
  rw [after_call]
  simp

theorem runs_perform_bind {e : S.Op} {f : S.Ret e → Prog S α} {t : List (Event S)} {a : α} :
    Runs (perform e >>= f) t a ↔ ∃ r t', t = ⟨e, r⟩ :: t' ∧ Runs (f r) t' a := runs_call

theorem runs_bind {p : Prog S α} {f : α → Prog S β} {t : List (Event S)} {b : β} :
    Runs (p >>= f) t b ↔ ∃ t1 t2 a, t = t1 ++ t2 ∧ Runs p t1 a ∧ Runs (f a) t2 b := by
  constructor
  · intro h
    rcases after_bind h with ⟨e, k, -, hq⟩ | h'
    · cases hq
    · exact h'
  · rintro ⟨t1, t2, a, rfl, h1, h2⟩
    exact After.bind h1 h2

/-- Where every operation has an answer of the kind `P`, a program has a run of such answers. -/
theorem exists_runs {P : Event S → Prop} (hP : ∀ e, ∃ r, P ⟨e, r⟩) (p : Prog S α) :
    ∃ t a, Runs p t a ∧ ∀ ev ∈ t, P ev := by
  induction p with
  | ret a => exact ⟨[], a, runs_ret.mpr ⟨rfl, rfl⟩, nofun⟩
  | call e k ih =>
    obtain ⟨r, hr⟩ := hP e
    obtain ⟨t, a, ht, hall⟩ := ih r
    exact ⟨⟨e, r⟩ :: t, a, runs_call.mpr ⟨r, t, rfl, ht⟩, List.forall_mem_cons.mpr ⟨hr, hall⟩⟩

/-! ### What a program may ask for and return -/

/-- Every operation the program can ask for is in `P`, every value it can return is in `Q`. -/
def Prog.All (P : S.Op → Prop) (Q : α → Prop) : Prog S α → Prop
  | ret a => Q a
  | call e k => P e ∧ ∀ r, (k r).All P Q

section All
variable {P P' : S.Op → Prop} {Q Q' : α → Prop} {R : β → Prop}

@[simp] theorem all_ret {a : α} : (ret a : Prog S α).All P Q ↔ Q a := Iff.rfl

@[simp] theorem all_call {e : S.Op} {k : S.Ret e → Prog S α} :
    (call e k).All P Q ↔ P e ∧ ∀ r, (k r).All P Q := Iff.rfl

@[simp] theorem all_ite {c : Prop} [Decidable c] {p q : Prog S α} :
    (if c then p else q).All P Q ↔ (c → p.All P Q) ∧ (¬c → q.All P Q) := by
  split_ifs with h <;> simp [h]

theorem Prog.All.bind {p : Prog S α} {f : α → Prog S β} (hp : p.All P Q)
    (hf : ∀ a, Q a → (f a).All P R) : (p >>= f).All P R := by
  induction p with
  | ret a => exact hf a hp
  | call e k ih => exact ⟨hp.1, fun r => ih r (hp.2 r)⟩

theorem Prog.All.mono {p : Prog S α} (hp : p.All P Q) (hP : ∀ e, P e → P' e) (hQ : ∀ a, Q a → Q' a) :
    p.All P' Q' := by
  induction p with
  | ret a => exact hQ a hp
  | call e k ih => exact ⟨hP e hp.1, fun r => ih r (hp.2 r)⟩

theorem Prog.All.and {p : Prog S α} (hp : p.All P Q) (hp' : p.All P' Q') {P'' : S.Op → Prop}
    (h : ∀ e, P e → P' e → P'' e) : p.All P'' Q := by
  induction p with
  | ret a => exact hp
  | call e k ih => exact ⟨h e hp.1 hp'.1, fun r => ih r (hp.2 r) (hp'.2 r)⟩

/-- What holds of the whole program holds of what remains, and of every event so far. -/
theorem Prog.All.after {p q : Prog S α} {t : List (Event S)} (hp : p.All P Q) (h : After p t q) :
    q.All P Q ∧ ∀ ev ∈ t, P ev.op := by
  induction h with
  | nil => exact ⟨hp, by simp⟩
  | cons _ ih =>
    obtain ⟨hq, ht⟩ := ih (hp.2 _)
    refine ⟨hq, fun ev hev => ?_⟩
    rcases List.mem_cons.mp hev with rfl | hev
    · exact hp.1
    · exact ht ev hev

theorem Prog.All.runs {p : Prog S α} {t : List (Event S)} {a : α} (hp : p.All P Q) (h : Runs p t a) :
    Q a ∧ ∀ ev ∈ t, P ev.op := hp.after h

end All

/-! ### Specifications over the events -/

/-- Continuing the events `tr`, the program asks for an operation only where `C` allows it and returns
a value only where `Q` allows it, both in view of all events so far. -/
def Prog.Spec (C : List (Event S) → S.Op → Prop) (Q : List (Event S) → α → Prop) :
    Prog S α → List (Event S) → Prop
  | ret a, tr => Q tr a
  | call e k, tr => C tr e ∧ ∀ r, (k r).Spec C Q (tr ++ [⟨e, r⟩])

section Spec
variable {C C' : List (Event S) → S.Op → Prop} {Q Q' : List (Event S) → α → Prop}
  {R : List (Event S) → β → Prop} {pre : List (Event S)}

@[simp] theorem spec_ret {a : α} : (ret a : Prog S α).Spec C Q pre ↔ Q pre a := Iff.rfl

@[simp] theorem spec_call {e : S.Op} {k : S.Ret e → Prog S α} :
    (call e k).Spec C Q pre ↔ C pre e ∧ ∀ r, (k r).Spec C Q (pre ++ [⟨e, r⟩]) := Iff.rfl

theorem spec_perform_bind {e : S.Op} {f : S.Ret e → Prog S α} :
    (perform e >>= f).Spec C Q pre ↔ C pre e ∧ ∀ r, (f r).Spec C Q (pre ++ [⟨e, r⟩]) := Iff.rfl

@[simp] theorem spec_ite {c : Prop} [Decidable c] {p q : Prog S α} :
    (if c then p else q).Spec C Q pre ↔ (c → p.Spec C Q pre) ∧ (¬c → q.Spec C Q pre) := by
  split_ifs with h <;> simp [h]

theorem Prog.Spec.mono {p : Prog S α} (hp : p.Spec C Q pre) (hC : ∀ tr e, C tr e → C' tr e)
    (hQ : ∀ tr a, Q tr a → Q' tr a) : p.Spec C' Q' pre := by
  induction p generalizing pre with
  | ret a => exact hQ _ _ hp
  | call e k ih => exact ⟨hC _ _ hp.1, fun r => ih r (hp.2 r)⟩

/-- **Sequencing.** -/
theorem Prog.Spec.bind {p : Prog S α} {f : α → Prog S β} (hp : p.Spec C Q pre)
    (hf : ∀ tr a, Q tr a → (f a).Spec C R tr) : (p >>= f).Spec C R pre := by
  induction p generalizing pre with
  | ret a => exact hf _ _ hp
  | call e k ih => exact ⟨hp.1, fun r => ih r (hp.2 r)⟩

theorem Prog.Spec.after {p q : Prog S α} {tr : List (Event S)} (hp : p.Spec C Q pre)
    (h : After p tr q) : q.Spec C Q (pre ++ tr) := by
  induction h generalizing pre with
  | nil => rwa [List.append_nil]
  | @cons e k r tr q h ih =>
    have := ih (hp.2 r)
    rwa [List.append_assoc] at this

theorem Prog.Spec.runs {p : Prog S α} {tr : List (Event S)} {a : α} (hp : p.Spec C Q pre)
    (h : Runs p tr a) : Q (pre ++ tr) a := hp.after h

/-- What holds of the events so far and all later ones can be dropped from the specification. -/
theorem Prog.Spec.all {p : Prog S α} {P : S.Op → Prop} {q : α → Prop} (hp : p.Spec C Q pre)
    (hC : ∀ t e, C (pre ++ t) e → P e) (hQ : ∀ t a, Q (pre ++ t) a → q a) : p.All P q := by
  induction p generalizing pre with
  | ret a => exact hQ [] a (by rwa [List.append_nil])
  | call e k ih =>
    refine ⟨hC [] e (by rw [List.append_nil]; exact hp.1), fun r => ih r (hp.2 r) ?_ ?_⟩
    · intro t e' h
      rw [List.append_assoc] at h
      exact hC _ e' h
    · intro t a h
      rw [List.append_assoc] at h
      exact hQ _ a h

/-- A specification from the start holds after any events, of the events since. -/
theorem Prog.Spec.shift {p : Prog S α} (hp : p.Spec C Q pre) (t : List (Event S)) :
    p.Spec (fun tr e => ∃ u, tr = t ++ u ∧ C u e) (fun tr a => ∃ u, tr = t ++ u ∧ Q u a)
      (t ++ pre) := by
  induction p generalizing pre with
  | ret a => exact ⟨pre, rfl, hp⟩
  | call e k ih =>
    refine ⟨⟨pre, rfl, hp.1⟩, fun r => ?_⟩
    rw [List.append_assoc]
    exact ih r (hp.2 r)

/-- The strongest postcondition: the events are those of a run. -/
theorem Prog.All.spec {p : Prog S α} {P : S.Op → Prop} {q : α → Prop} (hp : p.All P q)
    (hC : ∀ t e, (∀ ev ∈ t, P ev.op) → P e → C (pre ++ t) e) :
    p.Spec C (fun tr a => q a ∧ ∃ t, tr = pre ++ t ∧ Runs p t a ∧ ∀ ev ∈ t, P ev.op) pre := by
  induction p generalizing pre with
  | ret a => exact ⟨hp, [], by simp⟩
  | call e k ih =>
    refine ⟨?_, fun r => ?_⟩
    · have := hC [] e (by simp) hp.1
      rwa [List.append_nil] at this
    · refine (@ih r (pre ++ [⟨e, r⟩]) (hp.2 r) ?_).mono (fun _ _ h => h) ?_
      · intro t e' ht he'
        rw [List.append_assoc]
        refine hC _ e' (fun ev hev => ?_) he'
        rcases List.mem_append.mp hev with hev | hev
        · rw [List.mem_singleton.mp hev]
          exact hp.1
        · exact ht ev hev
      · rintro tr a ⟨ha, t, rfl, hr, ht⟩
        refine ⟨ha, ⟨e, r⟩ :: t, by simp, After.cons hr, fun ev hev => ?_⟩
        rcases List.mem_cons.mp hev with rfl | hev
        · exact hp.1
        · exact ht ev hev

end Spec

/-- A specification of the result alone. -/
def Prog.Post (Q : List (Event S) → α → Prop) (p : Prog S α) (tr : List (Event S)) : Prop :=
  p.Spec (fun _ _ => True) Q tr

section Post
variable {Q Q' : List (Event S) → α → Prop} {R : List (Event S) → β → Prop} {pre : List (Event S)}

@[simp] theorem post_ret {a : α} : (ret a : Prog S α).Post Q pre ↔ Q pre a := Iff.rfl

@[simp] theorem post_call {e : S.Op} {k : S.Ret e → Prog S α} :
    (call e k).Post Q pre ↔ ∀ r, (k r).Post Q (pre ++ [⟨e, r⟩]) :=
  ⟨fun h => h.2, fun h => ⟨trivial, h⟩⟩

@[simp] theorem post_ite {c : Prop} [Decidable c] {p q : Prog S α} :
    (if c then p else q).Post Q pre ↔ (c → p.Post Q pre) ∧ (¬c → q.Post Q pre) := spec_ite

theorem Prog.Post.mono {p : Prog S α} (hp : p.Post Q pre) (h : ∀ tr a, Q tr a → Q' tr a) :
    p.Post Q' pre := Prog.Spec.mono hp (fun _ _ h => h) h

theorem Prog.Post.bind {p : Prog S α} {f : α → Prog S β} (hp : p.Post Q pre)
    (hf : ∀ tr a, Q tr a → (f a).Post R tr) : (p >>= f).Post R pre := Prog.Spec.bind hp hf

theorem Prog.Post.runs {p : Prog S α} {tr : List (Event S)} {a : α} (hp : p.Post Q pre)
    (h : Runs p tr a) : Q (pre ++ tr) a := Prog.Spec.runs hp h

end Post

/-! ### Fixed answers -/

/-- What the program returns where every operation gets the same answer each time. -/
def Prog.under (h : (e : S.Op) → S.Ret e) : Prog S α → α
  | ret a => a
  | call e k => (k (h e)).under h

section Under
variable {h : (e : S.Op) → S.Ret e}

@[simp] theorem under_ret {a : α} : (ret a : Prog S α).under h = a := rfl

@[simp] theorem under_call {e : S.Op} {k : S.Ret e → Prog S α} :
    (call e k).under h = (k (h e)).under h := rfl

@[simp] theorem under_bind {p : Prog S α} {f : α → Prog S β} :
    (p >>= f).under h = (f (p.under h)).under h := by
  induction p with
  | ret a => rfl
  | call e k ih => exact ih (h e)

end Under

end MigrationSafety.Lib.Effects
