import Mathlib.Data.List.Basic

/-! # Interpolated texts

A text built with a format string, together with how it was built: literal parts, names put into it,
and raw parts, which are texts of their own in the same language. `render` forgets the difference.

* `render_append`, `render_sepBy`: the text of a template is the text of its parts.
* `Each f P t`: the pieces of one sort, with its rules `each_cons`, `each_append`, `each_sepBy`.
* `not_mem_render`: a character that no piece has is not in the text. -/

namespace MigrationSafety.Lib.Templates

inductive Piece
  | lit (s : String)
  | name (s : String)
  | raw (s : String)
deriving DecidableEq

def Piece.text : Piece → String
  | lit s | name s | raw s => s

abbrev Template := List Piece

/-- The text. -/
def render : Template → String
  | [] => ""
  | p :: t => p.text ++ render t

/-- Templates with a separator between them. -/
def sepBy (sep : String) : List Template → Template
  | [] => []
  | [t] => t
  | t :: u :: ts => t ++ .lit sep :: sepBy sep (u :: ts)

variable {t u : Template} {ts : List Template} {sep : String} {p : Piece} {c : Char}
  {f : String → Piece} {P : String → Prop}

@[simp] theorem render_nil : render [] = "" := rfl

@[simp] theorem render_cons (p : Piece) (t : Template) : render (p :: t) = p.text ++ render t := rfl

@[simp] theorem render_append (t u : Template) : render (t ++ u) = render t ++ render u := by
  induction t with
  | nil => simp
  | cons p t ih => simp [ih, String.append_assoc]

/-- The text of a list is the list of the texts, joined. -/
theorem render_sepBy (sep : String) (ts : List Template) :
    render (sepBy sep ts) = sep.intercalate (ts.map render) := by
  induction ts with
  | nil => rfl
  | cons t ts ih =>
    cases ts with
    | nil => simp [sepBy]
    | cons u ts =>
      rw [List.map_cons, String.intercalate_cons_of_ne_nil (by simp), ← ih]
      simp [sepBy, Piece.text, String.append_assoc]

/-! ### The pieces of one sort -/

/-- The pieces `f s` of a text all meet `P`. -/
def Each (f : String → Piece) (P : String → Prop) (t : Template) : Prop := ∀ s, f s ∈ t → P s

@[simp] theorem each_nil : Each f P [] := nofun

@[simp] theorem each_cons : Each f P (p :: t) ↔ (∀ s, f s = p → P s) ∧ Each f P t := by
  simp only [Each, List.mem_cons, or_imp, forall_and]

@[simp] theorem each_append : Each f P (t ++ u) ↔ Each f P t ∧ Each f P u := by
  simp only [Each, List.mem_append, or_imp, forall_and]

/-- In a list with separators, the separators count as literal parts. -/
theorem each_sepBy (h : ∀ t ∈ ts, Each f P t) (hsep : ∀ s, f s = .lit sep → P s) :
    Each f P (sepBy sep ts) := by
  induction ts with
  | nil => exact each_nil
  | cons t ts ih =>
    obtain ⟨ht, hts⟩ := List.forall_mem_cons.mp h
    cases ts with
    | nil => exact ht
    | cons u ts => exact each_append.mpr ⟨ht, each_cons.mpr ⟨hsep, ih hts⟩⟩

/-! ### What is in a text -/

theorem mem_render : c ∈ (render t).toList ↔ ∃ p ∈ t, c ∈ p.text.toList := by
  induction t with
  | nil => simp
  | cons p t ih => simp [ih]

/-- **A character that no piece has is not in the text.** -/
theorem not_mem_render (hlit : Each .lit (c ∉ ·.toList) t) (hname : Each .name (c ∉ ·.toList) t)
    (hraw : Each .raw (c ∉ ·.toList) t) : c ∉ (render t).toList := by
  intro h
  obtain ⟨p, hp, hc⟩ := mem_render.mp h
  cases p with
  | lit s => exact hlit s hp hc
  | name s => exact hname s hp hc
  | raw s => exact hraw s hp hc

end MigrationSafety.Lib.Templates
