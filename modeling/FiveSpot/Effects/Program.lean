import Mathlib.Tactic.Common

/-!
# Programs that call their surroundings

A program is a tree of calls: it issues an operation, and how it goes on depends on the response.
What a program may do is judged against the history of its own calls, so the judgement speaks of
no state outside the program.
-/

namespace FiveSpot.Effects

set_option autoImplicit false

inductive Prog (Op : Type) (Res : Op → Type) (α : Type) : Type where
  | pure (a : α) : Prog Op Res α
  | call (op : Op) (k : Res op → Prog Op Res α) : Prog Op Res α

abbrev History (Op : Type) (Res : Op → Type) : Type := List (Sigma Res)

/-- `h'` continues `h` by calls of one kind. -/
def History.Grown {Op : Type} {Res : Op → Type} (P : Op → Prop) (h h' : History Op Res) : Prop :=
  ∃ l, h' = l ++ h ∧ ∀ x ∈ l, P x.1

namespace History

variable {Op : Type} {Res : Op → Type} {P P' : Op → Prop} {h h' h'' : History Op Res}

theorem Grown.refl (h : History Op Res) : Grown P h h := ⟨[], rfl, by simp⟩

theorem Grown.cons {op : Op} (hh : Grown P h h') (hop : P op) (r : Res op) :
    Grown P h (⟨op, r⟩ :: h') := by
  obtain ⟨l, rfl, hl⟩ := hh
  refine ⟨⟨op, r⟩ :: l, rfl, fun x hx => ?_⟩
  rcases List.mem_cons.mp hx with rfl | hx
  · exact hop
  · exact hl x hx

theorem Grown.trans (hh : Grown P h h') (hh' : Grown P h' h'') : Grown P h h'' := by
  obtain ⟨l, rfl, hl⟩ := hh
  obtain ⟨l', rfl, hl'⟩ := hh'
  refine ⟨l' ++ l, by simp, fun x hx => ?_⟩
  rcases List.mem_append.mp hx with hx | hx
  · exact hl' x hx
  · exact hl x hx

theorem Grown.mono (hP : ∀ op, P op → P' op) (hh : Grown P h h') : Grown P' h h' := by
  obtain ⟨l, rfl, hl⟩ := hh
  exact ⟨l, rfl, fun x hx => hP x.1 (hl x hx)⟩

theorem Grown.mem (hh : Grown P h h') {x : Sigma Res} (hx : x ∈ h) : x ∈ h' := by
  obtain ⟨l, rfl, _⟩ := hh
  exact List.mem_append_right l hx

theorem Grown.forall (hh : Grown P h h') (hall : ∀ x ∈ h, P x.1) : ∀ x ∈ h', P x.1 := by
  obtain ⟨l, rfl, hl⟩ := hh
  intro x hx
  rcases List.mem_append.mp hx with hx | hx
  · exact hl x hx
  · exact hall x hx

end History

namespace Prog

variable {Op : Type} {Res : Op → Type} {α β : Type}

def bind : Prog Op Res α → (α → Prog Op Res β) → Prog Op Res β
  | .pure a, f => f a
  | .call op k, f => .call op fun r => (k r).bind f

instance : Monad (Prog Op Res) where
  pure := Prog.pure
  bind := Prog.bind

def perform (op : Op) : Prog Op Res (Res op) := .call op .pure

@[simp] theorem pure_eq (a : α) : (Pure.pure a : Prog Op Res α) = .pure a := rfl

@[simp] theorem pure_bind (a : α) (f : α → Prog Op Res β) : (Prog.pure a >>= f) = f a := rfl

@[simp] theorem call_bind (op : Op) (k : Res op → Prog Op Res α) (f : α → Prog Op Res β) :
    (Prog.call op k >>= f) = .call op fun r => k r >>= f := rfl

def Uses (P : Op → Prop) : Prog Op Res α → Prop
  | .pure _ => True
  | .call op k => P op ∧ ∀ r, (k r).Uses P

/--
Every call is permitted by `permits` in the history before it, and `Q` holds of the result and the
final history, as long as each response is one that `answers` allows.
-/
def Meets (answers : (op : Op) → Res op → Prop) (permits : History Op Res → Op → Prop) :
    Prog Op Res α → (α → History Op Res → Prop) → History Op Res → Prop
  | .pure a, Q, h => Q a h
  | .call op k, Q, h =>
      permits h op ∧ ∀ r, answers op r → (k r).Meets answers permits Q (⟨op, r⟩ :: h)

section Uses

variable {P P' : Op → Prop}

@[simp] theorem uses_pure (a : α) : (Prog.pure a : Prog Op Res α).Uses P := trivial

@[simp] theorem uses_perform (op : Op) : (perform op : Prog Op Res (Res op)).Uses P ↔ P op := by
  simp [perform, Uses]

theorem Uses.bind {p : Prog Op Res α} {f : α → Prog Op Res β} (hp : p.Uses P)
    (hf : ∀ a, (f a).Uses P) : (p >>= f).Uses P := by
  induction p with
  | pure a => exact hf a
  | call op k ih => exact ⟨hp.1, fun r => ih r (hp.2 r)⟩

theorem Uses.mono {p : Prog Op Res α} (hP : ∀ op, P op → P' op) (hp : p.Uses P) : p.Uses P' := by
  induction p with
  | pure a => trivial
  | call op k ih => exact ⟨hP op hp.1, fun r => ih r (hp.2 r)⟩

end Uses

section Meets

variable {answers : (op : Op) → Res op → Prop} {permits : History Op Res → Op → Prop}

@[simp] theorem meets_pure {Q : α → History Op Res → Prop} {h : History Op Res} (a : α) :
    (Prog.pure a : Prog Op Res α).Meets answers permits Q h ↔ Q a h := Iff.rfl

@[simp] theorem meets_perform {op : Op} {Q : Res op → History Op Res → Prop}
    {h : History Op Res} :
    (perform op).Meets answers permits Q h ↔
      permits h op ∧ ∀ r, answers op r → Q r (⟨op, r⟩ :: h) := Iff.rfl

@[simp] theorem meets_bind {p : Prog Op Res α} {f : α → Prog Op Res β}
    {Q : β → History Op Res → Prop} {h : History Op Res} :
    (p >>= f).Meets answers permits Q h ↔
      p.Meets answers permits (fun a h' => (f a).Meets answers permits Q h') h := by
  induction p generalizing h with
  | pure a => exact Iff.rfl
  | call op k ih =>
    constructor
    · intro hp
      exact ⟨hp.1, fun r hr => (ih r).mp (hp.2 r hr)⟩
    · intro hp
      exact ⟨hp.1, fun r hr => (ih r).mpr (hp.2 r hr)⟩

theorem Meets.mono {p : Prog Op Res α} {Q Q' : α → History Op Res → Prop} {h : History Op Res}
    (hp : p.Meets answers permits Q h) (hQ : ∀ a h', Q a h' → Q' a h') :
    p.Meets answers permits Q' h := by
  induction p generalizing h with
  | pure a => exact hQ a h hp
  | call op k ih => exact ⟨hp.1, fun r hr => ih r (hp.2 r hr)⟩

theorem Meets.grown {P : Op → Prop} {p : Prog Op Res α} {Q : α → History Op Res → Prop}
    {h : History Op Res} (hp : p.Meets answers (fun _ op => P op) Q h) :
    p.Meets answers (fun _ op => P op) (fun a h' => Q a h' ∧ History.Grown P h h') h := by
  suffices general : ∀ h', History.Grown P h h' → p.Meets answers (fun _ op => P op) Q h' →
      p.Meets answers (fun _ op => P op) (fun a h' => Q a h' ∧ History.Grown P h h') h' from
    general h (.refl h) hp
  clear hp
  induction p with
  | pure a => exact fun h' hh hQ => ⟨hQ, hh⟩
  | call op k ih =>
    intro h' hh hp
    exact ⟨hp.1, fun r hr => ih r _ (hh.cons hp.1 r) (hp.2 r hr)⟩

theorem Meets.keeping {p : Prog Op Res α} {Q : α → History Op Res → Prop} {h : History Op Res}
    (hp : p.Meets answers permits Q h) :
    p.Meets answers permits (fun a h' => Q a h' ∧ ∀ x ∈ h, x ∈ h') h := by
  suffices general : ∀ h', (∀ x ∈ h, x ∈ h') → p.Meets answers permits Q h' →
      p.Meets answers permits (fun a h' => Q a h' ∧ ∀ x ∈ h, x ∈ h') h' from
    general h (fun _ hx => hx) hp
  clear hp
  induction p with
  | pure a => exact fun h' hh hQ => ⟨hQ, hh⟩
  | call op k ih =>
    intro h' hh hp
    exact ⟨hp.1, fun r hr => ih r _ (fun x hx => List.mem_cons_of_mem _ (hh x hx)) (hp.2 r hr)⟩

theorem Meets.permit {permits' : History Op Res → Op → Prop} {p : Prog Op Res α}
    {Q : α → History Op Res → Prop} {h : History Op Res} (hp : p.Meets answers permits Q h)
    (hpermits : ∀ h' op, permits h' op → permits' h' op) : p.Meets answers permits' Q h := by
  induction p generalizing h with
  | pure a => exact hp
  | call op k ih => exact ⟨hpermits h op hp.1, fun r hr => ih r (hp.2 r hr)⟩

/--
The frame rule: a program that only issues operations of one kind is permitted wherever that kind
is, and adds calls of that kind only.
-/
theorem Uses.meets {P : Op → Prop} {p : Prog Op Res α} {h : History Op Res} (hp : p.Uses P)
    (hpermits : ∀ h' op, History.Grown P h h' → P op → permits h' op) :
    p.Meets answers permits (fun _ h' => History.Grown P h h') h := by
  suffices general : ∀ h', History.Grown P h h' →
      p.Meets answers permits (fun _ h' => History.Grown P h h') h' from
    general h (.refl h)
  induction p with
  | pure a => exact fun h' hh => hh
  | call op k ih =>
    intro h' hh
    exact ⟨hpermits h' op hh hp.1, fun r _ => ih r (hp.2 r) _ (hh.cons hp.1 r)⟩

end Meets

end Prog

end FiveSpot.Effects
