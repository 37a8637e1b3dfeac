import FiveSpot.Effects.Fallible

/-!
# The runs of a program

A run of a program is what it calls and what it is answered, the first call first, and the result that
it comes to with these answers.
-/

namespace FiveSpot.Effects

set_option autoImplicit false

abbrev Trace (Op : Type) (Res : Op → Type) : Type := List (Sigma Res)

namespace Prog

variable {Op : Type} {Res : Op → Type} {α β ε : Type} {t : Trace Op Res}

def Performs : Prog Op Res α → Trace Op Res → α → Prop
  | .pure a, t, b => t = [] ∧ a = b
  | .call op k, t, b => ∃ r rest, t = ⟨op, r⟩ :: rest ∧ (k r).Performs rest b

theorem performs_bind_iff {p : Prog Op Res α} {f : α → Prog Op Res β} {b : β} :
    (p >>= f).Performs t b ↔
      ∃ a t₁ t₂, t = t₁ ++ t₂ ∧ p.Performs t₁ a ∧ (f a).Performs t₂ b := by
  induction p generalizing t with
  | pure a =>
    constructor
    · intro h
      exact ⟨a, [], t, rfl, ⟨rfl, rfl⟩, h⟩
    · rintro ⟨_, _, t₂, rfl, ⟨rfl, rfl⟩, h⟩
      exact h
  | call op k ih =>
    constructor
    · rintro ⟨r, rest, rfl, h⟩
      obtain ⟨a, t₁, t₂, rfl, ha, hb⟩ := (ih r).mp h
      exact ⟨a, ⟨op, r⟩ :: t₁, t₂, rfl, ⟨r, t₁, rfl, ha⟩, hb⟩
    · rintro ⟨a, _, t₂, rfl, ⟨r, t₁, rfl, ha⟩, hb⟩
      exact ⟨r, t₁ ++ t₂, rfl, (ih r).mpr ⟨a, t₁, t₂, rfl, ha, hb⟩⟩

section Fallible

variable {x : ExceptT ε (Prog Op Res) α} {f : α → ExceptT ε (Prog Op Res) β} {b : Except ε β}

theorem performs_run_pure {a : α} {b : Except ε α} :
    (Pure.pure a : ExceptT ε (Prog Op Res) α).run.Performs t b ↔ t = [] ∧ .ok a = b := Iff.rfl

theorem performs_run_throw {e : ε} {b : Except ε α} :
    (throw e : ExceptT ε (Prog Op Res) α).run.Performs t b ↔ t = [] ∧ .error e = b := Iff.rfl

theorem performs_run_ask_bind {op : Op} {f : Res op → ExceptT ε (Prog Op Res) β} :
    (ask op >>= f).run.Performs t b ↔ ∃ r rest, t = ⟨op, r⟩ :: rest ∧ (f r).run.Performs rest b :=
  Iff.rfl

theorem performs_run_bind_iff : (x >>= f).run.Performs t b ↔
    (∃ a t₁ t₂, t = t₁ ++ t₂ ∧ x.run.Performs t₁ (.ok a) ∧ (f a).run.Performs t₂ b) ∨
      ∃ e, x.run.Performs t (.error e) ∧ .error e = b := by
  rw [run_bind_eq, performs_bind_iff]
  constructor
  · rintro ⟨a | a, t₁, t₂, rfl, hx, hf⟩
    · obtain ⟨rfl, rfl⟩ := hf
      right
      exact ⟨a, by rwa [List.append_nil], rfl⟩
    · exact .inl ⟨a, t₁, t₂, rfl, hx, hf⟩
  · rintro (⟨a, t₁, t₂, rfl, hx, hf⟩ | ⟨e, hx, rfl⟩)
    · exact ⟨.ok a, t₁, t₂, rfl, hx, hf⟩
    · exact ⟨.error e, t, [], (List.append_nil t).symm, hx, rfl, rfl⟩

end Fallible

end Prog

end FiveSpot.Effects
