import FiveSpot.Effects.Fallible

/-!
# Programs whose answers are known

Where it is known what each call of a program is answered, the program has one result: it can be evaluated
with an oracle in place of its surroundings, or with a handler that keeps a state between the calls.
-/

namespace FiveSpot.Effects

set_option autoImplicit false

namespace Prog

variable {Op : Type} {Res : Op → Type} {α β ε : Type} {oracle oracle' : (op : Op) → Res op}
  {P : Op → Prop}

def eval (oracle : (op : Op) → Res op) : Prog Op Res α → α
  | .pure a => a
  | .call op k => (k (oracle op)).eval oracle

theorem eval_bind (p : Prog Op Res α) (f : α → Prog Op Res β) :
    (p >>= f).eval oracle = (f (p.eval oracle)).eval oracle := by
  induction p with
  | pure a => rfl
  | call op k ih => exact ih (oracle op)

@[simp] theorem eval_run_pure (a : α) :
    (Pure.pure a : ExceptT ε (Prog Op Res) α).run.eval oracle = .ok a := rfl

@[simp] theorem eval_run_ask (op : Op) :
    (ask op : ExceptT ε (Prog Op Res) (Res op)).run.eval oracle = .ok (oracle op) := rfl

@[simp] theorem eval_run_bind (x : ExceptT ε (Prog Op Res) α) (f : α → ExceptT ε (Prog Op Res) β) :
    (x >>= f).run.eval oracle = (x.run.eval oracle).bind fun a => (f a).run.eval oracle := by
  rw [run_bind_eq, eval_bind]
  cases x.run.eval oracle <;> rfl

theorem Uses.eval_congr {p : Prog Op Res α} (hp : p.Uses P)
    (horacle : ∀ op, P op → oracle op = oracle' op) : p.eval oracle = p.eval oracle' := by
  induction p with
  | pure a => rfl
  | call op k ih =>
    change (k (oracle op)).eval oracle = (k (oracle' op)).eval oracle'
    rw [horacle op hp.1]
    exact ih _ (hp.2 _)

theorem Uses.meets_eval {answers : (op : Op) → Res op → Prop} {permits : History Op Res → Op → Prop}
    {p : Prog Op Res α} {h : History Op Res} (hp : p.Uses P) (hpermits : ∀ h' op, P op → permits h' op)
    (hanswers : ∀ op r, P op → answers op r → r = oracle op) :
    p.Meets answers permits (fun a h' => a = p.eval oracle ∧ History.Grown P h h') h := by
  suffices general : ∀ h', History.Grown P h h' →
      p.Meets answers permits (fun a h' => a = p.eval oracle ∧ History.Grown P h h') h' from
    general h (.refl h)
  induction p with
  | pure a => exact fun h' hh => ⟨rfl, hh⟩
  | call op k ih =>
    intro h' hh
    refine ⟨hpermits h' op hp.1, fun r hr => ?_⟩
    obtain rfl := hanswers op r hp.1 hr
    exact ih _ (hp.2 _) _ (hh.cons hp.1 _)

section Handling

variable {σ : Type} {handle : σ → (op : Op) → Res op × σ} {s s' : σ}

def evalFrom (handle : σ → (op : Op) → Res op × σ) : σ → Prog Op Res α → α × σ
  | s, .pure a => (a, s)
  | s, .call op k => evalFrom handle (handle s op).2 (k (handle s op).1)

theorem evalFrom_bind (p : Prog Op Res α) (f : α → Prog Op Res β) (s : σ) :
    (p >>= f).evalFrom handle s =
      (f (p.evalFrom handle s).1).evalFrom handle (p.evalFrom handle s).2 := by
  induction p generalizing s with
  | pure a => rfl
  | call op k ih => exact ih (handle s op).1 (handle s op).2

theorem evalFrom_run_bind {x : ExceptT ε (Prog Op Res) α} {a : α}
    (f : α → ExceptT ε (Prog Op Res) β) (hx : x.run.evalFrom handle s = (.ok a, s')) :
    (x >>= f).run.evalFrom handle s = (f a).run.evalFrom handle s' := by
  rw [run_bind_eq, evalFrom_bind, hx]

theorem evalFrom_run_attempt {ε' : Type} (x : ExceptT ε (Prog Op Res) α) :
    (attempt x : ExceptT ε' (Prog Op Res) (Except ε α)).run.evalFrom handle s =
      (.ok (x.run.evalFrom handle s).1, (x.run.evalFrom handle s).2) :=
  evalFrom_bind _ _ _

end Handling

end Prog

end FiveSpot.Effects
