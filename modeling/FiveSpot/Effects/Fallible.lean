import FiveSpot.Effects.Program

/-!
# Programs that may fail

Programs in the exception transformer, with the rules that split what a composed program may do, and
how it ends, into what its parts do.
-/

namespace FiveSpot.Effects

set_option autoImplicit false

namespace Prog

variable {Op : Type} {Res : Op → Type} {α β : Type}

variable {ε : Type} {P : Op → Prop} {answers : (op : Op) → Res op → Prop}
  {permits : History Op Res → Op → Prop}

/-- A postcondition for a program that may fail: one assertion for each way to end. -/
def Outcome (Q : α → History Op Res → Prop) (E : ε → History Op Res → Prop) :
    Except ε α → History Op Res → Prop
  | .ok a, h => Q a h
  | .error e, h => E e h

@[simp] theorem outcome_ok {Q : α → History Op Res → Prop} {E : ε → History Op Res → Prop}
    (a : α) (h : History Op Res) : Outcome Q E (.ok a) h ↔ Q a h := Iff.rfl

@[simp] theorem outcome_error {Q : α → History Op Res → Prop} {E : ε → History Op Res → Prop}
    (e : ε) (h : History Op Res) : Outcome Q E (.error e) h ↔ E e h := Iff.rfl

theorem run_bind_eq (x : ExceptT ε (Prog Op Res) α) (f : α → ExceptT ε (Prog Op Res) β) :
    (x >>= f).run = (x.run >>= fun
      | .ok a => (f a).run
      | .error e => Prog.pure (.error e)) := by
  change Prog.bind x.run _ = Prog.bind x.run _
  congr 1
  funext r
  cases r <;> rfl

theorem uses_run_bind {x : ExceptT ε (Prog Op Res) α} {f : α → ExceptT ε (Prog Op Res) β}
    (hx : x.run.Uses P) (hf : ∀ a, (f a).run.Uses P) : (x >>= f).run.Uses P := by
  rw [run_bind_eq]
  refine hx.bind fun r => ?_
  cases r with
  | ok a => exact hf a
  | error e => trivial

@[simp] theorem meets_run_bind {x : ExceptT ε (Prog Op Res) α}
    {f : α → ExceptT ε (Prog Op Res) β} {Q : β → History Op Res → Prop}
    {E : ε → History Op Res → Prop} {h : History Op Res} :
    (x >>= f).run.Meets answers permits (Outcome Q E) h ↔
      x.run.Meets answers permits
        (Outcome (fun a h' => (f a).run.Meets answers permits (Outcome Q E) h') E) h := by
  rw [run_bind_eq, meets_bind]
  constructor
  · intro hx
    refine hx.mono fun r h' hr => ?_
    cases r <;> exact hr
  · intro hx
    refine hx.mono fun r h' hr => ?_
    cases r <;> exact hr

def ask (op : Op) : ExceptT ε (Prog Op Res) (Res op) := .mk (.call op fun r => .pure (.ok r))

/-- Run a program that may fail and go on with its result either way. -/
def attempt {ε' : Type} (x : ExceptT ε (Prog Op Res) α) :
    ExceptT ε' (Prog Op Res) (Except ε α) :=
  .mk (x.run >>= fun r => .pure (.ok r))

@[simp] theorem uses_run_pure (a : α) :
    (Pure.pure a : ExceptT ε (Prog Op Res) α).run.Uses P := trivial

@[simp] theorem uses_run_throw (e : ε) :
    (throw e : ExceptT ε (Prog Op Res) α).run.Uses P := trivial

@[simp] theorem uses_run_ask (op : Op) :
    (ask op : ExceptT ε (Prog Op Res) (Res op)).run.Uses P ↔ P op := by
  change (P op ∧ ∀ r, True) ↔ P op
  simp

theorem uses_run_attempt {ε' : Type} {x : ExceptT ε (Prog Op Res) α} (hx : x.run.Uses P) :
    (attempt x : ExceptT ε' (Prog Op Res) (Except ε α)).run.Uses P :=
  hx.bind fun _ => trivial

@[simp] theorem meets_run_pure {Q : α → History Op Res → Prop} {E : ε → History Op Res → Prop}
    {h : History Op Res} (a : α) :
    (Pure.pure a : ExceptT ε (Prog Op Res) α).run.Meets answers permits (Outcome Q E) h ↔ Q a h :=
  Iff.rfl

@[simp] theorem meets_run_throw {Q : α → History Op Res → Prop}
    {E : ε → History Op Res → Prop} {h : History Op Res} (e : ε) :
    (throw e : ExceptT ε (Prog Op Res) α).run.Meets answers permits (Outcome Q E) h ↔ E e h :=
  Iff.rfl

@[simp] theorem meets_run_ask {op : Op} {Q : Res op → History Op Res → Prop}
    {E : ε → History Op Res → Prop} {h : History Op Res} :
    (ask op).run.Meets answers permits (Outcome Q E) h ↔
      permits h op ∧ ∀ r, answers op r → Q r (⟨op, r⟩ :: h) := Iff.rfl

theorem meets_run_lift {p : Prog Op Res α} {Q : α → History Op Res → Prop}
    {E : ε → History Op Res → Prop} {h : History Op Res} :
    (ExceptT.lift p).run.Meets answers permits (Outcome Q E) h ↔ p.Meets answers permits Q h := by
  change (p >>= fun a => Prog.pure (Except.ok a)).Meets answers permits (Outcome Q E) h ↔ _
  rw [meets_bind]
  exact Iff.rfl

@[simp] theorem meets_run_attempt {ε' : Type} {x : ExceptT ε (Prog Op Res) α}
    {Q : Except ε α → History Op Res → Prop} {E : ε' → History Op Res → Prop}
    {h : History Op Res} :
    (attempt x).run.Meets answers permits (Outcome Q E) h ↔
      x.run.Meets answers permits
        (Outcome (fun a h' => Q (.ok a) h') (fun e h' => Q (.error e) h')) h := by
  change (x.run >>= fun r => Prog.pure (.ok r)).Meets answers permits (Outcome Q E) h ↔ _
  rw [meets_bind]
  constructor
  · intro hx
    refine hx.mono fun r h' hr => ?_
    cases r <;> exact hr
  · intro hx
    refine hx.mono fun r h' hr => ?_
    cases r <;> exact hr

/-- Sequencing: the second program goes on from what the first one ensures. -/
theorem meets_seq {x : ExceptT ε (Prog Op Res) α} {f : α → ExceptT ε (Prog Op Res) β}
    {Q : α → History Op Res → Prop} {E : ε → History Op Res → Prop}
    {Q' : β → History Op Res → Prop} {E' : ε → History Op Res → Prop} {h : History Op Res}
    (hx : x.run.Meets answers permits (Outcome Q E) h)
    (hf : ∀ a h', Q a h' → (f a).run.Meets answers permits (Outcome Q' E') h')
    (hE : ∀ e h', E e h' → E' e h') :
    (x >>= f).run.Meets answers permits (Outcome Q' E') h := by
  rw [meets_run_bind]
  refine hx.mono fun r h' hr => ?_
  cases r with
  | ok a => exact hf a h' hr
  | error e => exact hE e h' hr

theorem meets_outcome_mono {x : ExceptT ε (Prog Op Res) α}
    {Q Q' : α → History Op Res → Prop} {E E' : ε → History Op Res → Prop} {h : History Op Res}
    (hx : x.run.Meets answers permits (Outcome Q E) h) (hQ : ∀ a h', Q a h' → Q' a h')
    (hE : ∀ e h', E e h' → E' e h') : x.run.Meets answers permits (Outcome Q' E') h := by
  refine hx.mono fun r h' hr => ?_
  cases r with
  | ok a => exact hQ a h' hr
  | error e => exact hE e h' hr

theorem uses_run_meets {x : ExceptT ε (Prog Op Res) α} {h : History Op Res} (hx : x.run.Uses P)
    (hpermits : ∀ h' op, History.Grown P h h' → P op → permits h' op) :
    x.run.Meets answers permits
      (Outcome (fun _ h' => History.Grown P h h') (fun _ h' => History.Grown P h h')) h := by
  refine (hx.meets hpermits).mono fun r h' hr => ?_
  cases r <;> exact hr

end Prog

open Prog

section Keeps

variable {Op : Type} {Res : Op → Type} {α β ε : Type} {permits : History Op Res → Op → Prop}
  {h : History Op Res}

/-- `x` makes permitted calls only; `Q` holds when it returns and `E` when it ends in an error. -/
structure Keeps (permits : History Op Res → Op → Prop) (x : ExceptT ε (Prog Op Res) α)
    (h : History Op Res) (Q : α → History Op Res → Prop) (E : ε → History Op Res → Prop) :
    Prop where
  meets : x.run.Meets (fun _ _ => True) permits (Outcome Q E) h

variable {x : ExceptT ε (Prog Op Res) α} {f : α → ExceptT ε (Prog Op Res) β}
  {Q : α → History Op Res → Prop} {E E' : ε → History Op Res → Prop}
  {Q' : β → History Op Res → Prop}

theorem Keeps.bind (hx : Keeps permits x h Q E)
    (hf : ∀ a h', Q a h' → Keeps permits (f a) h' Q' E') (hE : ∀ e h', E e h' → E' e h') :
    Keeps permits (x >>= f) h Q' E' :=
  ⟨meets_seq hx.meets (fun a h' ha => (hf a h' ha).meets) hE⟩

theorem Keeps.weaken {Q' : α → History Op Res → Prop} (hx : Keeps permits x h Q E)
    (hQ : ∀ a h', Q a h' → Q' a h') (hE : ∀ e h', E e h' → E' e h') : Keeps permits x h Q' E' :=
  ⟨meets_outcome_mono hx.meets hQ hE⟩

theorem Keeps.keeping (hx : Keeps permits x h Q E) :
    Keeps permits x h (fun a h' => Q a h' ∧ ∀ y ∈ h, y ∈ h') E := by
  refine ⟨hx.meets.keeping.mono fun r h' hr => ?_⟩
  cases r with
  | ok a => exact hr
  | error e => exact hr.1

theorem Keeps.then (hx : Keeps permits x h Q E)
    (hf : ∀ a h', Q a h' → Keeps permits (f a) h' (fun _ _ => True) fun _ _ => True) :
    Keeps permits (x >>= f) h (fun _ _ => True) fun _ _ => True :=
  hx.bind hf fun _ _ _ => trivial

theorem Keeps.attempt {ε' : Type} {f : Except ε α → ExceptT ε' (Prog Op Res) β}
    {E' : ε' → History Op Res → Prop} (hx : Keeps permits x h Q E)
    (hok : ∀ a h', Q a h' → Keeps permits (f (.ok a)) h' Q' E')
    (herror : ∀ e h', E e h' → Keeps permits (f (.error e)) h' Q' E') :
    Keeps permits (Prog.attempt x >>= f) h Q' E' := by
  refine ⟨meets_run_bind.mpr (meets_run_attempt.mpr ?_)⟩
  exact meets_outcome_mono hx.meets (fun a h' ha => (hok a h' ha).meets)
    fun e h' he => (herror e h' he).meets

theorem keeps_pure {a : α} (ha : Q a h) :
    Keeps permits (pure a : ExceptT ε (Prog Op Res) α) h Q E := ⟨ha⟩

theorem keeps_throw {e : ε} (he : E e h) :
    Keeps permits (throw e : ExceptT ε (Prog Op Res) α) h Q E := ⟨he⟩

theorem keeps_ask {op : Op} (hop : permits h op) :
    Keeps permits (ask op : ExceptT ε (Prog Op Res) (Res op)) h (fun r h' => h' = ⟨op, r⟩ :: h)
      fun _ _ => False :=
  ⟨meets_run_ask.mpr ⟨hop, fun _ _ => rfl⟩⟩

theorem keeps_ask_bind {op : Op} {f : Res op → ExceptT ε (Prog Op Res) β} (hop : permits h op)
    (hf : ∀ r, Keeps permits (f r) (⟨op, r⟩ :: h) Q' E) :
    Keeps permits (ask op >>= f) h Q' E := by
  refine (keeps_ask hop).bind (fun r h' hh => ?_) fun _ _ hfalse => hfalse.elim
  subst hh
  exact hf r

end Keeps

end FiveSpot.Effects
