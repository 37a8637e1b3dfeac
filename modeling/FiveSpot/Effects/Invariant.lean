import FiveSpot.Effects.System

/-!
# Invariants of all runs

A program is known by its contract: which calls it makes after which history, and what holds when
it returns. An invariant is shown to survive each kind of event, a call only where the contract
permits it, and then holds in every state of every run.
-/

namespace FiveSpot.Effects

set_option autoImplicit false

variable {Op : Type} {Res : Op → Type} {World Choice α : Type}

/-- What a program started on a given world does, as long as its calls are answered as expected. -/
structure Contract (Op : Type) (Res : Op → Type) (World α : Type) where
  answers : World → (op : Op) → Res op → Prop
  permits : World → History Op Res → Op → Prop
  returns : World → α → History Op Res → Prop

namespace Contract

variable (K : Contract Op Res World α)

def Binds (w : World) (h : History Op Res) (p : Prog Op Res α) : Prop :=
  p.Meets (K.answers w) (K.permits w) (K.returns w) h

def Governs (c : Config Op Res World Choice α) : Prop :=
  ∀ cur p, c.inflight = some (cur, p) → K.Binds cur.snapshot cur.done p

/-- Survival of `Inv` under every kind of event that `G` allows. -/
structure Preserves (S : System Op Res World Choice α) (G : Guard Op Res World Choice α)
    (Inv : View Op Res World Choice α → Prop) : Prop where
  move : ∀ v w, Inv v → G.move v w → Inv (v.moved w)
  start : ∀ v, Inv v → v.current = none → G.start v →
    K.Binds v.world [] (S.program v.world) ∧ Inv v.started
  call : ∀ v cur op ch, Inv v → v.current = some cur → K.permits cur.snapshot cur.done op →
    G.call v op ch →
    K.answers cur.snapshot op (S.exec v.world op ch).1 ∧ Inv (v.called S cur op ch)
  finish : ∀ v cur a, Inv v → v.current = some cur → K.returns cur.snapshot a cur.done →
    Inv (v.finished cur a)
  crash : ∀ v, Inv v → G.crash v → Inv (v.restarted S)

variable {K} {S : System Op Res World Choice α} {G : Guard Op Res World Choice α}
  {Inv : View Op Res World Choice α → Prop}

theorem governs_idle {w : World} {t : List (Obs Op Res World Choice α)} :
    K.Governs (⟨w, t, none⟩ : Config Op Res World Choice α) := by
  intro cur p hp
  simp at hp

theorem Preserves.settle (hI : K.Preserves S G Inv) {w : World}
    {t : List (Obs Op Res World Choice α)} {cur : Current Op Res World} {p : Prog Op Res α}
    (hinv : Inv ⟨w, t, some cur⟩) (hp : K.Binds cur.snapshot cur.done p) :
    Inv (Config.settle w t cur p).view ∧ K.Governs (Config.settle w t cur p) := by
  cases p with
  | pure a => exact ⟨hI.finish _ cur a hinv rfl hp, governs_idle⟩
  | call op k =>
    refine ⟨hinv, fun cur' p' hin => ?_⟩
    cases hin
    exact hp

theorem Preserves.step (hI : K.Preserves S G Inv) {c : Config Op Res World Choice α}
    (hinv : Inv c.view) (hK : K.Governs c) {e : Event World Choice} (hG : G.Admits c e) :
    Inv (S.step c e).view ∧ K.Governs (S.step c e) := by
  obtain ⟨w, t, inflight⟩ := c
  cases e with
  | move w' => exact ⟨hI.move _ w' hinv hG, hK⟩
  | crash => exact ⟨hI.crash _ hinv hG, governs_idle⟩
  | start =>
    cases inflight with
    | some cp => exact ⟨hinv, hK⟩
    | none =>
      obtain ⟨hprog, hstart⟩ := hI.start _ hinv rfl (hG rfl)
      exact hI.settle hstart hprog
  | next ch =>
    rcases inflight with _ | ⟨cur, a | ⟨op, k⟩⟩
    · exact ⟨hinv, hK⟩
    · exact ⟨hinv, hK⟩
    · obtain ⟨hpermits, hrest⟩ := hK cur _ rfl
      obtain ⟨hanswer, hcall⟩ := hI.call _ cur op ch hinv rfl hpermits hG
      exact hI.settle hcall (hrest _ hanswer)

/-- The invariant holds after every allowed run from a state in which nothing is in flight. -/
theorem Preserves.run (hI : K.Preserves S G Inv) {c : Config Op Res World Choice α}
    (hinv : Inv c.view) (hK : K.Governs c) {es : List (Event World Choice)}
    (hG : G.Allows S c es) : Inv (S.run c es).view ∧ K.Governs (S.run c es) := by
  induction es generalizing c with
  | nil => exact ⟨hinv, hK⟩
  | cons e es ih =>
    obtain ⟨hinv', hK'⟩ := hI.step hinv hK hG.1
    exact ih hinv' hK' hG.2

theorem Preserves.run_idle (hI : K.Preserves S G Inv) {w : World} (hinv : Inv ⟨w, [], none⟩)
    {es : List (Event World Choice)} (hG : G.Allows S (.idle w) es) :
    Inv (S.run (.idle w) es).view :=
  (hI.run (c := .idle w) hinv governs_idle hG).1

/-- What one event makes of the world: what others make of it, what a permitted call makes of it, or
what a restart makes of it. -/
theorem Governs.step_world {c : Config Op Res World Choice α} {e : Event World Choice}
    {P : World → Prop} (hK : K.Governs c) (hG : G.Admits c e) (hstay : P c.world)
    (hmove : ∀ w, G.move c.view w → P w)
    (hcall : ∀ cur op ch, c.view.current = some cur → K.permits cur.snapshot cur.done op →
      P (S.exec c.world op ch).2)
    (hcrash : P (S.restart c.world)) : P (S.step c e).world := by
  have hsettle : ∀ w t cur (p : Prog Op Res α), P w →
      P (Config.settle w t cur p : Config Op Res World Choice α).world := by
    intro w t cur p hw
    cases p <;> exact hw
  obtain ⟨w, t, inflight⟩ := c
  cases e with
  | move w' => exact hmove w' hG
  | crash => exact hcrash
  | start =>
    cases inflight with
    | some cp => exact hstay
    | none => exact hsettle _ _ _ _ hstay
  | next ch =>
    rcases inflight with _ | ⟨cur, a | ⟨op, k⟩⟩
    · exact hstay
    · exact hstay
    · exact hsettle _ _ _ _ (hcall cur op ch rfl (hK cur _ rfl).1)

/-- A contract that expects nothing of the answers governs every run. -/
theorem governs_run (hbinds : ∀ w, K.Binds w [] (S.program w))
    (hanswers : ∀ w op x, K.answers w op x) (w : World) (es : List (Event World Choice)) :
    K.Governs (S.run (.idle w) es) := by
  have hkeeps : K.Preserves S .free fun _ => True :=
    { move := fun _ _ _ _ => trivial
      start := fun v _ _ _ => ⟨hbinds v.world, trivial⟩
      call := fun v cur op ch _ _ _ _ => ⟨hanswers cur.snapshot op _, trivial⟩
      finish := fun _ _ _ _ _ _ => trivial
      crash := fun _ _ _ => trivial }
  exact (hkeeps.run (c := .idle w) trivial governs_idle (Guard.free_allows _ es)).2

end Contract

end FiveSpot.Effects
