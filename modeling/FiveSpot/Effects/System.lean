import FiveSpot.Effects.Program

/-!
# Runs of a program that is restarted for ever

One program at a time is in flight. Between any two of its calls the surroundings may change and
the process may be killed; a run is the list of such events. The trace keeps every event, and
the calls the program in flight has made are kept next to it.
-/

namespace FiveSpot.Effects

set_option autoImplicit false

/-- How the surroundings answer a call, what is started, and what survives a restart. -/
structure System (Op : Type) (Res : Op → Type) (World Choice α : Type) where
  exec : World → (op : Op) → Choice → Res op × World
  program : World → Prog Op Res α
  restart : World → World

structure Current (Op : Type) (Res : Op → Type) (World : Type) where
  snapshot : World
  done : History Op Res

inductive Obs (Op : Type) (Res : Op → Type) (World Choice α : Type) where
  | moved (before after : World)
  | started (world : World)
  | called (world : World) (op : Op) (choice : Choice)
  | finished (current : Current Op Res World) (result : α)
  | restarted

inductive Event (World Choice : Type) where
  | move (w : World)
  | start
  | next (choice : Choice)
  | crash

def Event.moves {World Choice : Type} : Event World Choice → Bool
  | .move _ => true
  | _ => false

/-- A configuration without the code still to be run: what invariants speak about. -/
structure View (Op : Type) (Res : Op → Type) (World Choice α : Type) where
  world : World
  trace : List (Obs Op Res World Choice α)
  current : Option (Current Op Res World)

structure Config (Op : Type) (Res : Op → Type) (World Choice α : Type) where
  world : World
  trace : List (Obs Op Res World Choice α)
  inflight : Option (Current Op Res World × Prog Op Res α)

variable {Op : Type} {Res : Op → Type} {World Choice α : Type}

/-- `P` holds of every event of a trace together with the events before it. -/
inductive Throughout (P : Obs Op Res World Choice α → List (Obs Op Res World Choice α) → Prop) :
    List (Obs Op Res World Choice α) → Prop where
  | nil : Throughout P []
  | cons {o : Obs Op Res World Choice α} {t : List (Obs Op Res World Choice α)} :
      P o t → Throughout P t → Throughout P (o :: t)

def everywhere (test : Obs Op Res World Choice α → List (Obs Op Res World Choice α) → Bool) :
    List (Obs Op Res World Choice α) → Bool
  | [] => true
  | o :: t => test o t && everywhere test t

theorem Throughout.everywhere
    {P : Obs Op Res World Choice α → List (Obs Op Res World Choice α) → Prop}
    {test : Obs Op Res World Choice α → List (Obs Op Res World Choice α) → Bool}
    {t : List (Obs Op Res World Choice α)} (h : Throughout P t)
    (htest : ∀ o t, P o t → test o t = true) : everywhere test t = true := by
  induction h with
  | nil => rfl
  | cons ho _ ih => exact (Bool.and_eq_true _ _).mpr ⟨htest _ _ ho, ih⟩

theorem Throughout.of_append
    {P : Obs Op Res World Choice α → List (Obs Op Res World Choice α) → Prop}
    {s t : List (Obs Op Res World Choice α)} (h : Throughout P (s ++ t)) :
    ∀ o ∈ s, ∃ u, P o (u ++ t) := by
  induction s with
  | nil => exact fun o ho => by cases ho
  | cons o s ih =>
    cases h with
    | cons ho hs =>
      intro o' ho'
      rcases List.mem_cons.mp ho' with rfl | ho'
      · exact ⟨s, ho⟩
      · exact ih hs o' ho'

namespace View

variable (v : View Op Res World Choice α)

def moved (w : World) : View Op Res World Choice α :=
  { v with world := w, trace := .moved v.world w :: v.trace }

def started : View Op Res World Choice α :=
  { v with trace := .started v.world :: v.trace, current := some ⟨v.world, []⟩ }

def called (S : System Op Res World Choice α) (cur : Current Op Res World) (op : Op)
    (ch : Choice) : View Op Res World Choice α where
  world := (S.exec v.world op ch).2
  trace := .called v.world op ch :: v.trace
  current := some ⟨cur.snapshot, ⟨op, (S.exec v.world op ch).1⟩ :: cur.done⟩

def finished (cur : Current Op Res World) (a : α) : View Op Res World Choice α :=
  { v with trace := .finished cur a :: v.trace, current := none }

def restarted (S : System Op Res World Choice α) : View Op Res World Choice α where
  world := S.restart v.world
  trace := .restarted :: v.trace
  current := none

end View

namespace Config

def view (c : Config Op Res World Choice α) : View Op Res World Choice α :=
  ⟨c.world, c.trace, c.inflight.map Prod.fst⟩

def idle (w : World) : Config Op Res World Choice α := ⟨w, [], none⟩

/-- Put a program in flight; one that has nothing left to call is finished on the spot. -/
def settle (w : World) (t : List (Obs Op Res World Choice α)) (cur : Current Op Res World) :
    Prog Op Res α → Config Op Res World Choice α
  | .pure a => ⟨w, .finished cur a :: t, none⟩
  | .call op k => ⟨w, t, some (cur, .call op k)⟩

end Config

namespace System

variable (S : System Op Res World Choice α)

def step (c : Config Op Res World Choice α) : Event World Choice → Config Op Res World Choice α
  | .move w => { c with world := w, trace := .moved c.world w :: c.trace }
  | .start =>
      match c.inflight with
      | none => .settle c.world (.started c.world :: c.trace) ⟨c.world, []⟩ (S.program c.world)
      | some _ => c
  | .next ch =>
      match c.inflight with
      | some (cur, .call op k) =>
          .settle (S.exec c.world op ch).2 (.called c.world op ch :: c.trace)
            ⟨cur.snapshot, ⟨op, (S.exec c.world op ch).1⟩ :: cur.done⟩
            (k (S.exec c.world op ch).1)
      | _ => c
  | .crash => ⟨S.restart c.world, .restarted :: c.trace, none⟩

def run (c : Config Op Res World Choice α) (es : List (Event World Choice)) :
    Config Op Res World Choice α :=
  es.foldl S.step c

/-- Run a program to its end in surroundings that stand still and answer every call by `ch`: the
world it leaves and the operations it issues. -/
def complete {β : Type} (ch : Choice) (w : World) : Prog Op Res β → World × List Op
  | .pure _ => (w, [])
  | .call op k =>
      let rest := complete ch (S.exec w op ch).2 (k (S.exec w op ch).1)
      (rest.1, op :: rest.2)

theorem run_append (c : Config Op Res World Choice α) (es es' : List (Event World Choice)) :
    S.run c (es ++ es') = S.run (S.run c es) es' :=
  List.foldl_append

end System

/-- Conditions on the events of a run, each on the state before the event. -/
structure Guard (Op : Type) (Res : Op → Type) (World Choice α : Type) where
  move : View Op Res World Choice α → World → Prop
  start : View Op Res World Choice α → Prop
  call : View Op Res World Choice α → Op → Choice → Prop
  crash : View Op Res World Choice α → Prop

namespace Guard

variable (G : Guard Op Res World Choice α)

def Admits (c : Config Op Res World Choice α) : Event World Choice → Prop
  | .move w => G.move c.view w
  | .start => c.inflight = none → G.start c.view
  | .next ch =>
      match c.inflight with
      | some (_, .call op _) => G.call c.view op ch
      | _ => True
  | .crash => G.crash c.view

/-- Every event of the run meets its condition in the state it happens in. -/
def Allows (S : System Op Res World Choice α) (c : Config Op Res World Choice α) :
    List (Event World Choice) → Prop
  | [] => True
  | e :: es => G.Admits c e ∧ Allows S (S.step c e) es

def free : Guard Op Res World Choice α where
  move _ _ := True
  start _ := True
  call _ _ _ := True
  crash _ := True

variable {G} {S : System Op Res World Choice α}

theorem free_allows (c : Config Op Res World Choice α) (es : List (Event World Choice)) :
    free.Allows S c es := by
  induction es generalizing c with
  | nil => trivial
  | cons e es ih =>
    refine ⟨?_, ih _⟩
    cases e with
    | move w => trivial
    | start => exact fun _ => trivial
    | crash => trivial
    | next ch => obtain ⟨w, t, _ | ⟨cur, a | ⟨op, k⟩⟩⟩ := c <;> trivial

theorem allows_append {c : Config Op Res World Choice α} {es es' : List (Event World Choice)} :
    G.Allows S c (es ++ es') ↔ G.Allows S c es ∧ G.Allows S (S.run c es) es' := by
  induction es generalizing c with
  | nil => simp [Allows, System.run]
  | cons e es ih => simp [Allows, System.run, ih, and_assoc]

theorem allows_of_unmoved (hstart : ∀ v, G.start v) (hcall : ∀ v op ch, G.call v op ch)
    (hcrash : ∀ v, G.crash v) {c : Config Op Res World Choice α} {es : List (Event World Choice)}
    (hes : es.all (fun e => !e.moves) = true) : G.Allows S c es := by
  induction es generalizing c with
  | nil => trivial
  | cons e es ih =>
    obtain ⟨hhead, htail⟩ := (Bool.and_eq_true _ _).mp hes
    refine ⟨?_, ih htail⟩
    cases e with
    | move w => cases hhead
    | start => exact fun _ => hstart _
    | crash => exact hcrash _
    | next ch =>
      obtain ⟨w, t, _ | ⟨cur, a | ⟨op, k⟩⟩⟩ := c
      · trivial
      · trivial
      · exact hcall _ op ch

end Guard

/-- Executable tests that imply a guard; they apply to runs in which the surroundings stand still. -/
structure Tests (G : Guard Op Res World Choice α) where
  start : View Op Res World Choice α → Bool
  call : View Op Res World Choice α → Op → Choice → Bool
  start_sound : ∀ v, start v = true → G.start v
  call_sound : ∀ v op ch, call v op ch = true → G.call v op ch
  crash : View Op Res World Choice α → Bool
  crash_sound : ∀ v, crash v = true → G.crash v

namespace Tests

variable {G : Guard Op Res World Choice α} (T : Tests G) (S : System Op Res World Choice α)

def passes (c : Config Op Res World Choice α) : Event World Choice → Bool
  | .move _ => false
  | .start => c.inflight.isSome || T.start c.view
  | .next ch =>
      match c.inflight with
      | some (_, .call op _) => T.call c.view op ch
      | _ => true
  | .crash => T.crash c.view

def passAll (c : Config Op Res World Choice α) : List (Event World Choice) → Bool
  | [] => true
  | e :: es => T.passes c e && passAll (S.step c e) es

variable {T S}

theorem admits {c : Config Op Res World Choice α} {e : Event World Choice}
    (h : T.passes c e = true) : G.Admits c e := by
  cases e with
  | move w => cases h
  | crash => exact T.crash_sound c.view h
  | start =>
    intro hidle
    refine T.start_sound c.view ?_
    simpa [passes, hidle] using h
  | next ch =>
    obtain ⟨w, t, _ | ⟨cur, a | ⟨op, k⟩⟩⟩ := c
    · trivial
    · trivial
    · exact T.call_sound _ op ch h

theorem allows {c : Config Op Res World Choice α} {es : List (Event World Choice)}
    (h : T.passAll S c es = true) : G.Allows S c es := by
  induction es generalizing c with
  | nil => trivial
  | cons e es ih =>
    obtain ⟨hhead, htail⟩ := (Bool.and_eq_true _ _).mp h
    exact ⟨admits hhead, ih htail⟩

theorem allows_move {c : Config Op Res World Choice α} {es es' : List (Event World Choice)} {w : World}
    (hmove : G.Admits (S.run c es) (.move w))
    (h : T.passAll S c es = true ∧ T.passAll S (S.step (S.run c es) (.move w)) es' = true) :
    G.Allows S c (es ++ .move w :: es') :=
  Guard.allows_append.mpr ⟨allows h.1, hmove, allows h.2⟩

end Tests

end FiveSpot.Effects
