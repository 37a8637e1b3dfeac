import FiveSpot.Effects.Invariant

/-!
# Many programs at once

A pool holds programs that share one world. Each call is one step, and the steps of different programs
interleave in any order, among themselves and with changes that come from outside. A task that has
returned stays in the pool with its result.
-/

namespace FiveSpot.Effects

set_option autoImplicit false

/-- How calls are answered, what is run for an argument, and how the outside reaches the world. -/
structure Pool (Op : Type) (Res : Op → Type) (World Choice Outside Arg α : Type) where
  exec : World → (op : Op) → Choice → Res op × World
  program : Arg → Prog Op Res α
  adjust : World → Outside → World

namespace Pool

structure Task (Op : Type) (Res : Op → Type) (Arg α : Type) where
  arg : Arg
  done : History Op Res
  rest : Prog Op Res α

structure State (Op : Type) (Res : Op → Type) (World Arg α : Type) where
  world : World
  tasks : List (Task Op Res Arg α)

inductive Event (Choice Outside Arg : Type) where
  | outside (o : Outside)
  | spawn (a : Arg)
  | next (i : Nat) (ch : Choice)

variable {Op : Type} {Res : Op → Type} {World Choice Outside Arg α : Type}

def Task.result (t : Task Op Res Arg α) : Option α :=
  match t.rest with
  | .pure a => some a
  | .call _ _ => none

def Task.answered (t : Task Op Res Arg α) (op : Op) (r : Res op) (rest : Prog Op Res α) :
    Task Op Res Arg α :=
  ⟨t.arg, ⟨op, r⟩ :: t.done, rest⟩

def State.Quiet (s : State Op Res World Arg α) : Prop := ∀ t ∈ s.tasks, t.result.isSome = true

variable (S : Pool Op Res World Choice Outside Arg α)

def step (s : State Op Res World Arg α) : Event Choice Outside Arg → State Op Res World Arg α
  | .outside o => { s with world := S.adjust s.world o }
  | .spawn a => { s with tasks := s.tasks ++ [⟨a, [], S.program a⟩] }
  | .next i ch =>
      match s.tasks[i]? with
      | some ⟨a, h, .call op k⟩ =>
          ⟨(S.exec s.world op ch).2,
            s.tasks.set i ⟨a, ⟨op, (S.exec s.world op ch).1⟩ :: h, k (S.exec s.world op ch).1⟩⟩
      | _ => s

def run (s : State Op Res World Arg α) (es : List (Event Choice Outside Arg)) :
    State Op Res World Arg α :=
  es.foldl S.step s

/-- Conditions on the events of a run, each on the state before the event. -/
structure Guard (Op : Type) (Res : Op → Type) (World Choice Outside Arg α : Type) where
  outside : State Op Res World Arg α → Outside → Prop
  spawn : State Op Res World Arg α → Arg → Prop
  call : State Op Res World Arg α → Nat → Op → Choice → Prop

namespace Guard

variable (G : Guard Op Res World Choice Outside Arg α)

def Admits (s : State Op Res World Arg α) : Event Choice Outside Arg → Prop
  | .outside o => G.outside s o
  | .spawn a => G.spawn s a
  | .next i ch => ∀ t op k, s.tasks[i]? = some t → t.rest = .call op k → G.call s i op ch

def Allows (s : State Op Res World Arg α) : List (Event Choice Outside Arg) → Prop
  | [] => True
  | e :: es => G.Admits s e ∧ Allows (S.step s e) es

def free : Guard Op Res World Choice Outside Arg α where
  outside _ _ := True
  spawn _ _ := True
  call _ _ _ _ := True

variable {S}

theorem free_allows (s : State Op Res World Arg α) (es : List (Event Choice Outside Arg)) :
    free.Allows S s es := by
  induction es generalizing s with
  | nil => trivial
  | cons e es ih =>
    refine ⟨?_, ih _⟩
    cases e with
    | outside o => trivial
    | spawn a => trivial
    | next i ch => exact fun _ _ _ _ _ => trivial

end Guard

def Governs (K : Contract Op Res Arg α) (s : State Op Res World Arg α) : Prop :=
  ∀ t ∈ s.tasks, K.Binds t.arg t.done t.rest

/-- Survival of `Inv` under every kind of event that `G` allows. -/
structure Preserves (K : Contract Op Res Arg α) (G : Guard Op Res World Choice Outside Arg α)
    (Inv : State Op Res World Arg α → Prop) : Prop where
  outside : ∀ s o, Inv s → G.outside s o → Inv { s with world := S.adjust s.world o }
  spawn : ∀ s a, Inv s → G.spawn s a →
    K.Binds a [] (S.program a) ∧ Inv { s with tasks := s.tasks ++ [⟨a, [], S.program a⟩] }
  call : ∀ s i t op k ch, Inv s → s.tasks[i]? = some t → t.rest = .call op k →
    K.permits t.arg t.done op → G.call s i op ch →
    K.answers t.arg op (S.exec s.world op ch).1 ∧
      Inv ⟨(S.exec s.world op ch).2,
        s.tasks.set i (t.answered op (S.exec s.world op ch).1 (k (S.exec s.world op ch).1))⟩

section Rule

variable {S} {K : Contract Op Res Arg α} {G : Guard Op Res World Choice Outside Arg α}
  {Inv : State Op Res World Arg α → Prop}

theorem getElem?_set_of_some {β : Type} {l : List β} {i j : Nat} {a b : β} (h : l[i]? = some a) :
    (l.set i b)[j]? = if i = j then some b else l[j]? := by
  rw [List.getElem?_set]
  have hlt : i < l.length := (List.getElem?_eq_some_iff.mp h).1
  simp [hlt]

theorem Preserves.step (hI : S.Preserves K G Inv) {s : State Op Res World Arg α} (hinv : Inv s)
    (hK : Governs K s) {e : Event Choice Outside Arg} (hG : G.Admits s e) :
    Inv (S.step s e) ∧ Governs K (S.step s e) := by
  cases e with
  | outside o => exact ⟨hI.outside s o hinv hG, hK⟩
  | spawn a =>
    obtain ⟨hprog, hspawn⟩ := hI.spawn s a hinv hG
    refine ⟨hspawn, fun t ht => ?_⟩
    rcases List.mem_append.mp ht with ht | ht
    · exact hK t ht
    · rw [List.mem_singleton.mp ht]
      exact hprog
  | next i ch =>
    simp only [Pool.step]
    split
    case h_2 => exact ⟨hinv, hK⟩
    case h_1 a h op k hi =>
      have hmem : ⟨a, h, .call op k⟩ ∈ s.tasks := List.mem_of_getElem? hi
      obtain ⟨hpermits, hrest⟩ := hK _ hmem
      obtain ⟨hanswer, hcall⟩ := hI.call s i _ op k ch hinv hi rfl hpermits (hG _ op k hi rfl)
      refine ⟨hcall, fun t ht => ?_⟩
      rcases List.mem_or_eq_of_mem_set ht with ht | rfl
      · exact hK t ht
      · exact hrest _ hanswer

/-- The invariant holds after every allowed run, and the contracts are kept. -/
theorem Preserves.run (hI : S.Preserves K G Inv) {s : State Op Res World Arg α} (hinv : Inv s)
    (hK : Governs K s) {es : List (Event Choice Outside Arg)} (hG : G.Allows S s es) :
    Inv (S.run s es) ∧ Governs K (S.run s es) := by
  induction es generalizing s with
  | nil => exact ⟨hinv, hK⟩
  | cons e es ih =>
    obtain ⟨hinv', hK'⟩ := hI.step hinv hK hG.1
    exact ih hinv' hK' hG.2

theorem governs_empty {w : World} : Governs K (⟨w, []⟩ : State Op Res World Arg α) :=
  fun t ht => by cases ht

end Rule

/-- Executable tests that imply a guard, for runs that nothing outside disturbs. -/
structure Tests (G : Guard Op Res World Choice Outside Arg α) where
  spawn : State Op Res World Arg α → Arg → Bool
  call : State Op Res World Arg α → Nat → Op → Choice → Bool
  spawn_sound : ∀ s a, spawn s a = true → G.spawn s a
  call_sound : ∀ s i op ch, call s i op ch = true → G.call s i op ch

namespace Tests

variable {G : Guard Op Res World Choice Outside Arg α} (T : Tests G)

def passes (s : State Op Res World Arg α) : Event Choice Outside Arg → Bool
  | .outside _ => false
  | .spawn a => T.spawn s a
  | .next i ch =>
      match s.tasks[i]? with
      | some ⟨_, _, .call op _⟩ => T.call s i op ch
      | _ => true

def passAll (s : State Op Res World Arg α) : List (Event Choice Outside Arg) → Bool
  | [] => true
  | e :: es => T.passes s e && passAll (S.step s e) es

variable {T S}

theorem admits {s : State Op Res World Arg α} {e : Event Choice Outside Arg}
    (h : T.passes s e = true) : G.Admits s e := by
  cases e with
  | outside o => cases h
  | spawn a => exact T.spawn_sound s a h
  | next i ch =>
    rintro ⟨a, done, rest⟩ op k hi ⟨⟩
    refine T.call_sound s i op ch ?_
    simpa [passes, hi] using h

theorem allows {s : State Op Res World Arg α} {es : List (Event Choice Outside Arg)}
    (h : T.passAll S s es = true) : G.Allows S s es := by
  induction es generalizing s with
  | nil => trivial
  | cons e es ih =>
    obtain ⟨hhead, htail⟩ := (Bool.and_eq_true _ _).mp h
    exact ⟨admits hhead, ih htail⟩

end Tests

end Pool

end FiveSpot.Effects
