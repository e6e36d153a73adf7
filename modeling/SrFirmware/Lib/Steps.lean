import Mathlib.Logic.Basic

/-!
# Runs of a deterministic step function with a schedule

A system is `step : S → A → Option S`: the schedule (which agent moves, what the
environment does) is the list of actions, and `none` means that the action is not
enabled. A property of every reachable state is a property of every state of every
schedule. Nothing here says what the states or the actions are.
-/

namespace SrFirmware.Lib

set_option autoImplicit false

universe u v

variable {S : Type u} {A : Type v} (step : S → A → Option S)

/-- The state after a whole schedule; `none` if some action was not enabled. -/
def run : S → List A → Option S
  | s, [] => some s
  | s, a :: as => (step s a).bind fun t => run t as

/-- Every step actually taken meets the condition `ok`, read in the state before it. -/
def Along (ok : S → A → Prop) : S → List A → Prop
  | _, [] => True
  | s, a :: as => ∀ t, step s a = some t → ok s a ∧ Along ok t as

/-- Every state visited has the property, the first and the last included. -/
def Throughout (P : S → Prop) : S → List A → Prop
  | s, [] => P s
  | s, a :: as => P s ∧ ∀ t, step s a = some t → Throughout P t as

variable {step} {ok : S → A → Prop} {P Inv : S → Prop}

instance Along.decidable [∀ s a, Decidable (ok s a)] :
    ∀ (s : S) (as : List A), Decidable (Along step ok s as)
  | _, [] => .isTrue trivial
  | s, a :: as =>
    match h : step s a with
    | none => .isTrue fun t ht => nomatch h.symm.trans ht
    | some t =>
      have := Along.decidable t as
      decidable_of_iff (ok s a ∧ Along step ok t as) <| by
        simp only [Along, h, Option.some.injEq, forall_eq']

instance Throughout.decidable [∀ s, Decidable (P s)] :
    ∀ (s : S) (as : List A), Decidable (Throughout step P s as)
  | s, [] => inferInstanceAs (Decidable (P s))
  | s, a :: as =>
    match h : step s a with
    | none => decidable_of_iff (P s) <| by simp [Throughout, h]
    | some t =>
      have := Throughout.decidable t as
      decidable_of_iff (P s ∧ Throughout step P t as) <| by
        simp only [Throughout, h, Option.some.injEq, forall_eq']

theorem Along.and {ok' : S → A → Prop} {s : S} {as : List A} (h : Along step ok s as)
    (h' : Along step ok' s as) : Along step (fun s a => ok s a ∧ ok' s a) s as := by
  induction as generalizing s with
  | nil => trivial
  | cons a as ih =>
    intro t ht
    obtain ⟨hok, hrest⟩ := h t ht
    obtain ⟨hok', hrest'⟩ := h' t ht
    exact ⟨⟨hok, hok'⟩, ih hrest hrest'⟩

@[simp] theorem run_nil (s : S) : run step s [] = some s := rfl

theorem run_cons (s : S) (a : A) (as : List A) :
    run step s (a :: as) = (step s a).bind fun t => run step t as := rfl

theorem run_append (s : S) (as bs : List A) :
    run step s (as ++ bs) = (run step s as).bind fun t => run step t bs := by
  induction as generalizing s with
  | nil => rfl
  | cons a as ih =>
    cases h : step s a with
    | none => simp [run_cons, h]
    | some t => simp [run_cons, h, ih]

theorem Throughout.head {s : S} {as : List A} (h : Throughout step P s as) : P s := by
  cases as with
  | nil => exact h
  | cons a as => exact h.1

theorem Throughout.last {s t : S} {as : List A} (h : Throughout step P s as)
    (hr : run step s as = some t) : P t := by
  induction as generalizing s with
  | nil =>
    cases hr
    exact h
  | cons a as ih =>
    cases hs : step s a with
    | none => simp [run_cons, hs] at hr
    | some u =>
      simp only [run_cons, hs, Option.bind_some] at hr
      exact ih (h.2 u hs) hr

theorem Throughout.mono {Q : S → Prop} (hPQ : ∀ s, P s → Q s) {s : S} {as : List A}
    (h : Throughout step P s as) : Throughout step Q s as := by
  induction as generalizing s with
  | nil => exact hPQ s h
  | cons a as ih => exact ⟨hPQ s h.1, fun t ht => ih (h.2 t ht)⟩

/-- The run rule: an invariant kept by every step that meets the condition holds in
every state of a schedule whose steps all meet it. -/
theorem throughout_of_along
    (keep : ∀ {s a t}, Inv s → ok s a → step s a = some t → Inv t)
    {s : S} {as : List A} (hs : Inv s) (h : Along step ok s as) :
    Throughout step Inv s as := by
  induction as generalizing s with
  | nil => exact hs
  | cons a as ih =>
    refine ⟨hs, ?_⟩
    intro t ht
    obtain ⟨hok, hrest⟩ := h t ht
    exact ih (keep hs hok ht) hrest

/-- The converse direction, when a step between two good states must have met the condition. -/
theorem along_of_throughout
    (only : ∀ {s a t}, P s → P t → step s a = some t → ok s a)
    {s : S} {as : List A} (h : Throughout step P s as) : Along step ok s as := by
  induction as generalizing s with
  | nil => trivial
  | cons a as ih =>
    intro t ht
    exact ⟨only h.1 (h.2 t ht).head ht, ih (h.2 t ht)⟩

theorem throughout_of_step (keep : ∀ {s a t}, Inv s → step s a = some t → Inv t)
    {s : S} {as : List A} (hs : Inv s) : Throughout step Inv s as := by
  induction as generalizing s with
  | nil => exact hs
  | cons a as ih => exact ⟨hs, fun t ht => ih (keep hs ht)⟩

end SrFirmware.Lib
