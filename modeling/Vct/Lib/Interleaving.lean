import Mathlib.Logic.Function.Basic

/-!
Runs of processes over a shared state. Every choice a scheduler makes (which process
moves next, and what the environment answers it) is part of the event, so a step is a
function and a run is a fold over the events.
-/

namespace Vct.Lib.Interleaving

variable {S E : Type}

def run (step : E → S → S) (events : List E) (s : S) : S :=
  events.foldl (fun s e => step e s) s

@[simp] theorem run_nil (step : E → S → S) (s : S) : run step [] s = s := rfl

@[simp] theorem run_cons (step : E → S → S) (e : E) (events : List E) (s : S) :
    run step (e :: events) s = run step events (step e s) := rfl

theorem run_append (step : E → S → S) (xs ys : List E) (s : S) :
    run step (xs ++ ys) s = run step ys (run step xs s) := by
  simp [run, List.foldl_append]

theorem run_invariant {step : E → S → S} {P : S → Prop} (hstep : ∀ e s, P s → P (step e s)) :
    ∀ (events : List E) (s : S), P s → P (run step events s) := by
  intro events
  induction events with
  | nil => exact fun _ hs => hs
  | cons e events ih => exact fun s hs => ih (step e s) (hstep e s hs)

theorem run_invariant_of_forall {step : E → S → S} {P : S → Prop} {Q : E → Prop}
    (hstep : ∀ e s, Q e → P s → P (step e s)) :
    ∀ (events : List E), (∀ e ∈ events, Q e) → ∀ (s : S), P s → P (run step events s) := by
  intro events
  induction events with
  | nil => exact fun _ _ hs => hs
  | cons e events ih =>
      intro hQ s hs
      exact ih (fun e' he' => hQ e' (List.mem_cons_of_mem e he'))
        (step e s) (hstep e s (hQ e List.mem_cons_self) hs)

def Guarded (step : E → S → S) (G : S → E → Prop) : S → List E → Prop
  | _, [] => True
  | s, e :: events => G s e ∧ Guarded step G (step e s) events

instance decidableGuarded {step : E → S → S} {G : S → E → Prop} [∀ s e, Decidable (G s e)] :
    ∀ (s : S) (events : List E), Decidable (Guarded step G s events)
  | _, [] => isTrue trivial
  | s, e :: events =>
      haveI : Decidable (Guarded step G (step e s) events) := decidableGuarded (step e s) events
      inferInstanceAs (Decidable (G s e ∧ Guarded step G (step e s) events))

theorem run_invariant_of_guarded {step : E → S → S} {P : S → Prop} {G : S → E → Prop}
    (hstep : ∀ e s, G s e → P s → P (step e s)) :
    ∀ (events : List E) (s : S), Guarded step G s events → P s → P (run step events s) := by
  intro events
  induction events with
  | nil => exact fun _ _ hs => hs
  | cons e events ih =>
      rintro s ⟨hG, hrest⟩ hs
      exact ih (step e s) hrest (hstep e s hG hs)

theorem run_rel {step : E → S → S} {R : S → S → Prop} (hrefl : ∀ s, R s s)
    (htrans : ∀ a b c, R a b → R b c → R a c) (hstep : ∀ e s, R s (step e s)) :
    ∀ (events : List E) (s : S), R s (run step events s) := by
  intro events
  induction events with
  | nil => exact hrefl
  | cons e events ih => exact fun s => htrans _ _ _ (hstep e s) (ih (step e s))

end Vct.Lib.Interleaving
