import Vct.Lib.Interleaving
import Vct.Controller.Errors

namespace Vct.StartCmd.GetOrInit

open Vct.Lib.Interleaving
open Vct.Controller.Errors

def kidKey : List Char := "kid".toList

def treeLogKey : List Char := "tree-log".toList

def treeKey (aliasName : List Char) : List Char := treeLogKey ++ '-' :: aliasName

/-- Where an instance is in `getOrInit`: before the first read, before and after the
sleep with the value it read, inside `initFn`, before the `Put`, or returned. -/
inductive Phase (V B : Type)
  | get
  | sleep (src : B)
  | reget (src : B)
  | init
  | put (src : B)
  | returned (result : Except GoError V)

/-- The config store, reduced to the one key the instances ask for, and where each
instance is. -/
structure World (I V B : Type) where
  store : Option B
  phase : I → Phase V B

/-- What happens next: an instance takes its next step against the store, `initFn`
returns to an instance that called it, or the store answers an instance's `Get` or
`Put` with an error other than `ErrDataNotFound`. -/
inductive Event (I A : Type)
  | step (i : I)
  | initReturns (i : I) (result : Except GoError A)
  | storeFails (i : I) (err : GoError)

def Event.actor {I A : Type} : Event I A → I
  | .step i | .initReturns i _ | .storeFails i _ => i

variable {I A V B : Type} [DecidableEq I]

def World.setPhase (w : World I V B) (i : I) (p : Phase V B) : World I V B :=
  { w with phase := Function.update w.phase i p }

@[simp] theorem World.setPhase_store (w : World I V B) (i : I) (p : Phase V B) :
    (w.setPhase i p).store = w.store := rfl

@[simp] theorem World.setPhase_phase_self (w : World I V B) (i : I) (p : Phase V B) :
    (w.setPhase i p).phase i = p := by
  simp [World.setPhase]

theorem World.setPhase_phase_ne (w : World I V B) {i j : I} (p : Phase V B) (h : j ≠ i) :
    (w.setPhase i p).phase j = w.phase j := by
  simp [World.setPhase, h]

section Settled

variable (unmarshal : B → Except GoError V)

/-- An instance's phase once the key holds `x` for good: it has not read the key as
missing, every value it read is `x`, and a value it returned is `x` unmarshalled. -/
def PhaseSettled (x : B) : Phase V B → Prop
  | .get => True
  | .sleep src | .reget src => src = x
  | .init | .put _ => False
  | .returned r => ∀ v, r = .ok v → unmarshal x = .ok v

def Settled (x : B) (w : World I V B) : Prop :=
  w.store = some x ∧ ∀ i, PhaseSettled unmarshal x (w.phase i)

theorem settled_setPhase {x : B} {w : World I V B} (hw : Settled unmarshal x w) (i : I)
    {p : Phase V B} (hp : PhaseSettled unmarshal x p) : Settled unmarshal x (w.setPhase i p) := by
  refine ⟨hw.1, fun j => ?_⟩
  by_cases hj : j = i
  · subst hj
    simpa using hp
  · rw [w.setPhase_phase_ne p hj]
    exact hw.2 j

end Settled

section Step

variable [DecidableEq B]
variable (key : List Char) (marshal : A → Except GoError B) (unmarshal : B → Except GoError V)

def getOrInitStep : Event I A → World I V B → World I V B
  | .step i, w =>
      match w.phase i with
      | .get =>
          match w.store with
          | none => w.setPhase i .init
          | some src => w.setPhase i (.sleep src)
      | .sleep src => w.setPhase i (.reget src)
      | .reget src =>
          match w.store with
          -- the key vanished between the reads: start over
          | none => w.setPhase i .get
          | some src2 =>
              if src = src2 then w.setPhase i (.returned (unmarshal src)) else w.setPhase i .get
      | .put src => { w.setPhase i .get with store := some src }
      | .init | .returned _ => w
  | .initReturns i result, w =>
      match w.phase i, result with
      | .init, .error err =>
          w.setPhase i (.returned (.error (.wrapf "init config value for %q: %w" [.quoted key] err)))
      | .init, .ok val =>
          match marshal val with
          | .error err =>
              w.setPhase i
                (.returned (.error (.wrapf "marshal config value for %q: %w" [.quoted key] err)))
          | .ok src => w.setPhase i (.put src)
      | _, _ => w
  | .storeFails i err, w =>
      match w.phase i with
      | .get | .reget _ =>
          w.setPhase i (.returned (.error (.wrapf "get config value for %q: %w" [.quoted key] err)))
      | .put _ =>
          w.setPhase i (.returned (.error (.wrapf "marshal config value for %q: %w" [.quoted key] err)))
      | _ => w

def start (store : Option B) : World I V B := ⟨store, fun _ => .get⟩

theorem getOrInitStep_cases (ev : Event I A) (w : World I V B) :
    getOrInitStep key marshal unmarshal ev w = w ∨
      (∃ p, getOrInitStep key marshal unmarshal ev w = w.setPhase ev.actor p) ∨
      ∃ src, w.phase ev.actor = .put src ∧
        getOrInitStep key marshal unmarshal ev w = { w.setPhase ev.actor .get with store := some src } := by
  cases ev with
  | step i =>
      cases hp : w.phase i with
      | get => cases hs : w.store <;> simp [getOrInitStep, Event.actor, hp, hs]
      | sleep src => simp [getOrInitStep, Event.actor, hp]
      | reget src =>
          cases hs : w.store with
          | none => simp [getOrInitStep, Event.actor, hp, hs]
          | some src2 => by_cases h : src = src2 <;> simp [getOrInitStep, Event.actor, hp, hs, h]
      | init => simp [getOrInitStep, hp]
      | put src => simp [getOrInitStep, Event.actor, hp]
      | returned r => simp [getOrInitStep, hp]
  | initReturns i result =>
      cases hp : w.phase i <;> cases result
      case init.ok val =>
        cases hm : marshal val <;> simp [getOrInitStep, Event.actor, hp, hm]
      all_goals simp [getOrInitStep, Event.actor, hp]
  | storeFails i err =>
      cases hp : w.phase i <;> simp [getOrInitStep, Event.actor, hp]

theorem getOrInitStep_phase_ne (ev : Event I A) (w : World I V B) {j : I} (hj : j ≠ ev.actor) :
    (getOrInitStep key marshal unmarshal ev w).phase j = w.phase j := by
  rcases getOrInitStep_cases key marshal unmarshal ev w with h | ⟨p, h⟩ | ⟨src, -, h⟩ <;> rw [h]
  · exact w.setPhase_phase_ne p hj
  · exact w.setPhase_phase_ne .get hj

theorem getOrInitStep_store (ev : Event I A) (w : World I V B) :
    (getOrInitStep key marshal unmarshal ev w).store = w.store ∨
      ∃ src, w.phase ev.actor = .put src ∧
        (getOrInitStep key marshal unmarshal ev w).store = some src := by
  rcases getOrInitStep_cases key marshal unmarshal ev w with h | ⟨p, h⟩ | ⟨src, hput, h⟩
  · exact .inl (by rw [h])
  · exact .inl (by rw [h]; rfl)
  · exact .inr ⟨src, hput, by rw [h]⟩

theorem getOrInitStep_returned {w : World I V B} {i : I} {r : Except GoError V}
    (hi : w.phase i = .returned r) (ev : Event I A) :
    (getOrInitStep key marshal unmarshal ev w).phase i = .returned r := by
  by_cases hactor : i = ev.actor
  · cases ev with
    | step j =>
        simp only [Event.actor] at hactor
        subst hactor
        simp [getOrInitStep, hi]
    | initReturns j result =>
        simp only [Event.actor] at hactor
        subst hactor
        cases result <;> simp [getOrInitStep, hi]
    | storeFails j err =>
        simp only [Event.actor] at hactor
        subst hactor
        simp [getOrInitStep, hi]
  · rw [getOrInitStep_phase_ne key marshal unmarshal ev w hactor, hi]

/-- An instance returns a value only from its second read, when the key still holds
what the first read saw; the value is the unmarshalled content of the key at that
moment. -/
theorem getOrInitStep_returns_current {ev : Event I A} {w : World I V B} {i : I} {v : V}
    (hbefore : ∀ r, w.phase i ≠ .returned r)
    (hafter : (getOrInitStep key marshal unmarshal ev w).phase i = .returned (.ok v)) :
    ∃ src, w.phase i = .reget src ∧ w.store = some src ∧ unmarshal src = .ok v ∧
      (getOrInitStep key marshal unmarshal ev w).store = w.store := by
  by_cases hactor : i = ev.actor
  · cases ev with
    | step j =>
        simp only [Event.actor] at hactor
        subst hactor
        cases hp : w.phase i with
        | get => cases hs : w.store <;> simp [getOrInitStep, hp, hs] at hafter
        | sleep src => simp [getOrInitStep, hp] at hafter
        | reget src =>
            cases hs : w.store with
            | none => simp [getOrInitStep, hp, hs] at hafter
            | some src2 =>
                by_cases h : src = src2
                · subst h
                  simp only [getOrInitStep, hp, hs, if_true, World.setPhase_phase_self,
                    Phase.returned.injEq] at hafter
                  exact ⟨src, rfl, rfl, hafter, by simp [getOrInitStep, hp, hs]⟩
                · simp [getOrInitStep, hp, hs, h] at hafter
        | init => simp [getOrInitStep, hp] at hafter
        | put src => simp [getOrInitStep, hp] at hafter
        | returned r => exact absurd hp (hbefore r)
    | initReturns j result =>
        simp only [Event.actor] at hactor
        subst hactor
        cases hp : w.phase i <;> cases result
        case init.ok val =>
          cases hm : marshal val <;> simp [getOrInitStep, hp, hm] at hafter
        case returned.ok r _ => exact absurd hp (hbefore r)
        case returned.error r _ => exact absurd hp (hbefore r)
        all_goals simp [getOrInitStep, hp] at hafter
    | storeFails j err =>
        simp only [Event.actor] at hactor
        subst hactor
        cases hp : w.phase i
        case returned r => exact absurd hp (hbefore r)
        all_goals simp [getOrInitStep, hp] at hafter
  · rw [getOrInitStep_phase_ne key marshal unmarshal ev w hactor] at hafter
    exact absurd hafter (hbefore _)

theorem settled_step {x : B} {w : World I V B} (hw : Settled unmarshal x w) (ev : Event I A) :
    Settled unmarshal x (getOrInitStep key marshal unmarshal ev w) := by
  have hstore := hw.1
  cases ev with
  | step i =>
      have hi := hw.2 i
      cases hp : w.phase i with
      | get =>
          simp only [getOrInitStep, hp, hstore]
          exact settled_setPhase unmarshal hw i (show x = x from rfl)
      | sleep src =>
          rw [hp] at hi
          simp only [getOrInitStep, hp]
          exact settled_setPhase unmarshal hw i (show src = x from hi)
      | reget src =>
          rw [hp] at hi
          have hsrc : src = x := hi
          subst hsrc
          simp only [getOrInitStep, hp, hstore, if_true]
          exact settled_setPhase unmarshal hw i (fun _ h => h)
      | init => rw [hp] at hi; exact hi.elim
      | put src => rw [hp] at hi; exact hi.elim
      | returned r => simpa only [getOrInitStep, hp] using hw
  | initReturns i result =>
      have hi := hw.2 i
      cases hp : w.phase i
      case init => rw [hp] at hi; exact hi.elim
      all_goals cases result <;> simpa only [getOrInitStep, hp] using hw
  | storeFails i err =>
      have hi := hw.2 i
      cases hp : w.phase i
      case get | reget =>
        simp only [getOrInitStep, hp]
        exact settled_setPhase unmarshal hw i (fun _ h => by cases h)
      case put => rw [hp] at hi; exact hi.elim
      all_goals simpa only [getOrInitStep, hp] using hw

/-- Instances that start when the key already holds `x` never call `initFn` and never
write the key, and each of them that returns successfully returns `x` unmarshalled:
they all agree. -/
theorem getOrInit_run_of_initialized (x : B) (events : List (Event I A)) :
    (run (getOrInitStep key marshal unmarshal) events (start (some x))).store = some x ∧
      (∀ i, (run (getOrInitStep key marshal unmarshal) events (start (some x))).phase i ≠ .init) ∧
      ∀ i v, (run (getOrInitStep key marshal unmarshal) events (start (some x))).phase i =
        .returned (.ok v) → unmarshal x = .ok v := by
  have hrun := run_invariant (P := Settled unmarshal x)
    (fun ev w hw => settled_step key marshal unmarshal hw ev) events (start (some x))
    ⟨rfl, fun _ => trivial⟩
  obtain ⟨hstore, hphase⟩ := hrun
  refine ⟨hstore, fun i hi => ?_, fun i v hi => ?_⟩
  · have h := hphase i
    rw [hi] at h
    exact h
  · have h := hphase i
    rw [hi] at h
    exact h v rfl

end Step

/-- Two instances run `createTreeAndInit` for one alias against an empty store. Both
read the key as missing and create a tree; the first puts tree 1, reads it twice and
returns it, and only then does the second put tree 2, read it twice and return it. -/
theorem getOrInit_instances_disagree :
    ∃ w : World Bool Nat Nat,
      w = run (getOrInitStep (treeKey "maple2021".toList) (fun tree : Nat => .ok tree)
          (fun src : Nat => .ok src))
        [.step false, .step true, .initReturns false (.ok 1), .step false, .step false,
          .step false, .step false, .initReturns true (.ok 2), .step true, .step true,
          .step true, .step true]
        (start none) ∧
      w.phase false = .returned (.ok 1) ∧ w.phase true = .returned (.ok 2) ∧ w.store = some 2 :=
  ⟨_, rfl, rfl, rfl, rfl⟩

end Vct.StartCmd.GetOrInit
