import Mathlib.Data.List.Basic

namespace Vct.Lib.Except

variable {ε ε' α β : Type}

@[simp] theorem bind_eq_ok_iff {x : Except ε α} {f : α → Except ε β} {b : β} :
    x >>= f = .ok b ↔ ∃ a, x = .ok a ∧ f a = .ok b := by
  cases x with
  | error e => simp [bind, Except.bind]
  | ok a => simp [bind, Except.bind]

theorem bind_eq_error_iff {x : Except ε α} {f : α → Except ε β} {e : ε} :
    x >>= f = .error e ↔ x = .error e ∨ ∃ a, x = .ok a ∧ f a = .error e := by
  cases x with
  | error e' => simp [bind, Except.bind]
  | ok a => simp [bind, Except.bind]

theorem map_throw (f : α → β) (e : ε) : (f <$> (throw e : Except ε α)) = throw e := rfl

@[simp] theorem ok_bind (a : α) (f : α → Except ε β) : (Except.ok a >>= f) = f a := rfl

@[simp] theorem throw_bind (e : ε) (f : α → Except ε β) : ((throw e : Except ε α) >>= f) = throw e :=
  rfl

@[simp] theorem mapError_eq_ok_iff {x : Except ε α} {f : ε → ε'} {a : α} :
    x.mapError f = .ok a ↔ x = .ok a := by
  cases x <;> simp [Except.mapError]

theorem mapError_eq_error_iff {x : Except ε α} {f : ε → ε'} {e' : ε'} :
    x.mapError f = .error e' ↔ ∃ e, x = .error e ∧ f e = e' := by
  cases x <;> simp [Except.mapError]

/-- An error survives `map`; a concrete failure is decided on the mapped computation,
whose result type may lack decidable equality. -/
theorem eq_error_of_map_eq_error {f : α → β} {x : Except ε α} {e : ε}
    (h : x.map f = .error e) : x = .error e := by
  cases x with
  | error e' => simpa [Except.map] using h
  | ok a => simp [Except.map] at h

theorem map_eq_ok_iff {f : α → β} {x : Except ε α} {b : β} :
    x.map f = .ok b ↔ ∃ a, x = .ok a ∧ f a = b := by
  cases x <;> simp [Except.map]

@[simp] theorem throw_ne_ok {e : ε} {a : α} : (throw e : Except ε α) ≠ .ok a := by
  simp [throw, throwThe, MonadExceptOf.throw]

@[simp] theorem pure_eq_ok_iff {a b : α} : (pure a : Except ε α) = .ok b ↔ a = b := by
  simp [pure, Except.pure]

theorem foldlM_eq_ok_foldl {f : β → α → Except ε β} {g : β → α → β} {l : List α}
    (hstep : ∀ acc x, x ∈ l → f acc x = .ok (g acc x)) (init : β) :
    l.foldlM f init = .ok (l.foldl g init) := by
  induction l generalizing init with
  | nil => rfl
  | cons x l ih =>
      rw [List.foldlM_cons, List.foldl_cons, hstep init x List.mem_cons_self]
      exact ih (fun acc y hy => hstep acc y (List.mem_cons_of_mem x hy)) (g init x)

/-- A monadic fold that succeeds as a pure fold does while an invariant of the accumulator
holds, and the pure step keeps it. -/
theorem foldlM_eq_ok_foldl_of_invariant {f : β → α → Except ε β} {g : β → α → β} {l : List α}
    {P : β → Prop} (hstep : ∀ acc x, x ∈ l → P acc → f acc x = .ok (g acc x) ∧ P (g acc x)) :
    ∀ {init : β}, P init → l.foldlM f init = .ok (l.foldl g init) := by
  induction l with
  | nil => exact fun _ => rfl
  | cons x l ih =>
      intro init hinit
      obtain ⟨hx, hP⟩ := hstep init x List.mem_cons_self hinit
      rw [List.foldlM_cons, List.foldl_cons, hx]
      exact ih (fun acc y hy => hstep acc y (List.mem_cons_of_mem x hy)) hP

theorem mapM_eq_ok_map {f : α → Except ε β} {g : α → β} {l : List α}
    (hstep : ∀ x, x ∈ l → f x = .ok (g x)) : l.mapM f = .ok (l.map g) := by
  induction l with
  | nil => rfl
  | cons x l ih =>
      rw [List.mapM_cons, hstep x List.mem_cons_self,
        ih (fun y hy => hstep y (List.mem_cons_of_mem x hy))]
      rfl

theorem exists_of_mem_mapM_eq_ok {f : α → Except ε β} {l : List α} {bs : List β}
    (h : l.mapM f = .ok bs) {b : β} (hb : b ∈ bs) : ∃ a ∈ l, f a = .ok b := by
  induction l generalizing bs with
  | nil =>
      cases h
      cases hb
  | cons x l ih =>
      rw [List.mapM_cons, bind_eq_ok_iff] at h
      obtain ⟨b₀, hb₀, h⟩ := h
      rw [bind_eq_ok_iff] at h
      obtain ⟨bs', hbs', h⟩ := h
      rw [pure_eq_ok_iff] at h
      subst h
      rcases List.mem_cons.mp hb with rfl | hb
      · exact ⟨x, List.mem_cons_self, hb₀⟩
      · obtain ⟨a, ha, hfa⟩ := ih hbs' hb
        exact ⟨a, List.mem_cons_of_mem x ha, hfa⟩

theorem exists_mem_of_mapM_eq_ok {f : α → Except ε β} {l : List α} {bs : List β}
    (h : l.mapM f = .ok bs) {a : α} (ha : a ∈ l) : ∃ b ∈ bs, f a = .ok b := by
  induction l generalizing bs with
  | nil => cases ha
  | cons x l ih =>
      rw [List.mapM_cons, bind_eq_ok_iff] at h
      obtain ⟨b₀, hb₀, h⟩ := h
      rw [bind_eq_ok_iff] at h
      obtain ⟨bs', hbs', h⟩ := h
      rw [pure_eq_ok_iff] at h
      subst h
      rcases List.mem_cons.mp ha with rfl | ha
      · exact ⟨b₀, List.mem_cons_self, hb₀⟩
      · obtain ⟨b, hb, hfb⟩ := ih hbs' ha
        exact ⟨b, List.mem_cons_of_mem b₀ hb, hfb⟩

theorem exists_mapM_eq_ok {f : α → Except ε β} {l : List α}
    (hstep : ∀ a, a ∈ l → ∃ b, f a = .ok b) : ∃ bs, l.mapM f = .ok bs := by
  induction l with
  | nil => exact ⟨[], rfl⟩
  | cons x l ih =>
      obtain ⟨b, hb⟩ := hstep x List.mem_cons_self
      obtain ⟨bs, hbs⟩ := ih (fun a ha => hstep a (List.mem_cons_of_mem x ha))
      refine ⟨b :: bs, ?_⟩
      rw [List.mapM_cons, hb, hbs]
      rfl

theorem eq_map_of_mapM_eq_ok {f : α → Except ε β} {g : α → β} {l : List α} {bs : List β}
    (hf : ∀ a b, f a = .ok b → b = g a) (h : l.mapM f = .ok bs) : bs = l.map g := by
  induction l generalizing bs with
  | nil =>
      cases h
      rfl
  | cons x l ih =>
      rw [List.mapM_cons, bind_eq_ok_iff] at h
      obtain ⟨b₀, hb₀, h⟩ := h
      rw [bind_eq_ok_iff] at h
      obtain ⟨bs', hbs', h⟩ := h
      rw [pure_eq_ok_iff] at h
      subst h
      rw [List.map_cons, hf x b₀ hb₀, ih hbs']

theorem map_eq_map_of_mapM_eq_ok {γ : Type} {f : α → Except ε β} {g : β → γ} {k : α → γ}
    {l : List α} {bs : List β} (hf : ∀ a b, a ∈ l → f a = .ok b → g b = k a)
    (h : l.mapM f = .ok bs) : bs.map g = l.map k := by
  induction l generalizing bs with
  | nil =>
      cases h
      rfl
  | cons x l ih =>
      rw [List.mapM_cons, bind_eq_ok_iff] at h
      obtain ⟨b₀, hb₀, h⟩ := h
      rw [bind_eq_ok_iff] at h
      obtain ⟨bs', hbs', h⟩ := h
      rw [pure_eq_ok_iff] at h
      subst h
      rw [List.map_cons, List.map_cons, hf x b₀ List.mem_cons_self hb₀,
        ih (fun a b ha => hf a b (List.mem_cons_of_mem x ha)) hbs']

theorem foldlM_invariant {f : β → α → Except ε β} {l : List α} {P : β → Prop}
    (hstep : ∀ acc x acc', x ∈ l → P acc → f acc x = .ok acc' → P acc') :
    ∀ {init r : β}, l.foldlM f init = .ok r → P init → P r := by
  induction l with
  | nil =>
      intro init r h hinit
      cases h
      exact hinit
  | cons x l ih =>
      intro init r h hinit
      rw [List.foldlM_cons, bind_eq_ok_iff] at h
      obtain ⟨acc, hacc, h⟩ := h
      exact ih (fun acc y acc' hy => hstep acc y acc' (List.mem_cons_of_mem x hy)) h
        (hstep init x acc List.mem_cons_self hinit hacc)

section Simulation

/-- One step of a simulation between two programs of the same shape: a common first
computation, and continuations that agree up to `f`. -/
theorem bind_eq_map_bind {γ : Type} {x : Except ε α} {g : α → Except ε γ} {h : α → Except ε β}
    {f : β → γ} (hk : ∀ a, g a = (h a).map f) : x >>= g = (x >>= h).map f := by
  cases x with
  | error e => rfl
  | ok a => exact hk a

/-- The same step where the first computation of one program is that of the other, mapped. -/
theorem map_bind_eq_map_bind {α' γ : Type} {x : Except ε α} {f₁ : α → α'} {g : α' → Except ε γ}
    {h : α → Except ε β} {f : β → γ} (hk : ∀ a, g (f₁ a) = (h a).map f) :
    x.map f₁ >>= g = (x >>= h).map f := by
  cases x with
  | error e => rfl
  | ok a => exact hk a

end Simulation

end Vct.Lib.Except
