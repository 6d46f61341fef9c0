import Mathlib.Data.List.Forall2
import MuLang.Session

/-!
# Computations that may fail

A check and a step both change a state and may fail with an error, and what they have changed before
they fail stays changed. How such a computation runs is said here once for any state: by equations
for its parts, by the conditions under which it succeeds, and by what it keeps however it ends.
-/
namespace MuLang

/-! ## Results -/

namespace Except

variable {ε α β : Type} {x : Except ε α} {b : β}

@[simp] theorem bind_eq_ok {k : α → Except ε β} :
    (x >>= k) = .ok b ↔ ∃ a, x = .ok a ∧ k a = .ok b := by
  cases x <;> simp [bind, Except.bind]

@[simp] theorem map_eq_ok {g : α → β} : (g <$> x) = .ok b ↔ ∃ a, x = .ok a ∧ g a = b := by
  cases x <;> simp [Functor.map, Except.map]

@[simp] theorem pure_eq_ok {a : β} : (pure a : Except ε β) = .ok b ↔ a = b := by
  change Except.ok a = Except.ok b ↔ a = b
  rw [Except.ok.injEq]

@[simp] theorem throw_ne_ok {error : ε} : (throw error : Except ε β) = .ok b ↔ False := by
  simp [throw, throwThe, MonadExceptOf.throw]

@[simp] theorem ite_eq_ok {c : Prop} [Decidable c] {y : Except ε β} {z : Except ε β} :
    (if c then y else z) = .ok b ↔ (c ∧ y = .ok b) ∨ (¬c ∧ z = .ok b) := by
  split <;> simp [*]

/-! ### Failure -/

variable {error : ε}

@[simp] theorem bind_eq_error {k : α → Except ε β} :
    (x >>= k) = .error error ↔ x = .error error ∨ ∃ a, x = .ok a ∧ k a = .error error := by
  cases x <;> simp [bind, Except.bind]

@[simp] theorem map_eq_error {g : α → β} : (g <$> x) = .error error ↔ x = .error error := by
  cases x <;> simp [Functor.map, Except.map]

@[simp] theorem pure_ne_error {a : β} : (pure a : Except ε β) = .error error ↔ False := by
  change Except.ok a = Except.error error ↔ False
  simp

@[simp] theorem throw_eq_error {other : ε} :
    (throw other : Except ε β) = .error error ↔ other = error := by
  simp [throw, throwThe, MonadExceptOf.throw]

@[simp] theorem ite_eq_error {c : Prop} [Decidable c] {y : Except ε β} {z : Except ε β} :
    (if c then y else z) = .error error ↔ (c ∧ y = .error error) ∨ (¬c ∧ z = .error error) := by
  split <;> simp [*]

/-! ### Lists -/

variable {f : α → Except ε β} {list : List α}

theorem mapM_eq_ok {results : List β} :
    list.mapM f = .ok results ↔ List.Forall₂ (fun a b => f a = .ok b) list results := by
  induction list generalizing results with
  | nil => cases results <;> simp
  | cons a rest ih =>
    simp only [List.mapM_cons, bind_eq_ok, pure_eq_ok, List.forall₂_cons_left_iff, ih]
    constructor
    · rintro ⟨b, hb, others, ho, rfl⟩
      exact ⟨b, others, hb, ho, rfl⟩
    · rintro ⟨b, others, hb, ho, rfl⟩
      exact ⟨b, hb, others, ho, rfl⟩

/-- Where a list fails, one of its members does. -/
theorem exists_of_mapM_eq_error (h : list.mapM f = .error error) : ∃ a ∈ list, f a = .error error := by
  induction list with
  | nil => cases h
  | cons a rest ih =>
    simp only [List.mapM_cons, bind_eq_error, pure_ne_error, and_false, exists_false, or_false] at h
    obtain h | ⟨_, -, h⟩ := h
    · exact ⟨a, List.mem_cons_self, h⟩
    · obtain ⟨other, hm, ho⟩ := ih h
      exact ⟨other, List.mem_cons_of_mem _ hm, ho⟩

@[simp] theorem mapError_ok {δ : Type} (g : ε → δ) (a : α) :
    (Except.ok a).mapError g = .ok a := rfl

@[simp] theorem mapError_error {δ : Type} (g : ε → δ) (error : ε) :
    (Except.error error : Except ε α).mapError g = .error (g error) := rfl

end Except

/-- A computation that changes a state of type `σ` and may fail. -/
abbrev Fallible (σ α : Type) := ExceptT Error (StateM σ) α

namespace Fallible

variable {σ α β γ : Type} {f : Fallible σ α} {k : α → Fallible σ β} {s s' : σ} {a b : α}

/-! ## Running -/

theorem pure_apply (a : α) (s : σ) : (pure a : Fallible σ α) s = (.ok a, s) := rfl

theorem throw_apply (error : Error) (s : σ) :
    (throw error : Fallible σ α) s = (.error error, s) := rfl

theorem get_apply (s : σ) : (get : Fallible σ σ) s = (.ok s, s) := rfl

theorem set_apply (t s : σ) : (set t : Fallible σ PUnit) s = (.ok ⟨⟩, t) := rfl

theorem modify_apply (change : σ → σ) (s : σ) :
    (modify change : Fallible σ PUnit) s = (.ok ⟨⟩, change s) := rfl

theorem ofExcept_apply (x : Except Error α) (s : σ) :
    (ofExcept x : Fallible σ α) s = (x, s) := by
  cases x <;> rfl

theorem bind_apply (f : Fallible σ α) (k : α → Fallible σ β) (s : σ) :
    (f >>= k) s = match f s with
      | (.ok a, t) => k a t
      | (.error error, t) => (.error error, t) := by
  change ExceptT.bind f k s = _
  simp only [ExceptT.bind, ExceptT.mk, bind, StateT.bind]
  cases f s with
  | mk result t => cases result <;> rfl

theorem bind_of_ok {t : σ} (h : f s = (.ok a, t)) : (f >>= k) s = k a t := by
  rw [bind_apply, h]

theorem bind_of_error {error : Error} {t : σ} (h : f s = (.error error, t)) :
    (f >>= k) s = (.error error, t) := by
  rw [bind_apply, h]

/-- Nothing follows a failure. -/
theorem throw_bind (error : Error) (k : α → Fallible σ β) : (throw error >>= k) = throw error :=
  rfl

theorem map_apply (g : α → β) (f : Fallible σ α) (s : σ) :
    (g <$> f) s = ((f s).1.map g, (f s).2) := by
  rw [map_eq_pure_bind, bind_apply]
  cases f s with
  | mk result t => cases result <;> rfl

theorem ite_apply (c : Prop) [Decidable c] (f g : Fallible σ α) (s : σ) :
    (if c then f else g) s = if c then f s else g s := by
  split <;> rfl

/-! ## Success -/

@[simp] theorem pure_eq_ok : (pure a : Fallible σ α) s = (.ok b, s') ↔ a = b ∧ s = s' := by
  rw [pure_apply, Prod.mk.injEq, Except.ok.injEq]

@[simp] theorem throw_ne_ok {error : Error} :
    (throw error : Fallible σ α) s = (.ok b, s') ↔ False := by
  rw [throw_apply, Prod.mk.injEq]
  simp

@[simp] theorem get_eq_ok {t : σ} :
    (get : Fallible σ σ) s = (.ok t, s') ↔ s = t ∧ s = s' := by
  rw [get_apply, Prod.mk.injEq, Except.ok.injEq]

@[simp] theorem set_eq_ok {t : σ} {u : PUnit} :
    (set t : Fallible σ PUnit) s = (.ok u, s') ↔ t = s' := by
  rw [set_apply, Prod.mk.injEq]
  simp

@[simp] theorem modify_eq_ok {change : σ → σ} {u : PUnit} :
    (modify change : Fallible σ PUnit) s = (.ok u, s') ↔ change s = s' := by
  rw [modify_apply, Prod.mk.injEq]
  simp

@[simp] theorem ofExcept_eq_ok {x : Except Error α} :
    (ofExcept x : Fallible σ α) s = (.ok a, s') ↔ x = .ok a ∧ s = s' := by
  rw [ofExcept_apply, Prod.mk.injEq]

@[simp] theorem bind_eq_ok {b : β} :
    (f >>= k) s = (.ok b, s') ↔ ∃ a t, f s = (.ok a, t) ∧ k a t = (.ok b, s') := by
  rw [bind_apply]
  rcases f s with ⟨error | a, t⟩
  · constructor
    · intro h
      cases h
    · rintro ⟨a, t', h, -⟩
      cases h
  · constructor
    · intro h
      exact ⟨a, t, rfl, h⟩
    · rintro ⟨a', t', h, hk⟩
      cases h
      exact hk

theorem ofExcept_bind_eq_ok {x : Except Error α} {b : β} :
    (ofExcept x >>= k) s = (.ok b, s') ↔ ∃ a, x = .ok a ∧ k a s = (.ok b, s') := by
  simp [and_assoc]

@[simp] theorem map_eq_ok {g : α → β} {b : β} :
    (g <$> f) s = (.ok b, s') ↔ ∃ a, f s = (.ok a, s') ∧ g a = b := by
  rw [map_eq_pure_bind, bind_eq_ok]
  constructor
  · rintro ⟨a, t, h, hk⟩
    obtain ⟨rfl, rfl⟩ := pure_eq_ok.1 hk
    exact ⟨a, h, rfl⟩
  · rintro ⟨a, h, rfl⟩
    exact ⟨a, s', h, rfl⟩

@[simp] theorem ite_eq_ok {c : Prop} [Decidable c] {f g : Fallible σ α} :
    (if c then f else g) s = (.ok a, s') ↔
      (c ∧ f s = (.ok a, s')) ∨ (¬c ∧ g s = (.ok a, s')) := by
  split <;> simp [*]

/-! ## What comes out -/

/-- Whatever state the computation starts from, what it results in satisfies a predicate. -/
def Yields (good : α → Prop) (f : Fallible σ α) : Prop := ∀ s a t, f s = (.ok a, t) → good a

namespace Yields

variable {good : α → Prop} {fine : β → Prop}

theorem pure (h : good a) : Yields good (pure a : Fallible σ α) := by
  intro s b t hr
  obtain ⟨rfl, -⟩ := pure_eq_ok.1 hr
  exact h

theorem throw {error : Error} : Yields good (throw error : Fallible σ α) :=
  fun _ _ _ h => (throw_ne_ok.1 h).elim

/-- What the first part results in may be used for the second one. -/
theorem bind (hf : Yields good f) (hk : ∀ a, good a → Yields fine (k a)) :
    Yields fine (f >>= k) := by
  intro s b t hr
  obtain ⟨a, between, ha, hb⟩ := bind_eq_ok.1 hr
  exact hk a (hf s a between ha) between b t hb

/-- It need not be used. -/
theorem after (hk : ∀ a, Yields fine (k a)) : Yields fine (f >>= k) :=
  .bind (fun _ _ _ _ => trivial : Yields (fun _ => True) f) fun a _ => hk a

theorem map {g : α → β} (h : Yields (fun a => fine (g a)) f) : Yields fine (g <$> f) := by
  intro s b t hr
  obtain ⟨a, ha, rfl⟩ := map_eq_ok.1 hr
  exact h s a t ha

theorem ite {c : Prop} [Decidable c] {g : Fallible σ α} (hf : c → Yields good f)
    (hg : ¬c → Yields good g) : Yields good (if c then f else g) := by
  split
  next h => exact hf h
  next h => exact hg h

end Yields

/-! ## What is kept -/

/-- However the computation ends, it leaves a view of the state as it was. -/
def Keeps (view : σ → γ) (f : Fallible σ α) : Prop := ∀ s, view (f s).2 = view s

namespace Keeps

variable {view : σ → γ}

@[simp] theorem pure (a : α) : Keeps view (pure a : Fallible σ α) := fun _ => rfl

@[simp] theorem throw (error : Error) : Keeps view (throw error : Fallible σ α) := fun _ => rfl

@[simp] theorem get : Keeps view (get : Fallible σ σ) := fun _ => rfl

@[simp] theorem ofExcept (x : Except Error α) : Keeps view (ofExcept x : Fallible σ α) := by
  intro s
  rw [ofExcept_apply]

theorem modify {change : σ → σ} (h : ∀ s, view (change s) = view s) :
    Keeps view (modify change : Fallible σ PUnit) := h

@[simp] theorem bind (hf : Keeps view f) (hk : ∀ a, Keeps view (k a)) :
    Keeps view (f >>= k) := by
  intro s
  have hs := hf s
  rw [bind_apply]
  rcases h : f s with ⟨error | a, t⟩
  · rwa [h] at hs
  · rw [h] at hs
    exact (hk a t).trans hs

@[simp] theorem map (g : α → β) (hf : Keeps view f) : Keeps view (g <$> f) := by
  intro s
  rw [map_apply]
  exact hf s

@[simp] theorem ite {c : Prop} [Decidable c] {f g : Fallible σ α} (hf : Keeps view f)
    (hg : Keeps view g) : Keeps view (if c then f else g) := by
  split
  · exact hf
  · exact hg

end Keeps

/-! ## What is related -/

/-- However the computation ends, the state that it leaves is related to the one that it has found,
if a condition holds there. -/
def RelatesIf (holds : σ → Prop) (R : σ → σ → Prop) (f : Fallible σ α) : Prop :=
  ∀ s, holds s → R s (f s).2

abbrev Relates (R : σ → σ → Prop) (f : Fallible σ α) : Prop := RelatesIf (fun _ => True) R f

namespace RelatesIf

variable {holds : σ → Prop} {R : σ → σ → Prop}

theorem of_relates (h : Relates R f) : RelatesIf holds R f := fun s _ => h s trivial

/-- What follows may rely on what the first part finds out. -/
theorem bind_after [Trans R R R] {p : α → σ → Prop} (hf : RelatesIf holds R f)
    (hp : ∀ s a t, holds s → f s = (.ok a, t) → p a t) (hk : ∀ a, RelatesIf (p a) R (k a)) :
    RelatesIf holds R (f >>= k) := by
  intro s h
  have hs := hf s h
  rw [bind_apply]
  rcases hr : f s with ⟨error | a, t⟩
  · rwa [hr] at hs
  · rw [hr] at hs
    exact Trans.trans hs (hk a t (hp s a t h hr))

theorem bind [Trans R R R] (hf : RelatesIf holds R f) (hk : ∀ a, Relates R (k a)) :
    RelatesIf holds R (f >>= k) :=
  bind_after hf (fun _ _ _ _ _ => trivial) hk

theorem map (g : α → β) (hf : RelatesIf holds R f) : RelatesIf holds R (g <$> f) := by
  intro s h
  rw [map_apply]
  exact hf s h

theorem ite {c : Prop} [Decidable c] {g : Fallible σ α} (hf : RelatesIf holds R f)
    (hg : RelatesIf holds R g) : RelatesIf holds R (if c then f else g) := by
  split
  · exact hf
  · exact hg

/-- What follows the reading of the state begins in the state that is read. -/
theorem get_bind {k : σ → Fallible σ α} (hk : ∀ s, holds s → R s (k s s).2) :
    RelatesIf holds R (get >>= k) := hk

/-- It need not matter that the state is the one that has been read. -/
theorem read_bind {k : σ → Fallible σ α} (hk : ∀ s, RelatesIf holds R (k s)) :
    RelatesIf holds R (get >>= k) := fun s h => hk s s h

theorem modify {change : σ → σ} (h : ∀ s, holds s → R s (change s)) :
    RelatesIf holds R (modify change : Fallible σ PUnit) := h

variable [Std.Refl R]

theorem pure (a : α) : RelatesIf holds R (pure a : Fallible σ α) := fun s _ => Std.Refl.refl s

theorem throw (error : Error) : RelatesIf holds R (throw error : Fallible σ α) :=
  fun s _ => Std.Refl.refl s

theorem get : RelatesIf holds R (get : Fallible σ σ) := fun s _ => Std.Refl.refl s

theorem ofExcept (x : Except Error α) : RelatesIf holds R (ofExcept x : Fallible σ α) := by
  intro s _
  rw [ofExcept_apply]
  exact Std.Refl.refl s

end RelatesIf

/-! ## What is not looked at -/

/-- The computation does not look at what a change of the state touches: it answers the same before
and after the change, and what it does can as well be done first. -/
def Commutes (change : σ → σ) (f : Fallible σ α) : Prop :=
  ∀ s, f (change s) = ((f s).1, change (f s).2)

namespace Commutes

variable {change : σ → σ}

@[simp] theorem pure (a : α) : Commutes change (pure a : Fallible σ α) := fun _ => rfl

@[simp] theorem throw (error : Error) : Commutes change (throw error : Fallible σ α) := fun _ => rfl

@[simp] theorem ofExcept (x : Except Error α) :
    Commutes change (ofExcept x : Fallible σ α) := by
  intro s
  rw [ofExcept_apply, ofExcept_apply]

theorem modify {act : σ → σ} (h : ∀ s, act (change s) = change (act s)) :
    Commutes change (modify act : Fallible σ PUnit) := by
  intro s
  rw [modify_apply, modify_apply, h]

theorem bind (hf : Commutes change f) (hk : ∀ a, Commutes change (k a)) :
    Commutes change (f >>= k) := by
  intro s
  have hs := hf s
  rw [bind_apply, bind_apply, hs]
  rcases f s with ⟨error | a, t⟩
  · rfl
  · exact hk a t

/-- Reading the state is harmless if what follows uses nothing of it that the change touches. -/
theorem get_bind {k : σ → Fallible σ α} (h : ∀ s, k (change s) = k s)
    (hk : ∀ s, Commutes change (k s)) : Commutes change (get >>= k) := by
  intro s
  rw [bind_of_ok (get_apply _), bind_of_ok (get_apply _), h]
  exact hk s s

theorem map (g : α → β) (hf : Commutes change f) : Commutes change (g <$> f) := by
  intro s
  rw [map_apply, map_apply, hf s]

end Commutes

end Fallible

end MuLang
