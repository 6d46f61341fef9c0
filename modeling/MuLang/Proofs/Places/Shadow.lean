import MuLang.Proofs.Fallible
import MuLang.Proofs.Places.Stripped

/-!
# Computations without places

What is read off stripped tokens is what is read off the tokens themselves, stripped afterwards.
This is said for results and for computations with a state, together with how it passes from the
parts of a computation to the whole.
-/
namespace MuLang

/-! ## Errors -/

namespace Error

/-- An error as if it stood nowhere. -/
def stripped (error : Error) : Error := { error with position := .nowhere }

@[simp] theorem isInternal_stripped (error : Error) :
    error.stripped.isInternal = error.isInternal := rfl

@[simp] theorem atToken_stripped (cause : Cause) (token : Token) :
    atToken cause token.stripped = (atToken cause token).stripped := rfl

end Error

namespace Log

def stripped (log : Log) : Log := { log with errors := log.errors.map Error.stripped }

@[simp] theorem isExhausted_stripped (log : Log) : log.stripped.isExhausted = log.isExhausted := by
  simp [isExhausted, stripped]

@[simp] theorem hasInternal_stripped (log : Log) : log.stripped.hasInternal = log.hasInternal := by
  simp only [hasInternal, stripped, List.any_map]
  rfl

@[simp] theorem isClosed_stripped (log : Log) : log.stripped.isClosed = log.isClosed := by
  rw [isClosed, hasInternal_stripped, isExhausted_stripped, isClosed]

@[simp] theorem report_stripped (log : Log) (error : Error) :
    log.stripped.report error.stripped = (log.report error).stripped := by
  simp only [report, isExhausted_stripped, Error.isInternal_stripped]
  split
  · rfl
  · simp [stripped]

end Log

/-! ## Results -/

namespace Except

variable {α β γ δ : Type} {view : α → β} {look : γ → δ}

/-- A result without places: `view` takes them from the value. -/
def stripped (view : α → β) : Except Error α → Except Error β
  | .ok a => .ok (view a)
  | .error error => .error error.stripped

@[simp] theorem stripped_ok (a : α) : stripped view (.ok a) = .ok (view a) := rfl

theorem stripped_bind {x : Except Error α} {next : α → Except Error γ} {other : β → Except Error δ}
    (h : ∀ a, other (view a) = stripped look (next a)) :
    stripped view x >>= other = stripped look (x >>= next) := by
  cases x with
  | error error => rfl
  | ok a => exact h a

theorem stripped_map {x : Except Error α} {change : α → γ} {other : β → δ}
    (h : ∀ a, other (view a) = look (change a)) :
    (stripped view x).map other = stripped look (x.map change) := by
  cases x with
  | error error => rfl
  | ok a => exact congrArg Except.ok (h a)

theorem stripped_ite {c : Prop} [Decidable c] {x x' : Except Error α} {y y' : Except Error β}
    (h : y = stripped view x) (h' : y' = stripped view x') :
    (if c then y else y') = stripped view (if c then x else x') := by
  split
  · exact h
  · exact h'

theorem stripped_mapM {f : α → Except Error γ} {g : β → Except Error δ}
    (h : ∀ a, g (view a) = stripped look (f a)) (list : List α) :
    (list.map view).mapM g = stripped (List.map look) (list.mapM f) := by
  induction list with
  | nil => rfl
  | cons a rest ih =>
    rw [List.map_cons, List.mapM_cons, List.mapM_cons, h, ih]
    exact stripped_bind fun _ => stripped_bind fun _ => rfl

end Except

/-! ## Computations with a state -/

namespace Fallible

variable {σ α β γ δ : Type} {strip : σ → σ} {view : α → β} {look : γ → δ}
  {f : Fallible σ α} {g : Fallible σ β}

/-- From a stripped state the second computation does what the first one does from the state itself,
but for places. -/
def Shadows (strip : σ → σ) (view : α → β) (f : Fallible σ α) (g : Fallible σ β) : Prop :=
  ∀ s, g (strip s) = (Except.stripped view (f s).1, strip (f s).2)

namespace Shadows

theorem pure (a : α) :
    Shadows strip view (pure a : Fallible σ α) (pure (view a) : Fallible σ β) := fun _ => rfl

theorem throw (error : Error) :
    Shadows strip view (throw error : Fallible σ α) (throw error.stripped : Fallible σ β) :=
  fun _ => rfl

theorem ofExcept {x : Except Error α} {y : Except Error β} (h : y = Except.stripped view x) :
    Shadows strip view (ofExcept x : Fallible σ α) (ofExcept y : Fallible σ β) := by
  intro s
  rw [ofExcept_apply, ofExcept_apply, h]

theorem modify {change other : σ → σ} (h : ∀ s, other (strip s) = strip (change s)) :
    Shadows strip (fun _ => ⟨⟩) (modify change : Fallible σ PUnit)
      (modify other : Fallible σ PUnit) := by
  intro s
  rw [modify_apply, modify_apply, h]
  rfl

theorem bind {next : α → Fallible σ γ} {other : β → Fallible σ δ} (h : Shadows strip view f g)
    (hn : ∀ a, Shadows strip look (next a) (other (view a))) :
    Shadows strip look (f >>= next) (g >>= other) := by
  intro s
  rw [bind_apply, bind_apply, h s]
  rcases f s with ⟨error | a, t⟩
  · rfl
  · exact hn a t

theorem map {change : α → γ} {other : β → δ} (h : Shadows strip view f g)
    (hc : ∀ a, other (view a) = look (change a)) :
    Shadows strip look (change <$> f) (other <$> g) := by
  intro s
  rw [map_apply, map_apply, h s]
  rcases f s with ⟨error | a, t⟩
  · rfl
  · exact Prod.ext (congrArg Except.ok (hc a)) rfl

theorem get_bind {next : σ → Fallible σ γ} {other : σ → Fallible σ δ}
    (h : ∀ s, Shadows strip look (next s) (other (strip s))) :
    Shadows strip look (get >>= next) (get >>= other) := by
  intro s
  rw [bind_of_ok (get_apply _), bind_of_ok (get_apply _)]
  exact h s s

theorem set {s t : σ} (h : t = strip s) :
    Shadows strip (fun _ => ⟨⟩) (set s : Fallible σ PUnit) (set t : Fallible σ PUnit) := by
  subst h
  exact fun _ => rfl

theorem ite_of_iff {c c' : Prop} [Decidable c] [Decidable c'] (hc : c ↔ c') {f' : Fallible σ α}
    {g' : Fallible σ β} (h : Shadows strip view f g) (h' : Shadows strip view f' g') :
    Shadows strip view (if c then f else f') (if c' then g else g') := by
  by_cases hp : c
  · rw [if_pos hp, if_pos (hc.1 hp)]
    exact h
  · rw [if_neg hp, if_neg (hp ∘ hc.2)]
    exact h'

theorem ite {c : Prop} [Decidable c] {f' : Fallible σ α} {g' : Fallible σ β}
    (h : Shadows strip view f g) (h' : Shadows strip view f' g') :
    Shadows strip view (if c then f else f') (if c then g else g') :=
  ite_of_iff Iff.rfl h h'

end Shadows

end Fallible

end MuLang
