import MuLang.Proofs.Guarded.Access

/-!
# Guarded computations

Checks and steps whose accesses are guarded. Such a computation agrees with the one without guards at
a state if all of its accesses from there are in range, and then it does the same. What is known of
the state is carried along as an invariant.
-/
namespace MuLang

/-- A guarded check: it may fail with an error of the program. -/
abbrev Checked := ExceptT Error Guarded

/-- A guarded computation that changes a state and may fail with an error of the program. -/
abbrev Watched (σ : Type) := ExceptT Error (StateT σ Guarded)

/-! Nothing follows an error. -/

theorem Except.throw_bind {α β : Type} (error : Error) (k : α → Except Error β) :
    (throw error >>= k) = throw error := rfl

theorem Checked.throw_bind {α β : Type} (error : Error) (later : α → Checked β) :
    (throw error >>= later) = throw error := rfl

theorem Watched.throw_bind {σ α β : Type} (error : Error) (later : α → Watched σ β) :
    (throw error >>= later) = throw error := rfl

namespace Checked

open Guarded (between between_one)

variable {α β : Type} {g : Checked α} {x : Except Error α} {later : α → Checked β}
  {k : α → Except Error β}

/-- Looks something up. -/
def access (x : Guarded α) : Checked α := (Except.ok <$> x : Guarded (Except Error α))

/-- A check that accesses nothing. -/
def plain (x : Except Error α) : Checked α := (.ok x : Guarded (Except Error α))

/-- All accesses are in range, and the answer is that of the check without guards. -/
def Agrees (g : Checked α) (x : Except Error α) : Prop := g.run = .ok x

namespace Agrees

theorem pure (a : α) : Agrees (pure a) (pure a) := rfl

theorem throw (error : Error) : Agrees (throw error : Checked α) (throw error) := rfl

theorem plain (x : Except Error α) : Agrees (plain x) x := rfl

theorem access {x : Guarded α} {a : α} (h : x = .ok a) : Agrees (access x) (.ok a) := by
  rw [h]
  rfl

theorem tokenAt {tokens : List Token} {index : Nat} (h : index < tokens.length) :
    Agrees (Checked.access (Guarded.token tokens index)) (Token.tokenAt tokens index) := by
  have hget := List.getElem?_eq_getElem h
  have hmodel : Token.tokenAt tokens index = .ok tokens[index] := by rw [Token.tokenAt, hget]
  rw [hmodel]
  exact access (Guarded.token_of_getElem? hget)

theorem bind (hg : Agrees g x) (hk : ∀ a, x = .ok a → Agrees (later a) (k a)) :
    Agrees (g >>= later) (x >>= k) := by
  cases x with
  | error error =>
    change ExceptT.bind g later = _
    rw [ExceptT.bind, ExceptT.mk, show g = .ok (.error error) from hg]
    rfl
  | ok a =>
    change ExceptT.bind g later = _
    rw [ExceptT.bind, ExceptT.mk, show g = .ok (.ok a) from hg]
    exact hk a rfl

theorem map (hg : Agrees g x) (act : α → β) :
    Agrees (do let a ← g; return act a) (x.map act) := by
  have hx : x.map act = x >>= fun a => .ok (act a) := by cases x <;> rfl
  rw [hx]
  exact bind hg fun a _ => pure (act a)

theorem fmap (hg : Agrees g x) (act : α → β) : Agrees (act <$> g) (act <$> x) := by
  rw [map_eq_pure_bind, map_eq_pure_bind]
  exact bind hg fun a _ => pure (act a)

theorem valueFrom {tokens : List Token} {index : Nat} (h : index < tokens.length) :
    Agrees (Checked.access (between tokens index 1)) (Token.valueFrom tokens index) := by
  rw [Token.valueFrom, if_pos h]
  exact access (between_one h)

/-- What is looked up is known beforehand. -/
theorem access_bind {x : Guarded α} {a : α} {y : Except Error β} (h : x = .ok a)
    (hk : Agrees (later a) y) : Agrees (Checked.access x >>= later) y :=
  bind (access h) (k := fun _ => y) (fun b hb => by obtain rfl := Except.ok.inj hb; exact hk)

theorem ite {c : Prop} [Decidable c] {other : Checked α} {y : Except Error α}
    (hg : c → Agrees g x) (ho : ¬c → Agrees other y) :
    Agrees (if c then g else other) (if c then x else y) := by
  split
  next hc => exact hg hc
  next hc => exact ho hc

end Agrees

end Checked

namespace Watched

variable {σ α β : Type}

/-- Looks something up. -/
def access (x : Guarded α) : Watched σ α := fun s => (fun a => (.ok a, s)) <$> x

/-- A check that does not change the state. -/
def check (x : Checked α) : Watched σ α := fun s => (fun a => (a, s)) <$> x.run

/-- A computation that accesses nothing. -/
def plain (f : Fallible σ α) : Watched σ α := fun s => .ok (f s)

theorem bind_of_ok {g : Watched σ α} {later : α → Watched σ β} {a : α} {s t : σ}
    (h : g s = .ok (.ok a, t)) : (g >>= later) s = later a t := by
  change ExceptT.bind g later s = _
  simp only [ExceptT.bind, ExceptT.mk, Bind.bind, StateT.bind, h, Except.bind]
  rfl

theorem bind_of_error {g : Watched σ α} {later : α → Watched σ β} {error : Error} {s t : σ}
    (h : g s = .ok (.error error, t)) : (g >>= later) s = .ok (.error error, t) := by
  change ExceptT.bind g later s = _
  simp only [ExceptT.bind, ExceptT.mk, Bind.bind, StateT.bind, h, Except.bind]
  rfl

/-- From a state all accesses are in range and what happens is what happens without guards; however
the computation ends, it leaves a state with an invariant. -/
structure Agrees (inv : σ → Prop) (g : Watched σ α) (f : Fallible σ α) (s : σ) : Prop where
  run_eq : g s = .ok (f s)
  kept : inv (f s).2

namespace Agrees

variable {inv : σ → Prop} {g : Watched σ α} {f : Fallible σ α} {later : α → Watched σ β}
  {k : α → Fallible σ β} {s : σ}

theorem plain (h : inv (f s).2) : Agrees inv (plain f) f s := ⟨rfl, h⟩

theorem pure (h : inv s) (a : α) : Agrees inv (pure a) (pure a) s := ⟨rfl, h⟩

theorem answer (h : inv s) (x : Except Error α) :
    Agrees inv (Watched.plain (ofExcept x)) (ofExcept x) s :=
  plain (by rwa [Fallible.ofExcept_apply])

theorem throw (h : inv s) (error : Error) : Agrees inv (throw error : Watched σ α) (throw error) s :=
  ⟨rfl, h⟩

theorem modify {change : σ → σ} (h : inv (change s)) :
    Agrees inv (modify change : Watched σ PUnit) (modify change) s := ⟨rfl, h⟩

theorem set {t : σ} (h : inv t) : Agrees inv (set t : Watched σ PUnit) (set t) s := ⟨rfl, h⟩

theorem check {x : Checked α} {y : Except Error α} (h : inv s) (hx : x.Agrees y) :
    Agrees inv (check x) (ofExcept y) s := by
  refine ⟨?_, by rwa [Fallible.ofExcept_apply]⟩
  rw [Fallible.ofExcept_apply, Watched.check, show x.run = .ok y from hx]
  rfl

theorem access {x : Guarded α} {y : Except Error α} {a : α} (h : inv s) (hx : x = .ok a)
    (hy : y = .ok a) : Agrees inv (access x) (ofExcept y) s := by
  rw [hx, hy]
  exact ⟨rfl, h⟩

theorem bind (hf : Agrees inv g f s)
    (hk : ∀ a t, f s = (.ok a, t) → inv t → Agrees inv (later a) (k a) t) :
    Agrees inv (g >>= later) (f >>= k) s := by
  obtain ⟨hrun, hkept⟩ := hf
  rcases hfs : f s with ⟨error | a, t⟩
  · rw [hfs] at hrun hkept
    have herror := Fallible.bind_of_error (k := k) hfs
    exact ⟨(bind_of_error hrun).trans (congrArg _ herror.symm), by rwa [herror]⟩
  · rw [hfs] at hrun hkept
    have hok := Fallible.bind_of_ok (k := k) hfs
    obtain ⟨hagrees, hinv⟩ := hk a t hfs hkept
    exact ⟨((bind_of_ok hrun).trans hagrees).trans (congrArg _ hok.symm), by rwa [hok]⟩

theorem tokenAt {tokens : List Token} {index : Nat} (h : inv s) (hi : index < tokens.length) :
    Agrees inv (Watched.access (Guarded.token tokens index)) (ofExcept (Token.tokenAt tokens index))
      s := by
  have hget := List.getElem?_eq_getElem hi
  exact access h (Guarded.token_of_getElem? hget) (by rw [Token.tokenAt, hget])

theorem last {tokens : List Token} (h : inv s) (hn : tokens ≠ []) :
    Agrees inv (Watched.access (Guarded.last tokens))
      (ofExcept (Token.tokenAt tokens (tokens.length - 1))) s := by
  have hlast := List.getLast?_eq_some_getLast hn
  exact access h (Guarded.last_of_getLast? hlast)
    (by rw [Token.tokenAt, ← List.getLast?_eq_getElem?, hlast])

/-- What is looked up is known beforehand. -/
theorem access_bind {x : Guarded α} {a : α} {f : Fallible σ β} (hx : x = .ok a)
    (hk : Agrees inv (later a) f s) : Agrees inv (Watched.access x >>= later) f s := by
  rw [hx]
  exact ⟨hk.run_eq, hk.kept⟩

/-- A look at the state that tells something known. -/
theorem look_bind {look : Watched σ α} {a : α} {f : Fallible σ β} (hl : look s = .ok (.ok a, s))
    (hk : Agrees inv (later a) f s) : Agrees inv (look >>= later) f s :=
  ⟨(bind_of_ok hl).trans hk.run_eq, hk.kept⟩

theorem get_bind {later : σ → Watched σ β} {k : σ → Fallible σ β}
    (hk : Agrees inv (later s) (k s) s) : Agrees inv (get >>= later) (get >>= k) s :=
  ⟨hk.run_eq, hk.kept⟩

/-- The guarded computation looks at the state once more. -/
theorem read_bind {later : σ → Watched σ β} {f : Fallible σ β} (hk : Agrees inv (later s) f s) :
    Agrees inv (get >>= later) f s := ⟨hk.run_eq, hk.kept⟩

/-- The computation without guards looks at the state once more. -/
theorem reads {k : σ → Fallible σ α} (hk : Agrees inv g (k s) s) : Agrees inv g (get >>= k) s :=
  ⟨hk.run_eq, hk.kept⟩

theorem ite {c : Prop} [Decidable c] {other : Watched σ α} {f' : Fallible σ α}
    (hf : c → Agrees inv g f s) (ho : ¬c → Agrees inv other f' s) :
    Agrees inv (if c then g else other) (if c then f else f') s := by
  split
  next hc => exact hf hc
  next hc => exact ho hc

end Agrees

end Watched

end MuLang
