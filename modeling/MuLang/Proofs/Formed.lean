import MuLang.Proofs.Turns

/-!
# The tokens of a term

A term keeps the tokens that it was made of, each of the kind that its part of the term asks for: a
literal, a name, an operator, or the name of a type.
-/
namespace MuLang

namespace Term

mutual

/-- The tokens of a term are of the kinds that its parts ask for. -/
def Formed : Term → Prop
  | .literal kind value => value.kind = .literal kind
  | .read identifier => identifier.kind = .identifier
  | .binary left op operator right => operator.kind = .binary op ∧ left.Formed ∧ right.Formed
  | .unary op operator right => operator.kind.unary? = some op ∧ right.Formed
  | .cast type target value => target.kind.typeName? = some type ∧ value.Formed
  | .assign assignee operator value =>
    assignee.kind = .identifier ∧ operator.kind.isAssignment ∧ value.Formed
  | .call callee arguments => callee.kind = .identifier ∧ AllFormed arguments
  | .broken parts _ => AllFormed parts

/-- The tokens of some terms are of the kinds that their parts ask for. -/
def AllFormed : List Term → Prop
  | [] => True
  | term :: rest => term.Formed ∧ AllFormed rest

end

theorem allFormed_append {terms more : List Term} :
    AllFormed (terms ++ more) ↔ AllFormed terms ∧ AllFormed more := by
  induction terms with
  | nil => simp [AllFormed]
  | cons term rest ih => simp [AllFormed, ih, and_assoc]

end Term

namespace Pending

/-- The tokens of what is begun are of the kinds that it asks for. -/
def Formed : Pending → Prop
  | .group => True
  | .call callee arguments => callee.kind = .identifier ∧ Term.AllFormed arguments
  | .assign assignee operator => assignee.kind = .identifier ∧ operator.kind.isAssignment
  | .unary op operator => operator.kind.unary? = some op
  | .cast type target => target.kind.typeName? = some type
  | .binary left op operator => operator.kind = .binary op ∧ left.Formed

/-- The tokens of all that waits on a stack are of the kinds that it asks for. -/
abbrev StackFormed (stack : List Pending) : Prop := ∀ waiting ∈ stack, waiting.Formed

variable {waiting : Pending} {stack : List Pending} {term : Term}

theorem Formed.fill (h : waiting.Formed) (ht : term.Formed) : (waiting.fill term).Formed := by
  cases waiting with
  | group => exact ht
  | call => exact ⟨h.1, Term.allFormed_append.2 ⟨h.2, ht, trivial⟩⟩
  | assign => exact ⟨h.1, h.2, ht⟩
  | unary => exact ⟨h, ht⟩
  | cast => exact ⟨h, ht⟩
  | binary => exact ⟨h.1, h.2, ht⟩

theorem formed_fillAll (h : StackFormed stack) (ht : term.Formed) :
    (fillAll stack term).Formed := by
  induction stack generalizing term with
  | nil => exact ht
  | cons waiting rest ih =>
    obtain ⟨hw, hr⟩ := List.forall_mem_cons.1 h
    exact ih hr (hw.fill ht)

theorem formed_of_settle {power : Nat} {waiting : List Pending} {inner : Term}
    (hw : settle power stack term = (waiting, inner)) (h : StackFormed stack) (ht : term.Formed) :
    StackFormed waiting ∧ inner.Formed := by
  obtain ⟨done, rfl, -, -, rfl⟩ := settle_eq_iff.1 hw
  obtain ⟨hdone, hwaiting⟩ := List.forall_mem_append.1 h
  exact ⟨hwaiting, formed_fillAll hdone ht⟩

end Pending

namespace Term

theorem formed_abandon {stack : List Pending} (h : Pending.StackFormed stack) (parts : List Term)
    (hp : AllFormed parts) (cause : Cause) (token : Token) :
    (abandon stack parts cause token).Formed :=
  Pending.formed_fillAll h hp

theorem Complete.formed {spelled rest : List Token} {term : Term} (h : Complete spelled term rest) :
    term.Formed := by
  cases h with
  | literal hk => exact hk
  | read hk => exact hk
  | call hk => exact ⟨hk, trivial⟩

theorem Begins.formed {spelled rest : List Token} {opened : Pending}
    (h : Begins spelled opened rest) : opened.Formed := by
  cases h with
  | call hk => exact ⟨hk, trivial⟩
  | assign hk ha => exact ⟨hk, ha⟩
  | cast _ ht => exact ht
  | group => exact trivial
  | unary hu => exact hu

open Pending (StackFormed) in
/-- The reader makes each part of a term of tokens of the kinds that it asks for. -/
theorem formed_operand (stop : Token) :
    (∀ (stack : List Pending) (tokens : List Token), StackFormed stack →
      (operand stop stack tokens).Formed) ∧
    ∀ (stack : List Pending) (term : Term) (tokens : List Token), StackFormed stack → term.Formed →
      (afterOperand stop stack term tokens).Formed := by
  apply reading_induct stop
  case complete =>
    intro stack spelled term rest hc ih h
    rw [operand_complete hc]
    exact ih h hc.formed
  case begins =>
    intro stack spelled opened rest hb ih h
    rw [operand_begins hb]
    exact ih (List.forall_mem_cons.2 ⟨hb.formed, h⟩)
  case missing =>
    intro stack tokens cause token hm h
    rw [operand_missing hm]
    exact formed_abandon h [] trivial cause token
  case ends =>
    intro stack term whole hw h ht
    rw [afterOperand_ends hw]
    exact (Pending.formed_of_settle hw h ht).2
  case binary =>
    intro stack term token rest op waiting left hk hw ih h ht
    obtain ⟨hwaiting, hleft⟩ := Pending.formed_of_settle hw h ht
    rw [afterOperand_binary hk hw]
    exact ih (List.forall_mem_cons.2 ⟨⟨hk, hleft⟩, hwaiting⟩)
  case closes =>
    intro stack term token rest opened waiting inner hk hw ih h ht
    obtain ⟨hstack, hinner⟩ := Pending.formed_of_settle hw h ht
    obtain ⟨hopened, hwaiting⟩ := List.forall_mem_cons.1 hstack
    rw [afterOperand_closes hk hw]
    exact ih hwaiting (hopened.fill hinner)
  case comma =>
    intro stack term token rest callee arguments waiting last hk hw ih h ht
    obtain ⟨hstack, hlast⟩ := Pending.formed_of_settle hw h ht
    obtain ⟨hcall, hwaiting⟩ := List.forall_mem_cons.1 hstack
    have hnext : (Pending.call callee (arguments ++ [last])).Formed :=
      ⟨hcall.1, allFormed_append.2 ⟨hcall.2, hlast, trivial⟩⟩
    rw [afterOperand_comma hk hw]
    exact ih (List.forall_mem_cons.2 ⟨hnext, hwaiting⟩)
  case stuck =>
    intro stack term tokens waiting part cause token hw hf h ht
    obtain ⟨hwaiting, hpart⟩ := Pending.formed_of_settle hw h ht
    rw [afterOperand_stuck hw hf]
    exact formed_abandon hwaiting [part] ⟨hpart, trivial⟩ cause token

theorem formed_ofTokens (tokens : List Token) (context : Token) :
    (ofTokens tokens context).Formed := by
  unfold ofTokens
  split
  · exact trivial
  · exact (formed_operand _).1 [] tokens fun _ h => absurd h List.not_mem_nil

end Term

end MuLang
