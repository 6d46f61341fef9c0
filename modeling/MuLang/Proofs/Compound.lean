import MuLang.Proofs.Increments
import MuLang.Proofs.Marking
import MuLang.Proofs.Parentheses
import MuLang.Proofs.Rewording
import MuLang.Proofs.Run

/-!
# Compound assignments

`NAME OP= VALUE;` is checked like `NAME = NAME OP (VALUE);`, but for one thing: the long form reads
the variable before its value is computed, and the short one asks only afterwards whether the
variable has been given one.
-/
namespace MuLang

/-! ## Globals have values -/

/-- Every global counts as initialized. -/
def SymbolTable.Valued (table : SymbolTable) : Prop :=
  ∀ p name v, (table.module p).global? name = some v → v.initialized

theorem SymbolTable.valued_empty : SymbolTable.empty.Valued := by
  intro p name v hg
  rw [module_empty] at hg
  cases hg

namespace Session

variable {session later : Session}

theorem Grows.valued (h : session.Grows later) (hv : session.table.Valued) :
    later.table.Valued := fun p name v hg =>
  (h.initialized p name v hg).elim (hv p name v) id

/-- After the first pass every global counts as initialized. -/
theorem valued_skim (settings : Settings) (tokens : List Token) :
    (skim settings tokens).table.Valued :=
  (arises_skim settings tokens).grows.valued SymbolTable.valued_empty

end Session

/-- Nor is there any other global at a point of the second pass. -/
theorem Reading.Passes.valued {settings : Settings} {tokens read : List Token} {reading : Reading}
    (h : (Reading.start (.skim settings tokens) .evaluate).Passes read reading) :
    reading.session.table.Valued :=
  h.grows.valued (Session.valued_skim settings tokens)

/-! ## The long form of a value -/

namespace Env

variable {env : Env} {scopes after : ScopeStack} {tokens : List Token}
  {identifier sign opening closing : Token} {op : BinaryOp} {left right value : Expr}

/-- An operation on a variable and a value in parentheses reads the variable, types the value as it
stands alone, and types the operation. -/
theorem expression_binary_eq_ok (hk : identifier.kind = .identifier) (hs : sign.kind = .binary op)
    (ho : opening.kind = .openParen) (hc : closing.kind = .closeParen)
    (hb : Token.Balanced tokens) (first second : Token) :
    env.expression (identifier :: sign :: opening :: (tokens ++ [closing])) second scopes =
        (.ok value, after) ↔
      ∃ left right, env.read scopes identifier = .ok left ∧
        env.expression tokens first scopes = (.ok right, after) ∧
        Env.binary left op sign right = .ok value := by
  unfold expression
  cases Term.goesOn_binary hk hs ho hc hb first second with
  | on _ hw =>
    rw [hw, Term.check, Term.check, bind_assoc, Fallible.bind_of_ok (Fallible.get_apply _),
      Fallible.ofExcept_bind_eq_ok]
    simp
  | fails hf hw =>
    constructor
    · intro h
      exact absurd (Term.faultless_of_check h) hw
    · rintro ⟨-, right, -, h, -⟩
      exact absurd (Term.faultless_of_check h) hf

/-! ## Both forms -/

variable {operator plain : Token} {type stored : Datatype} {place : Place} {v : Variable}

/-- What is accepted is carried out. -/
theorem Accepts.assign_eq
    (h : env.Accepts scopes identifier operator value type after place v stored) :
    env.assign scopes identifier operator value = .ok (type, after) := by
  simp only [assign, Except.bind_eq_ok, Except.ite_eq_ok, Except.throw_ne_ok, false_and, and_false,
    exists_false, false_or]
  refine ⟨_, h.resolved, ?_, by simpa using h.defined, by simpa [and_comm] using h.writable, stored,
    h.assigned, by simpa using h.fits, ?_⟩
  · cases place with
    | localAt slot => simp
    | globalOf owner => simpa using h.owned owner rfl
  · rw [h.type_eq, h.after_eq]
    cases place <;> rfl

/-- What a compound assignment stores is the result of its operator. -/
theorem assigned_compound (hk : operator.kind.compound? = some op) :
    Env.assigned v operator value = .ok stored ↔
      Datatype.binary op v.datatype value.type = some stored := by
  unfold assigned
  rw [hk]
  dsimp only
  split
  next type ht => simp [ht]
  next ht => simp [ht]

/-- What a plain assignment stores is its value. -/
theorem assigned_plain (hk : operator.kind.compound? = none) :
    Env.assigned v operator value = .ok stored ↔ value.type = stored := by
  unfold assigned
  rw [hk]
  simp

/-- A compound assignment of a variable that has a value is accepted like the plain assignment of
the operator's result. -/
theorem accepts_compound_iff (hk : operator.kind.compound? = some op)
    (hp : plain.kind.compound? = none) (ht : value.type = stored) :
    env.Accepts scopes identifier operator right type after place v stored ↔
      env.Accepts scopes identifier plain value type after place v stored ∧ v.initialized ∧
        Datatype.binary op v.datatype right.type = some stored := by
  constructor
  · intro h
    exact ⟨⟨h.resolved, h.owned, by simp [hp], h.writable, (assigned_plain hp).2 ht, h.fits, h.type_eq,
      h.after_eq⟩, h.defined (by simp [hk]), (assigned_compound hk).1 h.assigned⟩
  · rintro ⟨h, hi, hb⟩
    exact ⟨h.resolved, h.owned, fun _ => hi, h.writable, (assigned_compound hk).2 hb, h.fits, h.type_eq,
      h.after_eq⟩

theorem initialized_of_global {owner : ModulePath} (hv : env.table.Valued)
    (hr : env.resolve scopes identifier = .ok ⟨.globalOf owner, v⟩) : v.initialized := by
  rw [resolve] at hr
  split at hr
  · cases hr
  · obtain ⟨owner, w, hw, hg⟩ := resolveGlobal?_of_global hr
    cases hw
    exact hv _ _ _ (SymbolTable.global?_of_resolveGlobal? hg)

/-- Once the value has been typed, the long form is accepted like the short one, unless the variable
has been a local without a value. -/
theorem assign_expansion_iff {between : ScopeStack} (hv : env.table.Valued)
    (hm : scopes.Marks between) (hk : operator.kind.compound? = some op)
    (hp : plain.kind.compound? = none) :
    (∃ left value assigned, env.read scopes identifier = .ok left ∧
        Env.binary left op sign right = .ok value ∧
        env.assign between identifier plain value = .ok assigned) ↔
      (∃ assigned, env.assign between identifier operator right = .ok assigned) ∧
        ∀ slot v, env.resolve scopes identifier = .ok ⟨.localAt slot, v⟩ → v.initialized := by
  constructor
  · rintro ⟨left, value, ⟨type, after⟩, hleft, hvalue, hassign⟩
    obtain ⟨place, v, hr, hi, rfl⟩ := read_eq_ok.1 hleft
    obtain ⟨stored, hb, rfl⟩ := binary_eq_ok.1 hvalue
    obtain ⟨other, w, last, ha⟩ := accepts_of_assign hassign
    obtain ⟨later, hlater, hmarks⟩ := resolve_later hm hr
    cases hlater.symm.trans ha.resolved
    obtain rfl : stored = last := (assigned_plain hp).1 ha.assigned
    have hvalued : v.initialized := by
      cases place with
      | localAt slot => exact hi slot rfl
      | globalOf owner => exact initialized_of_global hv hr
    refine ⟨⟨_, ((accepts_compound_iff hk hp rfl).2
      ⟨ha, hmarks.initialized hvalued, ?_⟩).assign_eq⟩, fun slot u hu => ?_⟩
    · rw [hmarks.datatype_eq]
      exact hb
    · cases hr.symm.trans hu
      exact hvalued
  · rintro ⟨⟨⟨type, after⟩, hassign⟩, hi⟩
    obtain ⟨place, w, stored, ha⟩ := accepts_of_assign hassign
    obtain ⟨v, hr, hmarks⟩ := resolve_earlier hm ha.resolved
    have hb := (assigned_compound hk).1 ha.assigned
    rw [hmarks.datatype_eq] at hb
    refine ⟨_, .binary stored (.read v.datatype identifier) sign right, _,
      read_eq_ok.2 ⟨place, v, hr, ?_, rfl⟩, binary_eq_ok.2 ⟨stored, hb, rfl⟩,
      ((accepts_compound_iff hk hp rfl).1 ha).1.assign_eq⟩
    rintro slot rfl
    exact hi slot v hr

end Env

/-! ## Statements -/

/-- A statement is accepted at a point. -/
def Session.Accepts (session : Session) (tokens : List Token) : Prop :=
  ∃ statement after, Step.closed tokens session = (.ok (some statement), after)

namespace Step

variable {s : Session} {identifier operator stop : Token} {tokens : List Token} {op : AssignOp}

/-- What `NAME OP VALUE;` does. -/
theorem actionStatement_assign (ho : operator.kind = .assign op) :
    actionStatement (identifier :: operator :: (tokens ++ [stop])) [] = (do
      requireFunction identifier "assignments and calls"
      if ← isSkimming then return none
      let value ← expression tokens operator
      assignStatement identifier operator value) := by
  have hvalue : Token.valueFrom (identifier :: operator :: (tokens ++ [stop])) 2 = .ok tokens := by
    simp [Token.valueFrom]
  simp only [actionStatement, Token.tokenAt, List.getElem?_cons_zero, List.getElem?_cons_succ,
    ofExcept, pure_bind, ho, hvalue]
  rfl

/-- The statement `NAME OP VALUE;` is accepted in the second pass if the value has a type and the
assignment is accepted after it. -/
theorem accepts_assignment_iff (hs : s.isSkimming = false) (hf : s.scopes.inFunction)
    (hk : identifier.kind = .identifier) (ho : operator.kind = .assign op) :
    s.Accepts (identifier :: operator :: (tokens ++ [stop])) ↔ ∃ value between assigned,
      s.env.expression tokens operator s.scopes = (.ok value, between) ∧
        s.env.assign between identifier operator value = .ok assigned := by
  have hclosed : closed (identifier :: operator :: (tokens ++ [stop])) =
      Option.map Stmt.action <$> actionStatement (identifier :: operator :: (tokens ++ [stop])) [] :=
    @closed_identifier [] identifier nofun hk _
  unfold Session.Accepts
  rw [hclosed, actionStatement_assign ho]
  simp [hf, hs, assignStatement, check_eq_ok, and_assoc]

end Step

/-- Inside a function, `NAME = NAME OP (VALUE);` is accepted in the second pass just where
`NAME OP= VALUE;` is and the variable is no local without a value before it. -/
theorem accepts_expansion_iff {settings : Settings} {tokens read value : List Token}
    {reading : Reading} {identifier operator plain sign opening closing stop : Token}
    {compound : AssignOp} {op : BinaryOp}
    (hp : (Reading.start (.skim settings tokens) .evaluate).Passes read reading)
    (hf : reading.session.scopes.inFunction) (hk : identifier.kind = .identifier)
    (ho : operator.kind = .assign compound) (hc : compound.binary? = some op)
    (he : plain.kind = .assign .plain) (hs : sign.kind = .binary op)
    (hopen : opening.kind = .openParen) (hclose : closing.kind = .closeParen)
    (hv : Token.Balanced value) :
    reading.session.Accepts
        (identifier :: plain :: identifier :: sign :: opening :: (value ++ [closing, stop])) ↔
      reading.session.Accepts (identifier :: operator :: (value ++ [stop])) ∧
        ∀ slot v, reading.session.env.resolve reading.session.scopes identifier =
          .ok ⟨.localAt slot, v⟩ → v.initialized := by
  have hpass : reading.session.isSkimming = false := hp.isSkimming_eq
  have hlong : identifier :: plain :: identifier :: sign :: opening :: (value ++ [closing, stop]) =
      identifier :: plain :: ((identifier :: sign :: opening :: (value ++ [closing])) ++ [stop]) := by
    simp
  rw [hlong, Step.accepts_assignment_iff hpass hf hk he, Step.accepts_assignment_iff hpass hf hk ho]
  simp only [Env.expression_binary_eq_ok hk hs hopen hclose hv operator plain]
  have hplain : plain.kind.compound? = none := by rw [he]; rfl
  have hcompound : operator.kind.compound? = some op := by rw [ho]; exact hc
  have hassign {right : Expr} {between : ScopeStack}
      (hr : reading.session.env.expression value operator reading.session.scopes =
        (.ok right, between)) :=
    @Env.assign_expansion_iff reading.session.env reading.session.scopes identifier sign op right
      operator plain between hp.valued (Env.marks_of_expression hr) hcompound hplain
  constructor
  · rintro ⟨whole, between, assigned, ⟨left, right, hleft, hright, hwhole⟩, ha⟩
    obtain ⟨⟨other, ho⟩, hi⟩ := (hassign hright).1 ⟨left, whole, assigned, hleft, hwhole, ha⟩
    exact ⟨⟨right, between, other, hright, ho⟩, hi⟩
  · rintro ⟨⟨right, between, other, hright, ho⟩, hi⟩
    obtain ⟨left, whole, assigned, hleft, hwhole, ha⟩ := (hassign hright).2 ⟨⟨other, ho⟩, hi⟩
    exact ⟨whole, between, assigned, ⟨left, right, hleft, hright, hwhole⟩, ha⟩

namespace Doubling

/-- The tokens of `x`, `=`, `+=`, `+`, `(`, `)` and `;`. -/
def x : Token := .synthetic .identifier "x"

def becomes : Token := .synthetic (.assign .plain) "="

def adds : Token := .synthetic (.assign .add) "+="

def plus : Token := .synthetic (.binary .add) "+"

def opening : Token := .synthetic .openParen "("

def closing : Token := .synthetic .closeParen ")"

def stop : Token := .synthetic .semicolon ";"

def one : Token := .synthetic (.literal .integer) "1"

/-- The tokens of `module m { fn f { mut int x`, up to a value of `x` or none and the end of the
declaration. -/
def before (value : List Token) : List Token :=
  Counting.before ++ .synthetic (.modifier .mutable) "mut" :: .synthetic (.typeName .int) "int" ::
    x :: (value ++ [stop])

/-- The tokens of `(x = 1)`. -/
def value : List Token := [opening, x, becomes, one, closing]

/-- The tokens of `x += (x = 1);`. -/
def short : List Token := x :: adds :: (value ++ [stop])

/-- The tokens of `x = x + ((x = 1));`. -/
def long : List Token := x :: becomes :: x :: plus :: opening :: (value ++ [closing, stop])

/-- The tokens of `module m { fn f { mut int x VALUE; STATEMENT } }`. -/
def program (given statement : List Token) : List Token :=
  before given ++ statement ++ [.synthetic .closeCurly "\x7d", .synthetic .closeCurly "\x7d"]

/-- The second pass where the statement begins. -/
def reading (given : List Token) : Reading :=
  (Reading.start (.skim {} (program given short)) .evaluate).steps (before given)

end Doubling

open Doubling in
/-- Where `x` has a value, `x = x + ((x = 1));` is accepted as `x += (x = 1);` is. -/
theorem accepts_expansion_of_initialized : (reading [becomes, one]).session.Accepts long := by
  have hp : (Reading.start (.skim {} (program [becomes, one] short)) .evaluate).Passes
      (before [becomes, one]) (reading [becomes, one]) :=
    Reading.passes_steps_of_ongoing (by with_unfolding_all rfl) (by decide)
  have hresolve : (reading [becomes, one]).session.env.resolve
      (reading [becomes, one]).session.scopes x =
        .ok ⟨.localAt ⟨2, 0⟩, ⟨"x", .plain .int, [.mutable], true⟩⟩ := by with_unfolding_all rfl
  have hshort : (reading [becomes, one]).session.Accepts short := ⟨_, _, by with_unfolding_all rfl⟩
  refine (@accepts_expansion_iff {} _ _ value _ x adds becomes plus opening closing stop .add .add hp
    (by with_unfolding_all rfl) rfl rfl rfl rfl rfl rfl rfl (by decide)).2
    ⟨hshort, fun slot v hv => ?_⟩
  cases hresolve.symm.trans hv
  rfl

open Doubling in
/-- Where `x` has no value, `x += (x = 1);` is accepted, since its value gives it one, and
`x = x + ((x = 1));` is rejected. -/
theorem compound_accepted_without_value :
    (Reading.start (.skim {} (program [] short)) .evaluate).Passes (before []) (reading []) ∧
      (reading []).session.scopes.inFunction ∧ Token.Balanced value ∧
      (reading []).session.Accepts short ∧ ¬(reading []).session.Accepts long := by
  refine ⟨Reading.passes_steps_of_ongoing (by with_unfolding_all rfl) (by decide),
    by with_unfolding_all rfl, by decide, ⟨_, _, by with_unfolding_all rfl⟩, ?_⟩
  rintro ⟨statement, after, h⟩
  have herror : (Step.closed long (reading []).session).1 =
      .error (.atToken (.variableNotInitialized "x") x) := by with_unfolding_all rfl
  rw [h] at herror
  cases herror

end MuLang
