import MuLang.Proofs.Trace

/-!
# Parentheses

An expression that is read without a fault closes every parenthesis that it opens, and no other. So
tokens whose parentheses match are read between two parentheses as they are read alone: either they
are a term, and the reading goes on with it, or they have a fault there as well.
-/
namespace MuLang

/-! ## Open parentheses -/

namespace Token

variable {tokens more : List Token} {token : Token} {depth after : Nat}

/-- How many parentheses are open after some tokens if `depth` are open before them. There is no
answer where one is closed that is not open. -/
def openParens (depth : Nat) : List Token → Option Nat
  | [] => some depth
  | token :: rest =>
    match token.kind with
    | .openParen => openParens (depth + 1) rest
    | .closeParen => if depth = 0 then none else openParens (depth - 1) rest
    | _ => openParens depth rest

/-- Every parenthesis is closed, and none that is not open. -/
def Balanced (tokens : List Token) : Prop := openParens 0 tokens = some 0

instance (tokens : List Token) : Decidable (Balanced tokens) :=
  inferInstanceAs (Decidable (_ = _))

theorem openParens_opening (hk : token.kind = .openParen) (depth : Nat) (tokens : List Token) :
    openParens depth (token :: tokens) = openParens (depth + 1) tokens := by
  simp [openParens, hk]

theorem openParens_closing (hk : token.kind = .closeParen) (depth : Nat) (tokens : List Token) :
    openParens (depth + 1) (token :: tokens) = openParens depth tokens := by
  simp [openParens, hk]

theorem openParens_stray (hk : token.kind = .closeParen) (tokens : List Token) :
    openParens 0 (token :: tokens) = none := by
  simp [openParens, hk]

theorem openParens_other (ho : token.kind ≠ .openParen) (hc : token.kind ≠ .closeParen)
    (depth : Nat) (tokens : List Token) :
    openParens depth (token :: tokens) = openParens depth tokens := by
  rw [openParens]
  split <;> first | contradiction | rfl

theorem openParens_word (hw : token.isWord) (depth : Nat) (tokens : List Token) :
    openParens depth (token :: tokens) = openParens depth tokens :=
  openParens_other (fun hk => by simp [isWord, hk, Kind.isWord] at hw)
    (fun hk => by simp [isWord, hk, Kind.isWord] at hw) depth tokens

theorem openParens_append (depth : Nat) (tokens more : List Token) :
    openParens depth (tokens ++ more) =
      (openParens depth tokens).bind fun after => openParens after more := by
  induction tokens generalizing depth with
  | nil => rfl
  | cons token tokens ih =>
    rw [List.cons_append, openParens, openParens]
    split
    · exact ih _
    · split
      · rfl
      · exact ih _
    · exact ih _

theorem openParens_append_of_eq (h : openParens depth tokens = some after) (more : List Token) :
    openParens depth (tokens ++ more) = openParens after more := by
  rw [openParens_append, h]
  rfl

/-- Parentheses that are open around some tokens stay open. -/
theorem openParens_add (h : openParens depth tokens = some after) (around : Nat) :
    openParens (depth + around) tokens = some (after + around) := by
  induction tokens generalizing depth with
  | nil =>
    obtain rfl : depth = after := Option.some.inj h
    rfl
  | cons token tokens ih =>
    rw [openParens] at h ⊢
    split at h
    next hk =>
      rw [Nat.add_right_comm]
      exact ih h
    next hk =>
      split at h
      · cases h
      next hd =>
        have hsub : depth + around - 1 = depth - 1 + around := by omega
        rw [if_neg (by omega), hsub]
        exact ih h
    next => exact ih h

end Token

namespace Kind

/-- Whether a kind of token may stand in an expression. -/
def inExpression : Kind → Bool
  | .literal _ | .identifier | .typeName _ | .binary _ | .assign _ | .bang
  | .openParen | .closeParen | .comma => true
  | _ => false

theorem inExpression_of_isAssignment {kind : Kind} (h : kind.isAssignment) :
    kind.inExpression := by
  cases kind <;> first | rfl | cases h

theorem inExpression_of_typeName {kind : Kind} {name : TypeName} (h : kind.typeName? = some name) :
    kind.inExpression := by
  cases kind <;> first | rfl | cases h

theorem inExpression_of_unary {kind : Kind} {op : UnaryOp} (h : kind.unary? = some op) :
    kind.inExpression := by
  cases kind <;> first | rfl | cases h

end Kind

namespace Token

variable {spelled tokens : List Token} {token : Token} {depth after : Nat}

/-- The tokens of an expression, inside of some open parentheses that they close. -/
structure Closing (depth : Nat) (tokens : List Token) : Prop where
  parens : openParens depth tokens = some 0
  kinds : ∀ token ∈ tokens, token.kind.inExpression

namespace Closing

theorem nil : Closing 0 [] := ⟨rfl, nofun⟩

theorem append (hp : openParens depth spelled = some after)
    (hk : ∀ token ∈ spelled, token.kind.inExpression) (h : Closing after tokens) :
    Closing depth (spelled ++ tokens) :=
  ⟨(openParens_append_of_eq hp tokens).trans h.parens, List.forall_mem_append.2 ⟨hk, h.kinds⟩⟩

theorem cons (hk : token.kind.inExpression)
    (hp : openParens depth (token :: tokens) = openParens after tokens) (h : Closing after tokens) :
    Closing depth (token :: tokens) :=
  ⟨hp.trans h.parens, List.forall_mem_cons.2 ⟨hk, h.kinds⟩⟩

end Closing

end Token

/-! ## What is open on a stack -/

namespace Pending

variable {stack waiting : List Pending} {term left : Term} {power : Nat}

/-- How many closing parentheses a stack waits for. -/
def opens : List Pending → Nat
  | [] => 0
  | .group :: rest => opens rest + 1
  | .call .. :: rest => opens rest + 1
  | _ :: rest => opens rest

/-- What yields waits for no closing parenthesis. -/
theorem opens_of_yieldsTo {first : Pending} (h : first.yieldsTo power) (rest : List Pending) :
    opens (first :: rest) = opens rest := by
  cases first <;> first | rfl | cases h

/-- Completing what waits closes no parenthesis. -/
theorem opens_of_settle (h : settle power stack term = (waiting, left)) :
    opens stack = opens waiting := by
  obtain ⟨done, rfl, hyields, -, -⟩ := settle_eq_iff.1 h
  clear h
  induction done with
  | nil => rfl
  | cons first rest ih =>
    obtain ⟨hfirst, hrest⟩ := List.forall_mem_cons.1 hyields
    rw [List.cons_append, opens_of_yieldsTo hfirst, ih hrest]

/-- What is open at the end of an operand waits for a closing parenthesis. -/
theorem opens_of_settle_cons {opened : Pending}
    (h : settle 0 stack term = (opened :: waiting, left)) : opens stack = opens waiting + 1 := by
  rw [opens_of_settle h]
  have hy := yieldsTo_of_settle h
  cases opened with
  | group => rfl
  | call => rfl
  | _ => simp [yieldsTo] at hy

/-- What is completed on a stack does not go beyond a parenthesis below it. -/
theorem settle_append_group (h : settle power stack term = (waiting, left))
    (below : List Pending) :
    settle power (stack ++ .group :: below) term = (waiting ++ .group :: below, left) := by
  obtain ⟨done, rfl, hyields, hopened, rfl⟩ := settle_eq_iff.1 h
  refine settle_eq_iff.2 ⟨done, List.append_assoc _ _ _, hyields, ?_, rfl⟩
  cases waiting with
  | nil =>
    rintro _ ⟨⟩
    rfl
  | cons opened waiting => exact hopened

end Pending

/-! ## The parentheses of a turn -/

namespace Term

variable {spelled rest : List Token} {opened : Pending} {term : Term}

open Token Pending

theorem Complete.openParens_eq (h : Complete spelled term rest) (depth : Nat) :
    openParens depth spelled = some depth := by
  cases h with
  | literal hk => exact openParens_word (isWord_of_kind hk rfl) depth []
  | read hk => exact openParens_word (isWord_of_kind hk rfl) depth []
  | call hk ho hc =>
    rw [openParens_word (isWord_of_kind hk rfl), openParens_opening ho, openParens_closing hc]
    rfl

theorem Begins.openParens_eq (h : Begins spelled opened rest) (stack : List Pending) :
    openParens (opens stack) spelled = some (opens (opened :: stack)) := by
  cases h with
  | call hk ho =>
    rw [openParens_word (isWord_of_kind hk rfl), openParens_opening ho]
    rfl
  | assign hk ha =>
    rw [openParens_word (isWord_of_kind hk rfl), openParens_word (isWord_of_isAssignment ha)]
    rfl
  | cast ho ht hc =>
    rw [openParens_opening ho, openParens_word (isWord_of_typeName ht), openParens_closing hc]
    rfl
  | group ho => exact openParens_opening ho _ []
  | unary hu => exact openParens_word (isWord_of_unary hu) _ []

theorem Complete.inExpression (h : Complete spelled term rest) :
    ∀ token ∈ spelled, token.kind.inExpression := by
  cases h with
  | literal hk => simp [hk, Kind.inExpression]
  | read hk => simp [hk, Kind.inExpression]
  | call hk ho hc => simp [hk, ho, hc, Kind.inExpression]

theorem Begins.inExpression (h : Begins spelled opened rest) :
    ∀ token ∈ spelled, token.kind.inExpression := by
  cases h with
  | call hk ho => simp [hk, ho, Kind.inExpression]
  | assign hk ha =>
    exact List.forall_mem_cons.2 ⟨by rw [hk]; rfl,
      List.forall_mem_singleton.2 (Kind.inExpression_of_isAssignment ha)⟩
  | cast ho ht hc =>
    exact List.forall_mem_cons.2 ⟨by rw [ho]; rfl, List.forall_mem_cons.2
      ⟨Kind.inExpression_of_typeName ht, List.forall_mem_singleton.2 (by rw [hc]; rfl)⟩⟩
  | group ho => simp [ho, Kind.inExpression]
  | unary hu => simp [Kind.inExpression_of_unary hu]

end Term

/-! ## Readings without a fault -/

namespace Term

variable {stop token : Token} {stack : List Pending} {term : Term} {tokens rest : List Token}

/-- A term without a fault in it. -/
def Faultless (term : Term) : Prop := ∀ error, .error error ∉ term.trace

theorem not_faultless_abandon (stack : List Pending) (parts : List Term) (cause : Cause)
    (token : Token) : ¬(abandon stack parts cause token).Faultless := fun h =>
  h (.atToken cause token) (by simp [trace_abandon])

/-- A fault that has been read stays. -/
theorem faultless_of_afterOperand (h : (afterOperand stop stack term tokens).Faultless) :
    term.Faultless := by
  obtain ⟨said, -, ht⟩ := (says_operand stop).2 stack term tokens
  intro error hm
  exact h error (by rw [ht]; simp [hm])

/-- A term that is accepted has no fault. -/
theorem faultless_of_check {env : Env} {scopes after : ScopeStack} {value : Expr}
    (h : term.check env scopes = (.ok value, after)) : term.Faultless := by
  intro error hm
  rw [trace_of_check term h] at hm
  obtain ⟨word, -, hw⟩ := List.mem_map.1 hm
  cases hw

open Pending (opens) in
/-- A reading without a fault closes what is open on its stack, and all that it opens. -/
theorem closing_operand (stop : Token) :
    (∀ (stack : List Pending) (tokens : List Token), (operand stop stack tokens).Faultless →
      Token.Closing (opens stack) tokens) ∧
    ∀ (stack : List Pending) (term : Term) (tokens : List Token),
      (afterOperand stop stack term tokens).Faultless → Token.Closing (opens stack) tokens := by
  apply reading_induct stop
  case complete =>
    intro stack spelled term rest hc ih h
    rw [operand_complete hc] at h
    exact .append (hc.openParens_eq _) hc.inExpression (ih h)
  case begins =>
    intro stack spelled opened rest hb ih h
    rw [operand_begins hb] at h
    exact .append (hb.openParens_eq stack) hb.inExpression (ih h)
  case missing =>
    intro stack tokens cause token hm h
    rw [operand_missing hm] at h
    exact absurd h (not_faultless_abandon _ _ _ _)
  case ends =>
    intro stack term whole hw h
    rw [Pending.opens_of_settle hw]
    exact .nil
  case binary =>
    intro stack term token rest op waiting left hk hw ih h
    rw [afterOperand_binary hk hw] at h
    rw [Pending.opens_of_settle hw]
    exact (ih h).cons (by rw [hk]; rfl) (Token.openParens_word (Token.isWord_of_kind hk rfl) _ rest)
  case closes =>
    intro stack term token rest opened waiting inner hk hw ih h
    rw [afterOperand_closes hk hw] at h
    rw [Pending.opens_of_settle_cons hw]
    exact (ih h).cons (by rw [hk]; rfl) (Token.openParens_closing hk _ rest)
  case comma =>
    intro stack term token rest callee arguments waiting last hk hw ih h
    rw [afterOperand_comma hk hw] at h
    rw [Pending.opens_of_settle hw]
    exact (ih h).cons (by rw [hk]; rfl)
      (Token.openParens_other (by simp [hk]) (by simp [hk]) _ rest)
  case stuck =>
    intro stack term tokens waiting part cause token hw hf h
    rw [afterOperand_stuck hw hf] at h
    exact absurd h (not_faultless_abandon _ _ _ _)

/-! ## Inside of a group -/

/-- What is read after an operand that no operator follows depends on what is complete there. -/
theorem afterOperand_congr {other : List Pending} {last : Term}
    (hk : ∀ op, token.kind ≠ .binary op)
    (hs : Pending.settle 0 stack term = Pending.settle 0 other last) :
    afterOperand stop stack term (token :: rest) = afterOperand stop other last (token :: rest) := by
  rw [afterOperand, afterOperand, hs]
  split
  next op h => exact absurd h (hk op)
  next => rfl

section Turns

open Pending (opens)

variable {last next : Token} {spelled after : List Token} {opened : Pending}
  {waiting : List Pending} {part : Term} {cause : Cause}

/-- The sign that ends a group or an argument is no part of an operand before it. -/
theorem Complete.before (h : Complete spelled term rest)
    (hnext : next.kind = .closeParen ∨ next.kind = .comma) (after : List Token) :
    Complete spelled term (rest ++ next :: after) := by
  cases h with
  | literal hk => exact .literal hk
  | call hk ho hc => exact .call hk ho hc
  | read hk hr =>
    refine .read hk ?_
    cases rest with
    | nil =>
      rintro _ ⟨⟩
      obtain h | h := hnext <;> simp [h, Kind.isAssignment, Kind.assign?]
    | cons first rest => exact hr

/-- The sign that ends a group or an argument makes nothing else of what begins before it, where all
that is open is closed before it. -/
theorem Begins.before (h : Begins spelled opened rest)
    (hp : Token.openParens (opens (opened :: stack)) rest = some 0)
    (hnext : next.kind = .closeParen ∨ next.kind = .comma) (after : List Token) :
    Begins spelled opened (rest ++ next :: after) := by
  cases h with
  | assign hk ha => exact .assign hk ha
  | cast ho ht hc => exact .cast ho ht hc
  | unary hu => exact .unary hu
  | call hk ho hr =>
    refine .call hk ho ?_
    cases rest with
    | nil => cases hp
    | cons first rest => exact hr
  | group ho hn =>
    refine .group ho fun target closing more he hc => ?_
    rcases rest with _ | ⟨first, _ | ⟨second, rest⟩⟩
    · obtain ⟨rfl, -⟩ := List.cons.inj he
      obtain h | h := hnext <;> simp [h, Kind.typeName?]
    · -- The name of a type would leave the parenthesis before it open.
      obtain ⟨rfl, -⟩ := List.cons.inj he
      cases ht : first.kind.typeName? with
      | none => rfl
      | some type =>
        rw [Token.openParens_word (Token.isWord_of_typeName ht)] at hp
        cases hp
    · obtain ⟨rfl, htail⟩ := List.cons.inj he
      obtain ⟨rfl, -⟩ := List.cons.inj htail
      exact hn first second rest rfl hc

/-- No operand begins with the sign that ends a group or an argument. -/
theorem Missing.before (h : Missing stop tokens cause token)
    (hnext : next.kind = .closeParen ∨ next.kind = .comma) (last : Token) (after : List Token) :
    ∃ cause token, Missing last (tokens ++ next :: after) cause token := by
  cases h with
  | ended =>
    refine ⟨_, _, .unexpected ?_ ?_ ?_ ?_⟩ <;>
      obtain h | h := hnext <;> simp [h, Kind.unary?]
  | unexpected hl hi ho hu => exact ⟨_, _, .unexpected hl hi ho hu⟩

/-- What does not go on by itself does not go on inside of a group, where all that is open is
closed. -/
theorem Stuck.before (h : Stuck stop waiting tokens cause token)
    (hw : Pending.settle 0 stack term = (waiting, part))
    (hp : Token.openParens (opens stack) tokens = some 0) (last next : Token) (after : List Token)
    (below : List Pending) :
    ∃ cause token, Stuck last (waiting ++ .group :: below) (tokens ++ next :: after) cause token := by
  cases h with
  | unclosed =>
    rw [Pending.opens_of_settle_cons hw] at hp
    cases hp
  | extra hb =>
    refine ⟨_, _, .misplaced hb (fun hc => ?_) (by rintro _ _ ⟨⟩)⟩
    rw [Pending.opens_of_settle hw, opens, Token.openParens_stray hc] at hp
    cases hp
  | misplaced hb hc hn => exact ⟨_, _, .misplaced hb hc hn⟩

end Turns

/-- What becomes of a term where the reading goes on after its tokens: the reading goes on with it if
it has no fault, and otherwise has a fault as well. -/
inductive GoesOn (next : Term → Term) (term whole : Term) : Prop
  | on : term.Faultless → whole = next term → GoesOn next term whole
  | fails : ¬term.Faultless → ¬whole.Faultless → GoesOn next term whole

open Pending (opens) in
/-- Tokens whose parentheses match are read inside of a group as they are read alone, up to the
parenthesis that closes the group, or a comma. -/
theorem goesOn_operand (stop last next : Token) (below : List Pending) (after : List Token)
    (hnext : next.kind = .closeParen ∨ next.kind = .comma) :
    (∀ (stack : List Pending) (tokens : List Token), Token.openParens (opens stack) tokens = some 0 →
      GoesOn (fun term => afterOperand last (.group :: below) term (next :: after))
        (operand stop stack tokens)
        (operand last (stack ++ .group :: below) (tokens ++ next :: after))) ∧
    ∀ (stack : List Pending) (term : Term) (tokens : List Token),
      Token.openParens (opens stack) tokens = some 0 →
      GoesOn (fun term => afterOperand last (.group :: below) term (next :: after))
        (afterOperand stop stack term tokens)
        (afterOperand last (stack ++ .group :: below) term (tokens ++ next :: after)) := by
  apply reading_induct stop
  case complete =>
    intro stack spelled term rest hc ih h
    rw [Token.openParens_append_of_eq (hc.openParens_eq _)] at h
    rw [operand_complete hc, List.append_assoc, operand_complete (hc.before hnext after)]
    exact ih h
  case begins =>
    intro stack spelled opened rest hb ih h
    rw [Token.openParens_append_of_eq (hb.openParens_eq stack)] at h
    rw [operand_begins hb, List.append_assoc, operand_begins (hb.before h hnext after)]
    exact ih h
  case missing =>
    intro stack tokens cause token hm _
    obtain ⟨_, _, hm'⟩ := hm.before hnext last after
    rw [operand_missing hm, operand_missing hm']
    exact .fails (not_faultless_abandon _ _ _ _) (not_faultless_abandon _ _ _ _)
  case ends =>
    intro stack term whole hw _
    have hbinary (op : BinaryOp) : next.kind ≠ .binary op := by
      rintro h
      simp [h] at hnext
    have hgroup : Pending.settle 0 (.group :: below) whole = (.group :: below, whole) := rfl
    rw [afterOperand_ends hw, List.nil_append,
      afterOperand_congr hbinary ((Pending.settle_append_group hw below).trans hgroup.symm)]
    by_cases hf : whole.Faultless
    · exact .on hf rfl
    · exact .fails hf fun h => hf (faultless_of_afterOperand h)
  case binary =>
    intro stack term token rest op waiting left hk hw ih h
    rw [Token.openParens_word (Token.isWord_of_kind hk rfl), Pending.opens_of_settle hw] at h
    rw [afterOperand_binary hk hw, List.cons_append,
      afterOperand_binary hk (Pending.settle_append_group hw below)]
    exact ih h
  case closes =>
    intro stack term token rest opened waiting inner hk hw ih h
    rw [Pending.opens_of_settle_cons hw, Token.openParens_closing hk] at h
    rw [afterOperand_closes hk hw, List.cons_append,
      afterOperand_closes hk (Pending.settle_append_group hw below)]
    exact ih h
  case comma =>
    intro stack term token rest callee arguments waiting inner hk hw ih h
    rw [Pending.opens_of_settle hw, Token.openParens_other (by simp [hk]) (by simp [hk])] at h
    rw [afterOperand_comma hk hw, List.cons_append,
      afterOperand_comma hk (Pending.settle_append_group hw below)]
    exact ih h
  case stuck =>
    intro stack term tokens waiting part cause token hw hs h
    obtain ⟨_, _, hs'⟩ := hs.before hw h last next after below
    rw [afterOperand_stuck hw hs, afterOperand_stuck (Pending.settle_append_group hw below) hs']
    exact .fails (not_faultless_abandon _ _ _ _) (not_faultless_abandon _ _ _ _)

variable {last opening closing comma : Token} {below : List Pending}

/-- A name of a type that a parenthesis follows closes one that is not open. -/
theorem typeName?_of_balanced {target close : Token} {more : List Token}
    (hb : Token.Balanced (target :: close :: more)) (hc : close.kind = .closeParen) :
    target.kind.typeName? = none := by
  cases ht : target.kind.typeName? with
  | none => rfl
  | some type =>
    rw [Token.Balanced, Token.openParens_word (Token.isWord_of_typeName ht),
      Token.openParens_stray hc] at hb
    cases hb

/-- Tokens whose parentheses match are a term between two parentheses if they are one alone. -/
theorem goesOn_parenthesized (ho : opening.kind = .openParen) (hc : closing.kind = .closeParen)
    (hb : Token.Balanced tokens) : GoesOn (fun term => afterOperand last below term [])
      (operand stop [] tokens) (operand last below (opening :: (tokens ++ [closing]))) := by
  by_cases hcast : ∃ target type, tokens = [target] ∧ target.kind.typeName? = some type
  · -- The name of a type is no term, and its cast misses its value.
    obtain ⟨target, type, rfl, ht⟩ := hcast
    have hmissing : Missing stop [target] (.unexpectedToken target.text) target :=
      .unexpected (fun kind hk => by simp [hk, Kind.typeName?] at ht)
        (fun hk => by simp [hk, Kind.typeName?] at ht)
        (fun hk => by simp [hk, Kind.typeName?] at ht)
        (by cases hk : target.kind <;> simp_all [Kind.typeName?, Kind.unary?])
    have hcast : operand last below [opening, target, closing] =
        operand last (.cast type target :: below) [] := operand_begins (.cast ho ht hc)
    rw [List.singleton_append, hcast, operand_missing hmissing, operand_missing .ended]
    exact .fails (not_faultless_abandon _ _ _ _) (not_faultless_abandon _ _ _ _)
  · have hgroup : ∀ target close more, tokens ++ [closing] = target :: close :: more →
        close.kind = .closeParen → target.kind.typeName? = none := by
      intro target close more he hk
      rcases tokens with _ | ⟨first, _ | ⟨second, rest⟩⟩
      · cases he
      · obtain ⟨rfl, -⟩ := List.cons.inj he
        exact Option.eq_none_iff_forall_ne_some.2 fun type ht => hcast ⟨first, type, rfl, ht⟩
      · obtain ⟨rfl, hrest⟩ := List.cons.inj he
        obtain ⟨rfl, -⟩ := List.cons.inj hrest
        exact typeName?_of_balanced hb hk
    have hinside := (goesOn_operand stop last closing below [] (.inl hc)).1 [] tokens hb
    have hclose (term : Term) :
        afterOperand last (.group :: below) term [closing] = afterOperand last below term [] :=
      afterOperand_closes hc
        (rfl : Pending.settle 0 (.group :: below) term = (.group :: below, term))
    have hread : operand last below (opening :: (tokens ++ [closing])) =
        operand last (.group :: below) (tokens ++ [closing]) := operand_begins (.group ho hgroup)
    simp only [hclose] at hinside
    rw [hread]
    exact hinside

/-- A comma does not stand in a group. -/
theorem not_faultless_comma (ho : opening.kind = .openParen) (hk : comma.kind = .comma)
    (hb : Token.Balanced tokens) :
    ¬(operand last below (opening :: (tokens ++ comma :: rest))).Faultless := by
  have hgroup : ∀ target close more, tokens ++ comma :: rest = target :: close :: more →
      close.kind = .closeParen → target.kind.typeName? = none := by
    intro target close more he hc
    rcases tokens with _ | ⟨first, _ | ⟨second, tokens⟩⟩
    · obtain ⟨rfl, -⟩ := List.cons.inj he
      rw [hk]
      rfl
    · obtain ⟨-, hrest⟩ := List.cons.inj he
      obtain ⟨rfl, -⟩ := List.cons.inj hrest
      rw [hk] at hc
      cases hc
    · obtain ⟨rfl, hrest⟩ := List.cons.inj he
      obtain ⟨rfl, -⟩ := List.cons.inj hrest
      exact typeName?_of_balanced hb hc
  have hsettle (term : Term) :
      Pending.settle 0 (.group :: below) term = (.group :: below, term) := rfl
  have hstuck : Stuck last (.group :: below) (comma :: rest) (.expectedToken "`)`" comma.text)
      comma := .misplaced (by simp [hk]) (by simp [hk]) (by rintro _ _ ⟨⟩)
  have hread : operand last below (opening :: (tokens ++ comma :: rest)) =
      operand last (.group :: below) (tokens ++ comma :: rest) := operand_begins (.group ho hgroup)
  rw [hread]
  cases (goesOn_operand last last comma below rest (.inr hk)).1 [] tokens hb with
  | on _ hw =>
    rw [List.nil_append] at hw
    rw [hw, afterOperand_stuck (hsettle _) hstuck]
    exact not_faultless_abandon _ _ _ _
  | fails _ hw => exact hw

/-! ## Whole expressions -/

variable {context counter sign : Token} {op : BinaryOp}

/-- The tokens of a term without a fault are those of an expression, and their parentheses match. -/
theorem closing_of_faultless (h : (ofTokens tokens context).Faultless) : Token.Closing 0 tokens := by
  unfold ofTokens at h
  split at h
  next => exact absurd (List.mem_singleton_self _) (h _)
  next last _ => exact (closing_operand _).1 [] tokens h

theorem ofTokens_append (tokens : List Token) (last context : Token) :
    ofTokens (tokens ++ [last]) context = operand (endOfExpression last) [] (tokens ++ [last]) := by
  unfold ofTokens
  rw [List.getLast?_concat]

/-- The right operand of a variable and an operator is read next. -/
theorem ofTokens_binary (hk : counter.kind = .identifier) (hs : sign.kind = .binary op)
    (tokens : List Token) (last context : Token) :
    ofTokens (counter :: sign :: (tokens ++ [last])) context =
      operand (endOfExpression last) [.binary (.read counter) op sign] (tokens ++ [last]) := by
  have happend := ofTokens_append (counter :: sign :: tokens) last context
  have hread : Complete [counter] (.read counter) (sign :: (tokens ++ [last])) :=
    .read hk (by rintro _ ⟨⟩; simp [hs, Kind.isAssignment, Kind.assign?])
  exact happend.trans ((operand_complete hread).trans (afterOperand_binary hs rfl))

/-- An operation on a variable and tokens between two parentheses whose parentheses match. -/
theorem goesOn_binary (hk : counter.kind = .identifier) (hs : sign.kind = .binary op)
    (ho : opening.kind = .openParen) (hc : closing.kind = .closeParen)
    (hb : Token.Balanced tokens) (first second : Token) :
    GoesOn (.binary (.read counter) op sign) (ofTokens tokens first)
      (ofTokens (counter :: sign :: opening :: (tokens ++ [closing])) second) := by
  have hinside (stop : Token) := @goesOn_parenthesized stop tokens (endOfExpression closing) opening
    closing [.binary (.read counter) op sign] ho hc hb
  have hwhole : ofTokens (counter :: sign :: opening :: (tokens ++ [closing])) second =
      operand (endOfExpression closing) [.binary (.read counter) op sign]
        (opening :: (tokens ++ [closing])) :=
    ofTokens_binary hk hs (opening :: tokens) closing second
  have hbinary (term : Term) : afterOperand (endOfExpression closing)
      [.binary (.read counter) op sign] term [] = .binary (.read counter) op sign term :=
    afterOperand_ends rfl
  simp only [hbinary] at hinside
  rw [hwhole]
  cases hl : tokens.getLast? with
  | none =>
    obtain rfl := List.getLast?_eq_none_iff.1 hl
    refine .fails (fun h => h _ (List.mem_singleton_self _)) ?_
    cases hinside first with
    | on h _ =>
      rw [operand_missing .ended] at h
      exact absurd h (not_faultless_abandon _ _ _ _)
    | fails _ hw => exact hw
  | some token =>
    unfold ofTokens
    rw [hl]
    exact hinside (endOfExpression token)

end Term

/-- The tokens of an expression that has a type close what they open. -/
theorem Env.closing_of_expression {env : Env} {tokens : List Token} {context : Token} {value : Expr}
    {scopes after : ScopeStack} (h : env.expression tokens context scopes = (.ok value, after)) :
    Token.Closing 0 tokens :=
  Term.closing_of_faultless (Term.faultless_of_check h)

end MuLang
