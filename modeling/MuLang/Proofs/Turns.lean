import MuLang.Term.Reader

/-!
# The turns of the reader

Where an operand is due the reader takes the tokens of a whole one, or those that begin something;
after an operand it takes an operator, a comma or a closing parenthesis. The tokens behind those of
a turn only decide which turn it is. Where no turn is left the reading is complete, or it fails.

What the reader does in a turn is said here once. What holds of every reading is then shown turn by
turn with `reading_induct`.
-/
namespace MuLang

namespace Pending

variable {stack waiting : List Pending} {opened : Pending} {term inner : Term} {power : Nat}

/-- Before something of a power is read, all that yields to it is filled in, up to the first that
does not. -/
theorem settle_eq_iff : settle power stack term = (waiting, inner) ↔
    ∃ done, stack = done ++ waiting ∧ (∀ first ∈ done, first.yieldsTo power) ∧
      (∀ opened ∈ waiting.head?, opened.yieldsTo power = false) ∧ fillAll done term = inner := by
  induction stack generalizing term with
  | nil =>
    rw [settle, Prod.mk.injEq]
    constructor
    · rintro ⟨rfl, rfl⟩
      exact ⟨[], rfl, by simp, by simp, rfl⟩
    · rintro ⟨done, he, -, -, rfl⟩
      obtain ⟨rfl, rfl⟩ := List.append_eq_nil_iff.1 he.symm
      exact ⟨rfl, rfl⟩
  | cons first rest ih =>
    rw [settle]
    split
    next hy =>
      rw [ih]
      constructor
      · rintro ⟨done, rfl, hd, ho, rfl⟩
        exact ⟨first :: done, rfl, List.forall_mem_cons.2 ⟨hy, hd⟩, ho, rfl⟩
      · rintro ⟨_ | ⟨other, done⟩, he, hd, ho, rfl⟩
        · obtain rfl : first :: rest = waiting := he
          rw [ho first rfl] at hy
          cases hy
        · obtain ⟨rfl, rfl⟩ := List.cons.inj he
          exact ⟨done, rfl, (List.forall_mem_cons.1 hd).2, ho, rfl⟩
    next hn =>
      rw [Prod.mk.injEq]
      constructor
      · rintro ⟨rfl, rfl⟩
        exact ⟨[], rfl, by simp, by simpa using hn, rfl⟩
      · rintro ⟨_ | ⟨other, done⟩, he, hd, -, rfl⟩
        · exact ⟨he, rfl⟩
        · obtain ⟨rfl, -⟩ := List.cons.inj he
          exact absurd (hd first List.mem_cons_self) hn

/-- What still waits is not complete. -/
theorem yieldsTo_of_settle (h : settle power stack term = (opened :: waiting, inner)) :
    opened.yieldsTo power = false := by
  obtain ⟨_, -, -, hopened, -⟩ := settle_eq_iff.1 h
  exact hopened opened rfl

/-- At the end of an operand only parentheses and calls are open. -/
theorem eq_group_of_settle (h : settle 0 stack term = (opened :: waiting, inner))
    (hc : ∀ callee arguments, opened ≠ .call callee arguments) : opened = .group := by
  have hy := yieldsTo_of_settle h
  cases opened with
  | group => rfl
  | call callee arguments => exact absurd rfl (hc callee arguments)
  | _ => simp [yieldsTo] at hy

end Pending

namespace Term

/-- Some tokens are a whole operand before the rest. -/
inductive Complete : List Token → Term → List Token → Prop
  | literal {value : Token} {kind : Literal} {rest : List Token} : value.kind = .literal kind →
      Complete [value] (.literal kind value) rest
  | read {identifier : Token} {rest : List Token} : identifier.kind = .identifier →
      (∀ next ∈ rest.head?, next.kind ≠ .openParen ∧ ¬next.kind.isAssignment) →
      Complete [identifier] (.read identifier) rest
  | call {callee opening closing : Token} {rest : List Token} : callee.kind = .identifier →
      opening.kind = .openParen → closing.kind = .closeParen →
      Complete [callee, opening, closing] (.call callee []) rest

/-- Some tokens begin something before the rest. -/
inductive Begins : List Token → Pending → List Token → Prop
  | call {callee opening : Token} {rest : List Token} : callee.kind = .identifier →
      opening.kind = .openParen → (∀ next ∈ rest.head?, next.kind ≠ .closeParen) →
      Begins [callee, opening] (.call callee []) rest
  | assign {assignee operator : Token} {rest : List Token} : assignee.kind = .identifier →
      operator.kind.isAssignment → Begins [assignee, operator] (.assign assignee operator) rest
  | cast {opening target closing : Token} {type : TypeName} {rest : List Token} :
      opening.kind = .openParen → target.kind.typeName? = some type →
      closing.kind = .closeParen → Begins [opening, target, closing] (.cast type target) rest
  | group {opening : Token} {rest : List Token} : opening.kind = .openParen →
      (∀ target closing more, rest = target :: closing :: more → closing.kind = .closeParen →
        target.kind.typeName? = none) → Begins [opening] .group rest
  | unary {operator : Token} {op : UnaryOp} {rest : List Token} : operator.kind.unary? = some op →
      Begins [operator] (.unary op operator) rest

/-- Some tokens begin no operand, which is a fault at the end or at their first one. -/
inductive Missing (stop : Token) : List Token → Cause → Token → Prop
  | ended : Missing stop [] (.expectedToken "an expression" stop.text) stop
  | unexpected {token : Token} {rest : List Token} : (∀ kind, token.kind ≠ .literal kind) →
      token.kind ≠ .identifier → token.kind ≠ .openParen → token.kind.unary? = none →
      Missing stop (token :: rest) (.unexpectedToken token.text) token

/-- What waits after an operand does not go on with some tokens, which is a fault at the end or at
their first one. -/
inductive Stuck (stop : Token) : List Pending → List Token → Cause → Token → Prop
  | unclosed {opened : Pending} {waiting : List Pending} :
      Stuck stop (opened :: waiting) [] (.expectedToken "`)`" stop.text) stop
  | extra {token : Token} {rest : List Token} : (∀ op, token.kind ≠ .binary op) →
      Stuck stop [] (token :: rest) (.unexpectedToken token.text) token
  | misplaced {opened : Pending} {waiting : List Pending} {token : Token} {rest : List Token} :
      (∀ op, token.kind ≠ .binary op) → token.kind ≠ .closeParen →
      (∀ callee arguments, opened = .call callee arguments → token.kind ≠ .comma) →
      Stuck stop (opened :: waiting) (token :: rest) (.expectedToken "`)`" token.text) token

variable {stop token : Token} {stack waiting : List Pending} {opened : Pending}
  {term inner : Term} {spelled tokens rest : List Token} {cause : Cause}

/-! ## What the reader does -/

theorem operand_complete (h : Complete spelled term rest) :
    operand stop stack (spelled ++ rest) = afterOperand stop stack term rest := by
  rw [operand.eq_def]
  cases h with
  | literal hk => simp only [List.singleton_append, hk]
  | read hk hr =>
    cases rest with
    | nil => simp only [List.append_nil, hk]
    | cons next rest =>
      obtain ⟨hn, ha⟩ := hr next rfl
      simp only [List.singleton_append, hk, hn, ha, if_false]
      rfl
  | call hk ho hc => simp only [List.cons_append, List.nil_append, hk, ho, hc, if_true]

theorem operand_begins (h : Begins spelled opened rest) :
    operand stop stack (spelled ++ rest) = operand stop (opened :: stack) rest := by
  rw [operand.eq_def]
  cases h with
  | call hk ho hr =>
    cases rest with
    | nil => simp only [List.append_nil, hk, ho, if_true]
    | cons next rest =>
      simp only [List.cons_append, List.nil_append, hk, ho, hr next rfl, if_true, if_false]
  | assign hk ha =>
    have hn : ∀ kind : Kind, kind.isAssignment → kind ≠ .openParen := by
      rintro _ h rfl
      cases h
    simp only [List.cons_append, List.nil_append, hk, hn _ ha, ha, if_true, if_false]
  | cast ho ht hc => simp only [List.cons_append, List.nil_append, ho, ht, hc, if_true]
  | group ho hn =>
    simp only [List.singleton_append, ho]
    split
    next target closing more =>
      split
      next type ht =>
        split
        next hc => simp [hn target closing more rfl hc] at ht
        next => rfl
      next => rfl
    next => rfl
  | unary hu =>
    dsimp only [List.singleton_append]
    split
    next hk => simp [hk, Kind.unary?] at hu
    next hk => simp [hk, Kind.unary?] at hu
    next hk => simp [hk, Kind.unary?] at hu
    next => rw [hu]

theorem operand_missing (h : Missing stop tokens cause token) :
    operand stop stack tokens = abandon stack [] cause token := by
  rw [operand.eq_def]
  cases h with
  | ended => rfl
  | unexpected hl hi ho hu =>
    dsimp only
    split
    next hk => exact absurd hk (hl _)
    next hk => exact absurd hk hi
    next hk => exact absurd hk ho
    next => rw [hu]

theorem afterOperand_ends (hw : Pending.settle 0 stack term = ([], inner)) :
    afterOperand stop stack term [] = inner := by
  rw [afterOperand, hw]

theorem afterOperand_binary {op : BinaryOp} (hk : token.kind = .binary op)
    (hw : Pending.settle op.power stack term = (waiting, inner)) :
    afterOperand stop stack term (token :: rest) =
      operand stop (.binary inner op token :: waiting) rest := by
  rw [afterOperand]
  simp only [hk, hw]

theorem afterOperand_closes (hk : token.kind = .closeParen)
    (hw : Pending.settle 0 stack term = (opened :: waiting, inner)) :
    afterOperand stop stack term (token :: rest) =
      afterOperand stop waiting (opened.fill inner) rest := by
  rw [afterOperand, hw]
  by_cases hc : ∃ callee arguments, opened = .call callee arguments
  · obtain ⟨callee, arguments, rfl⟩ := hc
    simp only [hk, if_true, Pending.fill]
  · obtain rfl := Pending.eq_group_of_settle hw fun callee arguments he => hc ⟨_, _, he⟩
    simp only [hk, if_true, Pending.fill]

theorem afterOperand_comma {callee : Token} {arguments : List Term} (hk : token.kind = .comma)
    (hw : Pending.settle 0 stack term = (.call callee arguments :: waiting, inner)) :
    afterOperand stop stack term (token :: rest) =
      operand stop (.call callee (arguments ++ [inner]) :: waiting) rest := by
  rw [afterOperand, hw]
  simp [hk]

theorem afterOperand_stuck (hw : Pending.settle 0 stack term = (waiting, inner))
    (h : Stuck stop waiting tokens cause token) :
    afterOperand stop stack term tokens = abandon waiting [inner] cause token := by
  cases h with
  | unclosed => rw [afterOperand, hw]
  | extra hb =>
    rw [afterOperand, hw]
    split
    next op hk => exact absurd hk (hb op)
    next => rfl
  | @misplaced opened _ _ _ hb hc hn =>
    rw [afterOperand, hw]
    split
    next op hk => exact absurd hk (hb op)
    next =>
      cases opened with
      | call callee arguments => simp [hc, hn callee arguments rfl]
      | _ => simp [hc]

/-! ## Turn by turn -/

/-- What holds of all tokens where an operand is due, and of all tokens after an operand, if each
turn hands it back from what comes after. -/
theorem reading_induct {onDue : List Pending → List Token → Prop}
    {onAfter : List Pending → Term → List Token → Prop} (stop : Token)
    (complete : ∀ {stack spelled term rest}, Complete spelled term rest → onAfter stack term rest →
      onDue stack (spelled ++ rest))
    (begins : ∀ {stack spelled opened rest}, Begins spelled opened rest →
      onDue (opened :: stack) rest → onDue stack (spelled ++ rest))
    (missing : ∀ {stack tokens cause token}, Missing stop tokens cause token → onDue stack tokens)
    (ends : ∀ {stack term whole}, Pending.settle 0 stack term = ([], whole) → onAfter stack term [])
    (binary : ∀ {stack term token rest op waiting left}, token.kind = .binary op →
      Pending.settle op.power stack term = (waiting, left) →
      onDue (.binary left op token :: waiting) rest → onAfter stack term (token :: rest))
    (closes : ∀ {stack term token rest opened waiting inner}, token.kind = .closeParen →
      Pending.settle 0 stack term = (opened :: waiting, inner) →
      onAfter waiting (opened.fill inner) rest → onAfter stack term (token :: rest))
    (comma : ∀ {stack term token rest callee arguments waiting last}, token.kind = .comma →
      Pending.settle 0 stack term = (.call callee arguments :: waiting, last) →
      onDue (.call callee (arguments ++ [last]) :: waiting) rest →
      onAfter stack term (token :: rest))
    (stuck : ∀ {stack term tokens waiting part cause token},
      Pending.settle 0 stack term = (waiting, part) → Stuck stop waiting tokens cause token →
      onAfter stack term tokens) :
    (∀ stack tokens, onDue stack tokens) ∧ ∀ stack term tokens, onAfter stack term tokens := by
  apply operand.mutual_induct
  case case1 => exact fun _ => missing .ended
  case case2 => exact fun _ _ _ _ hk => complete (.literal hk)
  case case3 => exact fun _ _ hk => complete (.read hk (by simp))
  case case4 => exact fun _ _ hk _ ho => begins (.call hk ho (by simp))
  case case5 => exact fun _ _ hk _ ho _ _ hc => complete (.call hk ho hc)
  case case6 =>
    intro _ _ hk _ ho _ _ hn
    exact begins (.call hk ho (by rintro _ ⟨⟩; exact hn))
  case case7 => exact fun _ _ hk _ _ _ ha => begins (.assign hk ha)
  case case8 =>
    intro _ _ hk _ _ ho ha
    exact complete (.read hk (by rintro _ ⟨⟩; exact ⟨ho, ha⟩))
  case case9 => exact fun _ _ ho _ _ _ _ ht hc => begins (.cast ho ht hc)
  case case10 =>
    intro _ _ ho _ _ _ _ _ hn
    exact begins (.group ho (by rintro _ _ _ ⟨⟩ hc; exact absurd hc hn))
  case case11 =>
    intro _ _ ho _ _ _ ht
    exact begins (.group ho (by rintro _ _ _ ⟨⟩ -; exact ht))
  case case12 =>
    intro _ _ ho _ hn
    exact begins (.group ho fun target closing more he => absurd he (hn target closing more))
  case case13 => exact fun _ _ _ _ _ _ _ hu => begins (.unary hu)
  case case14 => exact fun _ _ _ hl hi ho hu => missing (.unexpected hl hi ho hu)
  case case15 => exact fun _ _ _ hw => ends hw
  case case16 =>
    intro _ _ waiting _ hn hw
    cases waiting with
    | nil => exact absurd rfl hn
    | cons opened waiting => exact stuck hw .unclosed
  case case17 => exact fun _ _ _ _ _ hk _ _ hw => binary hk hw
  case case18 => exact fun _ _ _ _ _ hw hb => stuck hw (.extra hb)
  case case19 => exact fun _ _ _ _ _ _ _ _ hw _ hc => closes hc hw
  case case20 => exact fun _ _ _ _ _ _ _ _ hw _ _ hk => comma hk hw
  case case21 => exact fun _ _ _ _ _ _ _ _ hw hb hc hk => stuck hw (.misplaced hb hc fun _ _ _ => hk)
  case case22 =>
    intro _ _ _ _ opened _ _ hn hw _ hc ih
    obtain rfl : opened = .group := Pending.eq_group_of_settle hw hn
    exact closes hc hw ih
  case case23 =>
    intro _ _ _ _ _ _ _ hn hw hb hc
    exact stuck hw (.misplaced hb hc fun callee arguments he => absurd he (hn callee arguments))

end Term

end MuLang
