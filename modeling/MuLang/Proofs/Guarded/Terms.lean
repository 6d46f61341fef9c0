import MuLang.Proofs.Guarded.Names
import MuLang.Proofs.Parentheses
import MuLang.Proofs.Check

/-!
# Guarded expressions

The tokens of an expression are loaded with one more that ends it, and a cursor moves over them. It
never leaves them, since nothing moves it past the token that ends them.
-/
namespace MuLang

namespace Guarded

mutual

/-- Reads on where an operand is due. -/
def operand (loaded : List Token) (stack : List Pending) (position : Nat) : Guarded Term :=
  if h : position < loaded.length then
    let token := loaded[position]
    match token.kind with
    | .endOfFile =>
      .ok (Term.abandon stack [] (.expectedToken "an expression" token.text) token)
    | .literal kind => afterOperand loaded stack (.literal kind token) (position + 1)
    | .identifier => do
      let next ← Guarded.token loaded (position + 1)
      if next.kind = .openParen then
        let close ← Guarded.token loaded (position + 2)
        if close.kind = .closeParen then
          afterOperand loaded stack (.call token []) (position + 3)
        else operand loaded (.call token [] :: stack) (position + 2)
      else if next.kind.isAssignment then
        operand loaded (.assign token next :: stack) (position + 2)
      else afterOperand loaded stack (.read token) (position + 1)
    | .openParen => do
      let target ← Guarded.token loaded (position + 1)
      match target.kind.typeName? with
      | some type =>
        if loaded[position + 2]?.any (·.kind = .closeParen) then
          operand loaded (.cast type target :: stack) (position + 3)
        else operand loaded (.group :: stack) (position + 1)
      | none => operand loaded (.group :: stack) (position + 1)
    | kind =>
      match kind.unary? with
      | some op => operand loaded (.unary op token :: stack) (position + 1)
      | none => .ok (Term.abandon stack [] (.unexpectedToken token.text) token)
  else .error (.index position loaded.length)
termination_by loaded.length - position

/-- Reads on after a complete operand. -/
def afterOperand (loaded : List Token) (stack : List Pending) (term : Term) (position : Nat) :
    Guarded Term :=
  if h : position < loaded.length then
    let token := loaded[position]
    match token.kind with
    | .endOfFile =>
      match Pending.settle 0 stack term with
      | ([], whole) => .ok whole
      | (waiting, part) =>
        .ok (Term.abandon waiting [part] (.expectedToken "`)`" token.text) token)
    | .binary op =>
      let (waiting, left) := Pending.settle op.power stack term
      operand loaded (.binary left op token :: waiting) (position + 1)
    | kind =>
      match Pending.settle 0 stack term with
      | ([], whole) => .ok (Term.abandon [] [whole] (.unexpectedToken token.text) token)
      | (.call callee arguments :: waiting, last) =>
        if kind = .closeParen then
          afterOperand loaded waiting (.call callee (arguments ++ [last])) (position + 1)
        else if kind = .comma then
          operand loaded (.call callee (arguments ++ [last]) :: waiting) (position + 1)
        else
          .ok (Term.abandon (.call callee arguments :: waiting) [last]
            (.expectedToken "`)`" token.text) token)
      | (opened :: waiting, inner) =>
        if kind = .closeParen then afterOperand loaded waiting inner (position + 1)
        else .ok (Term.abandon (opened :: waiting) [inner] (.expectedToken "`)`" token.text) token)
  else .error (.index position loaded.length)
termination_by loaded.length - position

end

/-- The term that a list of tokens spells. Without tokens nothing is loaded. -/
def read (tokens : List Token) (context : Token) : Guarded Term :=
  match tokens.getLast? with
  | none => .ok (Term.ofTokens tokens context)
  | some last => operand (tokens ++ [endOfExpression last]) [] 0

/-! ## The cursor never leaves what is loaded -/

/-- The cursor stands before some tokens, which the token that ends the expression follows. -/
structure Stands (loaded : List Token) (stop : Token) (position : Nat) (tokens : List Token) :
    Prop where
  drop_eq : loaded.drop position = tokens ++ [stop]
  stops : stop.kind = .endOfFile
  ordinary : ∀ token ∈ tokens, token.kind ≠ .endOfFile

namespace Stands

variable {loaded spelled tokens rest : List Token} {stop token : Token} {position : Nat}

theorem skip (h : Stands loaded stop position (spelled ++ rest)) :
    Stands loaded stop (position + spelled.length) rest := by
  refine ⟨?_, h.stops, (List.forall_mem_append.1 h.ordinary).2⟩
  rw [← List.drop_drop, h.drop_eq, List.append_assoc, List.drop_left]

theorem next (h : Stands loaded stop position (token :: tokens)) :
    Stands loaded stop (position + 1) tokens := @skip loaded [token] tokens stop position h

/-- The cursor stands at the first of the tokens, or where there is none at the one that ends them. -/
theorem getElem?_eq (h : Stands loaded stop position tokens) :
    loaded[position]? = some (tokens.headD stop) := by
  rw [← List.head?_drop, h.drop_eq]
  cases tokens <;> rfl

theorem token_eq (h : Stands loaded stop position tokens) :
    Guarded.token loaded position = .ok (tokens.headD stop) := token_of_getElem? h.getElem?_eq

theorem lookup (h : Stands loaded stop position tokens) :
    ∃ hlt : position < loaded.length, loaded[position] = tokens.headD stop :=
  List.getElem?_eq_some_iff.1 h.getElem?_eq

/-- What is asked of the first token, if there is one, is asked of the token at the cursor. -/
theorem headD_kind (h : Stands loaded stop position tokens) (P : Kind → Prop) (he : P .endOfFile)
    (ht : ∀ next ∈ tokens.head?, P next.kind) : P (tokens.headD stop).kind := by
  cases tokens with
  | nil => exact h.stops ▸ he
  | cons next rest => exact ht next rfl

theorem ordinary_head (h : Stands loaded stop position (token :: tokens)) :
    token.kind ≠ .endOfFile := h.ordinary token (.head _)

end Stands

section Turns

variable {loaded spelled tokens rest : List Token} {stop token : Token} {position : Nat}
  {stack waiting : List Pending} {term part : Term} {opened : Pending} {cause : Cause}

theorem operand_complete (h : Stands loaded stop position (spelled ++ rest))
    (hc : Term.Complete spelled term rest) : operand loaded stack position =
      afterOperand loaded stack term (position + spelled.length) := by
  obtain ⟨hlt, hget⟩ := h.lookup
  rw [operand, dif_pos hlt]
  cases hc with
  | literal hk =>
    simp only [hget, List.singleton_append, List.headD_cons, hk]
    rfl
  | read hk hr =>
    have hnext : Guarded.token loaded (position + 1) = .ok (rest.headD stop) := h.next.token_eq
    have hkind : (rest.headD stop).kind ≠ .openParen ∧ ¬(rest.headD stop).kind.isAssignment :=
      h.next.headD_kind (fun kind => kind ≠ .openParen ∧ ¬kind.isAssignment) ⟨nofun, nofun⟩ hr
    simp only [hget, List.singleton_append, List.headD_cons, hk, hnext, bind, Except.bind,
      if_neg hkind.1, if_neg hkind.2]
    rfl
  | @call callee opening closing _ hk ho hc =>
    have hnext : Guarded.token loaded (position + 1) = .ok opening := h.next.token_eq
    have hclose : Guarded.token loaded (position + 2) = .ok closing := h.next.next.token_eq
    simp only [hget, List.cons_append, List.headD_cons, hk, hnext, bind, Except.bind, ho, hclose,
      hc, if_true]
    rfl

theorem operand_begins (h : Stands loaded stop position (spelled ++ rest))
    (hb : Term.Begins spelled opened rest) : operand loaded stack position =
      operand loaded (opened :: stack) (position + spelled.length) := by
  obtain ⟨hlt, hget⟩ := h.lookup
  rw [operand, dif_pos hlt]
  cases hb with
  | @call callee opening _ hk ho hr =>
    have hnext : Guarded.token loaded (position + 1) = .ok opening := h.next.token_eq
    have hclose : Guarded.token loaded (position + 2) = .ok (rest.headD stop) :=
      h.next.next.token_eq
    have hn : (rest.headD stop).kind ≠ .closeParen :=
      h.next.next.headD_kind (· ≠ .closeParen) nofun hr
    simp only [hget, List.cons_append, List.headD_cons, hk, hnext, bind, Except.bind, ho, hclose,
      if_true, if_neg hn]
    rfl
  | @assign assignee operator _ hk ha =>
    have hnext : Guarded.token loaded (position + 1) = .ok operator := h.next.token_eq
    have hn : operator.kind ≠ .openParen := by
      intro hn
      rw [hn] at ha
      cases ha
    simp only [hget, List.cons_append, List.headD_cons, hk, hnext, bind, Except.bind, if_neg hn,
      if_pos ha]
    rfl
  | @cast opening target closing _ _ ho ht hc =>
    have hnext : Guarded.token loaded (position + 1) = .ok target := h.next.token_eq
    have hclose : loaded[position + 2]? = some closing := h.next.next.getElem?_eq
    simp only [hget, List.cons_append, List.headD_cons, ho, hnext, bind, Except.bind, ht, hclose,
      Option.any_some, hc, decide_true, if_true]
    rfl
  | group ho hn =>
    have hnext : Guarded.token loaded (position + 1) = .ok (rest.headD stop) := h.next.token_eq
    simp only [hget, List.singleton_append, List.headD_cons, ho, hnext, bind, Except.bind]
    -- A cast needs the name of a type and a closing parenthesis, and one of them is not there.
    rcases rest with _ | ⟨target, rest⟩
    · simp only [List.headD_nil, h.stops, Kind.typeName?]
      rfl
    · have hclose : loaded[position + 2]? = some (rest.headD stop) := h.next.next.getElem?_eq
      cases ht : target.kind.typeName? with
      | none =>
        simp only [List.headD_cons, ht]
        rfl
      | some type =>
        have hc : (rest.headD stop).kind ≠ .closeParen := by
          refine h.next.next.headD_kind (· ≠ .closeParen) nofun fun closing hm hc => ?_
          obtain ⟨more, rfl⟩ := List.head?_eq_some_iff.1 hm
          rw [hn target closing more rfl hc] at ht
          cases ht
        simp only [List.headD_cons, ht, hclose, Option.any_some, hc, decide_false, if_false,
          Bool.false_eq_true]
        rfl
  | unary hu =>
    simp only [hget, List.singleton_append, List.headD_cons]
    split
    next hk => simp [hk, Kind.unary?] at hu
    next hk => simp [hk, Kind.unary?] at hu
    next hk => simp [hk, Kind.unary?] at hu
    next hk => simp [hk, Kind.unary?] at hu
    next =>
      rw [hu]
      rfl

theorem operand_missing (h : Stands loaded stop position tokens)
    (hm : Term.Missing stop tokens cause token) :
    operand loaded stack position = .ok (Term.abandon stack [] cause token) := by
  obtain ⟨hlt, hget⟩ := h.lookup
  rw [operand, dif_pos hlt]
  cases hm with
  | ended => simp only [hget, List.headD_nil, h.stops]
  | unexpected hl hi hp hu =>
    simp only [hget, List.headD_cons]
    split
    next he => exact absurd he h.ordinary_head
    next he => exact (hl _ he).elim
    next he => exact (hi he).elim
    next he => exact (hp he).elim
    next => rw [hu]

theorem afterOperand_stuck (h : Stands loaded stop position tokens)
    (hw : Pending.settle 0 stack term = (waiting, part))
    (hs : Term.Stuck stop waiting tokens cause token) :
    afterOperand loaded stack term position = .ok (Term.abandon waiting [part] cause token) := by
  obtain ⟨hlt, hget⟩ := h.lookup
  rw [afterOperand, dif_pos hlt]
  cases hs with
  | unclosed => simp only [hget, List.headD_nil, h.stops, hw]
  | extra hb =>
    simp only [hget, List.headD_cons, hw]
    split
    next he => exact absurd he h.ordinary_head
    next op he => exact (hb op he).elim
    next => rfl
  | @misplaced opened _ _ _ hb hc hn =>
    simp only [hget, List.headD_cons, hw]
    split
    next he => exact absurd he h.ordinary_head
    next op he => exact (hb op he).elim
    next =>
      cases opened with
      | call callee arguments => simp only [if_neg hc, if_neg (hn callee arguments rfl)]
      | _ => simp only [if_neg hc]

end Turns

/-- From wherever the cursor stands, all that is left is read as it is without a cursor. -/
theorem read_cursor (loaded : List Token) (stop : Token) :
    (∀ (stack : List Pending) (tokens : List Token) (position : Nat),
      Stands loaded stop position tokens →
        operand loaded stack position = .ok (Term.operand stop stack tokens)) ∧
    ∀ (stack : List Pending) (term : Term) (tokens : List Token) (position : Nat),
      Stands loaded stop position tokens →
        afterOperand loaded stack term position = .ok (Term.afterOperand stop stack term tokens) := by
  apply Term.reading_induct stop
  case complete =>
    intro stack spelled term rest hc ih position h
    rw [operand_complete h hc, Term.operand_complete hc]
    exact ih _ h.skip
  case begins =>
    intro stack spelled opened rest hb ih position h
    rw [operand_begins h hb, Term.operand_begins hb]
    exact ih _ h.skip
  case missing =>
    intro stack tokens cause token hm position h
    rw [operand_missing h hm, Term.operand_missing hm]
  case ends =>
    intro stack term whole hw position h
    obtain ⟨hlt, hget⟩ := h.lookup
    rw [Term.afterOperand_ends hw, afterOperand, dif_pos hlt]
    simp only [hget, List.headD_nil, h.stops, hw]
  case binary =>
    intro stack term token rest op waiting left hk hw ih position h
    obtain ⟨hlt, hget⟩ := h.lookup
    rw [Term.afterOperand_binary hk hw, afterOperand, dif_pos hlt]
    simp only [hget, List.headD_cons, hk, hw]
    exact ih _ h.next
  case closes =>
    intro stack term token rest opened waiting inner hk hw ih position h
    obtain ⟨hlt, hget⟩ := h.lookup
    rw [Term.afterOperand_closes hk hw, ← ih _ h.next, afterOperand, dif_pos hlt]
    by_cases hc : ∃ callee arguments, opened = .call callee arguments
    · obtain ⟨callee, arguments, rfl⟩ := hc
      simp only [hget, List.headD_cons, hk, hw, if_true, Pending.fill]
    · obtain rfl := Pending.eq_group_of_settle hw fun callee arguments he => hc ⟨_, _, he⟩
      simp only [hget, List.headD_cons, hk, hw, if_true, Pending.fill]
  case comma =>
    intro stack term token rest callee arguments waiting last hk hw ih position h
    obtain ⟨hlt, hget⟩ := h.lookup
    rw [Term.afterOperand_comma hk hw, afterOperand, dif_pos hlt]
    simp only [hget, List.headD_cons, hk, hw, if_true]
    exact ih _ h.next
  case stuck =>
    intro stack term tokens waiting part cause token hw hs position h
    rw [afterOperand_stuck h hw hs, Term.afterOperand_stuck hw hs]

/-- The tokens of an expression among which none ends the file are read without leaving them. -/
theorem read_eq {tokens : List Token} (h : ∀ token ∈ tokens, token.kind ≠ .endOfFile)
    (context : Token) : read tokens context = .ok (Term.ofTokens tokens context) := by
  unfold read
  cases hlast : tokens.getLast? with
  | none => rfl
  | some last =>
    rw [Term.ofTokens, hlast]
    exact (read_cursor (tokens ++ [endOfExpression last]) (endOfExpression last)).1 [] tokens 0
      ⟨rfl, rfl, h⟩

/-! ## Typing -/

/-- A read of a variable. -/
def readName (env : Env) (scopes : ScopeStack) (identifier : Token) : Checked Expr := do
  match ← resolve env scopes identifier with
  | ⟨.localAt _, v⟩ =>
    if v.initialized then return .read v.datatype identifier
    else throw (.atToken (.variableNotInitialized identifier.text) identifier)
  | ⟨.globalOf _, v⟩ => return .read v.datatype identifier

/-- Carries out an assignment, which has the type of the variable. -/
def store (env : Env) (identifier operator : Token) (value : Expr) :
    Watched ScopeStack Datatype := do
  let (type, scopes) ← Watched.check (assign env (← get) identifier operator value)
  set scopes
  return type

mutual

/-- The typed expression that a term stands for. -/
def check (env : Env) : Term → Watched ScopeStack Expr
  | .literal kind value => Watched.plain (ofExcept (Env.literal kind value))
  | .read identifier => do Watched.check (readName env (← get) identifier)
  | .binary left op operator right => do
    let left ← check env left
    let right ← check env right
    Watched.plain (ofExcept (Env.binary left op operator right))
  | .unary op operator right => do
    let right ← check env right
    Watched.plain (ofExcept (Env.unary op operator right))
  | .cast type target value => do
    let value ← check env value
    Watched.plain (ofExcept (Env.cast type target value))
  | .assign assignee operator value => do
    let value ← check env value
    let type ← store env assignee operator value
    return .assign type assignee operator value
  | .call callee arguments => do
    let arguments ← checkAll env arguments
    let inner ← Watched.access (current (← get))
    let type ← Watched.check (call env inner.module callee (arguments.map Expr.type))
    return .call type callee arguments
  | .broken parts error => do
    let _ ← checkAll env parts
    throw error

/-- The typed expressions that some terms stand for, checked one after the other. -/
def checkAll (env : Env) : List Term → Watched ScopeStack (List Expr)
  | [] => return []
  | term :: rest => do
    let first ← check env term
    let others ← checkAll env rest
    return first :: others

end

/-- Reads and types the tokens of an expression. -/
def expression (env : Env) (tokens : List Token) (context : Token) : Watched ScopeStack Expr := do
  let term ← Watched.access (read tokens context)
  check env term

/-- The module of the innermost scope is there. -/
def Houses (env : Env) (scopes : ScopeStack) : Prop := env.table.contains scopes.currentModule

section

open Watched (Agrees)

variable {env : Env} {scopes : ScopeStack}

theorem agrees_readName (hu : env.table.Upward) (hs : Houses env scopes)
    (identifier : Token) :
    Checked.Agrees (readName env scopes identifier) (env.read scopes identifier) := by
  have hread : env.read scopes identifier = env.resolve scopes identifier >>= fun
      | ⟨.localAt _, v⟩ =>
        if v.initialized then .ok (.read v.datatype identifier)
        else .error (.atToken (.variableNotInitialized identifier.text) identifier)
      | ⟨.globalOf _, v⟩ => .ok (.read v.datatype identifier) := by
    rw [Env.read]
    rcases env.resolve scopes identifier with error | ⟨_ | _, v⟩ <;> rfl
  rw [hread]
  refine .bind (agrees_resolve hu hs identifier) fun resolved _ => ?_
  rcases resolved with ⟨_ | _, v⟩
  · exact .ite (fun _ => .pure _) fun _ => .throw _
  · exact .pure _

theorem agrees_store (hu : env.table.Upward) (hs : Houses env scopes) (identifier operator : Token)
    (value : Expr) :
    Agrees (Houses env) (store env identifier operator value) (env.store identifier operator value)
      scopes := by
  refine .get_bind (.bind (.check hs (agrees_assign hu hs identifier operator value)) ?_)
  rintro ⟨type, marked⟩ _ ha hs
  obtain ⟨hassign, -⟩ := Fallible.ofExcept_eq_ok.1 ha
  have hm : Houses env marked := by
    rwa [Houses, ← ScopeStack.currentModule_bare,
      ScopeStack.bare_eq_of_unmarked_eq (Env.unmarked_of_assign hassign),
      ScopeStack.currentModule_bare]
  exact .bind (.set hm) fun _ after _ hafter => .pure hafter _

mutual

/-- A term is typed with all accesses in range. -/
theorem agrees_check (hu : env.table.Upward) : ∀ (term : Term) (scopes : ScopeStack),
    Houses env scopes → Agrees (Houses env) (check env term) (term.check env) scopes
  | .literal kind value, scopes, hs => by
    rw [check, Term.check]
    exact .answer hs _
  | .read identifier, scopes, hs => by
    rw [check, Term.check]
    exact .get_bind (.check hs (agrees_readName hu hs identifier))
  | .binary left op operator right, scopes, hs => by
    rw [check, Term.check]
    refine .bind (agrees_check hu left scopes hs) fun left middle _ hm => ?_
    refine .bind (agrees_check hu right middle hm) fun right after _ ha => ?_
    exact .answer ha _
  | .unary op operator right, scopes, hs => by
    rw [check, Term.check]
    refine .bind (agrees_check hu right scopes hs) fun right after _ ha => ?_
    exact .answer ha _
  | .cast type target value, scopes, hs => by
    rw [check, Term.check]
    refine .bind (agrees_check hu value scopes hs) fun value after _ ha => ?_
    exact .answer ha _
  | .assign assignee operator value, scopes, hs => by
    rw [check, Term.check]
    refine .bind (agrees_check hu value scopes hs) fun value middle _ hm => ?_
    exact .bind (agrees_store hu hm assignee operator value) fun type after _ ha => .pure ha _
  | .call callee arguments, scopes, hs => by
    rw [check, Term.check]
    refine .bind (agrees_checkAll hu arguments scopes hs) fun arguments after _ ha => ?_
    refine .get_bind (.access_bind (current_eq after) ?_)
    exact .bind (.check ha (agrees_call hu ha callee _)) fun type last _ hl => .pure hl _
  | .broken parts error, scopes, hs => by
    rw [check, Term.check]
    exact .bind (agrees_checkAll hu parts scopes hs) fun _ after _ ha => .throw ha error

theorem agrees_checkAll (hu : env.table.Upward) : ∀ (terms : List Term) (scopes : ScopeStack),
    Houses env scopes → Agrees (Houses env) (checkAll env terms) (Term.checkAll env terms) scopes
  | [], scopes, hs => by
    rw [checkAll, Term.checkAll]
    exact .pure hs _
  | term :: rest, scopes, hs => by
    rw [checkAll, Term.checkAll]
    refine .bind (agrees_check hu term scopes hs) fun first middle _ hm => ?_
    exact .bind (agrees_checkAll hu rest middle hm) fun others after _ ha => .pure ha _

end

theorem agrees_expression (hu : env.table.Upward) {tokens : List Token}
    (ht : ∀ token ∈ tokens, token.kind ≠ .endOfFile) (hs : Houses env scopes) (context : Token) :
    Agrees (Houses env) (expression env tokens context) (env.expression tokens context) scopes :=
  .access_bind (read_eq ht context) (agrees_check hu _ scopes hs)

end

end Guarded

end MuLang
