import Mathlib.Data.List.TakeWhile
import MuLang.Proofs.Admissible
import MuLang.Proofs.Writing

/-!
# The modifiers of a program

What stands as a modifier in a program that has been parsed is one: every list of modifiers is what
a statement or a parameter begins with.
-/
namespace MuLang

theorem Token.areModifiers_leadingModifiers (tokens : List Token) :
    AreModifiers (leadingModifiers tokens) :=
  fun _ h => @List.mem_takeWhile_imp _ (fun token : Token => token.kind.isModifier) _ _ h

/-! ## Signatures -/

section Signatures

variable {holds : Parameter → Prop}

theorem Parameter.forall_of_listOfTokens
    (hp : ∀ last segment p, Parameter.ofTokens last segment = .ok p → holds p)
    {tokens : List Token} {parameters : List Parameter}
    (h : Parameter.listOfTokens tokens = .ok parameters) : ∀ p ∈ parameters, holds p := by
  unfold Parameter.listOfTokens at h
  split at h
  · cases h
    exact fun _ hm => absurd hm List.not_mem_nil
  next last _ =>
    replace h := Except.mapM_eq_ok.1 h
    generalize fields (·.kind = .comma) tokens = segments at h
    induction h with
    | nil => exact fun _ hm => absurd hm List.not_mem_nil
    | cons hf _ ih => exact List.forall_mem_cons.2 ⟨hp last _ _ hf, ih⟩

/-- What holds of every parameter that is read holds of those of a signature. -/
theorem Signature.forall_of_ofTokens
    (hp : ∀ last segment p, Parameter.ofTokens last segment = .ok p → holds p)
    {tokens : List Token} {allowBare : Bool} {signature : Signature}
    (h : Signature.ofTokens tokens allowBare = .ok signature) :
    ∀ p ∈ signature.parameters, holds p := by
  simp only [Signature.ofTokens, Except.bind_eq_ok, Except.ite_eq_ok, Except.pure_eq_ok] at h
  obtain ⟨-, -, identifier, -, ⟨-, rfl⟩ | ⟨-, mark, -, ⟨-, inner, -, parameters, hl, rfl⟩ |
    ⟨-, type, -, inner, -, parameters, hl, rfl⟩⟩⟩ := h
  · exact fun _ hm => absurd hm List.not_mem_nil
  · exact Parameter.forall_of_listOfTokens hp hl
  · exact Parameter.forall_of_listOfTokens hp hl

end Signatures

theorem Parameter.areModifiers_of_ofTokens {last : Token} {segment : List Token}
    {parameter : Parameter} (h : Parameter.ofTokens last segment = .ok parameter) :
    Token.AreModifiers parameter.modifiers := by
  unfold Parameter.ofTokens at h
  dsimp only at h
  split at h
  · cases h
  · split at h
    · split at h
      · cases h
      · split at h
        · cases h
        · cases h
          exact Token.areModifiers_leadingModifiers segment
    · cases h

theorem Signature.areModifiers_of_ofTokens {tokens : List Token} {allowBare : Bool}
    {signature : Signature} (h : Signature.ofTokens tokens allowBare = .ok signature)
    (words : List Token) : (signature.header (Token.leadingModifiers words)).AreModifiers :=
  ⟨Token.areModifiers_leadingModifiers words,
    Signature.forall_of_ofTokens (fun _ _ _ => Parameter.areModifiers_of_ofTokens) h⟩

/-! ## Statements -/

/-- What a statement has as modifiers, besides those of its block, are modifiers. -/
def Stmt.Modified : Stmt → Prop
  | .function header _ | .native header _ => header.AreModifiers
  | .declare header | .define header _ | .forLoop _ header _ _ _ _ =>
    Token.AreModifiers header.modifiers
  | _ => True

/-- The modifiers of what a block belongs to are modifiers. -/
def Owner.Modified : Owner → Prop
  | .statement stmt => stmt.Modified
  | _ => True

mutual

/-- The modifiers of what is written are modifiers. -/
def Written.Modified : Written → Prop
  | .line stmt => stmt.Modified
  | .block owner body => owner.Modified ∧ Written.AllModified body

def Written.AllModified : List Written → Prop
  | [] => True
  | written :: rest => written.Modified ∧ Written.AllModified rest

end

theorem Written.allModified_append {written more : List Written} :
    AllModified (written ++ more) ↔ AllModified written ∧ AllModified more := by
  induction written with
  | nil => simp [AllModified]
  | cons first rest ih => simp [AllModified, ih, and_assoc]

mutual

theorem Stmt.areModifiers_locals : ∀ {stmt : Stmt}, Written.AllModified stmt.written →
    ∀ header ∈ stmt.locals, Token.AreModifiers header.modifiers
  | .declare header, ⟨hm, _⟩ => List.forall_mem_singleton.2 hm
  | .define header _, ⟨hm, _⟩ => List.forall_mem_singleton.2 hm
  | .ifElse _ _ body otherwise, ⟨⟨_, hb⟩, ho⟩ =>
    List.forall_mem_append.2 ⟨Stmt.areModifiers_localsIn hb, Else.areModifiers_locals ho⟩
  | .whileLoop _ _ body, ⟨⟨_, hb⟩, _⟩ => Stmt.areModifiers_localsIn hb
  | .forLoop _ header _ _ _ body, ⟨⟨hv, hb⟩, _⟩ =>
    List.forall_mem_cons.2 ⟨hv, Stmt.areModifiers_localsIn hb⟩
  | .module .., _ => by simp [Stmt.locals]
  | .function .., _ => by simp [Stmt.locals]
  | .native .., _ => by simp [Stmt.locals]
  | .action _, _ => by simp [Stmt.locals]
  | .returning .., _ => by simp [Stmt.locals]
  | .stdlibFinish _, _ => by simp [Stmt.locals]

theorem Else.areModifiers_locals : ∀ {otherwise : Else}, Written.AllModified otherwise.written →
    ∀ header ∈ otherwise.locals, Token.AreModifiers header.modifiers
  | .absent, _ => by simp [Else.locals]
  | .block body, ⟨⟨_, hb⟩, _⟩ => Stmt.areModifiers_localsIn hb
  | .elseIf _ _ body otherwise, ⟨⟨_, hb⟩, ho⟩ =>
    List.forall_mem_append.2 ⟨Stmt.areModifiers_localsIn hb, Else.areModifiers_locals ho⟩

theorem Stmt.areModifiers_localsIn : ∀ {body : List Stmt},
    Written.AllModified (Stmt.writtenAll body) →
    ∀ header ∈ Stmt.localsIn body, Token.AreModifiers header.modifiers
  | [], _ => by simp [Stmt.localsIn]
  | stmt :: rest, h => by
    obtain ⟨hs, hr⟩ := Written.allModified_append.1 h
    exact List.forall_mem_append.2 ⟨Stmt.areModifiers_locals hs, Stmt.areModifiers_localsIn hr⟩

end

mutual

theorem Stmt.areModifiers_lists : ∀ {stmt : Stmt}, Written.AllModified stmt.written →
    ∀ tokens ∈ stmt.modifierLists, Token.AreModifiers tokens
  | .module _ body, ⟨⟨_, hb⟩, _⟩ => Stmt.areModifiers_listsIn hb
  | .function header body, ⟨⟨hm, hb⟩, _⟩ => by
    simp only [Stmt.modifierLists, List.cons_append, List.forall_mem_cons, List.forall_mem_append,
      List.forall_mem_map]
    exact ⟨hm.1, hm.2, Stmt.areModifiers_localsIn hb⟩
  | .native header _, ⟨hm, _⟩ => by
    simp only [Stmt.modifierLists, List.forall_mem_cons, List.forall_mem_map]
    exact hm
  | .declare header, ⟨hm, _⟩ => List.forall_mem_singleton.2 hm
  | .define header _, ⟨hm, _⟩ => List.forall_mem_singleton.2 hm
  | .action _, _ => by simp [Stmt.modifierLists]
  | .ifElse .., _ => by simp [Stmt.modifierLists]
  | .whileLoop .., _ => by simp [Stmt.modifierLists]
  | .forLoop .., _ => by simp [Stmt.modifierLists]
  | .returning .., _ => by simp [Stmt.modifierLists]
  | .stdlibFinish _, _ => by simp [Stmt.modifierLists]

theorem Stmt.areModifiers_listsIn : ∀ {body : List Stmt},
    Written.AllModified (Stmt.writtenAll body) →
    ∀ tokens ∈ Stmt.modifierListsIn body, Token.AreModifiers tokens
  | [], _ => by simp [Stmt.modifierListsIn]
  | stmt :: rest, h => by
    obtain ⟨hs, hr⟩ := Written.allModified_append.1 h
    exact List.forall_mem_append.2 ⟨Stmt.areModifiers_lists hs, Stmt.areModifiers_listsIn hr⟩

end

/-! ## Statements that are read -/

namespace Step

variable {s t : Session} {tokens : List Token}

/-- The modifiers of a declaration that is accepted are those that it has been read with. -/
theorem modifiers_of_variableStatement {modifiers : List Token}
    {result : Option (VariableHeader × Option Expr)} (hs : s.isSkimming = false)
    (h : variableStatement tokens modifiers s = (.ok result, t)) :
    ∀ declaration ∈ result, declaration.1.modifiers = modifiers := by
  obtain ⟨form, -, -, he⟩ := evaluate_variableStatement hs h
  obtain ⟨typed, type, datatype, scopes, -, rfl⟩ := evaluateVariable_ok he
  rintro _ ⟨⟩
  rfl

theorem modified_loopStatement {keyword : Token} {init test step : List Token}
    {result : Option Stmt} (hs : s.isSkimming = false)
    (h : loopStatement keyword init test step s = (.ok result, t)) :
    ∀ stmt ∈ result, stmt.Modified := by
  obtain ⟨header, _, _, _, _, _, _, hv, -, -, -, -, rfl, -⟩ := evaluate_loopStatement hs h
  rintro _ ⟨⟩
  have hm := modifiers_of_variableStatement hs hv _ rfl
  change Token.AreModifiers header.modifiers
  rw [hm]
  exact Token.areModifiers_leadingModifiers init

/-- The modifiers of a statement that is read are modifiers. -/
theorem modified_statement {result : Option Stmt} (hs : s.isSkimming = false)
    (h : statement tokens s = (.ok result, t)) : ∀ stmt ∈ result, stmt.Modified := by
  unfold statement at h
  cases ha : Token.afterModifiers tokens with
  | nil =>
    rw [ha] at h
    obtain ⟨rfl, -⟩ := Fallible.pure_eq_ok.1 h
    simp
  | cons first rest =>
    rw [ha] at h
    have declaration {typed : Option (VariableHeader × Option Expr)}
        (hv : variableStatement (first :: rest) (Token.leadingModifiers tokens) s = (.ok typed, t)) :
        ∀ stmt ∈ typed.map declared, stmt.Modified := by
      have hm := modifiers_of_variableStatement hs hv
      have hl := Token.areModifiers_leadingModifiers tokens
      rcases typed with _ | ⟨header, _ | value⟩
      · simp
      · rintro _ ⟨⟩
        rwa [← hm _ rfl] at hl
      · rintro _ ⟨⟩
        rwa [← hm _ rfl] at hl
    dsimp only at h
    generalize first.kind = kind at h
    split at h
    · obtain ⟨identifier, -, -, rfl, -⟩ := moduleStatement_ok h
      rw [hs]
      rintro _ ⟨⟩
      trivial
    · obtain ⟨signature, definition, hh, -, -, rfl, -⟩ := evaluate_functionStatement hs h
      rintro _ ⟨⟩
      exact Signature.areModifiers_of_ofTokens hh tokens
    · obtain ⟨signature, binding, hh, -, rfl, -⟩ := evaluate_nativeStatement hs h
      rintro _ ⟨⟩
      exact Signature.areModifiers_of_ofTokens hh tokens
    · obtain ⟨head, -, rfl⟩ := Fallible.map_eq_ok.1 h
      intro stmt hm
      obtain ⟨_, -, rfl⟩ := Option.map_eq_some_iff.1 hm
      trivial
    · obtain ⟨-, keyword, value, scopes, rfl, -⟩ := evaluate_whileStatement hs h
      rintro _ ⟨⟩
      trivial
    · obtain ⟨-, keyword, init, test, step, hl⟩ := forStatement_ok h
      exact modified_loopStatement (by exact hs) hl
    · obtain ⟨-, keyword, value, scopes, rfl, -⟩ := evaluate_returnStatement hs h
      rintro _ ⟨⟩
      trivial
    · obtain ⟨-, -, -, hr⟩ := finishStatement_ok h
      intro stmt hm
      obtain ⟨keyword, rfl⟩ := hr stmt hm
      trivial
    · obtain ⟨action, -, rfl⟩ := Fallible.map_eq_ok.1 h
      intro stmt hm
      obtain ⟨_, -, rfl⟩ := Option.map_eq_some_iff.1 hm
      trivial
    · obtain ⟨typed, hv, rfl⟩ := Fallible.map_eq_ok.1 h
      exact declaration hv
    · obtain ⟨typed, hv, rfl⟩ := Fallible.map_eq_ok.1 h
      exact declaration hv
    · simp at h
      obtain ⟨-, -, rfl, -⟩ := h
      simp
    · exact absurd h (fails_fail _ _ _ _ _)

theorem modified_closed {result : Option Stmt} (hs : s.isSkimming = false)
    (h : closed tokens s = (.ok result, t)) : ∀ stmt ∈ result, stmt.Modified := by
  unfold closed at h
  cases hb : Token.block? tokens with
  | some kind =>
    simp only [hb] at h
    exact absurd h (fails_ofExcept_bind_fail _ _ _ _ _ _)
  | none =>
    simp only [hb] at h
    exact modified_statement hs h

theorem modified_owner {chain : Chain} {result : Option Owner} (hs : s.isSkimming = false)
    (h : owner chain tokens s = (.ok result, t)) : ∀ owner ∈ result, owner.Modified := by
  unfold owner at h
  cases hb : Token.block? tokens with
  | none =>
    simp only [hb] at h
    exact absurd h (fails_ofExcept_bind_fail _ _ _ _ _ _)
  | some kind =>
    simp only [hb] at h
    obtain ⟨-, h⟩ | ⟨-, h⟩ := Fallible.ite_eq_ok.1 h
    · obtain ⟨-, next, -, ⟨-, -, rfl⟩ | ⟨-, head, -, rfl⟩⟩ := elseOwner_ok h
      · rintro _ ⟨⟩
        trivial
      · intro owner ho
        obtain ⟨_, -, rfl⟩ := Option.map_eq_some_iff.1 ho
        trivial
    · obtain ⟨read, hread, rfl⟩ := Fallible.map_eq_ok.1 h
      intro owner ho
      obtain ⟨stmt, hm, rfl⟩ := Option.map_eq_some_iff.1 ho
      exact modified_statement hs hread stmt hm

end Step

theorem Item.Writes.allModified {s t : Session} {items : List Item} {written : List Written}
    (h : Writes s items t written) : Written.AllModified written := by
  induction h with
  | nil => trivial
  | @line _ _ _ _ _ _ _ _ result _ hs hr _ _ ih =>
    refine Written.allModified_append.2 ⟨?_, ih⟩
    have hm := Step.modified_closed hs hr
    cases result with
    | none => trivial
    | some stmt => exact ⟨hm stmt rfl, trivial⟩
  | block hs hr _ _ _ _ ihi ih => exact ⟨⟨Step.modified_owner hs hr _ rfl, ihi⟩, ih⟩

/-- In a program that is parsed without an error all words among the modifiers are modifiers. -/
theorem areModifiers_of_parse {settings : Settings} {tokens : List Token} {program : List Stmt}
    (hb : settings.maxErrors ≠ some 0) (h : parse settings tokens = (some program, [])) :
    ∀ words ∈ Stmt.modifierListsIn program, Token.AreModifiers words := by
  obtain ⟨items, t, -, hwrites⟩ := exists_writes_of_parse hb h
  exact Stmt.areModifiers_listsIn hwrites.allModified

end MuLang
