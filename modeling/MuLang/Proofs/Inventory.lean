import MuLang.Proofs.Outside
import MuLang.Proofs.Rearrangement
import MuLang.Proofs.Twin
import MuLang.Proofs.Visibility

/-!
# What a program registers

Where no global has to wait for the type of its value, the first pass adds to its table what each
item says, one after the other, and nothing else. What an item says does not depend on what has been
read before. The second pass finds all of it in the table, and adds nothing.
-/
namespace MuLang

/-- Whether globals may be declared in a block of some kind, or at the top level. -/
def ScopeKind.admitsGlobals (kind : ScopeKind) (stdlib : Bool) : Bool :=
  match kind with
  | .module => true
  | .program => stdlib
  | _ => false

theorem Session.admitsGlobals_eq (s : Session) :
    s.admitsGlobals = s.scopes.currentKind.admitsGlobals s.stdlib := by
  unfold admitsGlobals ScopeKind.admitsGlobals
  cases s.scopes.currentKind <;> rfl

/-- A module that is there is not added again. -/
theorem SymbolTable.register_module_of_held {table : SymbolTable} {parent : ModulePath}
    {name : String} (h : ¬table.Lacks (.module parent name)) :
    table.register (.module parent name) = table := by
  rw [register, Entry.add, addModule, if_pos (Decidable.not_not.1 h)]

/-! ## What items say -/

namespace Token

/-- The function that the head of its body declares. -/
def functionOf? (tokens modifiers : List Token) : Option FunctionDefinition :=
  (Signature.ofTokens tokens.dropLast true).toOption.bind fun signature =>
    ((signature.header modifiers).definition (.interpreted [])).toOption

/-- The function that a native function is declared as. -/
def nativeOf? (tokens modifiers : List Token) : Option FunctionDefinition :=
  (expectAt tokens (tokens.length - 2) (· = .literal .string) "a binding namespace").toOption.bind
    fun binding => (Signature.ofTokens (tokens.take (tokens.length - 3)).tail false).toOption.bind
      fun signature => ((signature.header modifiers).definition
        (.native (nativeName (signature.header modifiers) binding) none)).toOption

/-- The global that a declaration with a written type says. -/
def globalOf? (tokens modifiers : List Token) : Option Variable :=
  (VariableForm.ofTokens tokens).toOption.bind fun form =>
    (form.typeKeyword.datatype? (areNullable modifiers)).map fun type =>
      ⟨form.identifier.text, type, Token.modifiers modifiers, true⟩

/-- What a statement adds to a module, or the head of a block. -/
def addition? (path : ModulePath) (tokens : List Token) : Option Entry :=
  let modifiers := leadingModifiers tokens
  let rest := afterModifiers tokens
  match rest.head?.map fun first : Token => first.kind with
  | some (.keyword .moduleWord) =>
    (expectName rest 1 "a module name").toOption.map fun identifier => .module path identifier.text
  | some (.keyword .fnWord) => (functionOf? rest modifiers).map (.function path)
  | some (.keyword .natWord) => (nativeOf? rest modifiers).map (.function path)
  | some (.typeName _) => (globalOf? rest modifiers).map (.global path)
  | _ => none

/-- What is added belongs to the module that the statement stands in. -/
theorem owner_of_addition? {path : ModulePath} {tokens : List Token} {entry : Entry}
    (h : addition? path tokens = some entry) : entry.owner = path := by
  unfold addition? at h
  dsimp only at h
  split at h
  · obtain ⟨_, -, rfl⟩ := Option.map_eq_some_iff.1 h
    rfl
  · obtain ⟨_, -, rfl⟩ := Option.map_eq_some_iff.1 h
    rfl
  · obtain ⟨_, -, rfl⟩ := Option.map_eq_some_iff.1 h
    rfl
  · obtain ⟨_, -, rfl⟩ := Option.map_eq_some_iff.1 h
    rfl
  · cases h

end Token

namespace Item

mutual

/-- What an item adds to a module, with what it adds to the modules inside. -/
def entries (path : ModulePath) : Item → List Entry
  | .line words stop _ _ => (Token.addition? path (words ++ [stop])).toList
  | .block head opening body _ _ _ _ =>
    match Token.addition? path (head ++ [opening]) with
    | some (.module parent name) => .module parent name :: entriesIn (parent ++ [name]) body
    | entry? => entry?.toList

def entriesIn (path : ModulePath) : List Item → List Entry
  | [] => []
  | item :: rest => item.entries path ++ entriesIn path rest

end

mutual

theorem rooted_entries : ∀ {item : Item} {path : ModulePath} {paths : List ModulePath},
    path ∈ paths → Entry.Rooted paths (item.entries path)
  | .line words stop _ _, path, paths, h => by
    rw [entries]
    cases ha : Token.addition? path (words ++ [stop]) with
    | none => trivial
    | some entry =>
      obtain rfl := Token.owner_of_addition? ha
      cases entry with
      | module => trivial
      | function | global => exact ⟨h, trivial⟩
  | .block head opening body _ _ _ _, path, paths, h => by
    rw [entries]
    cases ha : Token.addition? path (head ++ [opening]) with
    | none => trivial
    | some entry =>
      obtain rfl := Token.owner_of_addition? ha
      cases entry with
      | module parent name => exact rooted_entriesIn (List.mem_append_right _ (.head _))
      | function | global => exact ⟨h, trivial⟩

/-- What items add belongs to their module and to the modules in it. -/
theorem rooted_entriesIn : ∀ {items : List Item} {path : ModulePath} {paths : List ModulePath},
    path ∈ paths → Entry.Rooted paths (entriesIn path items)
  | [], _, _, _ => trivial
  | _ :: _, _, _, h => (rooted_entries h).append (rooted_entriesIn h)

end

/-! ## Globals whose types are written -/

mutual

/-- No global of an item starts with `?`. The kind is that of the block around it. -/
def Explicit (kind : ScopeKind) (stdlib : Bool) : Item → Prop
  | .line words stop _ _ => kind.admitsGlobals stdlib →
    Token.startsWith .question (words ++ [stop]) = false
  | .block head opening body _ _ _ _ => ExplicitIn (Token.openedKind head opening) stdlib body

/-- The types of all globals are written. -/
def ExplicitIn (kind : ScopeKind) (stdlib : Bool) : List Item → Prop
  | [] => True
  | item :: rest => item.Explicit kind stdlib ∧ ExplicitIn kind (stdlib && !item.finishes) rest

end

/-- Inside of blocks the mode does not matter. -/
theorem explicitIn_congr {kind : ScopeKind} (hk : kind ≠ .program) (first second : Bool)
    (items : List Item) : ExplicitIn kind first items ↔ ExplicitIn kind second items := by
  induction items using Item.induction generalizing kind first second with
  | nil => rfl
  | line words stop whole stops rest ih =>
    have hg : kind.admitsGlobals first = kind.admitsGlobals second := by
      cases kind <;> first | rfl | exact absurd rfl hk
    rw [ExplicitIn, ExplicitIn, Explicit, Explicit, hg, ih hk _ (second && _)]
  | block head opening inner closing whole opens closes rest ihi ih =>
    have hb : Token.openedKind head opening ≠ .program := Token.blockKind_ne_program _
    rw [ExplicitIn, ExplicitIn, Explicit, Explicit, ihi hb first second, ih hk _ (second && _)]

theorem explicit_congr {kind : ScopeKind} (hk : kind ≠ .program) (first second : Bool)
    (item : Item) : item.Explicit kind first ↔ item.Explicit kind second := by
  simpa [ExplicitIn] using explicitIn_congr hk first second [item]

end Item

/-! ## What a line says -/

namespace Step

variable {s t : Session} {tokens modifiers : List Token} {result : Option Stmt}

/-- A line that is read outside of functions declares a native function or a global, or nothing. -/
inductive Says (tokens : List Token) (s : Session) : Option Stmt → Session → Prop
  | native {first : Token} {rest : List Token} {result : Option Stmt} {t : Session} :
      Token.afterModifiers tokens = first :: rest → first.kind = .keyword .natWord →
      nativeStatement (first :: rest) (Token.leadingModifiers tokens) s = (.ok result, t) →
      Says tokens s result t
  | global {first : Token} {rest : List Token} {name : TypeName} {t : Session}
      {declaration : Option (VariableHeader × Option Expr)} :
      Token.afterModifiers tokens = first :: rest → first.kind = .typeName name →
      s.admitsGlobals →
      variableStatement (first :: rest) (Token.leadingModifiers tokens) s = (.ok declaration, t) →
      Says tokens s (declaration.map declared) t
  | nothing {result : Option Stmt} {t : Session} : (∀ path, Token.addition? path tokens = none) →
      t.table = s.table → t.deferred = s.deferred →
      (∀ stmt ∈ result, ∃ keyword, stmt = .stdlibFinish keyword) → Says tokens s result t

theorem admitsGlobals_of_variable {declaration : Option (VariableHeader × Option Expr)}
    (hf : s.scopes.inFunction = false)
    (h : variableStatement tokens modifiers s = (.ok declaration, t)) : s.admitsGlobals := by
  obtain ⟨form, -, h⟩ := Fallible.ofExcept_bind_eq_ok.1 h
  obtain ⟨isGlobal, _, hp, -⟩ := Fallible.bind_eq_ok.1 h
  obtain ⟨rfl, hl, -⟩ := placeVariable_ok hp
  by_contra hg
  rw [hl (by simpa using hg)] at hf
  cases hf

theorem says_of_closed (hf : s.scopes.inFunction = false)
    (he : s.admitsGlobals → Token.startsWith .question tokens = false)
    (h : closed tokens s = (.ok result, t)) : Says tokens s result t := by
  have outside {P : Prop} (hi : s.scopes.inFunction) : P := by
    rw [hf] at hi
    cases hi
  cases hb : Token.block? tokens with
  | some kind =>
    simp only [closed, hb] at h
    exact absurd h (fails_ofExcept_bind_fail _ _ _ _ _ _)
  | none =>
    simp only [closed, hb] at h
    cases hr : Token.afterModifiers tokens with
    | nil =>
      simp only [statement, hr] at h
      obtain ⟨rfl, rfl⟩ := Fallible.pure_eq_ok.1 h
      exact .nothing (fun path => by simp [Token.addition?, hr]) rfl rfl (by simp)
    | cons first rest =>
      simp only [statement, hr, fail_bind] at h
      simp only [Token.block?, hr, List.head?_cons, Option.bind_some] at hb
      cases hk : first.kind with
      | keyword word =>
        cases word with
        | natWord =>
          simp only [hk] at h
          exact .native hr hk h
        | finishWord =>
          simp only [hk] at h
          obtain ⟨whole, -, rfl, hs⟩ := finishStatement_ok h
          refine .nothing (fun path => by simp [Token.addition?, hr, hk]) ?_ ?_ hs
          all_goals cases whole <;> rfl
        | returnWord =>
          simp only [hk] at h
          exact outside (inFunction_of_return h)
        | _ => simp [hk, Kind.block?] at hb
      | identifier =>
        simp only [hk] at h
        obtain ⟨action, ha, rfl⟩ := Fallible.map_eq_ok.1 h
        exact outside (inFunction_of_action ha)
      | question =>
        simp only [hk] at h
        obtain ⟨declaration, hd, rfl⟩ := Fallible.map_eq_ok.1 h
        have hn := he (admitsGlobals_of_variable hf hd)
        simp [Token.startsWith, hr, hk] at hn
      | typeName name =>
        simp only [hk] at h
        obtain ⟨declaration, hd, rfl⟩ := Fallible.map_eq_ok.1 h
        exact .global hr hk (admitsGlobals_of_variable hf hd) hd
      | semicolon =>
        simp only [hk] at h
        split at h
        · exact absurd h (fails_fail _ _ _ _ _)
        · split at h
          · exact absurd h (fails_fail _ _ _ _ _)
          · obtain ⟨rfl, rfl⟩ := Fallible.pure_eq_ok.1 h
            exact .nothing (fun path => by simp [Token.addition?, hr, hk]) rfl rfl (by simp)
      | _ =>
        simp only [hk] at h
        exact absurd h (fails_fail _ _ _ _ _)

/-! ## What the passes do with it -/

theorem addition?_of_native {path : ModulePath} {first : Token} {rest : List Token}
    {signature : Signature} {binding : Token} {definition : FunctionDefinition}
    (hr : Token.afterModifiers tokens = first :: rest) (hk : first.kind = .keyword .natWord)
    (hb : Token.expectAt (first :: rest) ((first :: rest).length - 2) (· = .literal .string)
      "a binding namespace" = .ok binding)
    (hs : Signature.ofTokens ((first :: rest).take ((first :: rest).length - 3)).tail false =
      .ok signature)
    (hd : (signature.header (Token.leadingModifiers tokens)).definition (.native
      (nativeName (signature.header (Token.leadingModifiers tokens)) binding) none) =
        .ok definition) :
    Token.addition? path tokens = some (.function path definition) := by
  have hn : Token.nativeOf? (first :: rest) (Token.leadingModifiers tokens) = some definition := by
    rw [Token.nativeOf?, hb, Except.toOption, Option.bind_some, hs, Except.toOption,
      Option.bind_some, hd]
    rfl
  simp [Token.addition?, hr, hk, hn]

/-- A global of a written type is registered under its name and as that type. -/
theorem addition?_of_global {path : ModulePath} {first : Token} {rest : List Token}
    {name : TypeName} {form : VariableForm} (hr : Token.afterModifiers tokens = first :: rest)
    (hk : first.kind = .typeName name) (hf : VariableForm.ofTokens (first :: rest) = .ok form) :
    form.typeKeyword.kind ≠ .question ∧ ∃ type,
      form.typeKeyword.datatype? (Token.areNullable (Token.leadingModifiers tokens)) = some type ∧
      Token.addition? path tokens = some (.global path ⟨form.identifier.text, type,
        Token.modifiers (Token.leadingModifiers tokens), true⟩) := by
  obtain ⟨rfl, -, -⟩ := typeKeyword_of_ofTokens hf
  have ht : form.typeKeyword.datatype? (Token.areNullable (Token.leadingModifiers tokens)) =
      some ⟨.ofTypeName name, Token.areNullable (Token.leadingModifiers tokens)⟩ := by
    simp [Token.datatype?, Kind.primitive?, Kind.typeName?, hk]
  have hv : Token.globalOf? (form.typeKeyword :: rest) (Token.leadingModifiers tokens) =
      some ⟨form.identifier.text, ⟨.ofTypeName name, Token.areNullable (Token.leadingModifiers
        tokens)⟩, Token.modifiers (Token.leadingModifiers tokens), true⟩ := by
    rw [Token.globalOf?, hf, Except.toOption, Option.bind_some, ht]
    rfl
  exact ⟨by simp [hk], _, ht, by simp [Token.addition?, hr, hk, hv]⟩

/-- In the first pass a line adds to the table what it says. -/
theorem Says.registers (hs : s.isSkimming) (h : Says tokens s result t) :
    t.table = s.table.registerAll (Token.addition? s.scopes.currentModule tokens).toList ∧
      t.deferred = s.deferred := by
  cases h with
  | native hr hk h =>
    obtain ⟨signature, binding, definition, hsig, hb, -, hd, rfl⟩ := skim_nativeStatement hs h
    rw [addition?_of_native hr hk hb hsig hd]
    exact ⟨(SymbolTable.register_eq s.table (.function _ definition)).symm, rfl⟩
  | global hr hk hg h =>
    obtain ⟨form, hform, ⟨-, hskim⟩ | ⟨hn, -⟩⟩ := skim_variableStatement hs h
    · obtain ⟨hq, type, ht, ha⟩ := addition?_of_global hr hk hform
      unfold skimGlobal at hskim
      rw [Fallible.bind_of_ok (Fallible.get_apply _)] at hskim
      simp only [if_neg hq, ht] at hskim
      obtain rfl := registerGlobal_eq_ok.1 hskim
      rw [ha]
      exact ⟨(SymbolTable.register_eq s.table (.global _ _)).symm, rfl⟩
    · rw [hg] at hn
      cases hn
  | nothing hn ht hd => exact ⟨by rw [hn, ht]; rfl, hd⟩

/-- In the second pass a line adds nothing that is there already. -/
theorem Says.table_eq (hs : s.isSkimming = false) (ht : t.scopes = s.scopes)
    (held : ∀ entry ∈ Token.addition? s.scopes.currentModule tokens, ¬s.table.Lacks entry.key)
    (h : Says tokens s result t) : t.table = s.table := by
  cases h with
  | native hr hk h =>
    obtain ⟨-, -, -, -, -, rfl, -⟩ := evaluate_nativeStatement hs h
    rfl
  | global hr hk hg h =>
    obtain ⟨form, hform, -, hev⟩ := evaluate_variableStatement hs h
    obtain ⟨typed, type, datatype, scopes, hdeclared, -⟩ := evaluateVariable_ok hev
    obtain ⟨-, written, -, ha⟩ := @addition?_of_global _ s.scopes.currentModule _ _ _ _ hr hk hform
    have hglobal : s.table.HasGlobal s.scopes.currentModule form.identifier.text :=
      Classical.not_not.1 (held _ ha)
    obtain ⟨-, table, rfl, hkept⟩ | ⟨hl, -⟩ := declareVariable_ok hdeclared.declared
    · obtain rfl : scopes = s.scopes := ht
      exact hkept hglobal
    · rw [hg] at hl
      cases hl
  | nothing _ ht => exact ht

/-! ## Heads of modules and functions -/

theorem first_of_blockKind (tokens : List Token) :
    (Token.blockKind tokens = .module →
      ((Token.afterModifiers tokens).head?.map fun first : Token => first.kind) =
        some (.keyword .moduleWord)) ∧
    (Token.blockKind tokens = .function →
      ((Token.afterModifiers tokens).head?.map fun first : Token => first.kind) =
        some (.keyword .fnWord)) := by
  unfold Token.blockKind Token.block?
  cases (Token.afterModifiers tokens).head? with
  | none => simp
  | some first =>
    simp only [Option.bind_some, Option.map_some]
    cases first.kind <;> simp only [Kind.block?, Option.getD_none, reduceCtorEq, false_imp_iff,
      and_self]
    next word => cases word <;> simp

/-- In both passes the module is there afterwards, and its scope is entered. -/
theorem registers_module (hk : Token.blockKind tokens = .module)
    (h : moduleStatement (Token.afterModifiers tokens) (Token.leadingModifiers tokens) s =
      (.ok result, t)) :
    ∃ identifier : Token, Token.addition? s.scopes.currentModule tokens =
        some (.module s.scopes.currentModule identifier.text) ∧
      t.table = s.table.register (.module s.scopes.currentModule identifier.text) ∧
      t.deferred = s.deferred ∧
      t.scopes.currentModule = s.scopes.currentModule ++ [identifier.text] ∧
      (s.isSkimming = false → result = some (.module identifier [])) ∧
      t.stdlib = s.stdlib ∧ t.isSkimming = s.isSkimming := by
  obtain ⟨identifier, hi, -, rfl, rfl⟩ := moduleStatement_ok h
  refine ⟨identifier, ?_, (SymbolTable.register_eq s.table (.module _ _)).symm, rfl, rfl,
    fun hs => by simp [hs], rfl, rfl⟩
  simp [Token.addition?, (first_of_blockKind tokens).1 hk, hi, Except.toOption]

theorem addition?_of_function {path : ModulePath} {signature : Signature}
    {definition : FunctionDefinition} (hk : Token.blockKind tokens = .function)
    (hs : Signature.ofTokens (Token.afterModifiers tokens).dropLast true = .ok signature)
    (hd : (signature.header (Token.leadingModifiers tokens)).definition (.interpreted []) =
      .ok definition) : Token.addition? path tokens = some (.function path definition) := by
  have hf : Token.functionOf? (Token.afterModifiers tokens) (Token.leadingModifiers tokens) =
      some definition := by
    rw [Token.functionOf?, hs, Except.toOption, Option.bind_some, hd]
    rfl
  simp [Token.addition?, (first_of_blockKind tokens).2 hk, hf]

/-- The first pass adds a function to the table, and the second one leaves it as it is. -/
theorem registers_function (hk : Token.blockKind tokens = .function)
    (h : functionStatement (Token.afterModifiers tokens) (Token.leadingModifiers tokens) s =
      (.ok result, t)) :
    ∃ definition, Token.addition? s.scopes.currentModule tokens =
        some (.function s.scopes.currentModule definition) ∧
      t.table = (if s.isSkimming then
        s.table.register (.function s.scopes.currentModule definition) else s.table) ∧
      t.deferred = s.deferred := by
  cases hs : s.isSkimming with
  | true =>
    obtain ⟨signature, definition, hsig, -, hd, rfl⟩ := skim_functionStatement hs h
    exact ⟨definition, addition?_of_function hk hsig hd,
      (SymbolTable.register_eq s.table (.function _ definition)).symm, rfl⟩
  | false =>
    obtain ⟨signature, definition, hsig, -, hd, -, hp⟩ := evaluate_functionStatement hs h
    obtain ⟨scopes, rfl, -⟩ := declareParameters_ok (by rfl) hp
    exact ⟨definition, addition?_of_function hk hsig hd, rfl, rfl⟩

/-- With the head of a function its body is entered. -/
theorem inside_function (hk : Token.blockKind tokens = .function)
    (h : functionStatement (Token.afterModifiers tokens) (Token.leadingModifiers tokens) s =
      (.ok result, t)) :
    (t.inside s.scopes .function).scopes.Inner ∧
      (t.inside s.scopes .function).scopes.kinds.head? ≠ some .loopHeader := by
  have howner : owner .closed tokens s = (.ok (result.map .statement), t) := by
    rw [(owner_of_blockKind _ _).2 hk]
    exact Fallible.map_eq_ok.2 ⟨result, h, rfl⟩
  rw [ScopeStack.Inner, Session.currentKind_inside]
  exact ⟨by decide, hk ▸ head?_inside howner⟩

end Step

/-! ## What the passes do with a list of items -/

/-- Where the types of all globals are written, so are those behind an item. -/
theorem Item.Leads.explicit {s t : Session} {body after : Body} {item : Item} {items : List Item}
    (h : Leads s body [item] t after) (hk : s.scopes.kinds.head? ≠ some .loopHeader)
    (he : ExplicitIn s.scopes.currentKind s.stdlib (item :: items)) :
    ExplicitIn t.scopes.currentKind t.stdlib items := by
  have hkind : t.scopes.currentKind = s.scopes.currentKind := by
    rw [← ScopeStack.currentKind_bare, ← s.scopes.currentKind_bare]
    exact congrArg (fun frame => frame.scopes.currentKind) (h.frame_eq hk)
  have hstdlib := h.stdlib_eq
  rw [finishesIn, finishesIn, Bool.or_false] at hstdlib
  rw [hkind, hstdlib]
  exact he.2

namespace Item.Declares

variable {s t u : Session} {item : Item} {items : List Item} {new : List Stmt}

theorem explicit (h : Declares s [item] t new) (ho : s.Outside)
    (he : ExplicitIn s.scopes.currentKind s.stdlib (item :: items)) :
    ExplicitIn t.scopes.currentKind t.stdlib items :=
  (h.leads ho []).explicit ho.head?_ne he

/-- In the first pass items add to the table what they say, and nothing is deferred. -/
theorem registers (h : Declares s items t new) (hs : s.isSkimming) (ho : s.Outside)
    (he : ExplicitIn s.scopes.currentKind s.stdlib items) :
    t.table = s.table.registerAll (entriesIn s.scopes.currentModule items) ∧
      t.deferred = s.deferred := by
  induction h with
  | nil => exact ⟨rfl, rfl⟩
  | @line s t u items words stop whole stops result more hr _ ih =>
    have hone := Declares.of_line whole stops hr
    have hsays := Step.says_of_closed ho.inFunction_eq
      (fun hg => he.1 (s.admitsGlobals_eq ▸ hg)) hr
    obtain ⟨htable, hdeferred⟩ := hsays.registers hs
    obtain ⟨hlast, hend⟩ := ih ((hone.isSkimming_eq ho).trans hs) (hone.outside ho)
      (hone.explicit ho he)
    rw [hone.scopes_eq ho] at hlast
    refine ⟨?_, hend.trans hdeferred⟩
    rw [hlast, htable, entriesIn, entries, SymbolTable.registerAll_append]
  | @module s t u v inner items head opening closing whole opens closes result inside more hk hr
      hinner _ ihi ih =>
    have hone : Declares s [.block head opening inner closing whole opens closes] _ _ :=
      .module hk hr hinner .nil
    obtain ⟨identifier, ha, htable, hdeferred, hmodule, -, hstdlib, hpass⟩ :=
      Step.registers_module hk hr
    obtain ⟨hto, hkind, -, -⟩ := ho.inside hr
    have hbody := he.1
    rw [Explicit, hk, ← hkind, ← hstdlib] at hbody
    obtain ⟨hfilled, hfill⟩ := ihi (hpass.trans hs) hto hbody
    obtain ⟨hlast, hend⟩ := ih ((hone.isSkimming_eq ho).trans hs) (ho.of_scopes rfl)
      (hone.explicit ho he)
    refine ⟨?_, hend.trans (hfill.trans hdeferred)⟩
    rw [hlast, hfilled, htable, hmodule, entriesIn, entries, ha, SymbolTable.registerAll_append]
    rfl
  | @function s t u v inner items head opening closing whole opens closes result inside more hk hr
      hinner hpop _ ih =>
    have hone : Declares s [.block head opening inner closing whole opens closes] _ _ :=
      .function hk hr hinner hpop .nil
    obtain ⟨definition, ha, htable, hdeferred⟩ := Step.registers_function hk hr
    rw [hs, if_pos rfl] at htable
    obtain ⟨hi, hh⟩ := Step.inside_function hk hr
    obtain ⟨hfilled, hfill⟩ : u.table = t.table ∧ u.deferred = t.deferred := hinner.inner hi hh
    obtain ⟨hlast, hend⟩ := ih ((hone.isSkimming_eq ho).trans hs) (ho.of_scopes rfl)
      (hone.explicit ho he)
    refine ⟨?_, hend.trans (hfill.trans hdeferred)⟩
    rw [hlast, hfilled, htable, entriesIn, entries, ha, SymbolTable.registerAll_append]
    rfl

/-- In the second pass items add nothing that is there already. -/
theorem table_eq (h : Declares s items t new) (hs : s.isSkimming = false) (ho : s.Outside)
    (he : ExplicitIn s.scopes.currentKind s.stdlib items)
    (held : ∀ entry ∈ entriesIn s.scopes.currentModule items, ¬s.table.Lacks entry.key) :
    t.table = s.table := by
  induction h with
  | nil => rfl
  | @line s t u items words stop whole stops result more hr _ ih =>
    have hone := Declares.of_line whole stops hr
    have hscopes := hone.scopes_eq ho
    obtain ⟨hown, hothers⟩ := List.forall_mem_append.1 held
    have hsays := Step.says_of_closed ho.inFunction_eq
      (fun hg => he.1 (s.admitsGlobals_eq ▸ hg)) hr
    have htable := hsays.table_eq hs hscopes fun entry hm => hown entry (Option.mem_toList.2 hm)
    rw [← hscopes, ← htable] at hothers
    exact (ih ((hone.isSkimming_eq ho).trans hs) (hone.outside ho) (hone.explicit ho he)
      hothers).trans htable
  | @module s t u v inner items head opening closing whole opens closes result inside more hk hr
      hinner _ ihi ih =>
    have hone : Declares s [.block head opening inner closing whole opens closes] _ _ :=
      .module hk hr hinner .nil
    obtain ⟨identifier, ha, htable, -, hmodule, -, hstdlib, hpass⟩ := Step.registers_module hk hr
    obtain ⟨hto, hkind, -, -⟩ := ho.inside hr
    obtain ⟨hown, hothers⟩ := List.forall_mem_append.1 held
    rw [entries, ha] at hown
    obtain ⟨hmine, hinside⟩ := List.forall_mem_cons.1 hown
    have hentered : t.table = s.table := htable.trans (SymbolTable.register_module_of_held hmine)
    have hbody := he.1
    rw [Explicit, hk, ← hkind, ← hstdlib] at hbody
    have hkept : u.table = s.table :=
      (ihi (hpass.trans hs) hto hbody (hmodule ▸ hentered ▸ hinside)).trans hentered
    exact (ih ((hone.isSkimming_eq ho).trans hs) (ho.of_scopes rfl) (hone.explicit ho he)
      (hkept ▸ hothers)).trans hkept
  | @function s t u v inner items head opening closing whole opens closes result inside more hk hr
      hinner hpop _ ih =>
    have hone : Declares s [.block head opening inner closing whole opens closes] _ _ :=
      .function hk hr hinner hpop .nil
    obtain ⟨definition, ha, htable, -⟩ := Step.registers_function hk hr
    rw [hs, if_neg Bool.false_ne_true] at htable
    obtain ⟨hi, hh⟩ := Step.inside_function hk hr
    obtain ⟨hfilled, -⟩ : u.table = t.table ∧ u.deferred = t.deferred := hinner.inner hi hh
    have hkept : u.table = s.table := hfilled.trans htable
    exact (ih ((hone.isSkimming_eq ho).trans hs) (ho.of_scopes rfl) (hone.explicit ho he)
      (hkept ▸ (List.forall_mem_append.1 held).2)).trans hkept

end Item.Declares

end MuLang
