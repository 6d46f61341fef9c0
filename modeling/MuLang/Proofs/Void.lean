import MuLang.Proofs.Agreement

/-!
# Expressions without a value

A function that returns nothing is called as a statement or as the step of a loop, and nowhere else:
operators, casts, arguments, initial values, conditions, returned values and assignments take values.
A comparison with `null` alone asks of its other side no more than that it may be `null`. There a
global can stand for which the first pass has found the type `void`, since its value was a call of
another function then. The program that is defined in the end has no such global.
-/
namespace MuLang

/-! ## Operators and assignments -/

namespace Primitive

variable {left right kind : Primitive}

theorem wider_ne_void (hl : left ≠ .void) (hr : right ≠ .void) : left.wider right ≠ .void := by
  unfold wider
  split
  · cases left <;> simp_all [promoted]
  · cases right <;> simp_all [promoted]

theorem ne_void_of_isNumeric (h : kind.isNumeric) : kind ≠ .void := by
  rintro rfl
  cases h

theorem ne_void_of_isIntegral (h : kind.isIntegral) : kind ≠ .void := by
  rintro rfl
  cases h

end Primitive

namespace Datatype

variable {left right type operand source : Datatype} {op : BinaryOp}

/-- One of two types is that of `null`, and the other one admits it. -/
def MeetsNull (left right : Datatype) : Prop :=
  left.nullable ∧ right.kind = .null ∨ right.nullable ∧ left.kind = .null

section Kinds

variable {left right kind : Primitive}

theorem kinds_of_arithmetic (h : arithmetic left right = some kind) :
    (left ≠ .void ∧ right ≠ .void) ∧ kind ≠ .void := by
  unfold arithmetic at h
  split at h
  next hn =>
    cases h
    have hl := Primitive.ne_void_of_isNumeric hn.1
    have hr := Primitive.ne_void_of_isNumeric hn.2
    exact ⟨⟨hl, hr⟩, Primitive.wider_ne_void hl hr⟩
  next => cases h

theorem kinds_of_sum (h : sum left right = some kind) :
    (left ≠ .void ∧ right ≠ .void) ∧ kind ≠ .void := by
  unfold sum at h
  split at h
  · split at h
    · cases h
    next hv =>
      cases h
      exact ⟨not_or.1 hv, by decide⟩
  · exact kinds_of_arithmetic h

theorem kinds_of_bitwise (h : bitwise left right = some kind) :
    (left ≠ .void ∧ right ≠ .void) ∧ kind ≠ .void := by
  unfold bitwise at h
  split at h
  next hb =>
    cases h
    rw [hb.1, hb.2]
    decide
  next =>
    split at h
    next hi =>
      cases h
      have hl := Primitive.ne_void_of_isIntegral hi.1
      have hr := Primitive.ne_void_of_isIntegral hi.2
      exact ⟨⟨hl, hr⟩, Primitive.wider_ne_void hl hr⟩
    next => cases h

end Kinds

theorem kinds_of_comparable (h : comparable left right) :
    left.kind ≠ .void ∧ right.kind ≠ .void ∨ left.MeetsNull right := by
  simp only [comparable, Bool.or_eq_true, Bool.and_eq_true, beq_iff_eq, bne_iff_ne] at h
  obtain ((⟨he, hv⟩ | ⟨hl, hr⟩) | ⟨hk, hn⟩) | ⟨hk, hn⟩ := h
  · exact .inl ⟨hv, he ▸ hv⟩
  · exact .inl ⟨Primitive.ne_void_of_isNumeric hl, Primitive.ne_void_of_isNumeric hr⟩
  · exact .inr (.inr ⟨hn, hk⟩)
  · exact .inr (.inl ⟨hn, hk⟩)

/-- A binary operator gives a value, and unless it compares something with `null` it takes values. -/
theorem kinds_of_binary (h : Datatype.binary op left right = some type) :
    (left.kind ≠ .void ∧ right.kind ≠ .void ∨
      (op = .equal ∨ op = .notEqual) ∧ left.MeetsNull right) ∧ type.kind ≠ .void := by
  obtain ⟨kind, hk, rfl⟩ := Option.map_eq_some_iff.1 h
  change _ ∧ kind ≠ .void
  have compares (hc : (if comparable left right then some Primitive.bool else none) = some kind)
      (ho : op = .equal ∨ op = .notEqual) :
      (left.kind ≠ .void ∧ right.kind ≠ .void ∨
        (op = .equal ∨ op = .notEqual) ∧ left.MeetsNull right) ∧ kind ≠ .void := by
    split at hc
    next hm =>
      cases hc
      exact ⟨(kinds_of_comparable hm).imp_right fun hn => ⟨ho, hn⟩, by decide⟩
    next => cases hc
  cases op with
  | add => exact (kinds_of_sum hk).imp_left .inl
  | subtract | multiply | divide | remainder => exact (kinds_of_arithmetic hk).imp_left .inl
  | bitAnd | bitOr | bitXor => exact (kinds_of_bitwise hk).imp_left .inl
  | equal => exact compares hk (.inl rfl)
  | notEqual => exact compares hk (.inr rfl)
  | shiftLeft | shiftRight =>
    simp only [binaryKind] at hk
    split at hk
    next hi =>
      cases hk
      have hl := Primitive.ne_void_of_isIntegral hi.1
      have hr := Primitive.ne_void_of_isIntegral hi.2
      exact ⟨.inl ⟨hl, hr⟩, Primitive.wider_ne_void hl (by decide)⟩
    next => cases hk
  | less | lessEqual | greater | greaterEqual =>
    simp only [binaryKind] at hk
    split at hk
    next hn =>
      cases hk
      have hl := Primitive.ne_void_of_isNumeric hn.1
      have hr := Primitive.ne_void_of_isNumeric hn.2
      exact ⟨.inl ⟨hl, hr⟩, by decide⟩
    next => cases hk
  | logicalAnd | logicalOr =>
    simp only [binaryKind] at hk
    split at hk
    next hb =>
      cases hk
      rw [hb.1, hb.2]
      exact ⟨.inl (by decide), by decide⟩
    next => cases hk

theorem kinds_of_unary {op : UnaryOp} (h : Datatype.unary op operand = some type) :
    operand.kind ≠ .void ∧ type.kind ≠ .void := by
  cases op with
  | negate =>
    simp only [unary] at h
    split at h
    next hn =>
      cases h
      have hk := Primitive.ne_void_of_isNumeric hn
      exact ⟨hk, Primitive.wider_ne_void hk (by decide)⟩
    next => cases h
  | logicalNot =>
    simp only [unary] at h
    split at h
    next hb =>
      cases h
      rw [hb]
      decide
    next => cases h

theorem kind_of_castsTo {name : TypeName} (hn : name ≠ .void)
    (h : source.castsTo (.plain (.ofTypeName name))) :
    source.kind ≠ .void ∧ Primitive.ofTypeName name ≠ .void := by
  have ht : Primitive.ofTypeName name ≠ .void := by
    cases name <;> first | exact absurd rfl hn | decide
  refine ⟨?_, ht⟩
  simp only [castsTo, Bool.or_eq_true, beq_iff_eq, Bool.and_eq_true] at h
  obtain he | ⟨hs, -⟩ := h
  · exact he ▸ ht
  · exact Primitive.ne_void_of_isNumeric hs

end Datatype

/-- No assignment compares. -/
theorem Kind.compound_ne_comparison {kind : Kind} {op : BinaryOp} (h : kind.compound? = some op) :
    ¬(op = .equal ∨ op = .notEqual) := by
  obtain ⟨sign, -, hs⟩ := Option.bind_eq_some_iff.1 h
  cases sign <;> cases hs <;> decide

/-- What is assigned is a value, and so is what it is assigned to. -/
theorem Env.kinds_of_assigned {v : Variable} {operator : Token} {value : Expr} {stored : Datatype}
    (h : Env.assigned v operator value = .ok stored) (hf : stored.fits v.datatype) :
    value.type.kind ≠ .void ∧ v.datatype.kind ≠ .void := by
  obtain ⟨hs, hv⟩ := Datatype.kinds_of_fits hf
  refine ⟨?_, hv⟩
  unfold assigned at h
  split at h
  · cases h
    exact hs
  next op hop =>
    split at h
    next type ht =>
      obtain ⟨hvalues | ⟨hc, -⟩, -⟩ := Datatype.kinds_of_binary ht
      · exact hvalues.2
      · exact absurd hc (Kind.compound_ne_comparison hop)
    next => cases h

/-! ## What is declared -/

/-- A function takes values. Where it returns nothing, it does not return `null` either. -/
structure FunctionDefinition.Regular (definition : FunctionDefinition) : Prop where
  parameters : ∀ type ∈ definition.parameterTypes, type.kind ≠ .void
  result : definition.returnType.kind = .void → definition.returnType.nullable = false

namespace Definition

theorem nullable_of_datatype {token : Token} {nullable : Bool} {type : Datatype}
    (h : datatype token nullable = .ok type) (hv : type.kind = .void) : type.nullable = false := by
  unfold datatype at h
  split at h
  · cases h
    split
    · rfl
    next hn =>
      rw [if_neg hn] at hv
      exact absurd hv hn
  · cases h

theorem kind_of_datatype {token : Token} {nullable : Bool} {type : Datatype}
    (h : datatype token nullable = .ok type) (ht : token.kind ≠ .typeName .void) :
    type.kind ≠ .void := by
  unfold datatype at h
  split at h
  next found hf =>
    cases h
    have hk : found.kind ≠ .void := Token.kind_ne_void_of_datatype? hf ht
    rwa [if_neg hk]
  · cases h

/-- A function whose parameters are written as those of values is regular. -/
theorem regular_of_function {header : FunctionHeader} {body : FunctionBody}
    {definition : FunctionDefinition} (ht : header.TakesValues)
    (h : function header body = .ok definition) : definition.Regular := by
  refine ⟨fun type hm => ?_, ?_⟩
  · obtain ⟨parameter, hp, rfl⟩ := List.mem_map.1 hm
    exact ht.kind_ne_void (definition_of_function ht h) parameter hp
  · simp only [function, Except.bind_eq_ok, Except.pure_eq_ok] at h
    obtain ⟨-, -, parameters, -, type, hr, rfl⟩ := h
    exact nullable_of_datatype hr

end Definition

namespace SymbolTable

/-- Functions take values. -/
def TakesValues (table : SymbolTable) : Prop :=
  ∀ p name, ∀ definition ∈ (table.module p).definitions name, definition.Regular

/-- Globals hold values. -/
def HoldsValues (table : SymbolTable) : Prop :=
  ∀ p name v, (table.module p).global? name = some v → v.datatype.kind ≠ .void

theorem takesValues_empty : empty.TakesValues := by
  intro p name definition hm
  simp [Module.empty, Module.definitions] at hm

theorem holdsValues_empty : empty.HoldsValues := by
  intro p name v hg
  rw [module_empty] at hg
  cases hg

end SymbolTable

section Declaring

variable {table extended later : SymbolTable} {declaration : Declaration}
  {declarations : List Declaration}

theorem Declares.takesValues (h : Declares declaration table extended)
    (ht : declaration.WellTyped) (hv : table.TakesValues) : extended.TakesValues := by
  intro p name definition hm
  cases h with
  | module h =>
    rw [SymbolTable.module_addModule h] at hm
    exact hv p name definition hm
  | function hc hd h =>
    obtain hm | ⟨-, -, rfl⟩ := (SymbolTable.mem_definitions_addFunction h).1 hm
    · exact hv p name definition hm
    · exact Definition.regular_of_function ht hd
  | global hc hr hd h =>
    rw [SymbolTable.definitions_addVariable h] at hm
    exact hv p name definition hm

theorem Declares.holdsValues (h : Declares declaration table extended)
    (ht : declaration.WellTyped) (hv : table.HoldsValues) : extended.HoldsValues := by
  intro p name v hg
  cases h with
  | module h =>
    rw [SymbolTable.module_addModule h] at hg
    exact hv p name v hg
  | function hc hd h =>
    rw [SymbolTable.global?_addFunction h] at hg
    exact hv p name v hg
  | global hc hr hd h =>
    rw [SymbolTable.global?_addVariable h] at hg
    split at hg
    · cases hg
      exact Definition.kind_of_datatype hd ht.1
    · exact hv p name v hg

/-- The functions of a program take values, and its globals hold values. -/
theorem DeclaresAll.values (h : DeclaresAll declarations table later)
    (ht : ∀ declaration ∈ declarations, declaration.WellTyped) (hf : table.TakesValues)
    (hg : table.HoldsValues) : later.TakesValues ∧ later.HoldsValues := by
  induction h with
  | nil => exact ⟨hf, hg⟩
  | cons hd _ ih =>
    obtain ⟨hfirst, hrest⟩ := List.forall_mem_cons.1 ht
    exact ih hrest (hd.takesValues hfirst hf) (hd.holdsValues hfirst hg)

end Declaring

/-- A call passes values, and where it gives none, it does not give `null` either. -/
theorem Env.Calls.kinds {env : Env} {source : ModulePath} {callee : Token}
    {arguments : List Datatype} {type : Datatype} (h : env.Calls source callee arguments type)
    (ht : env.table.TakesValues) :
    (∀ argument ∈ arguments, argument.kind ≠ .void) ∧
      (type.kind = .void → type.nullable = false) := by
  obtain ⟨owner, definition, -, hd, -, rfl⟩ := h
  obtain ⟨hm, ha⟩ := List.mem_filter.1 (hd.symm ▸ List.mem_singleton_self definition)
  obtain ⟨hparameters, hresult⟩ := ht owner _ definition hm
  obtain rfl : definition.parameterTypes = arguments := of_decide_eq_true ha
  exact ⟨hparameters, hresult⟩

/-! ## Inside an expression -/

namespace Expr

/-- The expressions right inside an expression. -/
def operands : Expr → List Expr
  | .literal _ _ => []
  | .read _ _ => []
  | .binary _ left _ right => [left, right]
  | .unary _ _ right => [right]
  | .cast _ _ value => [value]
  | .assign _ _ _ value => [value]
  | .call _ _ arguments => arguments

/-- An expression compares another one with `null`. -/
def TestsNull (parent node : Expr) : Prop :=
  ∃ type operator other, (operator.kind = .binary .equal ∨ operator.kind = .binary .notEqual) ∧
    other.type.kind = .null ∧
    (parent = .binary type node operator other ∨ parent = .binary type other operator node)

/-- What is an operand, or right inside of some part of it, is right inside of some part of the
expression. -/
theorem exists_parent {node inner value : Expr} {nodes : List Expr} (ho : inner ∈ value.operands)
    (hs : inner.nodes ⊆ nodes) (h : node = inner ∨ ∃ parent ∈ inner.nodes, node ∈ parent.operands) :
    ∃ parent ∈ value :: nodes, node ∈ parent.operands := by
  obtain rfl | ⟨parent, hp, hn⟩ := h
  · exact ⟨value, List.mem_cons_self, ho⟩
  · exact ⟨parent, List.mem_cons_of_mem _ (hs hp), hn⟩

mutual

/-- What is inside an expression is right inside of some part of it. -/
theorem mem_nodes {node : Expr} : ∀ {value : Expr}, node ∈ value.nodes →
    node = value ∨ ∃ parent ∈ value.nodes, node ∈ parent.operands
  | .literal _ _, h => .inl (List.mem_singleton.1 h)
  | .read _ _, h => .inl (List.mem_singleton.1 h)
  | .binary type left operator right, h => by
    refine (List.mem_cons.1 h).imp_right fun h => ?_
    obtain h | h := List.mem_append.1 h
    · exact exists_parent (by simp [operands]) (List.subset_append_left _ _) (mem_nodes h)
    · exact exists_parent (by simp [operands]) (List.subset_append_right _ _) (mem_nodes h)
  | .unary type operator right, h => by
    refine (List.mem_cons.1 h).imp_right fun h => ?_
    exact exists_parent (by simp [operands]) (List.Subset.refl _) (mem_nodes h)
  | .cast type target value, h => by
    refine (List.mem_cons.1 h).imp_right fun h => ?_
    exact exists_parent (by simp [operands]) (List.Subset.refl _) (mem_nodes h)
  | .assign type assignee operator value, h => by
    refine (List.mem_cons.1 h).imp_right fun h => ?_
    exact exists_parent (by simp [operands]) (List.Subset.refl _) (mem_nodes h)
  | .call type callee arguments, h => by
    refine (List.mem_cons.1 h).imp_right fun h => ?_
    obtain hn | ⟨parent, hp, hn⟩ := mem_nodesOfAll h
    · exact ⟨_, List.mem_cons_self, hn⟩
    · exact ⟨parent, List.mem_cons_of_mem _ hp, hn⟩

theorem mem_nodesOfAll {node : Expr} : ∀ {values : List Expr}, node ∈ nodesOfAll values →
    node ∈ values ∨ ∃ parent ∈ nodesOfAll values, node ∈ parent.operands
  | [], h => nomatch h
  | value :: rest, h => by
    obtain h | h := List.mem_append.1 h
    · obtain rfl | ⟨parent, hp, hn⟩ := mem_nodes h
      · exact .inl List.mem_cons_self
      · exact .inr ⟨parent, List.mem_append_left _ hp, hn⟩
    · obtain hn | ⟨parent, hp, hn⟩ := mem_nodesOfAll h
      · exact .inl (List.mem_cons_of_mem _ hn)
      · exact .inr ⟨parent, List.mem_append_right _ hp, hn⟩

end

end Expr

/-- The expressions that a statement uses, apart from what is inside them. -/
def Use.values : Use → List Expr
  | .condition value => [value]
  | .initializer _ value => [value]
  | .result value => value.toList
  | .assignment value => [value]
  | .call _ arguments => arguments

/-- What is inside a use is one of its values, or right inside of some part of them. -/
theorem Use.mem_nodes {use : Use} {node : Expr} (h : node ∈ use.nodes) :
    node ∈ use.values ∨ ∃ parent ∈ use.nodes, node ∈ parent.operands := by
  have hn : use.nodes = Expr.nodesOfAll use.values := by
    cases use <;> simp [nodes, values, Expr.nodesOfAll]
  rw [hn] at h ⊢
  exact Expr.mem_nodesOfAll h

/-! ## What takes a value -/

/-- Whatever may be called takes values, and where it gives none, it does not give `null` either. -/
def Env.PassesValues (env : Env) (source : ModulePath) : Prop :=
  ∀ {callee : Token} {arguments : List Datatype} {type : Datatype},
    env.call source callee arguments = .ok type →
      (∀ argument ∈ arguments, argument.kind ≠ .void) ∧
        (type.kind = .void → type.nullable = false)

namespace Expr.Typed

variable {env : Env} {scopes : ScopeStack} {node parent : Expr}

/-- Only a name or a call can be without a value. -/
theorem of_void (h : node.Typed env scopes) (hv : node.type.kind = .void) :
    (∃ identifier place v, node = .read v.datatype identifier ∧
      env.resolve scopes identifier = .ok ⟨place, v⟩) ∨
    ∃ type callee arguments, node = .call type callee arguments ∧
      env.call scopes.currentModule callee (arguments.map Expr.type) = .ok type := by
  cases h with
  | @literal kind value hk ha => cases kind <;> cases hv
  | read hr => exact .inl ⟨_, _, _, rfl, hr⟩
  | binary hk ht => exact absurd hv (Datatype.kinds_of_binary ht).2
  | unary hk ht => exact absurd hv (Datatype.kinds_of_unary ht).2
  | cast hk hn ht => exact absurd hv (Datatype.kind_of_castsTo hn ht).2
  | assign hk hr ha hf => exact absurd hv (Env.kinds_of_assigned ha hf).2
  | call hc => exact .inr ⟨_, _, _, rfl, hc⟩

/-- Only a comparison with `null` goes without a value. -/
theorem testsNull (h : parent.Typed env scopes) (hp : env.PassesValues scopes.currentModule)
    (hn : node ∈ parent.operands) (hv : node.type.kind = .void) :
    node.type.nullable ∧ parent.TestsNull node := by
  cases h with
  | literal => cases hn
  | read => cases hn
  | @binary op operator left right type hk ht =>
    have hoperator (ho : op = .equal ∨ op = .notEqual) :
        operator.kind = .binary .equal ∨ operator.kind = .binary .notEqual := by
      rw [hk]
      exact ho.imp (congrArg Kind.binary) (congrArg Kind.binary)
    obtain ⟨⟨hl, hr⟩ | ⟨ho, hm⟩, -⟩ := Datatype.kinds_of_binary ht
    · obtain rfl | hn := List.mem_cons.1 hn
      · exact absurd hv hl
      · obtain rfl := List.mem_singleton.1 hn
        exact absurd hv hr
    · obtain rfl | hn := List.mem_cons.1 hn
      · obtain ⟨hn, hk⟩ | ⟨-, hk⟩ := hm
        · exact ⟨hn, type, operator, right, hoperator ho, hk, .inl rfl⟩
        · cases hv.symm.trans hk
      · obtain rfl := List.mem_singleton.1 hn
        obtain ⟨-, hk⟩ | ⟨hn, hk⟩ := hm
        · cases hv.symm.trans hk
        · exact ⟨hn, type, operator, left, hoperator ho, hk, .inr rfl⟩
  | unary hk ht =>
    obtain rfl := List.mem_singleton.1 hn
    exact absurd hv (Datatype.kinds_of_unary ht).1
  | cast hk hne ht =>
    obtain rfl := List.mem_singleton.1 hn
    exact absurd hv (Datatype.kind_of_castsTo hne ht).1
  | assign hk hr ha hf =>
    obtain rfl := List.mem_singleton.1 hn
    exact absurd hv (Env.kinds_of_assigned ha hf).1
  | call hc => exact absurd hv ((hp hc).1 _ (List.mem_map_of_mem hn))

end Expr.Typed

namespace Use.Sound

variable {env : Env} {outline : List Declaration} {site : Site} {use : Use} {node : Expr}

/-- Every statement takes values. -/
theorem kind_of_value (h : use.Sound env outline site) (hp : env.PassesValues site.module)
    (hn : node ∈ use.values) : node.type.kind ≠ .void := by
  have ho := h.obeys
  cases use with
  | condition value =>
    obtain rfl := List.mem_singleton.1 hn
    have hb : node.type = .bool := ho
    rw [hb]
    decide
  | initializer header value =>
    obtain rfl := List.mem_singleton.1 hn
    obtain ⟨declared, hf, -⟩ := ho
    exact (Datatype.kinds_of_fits hf).1
  | result value =>
    obtain ⟨header, definition, -, -, -, hr⟩ := ho
    unfold Datatype.Returns at hr
    split at hr
    · subst hr
      cases hn
    · obtain ⟨typed, rfl, hf⟩ := hr
      obtain rfl := List.mem_singleton.1 hn
      exact (Datatype.kinds_of_fits hf).1
  | assignment value =>
    obtain rfl := List.mem_singleton.1 hn
    obtain ⟨v, operator, stored, ha, hf⟩ := ho
    exact (Env.kinds_of_assigned ha hf).1
  | call callee arguments =>
    obtain ⟨type, hc⟩ := ho
    exact (hp hc).1 _ (List.mem_map_of_mem hn)

/-- Locals have values, so a name without one is that of a global. -/
theorem exists_global_of_void {scopes : ScopeStack} {identifier : Token} {place : Place}
    {v : Variable} (hm : site.Matches scopes)
    (hr : env.resolve scopes identifier = .ok ⟨place, v⟩) (hv : v.datatype.kind = .void) :
    ∃ owner, env.table.resolveGlobal? site.module identifier.text = some (owner, v) := by
  unfold Env.resolve at hr
  split at hr
  next slot w hl =>
    cases hr
    split at hl
    · cases hl
    · exact absurd hv (hm.holdsValues.findLocal? hl)
  next =>
    obtain ⟨owner, w, hw, hg⟩ := Env.resolveGlobal?_of_global hr
    cases hw
    exact ⟨owner, hm.module_eq ▸ hg⟩

/-- What is without a value in a statement is a global that is compared with `null`. -/
theorem of_void (h : use.Sound env outline site) (hp : env.PassesValues site.module)
    (hn : node ∈ use.nodes) (hv : node.type.kind = .void) :
    ∃ identifier owner v, node = .read v.datatype identifier ∧ v.datatype.nullable ∧
      env.table.resolveGlobal? site.module identifier.text = some (owner, v) ∧
      ∃ parent ∈ use.nodes, parent.TestsNull node := by
  obtain ⟨scopes, hm, htyped⟩ := h.typed
  rw [← hm.module_eq] at hp
  obtain hvalue | ⟨parent, hparent, ho⟩ := Use.mem_nodes hn
  · exact absurd hv (h.kind_of_value (hm.module_eq ▸ hp) hvalue)
  obtain ⟨hnull, htests⟩ := (htyped parent hparent).testsNull hp ho hv
  obtain ⟨identifier, place, v, rfl, hr⟩ | ⟨type, callee, arguments, rfl, hc⟩ :=
    (htyped node hn).of_void hv
  · obtain ⟨owner, hg⟩ := exists_global_of_void hm hr hv
    exact ⟨identifier, owner, v, rfl, hnull, hg, parent, hparent, htests⟩
  · have hplain := (hp hc).2 hv
    cases hnull.symm.trans hplain

end Use.Sound

/-! ## Programs without errors -/

namespace Analyzed

variable {settings : Settings} {table : SymbolTable} {analysis : Analysis}

theorem values (h : Analyzed settings table analysis) :
    analysis.symbols.TakesValues ∧ analysis.symbols.HoldsValues :=
  h.declares.values h.parsed.wellTyped SymbolTable.takesValues_empty SymbolTable.holdsValues_empty

theorem passesValues (h : Analyzed settings table analysis) (site : Site) :
    Env.PassesValues ⟨table, settings.access⟩ site.module :=
  fun hc => (h.calls hc).kinds h.values.1

end Analyzed

/-- In a program without errors an expression without a value is a comparison's other side of `null`.
It reads a global for which the first pass has found the type `void`, and which holds values as it is
defined in the end. No call in an expression goes to a function that returns nothing. -/
theorem analyze_void {settings : Settings} {natives : Native.Bindings} {tokens : List Token}
    {analysis : Analysis} (h : analyze settings natives tokens = .ok analysis) {site : Site}
    {use : Use} (hu : (site, use) ∈ Stmt.usesIn .root analysis.program) :
    (∀ node ∈ use.nodes, node.type.kind = .void → ∃ identifier owner v found,
      node = .read found.datatype identifier ∧ found.datatype.nullable ∧
      (Session.skim settings tokens).table.resolveGlobal? site.module identifier.text =
        some (owner, found) ∧
      analysis.symbols.resolveGlobal? site.module identifier.text = some (owner, v) ∧
      v.datatype.kind ≠ .void ∧ ∃ parent ∈ use.nodes, parent.TestsNull node) ∧
    ∀ type callee arguments, .call type callee arguments ∈ use.nodes → type.kind ≠ .void ∧
      Env.Calls ⟨analysis.symbols, settings.access⟩ site.module callee (arguments.map Expr.type)
        type := by
  by_cases hb : settings.maxErrors = some 0
  · rw [program_of_no_budget hb h] at hu
    cases hu
  have ha := analyzed_of_analyze hb h
  have hsound := ha.parsed.sound _ hu
  refine ⟨fun node hn hv => ?_, fun type callee arguments hn => ⟨fun hv => ?_, ?_⟩⟩
  · obtain ⟨identifier, owner, found, rfl, hnull, hfound, htests⟩ :=
      hsound.of_void (ha.passesValues site) hn hv
    obtain ⟨v, hsymbols, -, -⟩ := ha.exists_resolveGlobal? hfound
    have hvalue := ha.values.2 _ _ _ (SymbolTable.global?_of_resolveGlobal? hsymbols)
    exact ⟨identifier, owner, v, found, rfl, hnull, hfound, hsymbols, hvalue, htests⟩
  · obtain ⟨identifier, owner, found, hr, -⟩ := hsound.of_void (ha.passesValues site) hn hv
    cases hr
  · exact ha.calls (hsound.resolves _ hn)

/-- The words of `module o { fn f { } module i { nullable ? a = f(); fn f :: int () { return 1; }
bool b = null == a; } }`. -/
def outgrowing : List Token :=
  [.synthetic (.keyword .moduleWord) "module", .synthetic .identifier "o",
    .synthetic .openCurly "\x7b", .synthetic (.keyword .fnWord) "fn", .synthetic .identifier "f",
    .synthetic .openCurly "\x7b", .synthetic .closeCurly "\x7d",
    .synthetic (.keyword .moduleWord) "module", .synthetic .identifier "i",
    .synthetic .openCurly "\x7b", .synthetic (.modifier .nullable) "nullable",
    .synthetic .question "?", .synthetic .identifier "a", .synthetic (.assign .plain) "=",
    .synthetic .identifier "f", .synthetic .openParen "(", .synthetic .closeParen ")",
    .synthetic .semicolon ";", .synthetic (.keyword .fnWord) "fn", .synthetic .identifier "f",
    .synthetic .doubleColon "::", .synthetic (.typeName .int) "int", .synthetic .openParen "(",
    .synthetic .closeParen ")", .synthetic .openCurly "\x7b",
    .synthetic (.keyword .returnWord) "return", .synthetic (.literal .integer) "1",
    .synthetic .semicolon ";", .synthetic .closeCurly "\x7d", .synthetic (.typeName .bool) "bool",
    .synthetic .identifier "b", .synthetic (.assign .plain) "=", .synthetic (.literal .null) "null",
    .synthetic (.binary .equal) "==", .synthetic .identifier "a", .synthetic .semicolon ";",
    .synthetic .closeCurly "\x7d", .synthetic .closeCurly "\x7d"]

/-- The comparison in it. The first pass calls `o.f` for the value of `a`, which returns nothing. -/
def outgrownTest : Expr :=
  .binary .bool (.literal .null (.synthetic (.literal .null) "null"))
    (.synthetic (.binary .equal) "==") (.read ⟨.void, true⟩ (.synthetic .identifier "a"))

/-- What that program is analyzed as. The value of `a` calls `o.i.f`, which returns an `int`. -/
def outgrown : Analysis where
  program :=
    [.module (.synthetic .identifier "o")
      [.function ⟨[], .synthetic .identifier "f", .synthetic (.typeName .void) "void", []⟩ [],
      .module (.synthetic .identifier "i")
        [.define ⟨[.synthetic (.modifier .nullable) "nullable"], .synthetic .identifier "a",
          .synthetic (.typeName .int) "int"⟩ (.call (.plain .int) (.synthetic .identifier "f") []),
        .function ⟨[], .synthetic .identifier "f", .synthetic (.typeName .int) "int", []⟩
          [.returning (.synthetic (.keyword .returnWord) "return")
            (some (.literal (.plain .int) (.synthetic (.literal .integer) "1")))],
        .define ⟨[], .synthetic .identifier "b", .synthetic (.typeName .bool) "bool"⟩
          outgrownTest]]]
  symbols := ⟨[.empty [],
    ⟨["o"], [], [⟨"f", .void, [⟨"f", .void, [], [], .interpreted []⟩]⟩]⟩,
    ⟨["o", "i"], [⟨"a", ⟨.int, true⟩, [.nullable], true⟩, ⟨"b", .bool, [], true⟩],
      [⟨"f", .plain .int, [⟨"f", .plain .int, [], [], .interpreted
        [.returning (.synthetic (.keyword .returnWord) "return")
          (some (.literal (.plain .int) (.synthetic (.literal .integer) "1")))]⟩]⟩]⟩]⟩

theorem analyze_outgrowing : analyze {} (fun _ _ => .notFound) outgrowing = .ok outgrown := by
  with_unfolding_all rfl

theorem mem_uses_outgrown : (⟨["o", "i"], none, []⟩, .initializer
    ⟨[], .synthetic .identifier "b", .synthetic (.typeName .bool) "bool"⟩ outgrownTest) ∈
      Stmt.usesIn .root outgrown.program :=
  .tail _ (.tail _ (.head _))

/-- The comparison is with the global `a`, which the first pass has registered without a value. -/
theorem analyze_void_of_outgrowing :
    ∃ identifier owner v found,
      Expr.read ⟨.void, true⟩ (.synthetic .identifier "a") = .read found.datatype identifier ∧
      found.datatype.nullable ∧
      (Session.skim {} outgrowing).table.resolveGlobal? ["o", "i"] identifier.text =
        some (owner, found) ∧
      outgrown.symbols.resolveGlobal? ["o", "i"] identifier.text = some (owner, v) ∧
      v.datatype.kind ≠ .void ∧ ∃ parent ∈ outgrownTest.nodes,
        parent.TestsNull (.read ⟨.void, true⟩ (.synthetic .identifier "a")) :=
  (analyze_void analyze_outgrowing mem_uses_outgrown).1 _ (.tail _ (.tail _ (.head _))) rfl

/-- The global `a` is read with the type `void` in a program that is accepted. -/
theorem outgrown_is_void :
    analyze {} (fun _ _ => .notFound) outgrowing = .ok outgrown ∧
    ∃ site use node, (site, use) ∈ Stmt.usesIn .root outgrown.program ∧ node ∈ use.nodes ∧
      node.type.kind = .void :=
  ⟨analyze_outgrowing, _, _, _, mem_uses_outgrown, .tail _ (.tail _ (.head _)), rfl⟩

end MuLang
