import MuLang.Proofs.Definable
import MuLang.Proofs.Image

/-!
# Places in a text

Which blocks are open after some tokens, and which words have been read of the next statement, can
be told from the tokens alone. Every reading of them stands in scopes of these blocks.
-/
namespace MuLang

namespace Token

/-- A place in a text: the heads of the blocks around it, innermost first, and the words before it
that belong to the same statement. -/
structure Cursor where
  heads : List (List Token) := []
  words : List Token := []
  deriving DecidableEq, Inhabited

/-- The place after one more token. -/
def Cursor.next (cursor : Cursor) (token : Token) : Cursor :=
  match token.kind with
  | .semicolon => { cursor with words := [] }
  | .openCurly => ⟨cursor.words :: cursor.heads, []⟩
  | .closeCurly => ⟨cursor.heads.tail, []⟩
  | _ => { cursor with words := cursor.words ++ [token] }

/-- The place after some more tokens. -/
def Cursor.move (cursor : Cursor) (tokens : List Token) : Cursor := tokens.foldl next cursor

/-- The place after some tokens from the beginning. -/
def cursor (tokens : List Token) : Cursor := Cursor.move {} tokens

/-- The kind of scope of a block with some head. A head that tells none opens a block like that of an
`if`. -/
def blockKind (head : List Token) : ScopeKind := (block? head).getD .ifBlock

variable {place : Cursor} {tokens more words : List Token} {token : Token}

namespace Cursor

@[simp] theorem move_nil (cursor : Cursor) : cursor.move [] = cursor := rfl

@[simp] theorem move_cons (cursor : Cursor) (token : Token) (rest : List Token) :
    cursor.move (token :: rest) = (cursor.next token).move rest := rfl

@[simp] theorem move_append (cursor : Cursor) (tokens more : List Token) :
    cursor.move (tokens ++ more) = (cursor.move tokens).move more := List.foldl_append

theorem next_semicolon (hk : token.kind = .semicolon) :
    place.next token = { place with words := [] } := by
  simp [next, hk]

theorem next_openCurly (hk : token.kind = .openCurly) :
    place.next token = ⟨place.words :: place.heads, []⟩ := by
  simp [next, hk]

theorem next_closeCurly (hk : token.kind = .closeCurly) :
    place.next token = ⟨place.heads.tail, []⟩ := by
  simp [next, hk]

/-- As many heads stand around a place as braces are open there. -/
theorem length_move (cursor : Cursor) (tokens : List Token) :
    (cursor.move tokens).heads.length = tokens.foldl depthAfter cursor.heads.length := by
  induction tokens generalizing cursor with
  | nil => rfl
  | cons token rest ih =>
    have hn : (cursor.next token).heads.length = token.depthAfter cursor.heads.length := by
      unfold next depthAfter
      split <;> simp [*]
    rw [move_cons, ih, hn, List.foldl_cons]

/-- Tokens that leave the blocks around a place open stay inside of them. -/
theorem exists_inner {inner : List (List Token)} (cursor : Cursor) (outer : List (List Token))
    (h : cursor.heads = inner ++ outer) (hs : strays inner.length tokens = []) :
    ∃ later, (cursor.move tokens).heads = later ++ outer ∧
      later.length = tokens.foldl depthAfter inner.length := by
  induction tokens generalizing cursor inner with
  | nil => exact ⟨inner, h, rfl⟩
  | cons token rest ih =>
    obtain ⟨hstray, hrest⟩ := List.append_eq_nil_iff.1 hs
    obtain ⟨later, hl, hd⟩ : ∃ later, (cursor.next token).heads = later ++ outer ∧
        later.length = token.depthAfter inner.length := by
      unfold next depthAfter
      split
      · exact ⟨inner, h, by simp [*]⟩
      · exact ⟨cursor.words :: inner, by simp [h], by simp [*]⟩
      next hk =>
        cases inner with
        | nil => simp [isStray, hk] at hstray
        | cons head inner => exact ⟨inner, by simp [h], by simp [*]⟩
      · exact ⟨inner, h, by split <;> simp_all⟩
    rw [← hd] at hrest
    obtain ⟨last, hlast, hlength⟩ := ih _ hl hrest
    exact ⟨last, hlast, by rw [hlength, hd]; rfl⟩

end Cursor

/-- A token that is no modifier and tells no block itself does not change what block its head
tells. -/
theorem block?_append (words : List Token) (hm : token.kind.isModifier = false)
    (hb : token.kind.block? = none) : block? (words ++ [token]) = block? words := by
  have ha : afterModifiers (words ++ [token]) = afterModifiers words ++ [token] := by
    unfold afterModifiers
    rw [List.dropWhile_append]
    split
    next hn => simp [hm, List.isEmpty_iff.1 hn]
    next => rfl
  unfold block?
  rw [ha]
  cases afterModifiers words with
  | nil => simpa using hb
  | cons => rfl

theorem block?_opening (words : List Token) (hk : token.kind = .openCurly) :
    block? (words ++ [token]) = block? words :=
  block?_append words (by rw [hk]; rfl) (by rw [hk]; rfl)

/-- The scope of a program is that of no block. -/
theorem blockKind_ne_program (head : List Token) : blockKind head ≠ .program := by
  unfold blockKind block?
  cases (afterModifiers head).head? with
  | none => simp
  | some first =>
    simp only [Option.bind_some]
    unfold Kind.block?
    split <;> simp

end Token

namespace Reading

variable {cursor : Token.Cursor} {reading later : Reading} {read tokens : List Token}
  {token : Token}

/-- A reading stands at a place in a text. -/
structure At (cursor : Token.Cursor) (reading : Reading) : Prop where
  current_eq : reading.current = cursor.words
  blockKinds_eq : reading.session.scopes.blockKinds = cursor.heads.map Token.blockKind
  balanced : reading.Balanced

theorem at_start (session : Session) (pass : Pass) : (start session pass).At {} :=
  ⟨rfl, rfl, balanced_start session pass⟩

theorem blockKinds_closeBlock (hb : reading.Balanced) (brace : Token) :
    (reading.closeBlock brace).session.scopes.blockKinds =
      reading.session.scopes.blockKinds.tail := by
  unfold Balanced at hb
  unfold closeBlock
  split
  next hn =>
    rw [hn] at hb
    generalize hk : reading.session.scopes.kinds = kinds at hb
    cases hb
    have hs : reading.session.scopes.blockKinds = [] := by rw [ScopeStack.blockKinds, hk]; rfl
    exact hs.trans (congrArg List.tail hs).symm
  next owner body blocks hn =>
    rw [hn] at hb
    obtain ⟨rest, hr, -⟩ := hb.popBlock
    dsimp only
    rw [hr]
    dsimp only
    rw [session_changeBody]
    exact ScopeStack.blockKinds_popBlock? hb hr

theorem at_step (h : reading.At cursor) (token : Token) :
    (reading.step token).At (cursor.next token) := by
  obtain ⟨hw, hk, hb⟩ := h
  refine ⟨?_, ?_, balanced_step reading hb token⟩
  · unfold step
    split
    next hs =>
      rw [endStatement_eq, current_changeBody, current_run, Token.Cursor.next_semicolon hs]
    next ho =>
      rw [Token.Cursor.next_openCurly ho]
      exact current_run { reading with current := [] } _
    next hc =>
      rw [Token.Cursor.next_closeCurly hc]
      split
      next he => exact (current_closeBlock reading token).trans (List.isEmpty_iff.1 he)
      next => exact current_closeBlock (report { reading with current := [] } _) token
    next hs ho hc =>
      unfold Token.Cursor.next
      split <;> first | contradiction | rw [hw]
  · unfold step
    split
    next hs =>
      rw [Token.Cursor.next_semicolon hs]
      exact (blockKinds_endStatement { reading with current := [] } _).trans hk
    next ho =>
      rw [Token.Cursor.next_openCurly ho]
      refine (blockKinds_openBlock { reading with current := [] } _).trans ?_
      rw [Token.block?_opening _ ho, hw, hk]
      rfl
    next hc =>
      rw [Token.Cursor.next_closeCurly hc, List.map_tail, ← hk]
      split
      · exact blockKinds_closeBlock hb token
      · exact @blockKinds_closeBlock (report { reading with current := [] } _) hb token
    next hs ho hc =>
      unfold Token.Cursor.next
      split <;> first | contradiction | exact hk

theorem at_of_passes (h : reading.At cursor) (hp : reading.Passes read later) :
    later.At (cursor.move read) := by
  induction hp with
  | start => exact h
  | token _ _ _ ih =>
    rw [Token.Cursor.move_append]
    exact at_step ih _

/-- The innermost scope is that of the innermost block, or outside of all blocks the outermost
one. -/
theorem At.currentKind_eq (h : reading.At cursor) : reading.session.scopes.currentKind =
    (cursor.heads.head?.map Token.blockKind).getD reading.session.scopes.outermost.kind := by
  rw [← List.head?_map, ← h.blockKinds_eq]
  have hn := h.balanced.head?_ne
  unfold ScopeStack.blockKinds ScopeStack.kinds at *
  cases hs : reading.session.scopes.nested with
  | nil => simp [ScopeStack.currentKind, ScopeStack.current, hs]
  | cons scope rest =>
    have hk : scope.kind ≠ .loopHeader := by simpa [hs] using hn
    simp [ScopeStack.currentKind, ScopeStack.current, hs, hk]

end Reading

/-! ## Where blocks may stand -/

namespace Step

variable {s t : Session} {chain : Chain} {tokens : List Token} {result : Option Owner}

/-- What a module or a function starts with tells what it is. -/
theorem owner_of_blockKind (chain : Chain) (tokens : List Token) :
    (Token.blockKind tokens = .module → owner chain tokens = Option.map Owner.statement <$>
        moduleStatement (Token.afterModifiers tokens) (Token.leadingModifiers tokens)) ∧
      (Token.blockKind tokens = .function → owner chain tokens = Option.map Owner.statement <$>
        functionStatement (Token.afterModifiers tokens) (Token.leadingModifiers tokens)) := by
  cases ha : Token.afterModifiers tokens with
  | nil => simp [Token.blockKind, Token.block?, ha]
  | cons first rest =>
    have hkind : Token.blockKind tokens = first.kind.block?.getD .ifBlock := by
      simp [Token.blockKind, Token.block?, ha]
    rw [hkind]
    unfold owner statement Token.block?
    cases hk : first.kind <;> simp only [Kind.block?, Option.getD_none, reduceCtorEq,
      false_imp_iff, and_self]
    next word =>
      cases word <;> simp [ha, hk]

/-- A module is declared at the top level or in another one. -/
theorem currentKind_of_module (h : owner chain tokens s = (.ok result, t))
    (hk : Token.blockKind tokens = .module) :
    s.scopes.currentKind = .program ∨ s.scopes.currentKind = .module := by
  rw [(owner_of_blockKind chain tokens).1 hk] at h
  obtain ⟨read, hread, -⟩ := Fallible.map_eq_ok.1 h
  obtain ⟨-, -, hplace, -⟩ := moduleStatement_ok hread
  exact hplace

/-- Modules and functions are declared in modules, or at the top level. -/
theorem currentKind_of_owner (hs : s.isSkimming) (h : owner chain tokens s = (.ok result, t))
    (hk : Token.blockKind tokens = .module ∨ Token.blockKind tokens = .function) :
    s.scopes.currentKind = .program ∨ s.scopes.currentKind = .module := by
  obtain hk | hk := hk
  · exact currentKind_of_module h hk
  · rw [(owner_of_blockKind chain tokens).2 hk] at h
    obtain ⟨read, hread, -⟩ := Fallible.map_eq_ok.1 h
    obtain ⟨-, -, -, hadmits, -⟩ := skim_functionStatement hs hread
    unfold Session.admitsGlobals at hadmits
    split at hadmits
    next hmodule => exact .inr hmodule
    next hprogram => exact .inl hprogram
    next => cases hadmits

end Step

namespace Token

/-- Modules and functions stand in modules alone. -/
def Strata (heads : List (List Token)) : Prop := heads.Pairwise fun inner outer =>
  blockKind inner = .module ∨ blockKind inner = .function → blockKind outer = .module

/-- Around a module, and around what stands in it, there are modules alone. -/
theorem Strata.modules {heads : List (List Token)} (h : Strata heads)
    (hk : ∀ head ∈ heads.head?, blockKind head = .module) :
    ∀ head ∈ heads, blockKind head = .module := by
  cases h with
  | nil => simp
  | cons ho _ =>
    have hm := hk _ rfl
    exact List.forall_mem_cons.2 ⟨hm, fun outer ho' => ho outer ho' (.inl hm)⟩

end Token

namespace Reading

variable {settings : Settings} {read : List Token} {later : Reading}

/-- In a first pass that reports nothing, modules and functions stand where they may. -/
theorem strata_of_passes {session : Session} (h : (start session .skim).Passes read later)
    (hc : later.session.log.Clean) : Token.Strata (Token.cursor read).heads := by
  induction h with
  | start => exact .nil
  | @token read later token hp _ hk ih =>
    have hearlier := ih ((extends_step later token).clean hc)
    have hat : later.At (Token.cursor read) := at_of_passes (at_start session .skim) hp
    rw [Token.cursor, Token.Cursor.move_append]
    change Token.Strata ((Token.cursor read).next token).heads
    unfold Token.Cursor.next
    split
    next => exact hearlier
    next ho =>
      unfold step at hc
      simp only [ho] at hc
      obtain ⟨owner, after, howner, -⟩ := openBlock_of_clean hc
      refine .cons (fun outer hm hkind => ?_) hearlier
      rw [← hat.current_eq] at hkind
      have hwords : Token.blockKind (later.current ++ [token]) = Token.blockKind later.current := by
        rw [Token.blockKind, Token.block?_opening _ ho, Token.blockKind]
      rw [← hwords] at hkind
      have hcurrent := Step.currentKind_of_owner (hp.isSkimming_eq.trans rfl) howner hkind
      refine hearlier.modules (fun head hhead => ?_) outer hm
      change later.session.scopes.currentKind = _ ∨
        later.session.scopes.currentKind = _ at hcurrent
      rw [hat.currentKind_eq, Option.mem_def.1 hhead] at hcurrent
      exact hcurrent.resolve_left (Token.blockKind_ne_program head)
    next => exact hearlier.sublist (List.tail_sublist _)
    next => exact hearlier

end Reading

end MuLang
