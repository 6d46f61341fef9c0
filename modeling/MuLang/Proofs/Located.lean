import Mathlib.Data.List.TakeDrop
import MuLang.Proofs.Fault
import MuLang.Proofs.Spelling

/-!
# Where the errors of a statement stand

An error of a statement stands at one of its tokens, unless the statement stands for more than it
writes. The head of a loop is read as two statements and a condition, `++` and `--` as assignments
of a sum, and a function without a return type as one of `void`. The tokens that are made up for
these stand nowhere, and so does what is found wrong at one of them.
-/
namespace MuLang

open Error (Concerns FoundIn)

/-! ## The errors of an expression -/

namespace Term

variable {stop : Token} {tokens : List Token} {trace : List (Except Error Token)} {error : Error}

/-- What a term shows is that a token is misplaced, or that something is the matter with a word. -/
theorem Says.cases_of_foundIn (h : Says stop tokens trace) (he : error.FoundIn trace) :
    (∃ token ∈ tokens ++ [stop], Misplaced token error) ∨
      ∃ word ∈ tokens, word.isWord ∧ error.Concerns word := by
  have said_error {words : List Token} : (.error error : Except Error Token) ∉ said words := by
    simp [said]
  have of_said {words : List Token} {word : Token} (hw : .ok word ∈ said words) :
      word ∈ words ∧ word.isWord := by
    simpa [said] using hw
  cases h with
  | whole =>
    obtain he | ⟨word, hw, hc⟩ := he
    · exact absurd he said_error
    · exact .inr ⟨word, (of_said hw).1, (of_said hw).2, hc⟩
  | @broken before rest token _ hr ht hm =>
    obtain he | ⟨word, hw, hc⟩ := he
    · obtain he | he := List.mem_append.1 he
      · exact absurd he said_error
      · cases List.mem_singleton.1 he
        refine .inl ⟨token, ?_, hm⟩
        rw [hr, List.append_assoc]
        exact List.mem_append_right _ ht
    · obtain hw | hw := List.mem_append.1 hw
      · exact .inr ⟨word, hr ▸ List.mem_append_left _ (of_said hw).1, (of_said hw).2, hc⟩
      · cases List.mem_singleton.1 hw

/-- The signs that a loop's limit is compared with are never misplaced themselves. -/
theorem says_comparison (stop : Token) {counter : Token} (hc : counter.kind = .identifier)
    (less opening : Token) (hl : less.kind = .binary .less) (ho : opening.kind = .openParen)
    (limit : List Token) :
    ∃ trace, Says stop limit trace ∧
      (operand stop [] (counter :: less :: opening :: limit)).trace =
        .ok counter :: .ok less :: trace := by
  have hread : Complete [counter] (.read counter) (less :: opening :: limit) :=
    .read hc (by rintro _ ⟨⟩; simp [hl, Kind.isAssignment, Kind.assign?])
  have hless : operand stop [] (counter :: less :: opening :: limit) =
      operand stop [.binary (.read counter) .less less] (opening :: limit) :=
    (operand_complete hread).trans (afterOperand_binary hl rfl)
  rw [hless]
  by_cases hcast : ∃ target closing rest type, limit = target :: closing :: rest ∧
      closing.kind = .closeParen ∧ target.kind.typeName? = some type
  · obtain ⟨target, closing, rest, type, rfl, hk, ht⟩ := hcast
    have hbegins : operand stop [.binary (.read counter) .less less]
          (opening :: target :: closing :: rest) =
        operand stop (.cast type target :: [.binary (.read counter) .less less]) rest :=
      operand_begins (.cast ho ht hk)
    obtain ⟨said, hs, htrace⟩ := (says_operand stop).1
      (.cast type target :: [.binary (.read counter) .less less]) rest
    refine ⟨_, (hs.sign (Token.isWord_of_kind hk rfl)).word (Token.isWord_of_typeName ht), ?_⟩
    simp [hbegins, htrace, Pending.traceOf, Pending.trace, trace]
  · have hbegins : operand stop [.binary (.read counter) .less less] (opening :: limit) =
        operand stop (.group :: [.binary (.read counter) .less less]) limit :=
      operand_begins (.group ho fun target closing rest he hk =>
        Option.eq_none_iff_forall_ne_some.2 fun type ht =>
          hcast ⟨target, closing, rest, type, he, hk, ht⟩)
    obtain ⟨said, hs, htrace⟩ := (says_operand stop).1
      (.group :: [.binary (.read counter) .less less]) limit
    exact ⟨said, hs, by simp [hbegins, htrace, Pending.traceOf, Pending.trace, trace]⟩

end Term

/-! ## Places -/

namespace Token

/-- A program has a token of some kind. -/
def Has (source : List Token) (kind : Kind) : Prop := ∃ token ∈ source, token.kind = kind

end Token

open Token (Has)

/-- The operators that a program uses without writing them, since it counts up or down by one. -/
inductive Counts (source : List Token) : Token → Prop
  | increment : Has source .plusPlus → Counts source (.synthetic (.assign .add) "+=")
  | decrement : Has source .minusMinus → Counts source (.synthetic (.assign .subtract) "-=")
  | arrow : Has source (.keyword .forWord) → Has source .arrow →
      Counts source (.synthetic (.assign .add) "+=")

/-- The errors that stand nowhere, since they are found at a token that the program does not write,
together with what the program must hold for that. -/
inductive Unplaced (source : List Token) : Error → Prop
  /-- The variable of a loop has no name, or no value to infer its type from. -/
  | declaration {expected : String} : Has source (.keyword .forWord) →
      expected = "a variable name" ∨ expected = "an initial value to infer the type from" →
      Unplaced source (.atToken (.expectedToken expected ";") (.synthetic .semicolon ";"))
  /-- The step of a loop is a name alone. -/
  | step : Has source (.keyword .forWord) →
      Unplaced source (.atToken (.unexpectedToken ";") (.synthetic .semicolon ";"))
  /-- The variable of a loop cannot be compared with its limit. -/
  | comparison (operands : String) : Has source (.keyword .forWord) → Has source .arrow →
      Unplaced source (.atToken (.operatorMismatch "<" operands) (.synthetic (.binary .less) "<"))
  /-- The limit of a loop is no expression, or is not yet one where it ends. -/
  | limit {token : Token} {error : Error} : Has source (.keyword .forWord) → Has source .arrow →
      token = .synthetic .closeParen ")" ∨ token = endOfExpression (.synthetic .closeParen ")") →
      Term.Misplaced token error → Unplaced source error
  /-- What is counted up or down is no number. -/
  | count {operator : Token} (operands : String) : Counts source operator →
      Unplaced source (.atToken (.operatorMismatch operator.text operands) operator)
  /-- What is counted up or down is a `char`, and the sum does not fit it. -/
  | widened {operator : Token} (nullable : Bool) : Counts source operator →
      Unplaced source ⟨.typeMismatch (Datatype.describe ⟨.char, nullable⟩) "int", .nowhere, []⟩
  /-- The host's function returns a value, and the declaration has no return type. -/
  | returnType (received : String) : Has source (.keyword .natWord) →
      Unplaced source (.atToken (.typeMismatch "void" received) voidToken)

/-- What is not found at a token of the program stands nowhere. -/
theorem Unplaced.position_eq {source : List Token} {error : Error} (h : Unplaced source error) :
    error.position = .nowhere := by
  cases h with
  | limit _ _ ht hm => obtain rfl | rfl := ht <;> cases hm <;> rfl
  | count _ hc => cases hc <;> rfl
  | _ => rfl

/-- An error stands at the start or at the end of a token of the program, or is one of those that
stand nowhere. -/
inductive Located (source : List Token) (error : Error) : Prop
  | start {token : Token} : token ∈ source → error.position = token.span.start →
      Located source error
  | stop {token : Token} : token ∈ source → error.position = token.span.stop →
      Located source error
  | nowhere : Unplaced source error → Located source error

section

variable {source tokens : List Token} {token : Token} {error : Error}

theorem located_atToken (h : token ∈ source) (cause : Cause) :
    Located source (.atToken cause token) :=
  .start h rfl

/-- The end of a statement is the end of its last token. -/
theorem located_atEnd (hs : tokens ⊆ source) (hn : tokens ≠ []) (cause : Cause) :
    Located source ⟨cause, (tokens.getLast?.map (·.span.stop)).getD .nowhere, []⟩ := by
  refine .stop (hs (List.getLast_mem hn)) ?_
  rw [List.getLast?_eq_getLast_of_ne_nil hn]
  rfl

theorem Term.Misplaced.located (h : Term.Misplaced token error) {other : Token}
    (ho : other ∈ source) (hp : token.span = other.span) : Located source error := by
  cases h <;> exact .start ho (congrArg Span.start hp)

theorem Error.Concerns.located (h : error.Concerns token) (ht : token ∈ source) :
    Located source error := by
  cases h with
  | operator operands => exact located_atToken ht _
  | operand _ hp => exact .start ht hp

end

namespace Env

variable {source tokens limit : List Token} {context : Token}

/-- An expression of the program's own tokens is rejected at one of them. -/
theorem raises_located (env : Env) (hs : tokens ⊆ source) (hc : context ∈ source) :
    Check.Raises (Located source) (env.expression tokens context) := by
  refine (Term.raises_foundIn env _ (Term.formed_ofTokens tokens context)).mono fun error he => ?_
  obtain ⟨-, ht⟩ | ⟨last, hl, ht⟩ := Term.trace_ofTokens tokens context
  · rw [ht] at he
    obtain he | ⟨word, hw, -⟩ := he
    · cases List.mem_singleton.1 he
      exact .stop hc rfl
    · cases List.mem_singleton.1 hw
  · obtain ⟨token, hm, hp⟩ | ⟨word, hw, -, hp⟩ := ht.cases_of_foundIn he
    · obtain hm | hm := List.mem_append.1 hm
      · exact hp.located (hs hm) rfl
      · rw [List.mem_singleton.1 hm] at hp
        exact hp.located (hs (List.mem_of_getLast? hl)) rfl
    · exact hp.located (hs hw)

/-- The comparison of a loop's variable with its limit is rejected at a token of the program, or at
one that stands for the comparison. -/
theorem raises_comparison (env : Env) {counter : Token} (hk : counter.kind = .identifier)
    (hcounter : counter ∈ source) (hs : limit ⊆ source) (hf : Has source (.keyword .forWord))
    (ha : Has source .arrow) (context : Token) :
    Check.Raises (Located source) (env.expression
      (counter :: .synthetic (.binary .less) "<" :: .synthetic .openParen "(" ::
        limit ++ [.synthetic .closeParen ")"]) context) := by
  refine (Term.raises_foundIn env _ (Term.formed_ofTokens _ context)).mono fun error he => ?_
  obtain ⟨trace, hsays, ht⟩ := Term.says_comparison
    (endOfExpression (.synthetic .closeParen ")")) hk
    (.synthetic (.binary .less) "<") (.synthetic .openParen "(") rfl rfl
    (limit ++ [.synthetic .closeParen ")"])
  have hterm : (Term.ofTokens (counter :: .synthetic (.binary .less) "<" ::
      .synthetic .openParen "(" :: limit ++ [.synthetic .closeParen ")"]) context).trace =
        .ok counter :: .ok (.synthetic (.binary .less) "<") :: trace := by
    rw [← ht]
    simp [Term.ofTokens, List.getLast?_cons, List.getLast?_append]
  rw [hterm] at he
  have htail : error.FoundIn trace → Located source error := by
    intro he
    obtain ⟨token, hm, hp⟩ | ⟨word, hw, hword, hp⟩ := hsays.cases_of_foundIn he
    · simp only [List.mem_append, List.mem_singleton, or_assoc] at hm
      obtain hm | hm := hm
      · exact hp.located (hs hm) rfl
      · exact .nowhere (.limit hf ha hm hp)
    · obtain hw | hw := List.mem_append.1 hw
      · exact hp.located (hs hw)
      · rw [List.mem_singleton.1 hw] at hword
        cases hword
  obtain he | ⟨word, hw, hp⟩ := he
  · exact htail (.inl (by simpa using he))
  · simp only [List.mem_cons, Except.ok.injEq] at hw
    obtain rfl | rfl | hw := hw
    · exact hp.located hcounter
    · cases hp with
      | operator operands => exact .nowhere (.comparison operands hf ha)
      | operand hstart => cases hstart
    · exact htail (.inr ⟨word, hw, hp⟩)

end Env

/-! ## Tokens at fixed places -/

namespace Token

variable {source tokens body : List Token} {token stop first : Token} {rest : List Token}
  {index : Nat} {error : Error}

theorem mem_of_tokenAt (h : tokenAt tokens index = .ok token) : token ∈ tokens :=
  List.mem_of_getElem? (getElem?_of_tokenAt h)

theorem mem_of_expectName {what : String} (h : expectName tokens index what = .ok token) :
    token ∈ tokens :=
  List.mem_of_getElem? (getElem?_of_expectName h)

theorem mem_of_expectAt {accepts : Kind → Bool} {expected : String}
    (h : expectAt tokens index accepts expected = .ok token) : token ∈ tokens :=
  List.mem_of_getElem? (getElem?_of_expectAt h).1

theorem located_of_tokenAt (hs : tokens ⊆ source) (hn : tokens ≠ [])
    (h : tokenAt tokens index = .error error) : Located source error := by
  unfold tokenAt at h
  split at h <;> cases h
  exact located_atEnd hs hn _

theorem located_of_expectAt (hs : tokens ⊆ source) (hn : tokens ≠ []) {accepts : Kind → Bool}
    {expected : String} (h : expectAt tokens index accepts expected = .error error) :
    Located source error := by
  unfold expectAt at h
  split at h
  next token ht =>
    split at h <;> cases h
    exact located_atToken (hs (List.mem_of_getElem? ht)) _
  next =>
    cases h
    exact located_atEnd hs hn _

theorem located_of_expectName (hs : tokens ⊆ source) (hn : tokens ≠ []) {what : String}
    (h : expectName tokens index what = .error error) : Located source error := by
  unfold expectName at h
  split at h
  next he =>
    cases h
    exact located_of_expectAt hs hn he
  next he =>
    split at h <;> cases h
    exact located_atToken (hs (mem_of_expectAt he)) _

theorem located_of_expectEnd (hs : tokens ⊆ source) {length : Nat}
    (h : expectEnd tokens length = .error error) : Located source error := by
  unfold expectEnd at h
  split at h
  · cases h
  · split at h <;> cases h
    next extra he => exact located_atToken (hs (List.mem_of_getElem? he)) _

theorem leadingModifiers_subset (tokens : List Token) : leadingModifiers tokens ⊆ tokens :=
  (List.takeWhile_prefix _).subset

theorem afterModifiers_subset (tokens : List Token) : afterModifiers tokens ⊆ tokens :=
  (List.dropWhile_suffix _).subset

theorem inner_subset (tokens : List Token) : inner tokens ⊆ tokens :=
  List.Subset.trans (List.dropLast_subset _) (List.tail_sublist _).subset

/-- The tokens of a statement are those of the program, but the `;` at its end may be the one that a
part of a loop's head is given. -/
structure Delimited (source tokens : List Token) : Prop where
  stopped : Stopped tokens
  body : tokens.dropLast ⊆ source
  last : ∀ stop ∈ tokens.getLast?, stop ∈ source ∨
    stop = .synthetic .semicolon ";" ∧ Has source (.keyword .forWord)

theorem delimited_of_subset (hs : tokens ⊆ source) (h : Stopped tokens) : Delimited source tokens :=
  ⟨h, List.Subset.trans (List.dropLast_subset _) hs,
    fun _ hl => .inl (hs (List.mem_of_getLast? hl))⟩

theorem delimited_terminated (hs : tokens ⊆ source) (hf : Has source (.keyword .forWord)) :
    Delimited source (Step.terminated tokens) := by
  refine ⟨Step.stopped_terminated tokens, ?_, fun stop hl => .inr ⟨?_, hf⟩⟩
  · rwa [Step.terminated, List.dropLast_concat]
  · simpa [Step.terminated, eq_comm] using hl

theorem Delimited.mem_or (h : Delimited source tokens) (ht : token ∈ tokens) : token ∈ source ∨
    token = .synthetic .semicolon ";" ∧ Has source (.keyword .forWord) := by
  obtain ⟨stop, hl, -⟩ := h.stopped
  rw [← List.dropLast_append_getLast? stop hl] at ht
  obtain ht | ht := List.mem_append.1 ht
  · exact .inl (h.body ht)
  · exact List.mem_singleton.1 ht ▸ h.last stop hl

/-- Each token but one that ends a statement is of the program. -/
theorem Delimited.mem (h : Delimited source tokens) (ht : token ∈ tokens)
    (hk : token.kind.isStop = false) : token ∈ source := by
  obtain hs | ⟨rfl, -⟩ := h.mem_or ht
  · exact hs
  · cases hk

theorem Delimited.valueFrom (h : Delimited source tokens) {value : List Token}
    (hv : valueFrom tokens index = .ok value) : value ⊆ source := by
  unfold Token.valueFrom at hv
  split at hv <;> cases hv
  rw [List.dropLast_drop_eq_drop_dropLast]
  exact List.Subset.trans (List.drop_subset _ _) h.body

theorem kind_of_expectName {what : String} (h : expectName tokens index what = .ok token) :
    token.kind = .identifier := by
  unfold expectName at h
  split at h
  · cases h
  next he =>
    split at h <;> cases h
    simpa using (getElem?_of_expectAt he).2

end Token

/-! ## Signatures and forms -/

section

open Token

variable {source tokens : List Token} {error : Error}

theorem Parameter.located_of_ofTokens {last : Token} {segment : List Token} (hs : segment ⊆ source)
    (hl : last ∈ source) (h : Parameter.ofTokens last segment = .error error) :
    Located source error := by
  unfold Parameter.ofTokens at h
  dsimp only at h
  have hrest := List.Subset.trans (afterModifiers_subset segment) hs
  split at h
  next invalid hi =>
    cases h
    exact located_atToken (hs (leadingModifiers_subset segment (List.mem_of_find?_eq_some hi))) _
  · split at h
    next datatype identifier hr =>
      rw [hr] at hrest
      split at h
      · cases h
        exact located_atToken (hrest (by simp)) _
      · split at h <;> cases h
        exact located_atToken (hrest (by simp)) _
    next =>
      cases h
      refine located_atToken ?_ _
      cases ha : (afterModifiers segment)[2]? with
      | some extra => exact hrest (List.mem_of_getElem? ha)
      | none =>
        cases hh : (afterModifiers segment).head? with
        | some first => exact hrest (List.mem_of_head? hh)
        | none =>
          cases hg : segment.getLast? with
          | some modifier => exact hs (List.mem_of_getLast? hg)
          | none => exact hl

theorem subset_of_mem_fields {α : Type} {isSeparator : α → Bool} {list field : List α}
    (h : field ∈ fields isSeparator list) : field ⊆ list := by
  induction list generalizing field with
  | nil => simp_all [fields]
  | cons a rest ih =>
    simp only [fields] at h
    split at h
    · obtain rfl | h := List.mem_cons.1 h
      · exact List.nil_subset _
      · exact List.Subset.trans (ih h) (List.subset_cons_self a rest)
    · split at h
      next hf => exact absurd hf (fields_ne_nil rest)
      next first others hf =>
        obtain rfl | h := List.mem_cons.1 h
        · exact List.cons_subset_cons a (ih (hf ▸ List.mem_cons_self))
        · exact List.Subset.trans (ih (hf ▸ List.mem_cons_of_mem _ h))
            (List.subset_cons_self a rest)

theorem Parameter.located_of_listOfTokens (hs : tokens ⊆ source)
    (h : Parameter.listOfTokens tokens = .error error) : Located source error := by
  unfold Parameter.listOfTokens at h
  split at h
  · cases h
  next last hl =>
    obtain ⟨segment, hm, he⟩ := Except.exists_of_mapM_eq_error h
    exact located_of_ofTokens (List.Subset.trans (subset_of_mem_fields hm) hs)
      (hs (List.mem_of_getLast? hl)) he

namespace Signature

theorem located_of_parenthesized {start : Nat} (hs : tokens ⊆ source) (hn : tokens ≠ [])
    (h : parenthesized tokens start = .error error) : Located source error := by
  simp only [parenthesized, Except.bind_eq_error, Except.ite_eq_error, Except.throw_eq_error,
    Except.throw_ne_ok, exists_false, or_false, Except.pure_ne_error, and_false] at h
  obtain h | ⟨paren, hp, h | ⟨last, hl, -, rfl⟩⟩ := h
  · exact located_of_expectAt hs hn h
  · exact located_of_tokenAt hs hn h
  · exact located_atToken (hs (mem_of_tokenAt hl)) _

theorem subset_of_parenthesized {start : Nat} {inner : List Token}
    (h : parenthesized tokens start = .ok inner) : inner ⊆ tokens := by
  simp only [parenthesized, Except.bind_eq_ok, Except.ite_eq_ok, Except.pure_eq_ok,
    Except.throw_ne_ok, false_and, and_false, exists_false, false_or] at h
  obtain ⟨-, -, -, -, -, rfl⟩ := h
  exact List.Subset.trans (List.dropLast_subset _) (List.drop_subset _ _)

theorem located_of_ofTokens {allowBare : Bool} (hs : tokens ⊆ source) (hn : tokens ≠ [])
    (h : ofTokens tokens allowBare = .error error) : Located source error := by
  simp only [ofTokens, Except.bind_eq_error, Except.ite_eq_error, Except.pure_ne_error, and_false,
    exists_false, or_false, false_or] at h
  obtain h | ⟨_, -, h | ⟨_, -, -, h | ⟨mark, -, h⟩⟩⟩ := h
  · exact located_of_expectAt hs hn h
  · exact located_of_expectName hs hn h
  · exact located_of_expectAt hs hn h
  · obtain ⟨-, h | ⟨_, hp, h⟩⟩ | ⟨-, h | ⟨_, -, h | ⟨_, hp, h⟩⟩⟩ := h
    · exact located_of_parenthesized hs hn h
    · exact Parameter.located_of_listOfTokens (List.Subset.trans (subset_of_parenthesized hp) hs) h
    · exact located_of_expectAt hs hn h
    · exact located_of_parenthesized hs hn h
    · exact Parameter.located_of_listOfTokens (List.Subset.trans (subset_of_parenthesized hp) hs) h

/-- A return type is written, or it is the `void` of a function that writes none. -/
theorem Spelled.returnType {signature : Signature} (h : signature.Spelled tokens)
    (hs : tokens ⊆ source) : signature.returnType ∈ source ∨ signature.returnType = voidToken := by
  cases h with
  | bare => exact .inr rfl
  | void => exact .inr rfl
  | typed => exact .inl (hs (by simp))

end Signature

/-- The modifiers and names in the head of a function are tokens of the program. -/
structure FunctionHeader.Drawn (source : List Token) (header : FunctionHeader) : Prop where
  modifiers : header.modifiers ⊆ source
  identifier : header.identifier ∈ source
  parameters : ∀ parameter ∈ header.parameters,
    parameter.modifiers ⊆ source ∧ parameter.identifier ∈ source

theorem Parameter.drawn_of_spelledAll {parameters : List Parameter} (hs : tokens ⊆ source)
    (h : Parameter.SpelledAll parameters tokens) : ∀ parameter ∈ parameters,
      parameter.modifiers ⊆ source ∧ parameter.identifier ∈ source := by
  cases h with
  | none => simp
  | some _ _ hw =>
    intro parameter hp
    have hm := hw ▸ List.mem_map_of_mem (f := Parameter.words) hp
    have hsub : parameter.words ⊆ source := fun token ht =>
      hs (by simp [subset_of_mem_fields hm ht])
    exact ⟨fun token ht => hsub (by simp [Parameter.words, ht]), hsub (by simp [Parameter.words])⟩

theorem Signature.Spelled.drawn {signature : Signature} {modifiers : List Token}
    (h : signature.Spelled tokens) (hs : tokens ⊆ source) (hm : modifiers ⊆ source) :
    (signature.header modifiers).Drawn source := by
  cases h with
  | bare => exact ⟨hm, hs (by simp [Signature.header]), by simp [Signature.header]⟩
  | void _ _ hp =>
    exact ⟨hm, hs (by simp [Signature.header]),
      Parameter.drawn_of_spelledAll (fun _ ht => hs (by simp [ht])) hp⟩
  | typed _ _ hp =>
    exact ⟨hm, hs (by simp [Signature.header]),
      Parameter.drawn_of_spelledAll (fun _ ht => hs (by simp [ht])) hp⟩

/-- The type of a function is refused where it is written. -/
theorem FunctionHeader.located_of_definition {header : FunctionHeader} {body : FunctionBody}
    (ht : header.returnType ∈ source ∨ header.returnType = voidToken)
    (h : header.definition body = .error error) : Located source error := by
  unfold definition at h
  split at h <;> cases h
  next hn =>
    obtain ht | ht := ht
    · exact located_atToken ht _
    · rw [ht] at hn
      cases hn

/-- What a declaration of a variable says is said by tokens of the program. -/
structure VariableForm.Drawn (source : List Token) (form : VariableForm) : Prop where
  typeKeyword : form.typeKeyword ∈ source
  identifier : form.identifier ∈ source
  value : ∀ value ∈ form.value, value ⊆ source ∧ form.mark ∈ source

variable {first : Token} {rest : List Token}

theorem VariableForm.drawn_of_ofTokens (hd : Delimited source (first :: rest))
    (hk : first.kind.isStop = false) {form : VariableForm}
    (h : VariableForm.ofTokens (first :: rest) = .ok form) : form.Drawn source := by
  have hfirst : first ∈ source := hd.mem List.mem_cons_self hk
  simp [ofTokens, tokenAt] at h
  obtain ⟨-, identifier, hi, mark, hm, h⟩ := h
  have hidentifier : identifier ∈ source :=
    hd.mem (mem_of_expectName hi) (by rw [kind_of_expectName hi]; rfl)
  obtain ⟨hp, value, hv, rfl⟩ | ⟨-, -, rfl⟩ := h
  · refine ⟨hfirst, hidentifier, ?_⟩
    rintro _ ⟨⟩
    exact ⟨hd.valueFrom hv, hd.mem (mem_of_expectAt hm) (by rw [hp]; rfl)⟩
  · exact ⟨hfirst, hidentifier, by simp⟩

theorem VariableForm.located_of_ofTokens (hd : Delimited source (first :: rest))
    (hk : first.kind.isStop = false) (h : VariableForm.ofTokens (first :: rest) = .error error) :
    Located source error := by
  have hfirst : first ∈ source := hd.mem List.mem_cons_self hk
  -- What is expected at the end of the statement may stand nowhere.
  have atStop {token : Token} {expected : String} (ht : token ∈ first :: rest)
      (he : expected = "a variable name" ∨
        expected = "an initial value to infer the type from") :
      Located source (.atToken (.expectedToken expected token.text) token) := by
    obtain hs | ⟨rfl, hf⟩ := hd.mem_or ht
    · exact located_atToken hs _
    · exact .nowhere (.declaration hf he)
  simp only [ofTokens, Except.bind_eq_error, Except.ite_eq_error, Except.throw_eq_error,
    Except.throw_ne_ok, false_and, exists_false, or_false, false_or, Except.pure_ne_error,
    and_false, Except.map_eq_error] at h
  obtain h | ⟨_, h0, ⟨-, rfl⟩ | ⟨-, h | ⟨identifier, hi, h | ⟨mark, hm, h⟩⟩⟩⟩ := h
  · exact absurd h not_error_of_first
  · cases h0
    exact located_atToken hfirst _
  · have h1 := hd.stopped.second hk
    unfold expectName expectAt at h
    rw [List.getElem?_eq_getElem h1] at h
    dsimp only at h
    split at h
    next he =>
      split at he <;> cases he
      cases h
      exact atStop (List.getElem_mem h1) (.inl rfl)
    next he =>
      split at he <;> cases he
      split at h <;> cases h
      exact atStop (List.getElem_mem h1) (.inl rfl)
  · -- The name is followed by a token, and if that is a `;` all is well.
    have h2 := hd.stopped.lt_length (getElem?_of_expectName hi) (by rw [kind_of_expectName hi]; rfl)
    unfold expectAt at h
    rw [List.getElem?_eq_getElem h2] at h
    dsimp only at h
    split at h <;> cases h
    next ha =>
      refine located_atToken ?_ _
      obtain hs | ⟨hs, -⟩ := hd.mem_or (List.getElem_mem h2)
      · exact hs
      · rw [hs] at ha
        exact absurd rfl ha
  · obtain ⟨hp, h | ⟨value, -, -, rfl⟩⟩ | ⟨-, value, -, -, rfl⟩ := h
    · have hl := hd.stopped.lt_length (getElem?_of_expectAt hm).1 (by rw [hp]; rfl)
      rw [Token.valueFrom, if_pos hl] at h
      cases h
    · exact atStop (mem_of_expectAt hm) (.inr rfl)
    · exact atStop (mem_of_expectAt hm) (.inr rfl)

end

end MuLang
