import Mathlib.Logic.Relation
import MuLang.Proofs.Parts
import MuLang.Proofs.Rewording

/-!
# Increments

A variable that counts up or down can be said to do so in two ways: `NAME++` is read like
`NAME += 1`, and `NAME--` like `NAME -= 1`, as a statement and as the step of a loop.
-/
namespace MuLang

namespace Token

variable {short long : List Token}

/-- The two spellings of a step up, and of a step down, of the same variable. -/
inductive Counts : List Token → List Token → Prop
  | up {counter sign operator amount : Token} : counter.kind = .identifier →
      sign.kind = .plusPlus → operator.toLexeme = ⟨.assign .add, "+="⟩ →
      amount.toLexeme = ⟨.literal .integer, "1"⟩ →
      Counts [counter, sign] [counter, operator, amount]
  | down {counter sign operator amount : Token} : counter.kind = .identifier →
      sign.kind = .minusMinus → operator.toLexeme = ⟨.assign .subtract, "-="⟩ →
      amount.toLexeme = ⟨.literal .integer, "1"⟩ →
      Counts [counter, sign] [counter, operator, amount]

/-- One statement `NAME++;` or `NAME--;`, or one such step of a loop, is spelled the long way. -/
inductive Respelled : List Token → List Token → Prop
  | statement {before modifiers short long after : List Token} {stop : Token} :
      Ended before → AreModifiers modifiers → Counts short long → stop.kind = .semicolon →
      Respelled (before ++ (modifiers ++ (short ++ stop :: after)))
        (before ++ (modifiers ++ (long ++ stop :: after)))
  | loopStep {before modifiers init test short long after : List Token}
      {keyword comma next opening : Token} : Ended before → AreModifiers modifiers →
      keyword.kind = .keyword .forWord → Unbroken init → Unbroken test →
      Step.headParts 0 (init ++ comma :: (test ++ next :: short)) = [init, test, short] →
      Counts short long → opening.kind = .openCurly →
      Respelled
        (before ++ (modifiers ++
          keyword :: (init ++ comma :: (test ++ next :: (short ++ opening :: after)))))
        (before ++ (modifiers ++
          keyword :: (init ++ comma :: (test ++ next :: (long ++ opening :: after)))))

namespace Counts

/-- Both spellings begin with the variable. -/
theorem exists_cons (h : Counts short long) : ∃ counter rest more,
    counter.kind = .identifier ∧ short = counter :: rest ∧ long = counter :: more := by
  cases h with
  | up hc => exact ⟨_, _, _, hc, rfl, rfl⟩
  | down hc => exact ⟨_, _, _, hc, rfl, rfl⟩

theorem flat (h : Counts short long) : Flat short ∧ Flat long := by
  cases h with
  | up hc hs ho ha => simp [Flat, hc, hs, congrArg Lexeme.kind ho, congrArg Lexeme.kind ha]
  | down hc hs ho ha => simp [Flat, hc, hs, congrArg Lexeme.kind ho, congrArg Lexeme.kind ha]

theorem unbroken (h : Counts short long) : Unbroken short ∧ Unbroken long := by
  cases h with
  | up hc hs ho ha =>
    simp [Unbroken, Kind.isBreak, hc, hs, congrArg Lexeme.kind ho, congrArg Lexeme.kind ha]
  | down hc hs ho ha =>
    simp [Unbroken, Kind.isBreak, hc, hs, congrArg Lexeme.kind ho, congrArg Lexeme.kind ha]

end Counts

end Token

namespace Step

variable {short long modifiers : List Token} {counter sign operator stop : Token}

/-- An assignment does nothing in the first pass, whether that is looked at before or not. -/
theorem assignStatement_eq (identifier operator : Token) (value : Expr) :
    (do
      if ← isSkimming then return none
      assignStatement identifier operator value) = assignStatement identifier operator value := by
  funext s
  have hs : isSkimming s = (.ok s.isSkimming, s) := rfl
  unfold assignStatement
  rw [Fallible.bind_of_ok hs, Fallible.bind_of_ok hs]
  cases hp : s.isSkimming with
  | true => rfl
  | false =>
    rw [if_neg (by decide), if_neg (by decide), Fallible.bind_of_ok hs, hp]
    rfl

/-- What an assignment of 1 does. -/
theorem actionStatement_one {op : AssignOp} (hk : operator.kind = .assign op) :
    actionStatement [counter, operator, .synthetic (.literal .integer) "1", stop] modifiers = (do
      rejectModifiers modifiers
      requireFunction counter "assignments and calls"
      assignStatement counter operator one) := by
  simp only [actionStatement, Token.tokenAt, List.getElem?_cons_zero, List.getElem?_cons_succ,
    ofExcept, pure_bind, hk]
  refine bind_congr fun _ => bind_congr fun _ => ?_
  rw [← assignStatement_eq counter operator one]
  rfl

/-- What `NAME++` does. -/
theorem actionStatement_increment (hk : sign.kind = .plusPlus) :
    actionStatement [counter, sign, stop] modifiers = (do
      rejectModifiers modifiers
      requireFunction counter "assignments and calls"
      assignStatement counter (.synthetic (.assign .add) "+=") one) := by
  simp only [actionStatement, Token.tokenAt, List.getElem?_cons_zero, List.getElem?_cons_succ,
    ofExcept, pure_bind, hk]
  rfl

/-- What `NAME--` does. -/
theorem actionStatement_decrement (hk : sign.kind = .minusMinus) :
    actionStatement [counter, sign, stop] modifiers = (do
      rejectModifiers modifiers
      requireFunction counter "assignments and calls"
      assignStatement counter (.synthetic (.assign .subtract) "-=") one) := by
  simp only [actionStatement, Token.tokenAt, List.getElem?_cons_zero, List.getElem?_cons_succ,
    ofExcept, pure_bind, hk]
  rfl

/-- Both spellings are one action, wherever they stand. -/
theorem actionStatement_counts (h : Token.Counts short long) (modifiers : List Token)
    (stop : Token) : actionStatement ((short ++ [stop]).map Token.stripped) modifiers =
      actionStatement ((long ++ [stop]).map Token.stripped) modifiers := by
  cases h with
  | @up counter sign operator amount _ hs ho ha =>
    have hop : operator.stripped = .synthetic (.assign .add) "+=" := by
      rw [Token.stripped, ho]
      rfl
    have hone : amount.stripped = .synthetic (.literal .integer) "1" := by
      rw [Token.stripped, ha]
      rfl
    simp only [List.cons_append, List.nil_append, List.map_cons, List.map_nil, hop, hone]
    exact (@actionStatement_increment _ _ sign.stripped _ hs).trans (actionStatement_one rfl).symm
  | @down counter sign operator amount _ hs ho ha =>
    have hop : operator.stripped = .synthetic (.assign .subtract) "-=" := by
      rw [Token.stripped, ho]
      rfl
    have hone : amount.stripped = .synthetic (.literal .integer) "1" := by
      rw [Token.stripped, ha]
      rfl
    simp only [List.cons_append, List.nil_append, List.map_cons, List.map_nil, hop, hone]
    exact (@actionStatement_decrement _ _ sign.stripped _ hs).trans (actionStatement_one rfl).symm

/-- A loop looks at the first token of its step, and reads it as an action. -/
theorem loopStatement_congr {step other : List Token} (keyword : Token) (init test : List Token)
    (hh : step.head? = other.head?)
    (ha : actionStatement (terminated step) [] = actionStatement (terminated other) []) :
    loopStatement keyword init test step = loopStatement keyword init test other := by
  unfold loopStatement expectStart
  rw [hh, ha]

end Step

/-! ## Whole programs -/

namespace Token

variable {tokens others : List Token}

/-- A step of a loop that is spelled the other way leaves the head as it is. -/
theorem Counts.forStatement_eq {keyword comma next opening : Token} {init test short long : List Token}
    (hc : Counts short long)
    (hp : Step.headParts 0 (init ++ comma :: (test ++ next :: short)) = [init, test, short])
    (modifiers : List Token) :
    Step.forStatement ((keyword ::
        (init ++ comma :: (test ++ next :: short) ++ [opening])).map stripped) modifiers =
      Step.forStatement ((keyword ::
        (init ++ comma :: (test ++ next :: long) ++ [opening])).map stripped) modifiers := by
  have hlong : Step.headParts 0 (init ++ comma :: (test ++ next :: long)) = [init, test, long] := by
    have hsplit (step : List Token) : init ++ comma :: (test ++ next :: step) =
        (init ++ comma :: (test ++ [next])) ++ step := by simp
    rw [hsplit] at hp ⊢
    exact Step.headParts_append_flat [init, test] hc.flat.1 hc.flat.2 hp
  have hfor {head step : List Token} (hp : Step.headParts 0 head = [init, test, step]) :
      Step.forStatement ((keyword :: (head ++ [opening])).map stripped) modifiers = (do
        Step.rejectModifiers modifiers
        Step.requireFunction keyword.stripped "for loops"
        Step.changeScopes (·.push .loopHeader)
        Step.loopStatement keyword.stripped (init.map stripped) (test.map stripped)
          (step.map stripped)) := by
    have hparts : Step.headParts 0 (head.map stripped) =
        [init.map stripped, test.map stripped, step.map stripped] := by
      rw [Step.Shadows.headParts_stripped, hp]
      rfl
    rw [List.map_cons, List.map_append]
    exact Step.forStatement_of_divides (hparts ▸ .written)
  have hstep : Step.loopStatement keyword.stripped (init.map stripped) (test.map stripped)
      (short.map stripped) = Step.loopStatement keyword.stripped (init.map stripped)
        (test.map stripped) (long.map stripped) := by
    have haction := Step.actionStatement_counts hc [] (.synthetic .semicolon ";")
    rw [List.map_append, List.map_append] at haction
    obtain ⟨counter, rest, more, -, rfl, rfl⟩ := hc.exists_cons
    exact Step.loopStatement_congr _ _ _ rfl haction
  rw [hfor hp, hfor hlong, hstep]

theorem Respelled.readAlike (h : Respelled tokens others) : ReadAlike tokens others := by
  cases h with
  | @statement before modifiers short long after stop hb hm hc hs =>
    have haction := fun modifiers => Step.actionStatement_counts hc modifiers stop
    obtain ⟨hshort, hlong⟩ := hc.unbroken
    obtain ⟨counter, rest, more, hk, rfl, rfl⟩ := hc.exists_cons
    exact .action hb hm hk (List.forall_mem_cons.1 hshort).2 (List.forall_mem_cons.1 hlong).2 hs
      haction
  | @loopStep before modifiers init test short long after keyword comma next opening hb hm hk hi ht
      hp hc ho =>
    obtain ⟨hcomma, hnext⟩ := Step.commas_of_headParts hp
    have hunbroken {step : List Token} (hs : Unbroken step) :
        Unbroken (init ++ comma :: (test ++ next :: step)) := by
      simp only [Unbroken, List.forall_mem_append, List.forall_mem_cons] at *
      exact ⟨hi, by simp [hcomma, Kind.isBreak], ht, by simp [hnext, Kind.isBreak], hs⟩
    have hloop := @ReadAlike.loop before _ _ after opening _ keyword hb hm hk
      (hunbroken hc.unbroken.1) (hunbroken hc.unbroken.2) ho (hc.forStatement_eq hp)
    simpa only [List.append_assoc, List.cons_append] using hloop

end Token

/-- `NAME++` and `NAME += 1` are interchangeable, and so are `NAME--` and `NAME -= 1`: however many
statements and steps of loops are spelled the long way, a program is accepted as before, with the
same statements and the same table, or it is rejected for the same causes. -/
theorem analyze_respelled {settings : Settings} {natives : Native.Bindings}
    {tokens others : List Token} (h : Relation.ReflTransGen Token.Respelled tokens others) :
    Analysis.Agree (analyze settings natives tokens) (analyze settings natives others) := by
  refine Analysis.agree_of_stripped ?_
  induction h with
  | refl => rfl
  | tail _ hlast ih => exact ih.trans (hlast.readAlike.analyze_eq settings natives)

namespace Counting

/-- The tokens of `module m { fn f {`. -/
def before : List Token :=
  [.synthetic (.keyword .moduleWord) "module", .synthetic .identifier "m",
    .synthetic .openCurly "\x7b", .synthetic (.keyword .fnWord) "fn", .synthetic .identifier "f",
    .synthetic .openCurly "\x7b"]

/-- The tokens of `mut int i = 0`. -/
def init : List Token :=
  [.synthetic (.modifier .mutable) "mut", .synthetic (.typeName .int) "int",
    .synthetic .identifier "i", .synthetic (.assign .plain) "=",
    .synthetic (.literal .integer) "0"]

/-- The tokens of `i < 3`. -/
def test : List Token :=
  [.synthetic .identifier "i", .synthetic (.binary .less) "<", .synthetic (.literal .integer) "3"]

/-- The tokens of `module m { fn f { for mut int i = 0, i < 3, STEP { BODY; } } }`. -/
def program (step body : List Token) : List Token :=
  before ++ .synthetic (.keyword .forWord) "for" :: (init ++ .synthetic .comma "," ::
    (test ++ .synthetic .comma "," :: (step ++ .synthetic .openCurly "\x7b" ::
      (body ++ .synthetic .semicolon ";" :: [.synthetic .closeCurly "\x7d",
        .synthetic .closeCurly "\x7d", .synthetic .closeCurly "\x7d"]))))

/-- The tokens of `i++` and of `i--`. -/
def up : List Token := [.synthetic .identifier "i", .synthetic .plusPlus "++"]

def down : List Token := [.synthetic .identifier "i", .synthetic .minusMinus "--"]

/-- The tokens of `i += 1` and of `i -= 1`. -/
def upByOne : List Token :=
  [.synthetic .identifier "i", .synthetic (.assign .add) "+=", .synthetic (.literal .integer) "1"]

def downByOne : List Token :=
  [.synthetic .identifier "i", .synthetic (.assign .subtract) "-=",
    .synthetic (.literal .integer) "1"]

end Counting

/-- A program with a loop that counts up, and down in its body, is accepted with the same outcome
once both are spelled the long way. -/
theorem analyze_respelled_program : ∃ analysis other,
    analyze {} (fun _ _ => .notFound) (Counting.program Counting.up Counting.down) =
        .ok analysis ∧
      analyze {} (fun _ _ => .notFound) (Counting.program Counting.upByOne Counting.downByOne) =
        .ok other ∧
      Analysis.Agree (.ok analysis) (.ok other) := by
  have hstep : Token.Respelled (Counting.program Counting.up Counting.down)
      (Counting.program Counting.upByOne Counting.down) :=
    @Token.Respelled.loopStep Counting.before [] Counting.init Counting.test _ _ _ _ _ _ _
      (by decide) nofun rfl (by decide) (by decide) rfl (.up rfl rfl rfl rfl) rfl
  have hbody : Token.Respelled (Counting.program Counting.upByOne Counting.down)
      (Counting.program Counting.upByOne Counting.downByOne) :=
    @Token.Respelled.statement (Counting.before ++ .synthetic (.keyword .forWord) "for" ::
        (Counting.init ++ .synthetic .comma "," :: (Counting.test ++ .synthetic .comma "," ::
          (Counting.upByOne ++ [.synthetic .openCurly "\x7b"])))) [] _ _ _ _
      (by decide) nofun (.down rfl rfl rfl rfl) rfl
  have h := @analyze_respelled {} (fun _ _ => .notFound) _ _
    ((Relation.ReflTransGen.single hstep).tail hbody)
  have hok : (analyze {} (fun _ _ => .notFound)
      (Counting.program Counting.up Counting.down)).isOk = true := by
    with_unfolding_all rfl
  generalize analyze {} _ (Counting.program Counting.up Counting.down) = first at h hok
  generalize analyze {} _ (Counting.program Counting.upByOne Counting.downByOne) = second at h
  rcases first with _ | analysis <;> rcases second with _ | other
  · cases hok
  · cases hok
  · cases h
  · exact ⟨analysis, other, rfl, rfl, h⟩

end MuLang
