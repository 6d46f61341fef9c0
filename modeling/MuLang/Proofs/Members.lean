import Mathlib.Logic.Relation
import MuLang.Proofs.Lines

/-!
# Members of modules

The members of a module are the lines and blocks that stand directly in its body. Two texts differ
in their order alone if the members of some modules stand in another order. Where the first of them
is a list of items, so is the second, and two neighbours at a time have traded places.
-/
namespace MuLang

namespace Token

variable {tokens body other more rest after : List Token} {closing brace : Token}

/-- A line, or a block with its head, whatever stands between its braces. -/
inductive IsMember : List Token → Prop
  | line {words : List Token} {stop : Token} : Unbroken words → stop.kind = .semicolon →
      IsMember (words ++ [stop])
  | block {head body : List Token} {opening closing : Token} : Unbroken head →
      opening.kind = .openCurly → Matched body → closing.kind = .closeCurly →
      IsMember (head ++ opening :: (body ++ [closing]))

/-- Some members of a module stand in another order. -/
inductive Reordered : List Token → List Token → Prop
  | intro {before head rest : List Token} {opening : Token} {members others : List (List Token)} :
      Ended before → Unbroken head → opening.kind = .openCurly →
      blockKind (head ++ [opening]) = .module → (∀ member ∈ members, IsMember member) →
      members.Perm others →
      Reordered (before ++ (head ++ opening :: (members.flatten ++ rest)))
        (before ++ (head ++ opening :: (others.flatten ++ rest)))

/-- Two neighbours among the members of a module have traded places. -/
inductive Trades : List Token → List Token → Prop
  | intro {before head first second rest : List Token} {opening : Token}
      {members : List (List Token)} : Ended before → Unbroken head → opening.kind = .openCurly →
      blockKind (head ++ [opening]) = .module → (∀ member ∈ members, IsMember member) →
      IsMember first → IsMember second →
      Trades (before ++ (head ++ opening :: (members.flatten ++ (first ++ (second ++ rest)))))
        (before ++ (head ++ opening :: (members.flatten ++ (second ++ (first ++ rest)))))

/-- Any other order is reached by trades of neighbours. -/
theorem Reordered.trades (h : Reordered tokens other) :
    Relation.ReflTransGen Trades tokens other := by
  obtain @⟨before, head, after, opening, members, others, hb, hh, ho, hk, hm, hp⟩ := h
  suffices hall : ∀ earlier : List (List Token), (∀ member ∈ earlier, IsMember member) →
      Relation.ReflTransGen Trades
        (before ++ (head ++ opening :: ((earlier ++ members).flatten ++ after)))
        (before ++ (head ++ opening :: ((earlier ++ others).flatten ++ after))) from
    hall [] (by simp)
  induction hp with
  | nil => exact fun _ _ => .refl
  | cons first _ ih =>
    intro earlier he
    obtain ⟨hf, hr⟩ := List.forall_mem_cons.1 hm
    have h := ih hr (earlier ++ [first]) (List.forall_mem_append.2 ⟨he, by simpa using hf⟩)
    simpa only [List.append_assoc, List.singleton_append] using h
  | swap first second rest =>
    intro earlier he
    obtain ⟨hs, hr⟩ := List.forall_mem_cons.1 hm
    have h := @Trades.intro _ _ _ _ (rest.flatten ++ after) _ _ hb hh ho hk he hs
      (List.forall_mem_cons.1 hr).1
    refine .single ?_
    simpa only [List.flatten_append, List.flatten_cons, List.append_assoc] using h
  | trans hp _ ih ih' =>
    intro earlier he
    exact (ih hm earlier he).trans (ih' (fun member h => hm member (hp.mem_iff.2 h)) earlier he)

theorem Matched.not_closed (h : Matched tokens) (hc : closing.kind = .closeCurly) :
    ¬Matched (tokens ++ closing :: rest) := by
  intro hm
  obtain ⟨hd, -⟩ := h 0
  have hs := (hm 0).2
  rw [strays_append, hd] at hs
  simp [strays, isStray, hc] at hs

/-- A block ends at the first brace that closes it. -/
theorem Matched.append_cons_inj (h : Matched body) (ho : Matched other)
    (hc : closing.kind = .closeCurly) (hb : brace.kind = .closeCurly)
    (he : body ++ closing :: rest = other ++ brace :: after) :
    body = other ∧ closing = brace ∧ rest = after := by
  obtain ⟨more, rfl, hmore⟩ | ⟨more, rfl, hmore⟩ := List.append_eq_append_iff.1 he
  · cases more with
    | nil => simpa using hmore
    | cons first more =>
      obtain ⟨rfl, -⟩ := List.cons.inj hmore
      exact absurd ho (h.not_closed hc)
  · cases more with
    | nil =>
      obtain ⟨rfl, rfl⟩ := List.cons.inj hmore
      simp
    | cons first more =>
      obtain ⟨rfl, -⟩ := List.cons.inj hmore
      exact absurd h (ho.not_closed hb)

end Token

namespace Item

/-- Inside of a module of some items, two neighbours have traded places. The kind is that of the
block that the items stand in. -/
inductive Trades : ScopeKind → List Item → List Item → Prop
  | swap (first second : Item) (rest : List Item) :
      Trades .module (first :: second :: rest) (second :: first :: rest)
  | later {kind : ScopeKind} {items others : List Item} (item : Item) :
      Trades kind items others → Trades kind (item :: items) (item :: others)
  | inside {kind : ScopeKind} {head : List Token} {opening closing : Token}
      {inner others rest : List Item} {whole : Token.Unbroken head}
      {opens : opening.kind = .openCurly} {closes : closing.kind = .closeCurly} :
      Trades (Token.openedKind head opening) inner others →
      Trades kind (.block head opening inner closing whole opens closes :: rest)
        (.block head opening others closing whole opens closes :: rest)

variable {items : List Item} {member head first second rest more : List Token}
  {opening closing : Token} {members : List (List Token)}

theorem Trades.symm {kind : ScopeKind} {others : List Item} (h : Trades kind items others) :
    Trades kind others items := by
  induction h with
  | swap => exact .swap _ _ _
  | later item _ ih => exact .later item ih
  | inside _ ih => exact .inside ih

/-- A member of a block is the first of its items if the block begins with it. -/
theorem exists_of_isMember (hm : Token.IsMember member) (hc : closing.kind = .closeCurly)
    (h : tokensOf items ++ closing :: more = member ++ rest) :
    ∃ item others, items = item :: others ∧ item.tokens = member ∧
      tokensOf others ++ closing :: more = rest := by
  have hclosing : closing.kind.isBreak := by simp [hc, Kind.isBreak]
  cases hm with
  | @line words stop hw hs =>
    have hstop : stop.kind.isBreak := by simp [hs, Kind.isBreak]
    rw [List.append_assoc, List.singleton_append] at h
    cases items with
    | nil =>
      obtain ⟨-, rfl, -⟩ := Token.unbroken_nil.append_cons_inj hw hclosing hstop h
      rw [hc] at hs
      cases hs
    | cons item others =>
      cases item with
      | line own stop' whole stops =>
        have hends : stop'.kind.isBreak := by simp [stops, Kind.isBreak]
        rw [tokensOf, tokens, List.append_assoc, List.append_assoc, List.singleton_append] at h
        obtain ⟨rfl, rfl, hrest⟩ := whole.append_cons_inj hw hends hstop h
        exact ⟨_, _, rfl, rfl, hrest⟩
      | block head opening inner closing' whole opens closes =>
        have hopening : opening.kind.isBreak := by simp [opens, Kind.isBreak]
        rw [tokensOf_block, List.append_assoc, List.append_assoc, List.singleton_append] at h
        obtain ⟨-, rfl, -⟩ := whole.append_cons_inj hw hopening hstop h
        rw [opens] at hs
        cases hs
  | @block head body opening brace hw ho hb hbrace =>
    have hopening : opening.kind.isBreak := by simp [ho, Kind.isBreak]
    rw [List.append_assoc, List.cons_append, List.append_assoc, List.singleton_append] at h
    cases items with
    | nil =>
      obtain ⟨-, rfl, -⟩ := Token.unbroken_nil.append_cons_inj hw hclosing hopening h
      rw [hc] at ho
      cases ho
    | cons item others =>
      cases item with
      | line own stop whole stops =>
        have hends : stop.kind.isBreak := by simp [stops, Kind.isBreak]
        rw [tokensOf, tokens, List.append_assoc, List.append_assoc, List.singleton_append] at h
        obtain ⟨-, rfl, -⟩ := whole.append_cons_inj hw hends hopening h
        rw [ho] at stops
        cases stops
      | block head' opening' inner closing' whole opens closes =>
        have hopening' : opening'.kind.isBreak := by simp [opens, Kind.isBreak]
        rw [tokensOf_block] at h
        simp only [List.append_assoc, List.cons_append, List.nil_append] at h
        obtain ⟨rfl, rfl, hinner⟩ := whole.append_cons_inj hw hopening' hopening h
        obtain ⟨rfl, rfl, hrest⟩ := (matched_tokensOf inner).append_cons_inj hb closes hbrace hinner
        exact ⟨_, _, rfl, by simp [tokens], hrest⟩

/-- Two members of a block that trade places are two items. -/
theorem exists_trades_of_body (hm : ∀ member ∈ members, Token.IsMember member)
    (hf : Token.IsMember first) (hs : Token.IsMember second) (hc : closing.kind = .closeCurly)
    (h : tokensOf items ++ closing :: more = members.flatten ++ (first ++ (second ++ rest))) :
    ∃ others tail, Trades .module items others ∧ rest = tail ++ closing :: more ∧
      tokensOf others = members.flatten ++ (second ++ (first ++ tail)) := by
  induction members generalizing items with
  | nil =>
    obtain ⟨item, later, rfl, rfl, hlater⟩ := exists_of_isMember hf hc h
    obtain ⟨next, last, rfl, rfl, hlast⟩ := exists_of_isMember hs hc hlater
    exact ⟨_, tokensOf last, .swap item next last, hlast.symm, rfl⟩
  | cons member members ih =>
    obtain ⟨hmember, hmembers⟩ := List.forall_mem_cons.1 hm
    rw [List.flatten_cons, List.append_assoc] at h
    obtain ⟨item, items, rfl, rfl, hrest⟩ := exists_of_isMember hmember hc h
    obtain ⟨others, tail, htrades, htail, hothers⟩ := ih hmembers hrest
    refine ⟨item :: others, tail, .later item htrades, htail, ?_⟩
    rw [tokensOf, hothers, List.flatten_cons, List.append_assoc]

/-- Members of a module that trade places do so inside of some items of the text, or the text goes
beyond its items first. -/
theorem exists_trades_or {before : List Token} {kind : ScopeKind} (hh : Token.Unbroken head)
    (ho : opening.kind = .openCurly) (hk : Token.blockKind (head ++ [opening]) = .module)
    (hm : ∀ member ∈ members, Token.IsMember member) (hf : Token.IsMember first)
    (hs : Token.IsMember second) (hb : Token.Ended before)
    (hmore : ∀ next ∈ more.head?, next.kind = .closeCurly)
    (h : tokensOf items ++ more =
      before ++ (head ++ opening :: (members.flatten ++ (first ++ (second ++ rest))))) :
    (∃ others tail, Trades kind items others ∧ rest = tail ++ more ∧ tokensOf others =
        before ++ (head ++ opening :: (members.flatten ++ (second ++ (first ++ tail))))) ∨
      ∃ later, Token.Ended later ∧ before = tokensOf items ++ later ∧
        more = later ++ (head ++ opening :: (members.flatten ++ (first ++ (second ++ rest)))) := by
  have hopening : opening.kind.isBreak := by simp [ho, Kind.isBreak]
  induction items using Item.induction generalizing before more rest kind with
  | nil => exact .inr ⟨before, hb, rfl, h⟩
  | line words stop whole stops items ih =>
    have hstop : stop.kind.isBreak := by simp [stops, Kind.isBreak]
    simp only [tokensOf, tokens, List.append_assoc, List.singleton_append] at h ⊢
    by_cases hn : before = []
    · subst hn
      obtain ⟨-, rfl, -⟩ := whole.append_cons_inj hh hstop hopening h
      rw [ho] at stops
      cases stops
    · obtain ⟨later, rfl, hrest, hlater⟩ := whole.exists_before hb hn h
      obtain ⟨others, tail, htrades, htail, hothers⟩ | ⟨last, hlast, rfl, hend⟩ :=
        ih hlater hmore hrest
      · refine .inl ⟨_, tail, .later (.line words stop whole stops) htrades, htail, ?_⟩
        simp [tokensOf, tokens, hothers]
      · exact .inr ⟨last, hlast, rfl, hend⟩
  | block head' opening' inner closing whole opens closes items ihi ih =>
    have hopening' : opening'.kind.isBreak := by simp [opens, Kind.isBreak]
    simp only [tokensOf_block, List.append_assoc, List.cons_append, List.nil_append] at h ⊢
    by_cases hn : before = []
    · subst hn
      obtain ⟨rfl, rfl, hbody⟩ := whole.append_cons_inj hh hopening' hopening h
      obtain ⟨others, tail, htrades, rfl, hothers⟩ := exists_trades_of_body hm hf hs closes hbody
      have hinside : Trades kind (.block head' opening' inner closing whole opens closes :: items)
          (.block head' opening' others closing whole opens closes :: items) :=
        .inside (by rwa [Token.openedKind, hk])
      refine .inl ⟨_, tail ++ closing :: tokensOf items, hinside, by simp, ?_⟩
      simp [tokensOf_block, hothers]
    · obtain ⟨later, rfl, hrest, hlater⟩ := whole.exists_before hb hn h
      obtain ⟨others, tail, htrades, htail, hothers⟩ | ⟨last, hlast, rfl, hend⟩ :=
        ihi hlater (by simp [closes]) hrest
      · have hinside : Trades kind (.block head' opening' inner closing whole opens closes :: items)
          (.block head' opening' others closing whole opens closes :: items) := .inside htrades
        refine .inl ⟨_, tail ++ closing :: tokensOf items, hinside, by simp [htail], ?_⟩
        simp [tokensOf_block, hothers]
      · cases last with
        | nil =>
          have hclosing : closing.kind.isBreak := by simp [closes, Kind.isBreak]
          obtain ⟨-, rfl, -⟩ := Token.unbroken_nil.append_cons_inj hh hclosing hopening hend
          rw [ho] at closes
          cases closes
        | cons brace last =>
          obtain ⟨rfl, hafter⟩ := List.cons.inj hend
          obtain ⟨others, tail, htrades, htail, hothers⟩ | ⟨beyond, hbeyond, rfl, hout⟩ :=
            ih (@Token.Ended.of_append _ _ [] hlast) hmore hafter
          · refine .inl ⟨_, tail, .later (.block head' opening' inner closing whole opens closes)
              htrades, htail, ?_⟩
            simp [tokensOf_block, hothers]
          · exact .inr ⟨beyond, hbeyond, by simp, hout⟩

/-- A text in which two members of a module have traded places is one in which two items have. -/
theorem exists_trades {text : List Token} (h : Token.Trades (tokensOf items) text) :
    ∃ others, text = tokensOf others ∧ Trades .program items others := by
  generalize hread : tokensOf items = read at h
  obtain ⟨hb, hh, ho, hk, hm, hf, hs⟩ := h
  obtain ⟨others, tail, htrades, rfl, hothers⟩ | ⟨later, -, -, hend⟩ :=
    exists_trades_or hh ho hk hm hf hs hb
      (by simp : ∀ next ∈ ([] : List Token).head?, next.kind = .closeCurly)
      ((List.append_nil _).trans hread)
  · refine ⟨others, ?_, htrades⟩
    rw [hothers, List.append_nil]
  · simp at hend

end Item

end MuLang
