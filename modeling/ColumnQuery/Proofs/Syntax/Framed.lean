/-
  Readers before a closing parenthesis.

  What is read off some tokens is read in the same way, at the same depth or a greater one, where a
  closing parenthesis follows the tokens, and the parenthesis is left (`readExpression_framed`). So
  an expression that stands by itself is read as the same in parentheses, whatever comes after
  them.

  Readers look ahead of what they take only to tell whether a parenthesis opens the parameters of a
  function, and to skip the head of a loop. Both go by the closing partner of a parenthesis, so the
  statement is proved together with another one: what is read has as many opening parentheses as
  closing ones, in places where they belong together (`Leaves`). All readers are taken together
  (`Frames`), by induction on the depth.
-/
import ColumnQuery.Proofs.Syntax.Reading
import ColumnQuery.Proofs.Syntax.Scanned

namespace ColumnQuery

namespace Node

variable {ts us vs more : List Token}

/-! ## Partners of parentheses -/

theorem afterClosing?_open (d : Nat) (ts : List Token) :
    afterClosing? d (.symbol "(" :: ts) = afterClosing? (d + 1) ts := by
  cases d <;> rfl

theorem afterClosing?_other {t : Token} (hopen : t ≠ .symbol "(") (hclose : t ≠ .symbol ")")
    (d : Nat) (ts : List Token) : afterClosing? d (t :: ts) = afterClosing? d ts := by
  cases t with
  | symbol s =>
    have hs : s ≠ "(" := fun h => hopen (h ▸ rfl)
    have hs' : s ≠ ")" := fun h => hclose (h ▸ rfl)
    cases d <;> simp only [afterClosing?, if_neg hs, if_neg hs']
  | identifier w => cases d <;> rfl
  | number x => cases d <;> rfl
  | string s => cases d <;> rfl

/-- The partner of a parenthesis is found where more tokens follow. -/
theorem afterClosing?_append {d : Nat} (h : afterClosing? d ts = some us) (vs : List Token) :
    afterClosing? d (ts ++ vs) = some (us ++ vs) := by
  induction ts generalizing d with
  | nil => cases d <;> cases h
  | cons t ts ih =>
    rw [List.cons_append]
    by_cases hopen : t = .symbol "("
    · subst hopen
      rw [afterClosing?_open] at h ⊢
      exact ih h
    by_cases hclose : t = .symbol ")"
    · subst hclose
      match d with
      | 0 => cases h
      | 1 =>
        obtain rfl := Option.some.inj h
        rfl
      | d + 2 => exact ih h
    · rw [afterClosing?_other hopen hclose] at h ⊢
      exact ih h

/-- With more groups open, the outer ones are closed after those that are closed here. -/
theorem afterClosing?_add {d : Nat} (h : afterClosing? d ts = some us) (e : Nat) :
    afterClosing? (e + d + 1) ts = afterClosing? (e + 1) us := by
  induction ts generalizing d with
  | nil => cases d <;> cases h
  | cons t ts ih =>
    by_cases hopen : t = .symbol "("
    · subst hopen
      rw [afterClosing?_open] at h ⊢
      exact ih h
    by_cases hclose : t = .symbol ")"
    · subst hclose
      match d with
      | 0 => cases h
      | 1 =>
        obtain rfl := Option.some.inj h
        rfl
      | d + 2 => exact ih h
    · rw [afterClosing?_other hopen hclose] at h ⊢
      exact ih h

/-! ## Tokens that are left -/

/-- Of the first tokens the second are left, after parts that balance their parentheses but for
    the given number of closing ones. -/
structure Leaves (closed : Nat) (ts us : List Token) : Prop where
  suffix : us <:+ ts
  closing : ∀ d, afterClosing? (d + closed + 1) ts = afterClosing? (d + 1) us

namespace Leaves

theorem refl (ts : List Token) : Leaves 0 ts ts := ⟨List.suffix_rfl, fun _ => rfl⟩

theorem trans {closed : Nat} (h : Leaves 0 ts us) (h' : Leaves closed us vs) :
    Leaves closed ts vs :=
  ⟨h'.suffix.trans h.suffix, fun d => (h.closing (d + closed)).trans (h'.closing d)⟩

/-- One token that is no parenthesis. -/
theorem token {t : Token} (hopen : t ≠ .symbol "(") (hclose : t ≠ .symbol ")") (ts : List Token) :
    Leaves 0 (t :: ts) ts :=
  ⟨List.suffix_cons t ts, fun d => afterClosing?_other hopen hclose (d + 1) ts⟩

/-- A closing parenthesis. -/
theorem close (ts : List Token) : Leaves 1 (.symbol ")" :: ts) ts :=
  ⟨List.suffix_cons _ ts, fun _ => rfl⟩

/-- A group that is opened and closed. -/
theorem group (h : Leaves 1 ts us) : Leaves 0 (.symbol "(" :: ts) us :=
  ⟨h.suffix.trans (List.suffix_cons _ ts), fun d => h.closing d⟩

end Leaves

/-- What the one reader reads, the other one reads before a closing parenthesis, and leaves it;
    what is read closes the given number of parentheses. -/
def Framed {α : Type} (more : List Token) (closed : Nat)
    (read read' : List Token → Except SyntaxError (Rest α)) : Prop :=
  ∀ ts, Stays (.symbol ")" :: more) (Leaves closed ts) (read ts) (read' (ts ++ .symbol ")" :: more))

/-- Whatever tokens the one reading leaves, the other leaves too, with more after them; and they
    have a property. -/
def Passes (more : List Token) (p : List Token → Prop) (r r' : Except SyntaxError (List Token)) :
    Prop :=
  ∀ us, r = .ok us → p us ∧ r' = .ok (us ++ more)

namespace Passes

variable {α : Type} {p q : List Token → Prop} {r r' : Except SyntaxError (List Token)}

theorem error (e : SyntaxError) : Passes more p (.error e) r' := nofun

theorem ok (h : p us) : Passes more p (.ok us) (.ok (us ++ more)) := by
  rintro _ ⟨⟩
  exact ⟨h, rfl⟩

theorem bind {f f' : List Token → Except SyntaxError (Rest α)} (h : Passes more p r r')
    (hf : ∀ us, p us → Stays more q (f us) (f' (us ++ more))) :
    Stays more q (r >>= f) (r' >>= f') := by
  intro x rest hx
  obtain ⟨us, hus, hx⟩ := bind_eq_ok hx
  obtain ⟨hp, hus'⟩ := h us hus
  rw [hus', ok_bind]
  exact hf us hp x rest hx

end Passes

/-! ## Looking at one token -/

section Looking

variable {β γ : Type}

/-- Takes the first token or nothing, and never a parenthesis. -/
structure TakesToken (look : List Token → Option γ) (make : β → List Token → γ) : Prop where
  nil : look [] = none
  opening : ∀ ts, look (.symbol "(" :: ts) = none
  closing : ∀ ts, look (.symbol ")" :: ts) = none
  cons : ∀ t, (∃ b, ∀ ts, look (t :: ts) = some (make b ts)) ∨ ∀ ts, look (t :: ts) = none

/-- Where a closing parenthesis follows, the same token is taken. -/
theorem TakesToken.cases {look : List Token → Option γ} {make : β → List Token → γ}
    (h : TakesToken look make) (more ts : List Token) :
    (∃ b us, Leaves 0 ts us ∧ look ts = some (make b us) ∧
      look (ts ++ .symbol ")" :: more) = some (make b (us ++ .symbol ")" :: more))) ∨
    look ts = none ∧ look (ts ++ .symbol ")" :: more) = none := by
  cases ts with
  | nil => exact .inr ⟨h.nil, h.closing more⟩
  | cons t ts =>
    rcases h.cons t with ⟨b, hsome⟩ | hnone
    · refine .inl ⟨b, ts, .token ?_ ?_ ts, hsome ts, hsome _⟩
      · rintro rfl
        cases (h.opening []).symm.trans (hsome [])
      · rintro rfl
        cases (h.closing []).symm.trans (hsome [])
    · exact .inr ⟨hnone ts, hnone _⟩

/-- For readers that take one token and do not say which. -/
theorem TakesToken.cases_unit {look : List Token → Option (List Token)}
    (h : TakesToken look fun (_ : Unit) us => us) (more ts : List Token) :
    (∃ us, Leaves 0 ts us ∧ look ts = some us ∧
      look (ts ++ .symbol ")" :: more) = some (us ++ .symbol ")" :: more)) ∨
    look ts = none ∧ look (ts ++ .symbol ")" :: more) = none :=
  (h.cases more ts).imp_left fun ⟨_, us, hus⟩ => ⟨us, hus⟩

end Looking

theorem takesToken_eat? {s : String} (hopen : s ≠ "(") (hclose : s ≠ ")") :
    TakesToken (eat? s) fun (_ : Unit) us => us where
  nil := rfl
  opening ts := if_neg hopen.symm
  closing ts := if_neg hclose.symm
  cons t := by
    cases t with
    | symbol w =>
      by_cases hw : w = s
      · exact .inl ⟨(), fun _ => if_pos hw⟩
      · exact .inr fun _ => if_neg hw
    | identifier w => exact .inr fun _ => rfl
    | number x => exact .inr fun _ => rfl
    | string w => exact .inr fun _ => rfl

theorem takesToken_eatWord? (w : String) : TakesToken (eatWord? w) fun (_ : Unit) us => us where
  nil := rfl
  opening ts := rfl
  closing ts := rfl
  cons t := by
    cases t with
    | identifier v =>
      by_cases hv : v = w
      · exact .inl ⟨(), fun _ => if_pos hv⟩
      · exact .inr fun _ => if_neg hv
    | symbol v => exact .inr fun _ => rfl
    | number x => exact .inr fun _ => rfl
    | string v => exact .inr fun _ => rfl

theorem takesToken_read? : TakesToken InfixOp.read? Prod.mk where
  nil := rfl
  opening ts := rfl
  closing ts := rfl
  cons t := by
    cases t with
    | symbol s =>
      cases hop : InfixOp.symbolic.find? (·.symbol == s) with
      | none => exact .inr fun ts => congrArg (Option.map (·, ts)) hop
      | some op => exact .inl ⟨op, fun ts => congrArg (Option.map (·, ts)) hop⟩
    | identifier w =>
      by_cases hw : w = "in"
      · exact .inl ⟨_, fun _ => if_pos hw⟩
      · exact .inr fun _ => if_neg hw
    | number x => exact .inr fun _ => rfl
    | string w => exact .inr fun _ => rfl

theorem takesToken_readUnary? : TakesToken readUnary? Prod.mk where
  nil := rfl
  opening ts := rfl
  closing ts := rfl
  cons t := by
    cases t with
    | symbol s =>
      cases hop : ([.negate, .plus, .not, .bitNot].find? (·.symbol == s) : Option UnaryOp) with
      | none => exact .inr fun ts => congrArg (Option.map (·, ts)) hop
      | some op => exact .inl ⟨op, fun ts => congrArg (Option.map (·, ts)) hop⟩
    | identifier w =>
      by_cases hw : w = "typeof"
      · exact .inl ⟨_, fun _ => if_pos hw⟩
      · exact .inr fun _ => if_neg hw
    | number x => exact .inr fun _ => rfl
    | string w => exact .inr fun _ => rfl

theorem takesToken_readStep? : TakesToken readStep? Prod.mk where
  nil := rfl
  opening ts := rfl
  closing ts := rfl
  cons t := by
    cases t with
    | symbol s =>
      by_cases hs : s = "++" ∨ s = "--"
      · exact .inl ⟨s, fun _ => if_pos hs⟩
      · exact .inr fun _ => if_neg hs
    | identifier w => exact .inr fun _ => rfl
    | number x => exact .inr fun _ => rfl
    | string w => exact .inr fun _ => rfl

theorem takesToken_readAssignmentOp? : TakesToken readAssignmentOp? Prod.mk where
  nil := rfl
  opening ts := rfl
  closing ts := rfl
  cons t := by
    cases t with
    | symbol s =>
      by_cases hs : assignmentOps.contains s = true
      · exact .inl ⟨s, fun _ => if_pos hs⟩
      · exact .inr fun _ => if_neg hs
    | identifier w => exact .inr fun _ => rfl
    | number x => exact .inr fun _ => rfl
    | string w => exact .inr fun _ => rfl

theorem takesToken_readDeclarationKind? : TakesToken readDeclarationKind? Prod.mk where
  nil := rfl
  opening ts := rfl
  closing ts := rfl
  cons t := by
    cases t with
    | identifier w =>
      cases hkind : ([.const, .let, .var].find? (·.word == w) : Option DeclarationKind) with
      | none => exact .inr fun ts => congrArg (Option.map (·, ts)) hkind
      | some kind => exact .inl ⟨kind, fun ts => congrArg (Option.map (·, ts)) hkind⟩
    | symbol s => exact .inr fun _ => rfl
    | number x => exact .inr fun _ => rfl
    | string w => exact .inr fun _ => rfl

theorem eat?_cases {s : String} (hopen : s ≠ "(") (hclose : s ≠ ")") (more ts : List Token) :
    (∃ us, Leaves 0 ts us ∧ eat? s ts = some us ∧
      eat? s (ts ++ .symbol ")" :: more) = some (us ++ .symbol ")" :: more)) ∨
    eat? s ts = none ∧ eat? s (ts ++ .symbol ")" :: more) = none :=
  (takesToken_eat? hopen hclose).cases_unit more ts

theorem eatWord?_cases (w : String) (more ts : List Token) :
    (∃ us, Leaves 0 ts us ∧ eatWord? w ts = some us ∧
      eatWord? w (ts ++ .symbol ")" :: more) = some (us ++ .symbol ")" :: more)) ∨
    eatWord? w ts = none ∧ eatWord? w (ts ++ .symbol ")" :: more) = none :=
  (takesToken_eatWord? w).cases_unit more ts

/-- A parenthesis that is asked for is there, if tokens are. -/
theorem eat?_parenthesis_cases (s : String) (more ts : List Token) (hts : ts ≠ [] ∨ s ≠ ")") :
    (∃ us, ts = .symbol s :: us) ∨
      eat? s ts = none ∧ eat? s (ts ++ .symbol ")" :: more) = none := by
  cases ts with
  | nil => exact .inr ⟨rfl, if_neg fun h => hts.elim (· rfl) (· h.symm)⟩
  | cons t ts =>
    cases t with
    | symbol w =>
      by_cases hw : w = s
      · exact .inl ⟨ts, by rw [hw]⟩
      · exact .inr ⟨if_neg hw, if_neg hw⟩
    | identifier w => exact .inr ⟨rfl, rfl⟩
    | number x => exact .inr ⟨rfl, rfl⟩
    | string w => exact .inr ⟨rfl, rfl⟩

theorem starts_before {s : String} (hopen : s ≠ "(") (hclose : s ≠ ")") (more ts : List Token) :
    starts s (ts ++ .symbol ")" :: more) = starts s ts := by
  unfold starts
  rcases eat?_cases hopen hclose more ts with ⟨us, -, h, h'⟩ | ⟨h, h'⟩
  · rw [h, h']
    rfl
  · rw [h, h']

theorem starts_append (s : String) (hts : ts ≠ []) (us : List Token) :
    starts s (ts ++ us) = starts s ts := by
  obtain ⟨t, ts, rfl⟩ := List.exists_cons_of_ne_nil hts
  unfold starts
  cases t with
  | symbol w =>
    rw [List.cons_append, eat?, eat?]
    split <;> rfl
  | _ => rfl

theorem eq_cons_of_expect {s : String} (h : expect s ts = .ok us) : ts = .symbol s :: us := by
  rcases ts with _ | ⟨w | x | w | w, ts⟩
  · cases h
  · cases h
  · cases h
  · cases h
  · by_cases hw : w = s
    · subst hw
      rw [expect_symbol] at h
      rw [Except.ok.inj h]
    · rw [expect, eat?_of_ne hw] at h
      cases h

/-- A symbol that has to be there, and that may be a parenthesis. -/
theorem expect_first (s : String) (more ts : List Token) :
    Passes more (fun us => ts = .symbol s :: us) (expect s ts) (expect s (ts ++ more)) := by
  intro us h
  obtain rfl := eq_cons_of_expect h
  exact ⟨rfl, expect_symbol s _⟩

theorem expect_passes {s : String} (hopen : s ≠ "(") (hclose : s ≠ ")") (more ts : List Token) :
    Passes more (Leaves 0 ts) (expect s ts) (expect s (ts ++ more)) := by
  intro us h
  obtain ⟨rfl, h⟩ := expect_first s more ts us h
  exact ⟨.token (by simpa using hopen) (by simpa using hclose) us, h⟩

theorem expectWord_passes (w : String) (more ts : List Token) :
    Passes (.symbol ")" :: more) (Leaves 0 ts) (expectWord w ts)
      (expectWord w (ts ++ .symbol ")" :: more)) := by
  unfold expectWord
  rcases eatWord?_cases w more ts with ⟨us, hus, h, h'⟩ | ⟨h, h'⟩
  · rw [h, h']
    exact .ok hus
  · rw [h]
    exact .error _

/-- Between the elements of a list the same is read. -/
theorem separator_passes (close : String) (more ts : List Token) :
    Passes more (Leaves 0 ts) (separator close ts) (separator close (ts ++ more)) := by
  cases ts with
  | nil => exact .error _
  | cons t ts =>
    unfold separator
    rw [starts_append close (List.cons_ne_nil t ts)]
    split
    next => exact .ok (.refl _)
    next => exact expect_passes (by decide) (by decide) more (t :: ts)

theorem skipGroup_passes (more ts : List Token) :
    Passes more (Leaves 0 ts) (skipGroup ts) (skipGroup (ts ++ more)) := by
  unfold skipGroup
  cases h : afterClosing? 0 ts with
  | none => exact .error _
  | some us =>
    rw [afterClosing?_append h]
    exact .ok ⟨suffix_of_afterClosing? h, afterClosing?_add h⟩

theorem skip_before {s : String} (hopen : s ≠ "(") (hclose : s ≠ ")") (more ts : List Token) :
    skip s (ts ++ .symbol ")" :: more) = skip s ts ++ .symbol ")" :: more ∧
      Leaves 0 ts (skip s ts) := by
  unfold skip
  rcases eat?_cases hopen hclose more ts with ⟨us, hus, h, h'⟩ | ⟨h, h'⟩
  · rw [h, h']
    exact ⟨rfl, hus⟩
  · rw [h, h']
    exact ⟨rfl, .refl ts⟩

/-- A semicolon after a statement may be missing. -/
theorem stays_skip {x : Node} (h : Leaves 0 ts us) : Stays (.symbol ")" :: more) (Leaves 0 ts)
    (.ok (x, skip ";" us)) (.ok (x, skip ";" (us ++ .symbol ")" :: more))) := by
  obtain ⟨hskip, hleaves⟩ := skip_before (s := ";") (by decide) (by decide) more us
  rw [hskip]
  exact .ok (h.trans hleaves)

theorem endsYield_before (more ts : List Token) :
    endsYield (ts ++ .symbol ")" :: more) = endsYield ts := by
  cases ts with
  | nil => rfl
  | cons t ts =>
    unfold endsYield
    simp only [starts_append _ (List.cons_ne_nil t ts)]
    rfl

theorem readName_framed (more : List Token) : Framed more 0 readName readName := by
  intro ts
  rcases ts with _ | ⟨w | x | w | s, ts⟩
  · exact .error _
  · exact .ok (.token Token.noConfusion Token.noConfusion ts)
  · exact .error _
  · exact .error _
  · exact .error _

theorem readKey_framed (more : List Token) : Framed more 0 readKey readKey := by
  intro ts
  rcases ts with _ | ⟨w | x | w | s, ts⟩
  · exact .error _
  · exact .ok (.token Token.noConfusion Token.noConfusion ts)
  · exact .ok (.token Token.noConfusion Token.noConfusion ts)
  · exact .ok (.token Token.noConfusion Token.noConfusion ts)
  · exact .error _

/-! ## Patterns -/

theorem readBindings_framed (more : List Token) {n k : Nat} (hk : n ≤ k) :
    Framed more 0 (readBindings n) (readBindings k) := by
  induction n generalizing k with
  | zero => exact fun _ => .error _
  | succ n ih =>
    obtain ⟨k, rfl⟩ : ∃ j, k = j + 1 := ⟨k - 1, by omega⟩
    have hmore : ∀ key name : String, Framed more 0
        (fun us => separator "\x7d" us >>= fun rest => readBindings n rest >>= fun bs =>
          .ok ((key, name) :: bs.1, bs.2))
        (fun us => separator "\x7d" us >>= fun rest => readBindings k rest >>= fun bs =>
          .ok ((key, name) :: bs.1, bs.2)) := by
      intro key name us
      exact (separator_passes "\x7d" _ us).bind fun vs hvs =>
        (ih (by omega) vs).bind fun bs ws hws => .ok (hvs.trans hws)
    -- a key is followed alike whether it is a name or a string
    have hname : ∀ (key : String) (us : List Token), Stays (.symbol ")" :: more) (Leaves 0 us)
        (readBindings (n + 1) (.identifier key :: us))
        (readBindings (k + 1) (.identifier key :: us ++ .symbol ")" :: more)) := by
      intro key us
      have hopen : ∀ vs, eat? "\x7d" (.identifier key :: vs) = none := fun _ => rfl
      rw [List.cons_append, readBindings, readBindings, hopen, hopen]
      simp only [ok_bind]
      rcases eat?_cases (s := ":") (by decide) (by decide) more us with ⟨vs, hvs, h, h'⟩ | ⟨h, h'⟩
      · rw [h, h']
        exact (readName_framed more vs).bind fun name ws hws =>
          (hmore key name ws).imp fun _ hxs => (hvs.trans hws).trans hxs
      · rw [h, h']
        exact hmore key key us
    have hstring : ∀ (depth : Nat) (key : String) (us : List Token),
        readBindings (depth + 1) (.string key :: us) =
          readBindings (depth + 1) (.identifier key :: us) := fun depth key us => by
      rw [readBindings, readBindings]
      rfl
    intro ts
    rcases ts with _ | ⟨w | x | w | s, ts⟩
    · exact .error _
    · exact (hname w ts).imp fun _ => (Leaves.token Token.noConfusion Token.noConfusion ts).trans
    · exact .error _
    · rw [List.cons_append, hstring, hstring]
      exact (hname w ts).imp fun _ => (Leaves.token Token.noConfusion Token.noConfusion ts).trans
    · rw [readBindings, readBindings]
      rcases eat?_cases (s := "\x7d") (by decide) (by decide) more (.symbol s :: ts) with
        ⟨us, hus, h, h'⟩ | ⟨h, h'⟩
      · rw [h, h']
        exact .ok hus
      · rw [h, h']
        exact .error _

theorem readPattern_framed (more : List Token) : Framed more 0 readPattern readPattern := by
  intro ts
  unfold readPattern
  rcases eat?_cases (s := "\x7b") (by decide) (by decide) more ts with ⟨us, hus, h, h'⟩ | ⟨h, h'⟩
  · rw [h, h']
    refine (readBindings_framed more ?_ us).map fun bs vs hvs => .ok (hus.trans hvs)
    rw [List.length_append]
    omega
  · rw [h, h']
    exact (readName_framed more ts).map fun name us hus => .ok hus

/-- The patterns of a group that is open. -/
theorem readPatterns_framed (more : List Token) {n k : Nat} (hk : n ≤ k) :
    Framed more 1 (readPatterns n) (readPatterns k) := by
  induction n generalizing k with
  | zero => exact fun _ => .error _
  | succ n ih =>
    obtain ⟨k, rfl⟩ : ∃ j, k = j + 1 := ⟨k - 1, by omega⟩
    intro ts
    rw [readPatterns, readPatterns]
    by_cases hts : ts = []
    · subst hts
      exact .error _
    rcases eat?_parenthesis_cases ")" more ts (.inl hts) with ⟨us, rfl⟩ | ⟨h, h'⟩
    · rw [List.cons_append, eat?_symbol, eat?_symbol]
      exact .ok (.close us)
    rw [h, h']
    exact (readPattern_framed more ts).bind fun pattern us hus =>
      (separator_passes ")" _ us).bind fun vs hvs =>
        (ih (by omega) vs).bind fun patterns ws hws => .ok ((hus.trans hvs).trans hws)

theorem readParams_framed (more : List Token) : Framed more 1 readParams readParams := by
  intro ts
  refine readPatterns_framed more ?_ ts
  rw [List.length_append]
  omega

/-! ## All readers -/

/-- What opens with a parenthesis is read only if the parenthesis has a partner. -/
def OpensGroup {α : Type} (read : List Token → Except SyntaxError α) : Prop :=
  ∀ ts x, read (.symbol "(" :: ts) = .ok x → ∃ us, afterClosing? 1 ts = some us

/-- The closing symbols of lists, with the number of parentheses that they close. -/
def ClosesWith (close : String) (closed : Nat) : Prop :=
  close = "]" ∧ closed = 0 ∨ close = ")" ∧ closed = 1

/-- The readers at one depth, and at another one where a closing parenthesis follows. -/
structure Frames (more : List Token) (n k : Nat) : Prop where
  expression : Framed more 0 (readExpression n) (readExpression k)
  arrow : Framed more 0 (readArrow n) (readArrow k)
  conditional : Framed more 0 (readConditional n) (readConditional k)
  chain : ∀ least, Framed more 0 (readInfix n least) (readInfix k least)
  chainAfter : ∀ least left,
    Framed more 0 (readInfixAfter n least left) (readInfixAfter k least left)
  leading : Framed more 0 (readLeading n) (readLeading k)
  access : Framed more 0 (readAccess n) (readAccess k)
  accessAfter : ∀ head, Framed more 0 (readAccessAfter n head) (readAccessAfter k head)
  list : ∀ close closed, ClosesWith close closed →
    Framed more closed (readList n close) (readList k close)
  primary : Framed more 0 (readPrimary n) (readPrimary k)
  properties : Framed more 0 (readProperties n) (readProperties k)
  function : Framed more 0 (readFunction n) (readFunction k)
  block : Framed more 0 (readBlock n) (readBlock k)
  statements : Framed more 0 (readStatements n) (readStatements k)
  statement : Framed more 0 (readStatement n) (readStatement k)
  declarations : Framed more 0 (readDeclarations n) (readDeclarations k)
  opensConditional : OpensGroup (readConditional n)
  opensChain : ∀ least, OpensGroup (readInfix n least)
  opensLeading : OpensGroup (readLeading n)
  opensAccess : OpensGroup (readAccess n)
  opensPrimary : OpensGroup (readPrimary n)

/-- Nothing is no expression. -/
theorem readExpression_nil (n : Nat) : ∃ e, readExpression n [] = .error e := by
  match n with
  | 0 | 1 | 2 | 3 | 4 | 5 => exact ⟨_, rfl⟩
  | n + 6 => exact ⟨_, rfl⟩

/-- The same is taken for the start of a function. -/
theorem atArrow_before (more ts : List Token)
    (hgroup : ∀ us, ts = .symbol "(" :: us → atArrow ts = false →
      ∃ vs, afterClosing? 1 us = some vs) :
    atArrow (ts ++ .symbol ")" :: more) = atArrow ts := by
  rcases ts with _ | ⟨w | x | w | s, us⟩
  · rfl
  · exact starts_before (by decide) (by decide) more us
  · rfl
  · rfl
  · by_cases hs : s = "("
    · subst hs
      have hpartner : ∃ vs, afterClosing? 1 us = some vs := by
        cases hvs : afterClosing? 1 us with
        | some vs => exact ⟨vs, rfl⟩
        | none =>
          obtain ⟨vs, h⟩ := hgroup us rfl (by simp [atArrow, hvs])
          cases hvs.symm.trans h
      obtain ⟨vs, hvs⟩ := hpartner
      have hstarts := starts_before (s := "=>") (by decide) (by decide) more vs
      simp only [List.cons_append, atArrow, afterClosing?_append hvs, hvs, Option.any_some, hstarts]
    · simp [atArrow, hs]

namespace Frames

variable {n k : Nat}

/-! ### Expressions -/

theorem expression_step (h : Frames more n k) :
    Framed more 0 (readExpression (n + 1)) (readExpression (k + 1)) := by
  intro ts x us hread
  have harrow : atArrow (ts ++ .symbol ")" :: more) = atArrow ts := by
    refine atArrow_before more ts ?_
    rintro vs rfl hno
    rw [readExpression, hno] at hread
    obtain ⟨⟨target, rest⟩, htarget, -⟩ := bind_eq_ok hread
    exact h.opensConditional vs _ htarget
  revert x us
  show Stays (.symbol ")" :: more) _ _ _
  rw [readExpression, readExpression, harrow]
  split
  next => exact h.arrow ts
  rcases eatWord?_cases "yield" more ts with ⟨us, hus, h₁, h₂⟩ | ⟨h₁, h₂⟩
  · rw [h₁, h₂]
    dsimp only
    rw [endsYield_before]
    split
    next => exact .ok hus
    next => exact (h.expression us).map fun a vs hvs => .ok (hus.trans hvs)
  rw [h₁, h₂]
  refine (h.conditional ts).bind fun target us hus => ?_
  dsimp only
  rcases takesToken_readAssignmentOp?.cases more us with ⟨op, vs, hvs, h₁, h₂⟩ | ⟨h₁, h₂⟩
  · rw [h₁, h₂]
    exact (h.expression vs).bind fun value ws hws => .ok ((hus.trans hvs).trans hws)
  · rw [h₁, h₂]
    exact .ok hus

theorem arrow_step (h : Frames more n k) :
    Framed more 0 (readArrow (n + 1)) (readArrow (k + 1)) := by
  intro ts
  have hbody : ∀ params : List Pattern, Framed more 0
      (fun us => expect "=>" us >>= fun rest =>
        if starts "\x7b" rest then readBlock n rest >>= fun r => .ok (Node.arrow params r.1, r.2)
        else readExpression n rest >>= fun r => .ok (Node.arrow params r.1, r.2))
      (fun us => expect "=>" us >>= fun rest =>
        if starts "\x7b" rest then readBlock k rest >>= fun r => .ok (Node.arrow params r.1, r.2)
        else readExpression k rest >>= fun r => .ok (Node.arrow params r.1, r.2)) := by
    intro params us
    refine (expect_passes (by decide) (by decide) _ us).bind fun vs hvs => ?_
    rw [starts_before (by decide) (by decide)]
    split
    next => exact (h.block vs).bind fun body ws hws => .ok (hvs.trans hws)
    next => exact (h.expression vs).bind fun body ws hws => .ok (hvs.trans hws)
  rw [readArrow, readArrow]
  rcases eat?_parenthesis_cases "(" more ts (.inr (by decide)) with ⟨us, rfl⟩ | ⟨h₁, h₂⟩
  · rw [List.cons_append, eat?_symbol, eat?_symbol]
    exact (readParams_framed more us).bind fun params vs hvs =>
      (hbody params vs).imp fun _ => hvs.group.trans
  · rw [h₁, h₂]
    exact Stays.bind (p := Leaves 0 ts)
      ((readName_framed more ts).map fun name us hus => .ok hus) fun params us hus =>
        (hbody params us).imp fun _ => hus.trans

theorem conditional_step (h : Frames more n k) :
    Framed more 0 (readConditional (n + 1)) (readConditional (k + 1)) := by
  intro ts
  rw [readConditional, readConditional]
  refine (h.chain 0 ts).bind fun test us hus => ?_
  dsimp only
  rcases eat?_cases (s := "?") (by decide) (by decide) more us with ⟨vs, hvs, h₁, h₂⟩ | ⟨h₁, h₂⟩
  · rw [h₁, h₂]
    exact (h.expression vs).bind fun consequent ws hws =>
      (expect_passes (by decide) (by decide) _ ws).bind fun xs hxs =>
        (h.expression xs).bind fun alternate ys hys =>
          .ok ((((hus.trans hvs).trans hws).trans hxs).trans hys)
  · rw [h₁, h₂]
    exact .ok hus

theorem chain_step (h : Frames more n k) (least : Nat) :
    Framed more 0 (readInfix (n + 1) least) (readInfix (k + 1) least) := by
  intro ts
  rw [readInfix, readInfix]
  exact (h.leading ts).bind fun left us hus =>
    (h.chainAfter least left us).imp fun _ hvs => hus.trans hvs

theorem chainAfter_step (h : Frames more n k) (least : Nat) (left : Node) :
    Framed more 0 (readInfixAfter (n + 1) least left) (readInfixAfter (k + 1) least left) := by
  intro ts
  rw [readInfixAfter, readInfixAfter]
  rcases takesToken_read?.cases more ts with ⟨op, us, hus, h₁, h₂⟩ | ⟨h₁, h₂⟩
  · rw [h₁, h₂]
    dsimp only
    split
    next => exact .ok (.refl ts)
    next =>
      exact (h.chain _ us).bind fun right vs hvs =>
        (h.chainAfter least _ vs).imp fun _ hws => (hus.trans hvs).trans hws
  · rw [h₁, h₂]
    exact .ok (.refl ts)

theorem leading_step (h : Frames more n k) :
    Framed more 0 (readLeading (n + 1)) (readLeading (k + 1)) := by
  intro ts
  rw [readLeading, readLeading]
  rcases takesToken_readUnary?.cases more ts with ⟨op, us, hus, h₁, h₂⟩ | ⟨h₁, h₂⟩
  · rw [h₁, h₂]
    exact (h.leading us).map fun a vs hvs => .ok (hus.trans hvs)
  rw [h₁, h₂]
  dsimp only
  rcases takesToken_readStep?.cases more ts with ⟨op, us, hus, h₁, h₂⟩ | ⟨h₁, h₂⟩
  · rw [h₁, h₂]
    exact (h.leading us).map fun a vs hvs => .ok (hus.trans hvs)
  rw [h₁, h₂]
  dsimp only
  rcases eatWord?_cases "await" more ts with ⟨us, hus, h₁, h₂⟩ | ⟨h₁, h₂⟩
  · rw [h₁, h₂]
    exact (h.leading us).map fun a vs hvs => .ok (hus.trans hvs)
  rw [h₁, h₂]
  refine (h.access ts).bind fun a us hus => ?_
  dsimp only
  rcases takesToken_readStep?.cases more us with ⟨op, vs, hvs, h₁, h₂⟩ | ⟨h₁, h₂⟩
  · rw [h₁, h₂]
    exact .ok (hus.trans hvs)
  · rw [h₁, h₂]
    exact .ok hus

theorem access_step (h : Frames more n k) :
    Framed more 0 (readAccess (n + 1)) (readAccess (k + 1)) := by
  intro ts
  rw [readAccess, readAccess]
  exact (h.primary ts).bind fun head us hus =>
    (h.accessAfter head us).imp fun _ hvs => hus.trans hvs

theorem accessAfter_step (h : Frames more n k) (head : Node) :
    Framed more 0 (readAccessAfter (n + 1) head) (readAccessAfter (k + 1) head) := by
  intro ts
  rw [readAccessAfter, readAccessAfter]
  rcases eat?_cases (s := ".") (by decide) (by decide) more ts with ⟨us, hus, h₁, h₂⟩ | ⟨h₁, h₂⟩
  · rw [h₁, h₂]
    exact (readName_framed more us).bind fun name vs hvs =>
      (h.accessAfter _ vs).imp fun _ hws => (hus.trans hvs).trans hws
  rw [h₁, h₂]
  dsimp only
  rcases eat?_cases (s := "[") (by decide) (by decide) more ts with ⟨us, hus, h₁, h₂⟩ | ⟨h₁, h₂⟩
  · rw [h₁, h₂]
    exact (h.expression us).bind fun property vs hvs =>
      (expect_passes (by decide) (by decide) _ vs).bind fun ws hws =>
        (h.accessAfter _ ws).imp fun _ hxs => ((hus.trans hvs).trans hws).trans hxs
  rw [h₁, h₂]
  dsimp only
  rcases eat?_parenthesis_cases "(" more ts (.inr (by decide)) with ⟨us, rfl⟩ | ⟨h₁, h₂⟩
  · rw [List.cons_append, eat?_symbol, eat?_symbol]
    exact (h.list ")" 1 (.inr ⟨rfl, rfl⟩) us).bind fun arguments vs hvs =>
      (h.accessAfter _ vs).imp fun _ hws => hvs.group.trans hws
  · rw [h₁, h₂]
    exact .ok (.refl ts)

theorem list_step (h : Frames more n k) (close : String) (closed : Nat)
    (hclose : ClosesWith close closed) :
    Framed more closed (readList (n + 1) close) (readList (k + 1) close) := by
  intro ts
  rw [readList, readList]
  by_cases hts : ts = []
  · subst hts
    obtain ⟨e, he⟩ := readExpression_nil n
    show Stays (.symbol ")" :: more) _ (readExpression n [] >>= _) _
    rw [he]
    exact .error e
  rcases eat?_parenthesis_cases close more ts (.inl hts) with ⟨us, rfl⟩ | ⟨h₁, h₂⟩
  · rw [List.cons_append, eat?_symbol, eat?_symbol]
    rcases hclose with ⟨rfl, rfl⟩ | ⟨rfl, rfl⟩
    · exact .ok (.token (by simp) (by simp) us)
    · exact .ok (.close us)
  rw [h₁, h₂]
  exact (h.expression ts).bind fun a us hus =>
    (separator_passes close _ us).bind fun vs hvs =>
      (h.list close closed hclose vs).bind fun as ws hws => .ok ((hus.trans hvs).trans hws)

theorem primary_step (h : Frames more n k) :
    Framed more 0 (readPrimary (n + 1)) (readPrimary (k + 1)) := by
  intro ts
  rcases ts with _ | ⟨w | x | w | s, ts⟩
  · exact .error _
  · have hword : Leaves 0 (.identifier w :: ts) ts := .token Token.noConfusion Token.noConfusion ts
    rw [List.cons_append, readPrimary, readPrimary]
    split
    next => exact h.function (.identifier w :: ts)
    split
    next => exact .ok hword
    split
    next => exact .ok hword
    split
    next => exact .ok hword
    next => exact .ok hword
  · exact .ok (.token Token.noConfusion Token.noConfusion ts)
  · exact .ok (.token Token.noConfusion Token.noConfusion ts)
  · rw [List.cons_append, readPrimary, readPrimary]
    by_cases hgroup : s = "("
    · subst hgroup
      rw [if_pos rfl, if_pos rfl]
      refine (h.expression ts).bind fun a us hus => (expect_first ")" _ us).bind ?_
      rintro vs rfl
      exact .ok (hus.trans (.close vs)).group
    rw [if_neg hgroup, if_neg hgroup]
    by_cases hlist : s = "["
    · subst hlist
      rw [if_pos rfl, if_pos rfl]
      exact (h.list "]" 0 (.inl ⟨rfl, rfl⟩) ts).map fun as us hus =>
        .ok ((Leaves.token (by simp) (by simp) ts).trans hus)
    rw [if_neg hlist, if_neg hlist]
    by_cases hobject : s = "\x7b"
    · subst hobject
      rw [if_pos rfl, if_pos rfl]
      exact (h.properties ts).map fun ps us hus =>
        .ok ((Leaves.token (by simp) (by simp) ts).trans hus)
    · rw [if_neg hobject]
      exact .error _

theorem properties_step (h : Frames more n k) :
    Framed more 0 (readProperties (n + 1)) (readProperties (k + 1)) := by
  intro ts
  have hmore : ∀ (key : String) (value : Node), Framed more 0
      (fun us => separator "\x7d" us >>= fun rest => readProperties n rest >>= fun ps =>
        .ok ((key, value) :: ps.1, ps.2))
      (fun us => separator "\x7d" us >>= fun rest => readProperties k rest >>= fun ps =>
        .ok ((key, value) :: ps.1, ps.2)) := by
    intro key value us
    exact (separator_passes "\x7d" _ us).bind fun vs hvs =>
      (h.properties vs).bind fun ps ws hws => .ok (hvs.trans hws)
  rw [readProperties, readProperties]
  rcases eat?_cases (s := "\x7d") (by decide) (by decide) more ts with ⟨us, hus, h₁, h₂⟩ | ⟨h₁, h₂⟩
  · rw [h₁, h₂]
    exact .ok hus
  rw [h₁, h₂]
  refine (readKey_framed more ts).bind fun key us hus => ?_
  obtain ⟨key, isNamed⟩ := key
  dsimp only
  rcases eat?_cases (s := ":") (by decide) (by decide) more us with ⟨vs, hvs, h₁, h₂⟩ | ⟨h₁, h₂⟩
  · rw [h₁, h₂]
    exact (h.expression vs).bind fun value ws hws =>
      (hmore key value ws).imp fun _ => ((hus.trans hvs).trans hws).trans
  · rw [h₁, h₂]
    cases isNamed with
    | true => exact (hmore key (.identifier key) us).imp fun _ => hus.trans
    | false => exact .error _

/-! ### Functions and statements -/

theorem function_step (h : Frames more n k) :
    Framed more 0 (readFunction (n + 1)) (readFunction (k + 1)) := by
  intro ts
  have hbody : ∀ name : Option String, Framed more 0
      (fun us => expect "(" us >>= fun rest => readParams rest >>= fun params =>
        readBlock n params.2 >>= fun body => .ok (Node.function name params.1 body.1, body.2))
      (fun us => expect "(" us >>= fun rest => readParams rest >>= fun params =>
        readBlock k params.2 >>= fun body => .ok (Node.function name params.1 body.1, body.2)) := by
    intro name us
    refine (expect_first "(" _ us).bind ?_
    rintro vs rfl
    exact (readParams_framed more vs).bind fun params ws hws =>
      (h.block ws).bind fun body xs hxs => .ok (hws.group.trans hxs)
  rw [readFunction, readFunction]
  refine (expectWord_passes "function" more ts).bind fun us hus => ?_
  rcases us with _ | ⟨w | x | w | s, us⟩
  · exact (hbody none []).imp fun _ => hus.trans
  · exact (hbody (some w) us).imp fun _ =>
      (hus.trans (.token Token.noConfusion Token.noConfusion us)).trans
  · exact (hbody none _).imp fun _ => hus.trans
  · exact (hbody none _).imp fun _ => hus.trans
  · exact (hbody none _).imp fun _ => hus.trans

theorem block_step (h : Frames more n k) :
    Framed more 0 (readBlock (n + 1)) (readBlock (k + 1)) := by
  intro ts
  rw [readBlock, readBlock]
  exact (expect_passes (by decide) (by decide) _ ts).bind fun us hus =>
    (h.statements us).bind fun body vs hvs => .ok (hus.trans hvs)

theorem statements_step (h : Frames more n k) :
    Framed more 0 (readStatements (n + 1)) (readStatements (k + 1)) := by
  intro ts
  rw [readStatements, readStatements]
  rcases eat?_cases (s := "\x7d") (by decide) (by decide) more ts with ⟨us, hus, h₁, h₂⟩ | ⟨h₁, h₂⟩
  · rw [h₁, h₂]
    exact .ok hus
  rw [h₁, h₂]
  dsimp only
  rcases eat?_cases (s := ";") (by decide) (by decide) more ts with ⟨us, hus, h₁, h₂⟩ | ⟨h₁, h₂⟩
  · rw [h₁, h₂]
    exact (h.statements us).imp fun _ hvs => hus.trans hvs
  rw [h₁, h₂]
  dsimp only
  rcases ts with _ | ⟨t, ts⟩
  · exact .error _
  · exact (h.statement (t :: ts)).bind fun s us hus =>
      (h.statements us).bind fun ss vs hvs => .ok (hus.trans hvs)

theorem statement_step (h : Frames more n k) :
    Framed more 0 (readStatement (n + 1)) (readStatement (k + 1)) := by
  intro ts
  rw [readStatement, readStatement, starts_before (by decide) (by decide)]
  split
  next => exact h.block ts
  rcases takesToken_readDeclarationKind?.cases more ts with ⟨kind, us, hus, h₁, h₂⟩ | ⟨h₁, h₂⟩
  · rw [h₁, h₂]
    exact (h.declarations us).bind fun ds vs hvs => stays_skip (hus.trans hvs)
  rw [h₁, h₂]
  dsimp only
  rcases eatWord?_cases "return" more ts with ⟨us, hus, h₁, h₂⟩ | ⟨h₁, h₂⟩
  · rw [h₁, h₂]
    dsimp only
    rw [starts_before (by decide) (by decide), starts_before (by decide) (by decide)]
    split
    next => exact stays_skip hus
    next => exact (h.expression us).bind fun a vs hvs => stays_skip (hus.trans hvs)
  rw [h₁, h₂]
  dsimp only
  rcases eatWord?_cases "if" more ts with ⟨us, hus, h₁, h₂⟩ | ⟨h₁, h₂⟩
  · rw [h₁, h₂]
    refine (expect_first "(" _ us).bind ?_
    rintro vs rfl
    refine (h.expression vs).bind fun test ws hws => (expect_first ")" _ ws).bind ?_
    rintro xs rfl
    have hhead : Leaves 0 ts xs := hus.trans (hws.trans (.close xs)).group
    refine (h.statement xs).bind fun consequent ys hys => ?_
    dsimp only
    obtain ⟨hskip, hleaves⟩ := skip_before (s := ";") (by decide) (by decide) more ys
    rw [hskip]
    rcases eatWord?_cases "else" more (skip ";" ys) with ⟨zs, hzs, h₁, h₂⟩ | ⟨h₁, h₂⟩
    · rw [h₁, h₂]
      exact (h.statement zs).bind fun alternate us' hus' =>
        .ok ((((hhead.trans hys).trans hleaves).trans hzs).trans hus')
    · rw [h₁, h₂]
      exact .ok ((hhead.trans hys).trans hleaves)
  rw [h₁, h₂]
  dsimp only
  rcases eatWord?_cases "for" more ts with ⟨us, hus, h₁, h₂⟩ | ⟨h₁, h₂⟩
  · rw [h₁, h₂]
    exact (skipGroup_passes _ us).bind fun vs hvs =>
      (h.statement vs).bind fun body ws hws => .ok ((hus.trans hvs).trans hws)
  rw [h₁, h₂]
  dsimp only
  rcases eatWord?_cases "while" more ts with ⟨us, hus, h₁, h₂⟩ | ⟨h₁, h₂⟩
  · rw [h₁, h₂]
    exact (skipGroup_passes _ us).bind fun vs hvs =>
      (h.statement vs).bind fun body ws hws => .ok ((hus.trans hvs).trans hws)
  rw [h₁, h₂]
  dsimp only
  rcases eatWord?_cases "do" more ts with ⟨us, hus, h₁, h₂⟩ | ⟨h₁, h₂⟩
  · rw [h₁, h₂]
    exact (h.statement us).bind fun body vs hvs =>
      (expectWord_passes "while" more vs).bind fun ws hws =>
        (skipGroup_passes _ ws).bind fun xs hxs =>
          stays_skip (((hus.trans hvs).trans hws).trans hxs)
  rw [h₁, h₂]
  dsimp only
  rcases eatWord?_cases "function" more ts with ⟨us, -, h₁, h₂⟩ | ⟨h₁, h₂⟩
  · rw [h₁, h₂]
    exact h.function ts
  rw [h₁, h₂]
  exact (h.expression ts).bind fun a us hus => stays_skip hus

theorem declarations_step (h : Frames more n k) :
    Framed more 0 (readDeclarations (n + 1)) (readDeclarations (k + 1)) := by
  intro ts
  rw [readDeclarations, readDeclarations]
  refine (readPattern_framed more ts).bind fun pattern us hus => ?_
  dsimp only
  rcases eat?_cases (s := "=") (by decide) (by decide) more us with ⟨vs, hvs, h₁, h₂⟩ | ⟨h₁, h₂⟩
  · rw [h₁, h₂]
    refine Stays.bind (p := Leaves 0 ts)
      ((h.expression vs).map fun a ws hws => .ok ((hus.trans hvs).trans hws)) fun init ws hws => ?_
    dsimp only
    rcases eat?_cases (s := ",") (by decide) (by decide) more ws with ⟨xs, hxs, h₁, h₂⟩ | ⟨h₁, h₂⟩
    · rw [h₁, h₂]
      exact (h.declarations xs).bind fun ds ys hys => .ok ((hws.trans hxs).trans hys)
    · rw [h₁, h₂]
      exact .ok hws
  · rw [h₁, h₂]
    simp only [ok_bind]
    rcases eat?_cases (s := ",") (by decide) (by decide) more us with ⟨vs, hvs, h₁, h₂⟩ | ⟨h₁, h₂⟩
    · rw [h₁, h₂]
      exact (h.declarations vs).bind fun ds ws hws => .ok ((hus.trans hvs).trans hws)
    · rw [h₁, h₂]
      exact .ok hus

/-! ### What opens a group -/

theorem primary_opens (h : Frames more n k) : OpensGroup (readPrimary (n + 1)) := by
  intro ts x hread
  rw [readPrimary, if_pos rfl] at hread
  obtain ⟨⟨a, us⟩, ha, hread⟩ := bind_eq_ok hread
  obtain ⟨vs, hclose, -⟩ := bind_eq_ok hread
  obtain rfl := eq_cons_of_expect hclose
  exact ⟨vs, (h.expression ts a _ ha).1.closing 0⟩

theorem access_opens (h : Frames more n k) : OpensGroup (readAccess (n + 1)) := by
  intro ts x hread
  rw [readAccess] at hread
  obtain ⟨head, hhead, -⟩ := bind_eq_ok hread
  exact h.opensPrimary ts head hhead

theorem leading_opens (h : Frames more n k) : OpensGroup (readLeading (n + 1)) := by
  intro ts x hread
  rw [readLeading, takesToken_readUnary?.opening, takesToken_readStep?.opening,
    (takesToken_eatWord? "await").opening] at hread
  obtain ⟨operand, hoperand, -⟩ := bind_eq_ok hread
  exact h.opensAccess ts operand hoperand

theorem chain_opens (h : Frames more n k) (least : Nat) : OpensGroup (readInfix (n + 1) least) := by
  intro ts x hread
  rw [readInfix] at hread
  obtain ⟨left, hleft, -⟩ := bind_eq_ok hread
  exact h.opensLeading ts left hleft

theorem conditional_opens (h : Frames more n k) : OpensGroup (readConditional (n + 1)) := by
  intro ts x hread
  rw [readConditional] at hread
  obtain ⟨test, htest, -⟩ := bind_eq_ok hread
  exact h.opensChain 0 ts test htest

/-! ### All depths -/

theorem zero (more : List Token) (k : Nat) : Frames more 0 k where
  expression _ := .error _
  arrow _ := .error _
  conditional _ := .error _
  chain _ _ := .error _
  chainAfter _ _ _ := .error _
  leading _ := .error _
  access _ := .error _
  accessAfter _ _ := .error _
  list _ _ _ _ := .error _
  primary _ := .error _
  properties _ := .error _
  function _ := .error _
  block _ := .error _
  statements _ := .error _
  statement _ := .error _
  declarations _ := .error _
  opensConditional := nofun
  opensChain _ := nofun
  opensLeading := nofun
  opensAccess := nofun
  opensPrimary := nofun

theorem succ (h : Frames more n k) : Frames more (n + 1) (k + 1) where
  expression := h.expression_step
  arrow := h.arrow_step
  conditional := h.conditional_step
  chain := h.chain_step
  chainAfter := h.chainAfter_step
  leading := h.leading_step
  access := h.access_step
  accessAfter := h.accessAfter_step
  list := h.list_step
  primary := h.primary_step
  properties := h.properties_step
  function := h.function_step
  block := h.block_step
  statements := h.statements_step
  statement := h.statement_step
  declarations := h.declarations_step
  opensConditional := h.conditional_opens
  opensChain := h.chain_opens
  opensLeading := h.leading_opens
  opensAccess := h.access_opens
  opensPrimary := h.primary_opens

end Frames

theorem frames (more : List Token) {n k : Nat} (hk : n ≤ k) : Frames more n k := by
  induction n generalizing k with
  | zero => exact .zero more k
  | succ n ih =>
    obtain ⟨k, rfl⟩ : ∃ j, k = j + 1 := ⟨k - 1, by omega⟩
    exact (ih (by omega)).succ

/-! ## Expressions in parentheses -/

variable {n k : Nat} {a : Node}

theorem leaves_of_readExpression (h : readExpression n ts = .ok (a, us)) : Leaves 0 ts us :=
  ((frames [] (Nat.le_refl n)).expression ts a us h).1

/-- What is read as an expression is read as the same before a closing parenthesis. -/
theorem readExpression_framed (h : readExpression n ts = .ok (a, us)) (hk : n ≤ k)
    (more : List Token) :
    readExpression k (ts ++ .symbol ")" :: more) = .ok (a, us ++ .symbol ")" :: more) :=
  ((frames more hk).expression ts a us h).2

/-- The parenthesis after an expression is the partner of the one before it. -/
theorem afterClosing?_expression (h : readExpression n ts = .ok (a, [])) (more : List Token) :
    afterClosing? 1 (ts ++ .symbol ")" :: more) = some more :=
  (leaves_of_readExpression (readExpression_framed h (Nat.le_refl n) more)).closing 0

end Node

end ColumnQuery
