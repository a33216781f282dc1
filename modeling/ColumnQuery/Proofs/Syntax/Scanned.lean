/-
  Texts that tokens fill.

  `Lexes cs ts` says that the characters are read as the tokens, one after the other, and that
  nothing stands after the last one, neither white space nor a comment. Such a text is scanned as
  its tokens before a blank, too (`Lexes.scans`): no name, number or symbol goes on over a blank,
  and a string ends with its quote.
-/
import ColumnQuery.Proofs.Syntax.Lexemes

namespace ColumnQuery

/-! ## Readings that stay -/

section Staying

variable {α β τ : Type}

/-- Whatever the one reading gives, the other gives too, with more after what is left; and what is
    left has a property. -/
def Stays (more : List τ) (p : List τ → Prop) (r r' : Except SyntaxError (α × List τ)) : Prop :=
  ∀ x rest, r = .ok (x, rest) → p rest ∧ r' = .ok (x, rest ++ more)

variable {more rest : List τ} {p q : List τ → Prop} {r r' : Except SyntaxError (α × List τ)}

namespace Stays

theorem error (e : SyntaxError) :
    Stays more p (.error e : Except SyntaxError (α × List τ)) r' := nofun

theorem ok {x : α} (h : p rest) : Stays more p (.ok (x, rest)) (.ok (x, rest ++ more)) := by
  rintro _ _ ⟨⟩
  exact ⟨h, rfl⟩

theorem imp (h : Stays more p r r') (hpq : ∀ rest, p rest → q rest) : Stays more q r r' :=
  fun x rest hr => (h x rest hr).imp_left (hpq rest)

theorem bind {f f' : α × List τ → Except SyntaxError (β × List τ)} (h : Stays more p r r')
    (hf : ∀ x rest, p rest → Stays more q (f (x, rest)) (f' (x, rest ++ more))) :
    Stays more q (r >>= f) (r' >>= f') := by
  intro y later hy
  obtain ⟨⟨x, rest⟩, hx, hy⟩ := bind_eq_ok hy
  obtain ⟨hp, hx'⟩ := h x rest hx
  rw [hx', ok_bind]
  exact hf x rest hp y later hy

theorem map {f f' : α × List τ → β × List τ} (h : Stays more p r r')
    (hf : ∀ x rest, p rest → Stays more q (.ok (f (x, rest))) (.ok (f' (x, rest ++ more)))) :
    Stays more q (r.map f) (r'.map f') := by
  intro y later hy
  cases r with
  | error e => cases hy
  | ok x =>
    obtain ⟨hp, hx'⟩ := h x.1 x.2 rfl
    rw [hx']
    exact hf x.1 x.2 hp y later hy

end Stays

end Staying

namespace Token

variable {p : Char → Bool} {c : Char} {cs ds rest more : List Char} {t : Token} {ts : List Token}

/-- The characters are the tokens, with white space and comments before them but not after the
    last one. -/
inductive Lexes : List Char → List Token → Prop where
  | nil : Lexes [] []
  | cons {cs ds rest : List Char} {c : Char} {t : Token} {ts : List Token}
    (hskip : skipTrivia cs = .ok (c :: ds)) (hread : readToken c ds = .ok (t, rest))
    (h : Lexes rest ts) : Lexes cs (t :: ts)

example : Lexes "(a /* b */ )".toList [.symbol "(", .identifier "a", .symbol ")"] :=
  .cons (by rfl) (by rfl) (.cons (by rfl) (by rfl) (.cons (by rfl) (by rfl) .nil))

/-- Names are texts of one token. -/
theorem Lexes.name {w : String} (h : isName w = true) : Lexes w.toList [.identifier w] := by
  obtain ⟨c, cs, hword, hc, hcs⟩ := isName_cases h
  have hread : readToken c cs = .ok (.identifier w, []) := by
    have hread := readToken_name hc hcs .nil
    rwa [List.append_nil, ← hword, String.ofList_toList] at hread
  rw [hword]
  exact .cons (skipTrivia_of_isOrdinary (isOrdinary_of_opensName hc) cs) hread .nil

/-! ## Before a blank -/

/-- A character that is no blank comes next only where it did. -/
theorem append_ne_cons {d : Char} (hd : d ≠ ' ') (hmore : Before (· == ' ') more)
    (h : ∀ es, cs ≠ d :: es) (es : List Char) : cs ++ more ≠ d :: es := by
  cases cs with
  | nil =>
    rintro rfl
    exact hd (beq_iff_eq.1 (hmore d rfl))
  | cons c cs =>
    intro heq
    obtain ⟨rfl, -⟩ := List.cons.inj heq
    exact h cs rfl

/-- A class of characters without the blank ends where it did. -/
theorem takeWhile_before (hp : p ' ' = false) (hmore : Before (· == ' ') more) (cs : List Char) :
    (cs ++ more).takeWhile p = cs.takeWhile p ∧
      (cs ++ more).dropWhile p = cs.dropWhile p ++ more := by
  have hstop : Before (fun c => !p c) (cs.dropWhile p ++ more) := by
    cases hdrop : cs.dropWhile p with
    | nil =>
      refine hmore.imp fun c hc => ?_
      rw [beq_iff_eq.1 hc, hp]
      rfl
    | cons d ds =>
      have hd := List.head?_dropWhile_not p cs
      rw [hdrop] at hd
      exact .cons (by rw [show p d = false from hd]; rfl)
  have htaken : ∀ c ∈ cs.takeWhile p, p c = true := fun c => List.mem_takeWhile_imp
  have h := takeWhile_append_of_before htaken hstop
  rwa [← List.append_assoc, List.takeWhile_append_dropWhile] at h

/-- A word without the blank stands at the head where it did. -/
theorem isPrefixOf_before {w : List Char} (hw : ' ' ∉ w) (hmore : Before (· == ' ') more)
    (cs : List Char) : w.isPrefixOf (cs ++ more) = w.isPrefixOf cs := by
  induction w generalizing cs with
  | nil => rfl
  | cons a w ih =>
    obtain ⟨ha, hw⟩ := not_or.1 (mt List.mem_cons.2 hw)
    cases cs with
    | nil =>
      rcases more with _ | ⟨d, more⟩
      · rfl
      · obtain rfl := beq_iff_eq.1 (hmore d rfl)
        simp [List.isPrefixOf, Ne.symm ha]
    | cons b cs =>
      rw [List.cons_append, List.isPrefixOf, List.isPrefixOf, ih hw]

/-! ## What separates tokens -/

/-- If a skipper leaves anything, it leaves the same before more characters. -/
def SkipsBefore (more : List Char) (skip : List Char → Except SyntaxError (List Char))
    (cs : List Char) : Prop :=
  ∀ c ds, skip cs = .ok (c :: ds) → c :: ds <:+ cs ∧ skip (cs ++ more) = .ok (c :: ds ++ more)

theorem SkipsBefore.of_eq {skip skip' : List Char → Except SyntaxError (List Char)}
    (h : SkipsBefore more skip ds) (hsuffix : ds <:+ cs) (hskip : skip' cs = skip ds)
    (hmore : skip' (cs ++ more) = skip (ds ++ more)) : SkipsBefore more skip' cs := by
  intro c rest hrest
  obtain ⟨hleft, hleft'⟩ := h c rest (hskip.symm.trans hrest)
  exact ⟨hleft.trans hsuffix, hmore.trans hleft'⟩

theorem skipTrivia_before (hmore : Before (· == ' ') more) (cs : List Char) :
    SkipsBefore more skipTrivia cs := by
  refine skipTrivia.induct (SkipsBefore more skipTrivia) (SkipsBefore more skipComment)
    (SkipsBefore more skipLine) ?_ ?_ ?_ ?_ ?_ ?_ ?_ ?_ ?_ ?_ ?_ cs
  -- white space and the starts of comments
  · intro c ds h
    cases h
  · exact fun cs ih => ih.of_eq ((List.suffix_cons _ _).trans (List.suffix_cons _ _)) rfl rfl
  · exact fun cs ih => ih.of_eq ((List.suffix_cons _ _).trans (List.suffix_cons _ _)) rfl rfl
  · intro c cs hline hcomment hblank ih
    refine ih.of_eq (List.suffix_cons _ _) ?_ ?_
    · rw [skipTrivia.eq_4 c cs hline hcomment, if_pos hblank]
    · rw [List.cons_append, skipTrivia.eq_4, if_pos hblank]
      · exact fun es hc => append_ne_cons (by decide) hmore (fun es => hline es hc) es
      · exact fun es hc => append_ne_cons (by decide) hmore (fun es => hcomment es hc) es
  · intro c cs hline hcomment hblank d ds hread
    rw [skipTrivia.eq_4 c cs hline hcomment, if_neg hblank] at hread
    obtain ⟨rfl, rfl⟩ := List.cons.inj (Except.ok.inj hread)
    refine ⟨List.suffix_rfl, ?_⟩
    rw [List.cons_append, skipTrivia.eq_4, if_neg hblank]
    · exact fun es hc => append_ne_cons (by decide) hmore (fun es => hline es hc) es
    · exact fun es hc => append_ne_cons (by decide) hmore (fun es => hcomment es hc) es
  -- comments that have to be closed
  · intro c ds h
    cases h
  · exact fun cs ih => ih.of_eq ((List.suffix_cons _ _).trans (List.suffix_cons _ _)) rfl rfl
  · intro c cs hclose ih
    refine ih.of_eq (List.suffix_cons _ _) (skipComment.eq_3 c cs hclose) ?_
    rw [List.cons_append, skipComment.eq_3]
    exact fun es hc => append_ne_cons (by decide) hmore (fun es => hclose es hc) es
  -- comments to the end of the line
  · intro c ds h
    cases h
  · exact fun cs ih => ih.of_eq (List.suffix_cons _ _) rfl rfl
  · intro c cs hc ih
    refine ih.of_eq (List.suffix_cons _ _) ?_ ?_
    · rw [skipLine, if_neg hc]
    · rw [List.cons_append, skipLine, if_neg hc]

/-! ## Strings -/

theorem readString_quote {quote : Char} (h : quote ≠ '\\') (cs : List Char) :
    readString quote (quote :: cs) = .ok ([], cs) := by
  rw [readString, if_pos rfl] <;> simp [h]

theorem readString_stays (quote : Char) (more cs : List Char) :
    Stays more (· <:+ cs) (readString quote cs) (readString quote (cs ++ more)) := by
  induction cs using readString.induct quote with
  | case1 => nofun
  | case2 => nofun
  | case3 a b c d cs x hx ih =>
    simp only [List.cons_append, readString, hx]
    have htaken : cs <:+ '\\' :: 'u' :: a :: b :: c :: d :: cs :=
      List.suffix_append ['\\', 'u', a, b, c, d] cs
    exact ih.map fun s rest hrest => .ok (hrest.trans htaken)
  | case4 a b c d cs hx =>
    rw [readString, hx]
    exact .error _
  | case5 cs hshort hx =>
    rw [readString, if_pos hx]
    · exact .error _
    · exact hshort
  | case6 cs hshort hx =>
    rw [readString, if_neg hx]
    · exact .error _
    · exact hshort
  | case7 c cs _ hu ih =>
    rw [List.cons_append, List.cons_append, readString_escape hu, readString_escape hu]
    exact ih.map fun s rest hrest => .ok (hrest.trans (List.suffix_append ['\\', c] cs))
  | case8 cs hend hlong hshort hescape =>
    have hslash : quote ≠ '\\' := by
      intro h
      cases cs with
      | nil => exact hend h rfl
      | cons c cs => exact hescape c cs h rfl
    rw [List.cons_append, readString_quote hslash, readString_quote hslash]
    exact .ok (List.suffix_cons quote cs)
  | case9 c cs hend hlong hshort hescape hquote ih =>
    have hslash : c ≠ '\\' := by
      intro h
      cases cs with
      | nil => exact hend h rfl
      | cons d cs => exact hescape d cs h rfl
    rw [List.cons_append, readString_plain hslash hquote, readString_plain hslash hquote]
    exact ih.map fun s rest hrest => .ok (hrest.trans (List.suffix_cons c cs))

/-! ## Numbers -/

theorem readHex_stays (hmore : Before (· == ' ') more) (cs : List Char) :
    Stays more (· <:+ cs) (readHex cs) (readHex (cs ++ more)) := by
  obtain ⟨htake, hdrop⟩ := takeWhile_before (p := isHexDigit) rfl hmore cs
  unfold readHex
  dsimp only
  rw [htake, hdrop]
  split
  next => exact .ok (List.dropWhile_suffix _)
  next => exact .error _

theorem spanNumber_stays (hmore : Before (· == ' ') more) (cs : List Char) :
    Stays more (· <:+ cs.dropWhile fun c => c.isDigit || c == '.')
      (spanNumber cs) (spanNumber (cs ++ more)) := by
  obtain ⟨htake, hdrop⟩ := takeWhile_before (p := fun c => c.isDigit || c == '.') rfl hmore cs
  unfold spanNumber
  dsimp only
  rw [htake, hdrop]
  cases hrest : cs.dropWhile fun c => c.isDigit || c == '.' with
  | nil =>
    rcases more with _ | ⟨d, more⟩
    · exact .ok List.suffix_rfl
    · obtain rfl := beq_iff_eq.1 (hmore d rfl)
      exact .ok List.suffix_rfl
  | cons e es =>
    have hdigits : ∀ (sign ds : List Char), ds <:+ e :: es → Stays more (· <:+ e :: es)
        (if (ds.takeWhile Char.isDigit).isEmpty = true then .error .exponentDigits
          else .ok (cs.takeWhile (fun c => c.isDigit || c == '.') ++ e :: sign
            ++ ds.takeWhile Char.isDigit, ds.dropWhile Char.isDigit))
        (if ((ds ++ more).takeWhile Char.isDigit).isEmpty = true then .error .exponentDigits
          else .ok (cs.takeWhile (fun c => c.isDigit || c == '.') ++ e :: sign
            ++ (ds ++ more).takeWhile Char.isDigit, (ds ++ more).dropWhile Char.isDigit)) := by
      intro sign ds hds
      obtain ⟨htake, hdrop⟩ := takeWhile_before (p := Char.isDigit) rfl hmore ds
      rw [htake, hdrop]
      split
      next => exact .error _
      next => exact .ok ((List.dropWhile_suffix _).trans hds)
    rw [List.cons_append]
    dsimp only
    by_cases he : e = 'e' ∨ e = 'E'
    · rw [if_pos he, if_pos he]
      rcases es with _ | ⟨d, es⟩
      · exact .error _
      by_cases hplus : d = '+'
      · subst hplus
        exact hdigits ['+'] es (List.suffix_append [e, '+'] es)
      by_cases hminus : d = '-'
      · subst hminus
        exact hdigits ['-'] es (List.suffix_append [e, '-'] es)
      simpa [hplus, hminus] using hdigits [] (d :: es) (List.suffix_cons e _)
    · rw [if_neg he, if_neg he]
      exact .ok List.suffix_rfl

theorem readDecimal_stays (hmore : Before (· == ' ') more) (cs : List Char) :
    Stays more (· <:+ cs.dropWhile fun c => c.isDigit || c == '.')
      (readDecimal cs) (readDecimal (cs ++ more)) := by
  refine (spanNumber_stays hmore cs).bind fun text rest hrest => ?_
  dsimp only
  split
  next => exact .ok hrest
  next => exact .error _

/-- What opens a number is taken. -/
theorem readNumber_stays (hmore : Before (· == ' ') more)
    (hc : (c.isDigit || c == '.') = true) (cs : List Char) :
    Stays more (· <:+ cs) (readNumber (c :: cs)) (readNumber (c :: cs ++ more)) := by
  have hrest : (c :: cs).dropWhile (fun c => c.isDigit || c == '.') <:+ cs := by
    rw [List.dropWhile_cons_of_pos (p := fun c => c.isDigit || c == '.') hc]
    exact List.dropWhile_suffix _
  by_cases hhex : c = '0' ∧ ∃ d ds, cs = d :: ds ∧ (d = 'x' ∨ d = 'X')
  · obtain ⟨rfl, d, ds, rfl, rfl | rfl⟩ := hhex
    · exact (readHex_stays hmore ds).imp fun _ h => h.trans (List.suffix_cons _ ds)
    · exact (readHex_stays hmore ds).imp fun _ h => h.trans (List.suffix_cons _ ds)
  · have hmark : ∀ d, d = 'x' ∨ d = 'X' → ∀ ds, c :: cs ≠ '0' :: d :: ds := by
      rintro d hd ds heq
      obtain ⟨rfl, rfl⟩ := List.cons.inj heq
      exact hhex ⟨rfl, d, ds, rfl, hd⟩
    have hlater : ∀ d, d = 'x' ∨ d = 'X' → ∀ ds, c :: cs ++ more ≠ '0' :: d :: ds := by
      intro d hd ds heq
      obtain ⟨rfl, htail⟩ := List.cons.inj heq
      have hd' : d ≠ ' ' := by rcases hd with rfl | rfl <;> decide
      exact append_ne_cons hd' hmore (fun es hes => hmark d hd es (congrArg _ hes)) ds htail
    rw [readNumber.eq_3 _ (hmark 'x' (.inl rfl)) (hmark 'X' (.inr rfl)),
      readNumber.eq_3 _ (hlater 'x' (.inl rfl)) (hlater 'X' (.inr rfl))]
    exact (readDecimal_stays hmore (c :: cs)).imp fun _ h => h.trans hrest

/-! ## Symbols -/

/-- The same symbol is the longest one, and it is taken. -/
theorem readSymbol?_before (hmore : Before (· == ' ') more)
    (h : readSymbol? (c :: cs) = some (t, rest)) :
    rest <:+ cs ∧ readSymbol? (c :: cs ++ more) = some (t, rest ++ more) := by
  have hsame : symbols.find? (fun s => s.toList.isPrefixOf (c :: cs ++ more))
      = symbols.find? fun s => s.toList.isPrefixOf (c :: cs) := by
    have hblank : ∀ s ∈ symbols, ' ' ∉ s.toList := by decide
    rw [← List.head?_filter, ← List.head?_filter,
      List.filter_congr fun s hs => isPrefixOf_before (hblank s hs) hmore (c :: cs)]
  unfold readSymbol? at h ⊢
  rw [hsame]
  obtain ⟨s, hs, hpair⟩ := Option.map_eq_some_iff.1 h
  obtain ⟨rfl, rfl⟩ := Prod.mk.inj hpair
  have hnonempty : ∀ s ∈ symbols, s.toList ≠ [] := by decide
  have hprefix : s.toList <+: c :: cs := by
    have hfound := List.find?_some (p := fun s : String => s.toList.isPrefixOf (c :: cs)) hs
    exact List.isPrefixOf_iff_prefix.1 hfound
  obtain ⟨d, ds, hlist⟩ :=
    List.exists_cons_of_ne_nil (hnonempty s (List.mem_of_find?_eq_some hs))
  refine ⟨?_, ?_⟩
  · rw [hlist, List.length_cons, List.drop_succ_cons]
    exact List.drop_suffix _ _
  · rw [hs, ← List.drop_append_of_le_length hprefix.length_le]
    rfl

/-! ## Texts -/

theorem eq_point_of_atPointNumber (h : atPointNumber (c :: cs) = true) : c = '.' := by
  unfold atPointNumber at h
  split at h
  next heq => exact (List.cons.inj heq).1
  next => cases h

theorem atPointNumber_before (hmore : Before (· == ' ') more) (c : Char) (cs : List Char) :
    atPointNumber (c :: (cs ++ more)) = atPointNumber (c :: cs) := by
  by_cases hc : c = '.'
  · subst hc
    rcases cs with _ | ⟨d, cs⟩
    · rcases more with _ | ⟨d, more⟩
      · rfl
      · obtain rfl := beq_iff_eq.1 (hmore d rfl)
        rfl
    · rfl
  · have hnone : ∀ cs, atPointNumber (c :: cs) = false := fun cs =>
      Bool.eq_false_iff.2 fun h => hc (eq_point_of_atPointNumber h)
    rw [hnone, hnone]

theorem readToken_stays (hmore : Before (· == ' ') more) (c : Char) (cs : List Char) :
    Stays more (· <:+ cs) (readToken c cs) (readToken c (cs ++ more)) := by
  unfold readToken
  rw [atPointNumber_before hmore]
  split
  next => exact (readString_stays c more cs).map fun s rest hrest => .ok hrest
  split
  next => exact .error _
  split
  next h =>
    refine readNumber_stays hmore (Bool.or_eq_true_iff.2 ?_) cs
    exact (Bool.or_eq_true_iff.1 h).imp_right fun hc => beq_iff_eq.2 (eq_point_of_atPointNumber hc)
  split
  next hname =>
    obtain ⟨htake, hdrop⟩ := takeWhile_before (p := continuesName) rfl hmore (c :: cs)
    rw [← List.cons_append, htake, hdrop]
    refine .ok ?_
    rw [List.dropWhile_cons_of_pos (continuesName_of_opensName hname)]
    exact List.dropWhile_suffix _
  intro t rest h
  cases hread : readSymbol? (c :: cs) with
  | none =>
    rw [hread] at h
    cases h
  | some r =>
    rw [hread] at h
    obtain rfl := Except.ok.inj h
    obtain ⟨hrest, hread'⟩ := readSymbol?_before hmore hread
    rw [← List.cons_append, hread']
    exact ⟨hrest, rfl⟩

/-- A text that tokens fill is scanned as them before a blank. -/
theorem Lexes.scans (h : Lexes cs ts) : Scans (· == ' ') cs ts := by
  induction h with
  | nil => exact ⟨Nat.le_refl _, fun k rest out _ hout => hout⟩
  | cons hskip hread h ih =>
    refine ⟨?_, fun k rest out hrest hout => ?_⟩
    · have hskipped := (skipTrivia_before .nil _ _ _ hskip).1.length_le
      have htaken := (readToken_stays .nil _ _ _ _ hread).1.length_le
      have hlater := ih.length_le
      simp only [List.length_cons] at hskipped ⊢
      omega
    · have hskip' := (skipTrivia_before hrest _ _ _ hskip).2
      have hread' := (readToken_stays hrest _ _ _ _ hread).2
      rw [List.length_cons, ← Nat.add_assoc, scanUpTo, hskip', ok_bind]
      dsimp only [List.cons_append]
      rw [hread', ok_bind]
      dsimp only
      rw [ih.scan k rest out hrest hout]
      rfl

end Token

end ColumnQuery
