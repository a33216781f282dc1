/-
  The leaves of formulas.

  A formula is put together from leaves: columns, tests of dictionary columns, slots, results of
  operators and escaped functions. What a formula evaluates to is decided by what its leaves do:
  two environments in which all leaves have the same values give the same value
  (`evalWith_congr`), and a formula all of whose leaves have values has one (`exists_evalWith`).
  A constant formula has no leaves.
-/
import ColumnQuery.Formula.Eval

namespace ColumnQuery

namespace Formula

mutual

/-- Every leaf has a property. -/
def Leaves (P : Formula → Prop) : Formula → Prop
  | literal _ => True
  | column t c => P (column t c)
  | dictionaryEq t c key negated => P (dictionaryEq t c key negated)
  | slot i => P (slot i)
  | op ref => P (op ref)
  | escape f tables params => P (escape f tables params)
  | unary _ a => Leaves P a
  | binary _ l r | logical _ l r => Leaves P l ∧ Leaves P r
  | conditional t c a => Leaves P t ∧ Leaves P c ∧ Leaves P a
  | array items => LeavesList P items
  | object entries => LeavesEntries P entries
  | member o p => Leaves P o ∧ Leaves P p
  | call _ args => LeavesList P args
  | block body => LeavesBody P body

def LeavesList (P : Formula → Prop) : List Formula → Prop
  | [] => True
  | f :: fs => Leaves P f ∧ LeavesList P fs

def LeavesEntries (P : Formula → Prop) : List (String × Formula) → Prop
  | [] => True
  | (_, f) :: es => Leaves P f ∧ LeavesEntries P es

def LeavesBody (P : Formula → Prop) : List Statement → Prop
  | [] => True
  | .assign _ init :: rest => Leaves P init ∧ LeavesBody P rest
  | .expression f :: rest => Leaves P f ∧ LeavesBody P rest
  | .returns none :: rest => LeavesBody P rest
  | .returns (some f) :: rest => Leaves P f ∧ LeavesBody P rest
  | .branch t c a :: rest => Leaves P t ∧ LeavesBody P c ∧ LeavesBody P a ∧ LeavesBody P rest
  | .block body :: rest => LeavesBody P body ∧ LeavesBody P rest

end

variable {P : Formula → Prop}

theorem leavesList_iff {fs : List Formula} : LeavesList P fs ↔ ∀ f ∈ fs, f.Leaves P := by
  induction fs with
  | nil => simp [LeavesList]
  | cons f fs ih => simp [LeavesList, ih]

theorem leavesEntries_iff {es : List (String × Formula)} :
    LeavesEntries P es ↔ ∀ e ∈ es, e.2.Leaves P := by
  induction es with
  | nil => simp [LeavesEntries]
  | cons e es ih =>
    obtain ⟨k, f⟩ := e
    simp [LeavesEntries, ih]

theorem leavesBody_append {body rest : List Statement} :
    LeavesBody P (body ++ rest) ↔ LeavesBody P body ∧ LeavesBody P rest := by
  induction body with
  | nil => simp [LeavesBody]
  | cons s body ih =>
    cases s with
    | assign _ _ => simp [LeavesBody, ih, and_assoc]
    | expression _ => simp [LeavesBody, ih, and_assoc]
    | returns a => cases a <;> simp [LeavesBody, ih, and_assoc]
    | branch _ _ _ => simp [LeavesBody, ih, and_assoc]
    | block _ => simp [LeavesBody, ih, and_assoc]

mutual

/-- A constant formula has no leaves. -/
theorem leaves_of_isConstant : ∀ f : Formula, f.isConstant = true → f.Leaves P
  | literal _, _ => trivial
  | unary _ a, h => leaves_of_isConstant a h
  | binary _ l r, h | logical _ l r, h => by
    obtain ⟨hl, hr⟩ := Bool.and_eq_true_iff.1 h
    exact ⟨leaves_of_isConstant l hl, leaves_of_isConstant r hr⟩
  | conditional t c a, h => by
    obtain ⟨h, ha⟩ := Bool.and_eq_true_iff.1 h
    obtain ⟨ht, hc⟩ := Bool.and_eq_true_iff.1 h
    exact ⟨leaves_of_isConstant t ht, leaves_of_isConstant c hc, leaves_of_isConstant a ha⟩
  | array items, h => leaves_of_areConstant items h
  | object entries, h => leaves_of_areConstantEntries entries h
  | member o p, h => by
    obtain ⟨ho, hp⟩ := Bool.and_eq_true_iff.1 h
    exact ⟨leaves_of_isConstant o ho, leaves_of_isConstant p hp⟩
  | call _ args, h => leaves_of_areConstant args h

theorem leaves_of_areConstant : ∀ fs : List Formula, areConstant fs = true → LeavesList P fs
  | [], _ => trivial
  | f :: fs, h => by
    obtain ⟨hf, hfs⟩ := Bool.and_eq_true_iff.1 h
    exact ⟨leaves_of_isConstant f hf, leaves_of_areConstant fs hfs⟩

theorem leaves_of_areConstantEntries : ∀ es : List (String × Formula),
    areConstantEntries es = true → LeavesEntries P es
  | [], _ => trivial
  | (_, f) :: es, h => by
    obtain ⟨hf, hes⟩ := Bool.and_eq_true_iff.1 h
    exact ⟨leaves_of_isConstant f hf, leaves_of_areConstantEntries es hes⟩

end

/-! ## Weaker properties -/

variable {Q : Formula → Prop}

mutual

theorem Leaves.imp (h : ∀ leaf, P leaf → Q leaf) : ∀ f : Formula, f.Leaves P → f.Leaves Q
  | literal _, _ => trivial
  | column _ _, hf | dictionaryEq _ _ _ _, hf | slot _, hf | op _, hf | escape _ _ _, hf => h _ hf
  | unary _ a, hf => Leaves.imp h a hf
  | binary _ l r, hf | logical _ l r, hf => ⟨Leaves.imp h l hf.1, Leaves.imp h r hf.2⟩
  | conditional t c a, hf => ⟨Leaves.imp h t hf.1, Leaves.imp h c hf.2.1, Leaves.imp h a hf.2.2⟩
  | array items, hf => LeavesList.imp h items hf
  | object entries, hf => LeavesEntries.imp h entries hf
  | member o p, hf => ⟨Leaves.imp h o hf.1, Leaves.imp h p hf.2⟩
  | call _ args, hf => LeavesList.imp h args hf
  | block body, hf => LeavesBody.imp h body hf

theorem LeavesList.imp (h : ∀ leaf, P leaf → Q leaf) :
    ∀ fs : List Formula, LeavesList P fs → LeavesList Q fs
  | [], _ => trivial
  | f :: fs, hf => ⟨Leaves.imp h f hf.1, LeavesList.imp h fs hf.2⟩

theorem LeavesEntries.imp (h : ∀ leaf, P leaf → Q leaf) :
    ∀ es : List (String × Formula), LeavesEntries P es → LeavesEntries Q es
  | [], _ => trivial
  | (_, f) :: es, hf => ⟨Leaves.imp h f hf.1, LeavesEntries.imp h es hf.2⟩

theorem LeavesBody.imp (h : ∀ leaf, P leaf → Q leaf) :
    ∀ body : List Statement, LeavesBody P body → LeavesBody Q body
  | [], _ => trivial
  | .assign _ init :: rest, hf => ⟨Leaves.imp h init hf.1, LeavesBody.imp h rest hf.2⟩
  | .expression f :: rest, hf => ⟨Leaves.imp h f hf.1, LeavesBody.imp h rest hf.2⟩
  | .returns none :: rest, hf => LeavesBody.imp h rest hf
  | .returns (some f) :: rest, hf => ⟨Leaves.imp h f hf.1, LeavesBody.imp h rest hf.2⟩
  | .branch t c a :: rest, hf =>
    ⟨Leaves.imp h t hf.1, LeavesBody.imp h c hf.2.1, LeavesBody.imp h a hf.2.2.1,
      LeavesBody.imp h rest hf.2.2.2⟩
  | .block body :: rest, hf => ⟨LeavesBody.imp h body hf.1, LeavesBody.imp h rest hf.2⟩

end

/-! ## Two properties at once -/

mutual

theorem Leaves.and : ∀ f : Formula, f.Leaves P → f.Leaves Q → f.Leaves fun leaf => P leaf ∧ Q leaf
  | literal _, _, _ => trivial
  | column _ _, hp, hq | dictionaryEq _ _ _ _, hp, hq | slot _, hp, hq | op _, hp, hq
  | escape _ _ _, hp, hq => ⟨hp, hq⟩
  | unary _ a, hp, hq => Leaves.and a hp hq
  | binary _ l r, hp, hq | logical _ l r, hp, hq =>
    ⟨Leaves.and l hp.1 hq.1, Leaves.and r hp.2 hq.2⟩
  | conditional t c a, hp, hq =>
    ⟨Leaves.and t hp.1 hq.1, Leaves.and c hp.2.1 hq.2.1, Leaves.and a hp.2.2 hq.2.2⟩
  | array items, hp, hq => LeavesList.and items hp hq
  | object entries, hp, hq => LeavesEntries.and entries hp hq
  | member o p, hp, hq => ⟨Leaves.and o hp.1 hq.1, Leaves.and p hp.2 hq.2⟩
  | call _ args, hp, hq => LeavesList.and args hp hq
  | block body, hp, hq => LeavesBody.and body hp hq

theorem LeavesList.and : ∀ fs : List Formula, LeavesList P fs → LeavesList Q fs →
    LeavesList (fun leaf => P leaf ∧ Q leaf) fs
  | [], _, _ => trivial
  | f :: fs, hp, hq => ⟨Leaves.and f hp.1 hq.1, LeavesList.and fs hp.2 hq.2⟩

theorem LeavesEntries.and : ∀ es : List (String × Formula), LeavesEntries P es →
    LeavesEntries Q es → LeavesEntries (fun leaf => P leaf ∧ Q leaf) es
  | [], _, _ => trivial
  | (_, f) :: es, hp, hq => ⟨Leaves.and f hp.1 hq.1, LeavesEntries.and es hp.2 hq.2⟩

theorem LeavesBody.and : ∀ body : List Statement, LeavesBody P body → LeavesBody Q body →
    LeavesBody (fun leaf => P leaf ∧ Q leaf) body
  | [], _, _ => trivial
  | .assign _ init :: rest, hp, hq =>
    ⟨Leaves.and init hp.1 hq.1, LeavesBody.and rest hp.2 hq.2⟩
  | .expression f :: rest, hp, hq => ⟨Leaves.and f hp.1 hq.1, LeavesBody.and rest hp.2 hq.2⟩
  | .returns none :: rest, hp, hq => LeavesBody.and rest hp hq
  | .returns (some f) :: rest, hp, hq => ⟨Leaves.and f hp.1 hq.1, LeavesBody.and rest hp.2 hq.2⟩
  | .branch t c a :: rest, hp, hq =>
    ⟨Leaves.and t hp.1 hq.1, LeavesBody.and c hp.2.1 hq.2.1, LeavesBody.and a hp.2.2.1 hq.2.2.1,
      LeavesBody.and rest hp.2.2.2 hq.2.2.2⟩
  | .block body :: rest, hp, hq => ⟨LeavesBody.and body hp.1 hq.1, LeavesBody.and rest hp.2 hq.2⟩

end

/-! ## Evaluation -/

mutual

/-- Environments in which all leaves have the same values give the same value. -/
theorem evalWith_congr {env env' : Env} : ∀ f : Formula,
    f.Leaves (fun leaf => ∀ s, evalWith env leaf s = evalWith env' leaf s) →
      ∀ s, evalWith env f s = evalWith env' f s
  | literal _, _, _ => by rw [evalWith, evalWith]
  | column _ _, h, s | dictionaryEq _ _ _ _, h, s | slot _, h, s | op _, h, s
  | escape _ _ _, h, s => h s
  | unary o a, h, s => by rw [evalWith, evalWith, evalWith_congr a h]
  | binary o l r, h, s => by
    rw [evalWith, evalWith, evalWith_congr l h.1]
    simp only [evalWith_congr r h.2]
  | logical o l r, h, s => by
    rw [evalWith, evalWith, evalWith_congr l h.1]
    simp only [evalWith_congr r h.2]
  | conditional t c a, h, s => by
    rw [evalWith, evalWith, evalWith_congr t h.1]
    simp only [evalWith_congr c h.2.1, evalWith_congr a h.2.2]
  | array items, h, s => by rw [evalWith, evalWith, evalList_congr items h]
  | object entries, h, s => by rw [evalWith, evalWith, evalEntries_congr entries h]
  | member o p, h, s => by
    rw [evalWith, evalWith, evalWith_congr o h.1]
    simp only [evalWith_congr p h.2]
  | call f args, h, s => by rw [evalWith, evalWith, evalList_congr args h]
  | block body, h, s => by rw [evalWith, evalWith, exec_congr body h]

theorem evalList_congr {env env' : Env} : ∀ fs : List Formula,
    LeavesList (fun leaf => ∀ s, evalWith env leaf s = evalWith env' leaf s) fs →
      ∀ s, evalList env fs s = evalList env' fs s
  | [], _, _ => by rw [evalList, evalList]
  | f :: fs, h, s => by
    rw [evalList, evalList, evalWith_congr f h.1]
    simp only [evalList_congr fs h.2]

theorem evalEntries_congr {env env' : Env} : ∀ es : List (String × Formula),
    LeavesEntries (fun leaf => ∀ s, evalWith env leaf s = evalWith env' leaf s) es →
      ∀ s, evalEntries env es s = evalEntries env' es s
  | [], _, _ => by rw [evalEntries, evalEntries]
  | (k, f) :: es, h, s => by
    rw [evalEntries, evalEntries, evalWith_congr f h.1]
    simp only [evalEntries_congr es h.2]

theorem exec_congr {env env' : Env} : ∀ body : List Statement,
    LeavesBody (fun leaf => ∀ s, evalWith env leaf s = evalWith env' leaf s) body →
      ∀ s, exec env body s = exec env' body s
  | [], _, _ => by rw [exec, exec]
  | .assign i init :: rest, h, s => by
    rw [exec, exec, evalWith_congr init h.1]
    simp only [exec_congr rest h.2]
  | .expression f :: rest, h, s => by
    rw [exec, exec, evalWith_congr f h.1]
    simp only [exec_congr rest h.2]
  | .returns none :: rest, _, s => by rw [exec, exec]
  | .returns (some f) :: rest, h, s => by rw [exec, exec, evalWith_congr f h.1]
  | .branch t c a :: rest, h, s => by
    rw [exec, exec, evalWith_congr t h.1]
    simp only [exec_congr c h.2.1, exec_congr a h.2.2.1, exec_congr rest h.2.2.2]
  | .block body :: rest, h, s => by
    rw [exec, exec, exec_congr body h.1]
    simp only [exec_congr rest h.2]

end

mutual

/-- A formula has a value if all its leaves have one. -/
theorem exists_evalWith {env : Env} : ∀ f : Formula,
    f.Leaves (fun leaf => ∀ s, (evalWith env leaf s).isSome) → ∀ s, (evalWith env f s).isSome
  | literal _, _, _ => by rw [evalWith]; rfl
  | column _ _, h, s | dictionaryEq _ _ _ _, h, s | slot _, h, s | op _, h, s
  | escape _ _ _, h, s => h s
  | unary o a, h, s => by
    obtain ⟨r, hr⟩ := Option.isSome_iff_exists.1 (exists_evalWith a h s)
    rw [evalWith, hr]
    rfl
  | binary o l r, h, s => by
    obtain ⟨x, hx⟩ := Option.isSome_iff_exists.1 (exists_evalWith l h.1 s)
    obtain ⟨y, hy⟩ := Option.isSome_iff_exists.1 (exists_evalWith r h.2 x.2)
    rw [evalWith, hx]
    simp [hy]
  | logical o l r, h, s => by
    obtain ⟨x, hx⟩ := Option.isSome_iff_exists.1 (exists_evalWith l h.1 s)
    have hy := exists_evalWith r h.2 x.2
    rw [evalWith, hx]
    simp only [Option.bind_eq_bind, Option.bind_some]
    split
    · rfl
    · exact hy
  | conditional t c a, h, s => by
    obtain ⟨x, hx⟩ := Option.isSome_iff_exists.1 (exists_evalWith t h.1 s)
    have hc := exists_evalWith c h.2.1 x.2
    have ha := exists_evalWith a h.2.2 x.2
    rw [evalWith, hx]
    simp only [Option.bind_eq_bind, Option.bind_some]
    split
    · exact hc
    · exact ha
  | array items, h, s => by
    obtain ⟨r, hr⟩ := Option.isSome_iff_exists.1 (exists_evalList items h s)
    rw [evalWith, hr]
    rfl
  | object entries, h, s => by
    obtain ⟨r, hr⟩ := Option.isSome_iff_exists.1 (exists_evalEntries entries h s)
    rw [evalWith, hr]
    rfl
  | member o p, h, s => by
    obtain ⟨x, hx⟩ := Option.isSome_iff_exists.1 (exists_evalWith o h.1 s)
    obtain ⟨y, hy⟩ := Option.isSome_iff_exists.1 (exists_evalWith p h.2 x.2)
    rw [evalWith, hx]
    simp [hy]
  | call f args, h, s => by
    obtain ⟨r, hr⟩ := Option.isSome_iff_exists.1 (exists_evalList args h s)
    rw [evalWith, hr]
    rfl
  | block body, h, s => by
    obtain ⟨r, hr⟩ := Option.isSome_iff_exists.1 (exists_exec body h s)
    rw [evalWith, hr]
    rfl

theorem exists_evalList {env : Env} : ∀ fs : List Formula,
    LeavesList (fun leaf => ∀ s, (evalWith env leaf s).isSome) fs →
      ∀ s, (evalList env fs s).isSome
  | [], _, _ => by rw [evalList]; rfl
  | f :: fs, h, s => by
    obtain ⟨x, hx⟩ := Option.isSome_iff_exists.1 (exists_evalWith f h.1 s)
    obtain ⟨y, hy⟩ := Option.isSome_iff_exists.1 (exists_evalList fs h.2 x.2)
    rw [evalList, hx]
    simp [hy]

theorem exists_evalEntries {env : Env} : ∀ es : List (String × Formula),
    LeavesEntries (fun leaf => ∀ s, (evalWith env leaf s).isSome) es →
      ∀ s, (evalEntries env es s).isSome
  | [], _, _ => by rw [evalEntries]; rfl
  | (k, f) :: es, h, s => by
    obtain ⟨x, hx⟩ := Option.isSome_iff_exists.1 (exists_evalWith f h.1 s)
    obtain ⟨y, hy⟩ := Option.isSome_iff_exists.1 (exists_evalEntries es h.2 x.2)
    rw [evalEntries, hx]
    simp [hy]

theorem exists_exec {env : Env} : ∀ body : List Statement,
    LeavesBody (fun leaf => ∀ s, (evalWith env leaf s).isSome) body →
      ∀ s, (exec env body s).isSome
  | [], _, _ => by rw [exec]; rfl
  | .assign i init :: rest, h, s => by
    obtain ⟨x, hx⟩ := Option.isSome_iff_exists.1 (exists_evalWith init h.1 s)
    rw [exec, hx]
    exact exists_exec rest h.2 _
  | .expression f :: rest, h, s => by
    obtain ⟨x, hx⟩ := Option.isSome_iff_exists.1 (exists_evalWith f h.1 s)
    rw [exec, hx]
    exact exists_exec rest h.2 _
  | .returns none :: rest, _, s => by rw [exec]; rfl
  | .returns (some f) :: rest, h, s => by
    obtain ⟨x, hx⟩ := Option.isSome_iff_exists.1 (exists_evalWith f h.1 s)
    rw [exec, hx]
    rfl
  | .branch t c a :: rest, h, s => by
    obtain ⟨x, hx⟩ := Option.isSome_iff_exists.1 (exists_evalWith t h.1 s)
    have htaken : (if x.1.truthy then exec env c x.2 else exec env a x.2).isSome := by
      split
      · exact exists_exec c h.2.1 x.2
      · exact exists_exec a h.2.2.1 x.2
    obtain ⟨y, hy⟩ := Option.isSome_iff_exists.1 htaken
    rw [exec, hx]
    simp only [Option.bind_eq_bind, Option.bind_some, hy]
    split
    · rfl
    · exact exists_exec rest h.2.2.2 _
  | .block body :: rest, h, s => by
    obtain ⟨y, hy⟩ := Option.isSome_iff_exists.1 (exists_exec body h.1 s)
    rw [exec, hy]
    simp only [Option.bind_eq_bind, Option.bind_some]
    split
    · rfl
    · exact exists_exec rest h.2 _

end

end Formula

end ColumnQuery
