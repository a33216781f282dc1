/-
  Constants by their names.

  Formulas keep the constants of blocks in numbered slots, which are neither cleared nor told apart
  by row or expression. `Lexical` evaluates a resolved expression without slots: it walks along the
  tree and the formula together, gives a name the value of the innermost declaration before it, and
  forgets the constants of a block at its end.

  Both evaluations agree, whatever the slots hold at the start (`lexical_of_resolve`): what a block
  leaves in its slots is in nobody's way, since every read is of a slot that was set before in the
  same evaluation, and the slots of the constants that are still known are not set again.
-/
import ColumnQuery.Proofs.Formula.Exported
import ColumnQuery.Proofs.Formula.Locals

namespace ColumnQuery

/-- The values of the constants that are known, innermost first. -/
abbrev Bindings := List (String × Value)

/-! ## Evaluation by names -/

/-- The number of statements that a statement tree is resolved to. -/
def Node.width : Node → Nat
  | declaration _ ds => ds.length
  | _ => 1

/-- The statements of a branch, as those of one statement. -/
def branchStatements : Node → List Statement → List Statement
  | .block _, body => [.block body]
  | _, body => body

theorem branchStatements_of_ne_block {n : Node} (h : ∀ nodes, n ≠ .block nodes)
    (body : List Statement) : branchStatements n body = body := by
  cases n with
  | block nodes => exact absurd rfl (h nodes)
  | _ => rfl

/-- Goes on with what is left unless a value has been returned. -/
def orReturn {α : Type} (x : Option (Option Value × α)) (next : α → Option (Option Value × α)) :
    Option (Option Value × α) :=
  x.bind fun r =>
    match r.1 with
    | some v => some (some v, r.2)
    | none => next r.2

namespace Lexical

mutual

/-- The value of an expression. Where the formula has no part for the parts of the tree, it is a
    reference or a result of an operator, and is evaluated as it is. -/
def value (env : Env) (ρ : Bindings) : Node → Formula → Option Value
  | .identifier name, f =>
    match ρ.lookup name with
    | some v => some v
    | none => f.eval env
  | .member object (.identifier _) false, .member o p => do
    let v ← value env ρ object o
    let key ← p.eval env
    return v.member key
  | .member object property _, .member o p => do
    let v ← value env ρ object o
    let key ← value env ρ property p
    return v.member key
  | .call _ args, .call g fs => do
    let vs ← values env ρ args fs
    return g.apply vs
  | .unary _ n, .unary op f => do
    let v ← value env ρ n f
    return op.apply v
  | .binary _ n m, .binary op l r => do
    let v ← value env ρ n l
    let w ← value env ρ m r
    return op.apply v w
  | .logical _ n m, .logical op l r => do
    let v ← value env ρ n l
    if op.decidedBy v then return v else value env ρ m r
  | .conditional n m k, .conditional t c a => do
    let v ← value env ρ n t
    if v.truthy then value env ρ m c else value env ρ k a
  | .array ns, .array fs => do
    let vs ← values env ρ ns fs
    return .array vs
  | .object ps, .object fs => do
    let es ← entries env ρ ps fs
    return .ofFields es
  | _, f => f.eval env

def values (env : Env) (ρ : Bindings) : List Node → List Formula → Option (List Value)
  | n :: ns, f :: fs => do
    let v ← value env ρ n f
    let vs ← values env ρ ns fs
    return v :: vs
  | _, _ => some []

def entries (env : Env) (ρ : Bindings) :
    List (String × Node) → List (String × Formula) → Option (List (String × Value))
  | (_, n) :: ps, (k, f) :: fs => do
    let v ← value env ρ n f
    let es ← entries env ρ ps fs
    return (k, v) :: es
  | _, _ => some []

end

mutual

/-- Runs a statement: its return value, if it returns, and the constants after it. -/
def statement (env : Env) (ρ : Bindings) :
    Node → List Statement → Option (Option Value × Bindings)
  | .declaration _ ds, body => (declarations env ρ ds body).map (none, ·)
  | .returns (some n), [.returns (some f)] => do
    let v ← value env ρ n f
    return (some v, ρ)
  | .returns _, _ => some (some .null, ρ)
  | .branch n m k, [.branch t c a] => do
    let v ← value env ρ n t
    let r ← if v.truthy then statement env ρ m (branchStatements m c)
      else alternate env ρ k a
    return (r.1, ρ)
  | .block ns, [.block body] => do
    let r ← statements env ρ ns body
    return (r.1, ρ)
  | n, [.expression f] => do
    let _ ← value env ρ n f
    return (none, ρ)
  | _, _ => none

def alternate (env : Env) (ρ : Bindings) :
    Option Node → List Statement → Option (Option Value × Bindings)
  | none, _ => some (none, ρ)
  | some n, body => statement env ρ n (branchStatements n body)

/-- Runs statements in turn up to the first one that returns. -/
def statements (env : Env) (ρ : Bindings) :
    List Node → List Statement → Option (Option Value × Bindings)
  | [], _ => some (none, ρ)
  | n :: ns, body =>
    orReturn (statement env ρ n (body.take n.width)) fun ρ =>
      statements env ρ ns (body.drop n.width)

/-- Declares constants in turn; each sees those before it. -/
def declarations (env : Env) (ρ : Bindings) :
    List (Pattern × Option Node) → List Statement → Option Bindings
  | (.name name, some n) :: ds, .assign _ f :: body => do
    let v ← value env ρ n f
    declarations env ((name, v) :: ρ) ds body
  | _, _ => some ρ

end

/-- The value of a function body. -/
def body (env : Env) : Node → Formula → Option Value
  | .block ns, .block ss => (statements env [] ns ss).map (·.1.getD .null)
  | n, f => value env [] n f

end Lexical

/-! ## Slots -/

namespace Slots

variable (slots : Slots) (i : Nat) (v : Value)

theorem get_put_self : (slots.put i v).get i = v := by
  unfold get put
  rw [Array.getElem?_setIfInBounds, if_pos rfl, if_pos]
  · rfl
  · rw [Array.size_append, Array.size_replicate]
    omega

theorem get_put_of_ne {j : Nat} (h : j ≠ i) : (slots.put i v).get j = slots.get j := by
  unfold get put
  rw [Array.getElem?_setIfInBounds, if_neg (Ne.symm h), Array.getElem?_append]
  split
  next => rfl
  next hsize =>
    rw [Array.getElem?_eq_none (Nat.le_of_not_lt hsize), Array.getElem?_replicate]
    split <;> rfl

end Slots

namespace Formula

/-- A reference, a test of a dictionary column or a result of an operator: evaluation takes no
    notice of the slots. -/
def Slotless : Formula → Prop
  | literal _ | column _ _ | dictionaryEq _ _ _ _ | op _ => True
  | _ => False

theorem IsReference.slotless {f : Formula} (h : f.IsReference) : f.Slotless := by
  cases f with
  | literal _ | column _ _ => trivial
  | _ => cases h

theorem Slotless.evalWith_eq {f : Formula} (h : f.Slotless) (env : Env) (slots : Slots) :
    f.evalWith env slots = (f.eval env).map (·, slots) := by
  cases f with
  | literal v => rw [eval, evalWith, evalWith]; rfl
  | column t c =>
    rw [eval, evalWith, evalWith]
    cases env.position.rowOf t with
    | none => rfl
    | some row => cases h : c.get? row <;> simp [h]
  | dictionaryEq t c key negated =>
    rw [eval, evalWith, evalWith]
    cases env.position.rowOf t with
    | none => rfl
    | some row => cases h : c.keyAt? row <;> simp [h]
  | op ref =>
    rw [eval, evalWith, evalWith]
    cases env.results ref (env.position.left.getD 0) <;> rfl
  | _ => cases h

theorem exec_branch (env : Env) (t : Formula) (c a rest : List Statement) (slots : Slots) :
    exec env (.branch t c a :: rest) slots = (t.evalWith env slots).bind fun r =>
      orReturn (if r.1.truthy then exec env c r.2 else exec env a r.2) (exec env rest) := by
  rw [exec]
  cases t.evalWith env slots with
  | none => rfl
  | some r =>
    unfold orReturn
    dsimp only [Option.bind_eq_bind, Option.bind_some]
    cases (if r.1.truthy = true then exec env c r.2 else exec env a r.2) with
    | none => rfl
    | some q =>
      obtain ⟨outcome, slots'⟩ := q
      cases outcome <;> rfl

theorem exec_block (env : Env) (body rest : List Statement) (slots : Slots) :
    exec env (.block body :: rest) slots = orReturn (exec env body slots) (exec env rest) := by
  rw [exec]
  cases exec env body slots with
  | none => rfl
  | some q =>
    obtain ⟨outcome, slots'⟩ := q
    cases outcome <;> rfl

/-- Statements after others run unless one of the others returns. -/
theorem exec_append (env : Env) (more : List Statement) : ∀ (body : List Statement) (slots : Slots),
    exec env (body ++ more) slots = orReturn (exec env body slots) (exec env more)
  | [], slots => by rw [exec]; rfl
  | .assign i f :: body, slots => by
    rw [List.cons_append, exec, exec]
    cases f.evalWith env slots with
    | none => rfl
    | some r => exact exec_append env more body _
  | .expression f :: body, slots => by
    rw [List.cons_append, exec, exec]
    cases f.evalWith env slots with
    | none => rfl
    | some r => exact exec_append env more body _
  | .returns value :: body, slots => by
    cases value with
    | none =>
      rw [List.cons_append, exec, exec]
      rfl
    | some f =>
      rw [List.cons_append, exec, exec]
      cases f.evalWith env slots <;> rfl
  | .branch t c a :: body, slots => by
    rw [List.cons_append, exec_branch, exec_branch]
    cases t.evalWith env slots with
    | none => rfl
    | some r =>
      dsimp only [Option.bind_some]
      cases (if r.1.truthy = true then exec env c r.2 else exec env a r.2) with
      | none => rfl
      | some q =>
        obtain ⟨outcome, slots'⟩ := q
        cases outcome with
        | none => exact exec_append env more body slots'
        | some v => rfl
  | .block inner :: body, slots => by
    rw [List.cons_append, exec_block, exec_block]
    cases exec env inner slots with
    | none => rfl
    | some q =>
      obtain ⟨outcome, slots'⟩ := q
      cases outcome with
      | none => exact exec_append env more body slots'
      | some v => rfl

end Formula

/-! ## Known constants -/

namespace ResolveState

variable {s t : ResolveState} {names : List String} {slots slots' : Slots}

/-- The values of the known constants. -/
def bindings (s : ResolveState) (slots : Slots) : Bindings :=
  s.known.map fun b => (b.1, slots.get b.2)

/-- The slots of known constants have been given out. -/
def Bounded (s : ResolveState) : Prop := ∀ b ∈ s.known, b.2 < s.nextSlot

theorem lookup_bindings (s : ResolveState) (slots : Slots) (name : String) :
    (s.bindings slots).lookup name = (s.local? name).map slots.get := by
  rw [local?_eq]
  unfold bindings
  induction s.known with
  | nil => rfl
  | cons b bs ih =>
    obtain ⟨key, slot⟩ := b
    rw [List.map_cons, List.lookup_cons, List.lookup_cons, ih]
    cases name == key <;> rfl

theorem bindings_of_locals (h : t.locals = s.locals) (slots : Slots) :
    t.bindings slots = s.bindings slots := by
  unfold bindings known
  rw [h]

/-- Outside of all blocks no constant is known. -/
theorem known_eq_nil (h : s.locals = []) : s.known = [] := by
  unfold known
  rw [h]
  rfl

theorem bindings_eq_nil (h : s.locals = []) (slots : Slots) : s.bindings slots = [] := by
  unfold bindings
  rw [known_eq_nil h]
  rfl

theorem Bounded.bindings_congr (hs : s.Bounded)
    (h : ∀ i < s.nextSlot, slots'.get i = slots.get i) : s.bindings slots' = s.bindings slots := by
  refine List.map_congr_left fun b hb => ?_
  rw [h b.2 (hs b hb)]

theorem Bounded.bindings_after (hs : s.Bounded) (h : s.Declared t []) (slots' : Slots)
    (hslots : ∀ i < s.nextSlot, slots'.get i = slots.get i) :
    s.bindings slots = t.bindings slots' := by
  rw [bindings_of_locals h.locals_eq, hs.bindings_congr hslots]

theorem Declared.bounded (h : s.Declared t names) (hs : s.Bounded) : t.Bounded := by
  obtain ⟨hslot, new, -, hlocals, hnew⟩ := h
  intro b hb
  rcases mem_known_inFront hlocals hb with hb | hb
  · exact (hnew b hb).2
  · exact Nat.lt_of_lt_of_le (hs b hb) hslot

/-- A declaration puts its value in front. -/
theorem bindings_declare (hs : s.Bounded) (hne : s.locals ≠ []) (name : String) (slots : Slots)
    (v : Value) :
    (s.declare name).bindings (slots.put s.nextSlot v) = (name, v) :: s.bindings slots := by
  have hold : s.bindings (slots.put s.nextSlot v) = s.bindings slots :=
    hs.bindings_congr fun i hi => Slots.get_put_of_ne slots _ v (Nat.ne_of_lt hi)
  have hknown : (s.declare name).known = (name, s.nextSlot) :: s.known := by
    unfold known declare
    cases hblocks : s.locals with
    | nil => exact absurd hblocks hne
    | cons block outer => rfl
  rw [← hold]
  unfold bindings
  rw [hknown, List.map_cons, Slots.get_put_self]

end ResolveState

/-! ## Outcomes -/

/-- One evaluation after another. Where the first has the value that it has by names, and leaves
    the slots as they are, only the second has to be compared. -/
theorem bind_slots {α β : Type} {slots : Slots} {f : Option (α × Slots)} {g : Option α}
    {next : α × Slots → Option (β × Slots)} {next' : α → Option β} (h : f = g.map (·, slots))
    (hnext : ∀ v, next (v, slots) = (next' v).map (·, slots)) :
    f.bind next = (g.bind next').map (·, slots) := by
  rw [h]
  cases g with
  | none => rfl
  | some v => exact hnext v

/-- Two runs of statements, one with slots and one by names, have the same outcome: the first slots
    are as they were, and if no statement returned, slots and bindings are related. -/
inductive RunsAlike (bound : Nat) (slots : Slots) (P : Slots → Bindings → Prop) :
    Option (Option Value × Slots) → Option (Option Value × Bindings) → Prop where
  | failed : RunsAlike bound slots P none none
  | returned {slots' : Slots} {ρ : Bindings} (v : Value)
    (hslots : ∀ i < bound, slots'.get i = slots.get i) :
    RunsAlike bound slots P (some (some v, slots')) (some (some v, ρ))
  | ended {slots' : Slots} {ρ : Bindings} (hslots : ∀ i < bound, slots'.get i = slots.get i)
    (h : P slots' ρ) : RunsAlike bound slots P (some (none, slots')) (some (none, ρ))

namespace RunsAlike

variable {bound : Nat} {slots : Slots} {P Q : Slots → Bindings → Prop}
  {x : Option (Option Value × Slots)} {y : Option (Option Value × Bindings)}

theorem imp (h : RunsAlike bound slots P x y)
    (himp : ∀ slots' ρ, (∀ i < bound, slots'.get i = slots.get i) → P slots' ρ → Q slots' ρ) :
    RunsAlike bound slots Q x y := by
  cases h with
  | failed => exact .failed
  | returned v hslots => exact .returned v hslots
  | ended hslots h => exact .ended hslots (himp _ _ hslots h)

/-- Other slots to start from, and a smaller bound. -/
theorem restrict {bound' : Nat} {slots' : Slots} (h : RunsAlike bound' slots' P x y)
    (hbound : bound ≤ bound') (hslots : ∀ i < bound, slots'.get i = slots.get i) :
    RunsAlike bound slots P x y := by
  cases h with
  | failed => exact .failed
  | returned v h =>
    exact .returned v fun i hi => (h i (Nat.lt_of_lt_of_le hi hbound)).trans (hslots i hi)
  | ended h hp =>
    exact .ended (fun i hi => (h i (Nat.lt_of_lt_of_le hi hbound)).trans (hslots i hi)) hp

/-- An expression before a run. -/
theorem eval {α : Type} {f : Option (α × Slots)} {g : Option α}
    {next : α × Slots → Option (Option Value × Slots)}
    {next' : α → Option (Option Value × Bindings)} (h : f = g.map (·, slots))
    (hnext : ∀ v, RunsAlike bound slots P (next (v, slots)) (next' v)) :
    RunsAlike bound slots P (f.bind next) (g.bind next') := by
  rw [h]
  cases g with
  | none => exact .failed
  | some v => exact hnext v

/-- One run after another. -/
theorem orReturn {next : Slots → Option (Option Value × Slots)}
    {next' : Bindings → Option (Option Value × Bindings)} (h : RunsAlike bound slots P x y)
    (hnext : ∀ slots' ρ, (∀ i < bound, slots'.get i = slots.get i) → P slots' ρ →
      RunsAlike bound slots Q (next slots') (next' ρ)) :
    RunsAlike bound slots Q (ColumnQuery.orReturn x next) (ColumnQuery.orReturn y next') := by
  cases h with
  | failed => exact .failed
  | returned v hslots => exact .returned v hslots
  | ended hslots h => exact hnext _ _ hslots h

/-- A run with nothing after it, whose constants are forgotten. -/
theorem scope {env : Env} {ρ : Bindings} (h : RunsAlike bound slots P x y)
    (hρ : ∀ slots', (∀ i < bound, slots'.get i = slots.get i) → Q slots' ρ) :
    RunsAlike bound slots Q (ColumnQuery.orReturn x (Formula.exec env []))
      (y.bind fun r => some (r.1, ρ)) := by
  cases h with
  | failed => exact .failed
  | returned v hslots => exact .returned v hslots
  | ended hslots h =>
    unfold ColumnQuery.orReturn
    dsimp only [Option.bind_some]
    rw [Formula.exec]
    exact .ended hslots (hρ _ hslots)

/-- A test, and then one of two runs, with nothing after them. -/
theorem branch {env : Env} {ρ : Bindings} {test : Formula} {c a : List Statement}
    {g : Option Value} {y z : Option (Option Value × Bindings)}
    (htest : test.evalWith env slots = g.map (·, slots))
    (hc : RunsAlike bound slots P (Formula.exec env c slots) y)
    (ha : RunsAlike bound slots P (Formula.exec env a slots) z)
    (hρ : ∀ slots', (∀ i < bound, slots'.get i = slots.get i) → Q slots' ρ) :
    RunsAlike bound slots Q (Formula.exec env [.branch test c a] slots)
      (g.bind fun v => if v.truthy then y.bind fun r => some (r.1, ρ)
        else z.bind fun r => some (r.1, ρ)) := by
  rw [Formula.exec_branch]
  refine .eval htest fun v => ?_
  dsimp only
  split
  · exact hc.scope hρ
  · exact ha.scope hρ

/-- A run whose constants are forgotten by name only. -/
theorem forget (h : RunsAlike bound slots P x y) (ρ : Bindings) :
    RunsAlike bound slots (fun _ _ => True) x (y.bind fun r => some (r.1, ρ)) := by
  cases h with
  | failed => exact .failed
  | returned v hslots => exact .returned v hslots
  | ended hslots _ => exact .ended hslots trivial

theorem value_eq (h : RunsAlike bound slots P x y) :
    x.map (·.1.getD .null) = y.map (·.1.getD .null) := by
  cases h <;> rfl

end RunsAlike

/-! ## Both evaluations agree -/

namespace Lexical

variable {env : Env} {ρ : Bindings}

theorem value_slotless {n : Node} (hn : ∀ name, n ≠ .identifier name) {f : Formula}
    (hf : f.Slotless) : value env ρ n f = f.eval env := by
  cases f with
  | literal _ | column _ _ | dictionaryEq _ _ _ _ | op _ =>
    cases n with
    | identifier name => exact absurd rfl (hn name)
    | _ => simp only [value]
  | _ => cases hf

theorem value_member {object property : Node} {computed : Bool} {o p : Formula}
    (hname : computed = false → ∀ name, property ≠ .identifier name) :
    value env ρ (.member object property computed) (.member o p) = (do
      let v ← value env ρ object o
      let key ← value env ρ property p
      return v.member key) := by
  rw [value]
  exact fun name hproperty hcomputed => hname hcomputed name hproperty

theorem statement_of_isExpression {n : Node} (hn : n.isExpression = true) (f : Formula) :
    statement env ρ n [.expression f] = (do
      let _ ← value env ρ n f
      return (none, ρ)) := by
  cases n with
  | declaration _ _ | returns _ | branch _ _ _ | block _ => cases hn
  | _ => simp only [statement]

theorem body_of_isExpression {n : Node} (hn : n.isExpression = true) (f : Formula) :
    body env n f = value env [] n f := by
  cases n with
  | block _ => cases hn
  | _ => rfl

end Lexical

namespace Resolve

open ResolveState

variable {ctx : ResolveContext} {site : Site} {s t : ResolveState}

theorem slotless_of_textEquality {l r f : Formula} (h : TextEquality l r f) : f.Slotless := by
  obtain ⟨t, c, s, negated, -, ⟨key, rfl⟩ | rfl⟩ := h
  · trivial
  · trivial

/-- What a part evaluates to by names is what its formulas evaluate to with slots. -/
def Part.ByName (s t : ResolveState) : Part → Prop
  | expression n e => ∀ env slots,
    e.1.evalWith env slots = (Lexical.value env (s.bindings slots) n e.1).map (·, slots)
  | expressions ns es => ∀ env slots, Formula.evalList env (es.map (·.1)) slots
    = (Lexical.values env (s.bindings slots) ns (es.map (·.1))).map (·, slots)
  | properties ps es => ∀ env slots,
    Formula.evalEntries env (es.map fun p => (p.1, p.2.1)) slots
      = (Lexical.entries env (s.bindings slots) ps (es.map fun p => (p.1, p.2.1))).map (·, slots)
  | operands _ _ _ => True
  | statement n r => r.1.length = n.width ∧ (s.Bounded → s.locals ≠ [] → ∀ env slots,
    RunsAlike s.nextSlot slots (fun slots' ρ => ρ = t.bindings slots')
      (Formula.exec env r.1 slots) (Lexical.statement env (s.bindings slots) n r.1))
  | branch n r => s.Bounded → ∀ env slots,
    RunsAlike s.nextSlot slots (fun _ _ => True) (Formula.exec env r.1 slots)
      (Lexical.statement env (s.bindings slots) n (branchStatements n r.1))
  | statements ns r => s.Bounded → s.locals ≠ [] → ∀ env slots,
    RunsAlike s.nextSlot slots (fun slots' ρ => ρ = t.bindings slots')
      (Formula.exec env r.1 slots) (Lexical.statements env (s.bindings slots) ns r.1)
  | declarations ds r => r.length = ds.length ∧ (s.Bounded → s.locals ≠ [] → ∀ env slots,
    RunsAlike s.nextSlot slots (fun slots' ρ => ρ = t.bindings slots')
      (Formula.exec env (r.map (·.1)) slots)
      ((Lexical.declarations env (s.bindings slots) ds (r.map (·.1))).map (none, ·)))
  | body n e => s.locals = [] → ∀ env slots,
    (e.1.evalWith env slots).map (·.1) = Lexical.body env n e.1

theorem byName_slotless {n : Node} {e : Formula × Node} (hn : ∀ name, n ≠ .identifier name)
    (he : e.1.Slotless) : (Part.expression n e).ByName s t := by
  intro env slots
  rw [he.evalWith_eq, Lexical.value_slotless hn he]

theorem Derives.byName {part : Part} (h : Derives ctx site s part t) : part.ByName s t := by
  induction h with
  | literal v => exact byName_slotless (fun _ => nofun) trivial
  | @identifier site s name e he =>
    intro env slots
    rcases formula_of_identifier he with ⟨slot, hslot, -, hf⟩ | ⟨hnone, hcell⟩
    · rw [hf, Formula.evalWith, Lexical.value, lookup_bindings, hslot]
      rfl
    · rw [hcell.isReference.slotless.evalWith_eq, Lexical.value, lookup_bindings, hnone]
      rfl
  | column he => exact byName_slotless (fun _ => nofun) (isReference_column he).slotless
  | parameter he => exact byName_slotless (fun _ => nofun) (isReference_parameter he).slotless
  | owned _ _ _ he => exact byName_slotless (fun _ => nofun) (isReference_owned he).slotless
  | resolvedKey _ _ _ _ _ he _ => exact byName_slotless (fun _ => nofun) (isReference_owned he).slotless
  | dotted _ _ ih =>
    intro env slots
    rw [Formula.evalWith, Lexical.value]
    exact bind_slots (ih env slots) fun v => rfl
  | member _ hname ho _ iho ihp =>
    intro env slots
    have hp := ihp env slots
    rw [bindings_of_locals ho.declared.locals_eq] at hp
    rw [Formula.evalWith, Lexical.value_member hname]
    exact bind_slots (iho env slots) fun v => bind_slots hp fun key => rfl
  | scalar _ _ _ ih =>
    intro env slots
    rw [Formula.evalWith, Lexical.value]
    exact bind_slots (ih env slots) fun vs => rfl
  | aggregate _ _ _ _ _ _ => exact byName_slotless (fun _ => nofun) trivial
  | window _ _ _ _ _ _ => exact byName_slotless (fun _ => nofun) trivial
  | unary _ ih =>
    intro env slots
    rw [Formula.evalWith, Lexical.value]
    exact bind_slots (ih env slots) fun v => rfl
  | @binary site s t s' op l r el er hl _ ihl ihr =>
    rcases binary_cases op el.1 er.1 with hbinary | hequality
    · intro env slots
      have hr := ihr env slots
      rw [bindings_of_locals hl.declared.locals_eq] at hr
      rw [hbinary, Formula.evalWith, Lexical.value]
      exact bind_slots (ihl env slots) fun v => bind_slots hr fun w => rfl
    · exact byName_slotless (fun _ => nofun) (slotless_of_textEquality hequality)
  | logical hl _ ihl ihr =>
    intro env slots
    have hr := ihr env slots
    rw [bindings_of_locals hl.declared.locals_eq] at hr
    rw [Formula.evalWith, Lexical.value]
    refine bind_slots (ihl env slots) fun v => ?_
    dsimp only
    split
    · rfl
    · exact hr
  | conditional ht hc _ iht ihc iha =>
    intro env slots
    have hc' := ihc env slots
    have ha' := iha env slots
    rw [bindings_of_locals ht.declared.locals_eq] at hc'
    rw [bindings_of_locals (ht.declared.trans hc.declared).locals_eq] at ha'
    rw [Formula.evalWith, Lexical.value]
    refine bind_slots (iht env slots) fun v => ?_
    dsimp only
    split
    · exact hc'
    · exact ha'
  | array _ ih =>
    intro env slots
    rw [Formula.evalWith, Lexical.value]
    exact bind_slots (ih env slots) fun vs => rfl
  | object _ ih =>
    intro env slots
    rw [Formula.evalWith, Lexical.value]
    exact bind_slots (ih env slots) fun es => rfl
  | noExpressions =>
    intro env slots
    rw [List.map_nil, Formula.evalList, Lexical.values]
    · rfl
    · nofun
  | moreExpressions he _ ihe ihes =>
    intro env slots
    have hes := ihes env slots
    rw [bindings_of_locals he.declared.locals_eq] at hes
    rw [List.map_cons, Formula.evalList, Lexical.values]
    exact bind_slots (ihe env slots) fun v => bind_slots hes fun vs => rfl
  | noProperties =>
    intro env slots
    rw [List.map_nil, Formula.evalEntries, Lexical.entries]
    · rfl
    · nofun
  | moreProperties he _ ihe ihes =>
    intro env slots
    have hes := ihes env slots
    rw [bindings_of_locals he.declared.locals_eq] at hes
    rw [List.map_cons, Formula.evalEntries, Lexical.entries]
    exact bind_slots (ihe env slots) fun v => bind_slots hes fun es => rfl
  | noOperands | field _ _ _ _ | constant _ _ _ _ _ => exact trivial
  | @declaration site s s' kind ds more _ ih =>
    refine ⟨(List.length_map _).trans ih.1, fun hbounded hne env slots => ?_⟩
    rw [Lexical.statement]
    exact ih.2 hbounded hne env slots
  | returnsNothing =>
    refine ⟨rfl, fun _ _ env slots => ?_⟩
    rw [Formula.exec, Lexical.statement]
    · exact .returned _ fun _ _ => rfl
    · nofun
  | returns _ ih =>
    refine ⟨rfl, fun _ _ env slots => ?_⟩
    rw [Formula.exec, Lexical.statement]
    exact .eval (ih env slots) fun v => .returned v fun _ _ => rfl
  | @branchAlone site s t s' test c e rc ht hc iht ihc =>
    refine ⟨rfl, fun hbounded _ env slots => ?_⟩
    have hc' := ihc (ht.declared.bounded hbounded) env slots
    rw [bindings_of_locals ht.declared.locals_eq] at hc'
    have hnothing : RunsAlike s.nextSlot slots (fun _ _ => True) (Formula.exec env [] slots)
        (Lexical.alternate env (s.bindings slots) none []) := by
      rw [Formula.exec, Lexical.alternate]
      exact .ended (fun _ _ => rfl) trivial
    rw [Lexical.statement]
    refine .branch (iht env slots) (hc'.restrict ht.declared.1 fun _ _ => rfl) hnothing ?_
    exact hbounded.bindings_after (ht.declared.trans hc.declared)
  | @branchElse site s t u s' test c a e rc ra ht hc ha iht ihc iha =>
    refine ⟨rfl, fun hbounded _ env slots => ?_⟩
    have hc' := ihc (ht.declared.bounded hbounded) env slots
    rw [bindings_of_locals ht.declared.locals_eq] at hc'
    have htc := ht.declared.trans hc.declared
    have ha' := iha (htc.bounded hbounded) env slots
    rw [bindings_of_locals htc.locals_eq] at ha'
    rw [Lexical.statement, Lexical.alternate]
    refine .branch (iht env slots) (hc'.restrict ht.declared.1 fun _ _ => rfl)
      (ha'.restrict htc.1 fun _ _ => rfl) ?_
    exact hbounded.bindings_after (htc.trans ha.declared)
  | @block site s t nodes r hss ih =>
    refine ⟨rfl, fun hbounded _ env slots => ?_⟩
    rw [Formula.exec_block, Lexical.statement]
    exact .scope (ih hbounded (List.cons_ne_nil _ _) env slots)
      (hbounded.bindings_after hss.declared.block)
  | @evaluated site s s' n e he ih =>
    have hwidth : n.width = 1 := by
      cases n with
      | declaration _ _ => cases he.isExpression
      | _ => rfl
    refine ⟨hwidth.symm, fun _ _ env slots => ?_⟩
    rw [Formula.exec, Lexical.statement_of_isExpression he.isExpression]
    refine .eval (ih env slots) fun v => ?_
    dsimp only
    rw [Formula.exec]
    exact .ended (fun _ _ => rfl) (bindings_of_locals he.declared.locals_eq slots).symm
  | branchBlock _ ih =>
    intro hbounded env slots
    rw [branchStatements, Lexical.statement]
    exact (ih hbounded (List.cons_ne_nil _ _) env slots).forget _
  | branchStatement hblock _ ih =>
    intro hbounded env slots
    rw [branchStatements_of_ne_block hblock]
    exact (ih.2 hbounded (List.cons_ne_nil _ _) env slots).imp fun _ _ _ _ => trivial
  | noStatements =>
    intro _ _ env slots
    dsimp only
    rw [Formula.exec, Lexical.statements]
    exact .ended (fun _ _ => rfl) rfl
  | @moreStatements site s t s' n ns r more hn hns ihn ihns =>
    intro hbounded hne env slots
    have hwidth : r.1.length = n.width := ihn.1
    rw [Formula.exec_append, Lexical.statements, ← hwidth, List.take_left, List.drop_left]
    refine .orReturn (ihn.2 hbounded hne env slots) fun slots' ρ hslots hρ => ?_
    subst hρ
    exact (ihns (hn.declared.bounded hbounded) (hn.declared.locals_ne hne) env slots').restrict
      hn.declared.1 hslots
  | noDeclarations =>
    refine ⟨rfl, fun _ _ env slots => ?_⟩
    rw [List.map_nil, Formula.exec, Lexical.declarations]
    · exact .ended (fun _ _ => rfl) rfl
    · nofun
  | @moreDeclarations site s t s' name init ds e more hinit _ ihinit ihds =>
    refine ⟨congrArg Nat.succ ihds.1, fun hbounded hne env slots => ?_⟩
    have hbounded' := hinit.declared.bounded hbounded
    have hne' := hinit.declared.locals_ne hne
    have hdeclared := declared_declare t name
    rw [List.map_cons, Formula.exec, Lexical.declarations, Option.bind_eq_bind,
      Option.bind_eq_bind, Option.map_bind]
    refine .eval (ihinit env slots) fun v => ?_
    have hds := ihds.2 (hdeclared.bounded hbounded') (hdeclared.locals_ne hne') env
      (slots.put t.nextSlot v)
    rw [bindings_declare hbounded' hne', bindings_of_locals hinit.declared.locals_eq] at hds
    refine hds.restrict (Nat.le_trans hinit.declared.1 hdeclared.1) fun i hi => ?_
    exact Slots.get_put_of_ne slots _ v (Nat.ne_of_lt (Nat.lt_of_lt_of_le hi hinit.declared.1))
  | @bodyBlock site s t nodes r _ ih =>
    intro hlocals env slots
    have hbounded : s.enter.Bounded := fun b hb => by
      replace hb : b ∈ s.known := hb
      rw [known_eq_nil hlocals] at hb
      cases hb
    have hbindings : s.enter.bindings slots = [] := bindings_eq_nil hlocals slots
    have hsame := ih hbounded (List.cons_ne_nil _ _) env slots
    rw [hbindings] at hsame
    rw [Formula.evalWith, Lexical.body, ← hsame.value_eq]
    cases Formula.exec env r.1 slots <;> rfl
  | @bodyExpression site s s' n e he ih =>
    intro hlocals env slots
    have heval := ih env slots
    rw [bindings_eq_nil hlocals] at heval
    rw [heval, Lexical.body_of_isExpression he.isExpression, Option.map_map]
    exact congrFun Option.map_id _

end Resolve

/-- A resolved expression has one value in an environment, whatever the slots hold at the start. If
    the expression is given by a tree, this is the value of its body by names, in which a constant
    has the value of the innermost declaration of its name before it. -/
theorem lexical_of_resolve {ctx : ResolveContext} {exprs : List (String × ExprSpec)}
    {r : Resolution} (h : resolve ctx exprs = .ok r) {i : Nat} {name : String} {spec : ExprSpec}
    (hspec : exprs[i]? = some (name, spec)) :
    ∃ f tree, r.exprs[i]? = some ⟨name, f, tree⟩ ∧
      (∀ env slots slots', (f.evalWith env slots).map (·.1) = (f.evalWith env slots').map (·.1)) ∧
      ∀ node, spec.innermost? = some node → ∃ site inner,
        spec.placed? ctx.tables.length none = some (site, inner) ∧
        ∀ env slots, (f.evalWith env slots).map (·.1) = Lexical.body env inner f := by
  obtain ⟨es, s, hnamed, rfl⟩ := resolve_eq_ok_iff.1 h
  obtain ⟨⟨f, tree⟩, t, t', he, hrun⟩ := Resolve.run_named_getElem hnamed hspec
  refine ⟨f, tree, he, fun env slots slots' => ?_, fun node hnode => ?_⟩
  · rcases Resolve.spec_cases hrun with ⟨-, ⟨g, -, rfl⟩ | ⟨-, v, rfl⟩⟩ | ⟨-, site, inner, tree', -, hbody⟩
    · rw [Formula.evalWith, Formula.evalWith, Option.map_map, Option.map_map]
      rfl
    · rw [Formula.evalWith, Formula.evalWith]
      rfl
    · exact (hbody.byName rfl env slots).trans (hbody.byName rfl env slots').symm
  · obtain ⟨site, inner, tree', hplaced, hbody⟩ := Resolve.derives_of_spec hnode hrun
    exact ⟨site, inner, hplaced, hbody.byName rfl⟩

/-- A declaration of one constant. -/
def Node.constant (name : String) (init : Node) : Node :=
  .declaration .const [(.name name, some init)]

/-- A constant that is declared again in a branch without braces, and in a block from itself. -/
def shadowing : Node :=
  .arrow [.name "d"] (.block [.constant "v" (.member (.identifier "d") (.identifier "x") false),
    .branch (.identifier "v") (.constant "v" (.literal (.number 5))) none,
    .block [.constant "v" (.binary .add (.identifier "v") (.identifier "v"))],
    .returns (some (.identifier "v"))])

theorem Resolve.Derives.declareOne {ctx : ResolveContext} {site : Site} {s t : ResolveState}
    {name : String} {init : Node} {e : Formula × Node}
    (h : Derives ctx site s (.expression init e) t) :
    Derives ctx site s (.statement (.constant name init)
      ([.assign t.nextSlot e.1], .constant name e.2)) (t.declare name) :=
  .declaration (.moreDeclarations h .noDeclarations)

theorem exists_resolve_shadowing :
    ∃ r, resolve numbered [("a", .tree shadowing)] = .ok r := by
  have hplaced : (ExprSpec.tree shadowing).placed? numbered.tables.length none
      = some (⟨Scope.bind [.name "d"] 1, none, false⟩, (Resolve.header 1 shadowing).2) := rfl
  obtain ⟨b, hb⟩ : ∃ b, Resolve.Derives numbered ⟨Scope.bind [.name "d"] 1, none, false⟩ .empty
      (.body (Resolve.header 1 shadowing).2 b) ⟨[], 3, [], []⟩ := by
    refine ⟨_, .bodyBlock (.moreStatements (.declareOne (.owned rfl (by nofun) rfl rfl))
      (.moreStatements (.branchAlone (.identifier rfl) (.branchStatement (by nofun)
          (.declareOne (.literal _))))
        (.moreStatements (.block (.moreStatements (.declareOne
            (.binary (.identifier rfl) (.identifier rfl))) .noStatements))
          (.moreStatements (.returns (.identifier rfl)) .noStatements))))⟩
  obtain ⟨tree, h⟩ := resolve_of_derives hplaced hb "a"
  exact ⟨_, h⟩

theorem lexical_shadowing : ∃ r f tree site inner,
    resolve numbered [("a", .tree shadowing)] = .ok r ∧ r.exprs[0]? = some ⟨"a", f, tree⟩ ∧
    (∀ env slots slots', (f.evalWith env slots).map (·.1) = (f.evalWith env slots').map (·.1)) ∧
    (ExprSpec.tree shadowing).placed? 1 none = some (site, inner) ∧
    ∀ env slots, (f.evalWith env slots).map (·.1) = Lexical.body env inner f := by
  obtain ⟨r, hr⟩ := exists_resolve_shadowing
  obtain ⟨f, tree, he, hslots, hbody⟩ := lexical_of_resolve hr (i := 0) rfl
  obtain ⟨site, inner, hplaced, hnames⟩ := hbody shadowing rfl
  exact ⟨r, f, tree, site, inner, hr, he, hslots, hplaced, hnames⟩

end ColumnQuery
