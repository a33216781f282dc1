/-
  Expressions resolved beside others.

  Expressions that are resolved together share the lists of calls, and nothing else: block
  constants and slots start anew with every expression. So an expression that resolves alone
  resolves beside any others (`Derives.beside`, by induction on the rules; `TakenBeside` is what is
  kept, and has a law for every way to put steps together). Where the lists hold calls of the
  others already, its own calls get other places, and a call that is the same as one that is there
  gets the place of that one. The formula beside the others is the formula alone with its
  references moved to these places, and the tree is the tree alone (`resolve_together`).
-/
import Mathlib.Data.List.Forall2
import ColumnQuery.Proofs.Formula.MapOps
import ColumnQuery.Proofs.Formula.Roots

namespace ColumnQuery

/-! ## The same call -/

theorem AggregateCall.equivalence_same : Equivalence AggregateCall.Same where
  refl c := ⟨rfl, Node.equivalence_sameList.refl c.key, Value.sameItems_refl c.params⟩
  symm h := ⟨h.1.symm, Node.equivalence_sameList.symm h.2.1, Value.sameItems_symm h.2.2⟩
  trans h h' := ⟨h.1.trans h'.1, Node.equivalence_sameList.trans h.2.1 h'.2.1,
    Value.sameItems_trans h.2.2 h'.2.2⟩

theorem WindowCall.equivalence_same : Equivalence WindowCall.Same where
  refl c := ⟨rfl, Node.equivalence_sameList.refl c.key, Value.sameItems_refl c.params, rfl⟩
  symm h := ⟨h.1.symm, Node.equivalence_sameList.symm h.2.1, Value.sameItems_symm h.2.2.1,
    h.2.2.2.symm⟩
  trans h h' := ⟨h.1.trans h'.1, Node.equivalence_sameList.trans h.2.1 h'.2.1,
    Value.sameItems_trans h.2.2.1 h'.2.2.1, h.2.2.2.trans h'.2.2.2⟩

theorem AggregateCall.sameAs_congr {c d : AggregateCall} (h : c.Same d) : c.sameAs = d.sameAs := by
  funext e
  rw [Bool.eq_iff_iff, sameAs_iff, sameAs_iff]
  exact ⟨fun he => equivalence_same.trans he h,
    fun he => equivalence_same.trans he (equivalence_same.symm h)⟩

theorem WindowCall.sameAs_congr {c d : WindowCall} (h : c.Same d) : c.sameAs = d.sameAs := by
  funext e
  rw [Bool.eq_iff_iff, sameAs_iff, sameAs_iff]
  exact ⟨fun he => equivalence_same.trans he h,
    fun he => equivalence_same.trans he (equivalence_same.symm h)⟩

namespace OperatorCall

/-- One and the same call, of either kind. -/
def Same : OperatorCall → OperatorCall → Prop
  | .aggregate c, .aggregate d => c.Same d
  | .window c, .window d => c.Same d
  | _, _ => False

theorem Same.refl (c : OperatorCall) : c.Same c := by
  cases c with
  | aggregate c => exact AggregateCall.equivalence_same.refl c
  | window c => exact WindowCall.equivalence_same.refl c

/-- The call at a place of lists of calls. -/
def at? (aggregates : List AggregateCall) (windows : List WindowCall) :
    OpRef → Option OperatorCall
  | .aggregate i => (aggregates[i]?).map .aggregate
  | .window i => (windows[i]?).map .window

end OperatorCall

/-! ## Places among more calls -/

namespace ResolveState

variable {s s' t t' : ResolveState} {c d : OperatorCall} {ref : OpRef}

/-- The call at a place. -/
def call? (s : ResolveState) (ref : OpRef) : Option OperatorCall :=
  OperatorCall.at? s.aggregates s.windows ref

theorem placeOf_congr (h : c.Same d) (s : ResolveState) : s.placeOf c = s.placeOf d := by
  cases c with
  | aggregate c =>
    cases d with
    | aggregate d => rw [placeOf, placeOf, AggregateCall.sameAs_congr h]
    | window d => cases h
  | window c =>
    cases d with
    | aggregate d => cases h
    | window d => rw [placeOf, placeOf, WindowCall.sameAs_congr h]

theorem has_congr (h : c.Same d) (s : ResolveState) : s.Has c ↔ s.Has d := by
  cases c with
  | aggregate c =>
    cases d with
    | aggregate d => rw [Has, Has, AggregateCall.sameAs_congr h]
    | window d => cases h
  | window c =>
    cases d with
    | aggregate d => cases h
    | window d => rw [Has, Has, WindowCall.sameAs_congr h]

/-- The place of a registered call is that of a call that is the same. -/
theorem call?_placeOf (h : s.Has c) : ∃ d, s.call? (s.placeOf c) = some d ∧ d.Same c := by
  cases c with
  | aggregate c =>
    obtain ⟨d, hd, hsame⟩ := List.any_eq_true.1 h
    have hlt := List.findIdx_lt_length_of_exists ⟨d, hd, hsame⟩
    refine ⟨.aggregate s.aggregates[s.aggregates.findIdx c.sameAs], ?_, ?_⟩
    · exact congrArg (Option.map OperatorCall.aggregate) (List.getElem?_eq_getElem hlt)
    · exact AggregateCall.sameAs_iff.1 List.findIdx_getElem
  | window c =>
    obtain ⟨d, hd, hsame⟩ := List.any_eq_true.1 h
    have hlt := List.findIdx_lt_length_of_exists ⟨d, hd, hsame⟩
    refine ⟨.window s.windows[s.windows.findIdx c.sameAs], ?_, ?_⟩
    · exact congrArg (Option.map OperatorCall.window) (List.getElem?_eq_getElem hlt)
    · exact WindowCall.sameAs_iff.1 List.findIdx_getElem

theorem has_of_call? (h : s.call? ref = some c) : s.Has c := by
  cases ref with
  | aggregate i =>
    obtain ⟨a, ha, rfl⟩ := Option.map_eq_some_iff.1 h
    exact List.any_eq_true.2 ⟨a, List.mem_of_getElem? ha, a.sameAs_refl⟩
  | window i =>
    obtain ⟨w, hw, rfl⟩ := Option.map_eq_some_iff.1 h
    exact List.any_eq_true.2 ⟨w, List.mem_of_getElem? hw, w.sameAs_refl⟩

theorem has_of_has_register (h : (s.register c).Has d) : s.Has d ∨ c.Same d := by
  cases c with
  | aggregate c =>
    cases d with
    | aggregate d => exact (any_of_any_addUnless h).imp_right AggregateCall.sameAs_iff.1
    | window d => exact .inl h
  | window c =>
    cases d with
    | aggregate d => exact .inl h
    | window d => exact (any_of_any_addUnless h).imp_right WindowCall.sameAs_iff.1

theorem Later.has (h : s.Later t) (hc : s.Has c) : t.Has c := by
  have hany : ∀ {α : Type} {p : α → Bool} {xs ys : List α}, xs <+: ys → xs.any p = true →
      ys.any p = true := by
    intro α p xs ys hprefix hany
    obtain ⟨x, hx, hp⟩ := List.any_eq_true.1 hany
    exact List.any_eq_true.2 ⟨x, hprefix.subset hx, hp⟩
  cases c with
  | aggregate c => exact hany h.aggregates hc
  | window c => exact hany h.windows hc

/-- All calls of a state are there in another one. -/
def CallsIn (s t : ResolveState) : Prop := ∀ c, s.Has c → t.Has c

theorem CallsIn.register (h : s.CallsIn t) (c : OperatorCall) :
    (s.register c).CallsIn (t.register c) := by
  intro d hd
  rcases has_of_has_register hd with hd | hsame
  · exact (later_register t c).has (h d hd)
  · exact (has_congr hsame _).1 (has_register t c)

/-- References to the calls of a state are moved to their places in another one. -/
def Moves (place : OpRef → OpRef) (s t : ResolveState) : Prop :=
  ∀ c, s.Has c → place (s.placeOf c) = t.placeOf c

/-- The place in another state of the call at a place. -/
def toPlace (s t : ResolveState) (ref : OpRef) : OpRef :=
  match s.call? ref with
  | some c => t.placeOf c
  | none => ref

theorem moves_toPlace (s t : ResolveState) : Moves (s.toPlace t) s t := by
  intro c hc
  obtain ⟨d, hd, hsame⟩ := call?_placeOf hc
  unfold toPlace
  rw [hd]
  exact placeOf_congr hsame t

/-- What moves the references of later states moves those of earlier ones. -/
theorem Moves.earlier {place : OpRef → OpRef} (h : Moves place s' t') (hs : s.Later s')
    (ht : t.Later t') (hcalls : s.CallsIn t) : Moves place s t := by
  intro c hc
  rw [← hs.placeOf_eq hc, ← ht.placeOf_eq (hcalls c hc)]
  exact h c (hs.has hc)

/-- A state with the same block constants and slots, and with all calls of another one. -/
structure Beside (s t : ResolveState) : Prop where
  locals : s.locals = t.locals
  nextSlot : s.nextSlot = t.nextSlot
  calls : s.CallsIn t

theorem Beside.enter (h : s.Beside t) : s.enter.Beside t.enter :=
  ⟨congrArg ([] :: ·) h.locals, h.nextSlot, h.calls⟩

theorem Beside.leave (h : s.Beside t) : s.leave.Beside t.leave :=
  ⟨congrArg (·.drop 1) h.locals, h.nextSlot, h.calls⟩

theorem Beside.declare (h : s.Beside t) (name : String) :
    (s.declare name).Beside (t.declare name) := by
  refine ⟨?_, congrArg (· + 1) h.nextSlot, h.calls⟩
  unfold ResolveState.declare
  rw [h.locals, h.nextSlot]

theorem Beside.register (h : s.Beside t) (c : OperatorCall) :
    (s.register c).Beside (t.register c) := by
  refine ⟨?_, ?_, h.calls.register c⟩
  · rw [locals_register, locals_register, h.locals]
  · rw [nextSlot_register, nextSlot_register, h.nextSlot]

theorem Beside.local? (h : s.Beside t) (name : String) : s.local? name = t.local? name := by
  rw [ResolveState.local?, ResolveState.local?, h.locals]

theorem Beside.isLocal (h : s.Beside t) (name : String) : s.isLocal name = t.isLocal name := by
  rw [ResolveState.isLocal, ResolveState.isLocal, h.local?]

theorem moves_register {place : OpRef → OpRef}
    (h : Moves place (s.register c) (t.register c)) : place (s.placeOf c) = t.placeOf c := by
  rw [← placeOf_register s, ← placeOf_register t]
  exact h c (has_register s c)

/-! ## Steps beside others -/

/-- A step is taken from any state beside the first to some state beside the last, with references
    moved to where the calls are there. -/
def TakenBeside (step : (OpRef → OpRef) → ResolveState → ResolveState → Prop)
    (s s' : ResolveState) : Prop :=
  ∀ t, s.Beside t → ∃ t', s'.Beside t' ∧ t.Later t' ∧ ∀ place, Moves place s' t' → step place t t'

namespace TakenBeside

variable {step next : (OpRef → OpRef) → ResolveState → ResolveState → Prop} {s'' : ResolveState}

theorem stay (h : ∀ place t, s.Beside t → step place t t) : TakenBeside step s s :=
  fun t ht => ⟨t, ht, .refl t, fun place _ => h place t ht⟩

theorem imp (h : TakenBeside step s s')
    (himp : ∀ place t t', s.Beside t → step place t t' → next place t t') :
    TakenBeside next s s' := by
  intro t ht
  obtain ⟨t', ht', hlater, hstep⟩ := h t ht
  exact ⟨t', ht', hlater, fun place hplace => himp place t t' ht (hstep place hplace)⟩

/-- One step after another: what moves the references after both moves those in between. -/
theorem andThen (h : TakenBeside step s s') (h' : TakenBeside next s' s'') (hlater : s'.Later s'') :
    TakenBeside (fun place t t'' => ∃ t', step place t t' ∧ next place t' t'') s s'' := by
  intro t ht
  obtain ⟨t', ht', hlater₁, hstep⟩ := h t ht
  obtain ⟨t'', ht'', hlater₂, hnext⟩ := h' t' ht'
  exact ⟨t'', ht'', hlater₁.trans hlater₂, fun place hplace =>
    ⟨t', hstep place (hplace.earlier hlater hlater₂ ht'.calls), hnext place hplace⟩⟩

/-- A step in a block. -/
theorem inBlock (h : TakenBeside step s.enter s') :
    TakenBeside (fun place t t' => ∃ u, step place t.enter u ∧ t' = u.leave) s s'.leave := by
  intro t ht
  obtain ⟨u, hu, hlater, hstep⟩ := h t.enter ht.enter
  exact ⟨u.leave, hu.leave, ⟨hlater.aggregates, hlater.windows⟩, fun place hplace =>
    ⟨u, hstep place hplace, rfl⟩⟩

/-- A step after which a constant is declared, in the same slot. -/
theorem declare (h : TakenBeside step s s') (name : String) :
    TakenBeside (fun place t t' => ∃ u, step place t u ∧ u.nextSlot = s'.nextSlot ∧
      t' = u.declare name) s (s'.declare name) := by
  intro t ht
  obtain ⟨u, hu, hlater, hstep⟩ := h t ht
  exact ⟨u.declare name, hu.declare name, ⟨hlater.aggregates, hlater.windows⟩,
    fun place hplace => ⟨u, hstep place hplace, hu.nextSlot.symm, rfl⟩⟩

/-- A step that leaves all states as they are, after which a call is registered. -/
theorem register (h : TakenBeside step s s) (hstay : ∀ place t t', step place t t' → t' = t)
    (c : OperatorCall) :
    TakenBeside (fun place t t' => step place t t ∧ place (s.placeOf c) = t.placeOf c ∧
      t' = t.register c) s (s.register c) := by
  intro t ht
  obtain ⟨t', ht', -, hstep⟩ := h t ht
  obtain rfl := hstay _ t t' (hstep _ (moves_toPlace s t'))
  exact ⟨t'.register c, ht'.register c, later_register t' c, fun place hplace =>
    ⟨hstep place (hplace.earlier (later_register s c) (later_register t' c) ht'.calls),
      moves_register hplace, rfl⟩⟩

end TakenBeside

end ResolveState

namespace Resolve

open ResolveState

variable {ctx : ResolveContext} {site : Site} {s s' t t' : ResolveState}

/-! ## References beside others -/

theorem identifier_beside (h : s.Beside t) (node : Node) (name : String) :
    identifier ctx site node name s = identifier ctx site node name t := by
  unfold identifier
  rw [h.local?]

theorem ownerOf_beside (h : s.Beside t) (object : Node) :
    ownerOf site s object = ownerOf site t object := by
  unfold ownerOf
  split
  next => rw [h.isLocal]
  next => rfl

theorem callee_beside (h : s.Beside t) (node f : Node) : callee node f s = callee node f t := by
  unfold callee
  split
  next => rw [h.isLocal]
  next => rw [h.isLocal]
  next => rfl
  next => rfl
  next => rfl

theorem mapOps_identifier {place : OpRef → OpRef} {name : String} {e : Formula × Node}
    (h : identifier ctx site (.identifier name) name s = .ok e) : e.1.mapOps place = e.1 := by
  rcases formula_of_identifier h with ⟨slot, -, -, hslot⟩ | ⟨-, hcell⟩
  · rw [hslot]
    rfl
  · exact Formula.mapOps_of_isReference hcell.isReference

/-! ## Parts beside others -/

/-- The part with its references to calls moved. -/
def Part.mapOps (place : OpRef → OpRef) : Part → Part
  | expression node e => expression node (e.1.mapOps place, e.2)
  | expressions nodes es => expressions nodes (es.map fun e => (e.1.mapOps place, e.2))
  | properties ps es => properties ps (es.map fun e => (e.1, e.2.1.mapOps place, e.2.2))
  | operands fields nodes o =>
    operands fields nodes ⟨o.fields.map fun e => (e.1.mapOps place, e.2), o.params⟩
  | statement node r => statement node (Formula.mapOpsBody place r.1, r.2)
  | branch node r => branch node (Formula.mapOpsBody place r.1, r.2)
  | statements nodes r => statements nodes (Formula.mapOpsBody place r.1, r.2)
  | declarations ds r =>
    declarations ds (r.map fun d => (Formula.mapOpsStatement place d.1, d.2))
  | body node e => body node (e.1.mapOps place, e.2)

theorem map_fst_moved (place : OpRef → OpRef) (es : List (Formula × Node)) :
    (es.map fun e => (e.1.mapOps place, e.2)).map (·.1)
      = Formula.mapOpsList place (es.map (·.1)) := by
  rw [Formula.mapOpsList_eq, List.map_map, List.map_map]
  rfl

theorem map_snd_moved (place : OpRef → OpRef) (es : List (Formula × Node)) :
    (es.map fun e => (e.1.mapOps place, e.2)).map (·.2) = es.map (·.2) := by
  rw [List.map_map]
  rfl

/-- A constant resolves to itself beside others, and leaves the state there as it is. -/
theorem Derives.of_constant {place : OpRef → OpRef} {n : Node} {p : Formula × Node} {v : Value}
    (h : Derives ctx site t ((Part.expression n p).mapOps place) t')
    (hv : p.1.constant? = some v) : t' = t ∧ Derives ctx site t (.expression n p) t' := by
  have hsame : (p.1.mapOps place, p.2) = p := Prod.ext (Formula.mapOps_of_constant? hv) rfl
  rw [Part.mapOps, hsame] at h
  exact ⟨h.unchanged trivial (Formula.opFree_of_constant? hv), h⟩

/-- The arguments of an operator resolve to themselves beside others, and leave the state there as
    it is. -/
theorem Derives.of_operands {place : OpRef → OpRef} {fields : Nat} {nodes : List Node}
    {o : Operands} (h : Derives ctx site t ((Part.operands fields nodes o).mapOps place) t')
    (hsite : site.inOperator = true) (hfree : (Part.operands fields nodes o).OpFree) :
    t' = t ∧ Derives ctx site t (.operands fields nodes o) t' := by
  have hfields : (o.fields.map fun e => (e.1.mapOps place, e.2)) = o.fields := by
    refine (List.map_congr_left fun e he => ?_).trans (List.map_id _)
    exact Prod.ext (Formula.mapOps_of_opFree e.1 (hfree e he)) rfl
  rw [Part.mapOps, hfields] at h
  exact ⟨h.unchanged_operands hsite, h⟩

/-- A part that resolves alone resolves beside others, with its references moved to where its calls
    are there. -/
theorem Derives.beside {part : Part} (h : Derives ctx site s part s') :
    TakenBeside (fun place t t' => Derives ctx site t (part.mapOps place) t') s s' := by
  induction h with
  | literal v => exact .stay fun _ _ _ => .literal v
  | @identifier site s name e he =>
    refine .stay fun place t ht => .identifier ?_
    rw [← identifier_beside ht, mapOps_identifier he]
    exact he
  | column he =>
    refine .stay fun place t _ => .column ?_
    rw [Formula.mapOps_of_isReference (isReference_column he)]
    exact he
  | parameter he =>
    refine .stay fun place t _ => .parameter ?_
    rw [Formula.mapOps_of_isReference (isReference_parameter he)]
    exact he
  | owned howner hother hkey he =>
    refine .stay fun place t ht => .owned ((ownerOf_beside ht _).symm.trans howner) hother hkey ?_
    rw [Formula.mapOps_of_isReference (isReference_owned he)]
    exact he
  | resolvedKey howner hother hplain _ hv he ih =>
    refine ih.imp fun place t t' ht hp => ?_
    obtain ⟨rfl, hkey⟩ := hp.of_constant hv
    refine .resolvedKey ((ownerOf_beside ht _).symm.trans howner) hother hplain hkey hv ?_
    rw [Formula.mapOps_of_isReference (isReference_owned he)]
    exact he
  | dotted howner _ ih =>
    exact ih.imp fun place t t' ht ho => .dotted ((ownerOf_beside ht _).symm.trans howner) ho
  | member howner hname _ hp iho ihp =>
    refine (iho.andThen ihp hp.later).imp fun place t t' ht htaken => ?_
    obtain ⟨u, ho, hp⟩ := htaken
    exact .member ((ownerOf_beside ht _).symm.trans howner) hname ho hp
  | @scalar site s s' f args g as hcallee hadmits _ ih =>
    refine ih.imp fun place t t' ht has => ?_
    have hcall := Derives.scalar (f := f) (callee_beside ht _ f ▸ hcallee) hadmits has
    rw [map_fst_moved, map_snd_moved] at hcall
    exact hcall
  | @aggregate site s f args a o hcallee hallowed hplace hcount ho ih =>
    have hfree := ho.opFree rfl
    refine (ih.register (fun _ _ _ ho' => (ho'.of_operands rfl hfree).1)
      (o.aggregateCall site.frame a)).imp fun place t t' ht htaken => ?_
    obtain ⟨ho', hmoved, rfl⟩ := htaken
    have hcall := Derives.aggregate (f := f) (callee_beside ht _ f ▸ hcallee) hallowed hplace hcount
      (ho'.of_operands rfl hfree).2
    rw [← hmoved] at hcall
    exact hcall
  | @window site s f args w o hcallee hallowed hplace hcount ho ih =>
    have hfree := ho.opFree rfl
    refine (ih.register (fun _ _ _ ho' => (ho'.of_operands rfl hfree).1)
      (o.windowCall site.frame w)).imp fun place t t' ht htaken => ?_
    obtain ⟨ho', hmoved, rfl⟩ := htaken
    have hcall := Derives.window (f := f) (callee_beside ht _ f ▸ hcallee) hallowed hplace hcount
      (ho'.of_operands rfl hfree).2
    rw [← hmoved] at hcall
    exact hcall
  | unary _ ih => exact ih.imp fun _ _ _ _ ha => .unary ha
  | binary _ hr ihl ihr =>
    refine (ihl.andThen ihr hr.later).imp fun place t t' _ htaken => ?_
    obtain ⟨u, hl, hr⟩ := htaken
    rw [Part.mapOps, ← binary_mapOps]
    exact .binary hl hr
  | logical _ hr ihl ihr =>
    exact (ihl.andThen ihr hr.later).imp fun _ _ _ _ ⟨_, hl, hr⟩ => .logical hl hr
  | conditional _ hc ha iht ihc iha =>
    refine ((iht.andThen ihc hc.later).andThen iha ha.later).imp ?_
    rintro place t t' - ⟨u, ⟨u', ht, hc⟩, ha⟩
    exact .conditional ht hc ha
  | array _ ih =>
    refine ih.imp fun place t t' _ hes => ?_
    have harray := Derives.array hes
    rw [map_fst_moved, map_snd_moved] at harray
    exact harray
  | @object site s s' ps es _ ih =>
    refine ih.imp fun place t t' _ hes => ?_
    have hobject := Derives.object hes
    have hformulas : Formula.mapOpsEntries place (es.map fun p => (p.1, p.2.1))
        = (es.map fun e => (e.1, e.2.1.mapOps place, e.2.2)).map fun p => (p.1, p.2.1) := by
      rw [Formula.mapOpsEntries_eq, List.map_map, List.map_map]
      rfl
    have hnodes : (es.map fun e => (e.1, e.2.1.mapOps place, e.2.2)).map (fun p => (p.1, p.2.2))
        = es.map fun p => (p.1, p.2.2) := by
      rw [List.map_map]
      rfl
    rw [← hformulas, hnodes] at hobject
    exact hobject
  | noExpressions => exact .stay fun _ _ _ => .noExpressions
  | moreExpressions _ hes ih ih' =>
    exact (ih.andThen ih' hes.later).imp fun _ _ _ _ ⟨_, he, hes⟩ => .moreExpressions he hes
  | noProperties => exact .stay fun _ _ _ => .noProperties
  | moreProperties _ hes ih ih' =>
    exact (ih.andThen ih' hes.later).imp fun _ _ _ _ ⟨_, he, hes⟩ => .moreProperties he hes
  | noOperands => exact .stay fun _ _ _ => .noOperands
  | field _ ho ih ih' =>
    exact (ih.andThen ih' ho.later).imp fun _ _ _ _ ⟨_, he, ho⟩ => .field he ho
  | constant _ hv ho ih ih' =>
    refine (ih.andThen ih' ho.later).imp fun place t t' _ htaken => ?_
    obtain ⟨u, hp, ho⟩ := htaken
    exact .constant (hp.of_constant hv).2 hv ho
  | @declaration site s s' kind ds more _ ih =>
    refine ih.imp fun place t t' _ hds => ?_
    have hdeclaration : Derives ctx site t (.statement (.declaration kind ds) _) t' :=
      .declaration hds
    rw [List.map_map, List.map_map] at hdeclaration
    rw [Part.mapOps, Formula.mapOpsBody_eq, List.map_map]
    exact hdeclaration
  | returnsNothing => exact .stay fun _ _ _ => .returnsNothing
  | returns _ ih => exact ih.imp fun _ _ _ _ ha => .returns ha
  | branchAlone _ hc ih ih' =>
    exact (ih.andThen ih' hc.later).imp fun _ _ _ _ ⟨_, ht, hc⟩ => .branchAlone ht hc
  | branchElse _ hc ha iht ihc iha =>
    refine ((iht.andThen ihc hc.later).andThen iha ha.later).imp ?_
    rintro place t t' - ⟨u, ⟨u', ht, hc⟩, ha⟩
    exact .branchElse ht hc ha
  | block _ ih =>
    refine ih.inBlock.imp ?_
    rintro place t _ - ⟨u, hss, rfl⟩
    exact .block hss
  | evaluated _ ih => exact ih.imp fun _ _ _ _ he => .evaluated he
  | branchBlock _ ih =>
    refine ih.inBlock.imp ?_
    rintro place t _ - ⟨u, hss, rfl⟩
    exact .branchBlock hss
  | branchStatement hblock _ ih =>
    refine ih.inBlock.imp ?_
    rintro place t _ - ⟨u, hn, rfl⟩
    exact .branchStatement hblock hn
  | noStatements => exact .stay fun _ _ _ => .noStatements
  | moreStatements _ hns ih ih' =>
    refine (ih.andThen ih' hns.later).imp fun place t t' _ htaken => ?_
    obtain ⟨u, hn, hns⟩ := htaken
    rw [Part.mapOps, Formula.mapOpsBody_eq, List.map_append, ← Formula.mapOpsBody_eq,
      ← Formula.mapOpsBody_eq]
    exact .moreStatements hn hns
  | noDeclarations => exact .stay fun _ _ _ => .noDeclarations
  | @moreDeclarations site s t s' name init ds e more _ hds ih ih' =>
    refine ((ih.declare name).andThen ih' hds.later).imp ?_
    rintro place u u' - ⟨_, ⟨v, hinit, hslot, rfl⟩, hds⟩
    have hmore := Derives.moreDeclarations hinit hds
    rw [hslot] at hmore
    exact hmore
  | bodyBlock _ ih =>
    refine ih.inBlock.imp ?_
    rintro place t _ - ⟨u, hss, rfl⟩
    exact .bodyBlock hss
  | bodyExpression _ ih => exact ih.imp fun _ _ _ _ he => .bodyExpression he

/-! ## Expressions beside others -/

/-- An expression resolves beside others to its formula with the references moved, and to its
    tree. -/
def SpecBeside (ctx : ResolveContext) (frame : Option Frame) (e : ExprSpec)
    (r : Formula × Option Node) (s' t t' : ResolveState) : Prop :=
  s'.CallsIn t' ∧ t.Later t' ∧ ∀ place, Moves place s' t' →
    (spec ctx frame e).run t = .ok ((r.1.mapOps place, r.2), t')

theorem root_beside {frame : Option Frame} {node : Node} {e : Formula × Node}
    (h : (root ctx frame node).run s = .ok (e, s')) (ht : s.CallsIn t) :
    ∃ t', s'.CallsIn t' ∧ t.Later t' ∧ ∀ place, Moves place s' t' →
      (root ctx frame node).run t = .ok ((e.1.mapOps place, e.2), t') := by
  have hrestart : s.restart.Beside t.restart := ⟨rfl, rfl, ht⟩
  rcases run_root_iff.1 h with ⟨hroot, hb⟩ | ⟨g, inner, b, hroot, hb, rfl⟩
  · obtain ⟨t', hbeside, hlater, hd⟩ := (derives_body hb).beside _ hrestart
    exact ⟨t', hbeside.calls, ⟨hlater.aggregates, hlater.windows⟩, fun place hplace =>
      run_root_iff.2 (.inl ⟨hroot, (hd place hplace).runs⟩)⟩
  · obtain ⟨t', hbeside, hlater, hd⟩ := (derives_body hb).beside _ hrestart
    exact ⟨t', hbeside.calls, ⟨hlater.aggregates, hlater.windows⟩, fun place hplace =>
      run_root_iff.2 (.inr ⟨g, inner, _, hroot, (hd place hplace).runs, rfl⟩)⟩

/-- An expression that resolves alone resolves beside others. -/
theorem spec_beside {frame : Option Frame} {e : ExprSpec} {r : Formula × Option Node}
    (h : (spec ctx frame e).run s = .ok (r, s')) (ht : s.CallsIn t) :
    ∃ t', SpecBeside ctx frame e r s' t t' := by
  induction e generalizing frame r with
  | source text =>
    obtain ⟨node, hnode⟩ := exists_node_of_source h
    obtain ⟨b, hb, rfl⟩ := (run_spec_iff hnode).1 h
    obtain ⟨t', hcalls, hlater, hroot⟩ := root_beside hb ht
    exact ⟨t', hcalls, hlater, fun place hplace =>
      (run_spec_iff hnode).2 ⟨_, hroot place hplace, rfl⟩⟩
  | tree node =>
    obtain ⟨b, hb, rfl⟩ := run_spec_tree_iff.1 h
    obtain ⟨t', hcalls, hlater, hroot⟩ := root_beside hb ht
    exact ⟨t', hcalls, hlater, fun place hplace =>
      run_spec_tree_iff.2 ⟨_, hroot place hplace, rfl⟩⟩
  | column name =>
    obtain ⟨b, hb, rfl⟩ := run_spec_column_iff.1 h
    obtain ⟨t', hcalls, hlater, hroot⟩ := root_beside hb ht
    exact ⟨t', hcalls, hlater, fun place hplace =>
      run_spec_column_iff.2 ⟨_, hroot place hplace, rfl⟩⟩
  | escape g =>
    obtain ⟨rfl, rfl⟩ := run_pure_eq_ok.1 h
    exact ⟨t, ht, .refl t, fun place _ => run_pure_eq_ok.2 ⟨rfl, rfl⟩⟩
  | value v =>
    obtain ⟨rfl, rfl⟩ := run_pure_eq_ok.1 h
    exact ⟨t, ht, .refl t, fun place _ => run_pure_eq_ok.2 ⟨rfl, rfl⟩⟩
  | rolling inner g ih =>
    obtain ⟨b, hb, rfl⟩ := run_spec_rolling_iff.1 h
    obtain ⟨t', hcalls, hlater, hinner⟩ := ih hb
    exact ⟨t', hcalls, hlater, fun place hplace =>
      run_spec_rolling_iff.2 ⟨_, hinner place hplace, rfl⟩⟩

/-- An expression resolves by itself to a formula, with its tree. -/
def Alone (ctx : ResolveContext) (e : ExprSpec) (r : Formula × Option Node) (s : ResolveState) :
    Prop :=
  (spec ctx none e).run .empty = .ok (r, s)

/-- What an expression resolves to together with others, in comparison with what it resolves to
    alone. -/
def NamedBeside (ctx : ResolveContext) (t : ResolveState) (e : String × ExprSpec)
    (f : NamedFormula) : Prop :=
  ∃ r s, Alone ctx e.2 r s ∧ s.CallsIn t ∧
    ∀ place, Moves place s t → f = ⟨e.1, r.1.mapOps place, r.2⟩

theorem NamedBeside.later {e : String × ExprSpec} {f : NamedFormula} (h : NamedBeside ctx t e f)
    (ht : t.Later t') : NamedBeside ctx t' e f := by
  obtain ⟨r, s, halone, hcalls, hf⟩ := h
  exact ⟨r, s, halone, fun c hc => ht.has (hcalls c hc), fun place hplace =>
    hf place (hplace.earlier (.refl s) ht hcalls)⟩

/-- Expressions that resolve alone resolve together, from whatever calls are there. -/
theorem named_beside {exprs : List (String × ExprSpec)}
    (halone : ∀ e ∈ exprs, ∃ r s, Alone ctx e.2 r s) (t : ResolveState) :
    ∃ es t', (named ctx exprs).run t = .ok (es, t') ∧ t.Later t' ∧
      List.Forall₂ (NamedBeside ctx t') exprs es := by
  induction exprs generalizing t with
  | nil => exact ⟨[], t, rfl, .refl t, .nil⟩
  | cons e exprs ih =>
    obtain ⟨⟨r, s, hr⟩, hrest⟩ := List.forall_mem_cons.1 halone
    have hnone : ResolveState.empty.CallsIn t := by
      intro c hc
      cases c <;> cases hc
    obtain ⟨t₁, hcalls, hlater, hspec⟩ := spec_beside hr hnone
    obtain ⟨es, t₂, hes, hlater', hall⟩ := ih hrest t₁
    have hmoves := moves_toPlace s t₁
    refine ⟨⟨e.1, r.1.mapOps (s.toPlace t₁), r.2⟩ :: es, t₂, ?_, hlater.trans hlater', ?_⟩
    · exact run_named_cons.2 ⟨_, t₁, es, hspec _ hmoves, hes, rfl⟩
    · refine .cons (NamedBeside.later ⟨r, s, hr, hcalls, fun place hplace => ?_⟩ hlater') hall
      -- all ways to move the references lead to the same run, and so to the same formula
      have hsame := Except.ok.inj ((hspec _ hmoves).symm.trans (hspec place hplace))
      have hformula : r.1.mapOps (s.toPlace t₁) = r.1.mapOps place :=
        congrArg (fun outcome => outcome.1.1) hsame
      rw [hformula]

end Resolve

/-! ## Resolved together -/

namespace Resolution

/-- The call at a place. -/
def call? (r : Resolution) (ref : OpRef) : Option OperatorCall :=
  OperatorCall.at? r.aggregates r.windows ref

/-- Every call of a resolution has the place of a call that is the same in another one. -/
def SharedIn (own r : Resolution) (place : OpRef → OpRef) : Prop :=
  ∀ ref c, own.call? ref = some c → ∃ d, r.call? (place ref) = some d ∧ d.Same c

theorem sharedIn_refl (r : Resolution) : r.SharedIn r id :=
  fun _ c hc => ⟨c, hc, OperatorCall.Same.refl c⟩

end Resolution

/-- What has become of an expression in a resolution together with others, in comparison with the
    resolution of the expression alone: the same formula, but that it refers to the same calls in
    the common lists, and the same tree. -/
structure Together (ctx : ResolveContext) (r : Resolution) (e : String × ExprSpec)
    (f : NamedFormula) (own : Resolution) (formula : Formula) (place : OpRef → OpRef) : Prop where
  alone : resolve ctx [e] = .ok own
  exprs : own.exprs = [⟨e.1, formula, f.tree⟩]
  moved : f = ⟨e.1, formula.mapOps place, f.tree⟩
  shared : own.SharedIn r place

/-- Expressions that resolve alone resolve together. -/
theorem resolve_together {ctx : ResolveContext} {exprs : List (String × ExprSpec)}
    (halone : ∀ e ∈ exprs, ∃ r, resolve ctx [e] = .ok r) :
    ∃ r, resolve ctx exprs = .ok r ∧ List.Forall₂ (fun e f => ∃ own formula place,
      Together ctx r e f own formula place) exprs r.exprs := by
  have hspecs : ∀ e ∈ exprs, ∃ r s, Resolve.Alone ctx e.2 r s := by
    intro e he
    obtain ⟨own, hown⟩ := halone e he
    obtain ⟨es, s, hnamed, -⟩ := resolve_eq_ok_iff.1 hown
    obtain ⟨r, hr, -⟩ := Resolve.named_singleton.1 hnamed
    exact ⟨r, s, hr⟩
  obtain ⟨es, t, hes, -, hall⟩ := Resolve.named_beside hspecs .empty
  refine ⟨_, resolve_eq_ok_iff.2 ⟨es, t, hes, rfl⟩, List.Forall₂.imp (fun e f hf => ?_) hall⟩
  obtain ⟨r, s, hr, hcalls, hformula⟩ := hf
  obtain rfl := hformula _ (ResolveState.moves_toPlace s t)
  refine ⟨_, r.1, s.toPlace t, resolve_eq_ok_iff.2
    ⟨_, s, Resolve.named_singleton.2 ⟨r, hr, rfl⟩, rfl⟩, rfl, rfl, fun ref c hc => ?_⟩
  have hplace : s.toPlace t ref = t.placeOf c := by
    have hcall : s.call? ref = some c := hc
    unfold ResolveState.toPlace
    rw [hcall]
  rw [hplace]
  exact ResolveState.call?_placeOf (hcalls c (ResolveState.has_of_call? hc))

end ColumnQuery
