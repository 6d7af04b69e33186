import EntityGraph.Proofs.Eval.Typed
import EntityGraph.Proofs.Host.Class
import EntityGraph.Proofs.Schema.Completed

/-!
# Inferred types

A field that is declared without a type gets the one that is inferred from its expression. Wherever
the members of what an expression reads are as their classes say, its values fit the inferred type.

Inference is right about most nodes and not about all. It takes the type of what is negated for that
of the negation, which for truth values is a number. It takes the type of a source for that of the
operations that keep its elements, also where the source is not inferred to be a list, and these
always give lists. Of a sequence with several places it reads the first one. Fields without these
are inferred faithfully. A comparison with a recording proxy is recorded itself and gives no truth
value.
-/

set_option linter.unusedSectionVars false

namespace EntityGraph

/-! ## What classes say of their members -/

/-- What a class says of a member: its type if it is a column or a relationship, or else a hint. -/
inductive Annotation where
  | known (m : MemberType)
  | hinted (h : Hint)

namespace Annotation

/-- The member type that is read off what a class says. -/
def memberType : Annotation → MemberType
  | known m => m
  | hinted h => h.memberType

/-- Whether no sequence in what a class says has several places. -/
def isUniform : Annotation → Bool
  | known _ => true
  | hinted h => h.isUniform

/-- Whether a value is as a class says, where the values of each host type are as given. -/
def Admits (w : World) (values : HostType → Value → Prop) (v : Value) : Annotation → Prop
  | known m => v.Fits w values m
  | hinted h => h.Admits w values v

theorem Admits.fits {w : World} {values : HostType → Value → Prop} {v : Value} {a : Annotation}
    (nothing : ∀ u, values Hint.missingType u → u = .none) (uniform : a.isUniform)
    (admits : a.Admits w values v) : v.Fits w values a.memberType := by
  cases a with
  | known m => exact admits
  | hinted h => exact Hint.Admits.fits nothing uniform admits

end Annotation

namespace Classes

/-- The hint of a property, if it can be read and carries one. -/
def propertyHint? : Attribute → Option Hint
  | .property p => if p.reply.isSome then p.hint.map Hint.ofMember else none
  | _ => none

/-- What a declared class says of a member. -/
def declaredAnnotation? (cs : Classes) (name member : String) : Option Annotation :=
  let mapped := cs.mappedBase? name
  let related := (mapped.bind fun c => c.relationships.find? (·.name == member)).map fun r =>
    Annotation.known ⟨.declared r.target, r.isList⟩
  let stored := (mapped.bind fun c => c.columns.lookup member).map Annotation.known
  let hinted := ((cs.hintedMembers name).find? (·.name == member)).map fun m =>
    Annotation.hinted m.hint.ofMember
  let computed := ((cs.attribute? name member).bind propertyHint?).map Annotation.hinted
  related.or (stored.or (hinted.or computed))

/-- What a host type says of a member. -/
def annotation? (cs : Classes) (t : HostType) (member : String) : Option Annotation :=
  match t with
  | .declared name => cs.declaredAnnotation? name member
  | t =>
    ((DescribedClass.of? t).bind fun c => (c.members ++ c.properties).lookup member).map .known

theorem propertyType?_eq (a : Attribute) :
    propertyType? a = (propertyHint? a).map Hint.memberType := by
  cases a with
  | property p =>
    simp only [propertyType?, propertyHint?]
    split
    · rw [Option.map_map]
      rfl
    · rfl
  | _ => rfl

/-- The type of a member is read off what its class says. -/
theorem memberType_eq (cs : Classes) (t : HostType) (member : String) :
    cs.memberType t member
      = ((cs.annotation? t member).map Annotation.memberType).getD .unknown := by
  cases t with
  | declared name =>
    simp only [memberType, annotation?, declaredMemberType, declaredAnnotation?]
    cases (cs.mappedBase? name).bind fun c => c.relationships.find? (·.name == member) with
    | some r => rfl
    | none =>
      cases (cs.mappedBase? name).bind fun c => c.columns.lookup member with
      | some m => rfl
      | none =>
        cases (cs.hintedMembers name).find? (·.name == member) with
        | some m => rfl
        | none =>
          cases cs.attribute? name member with
          | none => rfl
          | some a =>
            simp only [Option.bind_some, propertyType?_eq]
            cases propertyHint? a <;> rfl
  | _ =>
    simp only [memberType, annotation?]
    split
    · next c described =>
      rw [described, Option.bind_some]
      cases (c.members ++ c.properties).lookup member <;> rfl
    · next undescribed =>
      rw [undescribed]
      rfl

/-- Whether no sequence in a hint of a class has several places. -/
def areUniform (cs : Classes) : Bool :=
  cs.all fun c =>
    c.members.all (·.hint.ofMember.isUniform)
      && c.properties.all fun p => p.hint.all (·.ofMember.isUniform)

theorem mem_members_of_hinted {cs : Classes} {name : String} {m : MemberDecl}
    (h : m ∈ cs.hintedMembers name) : ∃ c ∈ cs, m ∈ c.members := by
  obtain h | h := mem_foldl_putMember (List.mem_of_mem_filter h)
  · cases h
  · obtain ⟨c, hc, hm⟩ := List.mem_flatMap.1 h
    exact ⟨c, mem_of_mem_lineage (List.mem_reverse.1 hc), hm⟩

theorem mem_properties_of_attribute {cs : Classes} {name attr : String} {p : PropertyDecl}
    (h : cs.attribute? name attr = some (.property p)) : ∃ c ∈ cs, p ∈ c.properties := by
  obtain ⟨c, hc, offered⟩ := List.exists_of_findSome?_eq_some h
  refine ⟨c, mem_of_mem_lineage hc, ?_⟩
  unfold ClassDecl.attribute? at offered
  split at offered
  · next p' found =>
    cases offered
    exact List.mem_of_find?_eq_some found
  · split at offered
    · cases offered
    · split at offered
      · split at offered <;> cases offered
      · obtain ⟨v, -, same⟩ := Option.map_eq_some_iff.1 offered
        cases same

/-- If no sequence in a hint of a class has several places, this holds of all that classes say. -/
theorem isUniform_annotation {cs : Classes} (uniform : cs.areUniform) {t : HostType}
    {member : String} {a : Annotation} (said : cs.annotation? t member = some a) : a.isUniform := by
  have each (c : ClassDecl) (hc : c ∈ cs) :
      (∀ m ∈ c.members, m.hint.ofMember.isUniform)
        ∧ ∀ p ∈ c.properties, ∀ h, p.hint = some h → h.ofMember.isUniform := by
    have here := List.all_eq_true.1 uniform c hc
    simp only [Bool.and_eq_true, List.all_eq_true] at here
    refine ⟨here.1, fun p hp h hinted => ?_⟩
    simpa [hinted] using here.2 p hp
  cases t with
  | declared name =>
    simp only [annotation?, declaredAnnotation?, Option.or_eq_some_iff,
      Option.map_eq_some_iff] at said
    obtain ⟨r, -, rfl⟩ | ⟨-, ⟨m, -, rfl⟩ | ⟨-, ⟨m, found, rfl⟩ | ⟨-, h, computed, rfl⟩⟩⟩ := said
    · rfl
    · rfl
    · obtain ⟨c, hc, hm⟩ := mem_members_of_hinted (List.mem_of_find?_eq_some found)
      exact (each c hc).1 m hm
    · obtain ⟨offered, found, hinted⟩ := Option.bind_eq_some_iff.1 computed
      unfold propertyHint? at hinted
      split at hinted
      · next p =>
        obtain ⟨c, hc, hp⟩ := mem_properties_of_attribute found
        split at hinted
        · obtain ⟨h, given, rfl⟩ := Option.map_eq_some_iff.1 hinted
          exact (each c hc).2 p hp h given
        · cases hinted
      · cases hinted
  | _ =>
    simp only [annotation?, Option.map_eq_some_iff] at said
    obtain ⟨m, -, rfl⟩ := said
    rfl

end Classes

/-! ## Worlds whose members are as their classes say -/

/-- Whether these values of the host types conform: they are instances, of the built-in classes all
of them, and whatever is read as a member of one of them is as its host type says. -/
structure World.Conforms (w : World) (values : HostType → Value → Prop) : Prop where
  isA : ∀ t v, values t v → v.IsA w t
  builtin : ∀ b v, v.IsA w (.builtin b) → values (.builtin b) v
  member : ∀ t v name a, values t v → w.classes.annotation? t name = some a →
    ∀ s x u, runOn (Value.own (v.getAttr w name)) s = (.ok x, u) → a.Admits w values x

/-- What is read as a member of a value of a host type fits the type of the member. -/
theorem World.Conforms.fits_member {w : World} {values : HostType → Value → Prop}
    (conforms : w.Conforms values) (uniform : w.classes.areUniform) {t : HostType} {v x : Value}
    (typed : values t v) {name : String} {s u : Trail}
    (run : runOn (Value.own (v.getAttr w name)) s = (.ok x, u)) :
    x.Fits w values (w.classes.memberType t name) := by
  rw [Classes.memberType_eq]
  cases said : w.classes.annotation? t name with
  | none => exact Value.fits_unknown
  | some a =>
    have admits := conforms.member t v name a typed said s x u run
    exact admits.fits (conforms.isA _) (Classes.isUniform_annotation uniform said)

theorem World.after_congr {w : World} {s t : Trail} (same : t.memory = s.memory) :
    w.after t = w.after s := by
  rw [World.after, World.after, same]

/-! ## Inference along the sources of an expression -/

/-- Whether a value fits an inferred type. In place of a truth value it may be a proxy. -/
def Value.FitsInferred (w : World) (values : HostType → Value → Prop) (m : MemberType) (v : Value) :
    Prop :=
  v.Fits w values m ∨ m = ⟨.builtin .bool, false⟩ ∧ v.typeIn w = .builtin .proxy

section

variable {w : World} {values : HostType → Value → Prop} {m : MemberType} {v r : Value}

theorem Value.IsTest.fitsInferred (test : v.IsTest) (conforms : w.Conforms values)
    (own : r.typeIn w = v.typeIn w) : r.FitsInferred w values ⟨.builtin .bool, false⟩ := by
  obtain ⟨b, rfl⟩ | ⟨e, rfl⟩ := test
  · have isA := Value.isA_of_lineage (b := .bool) own (by decide) (by decide)
    exact .inl (.inr (.inr (conforms.builtin _ _ isA)))
  · exact .inr ⟨rfl, own⟩

/-- What is read as a member of a value of an inferred type. -/
theorem Value.FitsInferred.member (fits : v.FitsInferred w values m) (some : v ≠ .none)
    (conforms : w.Conforms values) (uniform : w.classes.areUniform) {name : String} {s t : Trail}
    (run : runOn (Value.own (v.getAttr w name)) s = (.ok r, t)) :
    r.FitsInferred w values
      (if m.isList || m.host == .builtin .object then .unknown
        else w.classes.memberType m.host name) := by
  refine .inl ?_
  split
  · exact Value.fits_unknown
  · next known =>
    simp only [Bool.or_eq_true, not_or, Bool.not_eq_true, beq_eq_false_iff_ne] at known
    obtain ⟨single, known⟩ := known
    obtain (missing | universal | typed) | ⟨rfl, -⟩ := fits
    · exact absurd missing some
    · obtain any : m.host = .any := by simpa [HostType.isUniversal, known] using universal
      rw [any]
      exact Value.fits_unknown
    · rw [if_neg (by simp [single])] at typed
      exact conforms.fits_member uniform typed run
    · exact Value.fits_unknown

/-- The negation of a value of an inferred type other than that of truth values. -/
theorem Value.FitsInferred.negation (fits : v.FitsInferred w values m) (some : v ≠ .none)
    (number : m ≠ ⟨.builtin .bool, false⟩) (conforms : w.Conforms values) {s t : Trail}
    (run : runOn (Value.own (v.negate w)) s = (.ok r, t)) : r.FitsInferred w values m := by
  obtain ⟨u, computed, own⟩ := Value.typeIn_own (w := w) run
  obtain ⟨c, -, before, -, -, -, _, single⟩ := Value.negate_sort computed
  obtain (missing | universal | typed) | ⟨same, -⟩ := fits
  · exact absurd missing some
  · exact .inl (.inr (.inl universal))
  · split at typed
    · obtain ⟨vs, elements, -⟩ := typed
      rw [single] at elements
      cases elements
    · next one =>
      obtain ⟨host, isList⟩ := m
      obtain rfl : isList = false := by simpa using one
      have isA := conforms.isA _ _ typed
      obtain ⟨b, rfl⟩ := Value.builtin_of_isA isA before
      have negated := isA.negation computed own fun same => number (by simpa using same)
      exact .inl (.inr (.inr (conforms.builtin _ _ negated)))
  · exact absurd same number

/-- Whether the type of an operation's result is inferred faithfully, if that of its source is. What
keeps the elements of its source gives a list of them. -/
def SeqOp.infersFaithfully (op : SeqOp) (source : MemberType) : Bool :=
  match op with
  | .filter | .orderBy | .orderByDescending | .take | .skip =>
    source.isList || source.host.isUniversal || source.host == .builtin .list
  | _ => true

/-- A list of elements of a source fits the type of the source, if lists are of it at all. -/
theorem fits_list {vs ws : List Value} (sub : ws ⊆ vs) (conforms : w.Conforms values)
    (lists : m.isList || m.host.isUniversal || m.host == .builtin .list)
    (each : m.isList → m.host.isUniversal ∨ ∀ u ∈ vs, u = .none ∨ values m.host u) :
    (Value.list ws).Fits w values m := by
  by_cases list : m.isList
  · rw [Value.Fits, if_pos list]
    exact .inr ((each list).imp_right fun each => ⟨ws, rfl, fun u hu => each u (sub hu)⟩)
  · rw [Value.Fits, if_neg list]
    simp only [list, Bool.false_or, Bool.or_eq_true, beq_iff_eq] at lists
    refine .inr (lists.imp_right fun same => ?_)
    rw [same]
    exact conforms.builtin _ _ (Value.isA_of_lineage rfl (by decide) (by decide))

/-- What an operation makes of the elements of a value of an inferred type. -/
theorem Value.FitsInferred.concluded {w' : World} (fits : v.FitsInferred w values m)
    (some : v ≠ .none) {vs : List Value} (elements : v.elements w = .ok vs) {op : SeqOp}
    (faithful : op.infersFaithfully m) (conforms : w'.Conforms values)
    (concluded : Eval.Concluded op vs r) : r.FitsInferred w' values (op.resultType m) := by
  have each (list : m.isList) : m.host.isUniversal ∨ ∀ u ∈ vs, u = .none ∨ values m.host u := by
    obtain (missing | universal | typed) | ⟨rfl, -⟩ := fits
    · exact absurd missing some
    · exact .inl universal
    · rw [if_pos list] at typed
      obtain ⟨vs', elements', each⟩ := typed
      rw [elements] at elements'
      cases elements'
      exact .inr each
    · cases list
  refine .inl ?_
  cases op with
  | count =>
    obtain ⟨n, rfl⟩ := concluded
    exact .inr (.inr (conforms.builtin _ _ (Value.isA_of_lineage rfl (by decide) (by decide))))
  | any =>
    obtain ⟨b, rfl⟩ := concluded
    exact .inr (.inr (conforms.builtin _ _ (Value.isA_of_lineage rfl (by decide) (by decide))))
  | select => exact Value.fits_unknown
  | first | firstOrDefault =>
    simp only [SeqOp.resultType]
    split
    · next list =>
      rcases concluded with missing | member
      · exact .inl missing
      · rcases each list with universal | each
        · exact .inr (.inl universal)
        · exact (each r member).imp_right .inr
    · exact Value.fits_unknown
  | filter | orderBy | orderByDescending | take | skip =>
    obtain ⟨ws, rfl, sub⟩ := concluded
    exact fits_list sub conforms faithful each

end

namespace Expr

/-- An expression, what it reads a member of, negates or applies an operation to, and so on. The
type of the expression is inferred from these. -/
def spine (e : Expr Value) : List (Expr Value) :=
  e :: match e with
    | member t _ => t.spine
    | unary _ e => e.spine
    | seq _ s _ => s.spine
    | _ => []

theorem mem_spine (e : Expr Value) : e ∈ e.spine := by
  cases e <;> exact List.mem_cons_self ..

/-- Whether the type of an expression is inferred faithfully: nothing is negated that is inferred to
be a truth value, and each operation on a sequence infers the type of its result faithfully. -/
def infersFaithfully (w : World) (entity : Param) (host : HostType) : Expr Value → Bool
  | member t _ => t.infersFaithfully w entity host
  | unary op e =>
    match op with
    | .not => true
    | .neg =>
      e.inferType w entity host != ⟨.builtin .bool, false⟩ && e.infersFaithfully w entity host
  | seq op s _ =>
    op.infersFaithfully (s.inferType w entity host) && s.infersFaithfully w entity host
  | _ => true

section

variable {h : Host} {w : World} {entity : Param} {host : HostType} {s : Scope Value} {t : Trail}
  {values : HostType → Value → Prop}
  (classes : h.world.classes = w.classes) (uniform : w.classes.areUniform)
  (bound : ∀ x, s.lookup? entity = some x → values host x)

include classes uniform bound

omit classes uniform bound in
/-- The value of a boolean operator is a truth value, or it is recorded. -/
theorem fitsInferred_binary {op : BinaryOp} {l r : Expr Value} {u : Trail} {v : Value}
    (boolean : op.isBoolean) (conforms : (h.world.after u).Conforms values)
    (run : runOn ((binary op l r).eval h s) t = (.ok v, u)) :
    v.FitsInferred (h.world.after u) values ⟨.builtin .bool, false⟩ := by
  obtain ⟨x, t₁, -, run⟩ := bind_eq_ok run
  split at run
  · obtain ⟨holds, _, -, run⟩ := bind_eq_ok (runOn_now_bind .. ▸ run)
    split at run
    · obtain ⟨y, _, -, run⟩ := bind_eq_ok run
      rw [runOn_now_bind] at run
      exact (BinaryOp.isTest_apply rfl (outcome_of_run run).1).fitsInferred conforms rfl
    · cases run
      exact Value.IsTest.fitsInferred (.inl ⟨_, rfl⟩) conforms rfl
  · obtain ⟨holds, _, -, run⟩ := bind_eq_ok (runOn_now_bind .. ▸ run)
    split at run
    · cases run
      exact Value.IsTest.fitsInferred (.inl ⟨_, rfl⟩) conforms rfl
    · obtain ⟨y, _, -, run⟩ := bind_eq_ok run
      rw [runOn_now_bind] at run
      exact (BinaryOp.isTest_apply rfl (outcome_of_run run).1).fitsInferred conforms rfl
  · obtain ⟨y, _, -, run⟩ := bind_eq_ok run
    rw [runOn_now_bind] at run
    obtain ⟨r, applied, own⟩ := Value.typeIn_own (w := h.world.after u) run
    exact (BinaryOp.isTest_apply boolean applied).fitsInferred conforms own

/-- The value of an expression fits the type that is inferred from it. -/
theorem fitsInferred_eval (e : Expr Value) {u : Trail} {v : Value}
    (faithful : e.infersFaithfully w entity host)
    (literals : ∀ x, lit x ∈ e.spine → x.isNone = false → values (x.typeIn w) x)
    (conforms : ∀ part ∈ e.spine, ∀ x u, runOn (part.eval h s) t = (.ok x, u) →
      (h.world.after u).Conforms values)
    (run : runOn (e.eval h s) t = (.ok v, u)) :
    v.FitsInferred (h.world.after u) values (e.inferType w entity host) := by
  have unchanged (u : Trail) : (h.world.after u).classes = w.classes := classes
  have here := conforms e e.mem_spine v u run
  cases e with
  | lit x =>
    cases run
    unfold inferType
    split
    · exact .inl Value.fits_unknown
    · next some => exact .inl (.inr (.inr (literals v (mem_spine _) (by simpa using some))))
  | param p =>
    unfold inferType
    split
    · next same =>
      obtain ⟨found, rfl⟩ := outcome_of_run run
      rw [beq_iff_eq] at same
      subst same
      unfold Scope.lookup at found
      split at found
      · next x bound' =>
        cases found
        exact .inl (.inr (.inr (bound _ bound')))
      · cases found
    · exact .inl Value.fits_unknown
  | member target name =>
    -- What the target fits, it fits in the world right after it was evaluated.
    obtain ⟨x, t₁, first, run⟩ := bind_eq_ok run
    have inner := fitsInferred_eval target faithful (fun x hx => literals x (.tail _ hx))
      (fun part hp => conforms part (.tail _ hp)) first
    have conforms := conforms target (.tail _ target.mem_spine) x t₁ first
    split at run
    · cases run
      exact .inl (.inl rfl)
    · next some =>
      rw [runOn_now_bind] at run
      have read := inner.member (fun none => some (by rw [none]; rfl)) conforms
        (by rwa [unchanged]) run
      rw [unchanged] at read
      rwa [World.after_congr (Value.memory_own run)]
  | unary op e =>
    obtain ⟨x, t₁, first, run⟩ := bind_eq_ok run
    rw [runOn_now_bind] at run
    rw [World.after_congr (Value.memory_own run)] at here ⊢
    cases op with
    | not =>
      obtain ⟨r, applied, own⟩ := Value.typeIn_own (w := h.world.after t₁) run
      obtain ⟨b, -, applied⟩ := outcome_bind_ok applied
      cases applied
      exact Value.IsTest.fitsInferred (.inl ⟨_, rfl⟩) here own
    | neg =>
      simp only [infersFaithfully, Bool.and_eq_true, bne_iff_ne] at faithful
      have inner := fitsInferred_eval e faithful.2 (fun x hx => literals x (.tail _ hx))
        (fun part hp => conforms part (.tail _ hp)) first
      simp only [UnaryOp.apply] at run
      split at run
      · cases run
        exact .inl (.inl rfl)
      · next some =>
        exact inner.negation (fun none => some (by rw [none]; rfl)) faithful.1 here run
  | binary op l r =>
    unfold inferType
    split
    · next boolean => exact fitsInferred_binary boolean here run
    · exact .inl Value.fits_unknown
  | seq op src as =>
    simp only [infersFaithfully, Bool.and_eq_true] at faithful
    obtain ⟨x, t₁, first, run⟩ := bind_eq_ok run
    have inner := fitsInferred_eval src faithful.2 (fun x hx => literals x (.tail _ hx))
      (fun part hp => conforms part (.tail _ hp)) first
    unfold inferType
    split at run
    · split at run
      · cases run
        exact .inl (.inl rfl)
      · cases run
    · next some =>
      have some : x ≠ .none := fun none => some (by rw [none]; rfl)
      rw [runOn_now_bind] at run
      obtain ⟨vs, _, listed, run⟩ := bind_eq_ok run
      obtain ⟨elements, rfl⟩ := outcome_of_run listed
      refine inner.concluded some elements faithful.1 here ?_
      split at run
      · split at run
        · cases run
        · exact Eval.concluded_applyFunction run
      · next takes =>
        obtain ⟨count, t₂, -, run⟩ := bind_eq_ok run
        obtain ⟨ws, rfl, sub⟩ := Eval.slice_ok (outcome_of_run run).1
        cases op <;> first | exact ⟨ws, rfl, sub⟩ | exact absurd rfl takes
  | _ => exact .inl Value.fits_unknown

end

/-- What is inferred depends on the classes and on the objects, and not on the schema. -/
theorem inferType_withSchema (w : World) (f : Schema → Schema) (entity : Param) (host : HostType)
    (e : Expr Value) : e.inferType (w.withSchema f) entity host = e.inferType w entity host := by
  cases e with
  | lit v => simp only [inferType, Schema.typeIn_withSchema]
  | member t n =>
    simp only [inferType, inferType_withSchema w f entity host t]
    rfl
  | unary op e => simp only [inferType, inferType_withSchema w f entity host e]
  | seq op s as => simp only [inferType, inferType_withSchema w f entity host s]
  | _ => rfl

end Expr

/-! ## Fields without a declared type -/

namespace Schema

/-- A field that is declared without a type gets that of its lambda's body. -/
theorem addField_inferred {w w' : World} {owner : HostType} {name : String} {function : Value}
    {isList : Bool} {description : String} {f : FieldDecl}
    (added : runOn (addField owner name function none isList description) w = (.ok f, w'))
    {context entity : Param} {body : Expr Value}
    (source : f.source = .fixed (.lambda [context, entity] body)) :
    f.host = (body.inferType w' entity owner).host
      ∧ f.isList = (isList || (body.inferType w' entity owner).isList) := by
  obtain ⟨i, _, -, added⟩ := bind_eq_ok added
  obtain ⟨_, _, -, added⟩ := bind_eq_ok added
  obtain ⟨_, _, -, added⟩ := bind_eq_ok added
  obtain ⟨e, v, -, added⟩ := bind_eq_ok added
  rw [runOn_bind_ok (runOn_get v)] at added
  obtain ⟨rfl, rfl⟩ := insertField_ok added
  cases source
  rw [World.withField, World.changeType, Expr.inferType_withSchema]
  exact ⟨rfl, rfl⟩

/-- The value of a field that is declared without a type fits the type it gets, wherever that is
inferred faithfully and members are as their classes say. -/
theorem inferred_type_fits {w w' : World} {owner : HostType} {name : String} {function : Value}
    {isList : Bool} {description : String} {f : FieldDecl}
    (added : runOn (addField owner name function none isList description) w = (.ok f, w'))
    {context entity : Param} {body : Expr Value}
    (source : f.source = .fixed (.lambda [context, entity] body))
    (faithful : body.infersFaithfully w' entity owner) (uniform : w'.classes.areUniform)
    {h : Host} (classes : h.world.classes = w'.classes) {values : HostType → Value → Prop}
    (literals : ∀ x, .lit x ∈ body.spine → x.isNone = false → values (x.typeIn w') x)
    {data self : Value} (typed : values owner self) {t : Trail}
    (conforms : ∀ part ∈ body.spine, ∀ x u,
      runOn (part.eval h (.bind entity self (.bind context data .empty))) t = (.ok x, u) →
        (h.world.after u).Conforms values)
    {v : Value} {u : Trail}
    (run : runOn (Expr.applyLambda h (.lambda [context, entity] body) [data, self]) t
      = (.ok v, u)) :
    let m := body.inferType w' entity owner
    f.host = m.host ∧ f.isList = (isList || m.isList)
      ∧ v.FitsInferred (h.world.after u) (fun t x => x.IsA (h.world.after u) t) m := by
  obtain ⟨host, list⟩ := addField_inferred added source
  refine ⟨host, list, ?_⟩
  have bound (x : Value)
      (found : (Scope.bind entity self (.bind context data .empty)).lookup? entity = some x) :
      values owner x := by
    obtain rfl : self = x := by simpa [Scope.lookup?] using found
    exact typed
  have fits := Expr.fitsInferred_eval classes uniform bound body faithful literals conforms run
  exact fits.imp_left fun fits => fits.mono (conforms body body.mem_spine v u run).isA

/-! ## A person and their name -/

namespace Person

/-- A class of people with names, nicknames and best friends. -/
def person : ClassDecl :=
  { name := "Person", kind := .record, bases := [], properties := [], methods := [], columns := []
    relationships := []
    members := [⟨"name", .type (.builtin .str), none, false⟩,
      ⟨"best", .union [.type (.declared "Person"), .missing], none, false⟩,
      ⟨"nicknames", .sequence "list" true [.type (.builtin .str)], none, false⟩] }

/-- Somebody. -/
def ann : Value := .object (.declared "ann")

def context : Param := ⟨1, "context"⟩

def entity : Param := ⟨2, "person"⟩

/-- A world in which somebody is their own best friend, with a type that is about to get fields. -/
def world : World :=
  { classes := [person]
    objects := [("ann", ⟨.declared "Person",
      [("name", .str "Ann"), ("best", ann), ("nicknames", .list [.str "A"])]⟩)]
    memory := [], closures := []
    schema := { Schema.empty context 2 with
      types := [⟨.declared "Person", "Person", "", false, [], none⟩] } }

/-- The values that conform there. -/
def Conforming : HostType → Value → Prop
  | .builtin b, v => v.IsA world (.builtin b)
  | .declared n, v => n = "Person" ∧ v = ann
  | _, _ => False

/-- What the class says of its members. -/
theorem annotation_person {name : String} {a : Annotation}
    (said : world.classes.annotation? (.declared "Person") name = some a) :
    (name, a) ∈ [("name", Annotation.hinted (.type (.builtin .str))),
      ("best", .hinted (.union [.type (.declared "Person"), .missing])),
      ("nicknames", .hinted (.sequence "list" true [.type (.builtin .str)]))] := by
  have mapped : world.classes.mappedBase? "Person" = none := rfl
  have every : world.classes.allMembers "Person" = person.members := rfl
  have hinted : world.classes.hintedMembers "Person" = person.members := by
    rw [Classes.hintedMembers, every]
    simp [person, Hint.isClassVar]
  have offered : world.classes.attribute? "Person" name = none := by
    refine List.findSome?_eq_none_iff.2 fun c hc => ?_
    obtain rfl := List.mem_singleton.1 hc
    show ((person.members.find? fun m => m.name == name && !m.isMade).bind (·.default)).map _ = none
    refine Option.map_eq_none_iff.2 (Option.bind_eq_none_iff.2 fun m found => ?_)
    have member := List.mem_of_find?_eq_some found
    simp only [person, List.mem_cons, List.not_mem_nil, or_false] at member
    obtain rfl | rfl | rfl := member <;> rfl
  simp only [Classes.annotation?, Classes.declaredAnnotation?, mapped, hinted, offered,
    Option.bind_none, Option.map_none, Option.none_or, Option.or_none] at said
  obtain ⟨m, found, rfl⟩ := Option.map_eq_some_iff.1 said
  have member := List.mem_of_find?_eq_some found
  obtain rfl : m.name = name := by simpa using List.find?_some found
  simp only [person, List.mem_cons, List.not_mem_nil, or_false] at member
  obtain rfl | rfl | rfl := member <;> simp [Hint.ofMember]

theorem conforms : world.Conforms Conforming where
  isA t v typed := by
    cases t with
    | builtin b => exact typed
    | declared n =>
      obtain ⟨rfl, rfl⟩ := typed
      exact .inl rfl
    | _ => exact typed.elim
  builtin b v typed := typed
  member t v name a typed said s x u run := by
    cases t with
    | declared n =>
      obtain ⟨rfl, rfl⟩ := typed
      have known := annotation_person said
      simp only [List.mem_cons, Prod.mk.injEq, List.not_mem_nil, or_false] at known
      obtain ⟨rfl, rfl⟩ | ⟨rfl, rfl⟩ | ⟨rfl, rfl⟩ := known
      · cases run
        exact .value (.inl rfl)
      · cases run
        exact .union (List.mem_cons_self ..) (.value ⟨rfl, rfl⟩)
      · cases run
        refine .elements rfl fun u hu => ?_
        obtain rfl := List.mem_singleton.1 hu
        exact .value (.inl rfl)
    | _ => first | cases said | exact typed.elim

/-- The first nickname of the best friend of somebody. -/
def nickname : Expr Value :=
  .seq .first (.member (.member (.param entity) "best") "nicknames") []

theorem conforms_nickname : ∀ part ∈ nickname.spine, ∀ x u,
    runOn (part.eval world.host (.bind entity ann (.bind context .none .empty))) ⟨2, [], []⟩
      = (.ok x, u) → (world.after u).Conforms Conforming := by
  intro part hp x u run
  simp only [nickname, Expr.spine, List.mem_cons, List.not_mem_nil, or_false] at hp
  obtain rfl | rfl | rfl | rfl := hp <;>
    · cases run
      exact conforms

/-- Declares a field of people without a type. -/
def declaring (body : Expr Value) : Declaring FieldDecl :=
  addField (.declared "Person") "told" (.ofTree (.lambda [context, entity] body)) none false ""

/-- Evaluates the lambda of a field for somebody. -/
def telling (body : Expr Value) : Making Value :=
  (Expr.lambda [context, entity] body).applyLambda world.host [.none, ann]

/-- The nickname is inferred to be a text, and so it is. -/
theorem nickname_fits : ∃ f w', runOn (declaring nickname) world = (.ok f, w')
    ∧ nickname.inferType w' entity (.declared "Person") = ⟨.builtin .str, false⟩
    ∧ ∃ v, runOn (telling nickname) ⟨2, [], []⟩ = (.ok v, ⟨2, [], []⟩)
      ∧ v.FitsInferred world (fun t x => x.IsA world t)
        (nickname.inferType w' entity (.declared "Person")) := by
  refine ⟨_, _, rfl, by decide +kernel, _, rfl, ?_⟩
  have added {r : Outcome FieldDecl × World} (run : runOn (declaring nickname) world = r) :
      runOn (addField (.declared "Person") "told" (.ofTree (.lambda [context, entity] nickname))
        none false "") world = r := run
  have typed : Conforming (.declared "Person") ann := ⟨rfl, rfl⟩
  exact (inferred_type_fits (added rfl) rfl rfl rfl rfl (by simp [nickname, Expr.spine]) typed
    conforms_nickname rfl).2.2

/-- The first letter of the name, as a sequence of one letter. -/
def initial : Expr Value := .seq .take (.member (.param entity) "name") [.lit (.int 1)]

/-- The negation of whether somebody has a name. -/
def nameless : Expr Value :=
  .unary .neg (.binary .eq (.member (.param entity) "name") (.lit (.str "Ann")))

/-- Whether a field is declared with a type that its value does not fit. -/
def Misfits (body : Expr Value) (m : MemberType) (v : Value) : Prop :=
  (∃ f w', runOn (declaring body) world = (.ok f, w') ∧ (f.host, f.isList) = (m.host, m.isList))
    ∧ runOn (telling body) ⟨2, [], []⟩ = (.ok v, ⟨2, [], []⟩)
    ∧ ¬v.FitsInferred world (fun t x => x.IsA world t) m

/-- Taking letters of a text gives a list, which is inferred to be a text, and the negation of a
comparison gives a number, which is inferred to be a truth value. -/
theorem taken_and_negated_misfit : world.Conforms Conforming ∧ Conforming (.declared "Person") ann
    ∧ Misfits initial ⟨.builtin .str, false⟩ (.list [.str "A"])
    ∧ Misfits nameless ⟨.builtin .bool, false⟩ (.int (-1)) := by
  have misfit {v : Value} {b c : Builtin} (some : v ≠ .none) (known : b ≠ .object)
      (own : v.typeIn world = .builtin c) (plain : v.tupleView? world = none) (record : c ≠ .proxy)
      (other : b ∉ c.lineage) :
      ¬v.FitsInferred world (fun t x => x.IsA world t) ⟨.builtin b, false⟩ := by
    rintro ((none | universal | typed) | ⟨-, proxy⟩)
    · exact some none
    · simp [HostType.isUniversal, known] at universal
    · exact other (Value.lineage_of_isA typed own plain some)
    · exact record (HostType.builtin.inj (own.symm.trans proxy))
  refine ⟨conforms, ⟨rfl, rfl⟩, ⟨⟨_, _, rfl, by decide +kernel⟩, rfl, ?_⟩,
    ⟨_, _, rfl, by decide +kernel⟩, rfl, ?_⟩
  · exact misfit nofun (by decide) rfl rfl (by decide) (by decide)
  · exact misfit nofun (by decide) rfl rfl (by decide) (by decide)

end Person

end Schema

end EntityGraph
