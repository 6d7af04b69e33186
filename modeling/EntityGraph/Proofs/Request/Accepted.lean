import EntityGraph.Proofs.Interface.Mirror
import EntityGraph.Proofs.Request.Composed
import EntityGraph.Proofs.Request.Entries
import EntityGraph.Proofs.Request.Refusal
import EntityGraph.Proofs.Schema.Completed
import EntityGraph.Proofs.Validity.Collect
import EntityGraph.Request.Execute

/-!
# Valid documents are accepted

A document is checked against a type system, and then each of its root fields is composed against
the schema. This module shows that the two never disagree: what the rules for documents let pass,
composing accepts. In between stands a property of selected fields: each of them exists on its type,
takes the arguments that it is given, and has fields selected beneath it exactly if its values are
entities. The rules establish it, level by level, because the objects of the type system mirror the
types of the schema; and nothing else is asked of selected fields when they are composed.
-/

set_option linter.unusedSectionVars false

namespace EntityGraph

/-! ## Selected fields that suit their type -/

mutual

/-- Whether a selected field exists on a type and suits its arguments and selections. -/
inductive Suits (w : World) : TypeDecl → Selected → Prop
  | field {t : TypeDecl} {name : String} {args : List (String × Value)} {children : List Selected}
      {f : FieldDecl} (found : t.findField? name = some f) (takes : f.shape.Takes w args)
      (beneath : SuitsAll w (w.schema.typeOf f.host) children) : Suits w t (.field name args children)

/-- Whether selected fields suit the values of a type. -/
inductive SuitsAll (w : World) : TypeDecl → List Selected → Prop
  | scalar {t : TypeDecl} (scalar : t.isScalar = true) : SuitsAll w t []
  | entity {t : TypeDecl} {selections : List Selected} (entity : t.isScalar = false)
      (selected : selections ≠ []) (all : ∀ s ∈ selections, Suits w t s) :
      SuitsAll w t selections

end

/-- Whatever is selected on the values of a type suits the type. -/
theorem SuitsAll.each {w : World} {t : TypeDecl} {selections : List Selected}
    (h : SuitsAll w t selections) : ∀ s ∈ selections, Suits w t s := by
  cases h with
  | scalar scalar => simp
  | entity entity selected all => exact all

namespace Compose

variable {w : World}

theorem selectedField_suits {t : TypeDecl} {f : FieldDecl} {name : String}
    {children : List Selected} (found : t.findField? name = some f)
    (beneath : SuitsAll w (w.schema.typeOf f.host) children) :
    selectedField w t name (!children.isEmpty) = .ok f := by
  unfold selectedField
  rw [found]
  cases beneath with
  | scalar scalar => simp [scalar]
  | entity entity selected each => simp [entity, selected]

theorem unrefused_lend {t : TypeDecl} {f : FieldDecl} {args : List (String × Value)}
    (declared : t ∈ w.schema.types) (member : f ∈ t.fields) (takes : f.shape.Takes w args) :
    Unrefused w (lend w t f args) := by
  refine failsWith_then (ArgShape.unrefused_bind takes) fun bound => ?_
  refine failsWith_then (unrefused_fieldExpression declared member _ _) fun e => ?_
  split
  · split
    · split
      · refine failsWith_then (unrefused_outcome ?_) fun _ => failsWith_pure _
        exact mild_bind (mild_ofTree _) fun _ _ => mild_ok _
      · exact unrefused_throw rfl
    · exact unrefused_throw rfl
  · exact unrefused_throw rfl

theorem unrefused_planWith {t : TypeDecl} {isList : Bool} {selections : List Selected}
    {members : Making (List Member)} (suits : SuitsAll w t selections)
    (each : t.isScalar = false → Unrefused w members) :
    Unrefused w (planWith t isList selections.isEmpty members) := by
  unfold planWith
  cases suits with
  | scalar scalar =>
    rw [if_pos scalar]
    exact failsWith_pure _
  | entity entity selected _ =>
    rw [if_neg (by simp [entity]), if_neg (by simpa using selected)]
    have records : Unrefused w (do return Plan.records isList t.name (← members)) :=
      failsWith_then (each entity) fun _ => failsWith_pure _
    split
    · exact failsWith_then (unrefused_throw rfl) fun _ => records
    · exact records

mutual

theorem unrefused_member {t : TypeDecl} (declared : t ∈ w.schema.types) (seen : List String)
    (s : Selected) (suits : Suits w t s) : Unrefused w (member w t seen s) := by
  cases s with
  | field name args children =>
    cases suits with
    | @field _ _ _ _ f found takes beneath =>
      have selected := selectedField_suits found beneath
      refine failsWith_bind (unrefused_outcome ?_) fun g a b same => ?_
      · rw [selected]
        exact mild_ok f
      · rw [selected, runOn_outcome] at same
        cases same
        split
        · exact failsWith_pure _
        · refine failsWith_then ?_ fun (entity, body) => ?_
          · exact unrefused_lend declared (List.mem_of_find?_eq_some found) takes
          · refine failsWith_then (unrefused_planWith beneath fun entity => ?_) fun plan =>
              failsWith_pure _
            exact unrefused_members (typeOf_mem entity) [] children beneath.each

theorem unrefused_members {t : TypeDecl} (declared : t ∈ w.schema.types) (seen : List String)
    (selections : List Selected) (each : ∀ s ∈ selections, Suits w t s) :
    Unrefused w (members w t seen selections) := by
  cases selections with
  | nil => exact failsWith_pure _
  | cons s rest =>
    have later (seen : List String) : Unrefused w (members w t seen rest) :=
      unrefused_members declared seen rest fun s hs => each s (List.mem_cons_of_mem _ hs)
    refine failsWith_then (unrefused_member declared seen s (each s List.mem_cons_self)) fun m => ?_
    split
    · exact failsWith_then (later _) fun _ => failsWith_pure _
    · exact later seen

end

end Compose
mutual

theorem unrefused_assemble {w : World} (plan : Plan) (value : Expr Value) :
    Unrefused w (plan.assemble value) := by
  cases plan with
  | plain => exact failsWith_pure _
  | records isList typeName ms =>
    refine failsWith_then (failsWith_newParam _) fun row => ?_
    exact failsWith_then (unrefused_assembleMembers row ms) fun fs => failsWith_pure _

theorem unrefused_assembleMember {w : World} (row : Param) (m : Member) :
    Unrefused w (m.assemble row) := by
  cases m with
  | mk name entity body plan =>
    exact failsWith_then (unrefused_assemble plan _) fun e => failsWith_pure _

theorem unrefused_assembleMembers {w : World} (row : Param) (ms : List Member) :
    Unrefused w (assembleMembers row ms) := by
  cases ms with
  | nil => exact failsWith_pure _
  | cons m ms =>
    refine failsWith_then (unrefused_assembleMember row m) fun f => ?_
    exact failsWith_then (unrefused_assembleMembers row ms) fun fs => failsWith_pure _

end

/-- A query that suits its arguments and selections is composed without being refused. -/
theorem QueryDecl.unrefused_compose {w : World} {q : QueryDecl} (declared : q ∈ w.schema.queries)
    {args : List (String × Value)} (takes : q.shape.Takes w args) {selections : List Selected}
    (suits : SuitsAll w (w.schema.typeOf q.host) selections) :
    Unrefused w (q.compose w args selections .all) := by
  have checked : Paging.all.check q = .ok () := by
    simp [Paging.check, Paging.all, Paging.isBound, Value.isNone]
  have asked : Unrefused w (Compose.queryValue w q args) := by
    refine failsWith_then (ArgShape.unrefused_bind takes) fun bound => ?_
    refine failsWith_then (unrefused_queryExpression declared bound) fun e => ?_
    split
    · split
      · exact failsWith_pure _
      · exact unrefused_throw rfl
    · exact unrefused_throw rfl
  have planned :
      Unrefused w (Compose.plan w (w.schema.typeOf q.host) q.isList selections) :=
    Compose.unrefused_planWith suits fun entity =>
      Compose.unrefused_members (typeOf_mem entity) [] selections suits.each
  have forbidden : ¬((w.schema.typeOf q.host).isScalar && !selections.isEmpty) = true := by
    cases suits with
    | scalar scalar => simp
    | entity entity _ _ => simp [entity]
  refine failsWith_then (unrefused_outcome (by rw [checked]; exact mild_ok _)) fun _ => ?_
  refine failsWith_then asked fun value => ?_
  rw [if_neg forbidden]
  refine failsWith_then planned fun plan => ?_
  refine failsWith_then (failsWith_passOver _) fun _ => ?_
  exact failsWith_then (unrefused_assemble plan _) fun _ => failsWith_pure _

/-! ## Requested fields -/

namespace Document

open Interface Validity

theorem mild_isIncluded (vars : Variables) (ds : List Directive) : Mild (isIncluded vars ds) := by
  have condition (x : Directive) : Mild (condition vars x) := by
    unfold Document.condition
    split
    · exact mild_ok _
    · split
      · split
        · exact mild_error rfl
        · exact mild_ok _
      · exact mild_error rfl
    · exact mild_error rfl
  have holds (name : String) (expected : Bool) : Mild (holds vars ds name expected) := by
    unfold Document.holds
    split
    · exact mild_ok _
    · refine mild_bind (condition _) fun v _ => ?_
      split
      · exact mild_ok _
      · exact mild_ok _
  refine mild_bind (holds "skip" true) fun skips _ => ?_
  split
  · exact mild_ok _
  · exact mild_bind (holds "include" false) fun includes _ => mild_ok _

section

variable {fs : List Fragment} {vars : Variables} {opened : Fragment → Outcome (List FieldNode)}
  (opens : ∀ f, Mild (opened f))

include opens

mutual

theorem mild_collectOne (s : Selection) : Mild (collectOne fs vars opened s) := by
  cases s with
  | field label name args ds ss =>
    refine mild_bind (mild_isIncluded vars ds) fun included _ => ?_
    split
    · exact mild_ok _
    · exact mild_ok _
  | inline onType ds ss =>
    refine mild_bind (mild_isIncluded vars ds) fun included _ => ?_
    split
    · exact mild_collectWith ss
    · exact mild_ok _
  | spread name ds =>
    refine mild_bind (mild_isIncluded vars ds) fun included _ => ?_
    split
    · split
      · exact opens _
      · exact mild_error rfl
    · exact mild_ok _

theorem mild_collectWith (ss : List Selection) : Mild (collectWith fs vars opened ss) := by
  cases ss with
  | nil => exact mild_ok _
  | cons s ss =>
    refine mild_bind (mild_collectOne s) fun found _ => ?_
    exact mild_bind (mild_collectWith ss) fun others _ => mild_ok _

end

omit opens

/-- Collecting fields refuses none of them. -/
theorem mild_collectWithin (depth : Nat) (ss : List Selection) :
    Mild (collectWithin fs vars depth ss) := by
  induction depth generalizing ss with
  | zero => exact mild_collectWith (fun _ => mild_error rfl) ss
  | succ depth ih => exact mild_collectWith (fun f => ih f.selections) ss

end

/-- Whatever has the name of an argument among the values has it among the arguments. -/
theorem argumentValues_mem {vars : Variables} {args : List Argument} {a : String × Value}
    (h : a ∈ argumentValues vars args) : ∃ x ∈ args, x.1 = a.1 := by
  have each (args : List Argument) (found : List (String × Value)) :
      ∀ a ∈ args.foldl (fun found x =>
        let v := x.2.value vars
        if isUndefined v then found else putNamed found x.1 v) found,
      (∃ b ∈ found, b.1 = a.1) ∨ ∃ x ∈ args, x.1 = a.1 := by
    induction args generalizing found with
    | nil => exact fun a ha => .inl ⟨a, ha, rfl⟩
    | cons x xs ih =>
      intro a ha
      rw [List.foldl_cons] at ha
      rcases ih _ a ha with ⟨b, hb, same⟩ | ⟨y, hy, same⟩
      · dsimp only at hb
        split at hb
        · exact .inl ⟨b, hb, same⟩
        · rcases mem_putNamed.1 hb with rfl | ⟨hb, _⟩
          · exact .inr ⟨x, List.mem_cons_self, same⟩
          · exact .inl ⟨b, hb, same⟩
      · exact .inr ⟨y, List.mem_cons_of_mem _ hy, same⟩
  rcases each args [] a h with ⟨b, hb, _⟩ | found
  · cases hb
  · exact found

end Document

/-! ## What the rules establish -/

/-- Whether no type has a field of its own in place of the one that completing adds for the name of
a type. Only the type of such a field matters, which is that of texts. -/
def World.namesTypes (w : World) : Bool :=
  w.schema.types.all fun t => (t.findField? Schema.typeNameName).all (·.host == .builtin .str)

theorem World.namesTypes_host {w : World} (h : w.namesTypes = true) {t : TypeDecl} {f : FieldDecl}
    (declared : t ∈ w.schema.types) (found : t.findField? Schema.typeNameName = some f) :
    f.host = .builtin .str := by
  have all := List.all_eq_true.1 h t declared
  rw [found, Option.all_some] at all
  simpa using all

/-- Whether the field for the name of a type is a scalar, whoever declared it. -/
def World.namesScalars (w : World) : Bool :=
  w.schema.types.all fun t =>
    (t.findField? Schema.typeNameName).all fun f => (w.schema.typeOf f.host).isScalar

theorem World.namesScalars_host {w : World} (h : w.namesScalars = true) {t : TypeDecl}
    {f : FieldDecl} (declared : t ∈ w.schema.types)
    (found : t.findField? Schema.typeNameName = some f) :
    (w.schema.typeOf f.host).isScalar = true := by
  have all := List.all_eq_true.1 h t declared
  rw [found, Option.all_some] at all
  exact all

theorem World.namesTypes_scalars {w : World} (sealed : Sealed w) (h : w.namesTypes = true) :
    w.namesScalars = true := by
  refine List.all_eq_true.2 fun t declared => ?_
  cases found : t.findField? Schema.typeNameName with
  | none => rfl
  | some f =>
    rw [Option.all_some, namesTypes_host h declared found]
    exact sealed.text

namespace Validity

open Document Interface

/-- Whether a selection asks for something as composing can give it: no directive leaves it out,
only a root field is given out under another name, and it asks nothing about the schema itself. -/
def Mention.isDirect (m : Mention) : Bool :=
  m.directives.all (fun x => x.name != "skip" && x.name != "include")
    && match m.selection with
      | .field label name .. =>
        (label.isNone || m.parent.any (·.name == rootName)) && !schemaFields.contains name
      | _ => true

/-- Whether all selections of a document ask so. -/
def isDirect (sys : TypeSystem) (d : Document) : Bool := (inDocument sys d).all (·.isDirect)

theorem isDirect_unconditional {sys : TypeSystem} {d : Document} (h : isDirect sys d = true) :
    Unconditional sys d := by
  intro m hm x hx
  have direct := List.all_eq_true.1 h m hm
  unfold Mention.isDirect at direct
  rw [Bool.and_eq_true, List.all_eq_true] at direct
  simpa using direct.1 x hx

/-- Whether all fields of a document are asked for plainly, whatever directives they have: only root
fields are given out under other names, and none asks about the schema itself. -/
def isPlain (sys : TypeSystem) (d : Document) : Bool :=
  (inDocument sys d).all fun m =>
    match m.selection with
    | .field label name .. =>
      (label.isNone || m.parent.any (·.name == rootName)) && !schemaFields.contains name
    | _ => true

theorem isDirect_plain {sys : TypeSystem} {d : Document} (h : isDirect sys d = true) :
    isPlain sys d = true := by
  refine List.all_eq_true.2 fun m hm => ?_
  have direct := List.all_eq_true.1 h m hm
  unfold Mention.isDirect at direct
  rw [Bool.and_eq_true] at direct
  exact direct.2

theorem isPlain_field {sys : TypeSystem} {d : Document} (h : isPlain sys d = true)
    {parent : Option TypeDef} {label : Option String} {name : String} {args : List Argument}
    {ds : List Document.Directive} {ss : List Selection}
    (mentioned : (⟨parent, .field label name args ds ss⟩ : Mention) ∈ inDocument sys d) :
    (label.isNone || parent.any (·.name == rootName)) = true ∧ name ∉ schemaFields := by
  have plain := List.all_eq_true.1 h _ mentioned
  rw [Bool.and_eq_true] at plain
  exact ⟨plain.1, by simpa using plain.2⟩

theorem isDirect_field {sys : TypeSystem} {d : Document} (h : isDirect sys d = true)
    {parent : Option TypeDef} {label : Option String} {name : String} {args : List Argument}
    {ds : List Document.Directive} {ss : List Selection}
    (mentioned : (⟨parent, .field label name args ds ss⟩ : Mention) ∈ inDocument sys d) :
    (label.isNone || parent.any (·.name == rootName)) = true ∧ name ∉ schemaFields :=
  isPlain_field (isDirect_plain h) mentioned

/-- Whether selections suit the values of a type: there are none for a scalar, and for an entity
some that stand beneath its object. -/
inductive Leads (v : World) (sys : TypeSystem) (d : Document) :
    TypeDecl → List Selection → Prop
  | scalar {t : TypeDecl} (scalar : t.isScalar = true) : Leads v sys d t []
  | entity {t : TypeDecl} {object : TypeDef} {ss : List Selection} (entity : t.isScalar = false)
      (stands : Stands v sys t object) (beneath : Beneath sys d object ss) (some : ss ≠ []) :
      Leads v sys d t ss

section

variable {v w : World} {sys : TypeSystem} {d : Document}

theorem typeOf_redeclares (same : Redeclares v w) (host : HostType) :
    v.schema.typeOf host = w.schema.typeOf host := by
  unfold Schema.typeOf Schema.resolve Schema.typeRefOf Schema.findType? Schema.scalarOf?
  rw [same.types, same.scalars]

theorem types_redeclares (same : Redeclares v w) {shape : ArgShape}
    {types types' : List (Value × HostType)} (before : shape.types v = .ok types)
    (after : shape.types w = .ok types') : ∀ p ∈ types, ∃ p' ∈ types', p'.1 = p.1 := by
  intro p hp
  cases shape with
  | none =>
    cases before
    cases hp
  | defaults es =>
    cases before
    cases after
    obtain ⟨e, he, rfl⟩ := List.mem_map.1 hp
    exact ⟨_, List.mem_map_of_mem he, rfl⟩
  | fieldsOf c =>
    change (if ArgShape.hasFields v c then _ else _) = _ at before
    change (if ArgShape.hasFields w c then _ else _) = _ at after
    split at before
    · split at after
      · cases before
        cases after
        obtain ⟨m, hm, rfl⟩ := List.mem_map.1 hp
        rw [same.classes] at hm
        exact ⟨_, List.mem_map_of_mem hm, rfl⟩
      · cases after
    · cases before
  | unsupported u => cases before

/-- Arguments that a field of an object takes are declared by the shape that the field has. -/
theorem takes_of_argumentsFit (same : Redeclares v w) {shape : ArgShape} {f : FieldDef}
    (pictured : ∃ types, shape.types v = .ok types
      ∧ ∀ a ∈ f.args, ∃ p ∈ types, p.1.text? = some a.name)
    {args : List Argument} (fit : argumentsFit f.args args = true) (vars : Variables) :
    shape.Takes w (argumentValues vars args) := by
  intro types found a ha
  obtain ⟨types', before, each⟩ := pictured
  obtain ⟨x, hx, name⟩ := argumentValues_mem ha
  have known : ∀ x ∈ args, ∃ b ∈ f.args, b.name = x.1 := by
    unfold argumentsFit at fit
    rw [Bool.and_eq_true, List.all_eq_true] at fit
    intro x hx
    simpa using fit.1 x hx
  obtain ⟨b, hb, argument⟩ := known x hx
  obtain ⟨p, hp, text⟩ := each b hb
  obtain ⟨p', hp', key⟩ := types_redeclares same before found p hp
  unfold ArgShape.typeOf?
  rw [Option.isSome_map, List.find?_isSome]
  exact ⟨p', hp', by simp [key, text, argument, name]⟩

/-- The selections of a field lead to the values that the field is pictured to have. -/
theorem leads_of_pictures {host : HostType} {shape : ArgShape} {f : FieldDef}
    (pictures : Pictures v sys host shape f) {ss : List Selection}
    (fit : ((sys.core? f.type).any (·.isObject) == !ss.isEmpty) = true)
    (mentioned : ∀ m ∈ mentionsAll sys (beneath sys (some f)) ss, m ∈ inDocument sys d)
    (filled : areFilled ss = true) : Leads v sys d (v.schema.typeOf host) ss := by
  have selected : (sys.core? f.type).any (·.isObject) = !ss.isEmpty := by simpa using fit
  cases scalar : (v.schema.typeOf host).isScalar with
  | true =>
    rw [pictures.scalar scalar] at selected
    have none : ss = [] := by simpa using selected
    rw [none]
    exact .scalar scalar
  | false =>
    obtain ⟨object, stands, core⟩ := pictures.entity scalar
    obtain ⟨ds, _, body⟩ := stands.fields
    have isObject := (isObject_of_body body).1
    have here : beneath sys (some f) = some object := by
      show (sys.core? f.type).filter (·.isObject) = some object
      rw [core, Option.filter_some, if_pos isObject]
    rw [core, Option.any_some, isObject] at selected
    rw [here] at mentioned
    exact .entity scalar stands ⟨mentioned, filled⟩ (by simpa using selected.symm)

/-- The field of an object that a selection means, and what the rules say of the selection. -/
theorem Meant.field {object : TypeDef} {n : FieldNode} (meant : Meant sys d object n)
    (obeys : Obeys sys d) :
    ∃ f, object.fieldNamed? n.name = some f
      ∧ ((sys.core? f.type).any (·.isObject) == !n.selections.isEmpty) = true
      ∧ argumentsFit f.args n.args = true
      ∧ ∀ m ∈ mentionsAll sys (beneath sys (some f)) n.selections, m ∈ inDocument sys d := by
  obtain ⟨ds, mentioned⟩ := meant.mentioned
  have here := mentioned _ (by rw [mentions]; exact List.mem_cons_self)
  have fits := obeys.fits _ here
  unfold selectionFits at fits
  rw [Bool.and_eq_true, Bool.and_eq_true] at fits
  have fit := fits.1.1
  cases found : object.fieldNamed? n.name with
  | none => simp [fieldFits, Mention.field?, fieldOf, found] at fit
  | some f =>
    simp only [fieldFits, Mention.field?, fieldOf, Option.bind_some, found, Bool.and_eq_true] at fit
    refine ⟨f, rfl, fit.2.1, fit.2.2, fun m hm => mentioned m ?_⟩
    rw [mentions, fieldOf, Option.bind_some, found]
    exact List.mem_cons_of_mem _ hm

/-- Nothing is selected beneath the name of a type, which is a text. -/
theorem typeName_bare {queries : List Draw} {placed : Placed} {met : List Reached}
    (o : Origin v sys queries placed met) {ss : List Selection}
    (selected : ((sys.core? typeNameField.type).any (·.isObject) == !ss.isEmpty) = true) :
    ss = [] := by
  obtain ⟨text, found, isLeaf⟩ := o.scalar_found o.text
  have core : sys.core? typeNameField.type = some text := found
  rw [core, Option.any_some, isLeaf] at selected
  simpa using selected

/-- A field beneath an entity's object is a field of the entity's type, suits its arguments, and
leads on to what its values are. -/
theorem Meant.leads {queries : List Draw} {placed : Placed} {met : List Reached}
    (o : Origin v sys queries placed met) (same : Redeclares v w) (orderly : Orderly w.schema.types)
    (sealed : Sealed w) (named : w.namesScalars = true) (obeys : Obeys sys d) {t : TypeDecl}
    {object : TypeDef} (stands : Stands v sys t object) {n : FieldNode}
    (meant : Meant sys d object n) (vars : Variables) :
    ∃ g, t.findField? n.name = some g ∧ g.shape.Takes w (argumentValues vars n.args)
      ∧ Leads v sys d (w.schema.typeOf g.host) n.selections := by
  obtain ⟨f, found, selected, fit, mentioned⟩ := meant.field obeys
  have orderly' : Orderly v.schema.types := by
    rw [same.types]
    exact orderly
  rcases o.field orderly' stands found with ⟨name, rfl⟩ | ⟨g, source, pictures⟩
  · -- the name of the type: the type system gives it out as a text, and so does the schema
    have member : t ∈ w.schema.types := by
      rw [← same.types]
      exact List.mem_of_mem_filter stands.declared
    have entity : t.isScalar = false := by
      have drawn := List.of_mem_filter stands.declared
      rw [Bool.and_eq_true] at drawn
      simpa using drawn.1
    obtain ⟨g, source⟩ := Option.isSome_iff_exists.1 (sealed.named t member entity)
    have leaf := World.namesScalars_host named member source
    have plain : argumentValues vars n.args = [] := by
      have none : n.args = [] := by
        unfold argumentsFit at fit
        rw [Bool.and_eq_true, List.all_eq_true] at fit
        rw [List.eq_nil_iff_forall_not_mem]
        intro a ha
        have declared := fit.1 a ha
        simp [typeNameField, plainField] at declared
      rw [none]
      rfl
    refine ⟨g, by rw [name]; exact source, ?_, ?_⟩
    · rw [plain]
      intro types _ a ha
      cases ha
    · rw [typeName_bare o selected]
      exact .scalar leaf
  · refine ⟨g, source, takes_of_argumentsFit same pictures.args fit vars, ?_⟩
    rw [← typeOf_redeclares same]
    exact leads_of_pictures pictures selected mentioned meant.filled

/-- An object that an entity type became is found as an object. -/
theorem stands_object? {t : TypeDecl} {object : TypeDef}
    (stands : Stands v sys t object) : sys.object? object.name = some object := by
  obtain ⟨ds, _, body⟩ := stands.fields
  unfold TypeSystem.object?
  rw [stands.name, stands.found, Option.filter_some, if_pos (isObject_of_body body).1]

/-- Whether fields are requested without being refused, so that they suit a type. -/
def Requests (w : World) (t : TypeDecl) (x : Outcome (List Requested)) : Prop :=
  Mild x ∧ ∀ rs, x = .ok rs → SuitsAll w t (selectedAll rs)

theorem selectedAll_eq_map (rs : List Requested) : selectedAll rs = rs.map Requested.selected := by
  induction rs with
  | nil => rfl
  | cons r rs ih => rw [selectedAll, ih, List.map_cons]

/-- What is requested beneath a field, with a bound on the nesting. -/
def requestedBeneath (d : Document) (vars : Variables) (depth : Nat) (ss : List Selection) :
    Outcome (List Requested) := do
  expandWithin (fragments d) vars refuseLabel depth (← collect (fragments d) vars ss)

/-- Nothing is requested where nothing is selected. -/
theorem requestedBeneath_nil (d : Document) (vars : Variables) (depth : Nat) :
    requestedBeneath d vars depth [] = .ok [] := by
  have nothing : collect (fragments d) vars [] = .ok [] := by
    unfold collect collectWithin
    split <;> rfl
  unfold requestedBeneath
  rw [nothing]
  cases depth <;> rfl

theorem expandWithin_succ (vars : Variables) (depth : Nat) (nodes : List FieldNode) :
    expandWithin (fragments d) vars refuseLabel (depth + 1) nodes = nodes.mapM (fun n => do
      refuseLabel n
      let children ← requestedBeneath d vars depth n.selections
      .ok (.field n.output n.name (argumentValues vars n.args) children)) := by
  simp only [expandWithin, requestedBeneath, bind_assoc]

/-- Whether selections with a property, wherever they stand beneath an object, keep some field, and
whatever is selected beneath the fields that they keep has the property too. -/
def Keeping (sys : TypeSystem) (d : Document) (vars : Variables) (K : List Selection → Prop) :
    Prop :=
  ∀ (object : TypeDef) (ss : List Selection) (nodes : List FieldNode),
    sys.object? object.name = some object → Beneath sys d object ss → ss ≠ [] → K ss →
      collect (fragments d) vars ss = .ok nodes → nodes ≠ [] ∧ ∀ n ∈ nodes, K n.selections

/-- Where no directive leaves selections out, all selections keep some field. -/
theorem keeping_of_unconditional (obeys : Obeys sys d) (unconditional : Unconditional sys d)
    (filled : ∀ x ∈ d, x.isFilled = true) (vars : Variables) :
    Keeping sys d vars fun _ => True := by
  intro object ss nodes known beneath some _ h
  have finds := collectWithin_finds obeys unconditional known filled _ beneath some h
  exact ⟨finds.2, fun _ _ => trivial⟩

section

variable {queries : List Draw} {placed : Placed} {met : List Reached}
  (o : Origin v sys queries placed met) (same : Redeclares v w) (orderly : Orderly w.schema.types)
  (sealed : Sealed w) (named : w.namesScalars = true) (obeys : Obeys sys d)
  (filled : ∀ x ∈ d, x.isFilled = true) (plain : isPlain sys d = true) {vars : Variables}
  {K : List Selection → Prop} (keeping : Keeping sys d vars K)

include obeys filled keeping

/-- Selections are requested like the fields that are collected from them. -/
theorem Leads.requests_keeping (depth : Nat)
    (level : ∀ {t : TypeDecl} {object : TypeDef} {nodes : List FieldNode}, t.isScalar = false →
      Stands v sys t object → (∀ n ∈ nodes, Meant sys d object n ∧ K n.selections) → nodes ≠ [] →
        Requests w t (expandWithin (fragments d) vars refuseLabel depth nodes))
    {t : TypeDecl} {ss : List Selection} (leads : Leads v sys d t ss) (kept : K ss) :
    Requests w t (requestedBeneath d vars depth ss) := by
  cases leads with
  | scalar scalar =>
    rw [requestedBeneath_nil]
    refine ⟨mild_ok _, fun rs h => ?_⟩
    cases h
    exact .scalar scalar
  | entity entity stands beneath some =>
    have requests {nodes : List FieldNode} (h : collect (fragments d) vars ss = .ok nodes) :
        Requests w t (expandWithin (fragments d) vars refuseLabel depth nodes) := by
      have known := stands_object? stands
      have gathers := collectWithin_gathers obeys known filled _ beneath some h
      obtain ⟨found, kept⟩ := keeping _ _ _ known beneath some kept h
      exact level entity stands (fun n hn => ⟨gathers.meant n hn, kept n hn⟩) found
    constructor
    · exact mild_bind (mild_collectWithin _ _) fun nodes found => (requests found).1
    · intro rs h
      obtain ⟨nodes, found, h⟩ := outcome_bind_ok h
      exact (requests found).2 rs h

include o same orderly sealed named plain

/-- Fields beneath the object of an entity type are requested without being refused. The levels that
are left bound how deep they are nested, and every level leads to the types of the one above. -/
theorem requests_keeping (depth : Nat) {t : TypeDecl} {object : TypeDef} {nodes : List FieldNode}
    (entity : t.isScalar = false) (stands : Stands v sys t object)
    (meant : ∀ n ∈ nodes, Meant sys d object n ∧ K n.selections) (some : nodes ≠ []) :
    Requests w t (expandWithin (fragments d) vars refuseLabel depth nodes) := by
  induction depth generalizing t object nodes with
  | zero =>
    have all : expandWithin (fragments d) vars refuseLabel 0 nodes = .error endless := by
      rw [expandWithin, if_neg (by simpa using some)]
    rw [all]
    exact ⟨mild_error rfl, nofun⟩
  | succ depth ih =>
    have leads {n : FieldNode} (hn : n ∈ nodes) :=
      (meant n hn).1.leads o same orderly sealed named obeys stands vars
    have beneath {n : FieldNode} (hn : n ∈ nodes) {g : FieldDecl}
        (leads : Leads v sys d (w.schema.typeOf g.host) n.selections) :=
      leads.requests_keeping obeys filled keeping depth ih (meant n hn).2
    have unlabelled {n : FieldNode} (hn : n ∈ nodes) : refuseLabel n = .ok () := by
      obtain ⟨ds, mentioned⟩ := (meant n hn).1.mentioned
      have here := mentioned _ (by rw [mentions]; exact List.mem_cons_self)
      have bare : n.label = none := by
        cases label : n.label with
        | none => rfl
        | some l =>
          rw [label] at here
          have root := (isPlain_field plain here).1
          simp [stands.name, stands.apart] at root
      simp [refuseLabel, FieldNode.output, bare]
    rw [expandWithin_succ]
    constructor
    · refine faultsIn_mapM nodes fun n hn => ?_
      obtain ⟨g, _, _, leads⟩ := leads hn
      rw [unlabelled hn]
      refine mild_bind (mild_ok _) fun _ _ => ?_
      exact mild_bind (beneath hn leads).1 fun _ _ => mild_ok _
    · intro rs made
      rw [selectedAll_eq_map]
      refine .entity entity ?_ fun s hs => ?_
      · intro none
        rw [List.map_eq_nil_iff] at none
        rw [none] at made
        exact some (outcome_mapM_nil made)
      · obtain ⟨r, hr, rfl⟩ := List.mem_map.1 hs
        obtain ⟨n, hn, made⟩ := outcome_mapM_mem made hr
        obtain ⟨g, found, takes, leads⟩ := leads hn
        obtain ⟨_, _, made⟩ := outcome_bind_ok made
        obtain ⟨children, requested, made⟩ := outcome_bind_ok made
        cases made
        exact .field found takes ((beneath hn leads).2 children requested)

end

variable {queries : List Draw} {placed : Placed} {met : List Reached}
  (o : Origin v sys queries placed met) (same : Redeclares v w) (orderly : Orderly w.schema.types)
  (sealed : Sealed w) (named : w.namesTypes = true) (obeys : Obeys sys d)
  (filled : ∀ x ∈ d, x.isFilled = true) (direct : isDirect sys d = true) (vars : Variables)

include obeys filled direct

/-- Without directives this goes for all selections. -/
theorem Leads.requests (depth : Nat)
    (level : ∀ {t : TypeDecl} {object : TypeDef} {nodes : List FieldNode}, t.isScalar = false →
      Stands v sys t object → Finds sys d object nodes →
        Requests w t (expandWithin (fragments d) vars refuseLabel depth nodes))
    {t : TypeDecl} {ss : List Selection} (leads : Leads v sys d t ss) :
    Requests w t (requestedBeneath d vars depth ss) := by
  have keeping := keeping_of_unconditional obeys (isDirect_unconditional direct) filled vars
  refine leads.requests_keeping obeys filled keeping depth ?_ trivial
  exact fun entity stands meant some => level entity stands ⟨fun n hn => (meant n hn).1, some⟩

include o same orderly sealed named

theorem Finds.requests (depth : Nat) {t : TypeDecl} {object : TypeDef} {nodes : List FieldNode}
    (entity : t.isScalar = false) (stands : Stands v sys t object)
    (finds : Finds sys d object nodes) :
    Requests w t (expandWithin (fragments d) vars refuseLabel depth nodes) := by
  have keeping := keeping_of_unconditional obeys (isDirect_unconditional direct) filled vars
  exact requests_keeping o same orderly sealed (World.namesTypes_scalars sealed named) obeys filled
    (isDirect_plain direct) keeping depth entity stands (fun n hn => ⟨finds.1 n hn, trivial⟩)
    finds.2

end

end Validity

namespace Document

open Interface Validity

theorem readValid_ok {w : World} {source : String} {d : Document}
    (h : readValid w source = .ok d) :
    ∃ sys, w.schema.system = some sys ∧ parse source = some d ∧ d.isValid sys = true := by
  unfold readValid at h
  obtain ⟨d', parsed, h⟩ := outcome_bind_ok h
  have found : parse source = some d' := by
    unfold read at parsed
    split at parsed
    · next found =>
      cases parsed
      exact found
    · cases parsed
  split at h
  · cases h
  · next sys system =>
    split at h
    · cases h
    · split at h
      · next valid =>
        cases h
        exact ⟨sys, system, found, valid⟩
      · cases h

theorem query_ok {d : Document} {o : Operation} (h : query d = .ok o) :
    o ∈ operations d ∧ o.kind = .query := by
  unfold query at h
  split at h
  · next o' only =>
    split at h
    · next is =>
      cases h
      exact ⟨by rw [only]; exact List.mem_cons_self, by simpa using is⟩
    · cases h
  · cases h

/-- What is valid is accepted: wherever a valid document asks directly for fields, converting a root
field to selected fields refuses none of them, the query of the root field exists, and composing
refuses nothing either, unless a function of the application itself does. -/
theorem valid_field_accepted {w : World} (reached : w.IsReached)
    (completed : w.schema.completed = true) (named : w.namesTypes = true) {source : String}
    {d : Document} (valid : readValid w source = .ok d) {sys : TypeSystem}
    (system : w.schema.system = some sys) (direct : isDirect sys d = true) {o : Operation}
    (query : Document.query d = .ok o) {vars : Variables} {roots : List FieldNode}
    (collected : collect (fragments d) vars o.selections = .ok roots) {f : FieldNode}
    (root : f ∈ roots) (own : f.name ≠ Schema.typeNameName) :
    let converted := do expand d vars refuseLabel (← collect (fragments d) vars f.selections)
    Mild converted ∧ ∃ q, w.query f.name = .ok q ∧ ∀ children, converted = .ok children →
      Unrefused w (q.compose w (argumentValues vars f.args) (selectedAll children) .all) := by
  have sealed := reached.sealed completed
  have orderly := reached.orderly
  obtain ⟨v, sys', system', drawn, same⟩ := sealed.system
  obtain rfl : sys' = sys := Option.some.inj (system'.symm.trans system)
  obtain ⟨queries, placed, met, origin⟩ := ofSchema_ok drawn
  have orderly' : Orderly v.schema.types := by
    rw [same.types]
    exact orderly
  obtain ⟨sys'', system'', parsed, isValid⟩ := readValid_ok valid
  obtain rfl : sys'' = sys' := Option.some.inj (system''.symm.trans system)
  have obeys := isValid_obeys isValid
  have filled := parse_isFilled parsed
  obtain ⟨operation, kind⟩ := query_ok query
  -- The root fields stand beneath the root type.
  obtain ⟨object, found, name, body⟩ := origin.root_stands
  obtain ⟨isObject, fields⟩ := isObject_of_body body
  have known : sys''.object? rootName = some object := by
    unfold TypeSystem.object?
    rw [found, Option.filter_some, if_pos isObject]
  have rooted : rootOf sys'' o = some object := by
    unfold rootOf
    rw [kind]
    exact known
  obtain ⟨beneath, some⟩ := beneath_operation filled operation rooted
  have finds := collectWithin_finds obeys (isDirect_unconditional direct)
    (by rw [name]; exact known) filled _ beneath some collected
  have meant := finds.1 f root
  obtain ⟨field, source, selected, fit, mentioned⟩ := meant.field obeys
  obtain ⟨ds, mentions⟩ := meant.mentioned
  have here := mentions _ (by rw [Validity.mentions]; exact List.mem_cons_self)
  have asks := (isDirect_field direct here).2
  -- So a root field is a query.
  have among : (queries.map (·.field)).find? (·.name == f.name) = Option.some field := by
    have others : ∀ x ∈ typeNameField :: rootMetaFields, ¬(x.name == f.name) = true := by
      intro x hx same
      have is : x.name = f.name := by simpa using same
      rcases List.mem_cons.1 hx with rfl | hx
      · exact own is.symm
      · refine asks ?_
        rw [← is]
        simp only [rootMetaFields, List.mem_cons, List.not_mem_nil, or_false] at hx
        rcases hx with rfl | rfl <;> decide
    unfold TypeDef.fieldNamed? at source
    rw [if_pos isObject, name, fields, if_pos (by simp), List.find?_append,
      List.find?_eq_none.2 others] at source
    exact source
  obtain ⟨q, declared, pictures⟩ := origin.query orderly' among
  have member : q ∈ w.schema.queries := by
    rw [← same.queries]
    exact List.mem_of_find?_eq_some declared
  have leads := leads_of_pictures pictures selected mentioned meant.filled
  rw [typeOf_redeclares same] at leads
  have requests := leads.requests obeys filled direct vars (size d + 1) fun entity stands finds =>
    finds.requests origin same orderly sealed named obeys filled direct vars _ entity stands
  refine ⟨requests.1, q, ?_, fun children converted => ?_⟩
  · unfold World.query Schema.findQuery? at *
    rw [← same.queries, declared]
  · exact QueryDecl.unrefused_compose member (takes_of_argumentsFit same pictures.args fit vars)
      (requests.2 children converted)

/-- Whether a document is valid, asks directly, and has a root field with a name whose selections can be
converted. -/
def asksDirectly (w : World) (source name : String) : Bool :=
  match readValid w source, w.schema.system with
  | .ok d, some sys =>
    match query d with
    | .ok o =>
      match collect (fragments d) [] o.selections with
      | .ok roots => isDirect sys d && roots.any fun f =>
          f.name == name
            && (do expand d [] refuseLabel (← collect (fragments d) [] f.selections)).isOk
      | .error _ => false
    | .error _ => false
  | _, _ => false

/-- A root field under another name, with a fragment that asks for the name of a type. -/
theorem sample_field_accepted :
    let w := QueryDecl.sample (.param QueryDecl.sampleEntity)
    ∃ (d : Document) (f : FieldNode) (children : List Requested), readValid w
        "{ one: user { value ...Named } } fragment Named on User { __typename }" = .ok d
      ∧ f.name = "user"
      ∧ (do expand d [] refuseLabel (← collect (fragments d) [] f.selections)) = .ok children
      ∧ ∃ q, w.query "user" = .ok q
        ∧ Unrefused w (q.compose w (argumentValues [] f.args) (selectedAll children) .all) := by
  have accepted (w : World) (source : String) (reached : w.IsReached)
      (completed : w.schema.completed = true) (named : w.namesTypes = true)
      (asks : asksDirectly w source "user" = true) :
      ∃ (d : Document) (f : FieldNode) (children : List Requested),
        readValid w source = .ok d ∧ f.name = "user"
        ∧ (do expand d [] refuseLabel (← collect (fragments d) [] f.selections)) = .ok children
        ∧ ∃ q, w.query "user" = .ok q
          ∧ Unrefused w (q.compose w (argumentValues [] f.args) (selectedAll children) .all) := by
    unfold asksDirectly at asks
    split at asks
    · next d sys valid system =>
      split at asks
      · next o query =>
        split at asks
        · next roots collected =>
          rw [Bool.and_eq_true, List.any_eq_true] at asks
          obtain ⟨direct, f, root, asks⟩ := asks
          rw [Bool.and_eq_true, beq_iff_eq] at asks
          obtain ⟨name, converts⟩ := asks
          have own : f.name ≠ Schema.typeNameName := by
            rw [name]
            decide
          obtain ⟨_, q, found, composes⟩ := valid_field_accepted reached completed named valid
            system direct query collected root own
          rw [name] at found
          cases converted :
              (do expand d [] refuseLabel (← collect (fragments d) [] f.selections)) with
          | error e =>
            rw [converted] at converts
            cases converts
          | ok children =>
            exact ⟨d, f, children, valid, name, converted, q, found, composes children converted⟩
        · cases asks
      · cases asks
    · cases asks
  exact accepted (QueryDecl.sample (.param QueryDecl.sampleEntity)) _
    (QueryDecl.sample_isReached _) (by decide +kernel) (by decide +kernel) (by decide +kernel)

end Document

end EntityGraph
