import EntityGraph.Proofs.Request.Accepted
import EntityGraph.Proofs.Request.Visited
import EntityGraph.Proofs.Schema.Described
import EntityGraph.Proofs.Schema.Lambdas

/-!
# Required arguments

The type system of requests presents every argument as one that may be left out, those without a
default included, so that the rules for documents let a document leave out any of them. They are
asked for later, when the arguments of a field are bound. Composing a request says that required
arguments are missing only where one of its fields leaves some out, and names exactly these.

The argument goes along the tree of selected fields, with a property of the names that each of them
leaves out. The fields beneath the objects of the type system have it because they stand in the
document; those of the description have it because they take no arguments.
-/

set_option linter.unusedSectionVars false

namespace EntityGraph

/-! ## What a field leaves out -/

/-- The required arguments that are not among these names. -/
def ArgShape.omitted (w : World) (shape : ArgShape) (names : List String) : List String :=
  (shape.required w).filter fun n => !names.contains n

/-- Whether a fault that speaks of missing arguments is one that a function of the application
raises, or names what was left out somewhere. -/
def Blames (w : World) (R : List String → Prop) (e : Fault) : Prop :=
  ∀ names, e = .missingArguments names →
    w.Raises e ∨ ∃ omitted, omitted ≠ [] ∧ R omitted ∧ names = sortedNames omitted

section

variable {w : World} {R : List String → Prop}

theorem blames_other {e : Fault} (h : ∀ names, e ≠ .missingArguments names) : Blames w R e :=
  fun names same => absurd same (h names)

theorem blames_mundane (e : Fault) (h : e.IsMundane) : Blames w R e := by
  refine blames_other fun names same => ?_
  rw [same] at h
  exact h

theorem blames_raises (e : Fault) (h : w.Raises e) : Blames w R e := fun _ _ => .inl h

theorem ArgShape.filter_missing (shape : ArgShape) (raw : List (String × Value)) :
    (shape.required w).filter (fun n => !raw.any (·.1 == n))
      = shape.omitted w (raw.map (·.1)) := by
  unfold omitted
  congr 1
  funext n
  rw [List.contains_eq_any_beq, List.any_map]
  congr 2
  funext a
  exact BEq.comm

/-- The check of arguments names exactly the required ones that are not there. -/
theorem ArgShape.check_missing {shape : ArgShape} {types : List (Value × HostType)}
    {raw : List (String × Value)} {names : List String}
    (h : shape.check w types raw = .error (.missingArguments names)) :
    shape.omitted w (raw.map (·.1)) ≠ [] ∧ names = sortedNames (shape.omitted w (raw.map (·.1))) := by
  unfold check at h
  dsimp only at h
  split at h
  · cases h
  · rw [filter_missing] at h
    split at h
    · next some =>
      cases h
      exact ⟨by simpa using some, rfl⟩
    · cases h

theorem ArgShape.blames_bind {shape : ArgShape} {raw : List (String × Value)}
    (blamed : shape.omitted w (raw.map (·.1)) ≠ [] → R (shape.omitted w (raw.map (·.1)))) :
    FailsWith (Blames w R) (shape.bind w w.schema.scalars raw) := by
  refine failsWith_bind blames_mundane blames_raises (fun _ _ => blames_other (by simp)) ?_ ?_
  · cases shape with
    | none => exact faultsIn_ok _
    | defaults es => exact faultsIn_ok _
    | fieldsOf c =>
      show FaultsIn _ (if hasFields w c then _ else _)
      split
      · exact faultsIn_ok _
      · exact faultsIn_error (blames_other (by simp))
    | unsupported v => exact faultsIn_error (blames_other (by simp))
  · intro types _ e fails names same
    rw [same] at fails
    obtain ⟨some, rfl⟩ := check_missing fails
    exact .inr ⟨_, some, blamed some, rfl⟩

/-- Arguments that a shape declares are refused where required ones are left out. -/
theorem ArgShape.bind_missing {shape : ArgShape} {raw : List (String × Value)}
    (typed : shape.HasTypes w) (takes : shape.Takes w raw)
    (missing : shape.omitted w (raw.map (·.1)) ≠ []) (a : Trail) :
    runOn (shape.bind w w.schema.scalars raw) a
      = (.error (.missingArguments (sortedNames (shape.omitted w (raw.map (·.1))))), a) := by
  obtain ⟨types, typed⟩ := typed
  have checked : shape.check w types raw
      = .error (.missingArguments (sortedNames (shape.omitted w (raw.map (·.1))))) := by
    have expected : (raw.map (·.1)).filter (fun n => (typeOf? types n).isNone) = [] := by
      rw [List.filter_eq_nil_iff]
      intro n hn
      obtain ⟨a, ha, rfl⟩ := List.mem_map.1 hn
      simpa [Option.isSome_iff_ne_none] using takes types typed a ha
    unfold check
    dsimp only
    rw [expected, filter_missing, if_neg (by simp), if_pos (by simpa using missing)]
  cases shape with
  | none => exact absurd rfl missing
  | defaults es => exact absurd rfl missing
  | fieldsOf c =>
    show runOn (liftM (ArgShape.types w _) >>= fun types => _) a = _
    rw [typed, liftM_ok_bind, checked]
    rfl
  | unsupported v => cases typed

/-! ## Composing blames what is left out -/

/-- Whether the arguments that a selected field leaves out, and those that the fields selected
beneath it do, have a property, as far as the fields exist. -/
inductive Leaves (w : World) (R : List String → Prop) : TypeDecl → Selected → Prop
  | field {t : TypeDecl} {name : String} {args : List (String × Value)} {children : List Selected}
      (own : ∀ f, t.findField? name = some f → f.shape.omitted w (args.map (·.1)) ≠ [] →
        R (f.shape.omitted w (args.map (·.1))))
      (beneath : ∀ f, t.findField? name = some f → (w.schema.typeOf f.host).isScalar = false →
        ∀ s ∈ children, Leaves w R (w.schema.typeOf f.host) s) :
      Leaves w R t (.field name args children)

namespace Compose

theorem blames_selectedField (t : TypeDecl) (name : String) (hasChildren : Bool) :
    FaultsIn (Blames w R) (selectedField w t name hasChildren) := by
  unfold selectedField
  split
  · exact faultsIn_error (blames_other (by simp))
  · dsimp only
    split
    · exact faultsIn_error (blames_other (by simp))
    · split
      · exact faultsIn_error (blames_other (by simp))
      · exact faultsIn_ok _

theorem blames_lend {t : TypeDecl} {f : FieldDecl} {args : List (String × Value)}
    (declared : t ∈ w.schema.types) (member : f ∈ t.fields)
    (own : f.shape.omitted w (args.map (·.1)) ≠ [] → R (f.shape.omitted w (args.map (·.1)))) :
    FailsWith (Blames w R) (lend w t f args) := by
  refine failsWith_then (ArgShape.blames_bind own) fun bound => ?_
  refine failsWith_then (FieldDecl.failsWith_expression blames_mundane blames_raises declared member
    (fun _ => blames_other (by simp)) _ _) fun e => ?_
  split
  · split
    · split
      · refine failsWith_then (failsWith_outcome ?_) fun _ => failsWith_pure _
        refine faultsIn_bind ?_ fun _ _ => faultsIn_ok _
        exact fun e h => blames_mundane e (faultsIn_ofTree _ e h)
      · exact failsWith_throw (blames_other (by simp))
    · exact failsWith_throw (blames_other (by simp))
  · exact failsWith_throw (blames_other (by simp))

theorem blames_planWith {t : TypeDecl} {isList isEmpty : Bool} {members : Making (List Member)}
    (each : t.isScalar = false → FailsWith (Blames w R) members) :
    FailsWith (Blames w R) (planWith t isList isEmpty members) := by
  refine failsWith_ite (fun _ => failsWith_pure _) fun object => ?_
  refine failsWith_guard (fun _ => blames_other (by simp)) fun _ => ?_
  refine failsWith_guard (fun _ => blames_other (by simp)) fun _ => ?_
  exact failsWith_then (each (by simpa using object)) fun _ => failsWith_pure _

mutual

theorem blames_member {t : TypeDecl} (declared : t ∈ w.schema.types) (seen : List String)
    (s : Selected) (leaves : Leaves w R t s) : FailsWith (Blames w R) (member w t seen s) := by
  obtain ⟨name, args, children⟩ := s
  cases leaves with
  | field own beneath =>
    rw [member]
    refine failsWith_bind (failsWith_outcome (blames_selectedField _ _ _)) fun f a b selected => ?_
    have found := (selectedField_ok (outcome_of_run selected).1).1
    refine failsWith_ite (fun _ => failsWith_pure _) fun _ => ?_
    refine failsWith_then (blames_lend declared (List.mem_of_find?_eq_some found) (own f found))
      fun (entity, body) => ?_
    refine failsWith_then (blames_planWith fun entity => ?_) fun plan => failsWith_pure _
    exact blames_members (typeOf_mem entity) [] children (beneath f found entity)

theorem blames_members {t : TypeDecl} (declared : t ∈ w.schema.types) (seen : List String)
    (selections : List Selected) (each : ∀ s ∈ selections, Leaves w R t s) :
    FailsWith (Blames w R) (members w t seen selections) := by
  cases selections with
  | nil => exact failsWith_pure _
  | cons s rest =>
    have later (seen : List String) : FailsWith (Blames w R) (members w t seen rest) :=
      blames_members declared seen rest fun s hs => each s (List.mem_cons_of_mem _ hs)
    refine failsWith_then (blames_member declared seen s (each s List.mem_cons_self)) fun m => ?_
    split
    · exact failsWith_then (later _) fun _ => failsWith_pure _
    · exact later seen

end

end Compose

theorem QueryDecl.blames_compose {q : QueryDecl} (declared : q ∈ w.schema.queries)
    {args : List (String × Value)}
    (own : q.shape.omitted w (args.map (·.1)) ≠ [] → R (q.shape.omitted w (args.map (·.1))))
    {selections : List Selected}
    (beneath : (w.schema.typeOf q.host).isScalar = false →
      ∀ s ∈ selections, Leaves w R (w.schema.typeOf q.host) s) (paging : Paging) :
    FailsWith (Blames w R) (q.compose w args selections paging) := by
  have checked : FaultsIn (Blames w R) (paging.check q) := by
    unfold Paging.check
    split
    · exact faultsIn_error (blames_other (by simp))
    · split
      · exact faultsIn_error (blames_other (by simp))
      · split
        · exact faultsIn_error (blames_other (by simp))
        · exact faultsIn_ok _
  have asked : FailsWith (Blames w R) (Compose.queryValue w q args) := by
    refine failsWith_then (ArgShape.blames_bind own) fun bound => ?_
    refine failsWith_then (failsWith_expression blames_mundane blames_raises declared bound) fun e => ?_
    split
    · exact failsWith_ite (fun _ => failsWith_pure _) fun _ => failsWith_throw (blames_other (by simp))
    · exact failsWith_throw (blames_other (by simp))
  refine failsWith_then (failsWith_outcome checked) fun _ => ?_
  refine failsWith_then asked fun value => ?_
  refine failsWith_guard (fun _ => blames_other (by simp)) fun _ => ?_
  refine failsWith_then (Compose.blames_planWith fun entity => ?_) fun plan => ?_
  · exact Compose.blames_members (typeOf_mem entity) [] selections (beneath entity)
  · refine failsWith_then (failsWith_passOver _) fun _ => ?_
    refine failsWith_then (failsWith_total fun a => ?_) fun _ => failsWith_pure _
    obtain ⟨e, b, made, _⟩ := plan.assemble_total (paging.apply value) a
    exact ⟨e, b, made⟩

/-- A query whose own required arguments are left out is not composed. -/
theorem QueryDecl.compose_missing {q : QueryDecl} {args : List (String × Value)}
    (typed : q.shape.HasTypes w) (takes : q.shape.Takes w args)
    (missing : q.shape.omitted w (args.map (·.1)) ≠ []) (selections : List Selected) (a : Trail) :
    runOn (q.compose w args selections .all) a
      = (.error (.missingArguments (sortedNames (q.shape.omitted w (args.map (·.1))))), a) := by
  have checked : Paging.all.check q = .ok () := by
    simp [Paging.check, Paging.all, Paging.isBound, Value.isNone]
  unfold compose
  rw [checked, liftM_ok_bind]
  exact runOn_bind_error (runOn_bind_error (ArgShape.bind_missing typed takes missing a))

end

/-! ## Fields of the description take no arguments -/

section

variable {w : World} (reached : w.IsReached) (described : Described w) (R : List String → Prop)

include reached described

mutual

theorem Described.leaves {t : TypeDecl} (describes : t.Describes w.schema.context) (s : Selected) :
    Leaves w R t s := by
  obtain ⟨name, args, children⟩ := s
  refine .field (fun f found some => ?_) fun f found entity => ?_
  · rw [(reached.describing_leads described describes found).1] at some
    exact absurd rfl some
  · rcases (reached.describing_leads described describes found).2 with scalar | describes
    · rw [entity] at scalar
      cases scalar
    · exact Described.leavesAll describes children

theorem Described.leavesAll {t : TypeDecl} (describes : t.Describes w.schema.context)
    (ss : List Selected) : ∀ s ∈ ss, Leaves w R t s := by
  cases ss with
  | nil => exact fun s hs => absurd hs List.not_mem_nil
  | cons s ss =>
    rw [List.forall_mem_cons]
    exact ⟨Described.leaves describes s, Described.leavesAll describes ss⟩

end

end

/-! ## What a document leaves out -/

namespace Validity

open Document Interface

/-- The argument shape of the field or the query that a selection means. -/
def Mention.shape? (w : World) (m : Mention) : Option ArgShape :=
  match m.selection, m.parent with
  | .field _ name .., some object =>
    if object.name == rootName then (w.schema.findQuery? name).map (·.shape)
    else ((w.schema.types.find? (·.name == object.name)).bind (·.findField? name)).map (·.shape)
  | _, _ => none

/-- The required arguments that a selection leaves out. -/
def Mention.omitted (w : World) (m : Mention) : List String :=
  match m.selection with
  | .field _ _ args .. => (m.shape? w).elim [] fun shape => shape.omitted w (args.map (·.1))
  | _ => []

/-- Whether these are the required arguments that some selection of a document leaves out. -/
def LeavesOut (w : World) (sys : TypeSystem) (d : Document) (names : List String) : Prop :=
  ∃ m ∈ inDocument sys d, m.omitted w = names

/-- Whether the arguments of all fields of a document have values. -/
def Valued (sys : TypeSystem) (d : Document) (vars : Variables) : Prop :=
  ∀ m ∈ inDocument sys d, ∀ label name args ds ss, m.selection = .field label name args ds ss →
    ∀ a ∈ args, isUndefined (a.2.value vars) = false

/-- Arguments that have values are there under their names. -/
theorem argumentValues_names {vars : Variables} {args : List Argument}
    (valued : ∀ a ∈ args, isUndefined (a.2.value vars) = false) (n : String) :
    n ∈ (argumentValues vars args).map (·.1) ↔ n ∈ args.map (·.1) := by
  have each (args : List Argument) (valued : ∀ a ∈ args, isUndefined (a.2.value vars) = false)
      (found : List (String × Value)) :
      n ∈ (args.foldl (fun found x =>
        let v := x.2.value vars
        if isUndefined v then found else putNamed found x.1 v) found).map (·.1)
        ↔ n ∈ found.map (·.1) ∨ n ∈ args.map (·.1) := by
    induction args generalizing found with
    | nil => simp
    | cons a as ih =>
      rw [List.forall_mem_cons] at valued
      rw [List.foldl_cons, ih valued.2]
      dsimp only
      rw [if_neg (by simp [valued.1]), names_putNamed, List.map_cons, List.mem_cons,
        or_comm (a := n = a.1),
        or_assoc]
  rw [argumentValues, each args valued]
  simp

theorem omitted_argumentValues {w : World} {vars : Variables} {args : List Argument}
    (valued : ∀ a ∈ args, isUndefined (a.2.value vars) = false) (shape : ArgShape) :
    shape.omitted w ((argumentValues vars args).map (·.1)) = shape.omitted w (args.map (·.1)) := by
  unfold ArgShape.omitted
  congr 1
  funext n
  have same := argumentValues_names valued n
  rw [← List.contains_iff_mem, ← List.contains_iff_mem] at same
  rw [Bool.eq_iff_iff.2 same]

/-! ## Variables -/

theorem nodup_of_areUnique {ns : List String} (h : areUnique ns = true) : ns.Nodup := by
  induction ns with
  | nil => exact List.nodup_nil
  | cons n ns ih =>
    rw [areUnique, Bool.and_eq_true] at h
    exact List.nodup_cons.2 ⟨by simpa using h.1, ih h.2⟩

theorem isUndefined_value {vars : Variables} {l : Literal} (h : isUndefined (l.value vars) = true) :
    ∃ n, l = .var n ∧ isUndefined ((vars.lookup n).getD .undefined) = true := by
  cases l with
  | var n => exact ⟨n, rfl, h⟩
  | int s =>
    rw [Literal.value, Literal.readInt] at h
    dsimp only at h
    split at h <;> exact absurd h Bool.false_ne_true
  | _ =>
    rw [Literal.value] at h
    cases h

/-- Every selection of a document with one operation stands in the operation or in a fragment that it
opens. -/
theorem inDocument_single {sys : TypeSystem} {d : Document} (valid : d.isValid sys = true)
    {o : Operation} (query : Document.query d = .ok o) {m : Mention} (hm : m ∈ inDocument sys d) :
    m ∈ inOperation sys o ++ (fragmentsOf sys d o).flatMap fun n =>
      ((fragment? (fragments d) n).map (inFragment sys)).getD [] := by
  have only : operations d = [o] := by
    unfold Document.query at query
    split at query
    · next o' only =>
      split at query
      · cases query
        exact only
      · cases query
    · cases query
  simp only [Document.isValid, structureHolds, Bool.and_eq_true] at valid
  obtain ⟨⟨⟨⟨⟨⟨⟨⟨⟨⟨⟨_, _⟩, named⟩, _⟩, used⟩, _⟩, _⟩, _⟩, _⟩, _⟩, _⟩, _⟩ := valid
  rw [inDocument, only, List.mem_append, List.flatMap_singleton] at hm
  rcases hm with hm | hm
  · exact List.mem_append_left _ hm
  · obtain ⟨f, hf, hm⟩ := List.mem_flatMap.1 hm
    have opened : f.name ∈ fragmentsOf sys d o := by
      have := List.all_eq_true.1 used f hf
      rwa [only, List.flatMap_singleton, List.contains_iff_mem] at this
    have found : fragment? (fragments d) f.name = some f := by
      have nodup := nodup_of_areUnique named
      rw [← List.nodup_reverse, ← List.map_reverse] at nodup
      exact find?_of_nodup nodup (List.mem_reverse.2 hf)
    refine List.mem_append_right _ (List.mem_flatMap.2 ⟨f.name, opened, ?_⟩)
    rw [found]
    exact hm

theorem suppliedTo_literal (declared : List ArgumentDef) {args : List Argument} {a : Argument}
    (ha : a ∈ args) : ∃ s ∈ suppliedTo declared args, s.literal = a.2 := by
  refine ⟨_, List.mem_map_of_mem ha, ?_⟩
  dsimp only
  split <;> rfl

/-- If the variables of a valid document have values, so have the arguments of its fields. -/
theorem valued_of_given {sys : TypeSystem} {d : Document} (valid : d.isValid sys = true)
    {o : Operation} (query : Document.query d = .ok o) {vars : Variables}
    (given : ∀ x ∈ o.variableDefs, ∃ v, vars.lookup x.name = some v ∧ isUndefined v = false) :
    Valued sys d vars := by
  intro m hm label name args ds ss is a ha
  by_contra undefined
  obtain ⟨x, var, missing⟩ := isUndefined_value (by simpa using undefined)
  have used : ∃ s, (x, s) ∈ usages sys d o := by
    obtain ⟨s, hs, literal⟩ := suppliedTo_literal ((m.field?.map (·.args)).getD []) ha
    rw [var] at literal
    refine ⟨s, List.mem_filterMap.2 ⟨s, List.mem_flatMap.2 ⟨m, inDocument_single valid query hm,
      List.mem_flatMap.2 ⟨s, ?_, ?_⟩⟩, by rw [literal]⟩⟩
    · rw [Mention.supplied, is]
      exact List.mem_append_left _ hs
    · rw [Supplied.parts, literal]
      obtain ⟨expected, hasDefault, _⟩ := s
      cases literal
      exact List.mem_singleton_self _
  obtain ⟨s, used⟩ := used
  simp only [Document.isValid, valuesHold, Bool.and_eq_true, List.all_eq_true] at valid
  obtain ⟨⟨_, _, fit⟩, _⟩ := valid
  have fit := fit o (query_ok query).1
  simp only [variablesFit, Bool.and_eq_true, List.all_eq_true] at fit
  have declared := fit.2 _ used
  obtain ⟨v, found, _⟩ := (Option.any_eq_true _ _).1 declared
  obtain ⟨u, is_u, defined⟩ := given v (List.mem_of_find?_eq_some found)
  have name : v.name = x := by simpa using List.find?_some found
  rw [← name, is_u, Option.getD_some, defined] at missing
  cases missing

/-! ## Fields beneath objects -/

section

variable {v w : World} {sys : TypeSystem} {d : Document} {queries : List Draw} {placed : Placed}
  {met : List Reached} (o : Origin v sys queries placed met) (same : Redeclares v w)
  (orderly : Orderly w.schema.types) (obeys : Obeys sys d) (filled : ∀ x ∈ d, x.isFilled = true)
  {vars : Variables} (valued : Valued sys d vars)

include same orderly valued in
/-- What a field beneath the object of an entity type leaves out, the document leaves out. -/
theorem Meant.leavesOut {t : TypeDecl} {object : TypeDef} (stands : Stands v sys t object)
    {n : FieldNode} (meant : Meant sys d object n) {f : FieldDecl}
    (found : t.findField? n.name = some f) :
    LeavesOut w sys d (f.shape.omitted w ((argumentValues vars n.args).map (·.1))) := by
  obtain ⟨ds, mentioned⟩ := meant.mentioned
  have here := mentioned _ (by rw [mentions]; exact List.mem_cons_self)
  refine ⟨_, here, ?_⟩
  have member : t ∈ w.schema.types := by
    rw [← same.types]
    exact List.mem_of_mem_filter stands.declared
  have apart : ¬(object.name == rootName) = true := by
    simpa [stands.name] using stands.apart
  have shape : Mention.shape? w ⟨some object, .field n.label n.name n.args ds n.selections⟩
      = some f.shape := by
    show (if object.name == rootName then _ else _) = _
    rw [if_neg apart, stands.name, orderly.find?_name member, Option.bind_some, found]
    rfl
  rw [Mention.omitted, shape, omitted_argumentValues (valued _ here _ _ _ _ _ rfl)]
  rfl

include o same orderly obeys filled valued

omit o same orderly valued in
/-- What is requested beneath a field leaves out what the fields that are collected there do. -/
theorem Leads.leaves (depth : Nat)
    (level : ∀ {t : TypeDecl} {object : TypeDef} {nodes : List FieldNode} {rs : List Requested},
      Stands v sys t object → (∀ n ∈ nodes, Meant sys d object n) →
        expandWithin (fragments d) vars refuseLabel depth nodes = .ok rs →
          ∀ s ∈ selectedAll rs, Leaves w (LeavesOut w sys d) t s)
    {t : TypeDecl} {ss : List Selection} (leads : Leads v sys d t ss) {rs : List Requested}
    (made : requestedBeneath d vars depth ss = .ok rs) :
    ∀ s ∈ selectedAll rs, Leaves w (LeavesOut w sys d) t s := by
  cases leads with
  | scalar scalar =>
    rw [requestedBeneath_nil] at made
    cases made
    exact fun s hs => absurd hs List.not_mem_nil
  | entity entity stands beneath some =>
    obtain ⟨nodes, found, made⟩ := outcome_bind_ok made
    have gathers := collectWithin_gathers obeys (stands_object? stands) filled _ beneath some found
    exact level stands gathers.meant made

/-- The fields that are requested beneath the object of an entity type leave out what the document
leaves out. The levels that are left bound how deep they are nested. -/
theorem leaves_expandWithin (depth : Nat) {t : TypeDecl} {object : TypeDef}
    {nodes : List FieldNode} (stands : Stands v sys t object)
    (meant : ∀ n ∈ nodes, Meant sys d object n) {rs : List Requested}
    (made : expandWithin (fragments d) vars refuseLabel depth nodes = .ok rs) :
    ∀ s ∈ selectedAll rs, Leaves w (LeavesOut w sys d) t s := by
  induction depth generalizing t object nodes rs with
  | zero =>
    rw [expandWithin] at made
    split at made <;> cases made
    exact fun s hs => absurd hs List.not_mem_nil
  | succ depth ih =>
    rw [expandWithin_succ] at made
    rw [selectedAll_eq_map]
    intro s hs
    obtain ⟨r, hr, rfl⟩ := List.mem_map.1 hs
    obtain ⟨n, hn, made⟩ := outcome_mapM_mem made hr
    obtain ⟨_, _, made⟩ := outcome_bind_ok made
    obtain ⟨children, requested, made⟩ := outcome_bind_ok made
    cases made
    refine .field (fun f found _ => (meant n hn).leavesOut same orderly valued stands found)
      fun f found entity => ?_
    obtain ⟨field, means, selected, _, mentioned⟩ := (meant n hn).field obeys
    rcases o.field (same.types ▸ orderly) stands means with ⟨_, rfl⟩ | ⟨g, source, pictures⟩
    · rw [typeName_bare o selected, requestedBeneath_nil] at requested
      cases requested
      exact fun s hs => absurd hs List.not_mem_nil
    · obtain rfl : g = f := Option.some.inj (source.symm.trans found)
      have leads := leads_of_pictures pictures selected mentioned (meant n hn).filled
      rw [typeOf_redeclares same] at leads
      exact leads.leaves obeys filled depth (fun stands meant made => ih stands meant made) requested

end

/-! ## Arguments may be left out -/

theorem drawField_nullable {w : World} {name description : String} {host : HostType} {isList : Bool}
    {shape : ArgShape} {x : Draw} (h : drawField w name description host isList shape = .ok x) :
    ∀ a ∈ x.field.args, a.type.isNonNull = false := by
  obtain ⟨r, types, args, _, _, made, _, _, offered, _⟩ := drawField_of h
  intro a ha
  rw [offered] at ha
  obtain ⟨⟨a, r⟩, among, rfl⟩ := List.mem_map.1 ha
  obtain ⟨⟨n, host⟩, _, drawn⟩ := outcome_mapM_mem made among
  rw [(drawArgument_ok drawn).2.2]
  rfl

/-- No argument of a mirrored field or query has to be given. -/
theorem arguments_nullable {v : World} {sys : TypeSystem} {queries : List Draw} {placed : Placed}
    {met : List Reached} (o : Origin v sys queries placed met) :
    ∀ t ∈ sys.types, ∀ f ∈ t.fields, ∀ a ∈ f.args, a.type.isNonNull = false := by
  intro t ht f hf
  rw [o.types] at ht
  obtain ⟨⟨r, drawn⟩, member, rfl⟩ := List.mem_map.1 ht
  have made := o.complete.consistent.drawn _ member
  have drawnOf {x : Draw} (hx : x ∈ drawn) : ∀ a ∈ x.field.args, a.type.isNonNull = false := by
    cases r with
    | scalar n description =>
      cases made
      cases hx
    | object n =>
      obtain ⟨_, _, made⟩ := outcome_mapM_mem (drawFields_ok made) hx
      exact drawField_nullable made
    | root =>
      obtain ⟨_, _, made⟩ := outcome_bind_ok made
      cases made
      obtain ⟨_, _, made⟩ := outcome_mapM_mem o.drawn hx
      exact drawField_nullable made
  cases r with
  | scalar n description => cases hf
  | object n =>
    obtain ⟨x, hx, rfl⟩ := List.mem_map.1 hf
    exact drawnOf hx
  | root =>
    obtain ⟨x, hx, rfl⟩ := List.mem_map.1 hf
    exact drawnOf hx

/-! ## Root fields -/

/-- What a root field means: the query that it asks for, with what it is pictured to give, or one of
the queries of the description. -/
theorem root_query {v w : World} {sys : TypeSystem} {d : Document} {queries : List Draw}
    {placed : Placed} {met : List Reached} (o : Origin v sys queries placed met)
    (same : Redeclares v w) (orderly : Orderly w.schema.types) (described : Described w)
    (distinct : (w.schema.queries.map (·.name)).Nodup) {object : TypeDef}
    (root : sys.find? rootName = some object) (obeys : Obeys sys d) {n : FieldNode}
    (meant : Meant sys d object n) (own : n.name ≠ Schema.typeNameName) :
    ∃ q, w.schema.findQuery? n.name = some q
      ∧ (Leads v sys d (w.schema.typeOf q.host) n.selections
          ∧ (∀ vars, q.shape.Takes w (argumentValues vars n.args))
        ∨ (w.schema.typeOf q.host).Describes w.schema.context ∧ q.shape.required w = []) := by
  obtain ⟨object', found, name, body⟩ := o.root_stands
  obtain rfl : object = object' := Option.some.inj (root.symm.trans found)
  obtain ⟨isObject, fields⟩ := isObject_of_body body
  obtain ⟨field, source, selected, fit, mentioned⟩ := meant.field obeys
  have known {q : QueryDecl} (declared : q ∈ w.schema.queries) (named : q.name = n.name) :
      w.schema.findQuery? n.name = some q := by
    rw [← named]
    exact find?_of_nodup distinct declared
  have describes {host : HostType} (target : (Schema.describingName? host).isSome) :
      (w.schema.typeOf host).Describes w.schema.context := by
    obtain ⟨t, found, rfl, describes⟩ := described.types host target
    rw [found.typeOf]
    exact describes
  unfold TypeDef.fieldNamed? at source
  rw [if_pos isObject, name, fields, if_pos (by simp), List.find?_append] at source
  rcases Option.or_eq_some_iff.1 source with meta_ | ⟨_, declared⟩
  · have is := List.find?_some meta_
    have among := List.mem_of_find?_eq_some meta_
    simp only [rootMetaFields, List.mem_cons, List.not_mem_nil, or_false] at among
    rcases among with rfl | rfl | rfl
    · exact absurd (beq_iff_eq.1 is).symm own
    · exact ⟨_, known described.schema (beq_iff_eq.1 is), .inr ⟨describes rfl, rfl⟩⟩
    · obtain ⟨m, declared⟩ := described.type
      exact ⟨_, known declared (beq_iff_eq.1 is), .inr ⟨describes rfl, rfl⟩⟩
  · obtain ⟨q, found, pictures⟩ := o.query (same.types ▸ orderly) declared
    refine ⟨q, ?_, .inl ⟨?_, takes_of_argumentsFit same pictures.args fit⟩⟩
    · unfold Schema.findQuery? at *
      rw [← same.queries, found]
    · rw [← typeOf_redeclares same]
      exact leads_of_pictures pictures selected mentioned meant.filled

end Validity

namespace Document

open Interface Validity

/-- Required arguments are asked for when a request is composed. The type system lets every argument be
left out. Where all variables of a valid document have values, composing one of its root fields says
that required arguments are missing only if a field of the document leaves some out, and names exactly
these, unless a function of the application raises this fault itself. It never fails to say so of the
arguments of the root field itself. -/
theorem missing_arguments_named {w : World} (reached : w.IsReached)
    (completed : w.schema.completed = true) {source : String} {d : Document}
    (valid : readValid w source = .ok d) {sys : TypeSystem} (system : w.schema.system = some sys)
    {o : Operation} (query : Document.query d = .ok o) {vars : Variables}
    (given : ∀ x ∈ o.variableDefs, ∃ v, vars.lookup x.name = some v ∧ isUndefined v = false)
    {roots : List FieldNode} (collected : collect (fragments d) vars o.selections = .ok roots)
    {f : FieldNode} (root : f ∈ roots) (own : f.name ≠ Schema.typeNameName) :
    (∀ t ∈ sys.types, ∀ g ∈ t.fields, ∀ a ∈ g.args, a.type.isNonNull = false)
      ∧ ∃ q, w.query f.name = .ok q ∧ ∀ children,
        (do expand d vars refuseLabel (← collect (fragments d) vars f.selections)) = .ok children →
          let composed := q.compose w (argumentValues vars f.args) (selectedAll children) .all
          let omitted := q.shape.omitted w (f.args.map (·.1))
          FailsWith (Blames w (LeavesOut w sys d)) composed
            ∧ (omitted ≠ [] → ∀ a,
              runOn composed a = (.error (.missingArguments (sortedNames omitted)), a)) := by
  have sealed := reached.sealed completed
  have orderly := reached.orderly
  have described := reached.described completed
  obtain ⟨v, sys', system', drawn, same⟩ := sealed.system
  obtain rfl : sys' = sys := Option.some.inj (system'.symm.trans system)
  obtain ⟨queries, placed, met, origin⟩ := ofSchema_ok drawn
  obtain ⟨sys'', system'', parsed, isValid⟩ := readValid_ok valid
  obtain rfl : sys'' = sys' := Option.some.inj (system''.symm.trans system)
  have obeys := isValid_obeys isValid
  have filled := parse_isFilled parsed
  have valued := valued_of_given isValid query given
  obtain ⟨operation, kind⟩ := query_ok query
  obtain ⟨object, found, name, body⟩ := origin.root_stands
  obtain ⟨isObject, fields⟩ := isObject_of_body body
  have known : sys''.object? rootName = some object := by
    unfold TypeSystem.object?
    rw [found, Option.filter_some, if_pos isObject]
  have rooted : rootOf sys'' o = some object := by
    unfold rootOf
    rw [kind]
    exact known
  obtain ⟨stand, selects⟩ := beneath_operation filled operation rooted
  have gathers :=
    collectWithin_gathers obeys (by rw [name]; exact known) filled _ stand selects collected
  have meant := gathers.meant f root
  refine ⟨arguments_nullable origin, ?_⟩
  obtain ⟨q, asked, means⟩ := root_query origin same orderly described reached.distinct.queries found
    obeys meant own
  have declared := List.mem_of_find?_eq_some asked
  obtain ⟨ds, mentioned⟩ := meant.mentioned
  have here := mentioned _ (by rw [mentions]; exact List.mem_cons_self)
  refine ⟨q, by rw [World.query, asked], fun children converted => ?_⟩
  have same_names := omitted_argumentValues (w := w) (valued _ here _ _ _ _ _ rfl) q.shape
  have leavesOut : LeavesOut w sys'' d (q.shape.omitted w (f.args.map (·.1))) := by
    refine ⟨_, here, ?_⟩
    have shape : Mention.shape? w ⟨some object, .field f.label f.name f.args ds f.selections⟩
        = some q.shape := by
      show (if object.name == rootName then _ else _) = _
      rw [if_pos (by simpa using name), asked]
      rfl
    rw [Mention.omitted, shape]
    rfl
  have beneath : (w.schema.typeOf q.host).isScalar = false →
      ∀ s ∈ selectedAll children, Leaves w (LeavesOut w sys'' d) (w.schema.typeOf q.host) s := by
    intro _
    rcases means with ⟨leads, _⟩ | ⟨describes, _⟩
    · exact leads.leaves obeys filled (size d + 1) (fun stands meant made =>
        leaves_expandWithin origin same orderly obeys filled valued _ stands meant made) converted
    · exact Described.leavesAll reached described _ describes _
  dsimp only
  rw [← same_names]
  refine ⟨QueryDecl.blames_compose declared (fun _ => same_names ▸ leavesOut) beneath .all,
    fun missing => QueryDecl.compose_missing ((reached.shapesTyped completed).queries q declared)
      ?_ missing _⟩
  rcases means with ⟨_, takes⟩ | ⟨_, required⟩
  · exact takes vars
  · exact absurd (by rw [ArgShape.omitted, required]; rfl) missing

/-- A complete schema with a query whose arguments are the fields of a class, the only one of which has
no default. -/
def windowed : World :=
  let window : ClassDecl :=
    { name := "Window", kind := .record, bases := []
      members := [⟨"limit", .type (.builtin .int), none, false⟩]
      properties := [], methods := [], columns := [], relationships := [] }
  ((Session.start { (default : World) with classes := [window] } ⟨0, "context"⟩ 2).after
    [.addQueryWithArgs .unmodified "items" (.builtin .int) (.fieldsOf "Window")
      (.function 1 ["a"] none (.fn ["c"] none (.lit (.int 1))) []) "", .complete]).world

/-- The first root field of a valid document without variables, with the fields requested beneath it. -/
def firstRequested (w : World) (source : String) : Option (FieldNode × List Requested) := do
  let d ← (readValid w source).toOption
  let o ← (query d).toOption
  let roots ← (collect (fragments d) [] o.selections).toOption
  let f ← roots.head?
  let children ← (do expand d [] refuseLabel (← collect (fragments d) [] f.selections)).toOption
  if o.variableDefs.isEmpty then some (f, children) else none

theorem windowed_missing_named :
    ∃ (d : Document) (f : FieldNode) (q : QueryDecl) (children : List Requested),
      readValid windowed "{ items }" = .ok d ∧ f.name = "items" ∧ windowed.query "items" = .ok q
        ∧ ∀ a, runOn (q.compose windowed (argumentValues [] f.args) (selectedAll children) .all) a
          = (.error (.missingArguments (sortedNames ["limit"])), a) := by
  -- the schema itself is large, so only the facts about it that count are given to the proof
  have missing (w : World) (source : String) (reached : w.IsReached)
      (completed : w.schema.completed = true)
      (asks : (firstRequested w source).map (fun x => (x.1.name, x.1.args.length))
        = some ("items", 0))
      (leaves : (w.query "items").toOption.map (·.shape.omitted w []) = some ["limit"]) :
      ∃ (d : Document) (f : FieldNode) (q : QueryDecl) (children : List Requested),
        readValid w source = .ok d ∧ f.name = "items" ∧ w.query "items" = .ok q
          ∧ ∀ a, runOn (q.compose w (argumentValues [] f.args) (selectedAll children) .all) a
            = (.error (.missingArguments (sortedNames ["limit"])), a) := by
    obtain ⟨⟨_, _⟩, first, asks⟩ := Option.map_eq_some_iff.1 asks
    obtain ⟨name, args⟩ := Prod.mk.inj asks
    simp only [firstRequested, Option.bind_eq_bind, Option.bind_eq_some_iff,
      outcome_toOption, Option.ite_none_right_eq_some, Option.some.injEq, Prod.mk.injEq,
      List.isEmpty_iff] at first
    obtain ⟨d, valid, o, query, roots, collected, f', root, children', converted, unvaried, rfl,
      rfl⟩ := first
    obtain ⟨q, found, leaves⟩ := Option.map_eq_some_iff.1 leaves
    rw [outcome_toOption] at found
    rw [List.length_eq_zero_iff] at args
    obtain ⟨sys, system, _⟩ := readValid_ok valid
    have given : ∀ x ∈ o.variableDefs, ∃ v, ([] : Variables).lookup x.name = some v
        ∧ isUndefined v = false := by
      rw [unvaried]
      exact fun x hx => absurd hx List.not_mem_nil
    have own : f'.name ≠ Schema.typeNameName := by
      rw [name]
      decide
    obtain ⟨_, q', found', composes⟩ :=
      missing_arguments_named reached completed valid system query given
      collected (List.mem_of_head? root) own
    rw [name, found] at found'
    obtain rfl := Except.ok.inj found'
    obtain ⟨_, refuses⟩ := composes children' converted
    rw [args, List.map_nil, leaves] at refuses
    exact ⟨d, f', q, children', valid, name, found, args ▸ refuses (List.cons_ne_nil _ _)⟩
  exact missing _ _ ⟨_, _, _, _, rfl⟩ (by decide +kernel) (by decide +kernel) (by decide +kernel)

/-- A valid document can leave out an argument without a default, and composing its root field then
fails for that. -/
theorem required_argument_omitted :
    windowed.IsReached ∧ windowed.schema.completed = true
      ∧ ((firstRequested windowed "{ items }").any fun (f, children) =>
        match windowed.query f.name with
        | .ok q =>
          match (runOn (q.compose windowed (argumentValues [] f.args) (selectedAll children) .all)
            windowed.trail).1 with
          | .error (.missingArguments names) => names == ["limit"]
          | _ => false
        | .error _ => false) = true :=
  ⟨⟨_, _, _, _, rfl⟩, by decide +kernel, by decide +kernel⟩

end Document

end EntityGraph
