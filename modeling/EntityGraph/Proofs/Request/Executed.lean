import EntityGraph.Proofs.Request.Accepted
import EntityGraph.Proofs.Request.Filled
import EntityGraph.Proofs.Request.Given

/-!
# What an executed document gives

Executing a document gives, under the name of every root field that directives keep, a value with
exactly the fields that they keep: a record has an entry for each kept field and no other, and so
have the records in its entries. Nothing is refused on the way, as long as every selection set that
is opened beneath a kept field keeps some field itself. One that keeps none is refused, since
composing does not make records without members.

What a field gives that is selected several times, with other fields beneath it each time, is not
said here.
-/

set_option linter.unusedSectionVars false

namespace EntityGraph

namespace Document

/-! ## Answers -/

/-- Whether a value of a type has the records that selections ask for: with an entry for every field
that they keep, and no other. -/
inductive Answers (w : World) (fs : List Fragment) (vars : Variables) :
    TypeDecl → Bool → List Selection → Value → Prop
  | scalar {t : TypeDecl} {isList : Bool} {ss : List Selection} {v : Value}
      (scalar : t.isScalar = true) : Answers w fs vars t isList ss v
  | missing {t : TypeDecl} {isList : Bool} {ss : List Selection} :
      Answers w fs vars t isList ss .none
  | record {t : TypeDecl} {ss : List Selection} {es : List (String × Value)}
      (nodup : (es.map (·.1)).Nodup)
      (names : ∀ name, name ∈ es.map (·.1) ↔ ∃ n, KeptIn fs vars ss n ∧ n.name = name)
      (each : ∀ n f v, KeptIn fs vars ss n → t.findField? n.name = some f → f.isPost = false →
        (n.name, v) ∈ es → Answers w fs vars (w.schema.typeOf f.host) f.isList n.selections v) :
      Answers w fs vars t false ss (.record t.name es)
  | list {t : TypeDecl} {ss : List Selection} {vs : List Value}
      (each : ∀ v ∈ vs, Answers w fs vars t false ss v) : Answers w fs vars t true ss (.list vs)

/-- Whether a value is what a root field asks for. -/
def AnswersRoot (w : World) (d : Document) (vars : Variables) (n : FieldNode) (v : Value) : Prop :=
  n.name = Schema.typeNameName ∧ v = .str Interface.rootName
    ∨ ∃ q, w.query n.name = .ok q
      ∧ Answers w (fragments d) vars (w.schema.typeOf q.host) q.isList n.selections v

/-- Whether kept fields that are given out under one name are the same field with the same
selections, in all selections that are opened with some. -/
def Consistent (d : Document) (vars : Variables) (ss : List Selection) : Prop :=
  ∀ tt, Opens (fragments d) vars ss tt → ∀ n m, KeptIn (fragments d) vars tt n →
    KeptIn (fragments d) vars tt m → n.output = m.output →
      n.name = m.name ∧ n.selections = m.selections

section

variable {d : Document} {vars : Variables}

theorem Consistent.beneath {ss : List Selection} (h : Consistent d vars ss) {n : FieldNode}
    (kept : KeptIn (fragments d) vars ss n) : Consistent d vars n.selections :=
  fun tt opens => h tt (.beneath kept opens)

theorem refuseLabel_ok {n : FieldNode} (h : refuseLabel n = .ok ()) : n.output = n.name := by
  unfold refuseLabel at h
  split at h
  · next same => simpa using same
  · cases h

theorem Expanded.even {depth : Nat} {ss : List Selection} {rs : List Requested}
    (h : Expanded d vars refuseLabel depth ss rs) (consistent : Consistent d vars ss) :
    Even (selectedAll rs) := by
  induction depth generalizing ss rs with
  | zero =>
    rw [Validity.selectedAll_eq_map]
    refine .intro (fun s hs => ?_) fun s hs => ?_
    · obtain ⟨r, hr, _⟩ := List.mem_map.1 hs
      obtain ⟨_, _, _, none, _⟩ := h.origin hr
      cases none
    · obtain ⟨r, hr, _⟩ := List.mem_map.1 hs
      obtain ⟨_, _, _, none, _⟩ := h.origin hr
      cases none
  | succ depth ih =>
    have origin {s : Selected} (hs : s ∈ selectedAll rs) :
        ∃ n children, KeptIn (fragments d) vars ss n ∧ n.output = n.name
          ∧ Expanded d vars refuseLabel depth n.selections children
          ∧ s.name = n.name ∧ s.children = selectedAll children := by
      rw [Validity.selectedAll_eq_map] at hs
      obtain ⟨r, hr, rfl⟩ := List.mem_map.1 hs
      obtain ⟨_, n, children, same, kept, plain, expanded, rfl⟩ := h.origin hr
      cases same
      exact ⟨n, children, kept, refuseLabel_ok plain, expanded, rfl, rfl⟩
    refine .intro (fun s hs s' hs' same => ?_) fun s hs => ?_
    · obtain ⟨n, children, kept, plain, expanded, name, beneath⟩ := origin hs
      obtain ⟨n', children', kept', plain', expanded', name', beneath'⟩ := origin hs'
      obtain ⟨_, selections⟩ := consistent ss .here n n' kept kept'
        (by rw [plain, plain', ← name, ← name', same])
      rw [← selections] at expanded'
      rw [beneath, beneath', expanded.unique expanded']
    · obtain ⟨n, children, kept, _, expanded, _, beneath⟩ := origin hs
      rw [beneath]
      exact ih expanded (consistent.beneath kept)

/-- A value with the records that are selected answers what the selections come from. The induction
is on the value's records, and each entry leads to what was expanded beneath a kept field. -/
theorem Expanded.answers {w : World} {t : TypeDecl} {isList : Bool} {selected : List Selected}
    {v : Value} {filled : Bool} (holds : Holds w filled t isList selected v) (full : filled = true)
    {depth : Nat} {ss : List Selection} {rs : List Requested}
    (h : Expanded d vars refuseLabel depth ss rs) (same : selectedAll rs = selected) :
    Answers w (fragments d) vars t isList ss v := by
  induction holds generalizing depth ss rs with
  | scalar scalar => exact .scalar scalar
  | missing => exact .missing
  | @record t selected es nodup asked has each ih =>
    subst same
    rw [Validity.selectedAll_eq_map] at asked has each ih
    have among {n : FieldNode} (kept : KeptIn (fragments d) vars ss n) :
        ∃ depth' children, Expanded d vars refuseLabel depth' n.selections children
          ∧ Selected.field n.name (argumentValues vars n.args) (selectedAll children)
            ∈ rs.map Requested.selected := by
      obtain ⟨depth', children, expanded, hr⟩ := h.beneath kept
      exact ⟨depth', children, expanded, List.mem_map_of_mem hr⟩
    refine .record nodup (fun name => ⟨fun hn => ?_, ?_⟩) fun n f v kept found pre hv => ?_
    · obtain ⟨e, he, rfl⟩ := List.mem_map.1 hn
      obtain ⟨s, hs, name⟩ := List.mem_map.1 (asked e he)
      obtain ⟨r, hr, rfl⟩ := List.mem_map.1 hs
      obtain ⟨_, n, _, _, kept, _, _, rfl⟩ := h.origin hr
      exact ⟨n, kept, name⟩
    · rintro ⟨n, kept, rfl⟩
      obtain ⟨_, children, _, hs⟩ := among kept
      exact has _ hs (.inl full)
    · obtain ⟨_, children, expanded, hs⟩ := among kept
      exact ih _ hs f v found pre hv expanded rfl
  | list each ih => exact .list fun v hv => ih v hv h same

end

end Document

/-! ## What refuses a document -/

/-- Whether a fault is the application's own: a function that composing calls raises it, or it comes
up in evaluating what was composed, or in computing a field after the query. -/
inductive World.Propagates (w : World) (e : Fault) : Prop
  | raises (raises : w.Raises e) : Propagates w e
  | evaluates {q : QueryDecl} {args : List (String × Value)} {ss : List Selected} {paging : Paging}
      {f : Expr Value} {context : Value} {a b c d : Trail}
      (composed : runOn (q.compose w args ss paging) a = (.ok f, b))
      (fails : runOn (w.evaluate f context) c = (.error e, d)) : Propagates w e
  | computes {t : TypeDecl} {f : FieldDecl} {g : Value} {a b : Trail}
      (declared : t ∈ w.schema.types) (member : f ∈ t.fields) (source : f.source = .post g)
      (fails : runOn (Value.call w g []) a = (.error e, b)) : Propagates w e

namespace Materialize

variable {w : World} {e : Fault}

theorem records_error {fill : List (String × Value) → Making (List (String × Value))}
    {isList : Bool} {v : Value} {a b : Trail}
    (h : runOn (records fill isList v) a = (.error e, b)) :
    ∃ es c d, runOn (fill es) c = (.error e, d) := by
  have single {u : Value} {a b : Trail} (h : runOn (records fill false u) a = (.error e, b)) :
      ∃ es c d, runOn (fill es) c = (.error e, d) := by
    simp only [records, Bool.false_eq_true, if_false] at h
    split at h
    · rcases bind_eq_error h with fails | ⟨_, _, _, h⟩
      · exact ⟨_, _, _, fails⟩
      · cases h
    · cases h
  cases isList with
  | false => exact single h
  | true =>
    simp only [records, if_true] at h
    split at h
    · rcases bind_eq_error h with fails | ⟨_, _, _, h⟩
      · obtain ⟨u, _, _, _, fails⟩ := mapM_error fails
        exact single fails
      · cases h
    · cases h

mutual

theorem field_error {t : TypeDecl} (declared : t ∈ w.schema.types) (s : Selected)
    {es : List (String × Value)} {a b : Trail} (h : runOn (field w t s es) a = (.error e, b)) :
    e.kind = .compilation → w.Propagates e := by
  obtain ⟨name, args, children⟩ := s
  rw [field] at h
  split at h
  · cases h
    nofun
  · next f found =>
    split at h
    · next post =>
      rcases bind_eq_error h with fails | ⟨v, m, _, h⟩
      · unfold FieldDecl.computePost at fails
        split at fails
        · next g source =>
          exact fun _ => .computes declared (List.mem_of_find?_eq_some found) source fails
        · cases fails
          nofun
      · -- What was computed is put into the record, which fails for want of a place at most.
        have put := (outcome_of_run h).1
        unfold TypeDecl.setPost at put
        split at put
        · cases put
        · cases put
          nofun
    · dsimp only at h
      split at h
      · cases h
      · next object =>
        have entity : (w.schema.typeOf f.host).isScalar = false := by simpa using object
        split at h
        · cases h
          nofun
        · rcases bind_eq_error h with fails | ⟨_, _, _, h⟩
          · obtain ⟨es', _, _, fails⟩ := records_error fails
            rcases bind_eq_error fails with fails | ⟨_, _, _, fails⟩
            · exact fields_error (typeOf_mem entity) children fails
            · cases fails
          · cases h

theorem fields_error {t : TypeDecl} (declared : t ∈ w.schema.types) (ss : List Selected)
    {es : List (String × Value)} {a b : Trail} (h : runOn (fields w t ss es) a = (.error e, b)) :
    e.kind = .compilation → w.Propagates e := by
  cases ss with
  | nil => cases h
  | cons s ss =>
    rw [fields] at h
    rcases bind_eq_error h with fails | ⟨_, _, _, h⟩
    · exact field_error declared s fails
    · exact fields_error declared ss h

end

/-- Filling in refuses nothing, unless a function of the application does: that an entry is not
found, or has no field, is a fault of another kind. -/
theorem value_error {host : HostType} {ss : List Selected} {isList : Bool} {v : Value}
    {a b : Trail} (h : runOn (value w (w.schema.typeOf host) ss isList v) a = (.error e, b)) :
    e.kind = .compilation → w.Propagates e := by
  unfold value at h
  split at h
  · cases h
  · next object =>
    obtain ⟨es, _, _, fails⟩ := records_error h
    rcases bind_eq_error fails with fails | ⟨_, _, _, fails⟩
    · exact fields_error (typeOf_mem (by simpa using object)) ss fails
    · cases fails

end Materialize

namespace Document

open Interface Validity

/-- Whether every selection set that is opened with selections and is not empty keeps some field. -/
def KeepsSome (d : Document) (vars : Variables) (ss : List Selection) : Prop :=
  ∀ tt, Opens (fragments d) vars ss tt → tt ≠ [] → ∃ n, KeptIn (fragments d) vars tt n

theorem keeping_of_keepsSome (sys : TypeSystem) (d : Document) (vars : Variables) :
    Keeping sys d vars (KeepsSome d vars) := by
  intro object ss nodes _ _ some keeps h
  have collects := collectWithin_collects _ h
  refine ⟨fun none => ?_, fun n hn tt opens => keeps tt (.beneath ((collects.kept n).1 hn) opens)⟩
  obtain ⟨n, kept⟩ := keeps ss .here some
  rw [none] at collects
  exact nomatch (collects.kept n).2 kept

/-! ### Root fields

A root field that a valid document keeps stands beneath the root type, whose fields are the queries
of the schema; beside those there are only the ones that every type system has. -/

theorem fieldNamed?_root {object : TypeDef} {fs : List FieldDef} (name : object.name = rootName)
    (body : object.body = .object fs) {n : String} {field : FieldDef}
    (source : object.fieldNamed? n = some field) (own : n ≠ Schema.typeNameName)
    (asks : n ∉ schemaFields) : fs.find? (·.name == n) = some field := by
  obtain ⟨isObject, fields⟩ := isObject_of_body body
  have others : ∀ x ∈ typeNameField :: rootMetaFields, ¬(x.name == n) = true := by
    intro x hx same
    obtain rfl : x.name = n := by simpa using same
    rcases List.mem_cons.1 hx with rfl | hx
    · exact own rfl
    · simp only [rootMetaFields, List.mem_cons, List.not_mem_nil, or_false] at hx
      rcases hx with rfl | rfl <;> exact asks (by decide)
  unfold TypeDef.fieldNamed? at source
  rw [if_pos isObject, name, fields, if_pos (by simp), List.find?_append,
    List.find?_eq_none.2 others] at source
  exact source

theorem root_meant {sys : TypeSystem} {d : Document} (obeys : Obeys sys d)
    (filled : ∀ x ∈ d, x.isFilled = true) {object : TypeDef} {fs : List FieldDef}
    (found : sys.find? rootName = some object) (name : object.name = rootName)
    (body : object.body = .object fs) {o : Operation} (query : Document.query d = .ok o)
    {vars : Variables} {roots : List FieldNode}
    (collected : collect (fragments d) vars o.selections = .ok roots) {n : FieldNode}
    (root : n ∈ roots) : Meant sys d object n := by
  obtain ⟨operation, kind⟩ := query_ok query
  have known : sys.object? rootName = some object := by
    unfold TypeSystem.object?
    rw [found, Option.filter_some, if_pos (isObject_of_body body).1]
  have rooted : rootOf sys o = some object := by
    unfold rootOf
    rw [kind]
    exact known
  obtain ⟨beneath, some⟩ := beneath_operation filled operation rooted
  exact (collectWithin_gathers obeys (by rw [name]; exact known) filled _ beneath some
    collected).meant n root

section

variable {w : World} (reached : w.IsReached) (completed : w.schema.completed = true)

include reached completed

/-- A root field that a valid document keeps is a query, which takes its arguments; and beneath it
fields are requested without being refused. -/
theorem readValid_root (named : w.namesScalars = true) {source : String} {d : Document}
    (valid : readValid w source = .ok d) {sys : TypeSystem} (system : w.schema.system = some sys)
    (plain : isPlain sys d = true) {o : Operation} (query : Document.query d = .ok o)
    {vars : Variables} {roots : List FieldNode}
    (collected : collect (fragments d) vars o.selections = .ok roots) {n : FieldNode}
    (root : n ∈ roots) (own : n.name ≠ Schema.typeNameName)
    (keeps : KeepsSome d vars n.selections) :
    ∃ q ∈ w.schema.queries, w.query n.name = .ok q
      ∧ q.shape.Takes w (argumentValues vars n.args)
      ∧ Requests w (w.schema.typeOf q.host)
        (requestedBeneath d vars (size d + 1) n.selections) := by
  have sealed := reached.sealed completed
  have orderly := reached.orderly
  obtain ⟨v, sys', system', drawn, same⟩ := sealed.system
  obtain rfl : sys' = sys := Option.some.inj (system'.symm.trans system)
  obtain ⟨queries, placed, met, origin⟩ := ofSchema_ok drawn
  have orderly' : Orderly v.schema.types := by
    rw [same.types]
    exact orderly
  obtain ⟨sys'', system'', parsed, isValid⟩ := readValid_ok valid
  obtain rfl : sys'' = sys' := Option.some.inj (system''.symm.trans system)
  have obeys := isValid_obeys isValid
  have filled := parse_isFilled parsed
  obtain ⟨object, found, name, body⟩ := origin.root_stands
  have meant := root_meant obeys filled found name body query collected root
  obtain ⟨field, source, selected, fit, mentioned⟩ := meant.field obeys
  obtain ⟨ds, mentions⟩ := meant.mentioned
  have here := mentions _ (by rw [Validity.mentions]; exact List.mem_cons_self)
  have among := fieldNamed?_root name body source own (isPlain_field plain here).2
  obtain ⟨q, declared, pictures⟩ := origin.query orderly' among
  have member : q ∈ w.schema.queries := by
    rw [← same.queries]
    exact List.mem_of_find?_eq_some declared
  have leads := leads_of_pictures pictures selected mentioned meant.filled
  rw [typeOf_redeclares same] at leads
  have keeping := keeping_of_keepsSome sys'' d vars
  refine ⟨q, member, ?_, takes_of_argumentsFit same pictures.args fit vars, ?_⟩
  · unfold World.query Schema.findQuery? at *
    rw [← same.queries, declared]
  · refine leads.requests_keeping obeys filled keeping (size d + 1) ?_ keeps
    exact requests_keeping origin same orderly sealed named obeys filled plain keeping _

theorem rootValue_answers {d : Document} {vars : Variables} {n : FieldNode}
    (consistent : Consistent d vars n.selections) {context v : Value} {a b : Trail}
    (h : runOn (rootValue w context d vars n) a = (.ok v, b)) : AnswersRoot w d vars n v := by
  unfold rootValue at h
  by_cases own : n.name = Schema.typeNameName
  · rw [if_pos (by simpa using own)] at h
    cases h
    exact .inl ⟨own, rfl⟩
  · rw [if_neg (by simpa using own)] at h
    obtain ⟨nodes, _, collected, h⟩ := bind_eq_ok h
    obtain ⟨rs, _, requested, h⟩ := bind_eq_ok h
    have expanded : Expanded d vars refuseLabel (size d + 1) n.selections rs :=
      ⟨nodes, (outcome_of_run collected).1, (outcome_of_run requested).1⟩
    obtain ⟨q, _, known, h⟩ := bind_eq_ok h
    obtain ⟨e, _, composed, h⟩ := bind_eq_ok h
    obtain ⟨u, _, evaluated, filled⟩ := bind_eq_ok h
    obtain ⟨_, plan, _, _, _, plans, projects, _⟩ :=
      QueryDecl.evaluate_projects (reached.sealed completed) reached.orderly composed
    obtain ⟨_, _, _, projects⟩ := projects _ _ _ _ evaluated
    have even := (expanded.even consistent).evenIn w (w.schema.typeOf q.host)
    have holds := (Materialize.value_fills even (plans.holds even projects) filled).holds
    exact .inr ⟨q, (outcome_of_run known).1, Expanded.answers holds rfl expanded rfl⟩

theorem rootValue_error (named : w.namesScalars = true) {source : String} {d : Document}
    (valid : readValid w source = .ok d) {sys : TypeSystem} (system : w.schema.system = some sys)
    (plain : isPlain sys d = true) {o : Operation} (query : Document.query d = .ok o)
    {vars : Variables} {roots : List FieldNode}
    (collected : collect (fragments d) vars o.selections = .ok roots) {n : FieldNode}
    (root : n ∈ roots) (keeps : KeepsSome d vars n.selections) {context : Value} {e : Fault}
    {a b : Trail} (h : runOn (rootValue w context d vars n) a = (.error e, b))
    (refusal : e.kind = .compilation) : w.Propagates e := by
  have refused := Fault.isRefusal_of_compilation refusal
  unfold rootValue at h
  by_cases own : n.name = Schema.typeNameName
  · rw [if_pos (by simpa using own)] at h
    cases h
  · rw [if_neg (by simpa using own)] at h
    -- The stages of a root field, one after the other: only the later ones call the application.
    obtain ⟨q, declared, known, takes, mild, suits⟩ :=
      readValid_root reached completed named valid system plain query collected root own keeps
    unfold requestedBeneath at mild suits
    rcases bind_eq_error h with fails | ⟨nodes, _, found, h⟩
    · rw [(outcome_of_run fails).1] at mild
      exact nomatch refused.symm.trans (mild e rfl)
    · rw [(outcome_of_run found).1] at mild suits
      rcases bind_eq_error h with fails | ⟨rs, _, requested, h⟩
      · exact nomatch refused.symm.trans (mild e (outcome_of_run fails).1)
      · have composes := QueryDecl.unrefused_compose declared takes
          (suits rs (outcome_of_run requested).1)
        unfold World.runQuery at h
        rw [known, liftM_ok_bind] at h
        rcases bind_eq_error h with fails | ⟨f, _, composed, h⟩
        · exact .raises (composes _ _ e fails refused)
        · rcases bind_eq_error h with fails | ⟨v, _, _, h⟩
          · exact .evaluates composed fails
          · exact Materialize.value_error h refusal

end

/-- What is found for fields, one after the other, is found under all of their names. -/
theorem foldlM_putNamed {f : FieldNode → Making Value} {P : FieldNode → Value → Prop}
    {roots : List FieldNode}
    (one : ∀ n ∈ roots, ∀ v a b, runOn (f n) a = (.ok v, b) → P n v)
    {found results : List (String × Value)} (nodup : (found.map (·.1)).Nodup) {a b : Usage}
    (h : runOn (roots.foldlM (fun found n => do
      let v ← Requesting.making (f n)
      return putNamed found n.output v) found) a = (.ok results, b)) :
    (results.map (·.1)).Nodup
      ∧ (∀ k, k ∈ results.map (·.1) ↔ k ∈ found.map (·.1) ∨ ∃ n ∈ roots, n.output = k)
      ∧ ∀ e ∈ results, e ∈ found ∨ ∃ n ∈ roots, n.output = e.1 ∧ P n e.2 := by
  induction roots generalizing found a with
  | nil =>
    cases h
    exact ⟨nodup, by simp, fun e he => .inl he⟩
  | cons n roots ih =>
    rw [List.foldlM_cons] at h
    obtain ⟨found', m, first, h⟩ := bind_eq_ok h
    obtain ⟨v, _, made, first⟩ := bind_eq_ok first
    cases first
    have here : P n v := one n (by simp) v _ _ (Requesting.run_of_making made)
    obtain ⟨different, names, entries⟩ :=
      ih (fun n hn => one n (by simp [hn])) (nodup_putNamed nodup) h
    refine ⟨different, fun k => (names k).trans ?_, fun e he => ?_⟩
    · rw [names_putNamed]
      constructor
      · rintro ((rfl | old) | ⟨n', hn', rfl⟩)
        · exact .inr ⟨n, by simp, rfl⟩
        · exact .inl old
        · exact .inr ⟨n', by simp [hn'], rfl⟩
      · rintro (old | ⟨n', hn', rfl⟩)
        · exact .inl (.inr old)
        · rcases List.mem_cons.1 hn' with rfl | hn'
          · exact .inl (.inl rfl)
          · exact .inr ⟨n', hn', rfl⟩
    · rcases entries e he with new | ⟨n', hn', later⟩
      · rcases mem_putNamed.1 new with rfl | ⟨old, _⟩
        · exact .inr ⟨n, by simp, rfl, here⟩
        · exact .inl old
      · exact .inr ⟨n', by simp [hn'], later⟩

end Document

open Document in
/-- What a valid document asks for plainly is refused only by the application, as long as no
selection set beneath a kept field is left without fields. And whatever is executed with success
gives the fields that directives keep, and nothing else. -/
theorem World.kept_fields_answered {w : World} (reached : w.IsReached)
    (completed : w.schema.completed = true) (named : w.namesScalars = true) {source : String}
    {d : Document} (valid : readValid w source = .ok d) {sys : Interface.TypeSystem}
    (system : w.schema.system = some sys) (plain : Validity.isPlain sys d = true) {o : Operation}
    (asked : Document.query d = .ok o) (vars : Variables) (context : Value) (a : Usage) :
    ((∀ n, KeptIn (fragments d) vars o.selections n → KeepsSome d vars n.selections) →
        ∀ e b, runOn (w.executeDocument context source vars) a = (.error e, b) →
          e.kind = .compilation → w.Propagates e)
      ∧ (Consistent d vars o.selections →
        ∀ results b, runOn (w.executeDocument context source vars) a = (.ok results, b) →
          (results.map (·.1)).Nodup
            ∧ (∀ k, k ∈ results.map (·.1)
                ↔ ∃ n, KeptIn (fragments d) vars o.selections n ∧ n.output = k)
            ∧ ∀ n v, KeptIn (fragments d) vars o.selections n → (n.output, v) ∈ results →
              AnswersRoot w d vars n v) := by
  have ready : runOn (Requesting.ensureCompleted w) a = (.ok (), a) := by
    unfold Requesting.ensureCompleted
    rw [completed]
    rfl
  have counted :
      runOn Requesting.useContext a = (.ok ⟨⟩, { a with contexts := a.contexts + 1 }) := rfl
  rw [executeDocument_eq, runOn_bind_ok ready, valid, liftM_ok_bind]
  unfold executeRead
  rw [asked, liftM_ok_bind, runOn_bind_ok counted]
  constructor
  · intro keeps e b fails refusal
    rcases bind_eq_error fails with fails | ⟨roots, _, collected, fails⟩
    · have mild := mild_collectWithin _ _ e (outcome_of_run fails).1
      exact nomatch (Fault.isRefusal_of_compilation refusal).symm.trans mild
    · have collected := (outcome_of_run collected).1
      have collects := collectWithin_collects _ collected
      obtain ⟨n, root, _, _, _, fails⟩ := foldlM_error fails
      rcases bind_eq_error fails with fails | ⟨_, _, _, fails⟩
      · exact rootValue_error reached completed named valid system plain asked collected root
          (keeps n ((collects.kept n).1 root)) (Requesting.run_of_making fails) refusal
      · cases fails
  · intro consistent results b run
    obtain ⟨roots, _, collected, run⟩ := bind_eq_ok run
    have collects := collectWithin_collects _ (outcome_of_run collected).1
    obtain ⟨nodup, names, entries⟩ := foldlM_putNamed (P := AnswersRoot w d vars)
      (fun n root v a b run => rootValue_answers reached completed
        (consistent.beneath ((collects.kept n).1 root)) run) (by simp) run
    refine ⟨nodup, fun k => (names k).trans ?_, fun n v kept hv => ?_⟩
    · simp [collects.kept]
    · rcases entries _ hv with old | ⟨m, root, output, answers⟩
      · cases old
      -- The value may be that of another root field with the same name, which asks for the same.
      · obtain ⟨name, selections⟩ :=
          consistent _ .here m n ((collects.kept m).1 root) kept output
        unfold AnswersRoot at answers ⊢
        rw [← name, ← selections]
        exact answers

namespace Document

/-- Whether selections and all that are opened with them keep some field, unless they are empty, and
give each of them out under a name of its own; with a bound on their nesting. -/
def keepsApart (d : Document) (vars : Variables) : Nat → List Selection → Bool
  | 0, _ => false
  | depth + 1, ss =>
    match collect (fragments d) vars ss with
    | .ok nodes => (ss.isEmpty || !nodes.isEmpty) && decide (nodes.map (·.output)).Nodup
        && nodes.all fun n => keepsApart d vars depth n.selections
    | .error _ => false

theorem keepsApart_collects {d : Document} {vars : Variables} {ss : List Selection} {depth : Nat}
    (h : keepsApart d vars depth ss = true) :
    ∃ below nodes, collect (fragments d) vars ss = .ok nodes ∧ (ss ≠ [] → nodes ≠ [])
      ∧ (nodes.map (·.output)).Nodup
      ∧ ∀ n ∈ nodes, keepsApart d vars below n.selections = true := by
  cases depth with
  | zero => cases h
  | succ depth =>
    rw [keepsApart] at h
    split at h
    · next nodes found =>
      rw [Bool.and_eq_true, Bool.and_eq_true, decide_eq_true_eq, List.all_eq_true] at h
      obtain ⟨⟨some, different⟩, beneath⟩ := h
      exact ⟨depth, nodes, found, fun filled => by simpa [filled] using some, different, beneath⟩
    · cases h

theorem keepsApart_opens {d : Document} {vars : Variables} {ss tt : List Selection}
    (opens : Opens (fragments d) vars ss tt) {depth : Nat}
    (h : keepsApart d vars depth ss = true) :
    ∃ nodes, collect (fragments d) vars tt = .ok nodes ∧ (tt ≠ [] → nodes ≠ [])
      ∧ (nodes.map (·.output)).Nodup := by
  induction opens generalizing depth with
  | here =>
    obtain ⟨_, nodes, found, some, different, _⟩ := keepsApart_collects h
    exact ⟨nodes, found, some, different⟩
  | beneath kept opens ih =>
    obtain ⟨below, nodes, found, _, _, beneath⟩ := keepsApart_collects h
    exact ih (beneath _ (((collectWithin_collects _ found).kept _).2 kept))

theorem keepsApart_keepsSome {d : Document} {vars : Variables} {ss : List Selection} {depth : Nat}
    (h : keepsApart d vars depth ss = true) : KeepsSome d vars ss := by
  intro tt opens filled
  obtain ⟨nodes, found, some, _⟩ := keepsApart_opens opens h
  obtain ⟨n, hn⟩ := List.exists_mem_of_ne_nil nodes (some filled)
  exact ⟨n, ((collectWithin_collects _ found).kept n).1 hn⟩

theorem keepsApart_consistent {d : Document} {vars : Variables} {ss : List Selection} {depth : Nat}
    (h : keepsApart d vars depth ss = true) : Consistent d vars ss := by
  intro tt opens n m hn hm output
  obtain ⟨nodes, found, _, different⟩ := keepsApart_opens opens h
  have collects := collectWithin_collects _ found
  obtain rfl := List.inj_on_of_nodup_map different ((collects.kept n).2 hn)
    ((collects.kept m).2 hm) output
  exact ⟨rfl, rfl⟩

end Document

namespace World

open Document

/-- Whether a document is valid for a schema, asks plainly, and keeps fields apart. -/
def keepsFields (w : World) (source : String) (vars : Variables) : Bool :=
  match readValid w source, w.schema.system with
  | .ok d, some sys =>
    match Document.query d with
    | .ok o => Validity.isPlain sys d && keepsApart d vars (size d + 1) o.selections
    | .error _ => false
  | _, _ => false

/-- A field is skipped, and another one beneath the same query is kept. -/
theorem sample_kept_fields_answered :
    let w := QueryDecl.sample (.param QueryDecl.sampleEntity)
    let source := "query($x: Boolean!) { user { value @skip(if: $x) __typename } }"
    let vars : Variables := [("x", .bool true)]
    ∃ d o results b, readValid w source = .ok d ∧ Document.query d = .ok o
      ∧ (∀ n, KeptIn (fragments d) vars o.selections n → KeepsSome d vars n.selections)
      ∧ Consistent d vars o.selections
      ∧ runOn (w.executeDocument .none source vars) ⟨0, w.trail⟩ = (.ok results, b)
      ∧ ∀ n v, KeptIn (fragments d) vars o.selections n → (n.output, v) ∈ results →
        AnswersRoot w d vars n v := by
  have answered (w : World) (source : String) (vars : Variables) (reached : w.IsReached)
      (completed : w.schema.completed = true) (named : w.namesScalars = true)
      (keeps : w.keepsFields source vars = true)
      (succeeds : (runOn (w.executeDocument .none source vars) ⟨0, w.trail⟩).1.isOk = true) :
      ∃ d o results b, readValid w source = .ok d ∧ Document.query d = .ok o
        ∧ (∀ n, KeptIn (fragments d) vars o.selections n → KeepsSome d vars n.selections)
        ∧ Consistent d vars o.selections
        ∧ runOn (w.executeDocument .none source vars) ⟨0, w.trail⟩ = (.ok results, b)
        ∧ ∀ n v, KeptIn (fragments d) vars o.selections n → (n.output, v) ∈ results →
          AnswersRoot w d vars n v := by
    unfold keepsFields at keeps
    split at keeps
    · next d sys valid system =>
      split at keeps
      · next o asked =>
        rw [Bool.and_eq_true] at keeps
        obtain ⟨plain, apart⟩ := keeps
        have some : ∀ n, KeptIn (fragments d) vars o.selections n → KeepsSome d vars n.selections :=
          fun n kept tt opens => keepsApart_keepsSome apart tt (.beneath kept opens)
        have consistent := keepsApart_consistent apart
        cases run : runOn (w.executeDocument .none source vars) ⟨0, w.trail⟩ with
        | mk r b =>
          cases r with
          | error e =>
            rw [run] at succeeds
            cases succeeds
          | ok results =>
            obtain ⟨_, answers⟩ := kept_fields_answered reached completed named valid system plain
              asked vars .none ⟨0, w.trail⟩
            obtain ⟨_, _, each⟩ := answers consistent results b run
            exact ⟨d, o, results, b, valid, asked, some, consistent, rfl, each⟩
      · cases keeps
    · cases keeps
  exact answered (QueryDecl.sample (.param QueryDecl.sampleEntity)) _ _
    (QueryDecl.sample_isReached _) (by decide +kernel) (by decide +kernel) (by decide +kernel)
    (by decide +kernel)

/-- A complete schema of users whose field for the name of their type gives a user. -/
def misnamed : World :=
  let context : Param := ⟨0, "context"⟩
  let user : HostType := .declared "User"
  let itself : Value :=
    .ofTree (.lambda [context, QueryDecl.sampleEntity] (.param QueryDecl.sampleEntity))
  ((Session.start default context 8).after
    [.addType user none "",
      .addField user "value" itself (some (.builtin .str)) false "",
      .addField user Schema.typeNameName itself (some user) false "",
      .addQuery .unmodified "user" user (.ofTree (.lambda [context] (.lit (.str "x")))) "",
      .complete]).world

/-- A valid document is refused if a directive leaves out all that it asks of users, and not
otherwise. And without any directive one is refused that asks for the name of a type, where that is
an entity. -/
theorem emptied_selections_refused :
    let source := "query($x: Boolean!) { user { value @skip(if: $x) } }"
    let w := QueryDecl.sample (.param QueryDecl.sampleEntity)
    w.faultKind source [("x", .bool true)] = some .compilation
      ∧ w.faultKind source [("x", .bool false)] = none
      ∧ misnamed.faultKind "{ user { __typename } }" [] = some .compilation := by
  decide +kernel

end World

end EntityGraph
