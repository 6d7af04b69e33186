import EntityGraph.Proofs.Request.Entries
import EntityGraph.Proofs.Request.Shaped
import EntityGraph.Proofs.Request.Visited

/-!
# Records hold what is selected

A record that composing made has an entry for each selected field of the query, and filling it in
adds those that are computed later. Afterwards it has an entry for every selected field, and no
other, in the order in which they were first selected; what the query computed is as it was, up to
the records in it, which are filled in themselves.

This needs that a field which is selected several times has the same fields selected beneath it each
time, unless it is a scalar. Filling in walks all of the selections, while only the first one was
composed; where they are alike, every walk after the first one finds the records filled in already,
and leaves them so.
-/

set_option linter.unusedSectionVars false

namespace EntityGraph

/-- Whether the fields that are selected under one name have the same fields selected beneath them,
at every level. -/
inductive Even : List Selected → Prop
  | intro {ss : List Selected}
      (same : ∀ s ∈ ss, ∀ s' ∈ ss, s.name = s'.name → s.children = s'.children)
      (beneath : ∀ s ∈ ss, Even s.children) : Even ss

/-- Whether the fields that are selected under one name of a type have the same fields selected
beneath them, at every level, or are scalars. -/
inductive EvenIn (w : World) : TypeDecl → List Selected → Prop
  | intro {t : TypeDecl} {ss : List Selected}
      (same : ∀ s ∈ ss, ∀ s' ∈ ss, s.name = s'.name → s.children = s'.children
        ∨ ∀ f, t.findField? s.name = some f → (w.schema.typeOf f.host).isScalar = true)
      (beneath : ∀ s ∈ ss, ∀ f, t.findField? s.name = some f →
        EvenIn w (w.schema.typeOf f.host) s.children) : EvenIn w t ss

theorem EvenIn.same {w : World} {t : TypeDecl} {ss : List Selected} (h : EvenIn w t ss) :
    ∀ s ∈ ss, ∀ s' ∈ ss, s.name = s'.name → s.children = s'.children
      ∨ ∀ f, t.findField? s.name = some f → (w.schema.typeOf f.host).isScalar = true := by
  cases h with
  | intro same beneath => exact same

theorem EvenIn.beneath {w : World} {t : TypeDecl} {ss : List Selected} (h : EvenIn w t ss) :
    ∀ s ∈ ss, ∀ f, t.findField? s.name = some f →
      EvenIn w (w.schema.typeOf f.host) s.children := by
  cases h with
  | intro same beneath => exact beneath

theorem Even.evenIn {ss : List Selected} (h : Even ss) (w : World) (t : TypeDecl) :
    EvenIn w t ss := by
  induction h generalizing t with
  | intro same beneath ih =>
    exact .intro (fun s hs s' hs' named => .inl (same s hs s' hs' named)) fun s hs f _ => ih s hs _

/-- Whether a value of a type has the records that are selected: all of their entries, or as long as
they are not filled in, those that the query computes. -/
inductive Holds (w : World) : Bool → TypeDecl → Bool → List Selected → Value → Prop
  | scalar {filled : Bool} {t : TypeDecl} {isList : Bool} {ss : List Selected} {v : Value}
      (scalar : t.isScalar = true) : Holds w filled t isList ss v
  | missing {filled : Bool} {t : TypeDecl} {isList : Bool} {ss : List Selected} :
      Holds w filled t isList ss .none
  | record {filled : Bool} {t : TypeDecl} {ss : List Selected} {es : List (String × Value)}
      (nodup : (es.map (·.1)).Nodup) (asked : ∀ e ∈ es, e.1 ∈ ss.map (·.name))
      (has : ∀ s ∈ ss, (filled = true ∨ ∀ f, t.findField? s.name = some f → f.isPost = false) →
        s.name ∈ es.map (·.1))
      (each : ∀ s ∈ ss, ∀ f v, t.findField? s.name = some f → f.isPost = false → (s.name, v) ∈ es →
        Holds w filled (w.schema.typeOf f.host) f.isList s.children v) :
      Holds w filled t false ss (.record t.name es)
  | list {filled : Bool} {t : TypeDecl} {ss : List Selected} {vs : List Value}
      (each : ∀ v ∈ vs, Holds w filled t false ss v) : Holds w filled t true ss (.list vs)

variable {w : World}

theorem Holds.mono {filled : Bool} {t : TypeDecl} {isList : Bool} {ss : List Selected} {v : Value}
    (h : Holds w filled t isList ss v) : Holds w false t isList ss v := by
  induction h with
  | scalar scalar => exact .scalar scalar
  | missing => exact .missing
  | record nodup asked has each ih =>
    refine .record nodup asked (fun s hs pre => has s hs (.inr ?_)) ih
    exact pre.resolve_left (by simp)
  | list each ih => exact .list ih

/-! ## What composing makes -/

mutual

/-- The values that a plan projects into have the records that are selected. -/
theorem Plans.holds {t : TypeDecl} {isList : Bool} {ss : List Selected} {plan : Plan}
    {a b : Trail} (h : Plans w t isList ss plan a b) (even : EvenIn w t ss) {v u : Value}
    (projects : Projects w plan v u) : Holds w false t isList ss u := by
  cases h with
  | scalar scalar => exact .scalar scalar
  | entity entity selected members =>
    rename_i ms
    have record {v : Value} {es : List (String × Value)} (entries : ProjectsAll w v ms es) :
        Holds w false t false ss (.record t.name es) := by
      obtain ⟨has, each⟩ := members.holds even.beneath entries
      have nodup : (es.map (·.1)).Nodup := by
        rw [entries.names]
        exact members.names.1
      refine .record nodup (fun e he => ?_) (fun s hs pre => ?_) fun s hs f v found pre hv => ?_
      · obtain ⟨s, hs, name, _⟩ := each e he
        rw [← name]
        exact List.mem_map_of_mem hs
      · exact has s hs (pre.resolve_left (by simp)) (by simp)
      · obtain ⟨s', hs', name, holds⟩ := each _ hv
        rcases even.same s hs s' hs' name.symm with same | scalar
        · rw [same]
          exact holds f (by rw [name]; exact found)
        · exact .scalar (scalar f found)
    cases projects with
    | missing => exact .missing
    | record present entries => exact record entries
    | records present elements each =>
      refine .list fun u hu => ?_
      obtain ⟨v, es, rfl, entries⟩ := each.record hu
      exact record entries

theorem PlansMembers.holds {t : TypeDecl} {seen : List String} {ss : List Selected}
    {ms : List Member} {a b : Trail} (h : PlansMembers w t seen ss ms a b)
    (even : ∀ s ∈ ss, ∀ f, t.findField? s.name = some f →
      EvenIn w (w.schema.typeOf f.host) s.children) {v : Value} {es : List (String × Value)}
    (entries : ProjectsAll w v ms es) :
    (∀ s ∈ ss, (∀ f, t.findField? s.name = some f → f.isPost = false) →
        s.name ∉ seen → s.name ∈ es.map (·.1))
      ∧ ∀ e ∈ es, ∃ s ∈ ss, s.name = e.1 ∧ ∀ f, t.findField? s.name = some f →
        Holds w false (w.schema.typeOf f.host) f.isList s.children e.2 := by
  cases h with
  | nil =>
    cases entries
    simp
  | passed found passed later =>
    obtain ⟨has, each⟩ := later.holds (fun s hs => even s (by simp [hs])) entries
    refine ⟨fun s' hs' pre new => ?_, fun e he => ?_⟩
    · rcases List.mem_cons.1 hs' with rfl | hs'
      · rcases passed with post | before
        · simp [pre _ found] at post
        · exact absurd before new
      · exact has s' hs' pre new
    · obtain ⟨s', hs', each⟩ := each e he
      exact ⟨s', by simp [hs'], each⟩
  | taken found pre new lends beneath later =>
    rename_i name args children rest entity body plan ms f m m'
    cases entries with
    | @cons _ _ _ _ _ _ x u es gives projects others =>
      obtain ⟨has, each⟩ := later.holds (fun s hs => even s (by simp [hs])) others
      have holds := beneath.holds (even (.field name args children) (by simp) f found) projects
      refine ⟨fun s' hs' pre' new' => ?_, fun e he => ?_⟩
      · rcases List.mem_cons.1 hs' with rfl | hs'
        · simp [Selected.name]
        · by_cases same : s'.name = name
          · simp [same]
          · have := has s' hs' pre' (by simp [new', same])
            exact List.mem_cons_of_mem _ this
      · rcases List.mem_cons.1 he with rfl | he
        · refine ⟨.field name args children, by simp, rfl, fun g found' => ?_⟩
          cases found.symm.trans found'
          exact holds
        · obtain ⟨s', hs', each⟩ := each e he
          exact ⟨s', by simp [hs'], each⟩

end

/-! ## What filling in makes of it -/

/-- Whether the second value is the first one with its records filled in: their entries are those of
the selected fields, in the order in which they were first selected; what the query computed is as it
was, up to the records in it, and the others hold what their functions gave. -/
inductive Materialized (w : World) : TypeDecl → Bool → List Selected → Value → Value → Prop
  | scalar {t : TypeDecl} {isList : Bool} {ss : List Selected} {v : Value}
      (scalar : t.isScalar = true) : Materialized w t isList ss v v
  | missing {t : TypeDecl} {isList : Bool} {ss : List Selected} :
      Materialized w t isList ss .none .none
  | record {t : TypeDecl} {ss : List Selected} {start es : List (String × Value)}
      (order : es.map (·.1) = (ss.map (·.name)).eraseDups)
      (known : ∀ s ∈ ss, ∃ f, t.findField? s.name = some f)
      (given : ∀ s ∈ ss, ∀ f, t.findField? s.name = some f → f.isPost = false →
        s.name ∈ start.map (·.1))
      (pre : ∀ s ∈ ss, ∀ f u v, t.findField? s.name = some f → f.isPost = false →
        (s.name, u) ∈ start → (s.name, v) ∈ es →
        Materialized w (w.schema.typeOf f.host) f.isList s.children u v)
      (post : ∀ s ∈ ss, ∀ f v, t.findField? s.name = some f → f.isPost = true →
        (s.name, v) ∈ es → ∃ a b, runOn (f.computePost w) a = (.ok v, b)) :
      Materialized w t false ss (.record t.name start) (.record t.name es)
  | list {t : TypeDecl} {ss : List Selected} {us vs : List Value} (length : us.length = vs.length)
      (each : ∀ (i : Nat) (u v : Value), us[i]? = some u → vs[i]? = some v → Materialized w t false ss u v) :
      Materialized w t true ss (.list us) (.list vs)

namespace Materialized

/-- What was filled in has all that is selected. -/
theorem holds {t : TypeDecl} {isList : Bool} {ss : List Selected} {u v : Value}
    (h : Materialized w t isList ss u v) : Holds w true t isList ss v := by
  induction h with
  | scalar scalar => exact .scalar scalar
  | missing => exact .missing
  | @record t ss start es order known given pre post ih =>
    have names {n : String} : n ∈ es.map (·.1) ↔ n ∈ ss.map (·.name) := by
      rw [order, List.mem_eraseDups]
    refine .record (order ▸ Materialize.nodup_eraseDups _)
      (fun e he => names.1 (List.mem_map_of_mem he))
      (fun s hs _ => names.2 (List.mem_map_of_mem hs)) fun s hs f v found isPre hv => ?_
    obtain ⟨⟨_, u⟩, hu, rfl⟩ := List.mem_map.1 (given s hs f found isPre)
    exact ih s hs f u v found isPre hu hv
  | @list t ss us vs length each ih =>
    refine .list fun v hv => ?_
    obtain ⟨i, bound, rfl⟩ := List.getElem_of_mem hv
    have before : i < us.length := length ▸ bound
    exact ih i us[i] vs[i] (List.getElem?_eq_getElem before) (List.getElem?_eq_getElem bound)

/-- Filling in what was filled in is filling in. -/
theorem trans {t : TypeDecl} {isList : Bool} {ss : List Selected} {u v v' : Value}
    (h : Materialized w t isList ss u v) (h' : Materialized w t isList ss v v') :
    Materialized w t isList ss u v' := by
  induction h generalizing v' with
  | scalar scalar => exact h'
  | missing => exact h'
  | @record t ss start es order known given pre post ih =>
    cases h' with
    | scalar scalar => exact .record order known given pre post
    | @record _ _ _ es' order' _ given' pre' post' =>
      refine .record order' known given (fun s hs f u v' found isPre hu hv' => ?_) post'
      obtain ⟨⟨_, v⟩, hv, rfl⟩ := List.mem_map.1 (given' s hs f found isPre)
      exact ih s hs f u v found isPre hu hv (pre' s hs f v v' found isPre hv hv')
  | @list t ss us vs length each ih =>
    cases h' with
    | scalar scalar => exact .list length each
    | @list _ _ _ vs' length' each' =>
      refine .list (length.trans length') fun i u v' hu hv' => ?_
      have bound : i < vs.length := length' ▸ (List.getElem?_eq_some_iff.1 hv').1
      have hv := List.getElem?_eq_getElem bound
      exact ih i u vs[i] hu hv (each' i vs[i] v' hv hv')

end Materialized

/-! ## Filling in

The selections are walked one after the other, and each of them puts its entry in or leaves the one
that is there. `Filling` is the invariant of the walk: what has a name that was walked already is
filled in, and everything else still is as composing made it. -/

/-- Whether the entries of a record are those it had at the start, filled in for the names that were
walked already. -/
structure Filling (w : World) (t : TypeDecl) (ss : List Selected) (done : List String)
    (start es : List (String × Value)) : Prop where
  nodup : (es.map (·.1)).Nodup
  asked : ∀ e ∈ es, e.1 ∈ ss.map (·.name)
  has : ∀ s ∈ ss, (s.name ∈ done ∨ ∀ f, t.findField? s.name = some f → f.isPost = false) →
    s.name ∈ es.map (·.1)
  known : ∀ n ∈ done, ∃ f, t.findField? n = some f
  given : ∀ s ∈ ss, ∀ f, t.findField? s.name = some f → f.isPost = false →
    s.name ∈ start.map (·.1)
  pre : ∀ s ∈ ss, ∀ f u v, t.findField? s.name = some f → f.isPost = false →
    (s.name, u) ∈ start → (s.name, v) ∈ es →
    Holds w false (w.schema.typeOf f.host) f.isList s.children u
      ∧ (s.name ∉ done → v = u)
      ∧ (s.name ∈ done → Materialized w (w.schema.typeOf f.host) f.isList s.children u v)
  post : ∀ s ∈ ss, ∀ f v, t.findField? s.name = some f → f.isPost = true → s.name ∈ done →
    (s.name, v) ∈ es → ∃ a b, runOn (f.computePost w) a = (.ok v, b)

variable {t : TypeDecl} {ss : List Selected} {done : List String}
  {start es : List (String × Value)}

theorem Holds.filling (h : Holds w false t false ss (.record t.name es))
    (entity : t.isScalar = false) : Filling w t ss [] es es := by
  cases h with
  | scalar scalar => cases entity.symm.trans scalar
  | record nodup asked has each =>
    refine ⟨nodup, asked, fun s hs pre => has s hs (pre.imp_left (by simp)), by simp,
      fun s hs f found pre => has s hs (.inr fun g found' => ?_),
      fun s hs f u v found pre hu hv => ⟨each s hs f u found pre hu, fun _ => ?_, by simp⟩, by simp⟩
    · cases found.symm.trans found'
      exact pre
    · exact Option.some.inj (((lookup_eq_some_iff nodup).2 hv).symm.trans
        ((lookup_eq_some_iff nodup).2 hu))

namespace Filling

/-- Whether an entry was walked already or not, it has the records that the query computes. -/
theorem holds (h : Filling w t ss done start es) {s : Selected} (among : s ∈ ss) {f : FieldDecl}
    {v : Value} (found : t.findField? s.name = some f) (pre : f.isPost = false)
    (here : (s.name, v) ∈ es) : Holds w false (w.schema.typeOf f.host) f.isList s.children v := by
  obtain ⟨⟨_, u⟩, hu, rfl⟩ := List.mem_map.1 (h.given s among f found pre)
  obtain ⟨holds, same, filled⟩ := h.pre s among f u v found pre hu here
  by_cases walked : s.name ∈ done
  · exact (filled walked).holds.mono
  · rw [same walked]
    exact holds

/-- Once all names were walked the record is filled in. -/
theorem materialized (h : Filling w t ss done start es) (all : ∀ s ∈ ss, s.name ∈ done) :
    Materialized w t false ss (.record t.name start)
      (.record t.name (Materialize.reorder (ss.map (·.name)) es)) := by
  have mem {e : String × Value} : e ∈ Materialize.reorder (ss.map (·.name)) es ↔ e ∈ es :=
    Materialize.mem_reorder h.nodup
  refine .record (Materialize.names_reorder h.asked fun n hn => ?_)
    (fun s hs => h.known _ (all s hs)) h.given (fun s hs f u v found pre hu hv => ?_)
    fun s hs f v found post hv => h.post s hs f v found post (all s hs) (mem.1 hv)
  · obtain ⟨s, hs, rfl⟩ := List.mem_map.1 hn
    exact h.has s hs (.inl (all s hs))
  · exact (h.pre s hs f u v found pre hu (mem.1 hv)).2.2 (all s hs)

/-- What is put in for a selected field is what its function gave, or its entry filled in. -/
theorem put (h : Filling w t ss done start es) {s : Selected} (among : s ∈ ss) {f : FieldDecl}
    (found : t.findField? s.name = some f) {v : Value}
    (pre : f.isPost = false → ∀ s' ∈ ss, s'.name = s.name → ∀ old, (s.name, old) ∈ es →
      Materialized w (w.schema.typeOf f.host) f.isList s'.children old v)
    (post : f.isPost = true → ∃ a b, runOn (f.computePost w) a = (.ok v, b)) :
    Filling w t ss (s.name :: done) start (Document.putNamed es s.name v) where
  nodup := Document.nodup_putNamed h.nodup
  asked e he := by
    rcases Document.mem_putNamed.1 he with rfl | ⟨old, _⟩
    · exact List.mem_map_of_mem among
    · exact h.asked e old
  has s' hs' which := by
    rw [Document.names_putNamed]
    by_cases same : s'.name = s.name
    · exact .inl same
    · refine .inr (h.has s' hs' (which.imp_left fun other => ?_))
      exact (List.mem_cons.1 other).resolve_left same
  known n hn := by
    rcases List.mem_cons.1 hn with rfl | before
    · exact ⟨f, found⟩
    · exact h.known n before
  given := h.given
  pre s' hs' g u v' found' isPre hu hv' := by
    rcases Document.mem_putNamed.1 hv' with this | ⟨old, other⟩
    · injection this with name value
      subst value
      rw [name] at found' hu
      cases found.symm.trans found'
      -- What was there is the entry of the query, or this entry filled in once already.
      have there : s'.name ∈ es.map (·.1) := h.has s' hs' (.inr fun g found'' => by
        rw [name, found] at found''
        cases found''
        exact isPre)
      obtain ⟨⟨_, old⟩, hold, rfl⟩ := List.mem_map.1 there
      obtain ⟨holds, same, filled⟩ := h.pre s' hs' f u old (name ▸ found) isPre (name ▸ hu) hold
      refine ⟨holds, fun new => absurd (by simp [name]) new, fun _ => ?_⟩
      have again := pre isPre s' hs' name old (name ▸ hold)
      by_cases walked : s'.name ∈ done
      · exact (filled walked).trans again
      · rwa [same walked] at again
    · obtain ⟨holds, same, filled⟩ := h.pre s' hs' g u v' found' isPre hu old
      refine ⟨holds, fun new => same fun before => new (by simp [before]), fun walked => ?_⟩
      exact filled ((List.mem_cons.1 walked).resolve_left other)
  post s' hs' g v' found' isPost walked hv' := by
    rcases Document.mem_putNamed.1 hv' with this | ⟨old, other⟩
    · injection this with name value
      subst value
      rw [name] at found'
      cases found.symm.trans found'
      exact post isPost
    · exact h.post s' hs' g v' found' isPost ((List.mem_cons.1 walked).resolve_left other) old

/-- The entry of a scalar field of the query is there from the start. -/
theorem leave (h : Filling w t ss done start es) {name : String} {f : FieldDecl}
    (found : t.findField? name = some f) (pre : f.isPost = false)
    (scalar : (w.schema.typeOf f.host).isScalar = true) :
    Filling w t ss (name :: done) start es where
  nodup := h.nodup
  asked := h.asked
  has s hs which := by
    refine h.has s hs ?_
    rcases which with other | pre
    · rcases List.mem_cons.1 other with rfl | before
      · refine .inr fun g found' => ?_
        cases found.symm.trans found'
        exact pre
      · exact .inl before
    · exact .inr pre
  known n hn := by
    rcases List.mem_cons.1 hn with rfl | before
    · exact ⟨f, found⟩
    · exact h.known n before
  given := h.given
  pre s hs g u v found' isPre hu hv := by
    obtain ⟨holds, same, filled⟩ := h.pre s hs g u v found' isPre hu hv
    refine ⟨holds, fun new => same fun before => new (by simp [before]), fun walked => ?_⟩
    by_cases before : s.name ∈ done
    · exact filled before
    · rw [(List.mem_cons.1 walked).resolve_right before] at found'
      cases found.symm.trans found'
      rw [same before]
      exact .scalar scalar
  post s hs g v found' isPost walked hv := by
    refine h.post s hs g v found' isPost ((List.mem_cons.1 walked).resolve_left fun same => ?_) hv
    rw [same] at found'
    cases found.symm.trans found'
    cases pre.symm.trans isPost

end Filling

namespace Materialize

/-- What is made of elements one after the other is as many, each made of the one at its place. -/
theorem mapM_places {α β : Type} {f : α → Making β} {as : List α} {bs : List β} {s t : Trail}
    (h : runOn (as.mapM f) s = (.ok bs, t)) :
    as.length = bs.length ∧ ∀ (i : Nat) (a : α) (b : β), as[i]? = some a → bs[i]? = some b →
      ∃ u v, runOn (f a) u = (.ok b, v) := by
  induction as generalizing bs s t with
  | nil =>
    rw [List.mapM_nil] at h
    cases h
    exact ⟨rfl, by simp⟩
  | cons a as ih =>
    rw [List.mapM_cons] at h
    obtain ⟨b, u, first, h⟩ := bind_eq_ok h
    obtain ⟨bs', v, rest, h⟩ := bind_eq_ok h
    cases h
    obtain ⟨length, each⟩ := ih rest
    refine ⟨congrArg (· + 1) length, fun i a' b' ha hb => ?_⟩
    cases i with
    | zero =>
      cases ha
      cases hb
      exact ⟨_, _, first⟩
    | succ i => exact each i a' b' ha hb

theorem records_fill (entity : t.isScalar = false)
    {fill : List (String × Value) → Making (List (String × Value))}
    (one : ∀ es es' a b, Holds w false t false ss (.record t.name es) →
      runOn (fill es) a = (.ok es', b) →
        Materialized w t false ss (.record t.name es) (.record t.name es'))
    {isList : Bool} {v v' : Value} (holds : Holds w false t isList ss v) {a b : Trail}
    (run : runOn (records fill isList v) a = (.ok v', b)) : Materialized w t isList ss v v' := by
  have single {u u' : Value} {a b : Trail} (run : runOn (records fill false u) a = (.ok u', b))
      (holds : Holds w false t false ss u) : Materialized w t false ss u u' := by
    cases holds with
    | scalar scalar => cases entity.symm.trans scalar
    | missing =>
      cases run
      exact .missing
    | record nodup asked has each =>
      obtain ⟨es', _, filled, run⟩ := bind_eq_ok run
      cases run
      exact one _ _ _ _ (.record nodup asked has each) filled
  cases isList with
  | false => exact single run holds
  | true =>
    cases holds with
    | scalar scalar => cases entity.symm.trans scalar
    | missing =>
      cases run
      exact .missing
    | list each =>
      obtain ⟨us, _, filled, run⟩ := bind_eq_ok run
      cases run
      obtain ⟨length, made⟩ := mapM_places filled
      refine .list length fun i u u' hu hu' => ?_
      obtain ⟨_, _, run⟩ := made i u u' hu hu'
      exact single run (each u (List.mem_of_getElem? hu))

mutual

theorem field_fills {t : TypeDecl} {ss : List Selected} {done : List String} (s : Selected)
    (even : EvenIn w t ss) (among : s ∈ ss) {start es es' : List (String × Value)}
    (filling : Filling w t ss done start es) {a b : Trail}
    (run : runOn (field w t s es) a = (.ok es', b)) :
    Filling w t ss (s.name :: done) start es' := by
  obtain ⟨name, args, children⟩ := s
  rw [field] at run
  split at run
  · cases run
  · next f found =>
    split at run
    · next isPost =>
      obtain ⟨v, _, computed, run⟩ := bind_eq_ok run
      have put := (outcome_of_run run).1
      unfold TypeDecl.setPost at put
      split at put
      · cases put
        refine filling.put among found (fun isPre => ?_) fun _ => ⟨_, _, computed⟩
        cases isPost.symm.trans isPre
      · cases put
    · next pre =>
      have isPre : f.isPost = false := by simpa using pre
      dsimp only at run
      split at run
      · next scalar =>
        cases run
        exact filling.leave found isPre scalar
      · next object =>
        have entity : (w.schema.typeOf f.host).isScalar = false := by simpa using object
        split at run
        · cases run
        · next v looked =>
          have here := (lookup_eq_some_iff filling.nodup).1 looked
          -- If the name was walked before, the entry is filled in and is filled in once more.
          have holds := filling.holds among found isPre here
          obtain ⟨v', _, filled, run⟩ := bind_eq_ok run
          cases run
          refine filling.put among found (fun _ s' hs' same old hold => ?_) fun isPost => ?_
          · have beneath : s'.children = children := by
              rcases even.same s' hs' _ among same with alike | scalar
              · exact alike
              · cases entity.symm.trans (scalar f (same ▸ found))
            rw [beneath]
            cases looked.symm.trans ((lookup_eq_some_iff filling.nodup).2 hold)
            refine records_fill entity (fun es es' a b holds run => ?_) holds filled
            obtain ⟨es₁, _, walked, run⟩ := bind_eq_ok run
            cases run
            obtain ⟨done', _, all, filled⟩ := fields_fill children
              (even.beneath _ among f found) (fun _ => id) (holds.filling entity) walked
            exact filled.materialized all
          · cases isPre.symm.trans isPost

theorem fields_fill {t : TypeDecl} {ss : List Selected} {done : List String}
    (rest : List Selected) (even : EvenIn w t ss) (among : ∀ s ∈ rest, s ∈ ss)
    {start es es' : List (String × Value)} (filling : Filling w t ss done start es) {a b : Trail}
    (run : runOn (fields w t rest es) a = (.ok es', b)) :
    ∃ done', (∀ n ∈ done, n ∈ done') ∧ (∀ s ∈ rest, s.name ∈ done')
      ∧ Filling w t ss done' start es' := by
  cases rest with
  | nil =>
    cases run
    exact ⟨done, fun _ => id, by simp, filling⟩
  | cons s rest =>
    rw [fields] at run
    obtain ⟨es₁, _, first, run⟩ := bind_eq_ok run
    have filled := field_fills s even (among s (by simp)) filling first
    obtain ⟨done', kept, all, filling'⟩ :=
      fields_fill rest even (fun s hs => among s (by simp [hs])) filled run
    refine ⟨done', fun n hn => kept n (by simp [hn]), fun s' hs' => ?_, filling'⟩
    rcases List.mem_cons.1 hs' with rfl | hs'
    · exact kept _ (by simp)
    · exact all s' hs'

end

/-- Filling in what a request evaluates to makes of it what is described. -/
theorem value_fills {t : TypeDecl} {ss : List Selected} (even : EvenIn w t ss) {isList : Bool}
    {v v' : Value} (holds : Holds w false t isList ss v) {a b : Trail}
    (run : runOn (value w t ss isList v) a = (.ok v', b)) : Materialized w t isList ss v v' := by
  unfold value at run
  split at run
  · next scalar =>
    cases run
    exact .scalar scalar
  · next object =>
    have entity : t.isScalar = false := by simpa using object
    refine records_fill entity (fun es es' a b holds run => ?_) holds run
    obtain ⟨es₁, _, walked, run⟩ := bind_eq_ok run
    cases run
    obtain ⟨done', _, all, filled⟩ :=
      fields_fill ss even (fun _ => id) (holds.filling entity) walked
    exact filled.materialized all

end Materialize

end EntityGraph
