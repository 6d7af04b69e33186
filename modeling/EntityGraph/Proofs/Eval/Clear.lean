import EntityGraph.Proofs.Eval.Upheld

/-!
# Evaluating without recording proxies

A value is clear if it holds no proxy, however deep, and nothing that makes one either: not the class
of proxies, no expression, and no function whose script makes proxies or expressions. Objects are
references. What they hold is up to the memory, and is not asked of a value, so a world is clear if
whatever it declares is, and a trail if whatever was made is.

Where both are clear, what is evaluated of clear values is clear: no proxy comes up, since there is
none at hand and nothing that makes one. In particular no proxy is asked whether it holds or what its
elements are, which is where comparing and testing proxies would fail.
-/

namespace EntityGraph

/-! ## Values without proxies -/

/-- Whether a class is neither that of proxies nor one of expressions. -/
def HostType.IsClear : HostType → Prop
  | .builtin .proxy | .expression _ => False
  | _ => True

namespace Value

/-- Whether a value holds no proxy and nothing that makes one. -/
inductive Clear : Value → Prop
  | atom {v : Value} (h : v.isAtom = true) : Clear v
  | list {vs : List Value} (elements : ∀ v ∈ vs, Clear v) : Clear (.list vs)
  | tuple {vs : List Value} (elements : ∀ v ∈ vs, Clear v) : Clear (.tuple vs)
  | set {vs : List Value} (elements : ∀ v ∈ vs, Clear v) : Clear (.set vs)
  | dict {es : List (Value × Value)} (keys : ∀ e ∈ es, Clear e.1)
      (values : ∀ e ∈ es, Clear e.2) : Clear (.dict es)
  | orderedDict {es : List (Value × Value)} {mark : Nat} (keys : ∀ e ∈ es, Clear e.1)
      (values : ∀ e ∈ es, Clear e.2) : Clear (.orderedDict es mark)
  | record {name : String} {fs : List (String × Value)} (fields : ∀ f ∈ fs, Clear f.2) :
      Clear (.record name fs)
  | object {r : Ref} (other : ∀ p, r ≠ .expression p) : Clear (.object r)
  | type {t : HostType} (plain : t.IsClear) : Clear (.type t)
  | generic {t : HostType} {vs : List Value} (plain : t.IsClear) (params : ∀ v ∈ vs, Clear v) :
      Clear (.generic t vs)
  | foreign {t : HostType} {mark : Nat} (plain : t.IsClear) : Clear (.foreign t mark)
  | method {v : Value} {name : String} (receiver : Clear v) : Clear (.method v name)
  | supplied {v : Value} (function : Clear v) : Clear (.supplied v)
  | closure (number : Nat) : Clear (.closure number)
  | function {id : Nat} {params : List String} {star : Option String} {body : Script Value}
      {env : List (String × Value)} {literal : Value → Prop} (tame : body.Tame literal)
      (literals : ∀ v, literal v → Clear v) (around : ∀ b ∈ env, Clear b.2) :
      Clear (.function id params star body env)

/-! ## What is clear, by constructors -/

@[simp, grind =] theorem clear_list {vs : List Value} : (list vs).Clear ↔ ∀ v ∈ vs, v.Clear := by
  refine ⟨fun h => ?_, .list⟩
  cases h with
  | atom h => cases h
  | list elements => exact elements

@[simp, grind =] theorem clear_tuple {vs : List Value} : (tuple vs).Clear ↔ ∀ v ∈ vs, v.Clear := by
  refine ⟨fun h => ?_, .tuple⟩
  cases h with
  | atom h => cases h
  | tuple elements => exact elements

@[simp, grind =] theorem clear_set {vs : List Value} : (set vs).Clear ↔ ∀ v ∈ vs, v.Clear := by
  refine ⟨fun h => ?_, .set⟩
  cases h with
  | atom h => cases h
  | set elements => exact elements

@[simp, grind =] theorem clear_dict {es : List (Value × Value)} :
    (dict es).Clear ↔ ∀ e ∈ es, e.1.Clear ∧ e.2.Clear := by
  refine ⟨fun h => ?_, fun h => .dict (fun e he => (h e he).1) fun e he => (h e he).2⟩
  cases h with
  | atom h => cases h
  | dict keys values => exact fun e he => ⟨keys e he, values e he⟩

@[simp, grind =] theorem clear_orderedDict {es : List (Value × Value)} {mark : Nat} :
    (orderedDict es mark).Clear ↔ ∀ e ∈ es, e.1.Clear ∧ e.2.Clear := by
  refine ⟨fun h => ?_, fun h => .orderedDict (fun e he => (h e he).1) fun e he => (h e he).2⟩
  cases h with
  | atom h => cases h
  | orderedDict keys values => exact fun e he => ⟨keys e he, values e he⟩

@[simp, grind =] theorem clear_record {name : String} {fs : List (String × Value)} :
    (record name fs).Clear ↔ ∀ f ∈ fs, f.2.Clear := by
  refine ⟨fun h => ?_, .record⟩
  cases h with
  | atom h => cases h
  | record fields => exact fields

@[simp, grind =] theorem clear_type {t : HostType} : (type t).Clear ↔ t.IsClear := by
  refine ⟨fun h => ?_, .type⟩
  cases h with
  | atom h => cases h
  | type plain => exact plain

@[simp, grind =] theorem clear_generic {t : HostType} {vs : List Value} :
    (generic t vs).Clear ↔ t.IsClear ∧ ∀ v ∈ vs, v.Clear := by
  refine ⟨fun h => ?_, fun h => .generic h.1 h.2⟩
  cases h with
  | atom h => cases h
  | generic plain params => exact ⟨plain, params⟩

@[simp, grind =] theorem clear_foreign {t : HostType} {mark : Nat} :
    (foreign t mark).Clear ↔ t.IsClear := by
  refine ⟨fun h => ?_, .foreign⟩
  cases h with
  | atom h => cases h
  | foreign plain => exact plain

@[simp, grind =] theorem clear_method {v : Value} {name : String} :
    (method v name).Clear ↔ v.Clear := by
  refine ⟨fun h => ?_, .method⟩
  cases h with
  | atom h => cases h
  | method receiver => exact receiver

@[simp, grind =] theorem clear_supplied {v : Value} : (supplied v).Clear ↔ v.Clear := by
  refine ⟨fun h => ?_, .supplied⟩
  cases h with
  | atom h => cases h
  | supplied function => exact function

theorem clear_function {id : Nat} {params : List String} {star : Option String}
    {body : Script Value} {env : List (String × Value)} :
    (function id params star body env).Clear ↔ body.Tame Clear ∧ ∀ b ∈ env, b.2.Clear := by
  refine ⟨fun h => ?_, fun ⟨tame, around⟩ => .function tame (fun _ h => h) around⟩
  cases h with
  | atom h => cases h
  | function tame literals around => exact ⟨tame.mono literals, around⟩

@[simp, grind .] theorem not_clear_proxy {u : Value} {mark : Nat} : ¬ (proxy u mark).Clear := by
  intro h
  cases h with
  | atom h => cases h

@[simp, grind .] theorem not_clear_expr {e : Expr Value} {p : Position} : ¬ (expr e p).Clear := by
  intro h
  cases h with
  | atom h => cases h

theorem Clear.withMark {v : Value} (h : v.Clear) (mark : Nat) : (v.withMark mark).Clear := by
  unfold Value.withMark
  split
  · exact .atom rfl
  · exact .atom rfl
  · exact .atom rfl
  · exact clear_orderedDict.2 (clear_orderedDict.1 h)
  · exact absurd h not_clear_proxy
  · exact absurd h not_clear_expr
  · exact clear_foreign.2 (clear_foreign.1 h)
  · exact h

end Value

/-- The values without proxies. What computing with them fails with is no fault of a proxy. -/
def Realm.clear : Realm where
  Holds := Value.Clear
  Allows e := e ≠ .proxyTruth ∧ e ≠ .proxyIteration
  hidden := []
  atom h := .atom h
  list := Value.clear_list
  tuple := Value.clear_tuple
  set := Value.clear_set
  dict := Value.clear_dict
  entries := Value.clear_orderedDict.1
  ordered := Value.clear_orderedDict.2
  record := Value.clear_record
  builtin {b} other := by cases b with
    | proxy => exact absurd rfl other
    | _ => exact .type trivial
  declared _ := .type trivial
  recordType _ := .type trivial
  generic := by simp
  foreign := by simp
  method := by simp
  ordinary h := ⟨h.truth, h.iteration⟩
  proxies h := absurd h Value.not_clear_proxy
  all {v} is h := by
    cases v with
    | expr | typeRef | fieldRef | schema => cases h with
      | atom h => cases h
    | _ => cases is

theorem Realm.allows_clear_unbound (p : Param) : Realm.clear.Allows (.unbound p) := by
  constructor <;> intro same <;> cases same

/-! ## Worlds and trails without proxies -/

/-- Whether an object holds no proxy and nothing that makes one. -/
structure ObjectDecl.IsClear (o : ObjectDecl) : Prop where
  type : o.type.IsClear
  attributes : ∀ a ∈ o.attributes, a.2.Clear

/-- Whether whatever a world declares is clear, and no class is a proxy class. -/
structure World.IsClear (w : World) : Prop where
  classes : ∀ c ∈ w.classes, c.Declares [] Value.Clear
  bases : ∀ c ∈ w.classes, ∀ n ∈ c.bases, (HostType.ofName n).IsClear
  objects : ∀ name o, w.objects.lookup name = some o → o.IsClear

/-- Whether whatever was made and assigned is clear, also what the values of lambdas keep. -/
structure Trail.IsClear (t : Trail) : Prop where
  memory : ∀ r o, t.memory.lookup r = some o → o.IsClear
  closures : ∀ n c, t.closures.lookup n = some c →
    c.body.HoldsOnly Value.Clear ∧ ∀ p v, c.scope.lookup? p = some v → v.Clear

/-! ## What there is in clear worlds -/

theorem Builtin.proxy_mem_lineage {b : Builtin} (h : proxy ∈ b.lineage) : b = proxy := by
  cases b <;> simp_all [lineage]

namespace Classes

variable {cs : Classes} {t u : HostType}

theorem ancestry_clear (ht : t.IsClear) (h : u ∈ cs.ancestry t) : u.IsClear := by
  have inherited {b d : Builtin} (other : b ≠ .proxy) (hd : d ∈ b.lineage) :
      (HostType.builtin d).IsClear := by
    cases d with
    | proxy => exact absurd (Builtin.proxy_mem_lineage hd) other
    | _ => trivial
  unfold ancestry at h
  split at h
  · obtain ⟨d, hd, rfl⟩ := List.mem_map.1 h
    exact inherited (fun same => by subst same; exact ht) hd
  · rcases List.mem_append.1 h with h | h
    · obtain ⟨k, -, rfl⟩ := List.mem_map.1 h
      trivial
    · obtain ⟨d, hd, rfl⟩ := List.mem_map.1 h
      exact inherited (by split <;> nofun) hd
  · cases h

theorem bases_clear (declared : ∀ c ∈ cs, ∀ n ∈ c.bases, (HostType.ofName n).IsClear)
    (ht : t.IsClear) (h : u ∈ cs.basesOf t) : u.IsClear := by
  have inherited (h : u ∈ ((cs.ancestry t).drop 1).take 1) : u.IsClear :=
    ancestry_clear ht (List.mem_of_mem_drop (List.mem_of_mem_take h))
  unfold basesOf at h
  dsimp only at h
  split at h
  · next name =>
    split at h
    · exact inherited h
    · obtain ⟨n, hn, rfl⟩ := List.mem_map.1 h
      cases found : cs.find? name with
      | none =>
        rw [found] at hn
        cases hn
      | some c =>
        rw [found] at hn
        exact declared c (List.mem_of_find?_eq_some found) n hn
  · exact inherited h

end Classes

namespace World

variable {w : World} {t : Trail}

theorem IsClear.object (hw : w.IsClear) (ht : t.IsClear) (r : Ref) :
    ((w.after t).object r).IsClear := by
  unfold World.object
  split
  · next found => exact ht.memory _ _ found
  · next name _ =>
    cases found : w.objects.lookup name with
    | none =>
      rw [show (w.after t).objects.lookup name = none from found]
      exact ⟨trivial, nofun⟩
    | some o =>
      rw [show (w.after t).objects.lookup name = some o from found]
      exact hw.objects name o found
  · exact ⟨trivial, nofun⟩

theorem IsClear.assigned (ht : t.IsClear) {r : Ref} {name : String} {v : Value}
    (found : (w.after t).assigned? r name = some v) : v.Clear := by
  obtain ⟨o, held, found⟩ := Option.bind_eq_some_iff.1 found
  obtain ⟨before, after, split, -⟩ := List.lookup_eq_some_iff.1 found
  exact (ht.memory r o held).attributes (name, v) (by simp [split])

/-- Nothing that is recorded is at hand in a clear world. -/
theorem IsClear.covers (hw : w.IsClear) (ht : t.IsClear) : Realm.clear.Covers (w.after t) where
  attributes _ r _ _ := (hw.object ht r).attributes
  assigned _ _ _ _ _ _ := IsClear.assigned ht
  objectType r := .type (hw.object ht r).type
  offers className name a offered := by
    obtain ⟨c, hc, offered⟩ := List.exists_of_findSome?_eq_some offered
    split at offered
    · next v found =>
      cases offered
      exact IsClear.assigned ht found
    · exact Classes.offers_of_declares (hw.classes c (Classes.mem_of_mem_lineage hc)) offered
  methods _ _ _ offered := Classes.offers_of_attribute hw.classes offered
  defaults _ _ hm _ is := Classes.default_of_fields hw.classes hm is
  ancestry _ _ ht among := .type <| among.elim (Classes.ancestry_clear (Value.clear_type.1 ht))
    (Classes.bases_clear hw.bases (Value.clear_type.1 ht))
  records := ⟨fun _ _ _ _ h => absurd h Value.not_clear_proxy,
    fun _ _ _ _ _ h => absurd h Value.not_clear_proxy,
    fun _ _ _ h => absurd h Value.not_clear_proxy, fun _ _ _ h => absurd h Value.not_clear_proxy,
    fun _ _ _ h => absurd h Value.not_clear_proxy,
    fun _ _ _ _ h => absurd h Value.not_clear_proxy⟩

end World

/-- No script that stays clear makes anything else. -/
theorem Realm.closed_clear : Realm.clear.Closed where
  shown := rfl
  object _ := .object nofun
  closure := .closure
  marked n h := h.withMark n
  supplied := Value.clear_supplied.1
  function := by
    refine Value.clear_function.trans (and_congr_left fun _ => ⟨.inl, fun stays => ?_⟩)
    exact stays.resolve_right fun all => Value.not_clear_proxy (all (.proxy .none 0))
  proxy h := absurd h Value.not_clear_proxy
  proxyType h := (Value.clear_type.1 h).elim
  nodeType h := (Value.clear_type.1 h).elim

/-! ## What stays clear -/

theorem Trail.IsClear.put {t : Trail} (h : t.IsClear) {o : ObjectDecl} (ho : o.IsClear) (r : Ref) :
    (t.put r o).IsClear := by
  refine ⟨fun s p found => ?_, h.closures⟩
  rw [show (t.put r o).memory = t.memory.insert r o from rfl, Memory.lookup_insert] at found
  split at found
  · cases found
    exact ho
  · exact h.memory s p found

/-- In a clear world clear values give clear values, and no fault of a proxy. -/
theorem World.IsClear.upheld {w : World} (hw : w.IsClear) : Upheld w .clear Trail.IsClear where
  closed := Realm.closed_clear
  covers _ ht := hw.covers ht
  number _ h := ⟨h.memory, h.closures⟩
  put _ r _ h ht has := h.put ⟨Value.clear_type.1 ht, has⟩ r
  keep t n c fits h := by
    refine ⟨h.memory, fun m d found => ?_⟩
    rw [List.lookup_cons] at found
    split at found
    · cases found
      refine ⟨fits.body, fun p v bound => ?_⟩
      have looked : c.scope.lookup p = .ok v := by rw [Scope.lookup, bound]
      exact fits.scope.brings p v looked
    · exact h.closures m d found
  kept t n c h found := by
    obtain ⟨body, scope⟩ := h.closures n c found
    refine ⟨⟨fun p _ => ?_, fun p v looked => ?_⟩, body⟩
    · unfold Scope.lookup
      split
      · exact calm_ok _
      · exact (calm_error _).2 (Realm.allows_clear_unbound p)
    · unfold Scope.lookup at looked
      split at looked
      · next bound =>
        cases looked
        exact scope p _ bound
      · cases looked

/-- A lambda of clear values gives clear values for clear arguments, and leaves clear values behind. -/
theorem World.IsClear.applied {w : World} (hw : w.IsClear) {e : Expr Value}
    (clear : e.HoldsOnly Value.Clear) {args : List Value} (hargs : ∀ a ∈ args, a.Clear) :
    Realm.clear.Yields Trail.IsClear Value.Clear (e.applyLambda w.host args) := by
  refine hw.upheld.applyTo hw.upheld.call e hargs ⟨fun p _ => ?_, fun p v looked => ?_⟩ clear
  · exact (calm_error _).2 (Realm.allows_clear_unbound p)
  · cases looked

end EntityGraph
