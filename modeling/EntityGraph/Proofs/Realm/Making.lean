import EntityGraph.Proofs.Expr.Open
import EntityGraph.Proofs.Realm.CalmMethod

/-!
# Making and assigning in a realm

Computations that make objects and assign to attributes stay in a realm if what they leave behind does:
the numbers that they use up, the objects that they put into the memory, and the lambdas that are kept
for their values. A property of trails that lasts through such steps is upheld by all of them. Along
with it goes what the computations may fail with, and that they give values of the realm.
-/

set_option linter.unusedSectionVars false

namespace EntityGraph

variable {α β : Type}

/-! ## What objects hold -/

theorem Memory.lookup_insert (m : Memory) (r s : Ref) (o : ObjectDecl) :
    (m.insert r o).lookup s = if s = r then some o else m.lookup s := by
  unfold Memory.insert
  rw [List.lookup_cons]
  by_cases same : s = r
  · simp [same]
  · rw [if_neg same]
    have other : (s == r) = false := by simpa using same
    rw [other]
    induction m with
    | nil => rfl
    | cons e m ih =>
      obtain ⟨r', o'⟩ := e
      by_cases kept : r' = r
      · subst kept
        simpa [List.lookup_cons, other] using ih
      · simp only [List.filter_cons, List.lookup_cons, bne_iff_ne, ne_eq, kept, not_false_eq_true,
          if_true]
        split <;> simp_all

/-- A trail with something put into its memory. -/
def Trail.put (t : Trail) (r : Ref) (o : ObjectDecl) : Trail :=
  { t with memory := t.memory.insert r o }

/-- Whether what an object holds was held before or is in a realm. -/
def ObjectDecl.IsFilledFrom (R : Realm) (o old : ObjectDecl) : Prop :=
  ∀ a ∈ o.attributes, R.Holds a.2 ∨ ∃ a' ∈ old.attributes, a'.2 = a.2

namespace Value

variable {R : Realm} {w : World} {name : String} {v : Value} (hv : R.Holds v)

include hv

theorem filled_put (o : ObjectDecl) : (o.put name v).IsFilledFrom R o := by
  intro a ha
  unfold ObjectDecl.put at ha
  dsimp only at ha
  split at ha
  · obtain ⟨b, hb, rfl⟩ := List.mem_map.1 ha
    dsimp only
    split
    · exact .inl hv
    · exact .inr ⟨b, hb, rfl⟩
  · rcases List.mem_append.1 ha with ha | ha
    · exact .inr ⟨a, ha, rfl⟩
    · cases List.mem_singleton.1 ha
      exact .inl hv

theorem brings_attributesIn : Brings (fun as => ∀ a ∈ as, R.Holds a.2) (attributesIn v) := by
  unfold attributesIn
  split
  · next view =>
    refine (brings_ok _).2 fun a ha => ?_
    obtain ⟨e, he, is⟩ := List.mem_filterMap.1 ha
    obtain ⟨n, -, rfl⟩ := Option.map_eq_some_iff.1 is
    exact (holds_entriesView hv view e he).2
  · exact brings_error _

theorem brings_putAny (o : ObjectDecl) :
    Brings (fun o' => o'.IsFilledFrom R o ∧ o'.type = o.type) (putAny o name v) := by
  unfold putAny
  split
  · exact Brings.bind (brings_attributesIn hv) fun as has =>
      (brings_ok _).2 ⟨fun a ha => .inl (has a ha), rfl⟩
  · exact (brings_ok _).2 ⟨filled_put hv o, rfl⟩

theorem brings_withAttribute (className : String) (o : ObjectDecl) :
    Brings (fun o' => o'.IsFilledFrom R o ∧ o'.type = o.type)
      (withAttribute w className o name v) := by
  unfold withAttribute
  split
  · exact brings_error _
  · exact brings_error _
  · split
    · exact brings_error _
    · split
      · refine Brings.bind (brings_attributesIn hv) fun as has => (brings_ok _).2 ⟨?_, rfl⟩
        intro a ha
        rcases List.mem_append.1 ha with ha | ha
        · exact .inr ⟨a, (List.mem_filter.1 ha).1, rfl⟩
        · exact .inl (has a ha)
      · exact (brings_bind _ _).2 fun _ _ => (brings_ok _).2 ⟨filled_put hv o, rfl⟩

theorem brings_assignedObject {o : ObjectDecl} (ht : R.Holds (type o.type)) :
    Brings (fun o' => o'.IsFilledFrom R o ∧ R.Holds (type o'.type)) (assignedObject w o name v) := by
  unfold assignedObject
  split
  · split
    · split
      · next t _ =>
        refine (brings_ok _).2 ⟨fun a ha => ?_, ?_⟩
        · unfold retyped at ha
          split at ha
          · obtain ⟨b, hb, rfl⟩ := List.mem_map.1 ha
            exact .inr ⟨b, hb, rfl⟩
          · exact .inr ⟨a, ha, rfl⟩
        · unfold retyped
          split <;> exact hv
      · exact brings_error _
    · exact brings_error _
  · split
    · exact (brings_withAttribute hv _ o).mono fun o' h => ⟨h.1, h.2 ▸ ht⟩
    · exact (brings_putAny hv o).mono fun o' h => ⟨h.1, h.2 ▸ ht⟩

end Value

/-! ## Realms that scripts do not leave -/

/-- Whether a script makes no proxies and no expressions, and has literals of a certain sort only. -/
inductive Script.Tame {V : Type} (literal : V → Prop) : Script V → Prop
  | var (name : String) : Tame literal (.var name)
  | lit {v : V} (fits : literal v) : Tame literal (.lit v)
  | attr {t : Script V} (target : Tame literal t) (name : String) : Tame literal (.attr t name)
  | item {t k : Script V} (target : Tame literal t) (key : Tame literal k) :
      Tame literal (.item t k)
  | call {f : Script V} {as : List (Script V)} (function : Tame literal f)
      (args : ∀ a ∈ as, Tame literal a) : Tame literal (.call f as)
  | bin (op : ScriptOp) {l r : Script V} (left : Tame literal l) (right : Tame literal r) :
      Tame literal (.bin op l r)
  | inv {e : Script V} (inner : Tame literal e) : Tame literal (.inv e)
  | neg {e : Script V} (inner : Tame literal e) : Tame literal (.neg e)
  | fn (params : List String) (star : Option String) {body : Script V}
      (inner : Tame literal body) : Tame literal (.fn params star body)
  | list {es : List (Script V)} (elements : ∀ e ∈ es, Tame literal e) : Tame literal (.list es)
  | and {l r : Script V} (left : Tame literal l) (right : Tame literal r) :
      Tame literal (.and l r)
  | not {e : Script V} (inner : Tame literal e) : Tame literal (.not e)
  | iter {e : Script V} (inner : Tame literal e) : Tame literal (.iter e)
  | len {e : Script V} (inner : Tame literal e) : Tame literal (.len e)
  | isIn {e c : Script V} (element : Tame literal e) (container : Tame literal c) :
      Tame literal (.isIn e c)
  | setAttr {t : Script V} (target : Tame literal t) (name : String) {v : V} (fits : literal v) :
      Tame literal (.setAttr t name v)
  | shown {e : Script V} (inner : Tame literal e) : Tame literal (.shown e)

theorem Script.Tame.mono {V : Type} {p q : V → Prop} {s : Script V} (h : s.Tame p)
    (sub : ∀ v, p v → q v) : s.Tame q := by
  induction h with
  | var name => exact .var name
  | lit fits => exact .lit (sub _ fits)
  | attr _ name ih => exact .attr ih name
  | item _ _ ih ih' => exact .item ih ih'
  | call _ _ ih ihs => exact .call ih ihs
  | bin op _ _ ih ih' => exact .bin op ih ih'
  | inv _ ih => exact .inv ih
  | neg _ ih => exact .neg ih
  | fn ps star _ ih => exact .fn ps star ih
  | list _ ihs => exact .list ihs
  | and _ _ ih ih' => exact .and ih ih'
  | not _ ih => exact .not ih
  | iter _ ih => exact .iter ih
  | len _ ih => exact .len ih
  | isIn _ _ ih ih' => exact .isIn ih ih'
  | setAttr _ name fits ih => exact .setAttr ih name (sub _ fits)
  | shown _ ih => exact .shown ih

/-- Whether a script stays in a realm: it makes no proxies and no expressions, unless the realm holds
everything. -/
def Script.StaysIn (R : Realm) (s : Script Value) : Prop := s.Tame R.Holds ∨ ∀ v, R.Holds v

namespace Script.StaysIn

variable {R : Realm} {e f : Script Value} {es : List (Script Value)}

theorem lit {v : Value} (h : (Script.lit v).StaysIn R) : R.Holds v := by
  rcases h with h | all
  · cases h with
    | lit fits => exact fits
  · exact all v

theorem attr {name : String} (h : (Script.attr e name).StaysIn R) : e.StaysIn R := by
  refine h.imp_left fun h => ?_
  cases h with
  | attr target => exact target

theorem item (h : (Script.item e f).StaysIn R) : e.StaysIn R ∧ f.StaysIn R := by
  rcases h with h | all
  · cases h with
    | item target key => exact ⟨.inl target, .inl key⟩
  · exact ⟨.inr all, .inr all⟩

theorem call (h : (Script.call e es).StaysIn R) : e.StaysIn R ∧ ∀ a ∈ es, a.StaysIn R := by
  rcases h with h | all
  · cases h with
    | call function args => exact ⟨.inl function, fun a ha => .inl (args a ha)⟩
  · exact ⟨.inr all, fun _ _ => .inr all⟩

theorem bin {op : ScriptOp} (h : (Script.bin op e f).StaysIn R) : e.StaysIn R ∧ f.StaysIn R := by
  rcases h with h | all
  · cases h with
    | bin _ left right => exact ⟨.inl left, .inl right⟩
  · exact ⟨.inr all, .inr all⟩

theorem inv (h : (Script.inv e).StaysIn R) : e.StaysIn R := by
  refine h.imp_left fun h => ?_
  cases h with
  | inv inner => exact inner

theorem neg (h : (Script.neg e).StaysIn R) : e.StaysIn R := by
  refine h.imp_left fun h => ?_
  cases h with
  | neg inner => exact inner

theorem fn {params : List String} {star : Option String} (h : (Script.fn params star e).StaysIn R) :
    e.StaysIn R := by
  refine h.imp_left fun h => ?_
  cases h with
  | fn _ _ inner => exact inner

theorem list (h : (Script.list es).StaysIn R) : ∀ e ∈ es, e.StaysIn R := by
  rcases h with h | all
  · cases h with
    | list elements => exact fun e he => .inl (elements e he)
  · exact fun _ _ => .inr all

theorem and (h : (Script.and e f).StaysIn R) : e.StaysIn R ∧ f.StaysIn R := by
  rcases h with h | all
  · cases h with
    | and left right => exact ⟨.inl left, .inl right⟩
  · exact ⟨.inr all, .inr all⟩

theorem not (h : (Script.not e).StaysIn R) : e.StaysIn R := by
  refine h.imp_left fun h => ?_
  cases h with
  | not inner => exact inner

theorem iter (h : (Script.iter e).StaysIn R) : e.StaysIn R := by
  refine h.imp_left fun h => ?_
  cases h with
  | iter inner => exact inner

theorem len (h : (Script.len e).StaysIn R) : e.StaysIn R := by
  refine h.imp_left fun h => ?_
  cases h with
  | len inner => exact inner

theorem isIn (h : (Script.isIn e f).StaysIn R) : e.StaysIn R ∧ f.StaysIn R := by
  rcases h with h | all
  · cases h with
    | isIn element container => exact ⟨.inl element, .inl container⟩
  · exact ⟨.inr all, .inr all⟩

theorem setAttr {name : String} {v : Value} (h : (Script.setAttr e name v).StaysIn R) :
    e.StaysIn R ∧ R.Holds v := by
  rcases h with h | all
  · cases h with
    | setAttr target _ fits => exact ⟨.inl target, fits⟩
  · exact ⟨.inr all, all v⟩

theorem shown (h : (Script.shown e).StaysIn R) : e.StaysIn R := by
  refine h.imp_left fun h => ?_
  cases h with
  | shown inner => exact inner

/-- Where proxies or expressions are made, there is everything. -/
theorem all_of_tree {d : Draft Value} (h : (Script.tree d).StaysIn R) : ∀ v, R.Holds v :=
  h.resolve_left nofun

theorem all_of_const {v : Value} (h : (Script.const v).StaysIn R) : ∀ v, R.Holds v :=
  h.resolve_left nofun

theorem all_of_expression (h : (Script.expression e).StaysIn R) : ∀ v, R.Holds v :=
  h.resolve_left nofun

end Script.StaysIn

/-- Whether whatever is made and called stays in a realm, proxies and expressions apart. Where these
can be made, the realm holds everything. -/
structure Realm.Closed (R : Realm) : Prop where
  shown : R.hidden = []
  object (n : Nat) : R.Holds (.object (.made n))
  closure (n : Nat) : R.Holds (.closure n)
  marked {v : Value} (n : Nat) : R.Holds v → R.Holds (v.withMark n)
  supplied {v : Value} : R.Holds (.supplied v) → R.Holds v
  function {id : Nat} {params : List String} {star : Option String} {body : Script Value} {env : Env} :
    R.Holds (.function id params star body env) ↔ body.StaysIn R ∧ ∀ b ∈ env, R.Holds b.2
  proxy {u : Value} {mark : Nat} : R.Holds (.proxy u mark) → ∀ v, R.Holds v
  proxyType : R.Holds (.type (.builtin .proxy)) → ∀ v, R.Holds v
  nodeType {name : String} : R.Holds (.type (.expression name)) → ∀ v, R.Holds v

/-! ## What computations yield -/

/-- Whether a computation that starts after a trail with a property leaves one behind, ends in faults
that a realm allows, and gives results of a sort only. -/
def Realm.Yields (R : Realm) (I : Trail → Prop) (P : α → Prop) (x : Making α) : Prop :=
  ∀ t, I t → R.Calm (runOn x t).1 ∧ I (runOn x t).2 ∧ Brings P (runOn x t).1

section

variable {R : Realm} {I : Trail → Prop} {P : α → Prop} {Q : β → Prop}

theorem yields_outcome {x : Outcome α} (calm : R.Calm x) (brings : Brings P x) :
    R.Yields I P (liftM x) := by
  intro t before
  rw [runOn_outcome]
  exact ⟨calm, before, brings⟩

/-- Where nothing is asked of the result. -/
theorem yields_calm {x : Outcome α} (calm : R.Calm x) : R.Yields I (fun _ => True) (liftM x) :=
  yields_outcome calm fun _ _ => trivial

theorem yields_pure {a : α} (h : P a) : R.Yields I P (pure a) :=
  yields_outcome (calm_ok a) ((brings_ok a).2 h)

theorem yields_throw {e : Fault} (h : R.Allows e) : R.Yields I P (throw e) :=
  fun _ before => ⟨(calm_error e).2 h, before, brings_error e⟩

theorem Realm.Yields.bind {x : Making β} {f : β → Making α} (hx : R.Yields I Q x)
    (hf : ∀ b, Q b → R.Yields I P (f b)) : R.Yields I P (x >>= f) := by
  intro t before
  obtain ⟨calm, after, brings⟩ := hx t before
  rw [runOn_bind]
  split
  · next b u run =>
    rw [run] at after brings
    exact hf b (brings b rfl) u after
  · next e u run =>
    rw [run] at calm after
    exact ⟨calm_error e |>.2 (calm e rfl), after, brings_error e⟩

/-- Computations that look at the world as it is now. -/
theorem yields_now {w : World} {f : World → Making α}
    (h : ∀ t, I t → R.Yields I P (f (w.after t))) : R.Yields I P (Making.now w >>= f) :=
  fun t before => h t before t before

theorem yields_ite {c : Prop} [Decidable c] {x y : Making α} (hx : c → R.Yields I P x)
    (hy : ¬c → R.Yields I P y) : R.Yields I P (if c then x else y) := by
  split
  · next h => exact hx h
  · next h => exact hy h

theorem yields_mapM {f : β → Making α} {bs : List β} (each : ∀ b ∈ bs, R.Yields I P (f b)) :
    R.Yields I (fun as => ∀ a ∈ as, P a) (bs.mapM f) := by
  induction bs with
  | nil => exact yields_pure nofun
  | cons b bs ih =>
    rw [List.mapM_cons]
    refine (each b (by simp)).bind fun a ha => ?_
    refine (ih fun b' hb' => each b' (by simp [hb'])).bind fun as has => ?_
    exact yields_pure (List.forall_mem_cons.2 ⟨ha, has⟩)

end

/-! ## Properties that are upheld -/

/-- Whether looking up these parameters fails with faults that a realm allows, and looking up any
others gives values of the realm. -/
structure Scope.Fits (R : Realm) (s : Scope Value) (ps : List Param) : Prop where
  calm : ∀ p ∈ ps, R.Calm (s.lookup p)
  brings : ∀ p, Brings R.Holds (s.lookup p)

/-- Whether the scope of a lambda that is kept fits what the lambda leaves open. -/
structure Closure.Fits (R : Realm) (c : Closure) : Prop where
  scope : c.scope.Fits R (Expr.lambda c.params c.body).openParams
  body : c.body.HoldsOnly R.Holds

/-- A property of trails that lasts through all that is left behind, and after which a world is
covered by a realm. -/
structure Upheld (w : World) (R : Realm) (I : Trail → Prop) : Prop where
  closed : R.Closed
  covers : ∀ t, I t → R.Covers (w.after t)
  number : ∀ t, I t → I { t with supply := t.supply + 1 }
  put : ∀ t r o, I t → R.Holds (.type o.type) → (∀ a ∈ o.attributes, R.Holds a.2) → I (t.put r o)
  keep : ∀ t n (c : Closure), c.Fits R → I t → I { t with closures := (n, c) :: t.closures }
  kept : ∀ t n (c : Closure), I t → t.closures.lookup n = some c → c.Fits R

namespace Upheld

variable {w : World} {R : Realm} {I : Trail → Prop} (up : Upheld w R I)

include up

/-! ### Numbers and marks -/

theorem newNumber : R.Yields I (fun _ => True) Making.newNumber :=
  fun t before => ⟨calm_ok _, up.number t before, (brings_ok _).2 trivial⟩

theorem putObject {r : Ref} {o : ObjectDecl} (ht : R.Holds (.type o.type))
    (held : ∀ a ∈ o.attributes, R.Holds a.2) : R.Yields I (fun _ => True) (Making.put r o) :=
  fun t before => ⟨calm_ok _, up.put t r o before ht held, (brings_ok _).2 trivial⟩

theorem newObject {type : HostType} {attributes : List (String × Value)} (ht : R.Holds (.type type))
    (held : ∀ a ∈ attributes, R.Holds a.2) :
    R.Yields I R.Holds (Making.newObject type attributes) := by
  refine up.newNumber.bind fun n _ => ?_
  exact (up.putObject ht held).bind fun _ _ => yields_pure (up.closed.object n)

theorem newParam (name : String) : R.Yields I (fun _ => True) (EntityGraph.newParam name) :=
  up.newNumber.bind fun _ _ => yields_pure trivial

theorem newClosure {c : Closure} (fits : c.Fits R) :
    R.Yields I R.Holds (Making.newClosure c) := by
  refine up.newNumber.bind fun n _ => ?_
  refine Realm.Yields.bind (Q := fun _ => True) (fun t before => ?_)
    fun _ _ => yields_pure (up.closed.closure n)
  exact ⟨calm_ok _, up.keep t n c fits before, (brings_ok _).2 trivial⟩

theorem owned {v : Value} (hv : R.Holds v) : R.Yields I R.Holds v.owned :=
  yields_ite (fun _ => up.newNumber.bind fun n _ => yields_pure (up.closed.marked n hv))
    fun _ => yields_pure hv

mutual

theorem settled (v : Value) (hv : R.Holds v) : R.Yields I R.Holds v.settled := by
  cases v with
  | list vs =>
    exact (settledList vs (R.list.1 hv)).bind fun us hus => yields_pure (R.list.2 hus)
  | tuple vs =>
    exact (settledList vs (R.tuple.1 hv)).bind fun us hus => yields_pure (R.tuple.2 hus)
  | dict es =>
    exact (settledEntries es (R.dict.1 hv)).bind fun fs hfs => yields_pure (R.dict.2 hfs)
  | orderedDict es m =>
    refine (settledEntries es (R.entries hv)).bind fun fs hfs => ?_
    exact up.owned (up.closed.marked m (R.ordered hfs))
  | _ => exact up.owned hv

theorem settledList (vs : List Value) (h : ∀ v ∈ vs, R.Holds v) :
    R.Yields I (fun us => ∀ u ∈ us, R.Holds u) (Value.settledList vs) := by
  cases vs with
  | nil => exact yields_pure nofun
  | cons v vs =>
    rw [List.forall_mem_cons] at h
    refine (settled v h.1).bind fun u hu => ?_
    refine (settledList vs h.2).bind fun us hus => ?_
    exact yields_pure (List.forall_mem_cons.2 ⟨hu, hus⟩)

theorem settledEntries (es : List (Value × Value)) (h : ∀ e ∈ es, R.Holds e.1 ∧ R.Holds e.2) :
    R.Yields I (fun fs => ∀ f ∈ fs, R.Holds f.1 ∧ R.Holds f.2) (Value.settledEntries es) := by
  cases es with
  | nil => exact yields_pure nofun
  | cons e es =>
    obtain ⟨k, v⟩ := e
    rw [List.forall_mem_cons] at h
    refine (settled k h.1.1).bind fun k' hk => ?_
    refine (settled v h.1.2).bind fun v' hv => ?_
    refine (settledEntries es h.2).bind fun fs hfs => ?_
    exact yields_pure (List.forall_mem_cons.2 ⟨⟨hk, hv⟩, hfs⟩)

end

theorem own {x : Outcome Value} (calm : R.Calm x) (brings : Brings R.Holds x) :
    R.Yields I R.Holds (Value.own x) := by
  refine (yields_outcome calm brings).bind fun v hv => ?_
  exact yields_ite (fun _ => up.settled v hv) fun _ => yields_pure hv

/-! ### Instances -/

section

variable {now : World} (h : R.Covers now) {args : List Value} (hargs : ∀ a ∈ args, R.Holds a)

include h

theorem filledFields {className : String} {fields : List MemberDecl}
    (sub : fields ⊆ now.classes.fields className) {given : List (String × Value)}
    (held : ∀ g ∈ given, R.Holds g.2) :
    R.Yields I (fun fs => ∀ f ∈ fs, R.Holds f.2) (Value.filledFields fields given) := by
  refine yields_mapM fun m hm => ?_
  split
  · next found => exact yields_pure (Value.holds_lookup held found)
  · next v _ is =>
    have declared := h.defaults className m (sub hm) v is
    refine (up.own (calm_ok _) ((brings_ok _).2 ?_)).bind fun v hv => yields_pure hv
    split
    · exact Value.holds_renewed _ declared
    · exact declared
  · exact yields_throw (by simp)

theorem makeInstance (className : String) {given : List (String × Value)}
    (held : ∀ g ∈ given, R.Holds g.2) :
    R.Yields I R.Holds (Value.makeInstance now className given) := by
  have refused (text : String) : R.Allows (.wrongType text) := by simp
  have filled := (up.filledFields h (List.Subset.refl (now.classes.fields className)) held).bind
    fun fs hfs => up.newObject (R.declared className) hfs
  unfold Value.makeInstance
  dsimp only
  split
  · exact yields_ite (fun _ => yields_throw (refused _)) fun _ => filled
  · exact yields_ite (fun _ => yields_throw (refused _)) fun _ => filled
  · exact yields_ite (fun _ => yields_throw (refused _)) fun _ =>
      up.newObject (R.declared className) nofun

include hargs

theorem makeInOrder (className : String) :
    R.Yields I R.Holds (Value.makeInOrder now className args) := by
  unfold Value.makeInOrder
  dsimp only
  refine yields_ite (fun _ => ?_) fun _ => yields_throw (by simp)
  exact up.makeInstance h className fun g hg => hargs g.2 (List.of_mem_zip hg).2

theorem construct (type : HostType) : R.Yields I R.Holds (Value.construct now type args) := by
  unfold Value.construct
  split
  · next v => exact up.newObject (R.builtin nofun) (List.forall_mem_singleton.2 (hargs v (by simp)))
  · exact up.own (Value.calm_constructBuiltin h _ hargs) (Value.brings_constructBuiltin h hargs _)
  · have empty : R.Holds (.list []) := R.list.2 nofun
    exact yields_outcome (Value.calm_makeRecord h empty _) (Value.brings_makeRecord h empty _)
  · next v =>
    have hv := hargs v (by simp)
    exact yields_outcome (Value.calm_makeRecord h hv _) (Value.brings_makeRecord h hv _)
  · exact yields_throw (by simp)
  · exact up.makeInOrder h hargs _
  · exact yields_throw (by simp)

/-! ### Functions that come with the library -/

omit hargs in
theorem applyOne (p : Primitive) {v : Value} (hv : R.Holds v) :
    R.Yields I R.Holds (p.applyOne now v) := by
  have elements := Value.calm_elements (w := now) hv
  have parts := Value.brings_elements h hv
  cases p with
  | len | length =>
    exact (yields_calm (Value.calm_length now v)).bind fun n _ => yields_pure (R.holds_int n)
  | negate =>
    exact (yields_calm (Value.calm_truth hv)).bind fun b _ => yields_pure (R.holds_bool _)
  | sum =>
    refine (yields_outcome elements parts).bind fun vs hvs => ?_
    exact up.own (Primitive.calm_total h hvs (R.holds_int 0))
      (Value.brings_total h hvs (R.holds_int 0))
  | max =>
    refine (yields_outcome elements parts).bind fun vs hvs => ?_
    exact up.own (Primitive.calm_greatest h hvs) (Value.brings_greatest hvs)
  | abs => exact up.own (Primitive.calm_absolute now v) (Value.brings_absolute v)
  | parseDate => exact up.own (Primitive.calm_readDate now v) (Value.brings_readDate v)
  | parseTimestamp =>
    exact up.own (Primitive.calm_readTimestamp now v) (Value.brings_readTimestamp v)
  | parseUuid => exact up.own (Primitive.calm_readUuid hv) (Value.brings_readUuid v)
  | narrowInt => exact up.own (Primitive.calm_narrowed h hv) (Value.brings_narrowed h hv)
  | narrowFloat => exact up.own (Primitive.calm_rounded v) (Value.brings_rounded v)
  | reverse | reverseStr | reverseQuoted =>
    exact up.own (Primitive.calm_reversed h hv) (Value.brings_reversed h hv)
  | double =>
    exact up.own (Value.calm_operate h .mul hv (R.holds_int 2))
      (Value.brings_operate h .mul hv (R.holds_int 2))
  | toDateOrdinal => exact up.own (Primitive.calm_dateOfOrdinal now v) (Value.brings_dateOfOrdinal v)
  | toCelsius => exact up.newObject (R.builtin nofun) (List.forall_mem_singleton.2 hv)
  | listify => exact yields_pure (R.list.2 (List.forall_mem_singleton.2 hv))
  | fail => exact yields_throw (by simp)

theorem primitive (p : Primitive) : R.Yields I R.Holds (p.apply now args) := by
  unfold Primitive.apply
  split
  · next v => exact up.applyOne h p (hargs v (by simp))
  · next v start =>
    have hv := hargs v (by simp)
    refine (yields_outcome (Value.calm_elements hv) (Value.brings_elements h hv)).bind
      fun vs hvs => ?_
    have hs := hargs start (by simp)
    exact up.own (Primitive.calm_total h hvs hs) (Value.brings_total h hvs hs)
  · exact up.own (Primitive.calm_greatest h hargs) (Value.brings_greatest hargs)
  · refine yields_throw (R.ordinary ?_)
    unfold Primitive.wrongCount
    grind

end

/-! ### Assignments -/

theorem assign {target v : Value} (ht : R.Holds target) (name : String) (hv : R.Holds v) :
    R.Yields I (fun _ => True) (target.assign w name v) := by
  refine yields_now fun t before => ?_
  have h := up.covers t before
  have filled {o old : ObjectDecl} (from_ : o.IsFilledFrom R old)
      (held : ∀ a ∈ old.attributes, R.Holds a.2) : ∀ a ∈ o.attributes, R.Holds a.2 := by
    intro a ha
    rcases from_ a ha with new | ⟨a', ha', same⟩
    · exact new
    · exact same ▸ held a' ha'
  split
  · exact yields_throw (R.ordinary (.told rfl))
  · next r =>
    refine (yields_outcome (Value.calm_assignedObject _ _ _ _)
      (Value.brings_assignedObject hv (h.objectType r))).bind fun o ho => ?_
    exact up.putObject ho.2 (filled ho.1 (h.attributes _ r ht rfl))
  · refine (yields_calm (Value.calm_ensureTakes _ _ _ _)).bind fun _ _ => ?_
    refine (yields_outcome (Value.calm_putAny _ _ _) (Value.brings_putAny hv _)).bind fun o ho => ?_
    cases ref : target.ref? (w.after t) with
    | none => exact yields_pure trivial
    | some r =>
      rw [ref] at ho
      exact up.putObject (ho.2 ▸ h.objectType r) (filled ho.1 (h.attributes _ r ht ref))

end Upheld

/-! ## The realm of all values -/

namespace Realm

/-- All values, with a sort of faults that includes all but those of parameters without a value. -/
def everything (E : Fault → Prop) (bound : ∀ e, e.IsBound → E e) : Realm where
  Holds _ := True
  Allows := E
  hidden := []
  atom _ := trivial
  list := by simp
  tuple := by simp
  set := by simp
  dict := by simp
  entries _ _ _ := ⟨trivial, trivial⟩
  ordered _ := trivial
  record := by simp
  builtin _ := trivial
  declared _ := trivial
  recordType _ := trivial
  generic := by simp
  foreign := Iff.rfl
  method := by simp
  ordinary h := bound _ h.bound
  proxies _ := ⟨trivial, bound _ nofun, bound _ nofun⟩
  all _ _ _ := trivial

section

variable {E : Fault → Prop} {bound : ∀ e, e.IsBound → E e}

theorem covers_everything (w : World) : (everything E bound).Covers w where
  attributes _ _ _ _ _ _ := trivial
  assigned _ _ _ _ _ _ _ := trivial
  objectType _ := trivial
  offers _ _ a _ := by cases a <;> simp [Classes.Attribute.Offers, everything]
  methods _ _ _ _ := ⟨fun _ _ => trivial, fun _ _ => List.not_mem_nil⟩
  defaults _ _ _ _ _ := trivial
  ancestry _ _ _ _ := trivial
  records := ⟨fun _ _ _ _ _ _ _ _ => trivial, fun _ _ _ _ _ _ _ _ => trivial,
    fun _ _ _ _ _ _ => trivial, fun _ _ _ _ _ _ _ => trivial, fun _ _ _ _ _ _ _ => trivial,
    fun _ _ _ _ _ _ _ _ _ => trivial⟩

theorem closed_everything : (everything E bound).Closed where
  shown := rfl
  object _ := trivial
  closure _ := trivial
  marked _ _ := trivial
  supplied _ := trivial
  function := ⟨fun _ => ⟨.inr fun _ => trivial, fun _ _ => trivial⟩, fun _ => trivial⟩
  proxy _ _ := trivial
  proxyType _ _ := trivial
  nodeType _ _ := trivial

end

end Realm

end EntityGraph
