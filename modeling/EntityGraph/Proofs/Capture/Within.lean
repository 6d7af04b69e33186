import EntityGraph.Proofs.Expr.Open
import EntityGraph.Proofs.Realm.Basic

/-!
# Values while a function is captured

A function is captured by running it on proxies, and what it can reach decides what the recorded
expression mentions. This module says which values may be at hand at a stage of capturing: no
expression, proxies of well-scoped expressions only, and nothing that gives away the expressions of
others. A value that is within a stage stays within it while capturing goes on: numbers are used up,
objects are made, literals are assigned to attributes, and a lambda inside makes its parameter known.

Objects are references, so that an object is within a stage if what the memory of the stage has for
it is. Those from before are not looked into again: their attributes are within every stage.
-/

namespace EntityGraph

/-- Whether something was made with this number or a later one. -/
def Ref.IsFrom (number : Nat) : Ref → Prop
  | .made n => number ≤ n
  | _ => False

/-- Whether a class is not one of expressions. -/
def HostType.IsPlain : HostType → Prop
  | .expression _ => False
  | _ => True

/-- The names under which a proxy gives away the expression that it recorded. -/
def treeNames : List String := ["_expression", "__getattribute__"]

/-- Whether a script reaches for no expression, and has literals of a certain sort only. -/
inductive Script.Plain {V : Type} (literal : V → Prop) : Script V → Prop
  | var (name : String) : Plain literal (.var name)
  | lit {v : V} (fits : literal v) : Plain literal (.lit v)
  | const (v : V) : Plain literal (.const v)
  | attr {t : Script V} (target : Plain literal t) {name : String} (plain : name ∉ treeNames) :
      Plain literal (.attr t name)
  | item {t k : Script V} (target : Plain literal t) (key : Plain literal k) :
      Plain literal (.item t k)
  | call {f : Script V} {as : List (Script V)} (function : Plain literal f)
      (args : ∀ a ∈ as, Plain literal a) : Plain literal (.call f as)
  | bin (op : ScriptOp) {l r : Script V} (left : Plain literal l) (right : Plain literal r) :
      Plain literal (.bin op l r)
  | inv {e : Script V} (inner : Plain literal e) : Plain literal (.inv e)
  | neg {e : Script V} (inner : Plain literal e) : Plain literal (.neg e)
  | fn (params : List String) (star : Option String) {body : Script V}
      (inner : Plain literal body) : Plain literal (.fn params star body)
  | list {es : List (Script V)} (elements : ∀ e ∈ es, Plain literal e) : Plain literal (.list es)
  | and {l r : Script V} (left : Plain literal l) (right : Plain literal r) :
      Plain literal (.and l r)
  | not {e : Script V} (inner : Plain literal e) : Plain literal (.not e)
  | iter {e : Script V} (inner : Plain literal e) : Plain literal (.iter e)
  | len {e : Script V} (inner : Plain literal e) : Plain literal (.len e)
  | isIn {e c : Script V} (element : Plain literal e) (container : Plain literal c) :
      Plain literal (.isIn e c)
  | setAttr {t : Script V} (target : Plain literal t) (name : String) {v : V} (fits : literal v) :
      Plain literal (.setAttr t name v)
  | shown {e : Script V} (inner : Plain literal e) : Plain literal (.shown e)

theorem Script.Plain.mono {V : Type} {p q : V → Prop} {s : Script V} (h : s.Plain p)
    (sub : ∀ v, p v → q v) : s.Plain q := by
  induction h with
  | var name => exact .var name
  | lit fits => exact .lit (sub _ fits)
  | const v => exact .const v
  | attr _ plain ih => exact .attr ih plain
  | item _ _ ih ih' => exact .item ih ih'
  | call _ _ ih ihs => exact .call ih ihs
  | bin op _ _ ih ih' => exact .bin op ih ih'
  | inv _ ih => exact .inv ih
  | neg _ ih => exact .neg ih
  | fn ps star _ ih => exact .fn ps star ih
  | list _ ihs => exact .list ihs
  | and _ _ ih ih' => exact .and ih ih'
  | not _ ih => exact .not ih
  | iter _ ih => exact .iter ih
  | len _ ih => exact .len ih
  | isIn _ _ ih ih' => exact .isIn ih ih'
  | setAttr _ name fits ih => exact .setAttr ih name (sub _ fits)
  | shown _ ih => exact .shown ih

/-! ## Stages -/

/-- A stage of capturing. -/
structure Stage where
  /-- The first number that was free when capturing began. -/
  base : Nat
  positive : 0 < base
  /-- The first number that is free. -/
  top : Nat
  memory : Memory
  /-- The parameters of the lambdas that are captured at the moment. -/
  known : List Param
  /-- What is asked of the lambdas of recorded expressions. -/
  asked : Expr.Asked Value
  stays : ∀ {l l' ps b}, l ⊆ l' → asked l ps b → asked l' ps b

namespace Stage

/-- What lambdas are like at a stage: their parameters are made already. -/
def lambdas (c : Stage) : Expr.Asked Value :=
  fun known ps b => (∀ p ∈ ps, p.id < c.top) ∧ c.asked known ps b

/-- The stage at which nothing is made yet and no parameter is known. -/
def bare (c : Stage) : Stage := { c with top := 0, memory := [], known := [] }

/-- Whether a reference is to something that is there at a stage, other than an expression. -/
structure Has (c : Stage) (r : Ref) : Prop where
  made : r.IsFrom c.base → ¬ r.IsFrom c.top
  other : ∀ p, r ≠ .expression p

end Stage

/-- Whether an expression is well scoped at a stage. -/
def Expr.Within (c : Stage) (e : Expr Value) : Prop := e.Scoped c.lambdas c.known

/-- Whether nothing was assigned to an expression since capturing began. -/
def Position.IsIntact (c : Stage) (p : Position) : Prop := p.root = 0 ∨ c.base ≤ p.root

namespace Value

/-- Whether a value may be at hand at a stage of capturing. Expressions may not, nor may what has
expressions of its own: the values of lambdas and the descriptions of a schema. -/
inductive Within : Stage → Value → Prop
  | atom {c : Stage} {v : Value} (h : v.isAtom = true) : Within c v
  | list {c : Stage} {vs : List Value} (elements : ∀ v ∈ vs, Within c v) : Within c (.list vs)
  | tuple {c : Stage} {vs : List Value} (elements : ∀ v ∈ vs, Within c v) : Within c (.tuple vs)
  | set {c : Stage} {vs : List Value} (elements : ∀ v ∈ vs, Within c v) : Within c (.set vs)
  | dict {c : Stage} {es : List (Value × Value)} (keys : ∀ e ∈ es, Within c e.1)
      (values : ∀ e ∈ es, Within c e.2) : Within c (.dict es)
  | orderedDict {c : Stage} {es : List (Value × Value)} {mark : Nat}
      (keys : ∀ e ∈ es, Within c e.1) (values : ∀ e ∈ es, Within c e.2)
      (has : c.Has (.made mark)) (held : (Ref.made mark).IsFrom c.base → ∀ o,
        c.memory.lookup (.made mark) = some o → ∀ a ∈ o.attributes, Within c a.2) :
      Within c (.orderedDict es mark)
  | record {c : Stage} {name : String} {fs : List (String × Value)}
      (fields : ∀ f ∈ fs, Within c f.2) : Within c (.record name fs)
  | object {c : Stage} {r : Ref} (has : c.Has r) (held : r.IsFrom c.base → ∀ o,
        c.memory.lookup r = some o → ∀ a ∈ o.attributes, Within c a.2) : Within c (.object r)
  | type {c : Stage} {t : HostType} (plain : t.IsPlain) : Within c (.type t)
  | generic {c : Stage} {t : HostType} {vs : List Value} (plain : t.IsPlain)
      (params : ∀ v ∈ vs, Within c v) : Within c (.generic t vs)
  | foreign {c : Stage} {t : HostType} {mark : Nat} (plain : t.IsPlain) :
      Within c (.foreign t mark)
  | method {c : Stage} {v : Value} {name : String} (receiver : Within c v)
      (plain : name ∉ treeNames) : Within c (.method v name)
  | supplied {c : Stage} {v : Value} (function : Within c v) : Within c (.supplied v)
  | function {c : Stage} {id : Nat} {params : List String} {star : Option String}
      {body : Script Value} {env : List (String × Value)} {literal : Value → Prop}
      (plain : body.Plain literal) (literals : ∀ v, literal v → Within c.bare v)
      (around : ∀ b ∈ env, Within c b.2) (has : c.Has (.made id))
      (held : (Ref.made id).IsFrom c.base → ∀ o, c.memory.lookup (.made id) = some o →
        ∀ a ∈ o.attributes, Within c a.2) : Within c (.function id params star body env)
  | recorded {c : Stage} {e : Expr Value} {p : Position} {mark : Nat} (tree : e.Within c)
      (intact : p.IsIntact c) : Within c (.proxy (.expr e p) mark)
  | proxy {c : Stage} {v : Value} {mark : Nat} (other : Within c v) : Within c (.proxy v mark)

end Value

/-- Whether what the memory of a stage has for a reference is within the stage. -/
def Stage.Holds (c : Stage) (r : Ref) : Prop :=
  r.IsFrom c.base → ∀ o, c.memory.lookup r = some o → ∀ a ∈ o.attributes, a.2.Within c

/-- Whether a value may stand inside an expression at a stage: it may be at hand, or is a well-scoped
expression. -/
def Value.IsOperand (c : Stage) (v : Value) : Prop :=
  v.Within c ∨ ∃ e p, v = .expr e p ∧ e.Within c ∧ p.IsIntact c

namespace Value

variable {c d : Stage}

/-! ## What is within a stage, by constructors -/

@[simp, grind =] theorem within_list {vs : List Value} :
    (list vs).Within c ↔ ∀ v ∈ vs, v.Within c := by
  refine ⟨fun h => ?_, .list⟩
  cases h with
  | atom h => cases h
  | list elements => exact elements

@[simp, grind =] theorem within_tuple {vs : List Value} :
    (tuple vs).Within c ↔ ∀ v ∈ vs, v.Within c := by
  refine ⟨fun h => ?_, .tuple⟩
  cases h with
  | atom h => cases h
  | tuple elements => exact elements

@[simp, grind =] theorem within_set {vs : List Value} :
    (set vs).Within c ↔ ∀ v ∈ vs, v.Within c := by
  refine ⟨fun h => ?_, .set⟩
  cases h with
  | atom h => cases h
  | set elements => exact elements

@[simp, grind =] theorem within_dict {es : List (Value × Value)} :
    (dict es).Within c ↔ ∀ e ∈ es, e.1.Within c ∧ e.2.Within c := by
  refine ⟨fun h => ?_, fun h => .dict (fun e he => (h e he).1) fun e he => (h e he).2⟩
  cases h with
  | atom h => cases h
  | dict keys values => exact fun e he => ⟨keys e he, values e he⟩

@[simp, grind =] theorem within_orderedDict {es : List (Value × Value)} {mark : Nat} :
    (orderedDict es mark).Within c
      ↔ (∀ e ∈ es, e.1.Within c ∧ e.2.Within c) ∧ c.Has (.made mark) ∧ c.Holds (.made mark) := by
  refine ⟨fun h => ?_, fun ⟨h, has, held⟩ =>
    .orderedDict (fun e he => (h e he).1) (fun e he => (h e he).2) has held⟩
  cases h with
  | atom h => cases h
  | orderedDict keys values has held => exact ⟨fun e he => ⟨keys e he, values e he⟩, has, held⟩

@[simp, grind =] theorem within_record {name : String} {fs : List (String × Value)} :
    (record name fs).Within c ↔ ∀ f ∈ fs, f.2.Within c := by
  refine ⟨fun h => ?_, .record⟩
  cases h with
  | atom h => cases h
  | record fields => exact fields

@[simp, grind =] theorem within_object {r : Ref} :
    (object r).Within c ↔ c.Has r ∧ c.Holds r := by
  refine ⟨fun h => ?_, fun h => .object h.1 h.2⟩
  cases h with
  | atom h => cases h
  | object has held => exact ⟨has, held⟩

@[simp, grind =] theorem within_type {t : HostType} : (type t).Within c ↔ t.IsPlain := by
  refine ⟨fun h => ?_, .type⟩
  cases h with
  | atom h => cases h
  | type plain => exact plain

@[simp, grind =] theorem within_generic {t : HostType} {vs : List Value} :
    (generic t vs).Within c ↔ t.IsPlain ∧ ∀ v ∈ vs, v.Within c := by
  refine ⟨fun h => ?_, fun h => .generic h.1 h.2⟩
  cases h with
  | atom h => cases h
  | generic plain params => exact ⟨plain, params⟩

@[simp, grind =] theorem within_foreign {t : HostType} {mark : Nat} :
    (foreign t mark).Within c ↔ t.IsPlain := by
  refine ⟨fun h => ?_, .foreign⟩
  cases h with
  | atom h => cases h
  | foreign plain => exact plain

@[simp, grind =] theorem within_method {v : Value} {name : String} :
    (method v name).Within c ↔ v.Within c ∧ name ∉ treeNames := by
  refine ⟨fun h => ?_, fun h => .method h.1 h.2⟩
  cases h with
  | atom h => cases h
  | method receiver plain => exact ⟨receiver, plain⟩

@[simp, grind =] theorem within_supplied {v : Value} : (supplied v).Within c ↔ v.Within c := by
  refine ⟨fun h => ?_, .supplied⟩
  cases h with
  | atom h => cases h
  | supplied function => exact function

theorem within_function {id : Nat} {params : List String} {star : Option String}
    {body : Script Value} {env : List (String × Value)} :
    (function id params star body env).Within c
      ↔ body.Plain (·.Within c.bare) ∧ (∀ b ∈ env, b.2.Within c)
        ∧ c.Has (.made id) ∧ c.Holds (.made id) := by
  refine ⟨fun h => ?_, fun ⟨plain, around, has, held⟩ =>
    .function plain (fun _ h => h) around has held⟩
  cases h with
  | atom h => cases h
  | function plain literals around has held =>
    exact ⟨plain.mono literals, around, has, held⟩

@[simp, grind .] theorem not_within_expr {e : Expr Value} {p : Position} :
    ¬ (expr e p).Within c := by
  intro h
  cases h with
  | atom h => cases h

@[simp, grind .] theorem not_within_closure {n : Nat} : ¬ (closure n).Within c := by
  intro h
  cases h with
  | atom h => cases h

@[simp, grind .] theorem not_within_typeRef {t : TypeRef} : ¬ (typeRef t).Within c := by
  intro h
  cases h with
  | atom h => cases h

@[simp, grind .] theorem not_within_fieldRef {t i : Nat} : ¬ (fieldRef t i).Within c := by
  intro h
  cases h with
  | atom h => cases h

@[simp, grind .] theorem not_within_schema : ¬ schema.Within c := by
  intro h
  cases h with
  | atom h => cases h

@[simp, grind =] theorem within_proxy {u : Value} {mark : Nat} :
    (proxy u mark).Within c ↔ u.IsOperand c := by
  constructor
  · intro h
    cases h with
    | atom h => cases h
    | recorded tree intact => exact .inr ⟨_, _, rfl, tree, intact⟩
    | proxy other => exact .inl other
  · rintro (h | ⟨e, p, rfl, tree, intact⟩)
    · exact .proxy h
    · exact .recorded tree intact

section

variable (c)

@[simp, grind .] theorem within_none : none.Within c := .atom rfl

@[simp, grind .] theorem within_bool (b : Bool) : (bool b).Within c := .atom rfl

@[simp, grind .] theorem within_int (n : Int) : (int n).Within c := .atom rfl

@[simp, grind .] theorem within_str (s : String) : (str s).Within c := .atom rfl

end

end Value

/-! ## Going on -/

namespace Stage

/-- Whether one stage has more than another: more numbers are used up and more parameters are known,
none of which was made before, and the objects that are there hold what they held, or else new values
of a certain sort. -/
structure LeadsTo (new : Value → Prop) (c d : Stage) : Prop where
  base : d.base = c.base
  asked : d.asked = c.asked
  top : c.top ≤ d.top
  known : c.known ⊆ d.known
  late : ∀ p ∈ d.known, p ∉ c.known → c.top ≤ p.id
  held : ∀ r, r.IsFrom c.base → c.Has r → ∀ o, d.memory.lookup r = some o → ∀ a ∈ o.attributes,
    new a.2 ∨ ∃ o', c.memory.lookup r = some o' ∧ ∃ a' ∈ o'.attributes, a'.2 = a.2

/-- Whether capturing can get from one stage to another: only literals are assigned on the way. -/
abbrev Extends (c d : Stage) : Prop := c.LeadsTo (·.Within c.bare) d

variable {c d e : Stage} {new : Value → Prop}

theorem LeadsTo.bare (h : c.LeadsTo new d) : d.bare = c.bare := by
  unfold Stage.bare
  simp only [h.base, h.asked]

theorem Has.mono {r : Ref} (has : c.Has r) (h : c.LeadsTo new d) : d.Has r := by
  refine ⟨fun since later => has.made (h.base ▸ since) ?_, has.other⟩
  cases r with
  | made n => exact Nat.le_trans h.top later
  | _ => cases later

theorem LeadsTo.holds {r : Ref} (h : c.LeadsTo new d) (all : ∀ v, new v → v.Within d) (has : c.Has r)
    (before : r.IsFrom c.base → ∀ o, c.memory.lookup r = some o → ∀ a ∈ o.attributes,
      a.2.Within d) : d.Holds r := by
  intro since o found a ha
  rw [h.base] at since
  rcases h.held r since has o found a ha with now | ⟨o', was, a', ha', same⟩
  · exact all _ now
  · exact same ▸ before since o' was a' ha'

end Stage

theorem Expr.Within.mono {c d : Stage} {e : Expr Value} {new : Value → Prop} (h : e.Within c)
    (leads : c.LeadsTo new d) : e.Within d := by
  refine Expr.Scoped.mono h leads.known (fun l l' ps b more fits => ?_) fun l ps b fits p hp mem => ?_
  · refine ⟨fun p hp => Nat.lt_of_lt_of_le (fits.1 p hp) leads.top, ?_⟩
    rw [leads.asked]
    exact c.stays more fits.2
  · refine Decidable.byContradiction fun other => ?_
    exact absurd (fits.1 p hp) (Nat.not_lt.2 (leads.late p mem other))

theorem Position.IsIntact.mono {c d : Stage} {p : Position} {new : Value → Prop}
    (h : p.IsIntact c) (leads : c.LeadsTo new d) : p.IsIntact d := by
  unfold IsIntact
  rw [leads.base]
  exact h

theorem Value.Within.mono_of {c d : Stage} {v : Value} {new : Value → Prop} (h : v.Within c)
    (leads : c.LeadsTo new d) (all : ∀ v, new v → v.Within d) : v.Within d := by
  induction h with
  | atom h => exact .atom h
  | list _ ihs => exact .list fun v hv => ihs v hv leads
  | tuple _ ihs => exact .tuple fun v hv => ihs v hv leads
  | set _ ihs => exact .set fun v hv => ihs v hv leads
  | dict _ _ ihk ihv => exact .dict (fun e he => ihk e he leads) fun e he => ihv e he leads
  | orderedDict _ _ has _ ihk ihv ihh =>
    exact .orderedDict (fun e he => ihk e he leads) (fun e he => ihv e he leads) (has.mono leads)
      (leads.holds all has fun since o found a ha => ihh since o found a ha leads)
  | record _ ihs => exact .record fun f hf => ihs f hf leads
  | object has _ ihh =>
    exact .object (has.mono leads)
      (leads.holds all has fun since o found a ha => ihh since o found a ha leads)
  | type plain => exact .type plain
  | generic plain _ ihs => exact .generic plain fun v hv => ihs v hv leads
  | foreign plain => exact .foreign plain
  | method _ plain ih => exact .method (ih leads) plain
  | supplied _ ih => exact .supplied (ih leads)
  | function plain literals _ has _ _ ihs ihh =>
    exact .function plain (fun v hv => leads.bare ▸ literals v hv) (fun b hb => ihs b hb leads)
      (has.mono leads)
      (leads.holds all has fun since o found a ha => ihh since o found a ha leads)
  | recorded tree intact => exact .recorded (tree.mono leads) (intact.mono leads)
  | proxy _ ih => exact .proxy (ih leads)

/-- What is within the stage at which nothing is made is within every stage. -/
theorem Value.Within.of_bare {c d : Stage} {v : Value} (h : v.Within c.bare) (same : d.bare = c.bare) :
    v.Within d := by
  have base : d.bare.base = c.bare.base := congrArg Stage.base same
  have asked : d.bare.asked = c.bare.asked := congrArg Stage.asked same
  have leads : c.bare.LeadsTo (fun _ => False) d :=
    ⟨base, asked, Nat.zero_le _, fun _ hp => (List.not_mem_nil hp).elim,
      fun _ _ _ => Nat.zero_le _, fun r since has => by
        cases r with
        | made n => exact absurd (Nat.zero_le n) (has.made since)
        | _ => cases since⟩
  exact h.mono_of leads fun _ h => h.elim

theorem Value.Within.mono {c d : Stage} {v : Value} (h : v.Within c) (more : c.Extends d) :
    v.Within d :=
  h.mono_of more fun _ hv => hv.of_bare more.bare

namespace Stage

variable {c d e : Stage}

theorem extends_refl (c : Stage) : c.Extends c :=
  ⟨rfl, rfl, Nat.le_refl _, fun _ h => h, fun _ h h' => absurd h h',
    fun _ _ _ o found a ha => .inr ⟨o, found, a, ha, rfl⟩⟩

theorem LeadsTo.trans (h : c.Extends d) (h' : d.Extends e) : c.Extends e where
  base := h'.base.trans h.base
  asked := h'.asked.trans h.asked
  top := Nat.le_trans h.top h'.top
  known := fun _ hp => h'.known (h.known hp)
  late := by
    intro p hp other
    by_cases between : p ∈ d.known
    · exact h.late p between other
    · exact Nat.le_trans h.top (h'.late p hp between)
  held := by
    intro r since has o found a ha
    rcases h'.held r (h.base ▸ since) (has.mono h) o found a ha with new | ⟨o', was, a', ha', same⟩
    · exact .inl (h.bare ▸ new)
    · rw [← same]
      exact h.held r since has o' was a' ha'

end Stage

end EntityGraph
