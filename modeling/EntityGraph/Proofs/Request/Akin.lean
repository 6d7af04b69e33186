import EntityGraph.Proofs.Eval.Steady
import EntityGraph.Proofs.Request.Entries
import EntityGraph.Proofs.Request.Visited
import EntityGraph.Proofs.Schema.Frozen

/-!
# What cannot be told apart

An application that is sent one request twice may give other objects the second time, which nobody
can tell from those it gave at first. Which values these are is left to the application: it may go by
equality, or regard objects as the same thing wherever they were made. It also says what may become
of the memory while requests run, so that what cannot be told apart stays so.

What a request gives is made of such values: they stand by themselves or in records, under the same
names and in the same order.
-/

namespace EntityGraph

open Remembering (memory)

/-- Worlds of which the second may come of the first while requests run: its memory is one that may
come of the other, and all else that computations read is the same. -/
structure World.Becomes (later : Memory → Memory → Prop) (w u : World) : Prop where
  schema : SameSchema w u
  classes : u.classes = w.classes
  objects : u.objects = w.objects
  memory : later w.memory u.memory

/-- What may become of the memory of a world while requests run, and which values of a type, or
sequences of such values, cannot be told apart, each where it is. -/
structure Likeness (w : World) where
  later : Memory → Memory → Prop
  alike : HostType → Bool → Value → Memory → Value → Memory → Prop
  preorder : IsPreorder Memory later
  lasting : ∀ host isList, Lasting later (alike host isList)
  missing : ∀ {host isList v m v' m'}, alike host isList v m v' m' → v.isNone = v'.isNone
  elements : ∀ {host v v' u u'}, w.Becomes later u → w.Becomes later u' →
    alike host true v u.memory v' u'.memory → v.isNone = false →
      Matches (List.Forall₂ fun x x' => alike host false x u.memory x' u'.memory)
        (Value.elements u v) (Value.elements u' v')
  list : ∀ {host vs vs' m m'}, List.Forall₂ (fun x x' => alike host false x m x' m') vs vs' →
    alike host true (.list vs) m (.list vs') m'

attribute [instance] Likeness.preorder

namespace World.Becomes

variable {w u : World} {later : Memory → Memory → Prop}

theorem typeOf (h : w.Becomes later u) (host : HostType) :
    u.schema.typeOf host = w.schema.typeOf host := by
  obtain ⟨n, hosts, same⟩ := h.schema
  rw [same]
  exact Schema.typeOf_congr rfl rfl host

theorem types (h : w.Becomes later u) : u.schema.types = w.schema.types := by
  obtain ⟨n, hosts, same⟩ := h.schema
  rw [same]

theorem context (h : w.Becomes later u) : u.schema.context = w.schema.context := by
  obtain ⟨n, hosts, same⟩ := h.schema
  rw [same]

theorem query (h : w.Becomes later u) (name : String) : u.query name = w.query name := by
  obtain ⟨n, hosts, same⟩ := h.schema
  unfold World.query
  rw [same]
  rfl

theorem completed (h : w.Becomes later u) : u.schema.completed = w.schema.completed :=
  h.schema.completed

/-- What becomes of a world when something is left behind. -/
theorem after (h : w.Becomes later u) [IsTrans Memory later] {t : Trail}
    (ht : later u.memory t.memory) : w.Becomes later (u.after t) :=
  ⟨h.schema, h.classes, h.objects, IsTrans.trans _ _ _ h.memory ht⟩

end World.Becomes

/-! ## Entries under the same names -/

/-- Entries under the same names, in the same order, with values that are related. -/
abbrev Paired {α : Type} (P : String → α → α → Prop) : List (String × α) → List (String × α) → Prop :=
  List.Forall₂ fun e e' => e.1 = e'.1 ∧ P e.1 e.2 e'.2

namespace Paired

variable {α : Type} {P : String → α → α → Prop} {es es' : List (String × α)}

theorem lookup (h : Paired P es es') (name : String) :
    (es.lookup name = none ∧ es'.lookup name = none)
      ∨ ∃ v v', es.lookup name = some v ∧ es'.lookup name = some v' ∧ P name v v' := by
  induction h with
  | nil => exact .inl ⟨rfl, rfl⟩
  | @cons e e' es es' first _ ih =>
    obtain ⟨n, v⟩ := e
    obtain ⟨n', v'⟩ := e'
    obtain ⟨rfl, related⟩ := first
    simp only [List.lookup_cons]
    by_cases same : name = n
    · subst same
      simpa using related
    · have other : (name == n) = false := by simpa using same
      rw [other]
      exact ih

theorem any (h : Paired P es es') (p : String → Bool) :
    (es.any fun e => p e.1) = es'.any fun e => p e.1 := by
  induction h with
  | nil => rfl
  | cons first _ ih => rw [List.any_cons, List.any_cons, first.1, ih]

theorem filter (h : Paired P es es') (p : String → Bool) :
    Paired P (es.filter fun e => p e.1) (es'.filter fun e => p e.1) := by
  induction h with
  | nil => exact .nil
  | @cons e e' es es' first _ ih =>
    simp only [List.filter_cons, ← first.1]
    split
    · exact .cons first ih
    · exact ih

theorem putNamed (h : Paired P es es') {name : String} {v v' : α} (value : P name v v') :
    Paired P (Document.putNamed es name v) (Document.putNamed es' name v') := by
  unfold Document.putNamed
  rw [h.any (· == name)]
  split
  · unfold Paired
    rw [List.forall₂_map_left_iff, List.forall₂_map_right_iff]
    refine h.imp fun e e' first => ?_
    obtain ⟨same, related⟩ := first
    rw [← same]
    split
    · exact ⟨rfl, value⟩
    · exact ⟨same, related⟩
  · exact List.rel_append h (.cons ⟨rfl, value⟩ .nil)

theorem reorder {P : String → Value → Value → Prop} {es es' : List (String × Value)}
    (h : Paired P es es') (names : List String) :
    Paired P (Materialize.reorder names es) (Materialize.reorder names es') := by
  unfold Materialize.reorder
  refine List.rel_append (h.filter fun n => !(List.contains _ n)) ?_
  generalize names.foldl (fun ns n => if ns.contains n then ns else ns ++ [n]) [] = distinct
  induction distinct with
  | nil => exact .nil
  | cons n distinct ih =>
    simp only [List.filterMap_cons]
    obtain ⟨none, none'⟩ | ⟨v, v', found, found', related⟩ := h.lookup n
    · rw [none, none']
      exact ih
    · rw [found, found']
      exact .cons ⟨rfl, related⟩ ih

end Paired

/-! ## What requests give -/

/-- Whether the values of a field become records. -/
def FieldDecl.isProjected (w : World) (f : FieldDecl) : Bool :=
  !f.isPost && !(w.schema.typeOf f.host).isScalar

mutual

/-- Values that cannot be told apart, or records of a type with entries that cannot. -/
inductive Akin {w : World} (L : Likeness w) (m m' : Memory) :
    Bool → HostType → Bool → Value → Value → Prop
  | plain {host : HostType} {isList : Bool} {v v' : Value} (alike : L.alike host isList v m v' m') :
      Akin L m m' false host isList v v'
  | missing {host : HostType} {isList : Bool} : Akin L m m' true host isList .none .none
  | record {host : HostType} {name : String} {es es' : List (String × Value)}
      (entries : AkinEntries L m m' (w.schema.typeOf host) es es') :
      Akin L m m' true host false (.record name es) (.record name es')
  | records {host : HostType} {us us' : List Value} (each : AkinEach L m m' host us us') :
      Akin L m m' true host true (.list us) (.list us')

/-- Records of a type, one by one. -/
inductive AkinEach {w : World} (L : Likeness w) (m m' : Memory) :
    HostType → List Value → List Value → Prop
  | nil {host : HostType} : AkinEach L m m' host [] []
  | cons {host : HostType} {u u' : Value} {us us' : List Value}
      (first : Akin L m m' true host false u u') (others : AkinEach L m m' host us us') :
      AkinEach L m m' host (u :: us) (u' :: us')

/-- Entries for fields of a type, with values that cannot be told apart. -/
inductive AkinEntries {w : World} (L : Likeness w) (m m' : Memory) :
    TypeDecl → List (String × Value) → List (String × Value) → Prop
  | nil {t : TypeDecl} : AkinEntries L m m' t [] []
  | cons {t : TypeDecl} {f : FieldDecl} {name : String} {u u' : Value}
      {es es' : List (String × Value)} (found : t.findField? name = some f)
      (value : Akin L m m' (f.isProjected w) f.host f.isList u u')
      (others : AkinEntries L m m' t es es') :
      AkinEntries L m m' t ((name, u) :: es) ((name, u') :: es')

end

/-- Values of the field with a name that cannot be told apart. -/
def AkinField {w : World} (L : Likeness w) (m m' : Memory) (t : TypeDecl) (name : String)
    (u u' : Value) : Prop :=
  ∃ f, t.findField? name = some f ∧ Akin L m m' (f.isProjected w) f.host f.isList u u'

section

variable {w : World} {L : Likeness w} {m m' : Memory}

theorem akinEach_iff {host : HostType} {us us' : List Value} :
    AkinEach L m m' host us us' ↔ List.Forall₂ (Akin L m m' true host false) us us' := by
  constructor
  · intro h
    induction us generalizing us' with
    | nil =>
      cases h
      exact .nil
    | cons u us ih =>
      cases h with
      | cons first others => exact .cons first (ih others)
  · intro h
    induction h with
    | nil => exact .nil
    | cons first _ ih => exact .cons first ih

theorem akinEntries_iff {t : TypeDecl} {es es' : List (String × Value)} :
    AkinEntries L m m' t es es' ↔ Paired (AkinField L m m' t) es es' := by
  constructor
  · intro h
    induction es generalizing es' with
    | nil =>
      cases h
      exact .nil
    | cons e es ih =>
      cases h with
      | cons found value others => exact .cons ⟨rfl, _, found, value⟩ (ih others)
  · intro h
    induction h with
    | nil => exact .nil
    | @cons e e' _ _ first _ ih =>
      obtain ⟨name, u⟩ := e
      obtain ⟨name', u'⟩ := e'
      obtain ⟨rfl, f, found, value⟩ := first
      exact .cons found value ih

mutual

theorem Akin.lasts {projected : Bool} {host : HostType} {isList : Bool} {v v' : Value}
    (h : Akin L m m' projected host isList v v') {n n' : Memory} (hn : L.later m n)
    (hn' : L.later m' n') : Akin L n n' projected host isList v v' := by
  cases h with
  | plain alike => exact .plain (L.lasting _ _ _ _ _ _ _ _ hn hn' alike)
  | missing => exact .missing
  | record entries => exact .record (entries.lasts hn hn')
  | records each => exact .records (each.lasts hn hn')

theorem AkinEach.lasts {host : HostType} {us us' : List Value} (h : AkinEach L m m' host us us')
    {n n' : Memory} (hn : L.later m n) (hn' : L.later m' n') : AkinEach L n n' host us us' := by
  cases h with
  | nil => exact .nil
  | cons first others => exact .cons (first.lasts hn hn') (others.lasts hn hn')

theorem AkinEntries.lasts {t : TypeDecl} {es es' : List (String × Value)}
    (h : AkinEntries L m m' t es es') {n n' : Memory} (hn : L.later m n) (hn' : L.later m' n') :
    AkinEntries L n n' t es es' := by
  cases h with
  | nil => exact .nil
  | cons found value others => exact .cons found (value.lasts hn hn') (others.lasts hn hn')

end

end

/-- Where values that cannot be told apart are equal, so is all that requests give. -/
structure Likeness.IsEquality {w : World} (L : Likeness w) : Prop where
  eq : ∀ {host isList v m v' m'}, L.alike host isList v m v' m' → v = v'

mutual

theorem Akin.eq {w : World} {L : Likeness w} (equality : L.IsEquality) {m m' : Memory}
    {projected : Bool} {host : HostType} {isList : Bool} {v v' : Value}
    (h : Akin L m m' projected host isList v v') : v = v' := by
  cases h with
  | plain alike => exact equality.eq alike
  | missing => rfl
  | record entries => rw [entries.eq equality]
  | records each => rw [each.eq equality]

theorem AkinEach.eq {w : World} {L : Likeness w} (equality : L.IsEquality) {m m' : Memory}
    {host : HostType} {us us' : List Value} (h : AkinEach L m m' host us us') : us = us' := by
  cases h with
  | nil => rfl
  | cons first others => rw [first.eq equality, others.eq equality]

theorem AkinEntries.eq {w : World} {L : Likeness w} (equality : L.IsEquality) {m m' : Memory}
    {t : TypeDecl} {es es' : List (String × Value)} (h : AkinEntries L m m' t es es') :
    es = es' := by
  cases h with
  | nil => rfl
  | cons found value others => rw [value.eq equality, others.eq equality]

end

end EntityGraph
