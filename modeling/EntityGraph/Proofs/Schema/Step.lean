import EntityGraph.Schema.Completion
import EntityGraph.Proofs.Script.Recording
import Mathlib.Logic.Relation

/-!
# What declaring changes, step by step

A schema changes in a handful of ways, whatever is declared. This module lists them, each with what
was checked before it, and shows that every declaration and every stage of completing a schema is a
chain of such steps. What holds of all schemas is then shown for one step at a time, and no proof
about a schema looks into the declarations again.

Some steps belong to declarations and to completing alike: a type, a field or a query is added, a
number is used, an undeclared scalar type is remembered. Only declarations assign to objects and add
scalars. Only completing gives a type its projection, allows reserved names and sets up the type
system.
-/

namespace EntityGraph

namespace World

variable (w : World)

/-- A world with another schema. -/
def withSchema (f : Schema → Schema) : World := { w with schema := f w.schema }

/-- A world after a number was used. -/
def numbered (n : Nat) : World := w.withSchema fun s => { s with supply := n }

/-- A world with one more type. -/
def withType (t : TypeDecl) : World := w.withSchema fun s => { s with types := s.types ++ [t] }

/-- A world with another type at a place. -/
def changeType (i : Nat) (f : TypeDecl → TypeDecl) : World :=
  w.withSchema fun s => { s with types := s.types.modify i f }

/-- A world with one more field of the type at a place. -/
def withField (i : Nat) (f : FieldDecl) : World :=
  w.changeType i fun t => { t with fields := t.fields ++ [f] }

/-- A world with one more query. -/
def withQuery (q : QueryDecl) : World :=
  w.withSchema fun s => { s with queries := s.queries ++ [q] }

/-- A world with one more scalar. -/
def withScalar (e : ScalarEntry) : World :=
  w.withSchema fun s => { s with scalars := s.scalars ++ [e] }

/-- A world that remembers an undeclared scalar type. -/
def withAdHoc (host : HostType) : World :=
  w.withSchema fun s => { s with adHoc := s.adHoc ++ [host] }

/-- A world in which reserved names are allowed or not. -/
def allowing (b : Bool) : World := w.withSchema fun s => { s with allowsReserved := b }

/-- A world in which the type at a place has a projection. -/
def projected (i : Nat) (p : Projection) : World :=
  w.changeType i fun t => { t with projection := some p }

/-- A world with a type system. -/
def offering (sys : Interface.TypeSystem) : World :=
  w.withSchema fun s => { s with system := some sys }

/-- The type at a place. -/
def typeAt (i : Nat) : TypeDecl := w.schema.types.getD i default

end World

/-- Whether the lambda of a field, if it is declared with one, is over the context and an entity. -/
def FieldDecl.IsOver (context : Param) (f : FieldDecl) : Prop :=
  ∀ e, f.source = .fixed e → ∃ entity body, e = .lambda [context, entity] body

/-- Whether the lambda of a query, if it is declared with one, is over the context. -/
def QueryDecl.IsOver (context : Param) (q : QueryDecl) : Prop :=
  ∀ e, q.source = .fixed e → ∃ body, e = .lambda [context] body

/-- The steps of declarations and of completing. -/
inductive Addition : World → World → Prop where
  | number (w : World) (n : Nat) : Addition w (w.numbered n)
  | type (w : World) (t : TypeDecl) (isOpen : w.schema.completed = false)
      (host : w.schema.findType? t.host = none) (name : ∀ u ∈ w.schema.types, u.name ≠ t.name)
      (fields : t.fields = []) (projection : t.projection = none)
      (scalar : t.host.isPrimitive = true → t.isScalar = true) : Addition w (w.withType t)
  | field (w : World) (i : Nat) (f : FieldDecl) (isOpen : w.schema.completed = false)
      (name : (w.typeAt i).findField? f.name = none) (ofContext : f.IsOver w.schema.context) :
      Addition w (w.withField i f)
  | query (w : World) (q : QueryDecl) (isOpen : w.schema.completed = false)
      (reserved : Schema.reservedQueries.contains q.name → w.schema.allowsReserved)
      (name : w.schema.findQuery? q.name = none) (ofContext : q.IsOver w.schema.context) :
      Addition w (w.withQuery q)
  | adHoc (w : World) (host : HostType) : Addition w (w.withAdHoc host)

/-- The steps of declarations. -/
inductive Declaration : World → World → Prop where
  | addition {w w' : World} (h : Addition w w') : Declaration w w'
  | left (w : World) (t : Trail) : Declaration w (w.following t)
  | scalar (w : World) (e : ScalarEntry) (isOpen : w.schema.completed = false)
      (name : Registry.findName? w.schema.scalars e.name = none) : Declaration w (w.withScalar e)

/-- The steps of completing once everything was added. -/
inductive Arrangement : World → World → Prop where
  | adHoc (w : World) (host : HostType) : Arrangement w (w.withAdHoc host)
  | projection (w : World) (i : Nat) (p : Projection) (isNone : (w.typeAt i).projection = none) :
      Arrangement w (w.projected i p)
  | system (w : World) (sys : Interface.TypeSystem) : Arrangement w (w.offering sys)

/-- The steps of completing. -/
inductive Settlement : World → World → Prop where
  | addition {w w' : World} (h : Addition w w') : Settlement w w'
  | allow (w : World) (b : Bool) : Settlement w (w.allowing b)
  | arrangement {w w' : World} (h : Arrangement w w') : Settlement w w'

/-- Chains of steps of both sorts. -/
abbrev Adds : World → World → Prop := Relation.ReflTransGen Addition

/-- Chains of steps of declarations. -/
abbrev Declares : World → World → Prop := Relation.ReflTransGen Declaration

/-- Chains of steps of completing once everything was added. -/
abbrev Arranges : World → World → Prop := Relation.ReflTransGen Arrangement

/-- Chains of steps of completing. -/
abbrev Settles : World → World → Prop := Relation.ReflTransGen Settlement

instance isPreorder_steps {α : Type} (r : α → α → Prop) :
    IsPreorder α (Relation.ReflTransGen r) where
  refl _ := .refl
  trans _ _ _ := Relation.ReflTransGen.trans

theorem Adds.declares {w w' : World} (h : Adds w w') : Declares w w' :=
  Relation.ReflTransGen.mono (fun _ _ => Declaration.addition) _ _ h

theorem Adds.settles {w w' : World} (h : Adds w w') : Settles w w' :=
  Relation.ReflTransGen.mono (fun _ _ => Settlement.addition) _ _ h

theorem Arranges.settles {w w' : World} (h : Arranges w w') : Settles w w' :=
  Relation.ReflTransGen.mono (fun _ _ => Settlement.arrangement) _ _ h

namespace Schema

open Declaring

variable {R : World → World → Prop} [IsPreorder World R] {α : Type}

/-! ## What is done inside declarations -/

@[simp] theorem runOn_schema (w : World) : runOn schema w = (.ok w.schema, w) := rfl

@[simp] theorem runOn_update (f : Schema → Schema) (w : World) :
    runOn (update f) w = (.ok (), w.withSchema f) := rfl

@[simp] theorem runOn_ofOutcome (x : Outcome α) (w : World) :
    runOn (ofOutcome x) w = (x, w) := rfl

@[simp] theorem runOn_typeAt (i : Nat) (w : World) : runOn (typeAt i) w = (.ok (w.typeAt i), w) :=
  rfl

theorem runOn_making (x : World → Making α) (w : World) :
    runOn (making x) w
      = (((x w).runFrom w.trail).1, w.following ((x w).runFrom w.trail).2) := rfl

theorem runOn_registering (x : Registering α) (w : World) :
    runOn (registering x) w
      = ((runOn x w.schema.scalars).1,
          w.withSchema fun s => { s with scalars := (runOn x w.schema.scalars).2 }) := rfl

theorem keeps_schema : Keeps R schema := fun w => Std.Refl.refl w

theorem keeps_ofOutcome (x : Outcome α) : Keeps R (ofOutcome x) := fun w => Std.Refl.refl w

theorem keeps_typeAt (i : Nat) : Keeps R (typeAt i) := fun w => Std.Refl.refl w

theorem keeps_getType (host : HostType) : Keeps R (getType host) := by
  refine keeps_bind keeps_schema fun s => ?_
  split
  · exact keeps_pure _
  · exact keeps_throw _

/-- Nothing is done to a complete schema. -/
theorem runOn_ensureOpen (change : Change) (w : World) :
    runOn (ensureOpen change) w
      = (if w.schema.completed then .error (.completedFor change) else .ok (), w) := by
  unfold ensureOpen
  rw [runOn_bind_ok (runOn_schema w)]
  cases w.schema.completed <;> rfl

theorem runOn_ensureOpen_bind {change : Change} {x : Declaring α} {w : World}
    (isOpen : w.schema.completed = false) : runOn (do ensureOpen change; x) w = runOn x w := by
  rw [runOn_bind, runOn_ensureOpen, isOpen]
  rfl

/-- What follows a check that a schema is open comes out in an open schema only. -/
theorem ensureOpen_ok {change : Change} {x : Declaring α} {w u : World} {a : α}
    (h : runOn (do ensureOpen change; x) w = (.ok a, u)) :
    w.schema.completed = false ∧ runOn x w = (.ok a, u) := by
  cases completed : w.schema.completed with
  | true =>
    rw [runOn_bind, runOn_ensureOpen, completed] at h
    cases h
  | false => exact ⟨rfl, by rwa [runOn_ensureOpen_bind completed] at h⟩

theorem ensureOpen_step {change : Change} {x : Declaring α} {w : World}
    (h : w.schema.completed = false → R w (runOn x w).2) :
    R w (runOn (do ensureOpen change; x) w).2 := by
  cases completed : w.schema.completed with
  | true =>
    rw [runOn_bind, runOn_ensureOpen, completed]
    exact Std.Refl.refl w
  | false =>
    rw [runOn_ensureOpen_bind completed]
    exact h completed

/-- What follows a check that a schema is open runs in an open schema. -/
theorem keeps_ensureOpen (change : Change) {x : Declaring α}
    (h : ∀ w, w.schema.completed = false → R w (runOn x w).2) :
    Keeps R (do ensureOpen change; x) :=
  fun w => ensureOpen_step (h w)

/-! ## Steps of both sorts -/

theorem keeps_making (x : World → Making α) : Keeps Declares (making x) := by
  intro w
  rw [runOn_making]
  exact .single (.left w _)

omit [IsPreorder World R] in
/-- What leaves the memory as it was only uses numbers. -/
theorem keeps_making_number (number : ∀ w n, R w (w.numbered n)) {x : World → Making α}
    (h : ∀ w t, ∃ n, ((x w).runFrom t).2 = { t with supply := n }) : Keeps R (making x) := by
  intro w
  rw [runOn_making]
  obtain ⟨n, left⟩ := h w w.trail
  have same : w.following ((x w).runFrom w.trail).2 = w.numbered n := by
    rw [left]
    rfl
  rw [same]
  exact number w n

/-- Declaring a type adds it at most. -/
theorem keeps_addType {host : HostType}
    (type : ∀ w t, w.schema.completed = false → w.schema.findType? t.host = none →
      (∀ u ∈ w.schema.types, u.name ≠ t.name) → t.fields = [] → t.projection = none →
      (t.host.isPrimitive = true → t.isScalar = true) → t.host = host → R w (w.withType t))
    (name : Option String) (description : String) : Keeps R (addType host name description) := by
  refine keeps_ensureOpen _ fun w isOpen => ?_
  rw [runOn_bind_ok (runOn_schema w)]
  cases hostTaken : w.schema.findType? host with
  | some i => exact Std.Refl.refl w
  | none =>
    simp only [Option.isSome_none, Bool.false_eq_true, if_false]
    split
    · exact Std.Refl.refl w
    · next free =>
      refine type w _ isOpen hostTaken ?_ rfl rfl (fun primitive => ?_) rfl
      · intro u hu same
        have := List.find?_eq_none.1 free u hu
        simp [same] at this
      · exact Bool.or_eq_true_iff.2 (.inl primitive)

/-- Declaring a query adds it at most. -/
theorem declareQuery_step
    (query : ∀ w q, w.schema.completed = false →
      (reservedQueries.contains q.name → w.schema.allowsReserved) →
      w.schema.findQuery? q.name = none → q.IsOver w.schema.context → R w (w.withQuery q))
    {q : QueryDecl} {w : World} (ofContext : q.IsOver w.schema.context) :
    R w (runOn (declareQuery q) w).2 := by
  refine ensureOpen_step fun isOpen => ?_
  rw [runOn_bind_ok (runOn_schema w)]
  by_cases refused : (reservedQueries.contains q.name && !w.schema.allowsReserved) = true
  · rw [if_pos refused]
    exact Std.Refl.refl w
  · rw [if_neg refused]
    by_cases taken : (w.schema.findQuery? q.name).isSome = true
    · rw [if_pos taken]
      exact Std.Refl.refl w
    · rw [if_neg taken]
      refine query w q isOpen ?_ (by simpa using taken) ofContext
      intro reserved
      rw [reserved] at refused
      simpa using refused

/-- A query without a lambda of its own has nothing to show. -/
theorem keeps_declareQuery
    (query : ∀ w q, w.schema.completed = false →
      (reservedQueries.contains q.name → w.schema.allowsReserved) →
      w.schema.findQuery? q.name = none → q.IsOver w.schema.context → R w (w.withQuery q))
    {q : QueryDecl} (free : ∀ e, q.source ≠ .fixed e) : Keeps R (declareQuery q) :=
  fun w => declareQuery_step query (w := w) fun e is => absurd is (free e)

/-- Inserting a field adds it at most. -/
theorem insertField_step
    (field : ∀ w i f, w.schema.completed = false → (w.typeAt i).findField? f.name = none →
      f.IsOver w.schema.context → R w (w.withField i f))
    (i : Nat) {f : FieldDecl} {w : World} (ofContext : f.IsOver w.schema.context) :
    R w (runOn (insertField i f) w).2 := by
  refine ensureOpen_step fun isOpen => ?_
  rw [runOn_bind_ok (runOn_typeAt i w)]
  split
  · exact Std.Refl.refl w
  · next free => exact field w i f isOpen (by simpa using free) ofContext

theorem adds_field (w : World) (i : Nat) (f : FieldDecl) (isOpen : w.schema.completed = false)
    (name : (w.typeAt i).findField? f.name = none) (ofContext : f.IsOver w.schema.context) :
    Adds w (w.withField i f) :=
  .single (.field w i f isOpen name ofContext)

theorem adds_query (w : World) (q : QueryDecl) (isOpen : w.schema.completed = false)
    (reserved : reservedQueries.contains q.name → w.schema.allowsReserved)
    (name : w.schema.findQuery? q.name = none) (ofContext : q.IsOver w.schema.context) :
    Adds w (w.withQuery q) :=
  .single (.query w q isOpen reserved name ofContext)

theorem adds_number (w : World) (n : Nat) : Adds w (w.numbered n) := .single (.number w n)

/-- Describing a host type remembers it at most. -/
theorem keeps_describe (adHoc : ∀ w host, R w (w.withAdHoc host)) (host : HostType) :
    Keeps R (describe host) := by
  intro w
  unfold describe
  rw [runOn_bind_ok (runOn_schema w)]
  split
  · next host _ =>
    split
    · exact adHoc w host
    · exact Std.Refl.refl w
  · exact Std.Refl.refl w

/-! ## Fields -/

/-- What a field is declared with is a lambda over the context and an entity. -/
theorem captureField_ok {w : World} {typeName : String} {function : Value} {t t' : Trail}
    {e : Expr Value} (h : runOn (captureField w typeName function) t = (.ok e, t')) :
    ∃ entity body, e = .lambda [w.schema.context, entity] body := by
  unfold captureField at h
  simp only [] at h
  split at h
  · next ps b _ =>
    split at h
    · next fit =>
      cases h
      simp only [Bool.and_eq_true, beq_iff_eq] at fit
      obtain ⟨two, first⟩ := fit
      obtain _ | ⟨c, _ | ⟨entity, _ | ⟨third, rest⟩⟩⟩ := ps
      · cases two
      · cases two
      · cases first
        exact ⟨entity, b, rfl⟩
      · cases two
    · cases h
  · obtain ⟨entity, u, _, h⟩ := bind_eq_ok h
    exact ⟨entity, captureLambda_ok h⟩

/-- What a query is declared with is a lambda over the context. -/
theorem captureQuery_ok {w : World} {function : Value} {t t' : Trail} {e : Expr Value}
    (h : runOn (captureQuery w function) t = (.ok e, t')) :
    ∃ body, e = .lambda [w.schema.context] body := by
  unfold captureQuery at h
  split at h
  · next ps b _ =>
    split at h
    · next fit =>
      cases h
      exact ⟨b, by rw [beq_iff_eq.1 fit]⟩
    · cases h
  · exact captureLambda_ok h

/-- What is made of a lambda goes on in the world in which the lambda was made. -/
theorem making_step {β : Type} {x : World → Making α} {next : α → Declaring β} {w : World}
    (kept : R w (runOn (making x) w).2)
    (rest : ∀ a t t', runOn (x w) t = (.ok a, t') →
      R (w.following t') (runOn (next a) (w.following t')).2) :
    R w (runOn (making x >>= next) w).2 := by
  rw [runOn_bind]
  rw [runOn_making] at kept ⊢
  generalize made : (x w).runFrom w.trail = out at kept ⊢
  obtain ⟨r, t'⟩ := out
  cases r with
  | error f => exact kept
  | ok a => exact IsTrans.trans _ _ _ kept (rest a w.trail t' made)

section

variable (field : ∀ w i f, w.schema.completed = false → (w.typeAt i).findField? f.name = none →
  f.IsOver w.schema.context → R w (w.withField i f))

include field

theorem keeps_addPostField (owner : HostType) (name : String) (function : Value)
    (hint : Option Hint) (host : Option HostType) (description : String) :
    Keeps R (addPostField owner name function hint host description) := by
  refine keeps_bind (keeps_getType owner) fun i w => ?_
  exact insertField_step field i nofun

theorem keeps_addFieldWithArgs (owner : HostType) (name : String) (shape : ArgShape)
    (factory : Value) (host : Option HostType) (isList : Bool) (description : String) :
    Keeps R (addFieldWithArgs owner name shape factory host isList description) := by
  refine keeps_bind (keeps_getType owner) fun i w => ?_
  exact insertField_step field i nofun

/-- A field is declared in the same steps as its lambda is captured. -/
theorem keeps_addField {function : Value}
    (captured : ∀ name, Keeps R (making fun w => captureField w name function))
    (owner : HostType) (name : String) (host : Option HostType) (isList : Bool)
    (description : String) :
    Keeps R (addField owner name function host isList description) := by
  refine keeps_bind (keeps_getType owner) fun i => ?_
  refine keeps_ensureOpen _ fun w _ => ?_
  rw [runOn_bind_ok (runOn_typeAt i w)]
  refine making_step (captured _ w) fun e t t' made => ?_
  rw [runOn_bind_ok (runOn_get _)]
  obtain ⟨entity, body, rfl⟩ := captureField_ok made
  exact insertField_step field i (by rintro _ ⟨⟩; exact ⟨entity, body, rfl⟩)

theorem keeps_insertMember (number : ∀ w n, R w (w.numbered n)) (i : Nat)
    (member description : String) : Keeps R (insertMember i member description) := by
  intro w
  unfold insertMember
  rw [runOn_bind_ok (runOn_typeAt i w)]
  refine making_step (keeps_making_number number (fun w t => ⟨_, rfl⟩) w) fun e t t' made => ?_
  rw [runOn_bind_ok (runOn_get _)]
  refine insertField_step field i fun e' is => ?_
  cases is
  obtain ⟨entity, _, _, made⟩ := bind_eq_ok made
  cases made
  exact ⟨entity, _, rfl⟩

end

/-! ## Declarations -/

theorem keeps_addQuery (mode : Mode) (name : String) (host : HostType) (function : Value)
    (description : String) : Keeps Declares (addQuery mode name host function description) := by
  refine keeps_ensureOpen _ fun w _ => ?_
  refine making_step (keeps_making _ w) fun e t t' made => Adds.declares ?_
  obtain ⟨body, rfl⟩ := captureQuery_ok made
  exact declareQuery_step adds_query (by rintro _ ⟨⟩; exact ⟨body, rfl⟩)

theorem keeps_addQueryWithArgs (mode : Mode) (name : String) (host : HostType) (shape : ArgShape)
    (factory : Value) (description : String) :
    Keeps Adds (addQueryWithArgs mode name host shape factory description) :=
  keeps_declareQuery adds_query fun _ => nofun

theorem keeps_addPropertyField (owner : HostType) (selector : Value) (description : String) :
    Keeps Declares (addPropertyField owner selector description) := by
  refine keeps_bind (keeps_getType owner) fun i => ?_
  refine keeps_ensureOpen _ fun w _ => ?_
  refine (keeps_bind (keeps_typeAt i) fun t => ?_) w
  refine keeps_bind (keeps_making _) fun member => ?_
  exact keeps_mono (fun _ _ => Adds.declares)
    (keeps_insertMember adds_field adds_number i member description)

theorem keeps_addAllFields (owner : HostType) : Keeps Adds (addAllFields owner) := by
  refine keeps_bind (keeps_getType owner) fun i => ?_
  refine keeps_ensureOpen _ fun w _ => ?_
  refine (keeps_bind keeps_get fun v => ?_) w
  exact keeps_mapM _ fun member _ => keeps_insertMember adds_field adds_number i member ""

/-- A registry gets a scalar whose name is new, or stays as it is. -/
theorem runOn_addNew (kind : WireKind) (translate : Value) (name : Option String)
    (host : Option HostType) (description : String) (r : Registry) :
    (∃ f, runOn (Registry.addNew kind translate name host description) r = (.error f, r))
      ∨ ∃ e, r.findName? e.name = none ∧
        runOn (Registry.addNew kind translate name host description) r = (.ok e, r ++ [e]) := by
  unfold Registry.addNew
  rw [runOn_bind, runOn_mk]
  cases ScalarEntry.make kind translate name host description with
  | error f => exact .inl ⟨f, rfl⟩
  | ok e =>
    show (∃ f, runOn (do Registry.add e; return e) r = _)
      ∨ ∃ e', _ ∧ runOn (do Registry.add e; return e) r = _
    unfold Registry.add Registry.insert
    by_cases taken : (r.findName? e.name).isSome = true
    · refine .inl ⟨.scalarExists e.name, ?_⟩
      rw [runOn_bind, runOn_bind_ok (runOn_get r), if_pos taken]
      rfl
    · refine .inr ⟨e, by simpa using taken, ?_⟩
      rw [runOn_bind, runOn_bind_ok (runOn_get r), if_neg taken]
      rfl

theorem keeps_addScalar (kind : WireKind) (translate : Value) (name : Option String)
    (host : Option HostType) (description : String) :
    Keeps Declares (addScalar kind translate name host description) := by
  refine keeps_ensureOpen _ fun w isOpen => ?_
  rw [runOn_registering]
  obtain ⟨f, h⟩ | ⟨e, free, h⟩ := runOn_addNew kind translate name host description w.schema.scalars
  · rw [h]
    exact .refl
  · rw [h]
    exact .single (.scalar w e isOpen free)

/-! ## Stages of completing -/

/-- For each of the types through which a schema describes itself, the name of a field that it is
declared with. -/
def describingField? : HostType → Option String
  | .schema => some "types"
  | .entityType => some "fields"
  | .field => some "isDeprecated"
  | _ => none

variable (R) in
/-- Relations that are kept by every step in which a schema is made to describe itself. -/
structure Describing : Prop where
  number : ∀ w n, R w (w.numbered n)
  field : ∀ w i f, w.schema.completed = false → (w.typeAt i).findField? f.name = none →
    f.IsOver w.schema.context → R w (w.withField i f)
  type : ∀ w t, w.schema.completed = false → w.schema.findType? t.host = none →
    (∀ u ∈ w.schema.types, u.name ≠ t.name) → t.fields = [] → t.projection = none →
    (t.host.isPrimitive = true → t.isScalar = true) → (describingField? t.host).isSome →
    R w (w.withType t)
  query : ∀ w q, w.schema.completed = false →
    (reservedQueries.contains q.name → w.schema.allowsReserved) →
    w.schema.findQuery? q.name = none → q.IsOver w.schema.context → R w (w.withQuery q)

theorem adds_describing : Describing Adds where
  number := adds_number
  field := adds_field
  type w t isOpen host name fields projection scalar _ :=
    .single (.type w t isOpen host name fields projection scalar)
  query := adds_query

section

variable (steps : Describing R)

include steps

theorem keeps_describingType {host : HostType} (own : (describingField? host).isSome)
    (name : Option String) (description : String) : Keeps R (addType host name description) := by
  refine keeps_addType (fun w t isOpen host' name fields projection scalar same => ?_) name description
  exact steps.type w t isOpen host' name fields projection scalar (same ▸ own)

theorem keeps_addBodyField (owner : HostType) (name : String) (body : Expr Value → Expr Value)
    (host : Option HostType) (isList : Bool) :
    Keeps R (addBodyField owner name body host isList) := by
  refine keeps_bind keeps_schema fun s => ?_
  refine keeps_bind (keeps_making_number steps.number fun w t => ⟨_, rfl⟩) fun entity => ?_
  refine keeps_bind ?_ fun f => keeps_pure _
  refine keeps_addField steps.field (fun typeName => ?_) owner name host isList ""
  refine keeps_making_number steps.number fun w t => ?_
  -- The lambda is built already, so it is taken or refused without anything being called.
  unfold captureField Value.ofTree
  simp only []
  split <;> exact ⟨t.supply, rfl⟩

theorem keeps_addMemberFields (owner : HostType) (members : List String) :
    Keeps R (addMemberFields owner members) := by
  refine keeps_bind (keeps_getType owner) fun i => ?_
  refine keeps_forM _ fun m _ => ?_
  exact keeps_bind (keeps_insertMember steps.field steps.number i m "") fun f => keeps_pure _

theorem keeps_addSchemaType : Keeps R addSchemaType := by
  refine keeps_bind (keeps_describingType steps rfl _ _) fun t => ?_
  refine keeps_bind (keeps_addBodyField steps _ _ _ _ _) fun _ => ?_
  refine keeps_bind (keeps_addBodyField steps _ _ _ _ _) fun _ => ?_
  refine keeps_bind (keeps_addBodyField steps _ _ _ _ _) fun _ => ?_
  exact keeps_addBodyField steps _ _ _ _ _

theorem keeps_addEntityType : Keeps R addEntityType := by
  refine keeps_bind (keeps_describingType steps rfl _ _) fun t => ?_
  refine keeps_bind (keeps_addMemberFields steps _ _) fun _ => ?_
  refine keeps_bind (keeps_addBodyField steps _ _ _ _ _) fun _ => ?_
  exact keeps_addBodyField steps _ _ _ _ _

theorem keeps_addFieldType : Keeps R addFieldType := by
  refine keeps_bind (keeps_describingType steps rfl _ _) fun t => ?_
  refine keeps_bind (keeps_addMemberFields steps _ _) fun _ => ?_
  refine keeps_bind (keeps_addBodyField steps _ _ _ _ _) fun _ => ?_
  exact keeps_addBodyField steps _ _ _ _ _

theorem keeps_addSchemaQueries : Keeps R addSchemaQueries := by
  intro w
  unfold addSchemaQueries
  rw [runOn_bind_ok (runOn_schema w)]
  -- The query for the schema is declared with a lambda over the context that was just read.
  have first := declareQuery_step (R := R) steps.query (w := w)
    (q := { name := "__schema", description := "The schema itself.", host := .schema, shape := .none
            mode := .unmodified, source := .fixed (.lambda [w.schema.context] (.lit .schema)) })
    (by rintro _ ⟨⟩; exact ⟨_, rfl⟩)
  rw [runOn_bind]
  generalize runOn (declareQuery _) w = out at first ⊢
  obtain ⟨r, v⟩ := out
  cases r with
  | error f => exact first
  | ok q =>
    refine IsTrans.trans _ _ _ first ?_
    refine (keeps_bind keeps_schema fun s => ?_) v
    refine keeps_bind (fun w => steps.number w _) fun _ => ?_
    exact keeps_bind (keeps_declareQuery steps.query fun _ => nofun) fun q => keeps_pure _

end

theorem keeps_addTypeName (number : ∀ w n, R w (w.numbered n))
    (field : ∀ w i f, w.schema.completed = false → (w.typeAt i).findField? f.name = none →
      f.IsOver w.schema.context → R w (w.withField i f))
    (t : TypeDecl) : Keeps R (addTypeName t) := by
  refine keeps_ite (fun _ => ?_) fun _ => keeps_pure _
  refine keeps_bind keeps_schema fun s => ?_
  refine keeps_bind (fun w => number w _) fun _ => ?_
  exact keeps_bind (keeps_addPostField field _ _ _ _ _ _) fun f => keeps_pure _

theorem keeps_addDescription (steps : Describing R) : Keeps R addDescription := by
  refine keeps_bind (keeps_addSchemaType steps) fun _ => ?_
  refine keeps_bind (keeps_addEntityType steps) fun _ => ?_
  refine keeps_bind (keeps_addFieldType steps) fun _ => ?_
  refine keeps_bind (keeps_addSchemaQueries steps) fun _ => ?_
  refine keeps_bind keeps_schema fun s => ?_
  exact keeps_forM _ fun t _ => keeps_addTypeName steps.number steps.field t

theorem keeps_allowReserved (b : Bool) : Keeps Settles (allowReserved b) :=
  fun w => .single (.allow w b)

theorem keeps_addIntrospection : Keeps Settles addIntrospection := by
  refine keeps_bind (keeps_allowReserved true) fun _ => ?_
  refine keeps_bind (keeps_tryCatch ?_ fun f => ?_) fun _ => ?_
  · exact keeps_mono (fun _ _ => Adds.settles) (keeps_addDescription adds_describing)
  · exact keeps_bind (keeps_allowReserved false) fun _ => keeps_throw f
  · exact keeps_allowReserved false

theorem keeps_validateTypes : Keeps R validateTypes := by
  refine keeps_bind keeps_schema fun s => ?_
  refine keeps_forM _ fun t _ => ?_
  exact keeps_ite (fun _ => keeps_ofOutcome _) fun _ => keeps_pure _

theorem keeps_projectionOf (adHoc : ∀ w host, R w (w.withAdHoc host)) (t : TypeDecl) :
    Keeps R (projectionOf t) := by
  refine keeps_ite (fun _ => keeps_pure _) fun _ => keeps_guard ?_
  refine keeps_bind (keeps_mapM _ fun f _ => ?_) fun members => keeps_pure _
  exact keeps_bind (keeps_describe adHoc _) fun d => keeps_pure _

/-- Worlds with the same declared types. -/
def SameTypes (w w' : World) : Prop := w'.schema.types = w.schema.types

instance : IsPreorder World SameTypes where
  refl _ := rfl
  trans _ _ _ h h' := Eq.trans h' h

theorem arranges_adHoc (w : World) (host : HostType) : Arranges w (w.withAdHoc host) :=
  .single (.adHoc w host)

theorem keeps_settleProjection (i : Nat) : Keeps Arranges (settleProjection i) := by
  intro w
  unfold settleProjection
  rw [runOn_bind_ok (runOn_typeAt i w)]
  by_cases missing : (w.typeAt i).projection.isNone = true
  · rw [if_pos missing, runOn_bind, runOn_ofOutcome]
    cases (w.typeAt i).validate with
    | error f => exact .refl
    | ok _ =>
      simp only []
      have settled := keeps_projectionOf arranges_adHoc (w.typeAt i) w
      have same := keeps_projectionOf (R := SameTypes) (fun _ _ => rfl) (w.typeAt i) w
      rw [runOn_bind]
      generalize runOn (projectionOf (w.typeAt i)) w = out at settled same ⊢
      obtain ⟨r, v⟩ := out
      cases r with
      | error f => exact settled
      | ok p =>
        refine settled.tail (.projection v i p ?_)
        unfold World.typeAt at missing ⊢
        rw [show v.schema.types = w.schema.types from same]
        simpa using missing
  · rw [if_neg missing]
    exact .refl

theorem keeps_settleProjections : Keeps Arranges settleProjections := by
  refine keeps_bind keeps_schema fun s => ?_
  exact keeps_forM _ fun i _ => keeps_settleProjection i

theorem keeps_checkArguments (adHoc : ∀ w host, R w (w.withAdHoc host)) (owner : Owner)
    (shape : ArgShape) : Keeps R (checkArguments owner shape) := by
  refine keeps_bind keeps_get fun w => ?_
  refine keeps_bind (keeps_ofOutcome _) fun types => ?_
  refine keeps_forM _ fun (n, host) _ => ?_
  refine keeps_bind (keeps_describe adHoc host) fun t => ?_
  refine keeps_ite (fun _ => ?_) fun _ => keeps_pure _
  exact keeps_bind keeps_get fun w => keeps_throw _

theorem keeps_checkAllArguments (adHoc : ∀ w host, R w (w.withAdHoc host)) :
    Keeps R checkAllArguments := by
  refine keeps_bind keeps_schema fun s => ?_
  refine keeps_bind (keeps_forM _ fun t _ => ?_) fun _ => ?_
  · exact keeps_forM _ fun f _ => keeps_checkArguments adHoc _ _
  · exact keeps_forM _ fun q _ => keeps_checkArguments adHoc _ _

theorem keeps_describeQueries (adHoc : ∀ w host, R w (w.withAdHoc host)) (qs : List QueryDecl) :
    Keeps R (qs.forM fun q => do let _ ← describe q.host) := by
  refine keeps_forM _ fun q _ => ?_
  exact keeps_bind (keeps_describe adHoc _) fun t => keeps_pure _

theorem keeps_describeFields (adHoc : ∀ w host, R w (w.withAdHoc host)) (ts : List TypeDecl) :
    Keeps R (ts.forM fun t => t.fields.forM fun f => do let _ ← describe f.host) := by
  refine keeps_forM _ fun t _ => keeps_forM _ fun f _ => ?_
  exact keeps_bind (keeps_describe adHoc _) fun t => keeps_pure _

theorem keeps_setUpInterface : Keeps Arranges setUpInterface := by
  refine keeps_bind keeps_get fun w => ?_
  refine keeps_bind (keeps_ofOutcome _) fun sys => ?_
  refine keeps_bind keeps_schema fun s => ?_
  refine keeps_bind (keeps_describeQueries arranges_adHoc _) fun _ => ?_
  refine keeps_bind (keeps_describeFields arranges_adHoc _) fun _ => ?_
  exact fun w => .single (.system w sys)

/-- Completing is a chain of steps, as far as it gets. -/
theorem keeps_settle : Keeps Settles settle := by
  refine keeps_bind keeps_schema fun s => ?_
  refine keeps_guard ?_
  refine keeps_bind keeps_validateTypes fun _ => ?_
  refine keeps_bind keeps_addIntrospection fun _ => ?_
  refine keeps_mono (fun _ _ => Arranges.settles) ?_
  refine keeps_bind keeps_settleProjections fun _ => ?_
  refine keeps_bind (keeps_checkAllArguments arranges_adHoc) fun _ => ?_
  exact keeps_setUpInterface

end Schema

end EntityGraph
