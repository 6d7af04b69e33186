import EntityGraph.Proofs.Capture.Within
import EntityGraph.Proofs.Script.Recording
import EntityGraph.Script.Capture
import EntityGraph.Value.Operate

/-!
# Worlds while a function is captured

A world is covered by a stage of capturing if it holds what the stage says, and if what it declares
is within every stage. What is recorded of proxies is well scoped then, since it is put together from
well-scoped expressions and declares nothing. So the values at hand at a stage are a realm, in which
everything that is computed from values at hand is at hand too.
-/

namespace EntityGraph

/-! ## Worlds -/

/-- Whether a world holds what a stage of capturing says, and everything that is not captured is
within every stage. -/
structure Stage.Covers (c : Stage) (w : World) : Prop where
  memory : w.memory = c.memory
  classes : ∀ k ∈ w.classes, k.Declares treeNames (·.Within c.bare)
  objects : ∀ name o, w.objects.lookup name = some o →
    o.type.IsPlain ∧ ∀ a ∈ o.attributes, a.2.Within c.bare
  /-- What was there before holds declared values. -/
  early : ∀ r o, c.memory.lookup r = some o → ¬ r.IsFrom c.base →
    ∀ a ∈ o.attributes, a.2.Within c.bare
  types : ∀ r o, c.memory.lookup r = some o → o.type.IsPlain
  /-- Nothing was assigned to expressions since capturing began. -/
  trees : ∀ q o, (Ref.expression q, o) ∈ c.memory → q.root < c.base
  fresh : ∀ r o, c.memory.lookup r = some o → ¬ r.IsFrom c.top
  low : c.base ≤ c.top
  made : ∀ p ∈ c.known, p.id < c.top

theorem Value.Within.declared {c : Stage} {v : Value} (h : v.Within c.bare) : v.Within c :=
  h.of_bare rfl

namespace Stage.Covers

variable {c : Stage} {w : World} (h : c.Covers w)

include h

theorem attributes {r : Ref} {o : ObjectDecl} (found : w.memory.lookup r = some o)
    (holds : c.Holds r) : ∀ a ∈ o.attributes, a.2.Within c := by
  rw [h.memory] at found
  by_cases since : r.IsFrom c.base
  · exact holds since o found
  · exact fun a ha => (h.early r o found since a ha).declared

theorem object {r : Ref} (holds : c.Holds r) : ∀ a ∈ (w.object r).attributes, a.2.Within c := by
  unfold World.object
  split
  · next found => exact h.attributes found holds
  · next name _ =>
    cases found : w.objects.lookup name with
    | none => exact nofun
    | some o => exact fun a ha => ((h.objects name o found).2 a ha).declared
  · exact nofun

/-- What an object from before holds is declared, or was assigned as a literal. -/
theorem object_early {r : Ref} (before : ¬ r.IsFrom c.base) :
    ∀ a ∈ (w.object r).attributes, a.2.Within c.bare := by
  unfold World.object
  split
  · next found => exact h.early _ _ (h.memory ▸ found) before
  · next name _ =>
    cases found : w.objects.lookup name with
    | none => exact nofun
    | some o => exact (h.objects name o found).2
  · exact nofun

theorem objectType (r : Ref) : (w.object r).type.IsPlain := by
  unfold World.object
  split
  · next found => exact h.types _ _ (h.memory ▸ found)
  · next name _ =>
    cases found : w.objects.lookup name with
    | none => trivial
    | some o => exact (h.objects name o found).1
  · trivial

theorem assigned {r : Ref} (holds : c.Holds r) {name : String} {v : Value}
    (found : w.assigned? r name = some v) : v.Within c := by
  obtain ⟨o, held, found⟩ := Option.bind_eq_some_iff.1 found
  obtain ⟨before, after, split, -⟩ := List.lookup_eq_some_iff.1 found
  exact h.attributes held holds (name, v) (by simp [split])

theorem offers {className name : String} {a : Classes.Attribute}
    (offered : w.classAttribute? className name = some a) :
    a.Offers treeNames (·.Within c) := by
  obtain ⟨k, hk, offered⟩ := List.exists_of_findSome?_eq_some offered
  split at offered
  · next v found =>
    cases offered
    exact h.assigned (r := .type (.declared k.name)) (fun since => False.elim since) found
  · have declares := h.classes k (Classes.mem_of_mem_lineage hk)
    have offers := Classes.offers_of_declares declares offered
    cases a with
    | property p => exact ⟨fun v is => (offers.1 v is).declared, offers.2⟩
    | method r => exact ⟨fun v is => (offers.1 v is).declared, offers.2⟩
    | default v => exact Value.Within.declared offers
    | field => trivial

theorem method {className name : String} {r : Reply}
    (offered : w.classes.attribute? className name = some (.method r)) :
    (∀ v, r = .value v → v.Within c) ∧ ∀ n, r = .attribute n → n ∉ treeNames := by
  have offers := Classes.offers_of_attribute h.classes offered
  exact ⟨fun v is => (offers.1 v is).declared, offers.2⟩

theorem default {className : String} {m : MemberDecl} (hm : m ∈ w.classes.fields className)
    {v : Value} (is : m.default = some v) : v.Within c :=
  (Classes.default_of_fields h.classes hm is).declared

end Stage.Covers

namespace Value

variable {c : Stage}

theorem within_ofEntries {es : List (Value × Value)} :
    (ofEntries es).Within c ↔ ∀ e ∈ es, e.1.Within c ∧ e.2.Within c := by
  have unmarked : ¬ (Ref.made 0).IsFrom c.base := Nat.not_le.2 c.positive
  unfold ofEntries
  rw [within_orderedDict]
  exact ⟨And.left, fun h => ⟨h, ⟨fun since => absurd since unmarked, nofun⟩,
    fun since => absurd since unmarked⟩⟩

theorem within_ofRecorded {e : Expr Value} : (ofRecorded e).Within c ↔ e.Within c := by
  unfold ofRecorded
  rw [within_proxy]
  constructor
  · rintro (h | ⟨e', p, same, tree, -⟩)
    · exact absurd h not_within_expr
    · cases same
      exact tree
  · exact fun h => .inr ⟨e, _, rfl, h, .inl rfl⟩

end Value

/-! ## Classes of classes -/

theorem HostType.ofName_plain (n : String) : (HostType.ofName n).IsPlain := by
  unfold ofName
  cases found : named.find? fun t => t.name == n with
  | none => trivial
  | some t =>
    have mem := List.mem_of_find?_eq_some found
    simp only [named, List.mem_append, List.mem_map, List.mem_cons, List.not_mem_nil] at mem
    rcases mem with ⟨b, -, rfl⟩ | rfl | rfl | rfl | rfl | mem
    · trivial
    · trivial
    · trivial
    · trivial
    · trivial
    · exact mem.elim

theorem Classes.ancestry_plain {cs : Classes} {t u : HostType} (h : u ∈ cs.ancestry t) :
    u.IsPlain := by
  unfold ancestry at h
  split at h
  · obtain ⟨b, -, rfl⟩ := List.mem_map.1 h
    trivial
  · rcases List.mem_append.1 h with h | h
    · obtain ⟨k, -, rfl⟩ := List.mem_map.1 h
      trivial
    · obtain ⟨b, -, rfl⟩ := List.mem_map.1 h
      trivial
  · cases h

theorem Classes.bases_plain {cs : Classes} {t u : HostType} (h : u ∈ cs.basesOf t) : u.IsPlain := by
  unfold basesOf at h
  dsimp only at h
  split at h
  · split at h
    · exact ancestry_plain (List.mem_of_mem_drop (List.mem_of_mem_take h))
    · obtain ⟨n, -, rfl⟩ := List.mem_map.1 h
      exact HostType.ofName_plain n
  · exact ancestry_plain (List.mem_of_mem_drop (List.mem_of_mem_take h))

variable {c : Stage} {w : World}

/-! ## Nodes of expressions -/

namespace Value

variable {u v : Value}

/-- What stands for a value at hand inside an expression. -/
theorem recorded_operand (h : v.Within c) : v.recorded.IsOperand c := by
  cases v with
  | proxy u mark => exact within_proxy.1 h
  | expr e p => exact absurd h not_within_expr
  | _ => exact .inr ⟨_, .loose, rfl, .lit _, .inl rfl⟩

theorem operand_param {p : Param} (known : p ∈ c.known) : (ofTree (.param p)).IsOperand c :=
  .inr ⟨_, .loose, rfl, .param known, .inl rfl⟩

theorem operand_ofTree {e : Expr Value} (h : e.Within c) : (ofTree e).IsOperand c :=
  .inr ⟨_, .loose, rfl, h, .inl rfl⟩

section

variable (h : c.Covers w)

include h

/-- An expression that is put into another one is as it was recorded. -/
theorem tree_within {e : Expr Value} (hu : u.IsOperand c) (is : u.tree? w = some e) :
    e.Within c := by
  rcases hu with hu | ⟨e', p, rfl, tree, intact⟩
  · cases u with
    | expr e p => exact absurd hu not_within_expr
    | _ => cases is
  · cases is
    rcases intact with loose | late
    · unfold Expr.current
      rw [loose]
      exact tree
    · rw [Expr.current_of_late fun q o among => ?_]
      · exact tree
      · exact Nat.lt_of_lt_of_le (h.trees q o (h.memory ▸ among)) late

theorem brings_treeAt (hu : u.IsOperand c) (place : Place) :
    Brings (·.Within c) (u.treeAt w place) := by
  unfold treeAt
  refine (brings_elim _ _ _).2 ⟨fun _ => brings_error _, fun e is => ?_⟩
  exact (brings_ok e).2 (tree_within h hu is)

theorem brings_treeIn (hu : u.IsOperand c) (group : Group) :
    Brings (·.Within c) (u.treeIn w group) := by
  unfold treeIn
  refine (brings_elim _ _ _).2 ⟨fun _ => brings_error _, fun e is => ?_⟩
  exact (brings_ok e).2 (tree_within h hu is)

theorem brings_trees {us : List Value} (hus : ∀ u ∈ us, u.IsOperand c) (group : Group) :
    Brings (fun es => ∀ e ∈ es, e.Within c) ((tuple us).trees w group) :=
  brings_mapM fun u hu => brings_treeIn h (hus u hu) group

end

end Value

namespace Node

open Value

variable (h : c.Covers w) {t k l r name : Value} {us : List Value}

include h

theorem brings_member (ht : t.IsOperand c) : Brings (·.Within c) (member w t name) := by
  refine Brings.bind (brings_treeAt h ht _) fun e he => ?_
  split
  · split
    · exact brings_error _
    · exact (brings_ok _).2 (.member he _)
  · exact brings_error _

theorem brings_item (ht : t.IsOperand c) (hk : k.IsOperand c) :
    Brings (·.Within c) (item w t k) := by
  refine Brings.bind (brings_treeIn h ht _) fun e he => ?_
  exact Brings.bind (brings_treeIn h hk _) fun f hf => (brings_ok _).2 (.item he hf)

theorem brings_method (ht : t.IsOperand c) (hus : ∀ u ∈ us, u.IsOperand c) :
    Brings (·.Within c) (method w t name (.tuple us)) := by
  refine Brings.bind (brings_treeAt h ht _) fun e he => ?_
  split
  · split
    · exact brings_error _
    · exact Brings.bind (brings_trees h hus _) fun es hes => (brings_ok _).2 (.method he _ hes)
  · exact brings_error _

theorem brings_func (ht : t.IsOperand c) (hus : ∀ u ∈ us, u.IsOperand c) :
    Brings (·.Within c) (func w t (.tuple us)) := by
  refine Brings.bind (brings_treeAt h ht _) fun e he => ?_
  exact Brings.bind (brings_trees h hus _) fun es hes => (brings_ok _).2 (.func he hes)

theorem brings_binaryOf (op : BinaryOp) (hl : l.IsOperand c) (hr : r.IsOperand c) :
    Brings (·.Within c) (binaryOf w op l r) := by
  refine Brings.bind (brings_treeIn h hl _) fun e he => ?_
  exact Brings.bind (brings_treeIn h hr _) fun f hf => (brings_ok _).2 (.binary op he hf)

theorem brings_binary {op : Value} (hl : l.IsOperand c) (hr : r.IsOperand c) :
    Brings (·.Within c) (binary w op l r) := by
  unfold binary
  split
  · split
    · exact brings_binaryOf h _ hl hr
    · exact brings_error _
  · exact brings_error _

theorem brings_seqOf (op : SeqOp) (ht : t.IsOperand c) (hus : ∀ u ∈ us, u.IsOperand c) :
    Brings (·.Within c) (seqOf w op t (.tuple us)) := by
  refine Brings.bind (brings_treeAt h ht _) fun e he => ?_
  refine Brings.bind (brings_trees h hus _) fun es hes f is => ?_
  unfold Expr.makeSeq at is
  split at is
  · cases is
  · split at is
    · cases is
    · cases is
      exact .seq op he hes

end Node

namespace Value

/-! ## What proxies offer -/

theorem treeNames_mem {name : String} (plain : name ∉ treeNames) :
    name ≠ "_expression" ∧ name ≠ "__getattribute__" := by
  simpa [treeNames] using plain

theorem within_proxyOwn {u v : Value} {mark : Nat} {name : String} (hu : u.IsOperand c)
    (plain : name ∉ treeNames) (is : proxyOwn? u mark name = some v) : v.Within c := by
  unfold proxyOwn? at is
  split at is
  · exact absurd rfl (treeNames_mem plain).1
  · cases is
    exact within_type.2 trivial
  · cases is
    exact within_none c
  · obtain ⟨m, -, rfl⟩ := Option.map_eq_some_iff.1 is
    exact within_str c m
  · cases is
    exact within_tuple.2 fun v hv => List.mem_singleton.1 hv ▸ within_str c _
  · cases is
    exact within_str c _
  · split at is
    · cases is
      exact within_method.2 ⟨within_proxy.2 hu, plain⟩
    · cases is

section

variable (h : c.Covers w) {u v : Value} {name : String}

include h

theorem brings_recordBinary (op : BinaryOp) (hu : u.IsOperand c) (hv : v.IsOperand c) :
    Brings (·.Within c) (recordBinary w op u v) :=
  Brings.bind (Node.brings_binaryOf h op hu hv) fun _ he => (brings_ok _).2 (within_ofRecorded.2 he)

theorem brings_recordUnary (op : UnaryOp) (hu : u.IsOperand c) :
    Brings (·.Within c) (recordUnary w op u) :=
  Brings.bind (brings_treeAt h hu _) fun _ he => (brings_ok _).2 (within_ofRecorded.2 (.unary op he))

theorem brings_recordItem {key : Value} (hu : u.IsOperand c) (mark : Nat) (hk : key.Within c) :
    Brings (·.Within c) (readItem w (proxy u mark) key) :=
  Brings.bind (Node.brings_item h hu (recorded_operand hk)) fun _ he =>
    (brings_ok _).2 (within_ofRecorded.2 he)

theorem brings_recordMember {u : Value} (hu : u.IsOperand c) (name : String) :
    Brings (·.Within c) (recordMember w u name) := by
  unfold recordMember
  split
  · exact brings_error _
  · refine Brings.bind (Node.brings_member h hu) fun e he => ?_
    exact (brings_ok _).2 (within_ofRecorded.2 he)

theorem brings_proxyAttribute {u : Value} (hu : u.IsOperand c) (mark : Nat)
    (plain : name ∉ treeNames) : Brings (·.Within c) (proxyAttribute w u mark name) :=
  (brings_elim _ _ _).2 ⟨fun _ => brings_recordMember h hu name,
    fun v is => (brings_ok v).2 (within_proxyOwn hu plain is)⟩

theorem brings_recordSymbol {op left right : Value} (hl : left.IsOperand c)
    (hr : right.IsOperand c) : Brings (·.Within c) (recordSymbol w op left right) :=
  Brings.bind (Node.brings_binary h hl hr) fun _ he => (brings_ok _).2 (within_ofRecorded.2 he)

variable {args : List Value} (hargs : ∀ a ∈ args, a.Within c)

include hargs

theorem brings_applyProxyMethod (hu : u.IsOperand c) (mark : Nat) {name : String}
    (plain : name ∉ treeNames) : Brings (·.Within c) (applyProxyMethod w u mark name args) := by
  unfold applyProxyMethod
  dsimp only
  split
  · exact brings_recordSymbol h hu (recorded_operand (hargs _ (by simp)))
  · exact brings_recordSymbol h (recorded_operand (hargs _ (by simp))) hu
  · exact brings_recordUnary h _ hu
  · exact brings_recordUnary h _ hu
  · exact (brings_bind _ _).2 fun _ _ => (brings_ok _).2 (within_str c _)
  · exact (brings_bind _ _).2 fun _ _ => (brings_ok _).2 (within_str c _)
  · exact (brings_bind _ _).2 fun _ _ => (brings_ok _).2 (within_str c _)
  · exact brings_error _
  · exact brings_error _
  · exact brings_recordMember h hu _
  · exact absurd rfl (treeNames_mem plain).2
  · exact brings_error _
  · exact brings_error _
  · exact brings_recordItem h hu mark (hargs _ (by simp))
  · split
    · exact brings_recordBinary h _ hu (recorded_operand (hargs _ (by simp)))
    · exact brings_recordBinary h _ (recorded_operand (hargs _ (by simp))) hu
    · exact brings_error _
  · exact brings_error _

theorem brings_callProxyMethod (hu : u.IsOperand c) (mark : Nat) {name : String}
    (plain : name ∉ treeNames) : Brings (·.Within c) (callProxyMethod w u mark name args) := by
  unfold callProxyMethod
  split
  · split
    · exact brings_applyProxyMethod h hargs hu mark plain
    · exact brings_error _
  · exact brings_error _

end

theorem there_of_ref {v : Value} {r : Ref} (hv : v.Within c) (is : v.ref? w = some r) :
    c.Has r ∧ c.Holds r := by
  unfold ref? at is
  dsimp only at is
  split at is
  · cases is
    exact within_object.1 hv
  · cases is
    exact ⟨⟨fun since => False.elim since, nofun⟩, fun since => False.elim since⟩
  · split at is
    · cases is
    · cases is
      exact (within_orderedDict.1 hv).2
  · exact absurd hv not_within_closure
  · cases is
    exact (within_function.1 hv).2.2
  · exact absurd hv not_within_expr
  · cases is
    exact ⟨⟨fun since => False.elim since, nofun⟩, fun since => False.elim since⟩
  · cases is
    exact ⟨⟨fun since => False.elim since, nofun⟩, fun since => False.elim since⟩
  · cases is

end Value

/-! ## The realm of a stage -/

/-- The values at hand at a stage of capturing. What computing with them fails with does not matter. -/
def Stage.realm (c : Stage) : Realm where
  Holds v := v.Within c
  Allows _ := True
  hidden := treeNames
  atom h := .atom h
  list := Value.within_list
  tuple := Value.within_tuple
  set := Value.within_set
  dict := Value.within_dict
  entries h := (Value.within_orderedDict.1 h).1
  ordered := Value.within_ofEntries.2
  record := Value.within_record
  builtin _ := Value.within_type.2 trivial
  declared _ := Value.within_type.2 trivial
  recordType _ := Value.within_type.2 trivial
  generic := by simp
  foreign := by simp
  method := Value.within_method
  ordinary _ := trivial
  proxies _ := ⟨Value.within_type.2 trivial, trivial, trivial⟩
  all {v} is h := by
    cases v with
    | expr | typeRef | fieldRef | schema => exact absurd h (by simp)
    | _ => cases is

/-- What is computed of values at hand is at hand. -/
theorem Stage.Covers.realm (h : c.Covers w) : c.realm.Covers w where
  attributes _ _ hv ref := h.object (Value.there_of_ref hv ref).2
  assigned _ _ _ _ hv ref found := h.assigned (Value.there_of_ref hv ref).2 found
  objectType r := Value.within_type.2 (h.objectType r)
  offers _ _ _ offered := h.offers offered
  methods _ _ _ offered := h.method offered
  defaults _ _ hm _ is := h.default hm is
  ancestry _ _ _ among := Value.within_type.2 (among.elim Classes.ancestry_plain Classes.bases_plain)
  records :=
    { left _ _ _ op hu hb :=
        Value.brings_recordBinary h op (Value.within_proxy.1 hu) (Value.recorded_operand hb)
      right _ _ _ op ha hu :=
        Value.brings_recordBinary h op (Value.recorded_operand ha) (Value.within_proxy.1 hu)
      unary _ _ op hu := Value.brings_recordUnary h op (Value.within_proxy.1 hu)
      item _ m _ hu hk := Value.brings_recordItem h (Value.within_proxy.1 hu) m hk
      read _ m _ hu plain := Value.brings_proxyAttribute h (Value.within_proxy.1 hu) m plain
      method _ m _ _ hu plain hargs :=
        Value.brings_callProxyMethod h hargs (Value.within_proxy.1 hu) m plain }

end EntityGraph
