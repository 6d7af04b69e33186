import EntityGraph.Proofs.Request.Entries
import EntityGraph.Proofs.Schema.Reached
import Mathlib.Data.List.Forall2

/-!
# Shapes of arguments

Arguments that have a type and a default each can be described in three ways: by a dictionary of the
defaults, by a record class and by a named tuple. The types, the names that are required and the
values come about in three ways too, but they come to the same. The shapes agree on the types, and
none of them requires a name. So one reading of the raw arguments goes before all three of them, and
they only differ in what the values are put into.
-/

namespace EntityGraph

/-- An argument with its type and its default. -/
structure Argument where
  name : String
  type : HostType
  default : Value

namespace Argument

variable (w : World)

/-- Whether arguments can be described in all three ways: their names are different, and each default
is there already and is an instance of exactly its type. -/
structure AreSound (args : List Argument) : Prop where
  distinct : (args.map (·.name)).Nodup
  exact : ∀ a ∈ args, a.default.typeIn w = a.type
  there : ∀ a ∈ args, a.default.isNew = false

/-- The dictionary of the defaults. -/
def dictionary (args : List Argument) : ArgShape :=
  .defaults (args.map fun a => (.str a.name, a.default))

/-- Whether a member of a class stands for an argument. If its default is made anew for every
instance, nothing in the default is equal only to itself. -/
structure IsMember (a : Argument) (m : MemberDecl) : Prop where
  name : m.name = a.name
  type : m.hint.ofMember.memberType.host = a.type
  own : m.hint.isClassVar = false
  default : m.default = some a.default
  made : m.isMade = true → a.default.renewed = a.default

/-- Whether a class of this kind is made of arguments. -/
def AreMembers (args : List Argument) (kind : ClassKind) (className : String) : Prop :=
  ∃ d, w.classes.find? className = some d ∧ d.kind = kind ∧ d.bases = []
    ∧ List.Forall₂ IsMember args d.members

/-- The value that a raw value for an argument stands for: the missing one for itself, others as the
first scalar for the argument's type translates them, if there is one. -/
def valueOf (r : Registry) (args : List Argument) (name : String) (raw : Value) : Making Value :=
  if raw.isNone then return .none
  else
    match (args.find? (·.name == name)).bind fun a => r.find? (·.host == a.type) with
    | some e => e.translateRaw w raw
    | none => return raw

/-- The names of raw arguments under which there is no argument. -/
def unexpected (args : List Argument) (raw : List (String × Value)) : List String :=
  (raw.map (·.1)).filter fun n => !(args.map (·.name)).contains n

/-- The values that raw arguments stand for, one after the other. Names of no arguments are refused. -/
def readAll (r : Registry) (args : List Argument) (raw : List (String × Value)) :
    Making (List (String × Value)) := do
  if !(unexpected args raw).isEmpty then
    throw (.unexpectedArguments (sortedNames (unexpected args raw))
      (args.map fun a => .str a.name))
  raw.mapM fun (n, v) => do return (n, ← valueOf w r args n v)

/-- The values of all arguments: what was given, and the defaults of what was not. -/
def values (args : List Argument) (given : List (String × Value)) : List (String × Value) :=
  args.map fun a => (a.name, (given.lookup a.name).getD a.default)

theorem values_cons (a : Argument) (args : List Argument) (given : List (String × Value)) :
    values (a :: args) given = (a.name, (given.lookup a.name).getD a.default) :: values args given :=
  rfl

theorem names_values (args : List Argument) (given : List (String × Value)) :
    (values args given).map (·.1) = args.map (·.name) := by
  rw [values, List.map_map]
  rfl

end Argument

/-! ## Classes without bases -/

namespace Classes

variable {cs : Classes} {name : String} {d : ClassDecl}

theorem lineage_of_root (found : cs.find? name = some d) (root : d.bases = []) :
    cs.orderOf (cs.length + 1) name = [name] ∧ cs.lineage name = [d] := by
  have order : cs.orderOf (cs.length + 1) name = [name] := by
    rw [orderOf, found]
    simp [root, mergeOrders, nextHead]
  refine ⟨order, ?_⟩
  rw [lineage, order]
  simp [found]

/-- Members with different names all keep their places. -/
theorem foldl_putMember (found : List MemberDecl) {ms : List MemberDecl}
    (distinct : ((found ++ ms).map (·.name)).Nodup) :
    ms.foldl putMember found = found ++ ms := by
  induction ms generalizing found with
  | nil => simp
  | cons m ms ih =>
    have new : found.any (·.name == m.name) = false := by
      rw [List.any_eq_false]
      intro n hn same
      rw [List.map_append, List.nodup_append] at distinct
      exact distinct.2.2 n.name (List.mem_map_of_mem hn) m.name (by simp) (by simpa using same)
    have put : putMember found m = found ++ [m] := by
      rw [putMember, new]
      rfl
    rw [List.foldl_cons, put, ih _ (by simpa using distinct), List.append_assoc]
    rfl

theorem allMembers_of_root (found : cs.find? name = some d) (root : d.bases = [])
    (distinct : (d.members.map (·.name)).Nodup) : cs.allMembers name = d.members := by
  rw [allMembers, (lineage_of_root found root).2]
  simpa using foldl_putMember [] (by simpa using distinct)

theorem kindOf_of_root (found : cs.find? name = some d) (root : d.bases = []) :
    cs.kindOf name = d.kind := by
  rw [kindOf, (lineage_of_root found root).2]
  cases kind : d.kind <;> simp [kind]

end Classes

namespace Argument

variable {w : World} {args : List Argument} {kind : ClassKind} {className : String}

theorem map_of_members {α : Type} {ms : List MemberDecl} {f : MemberDecl → α} {g : Argument → α}
    (members : List.Forall₂ IsMember args ms)
    (each : ∀ a ∈ args, ∀ m ∈ ms, IsMember a m → f m = g a) : ms.map f = args.map g := by
  induction members with
  | nil => rfl
  | cons first _ ih =>
    rw [List.map_cons, List.map_cons, each _ (by simp) _ (by simp) first,
      ih fun a ha m hm => each a (by simp [ha]) m (by simp [hm])]

theorem names_of_members {ms : List MemberDecl} (members : List.Forall₂ IsMember args ms) :
    ms.map (·.name) = args.map (·.name) :=
  map_of_members members fun _ _ _ _ is => is.name

theorem isMember_of_mem {ms : List MemberDecl} (members : List.Forall₂ IsMember args ms)
    {m : MemberDecl} (hm : m ∈ ms) : ∃ a ∈ args, IsMember a m := by
  induction members with
  | nil => cases hm
  | @cons a m' as ms first _ ih =>
    rcases List.mem_cons.1 hm with rfl | hm
    · exact ⟨a, by simp, first⟩
    · obtain ⟨a', ha', is⟩ := ih hm
      exact ⟨a', by simp [ha'], is⟩

/-- What is needed of a class whose fields are arguments. -/
structure Describes (w : World) (args : List Argument) (className : String) : Prop where
  kind : w.classes.kindOf className = .record ∨ w.classes.kindOf className = .namedTuple
  all : w.classes.allMembers className = w.classes.fields className
  members : List.Forall₂ IsMember args (w.classes.fields className)

theorem AreMembers.describes (members : AreMembers w args kind className)
    (distinct : (args.map (·.name)).Nodup) (fit : kind = .record ∨ kind = .namedTuple) :
    Describes w args className := by
  obtain ⟨d, found, rfl, root, each⟩ := members
  rw [← names_of_members each] at distinct
  have own : w.classes.kindOf className = d.kind := Classes.kindOf_of_root found root
  obtain ⟨order, lineage⟩ := Classes.lineage_of_root found root
  have fields : w.classes.fields className = d.members := by
    rw [Classes.fields, own]
    rcases fit with is | is
    · have defaults : d.members.map (w.classes.withDefault className) = d.members := by
        refine (List.map_congr_left fun m hm => ?_).trans (List.map_id _)
        obtain ⟨a, _, is⟩ := isMember_of_mem each hm
        rw [Classes.withDefault, is.default]
        rfl
      have declared : w.classes.recordFields (w.classes.length + 1) className = d.members := by
        rw [Classes.recordFields, order, found]
        simp only [is, List.drop_succ_cons, List.drop_nil, beq_self_eq_true, if_true,
          List.reverse_nil, List.flatMap_nil, List.nil_append, defaults]
        exact Classes.foldl_putMember [] (by simpa using distinct)
      simp only [is, declared]
      refine List.filter_eq_self.2 fun m hm => ?_
      obtain ⟨a, _, is⟩ := isMember_of_mem each hm
      rw [is.own]
      rfl
    · rw [is, lineage]
      simp [is]
  refine ⟨own ▸ fit, ?_, fields ▸ each⟩
  rw [fields, Classes.allMembers_of_root found root distinct]

end Argument

namespace ArgShape

open Argument

variable {w : World} {args : List Argument} {c : String}

/-! ## What the shapes say -/

/-- Whether the types of a shape are those of arguments, and it requires none of them. -/
structure Tells (w : World) (args : List Argument) (shape : ArgShape) : Prop where
  given : shape ≠ none
  types : shape.types w = .ok (args.map fun a => (.str a.name, a.type))
  required : shape.required w = []

theorem tells_dictionary (sound : AreSound w args) : Tells w args (dictionary args) := by
  refine ⟨nofun, ?_, rfl⟩
  show Except.ok ((args.map _).map _) = _
  rw [List.map_map]
  refine congrArg Except.ok (List.map_congr_left fun a ha => ?_)
  rw [← sound.exact a ha]
  rfl

theorem tells_fieldsOf (sound : AreSound w args) (describes : Describes w args c) :
    Tells w args (fieldsOf c) := by
  have distinct := sound.distinct
  rw [← names_of_members describes.members] at distinct
  refine ⟨nofun, ?_, ?_⟩
  · have fit : hasFields w c = true := by
      unfold hasFields
      rcases describes.kind with is | is <;> rw [is]
    rw [types, if_pos fit]
    refine congrArg Except.ok (map_of_members describes.members fun a _ m hm is => ?_)
    rw [hintedHost, describes.all, find?_of_nodup distinct hm, is.name]
    exact congrArg _ is.type
  · rw [required, List.map_eq_nil_iff, List.filter_eq_nil_iff]
    intro m hm
    obtain ⟨a, _, is⟩ := isMember_of_mem describes.members hm
    simp [is.default]

/-! ## Reading raw arguments -/

theorem typeOf?_eq (args : List Argument) (name : String) :
    typeOf? (args.map fun a => (.str a.name, a.type)) name
      = (args.find? (·.name == name)).map (·.type) := by
  have same : ((fun p : Value × HostType => p.1.text? == some name)
      ∘ fun a : Argument => (.str a.name, a.type)) = fun a => a.name == name := by
    funext a
    simp [Value.text?]
  rw [typeOf?, List.find?_map, same, Option.map_map]
  rfl

theorem isNone_typeOf? (args : List Argument) (name : String) :
    (typeOf? (args.map fun a => (.str a.name, a.type)) name).isNone
      = !(args.map (·.name)).contains name := by
  rw [typeOf?_eq, Bool.eq_iff_iff]
  simp [List.find?_eq_none]

theorem bindOne_eq (r : Registry) {name : String} (known : name ∈ args.map (·.name)) (raw : Value) :
    bindOne w r (args.map fun a => (.str a.name, a.type)) name raw = valueOf w r args name raw := by
  obtain ⟨a, ha, rfl⟩ := List.mem_map.1 known
  obtain ⟨b, found⟩ := Option.isSome_iff_exists.1
    (List.find?_isSome (p := (·.name == a.name)) |>.2 ⟨a, ha, beq_self_eq_true _⟩)
  rw [bindOne, valueOf, typeOf?_eq, found]
  rfl

theorem mapM_congr {σ α β : Type} {f g : α → ExceptT Fault (StateM σ) β} {as : List α}
    (each : ∀ a ∈ as, f a = g a) : as.mapM f = as.mapM g := by
  induction as with
  | nil => rfl
  | cons a as ih =>
    rw [List.forall_mem_cons] at each
    rw [List.mapM_cons, List.mapM_cons, each.1, ih each.2]

theorem known_of_expected {raw : List (String × Value)} (expected : unexpected args raw = [])
    {e : String × Value} (he : e ∈ raw) : e.1 ∈ args.map (·.name) := by
  have := List.filter_eq_nil_iff.1 expected e.1 (List.mem_map_of_mem he)
  simpa using this

theorem Tells.check {shape : ArgShape} (tells : Tells w args shape) (raw : List (String × Value)) :
    shape.check w (args.map fun a => (.str a.name, a.type)) raw
      = if !(unexpected args raw).isEmpty then
          .error (.unexpectedArguments (sortedNames (unexpected args raw))
            (args.map fun a => .str a.name))
        else .ok () := by
  unfold ArgShape.check
  simp only [tells.required, isNone_typeOf?, List.map_map, List.filter_nil, List.isEmpty_nil,
    Bool.not_true, Bool.false_eq_true, if_false]
  rfl

/-- Every shape that tells the types of arguments reads raw arguments alike before it is built. -/
theorem Tells.bind {shape : ArgShape} (tells : Tells w args shape) (r : Registry)
    (raw : List (String × Value)) :
    shape.bind w r raw = (do shape.build w (← readAll w r args raw)) := by
  have steps : shape.bind w r raw = (do
      let types ← shape.types w
      shape.check w types raw
      let bound ← raw.mapM fun (n, v) => do return (n, ← bindOne w r types n v)
      shape.build w bound) := by
    cases shape with
    | none => exact absurd rfl tells.given
    | defaults es => rfl
    | fieldsOf c => rfl
    | unsupported v => rfl
  rw [steps, tells.types, liftM_ok_bind, tells.check]
  unfold readAll
  by_cases refused : (!(unexpected args raw).isEmpty) = true
  · rw [if_pos refused, if_pos refused, liftM_error_bind]
    rfl
  · rw [if_neg refused, if_neg refused, liftM_ok_bind]
    have expected : unexpected args raw = [] := by simpa using refused
    congr 1
    refine mapM_congr fun (n, v) he => ?_
    simp only [bindOne_eq r (known_of_expected expected he)]

/-! ## What the shapes are built into -/

theorem build_dictionary (args : List Argument) (given : List (String × Value)) (t : Trail) :
    runOn ((dictionary args).build w given) t
      = (.ok (.orderedDict (Value.entriesOf (values args given)) (t.supply + 1)),
          { t with supply := t.supply + 1 }) := by
  have entries : (args.map fun a => (Value.str a.name, a.default)).map
      (fun e => (e.1, (e.1.text?.bind fun m => given.lookup m).getD e.2))
      = Value.entriesOf (values args given) := by
    rw [Value.entriesOf, values, List.map_map, List.map_map]
    rfl
  show runOn (Value.owned (.ofEntries ((args.map fun a => (Value.str a.name, a.default)).map
    fun e => (e.1, (e.1.text?.bind fun m => given.lookup m).getD e.2)))) t = _
  rw [entries]
  rfl

/-- A field has its default unless it is given a value, also if the default is made anew. -/
theorem runOn_filledFields {ms : List MemberDecl} (members : List.Forall₂ IsMember args ms)
    (there : ∀ a ∈ args, a.default.isNew = false) (given : List (String × Value)) (t : Trail) :
    runOn (Value.filledFields ms given) t = (.ok (values args given), t) := by
  induction members with
  | nil => rfl
  | @cons a m as ms first _ ih =>
    rw [List.forall_mem_cons] at there
    have same : (if m.isMade then a.default.renewed else a.default) = a.default := by
      split
      · next made => exact first.made made
      · rfl
    have own : runOn (Value.own (.ok (if m.isMade then a.default.renewed else a.default))) t
        = (.ok a.default, t) := by
      rw [same]
      show runOn (if a.default.isNew then _ else _) t = _
      rw [there.1]
      rfl
    have later := ih there.2
    rw [Value.filledFields] at later ⊢
    rw [List.mapM_cons]
    simp only [first.default, first.name]
    cases found : given.lookup a.name with
    | some v =>
      simp only []
      rw [runOn_bind_ok (runOn_pure _ t), runOn_bind_ok later, values_cons, found]
      rfl
    | none =>
      simp only [bind_assoc]
      rw [runOn_bind_ok own, runOn_bind_ok (runOn_pure _ t), runOn_bind_ok later, values_cons, found]
      rfl

theorem known_of_read {r : Registry} {raw given : List (String × Value)} {t t' : Trail}
    (read : runOn (readAll w r args raw) t = (.ok given, t')) {e : String × Value} (he : e ∈ given) :
    e.1 ∈ args.map (·.name) := by
  unfold readAll at read
  split at read
  · cases read
  · next expected =>
    obtain ⟨⟨n, v⟩, hv, u, u', made⟩ := mapM_mem read he
    obtain ⟨_, _, _, made⟩ := bind_eq_ok made
    cases made
    exact known_of_expected (e := (n, v)) (by simpa using expected) hv

theorem build_fieldsOf (sound : AreSound w args) (describes : Describes w args c)
    {given : List (String × Value)} (known : ∀ e ∈ given, e.1 ∈ args.map (·.name)) (t : Trail) :
    runOn ((fieldsOf c).build w given) t
      = (.ok (.object (.made (t.supply + 1))),
          { t with
            supply := t.supply + 1
            memory := t.memory.insert (.made (t.supply + 1)) ⟨.declared c, values args given⟩ }) := by
  have fit : given.any (fun (n, _) => !(w.classes.fields c).any (·.name == n)) = false := by
    rw [List.any_eq_false]
    rintro ⟨n, v⟩ he
    have among := known _ he
    rw [← names_of_members describes.members] at among
    obtain ⟨m, hm, is⟩ := List.mem_map.1 among
    simp only [Bool.not_eq_true, Bool.not_eq_false', List.any_eq_true, beq_iff_eq]
    exact ⟨m, hm, is⟩
  have fields := runOn_filledFields describes.members sound.there given t
  have made : runOn (do
      if given.any fun (n, _) => !(w.classes.fields c).any (·.name == n) then
        throw (.wrongType "got an unexpected keyword argument")
      Making.newObject (.declared c) (← Value.filledFields (w.classes.fields c) given)) t
      = (.ok (.object (.made (t.supply + 1))),
          { t with
            supply := t.supply + 1
            memory := t.memory.insert (.made (t.supply + 1)) ⟨.declared c, values args given⟩ }) := by
    rw [if_neg (by rw [fit]; exact Bool.false_ne_true), runOn_bind_ok fields]
    rfl
  show runOn (Value.makeInstance w c given) t = _
  unfold Value.makeInstance
  rcases describes.kind with is | is <;> rw [is] <;> exact made

end ArgShape

/-- The fields of an instance that was just made of a class made of arguments. -/
theorem World.objectFields_made {w : World} {args : List Argument} {c : String}
    (distinct : (args.map (·.name)).Nodup) (describes : Argument.Describes w args c)
    {given : List (String × Value)} {r : Ref}
    (is : w.object r = ⟨.declared c, Argument.values args given⟩) :
    w.objectFields r = Argument.values args given := by
  have nodup : ((Argument.values args given).map (·.1)).Nodup := by
    rwa [Argument.names_values]
  have each : w.objectMembers r
      = args.map fun a => (a.name, some ((given.lookup a.name).getD a.default)) := by
    unfold objectMembers
    rw [is]
    refine Argument.map_of_members describes.members fun a ha m _ member => ?_
    have here : (Argument.values args given).lookup m.name
        = some ((given.lookup a.name).getD a.default) := by
      rw [lookup_eq_some_iff nodup, member.name]
      exact List.mem_map_of_mem ha
    rw [fieldValue?, here, member.name]
  rw [objectFields, each, List.filterMap_map, Argument.values, ← List.filterMap_eq_map]
  rfl

open Argument ArgShape in
/-- The three shapes of arguments bind alike. What the raw arguments are read as does not depend on the
shape, and neither does the failure to read them. From what was read, each argument has the value that
it was given or else its default: as the entries of a dictionary, in the order of the shape, and as
the fields of an instance of either class. -/
theorem shapes_bind_alike (w : World) (r : Registry) {args : List Argument}
    (sound : AreSound w args) {recordClass tupleClass : String}
    (record : AreMembers w args .record recordClass)
    (tuple : AreMembers w args .namedTuple tupleClass) (raw : List (String × Value)) (t : Trail) :
    match runOn (readAll w r args raw) t with
    | (.error f, t') =>
      ∀ shape ∈ [dictionary args, .fieldsOf recordClass, .fieldsOf tupleClass],
        runOn (shape.bind w r raw) t = (.error f, t')
    | (.ok given, t') =>
      runOn ((dictionary args).bind w r raw) t
          = (.ok (.orderedDict (Value.entriesOf (values args given)) (t'.supply + 1)),
              { t' with supply := t'.supply + 1 })
        ∧ ∀ c ∈ [recordClass, tupleClass], ∃ i u,
            runOn ((fieldsOf c).bind w r raw) t = (.ok (.object i), u)
              ∧ ((w.after u).object i).type = .declared c
              ∧ (w.after u).objectFields i = values args given := by
  have asRecord := record.describes sound.distinct (.inl rfl)
  have asTuple := tuple.describes sound.distinct (.inr rfl)
  have tells : ∀ shape ∈ [dictionary args, .fieldsOf recordClass, .fieldsOf tupleClass],
      Tells w args shape := by
    simp only [List.forall_mem_cons]
    exact ⟨tells_dictionary sound, tells_fieldsOf sound asRecord, tells_fieldsOf sound asTuple,
      nofun⟩
  cases read : runOn (readAll w r args raw) t with
  | mk result t' =>
    cases result with
    | error f =>
      intro shape among
      rw [(tells shape among).bind, runOn_bind_error read]
    | ok given =>
      refine ⟨?_, fun c among => ?_⟩
      · rw [(tells _ (by simp)).bind, runOn_bind_ok read, build_dictionary]
      · have describes : Describes w args c := by
          rcases List.mem_cons.1 among with rfl | among
          · exact asRecord
          · exact List.mem_singleton.1 among ▸ asTuple
        rw [(tells_fieldsOf sound describes).bind, runOn_bind_ok read,
          build_fieldsOf sound describes fun e he => known_of_read read he]
        refine ⟨_, _, rfl, ?_⟩
        have is : (w.after { t' with
            supply := t'.supply + 1
            memory := t'.memory.insert (.made (t'.supply + 1)) ⟨.declared c, values args given⟩
            }).object (.made (t'.supply + 1)) = ⟨.declared c, values args given⟩ := by
          simp [World.object, World.after, Memory.insert]
        refine ⟨congrArg ObjectDecl.type is, ?_⟩
        exact World.objectFields_made (w := w.after _) sound.distinct
          ⟨describes.kind, describes.all, describes.members⟩ is

/-- The arguments of a search in the example. -/
def searchArguments : List Argument :=
  [⟨"title", .builtin .str, .str ""⟩, ⟨"size", .builtin .int, .int 10⟩,
    ⟨"author", .builtin .str, .str "Ann"⟩]

/-- A class of this kind made of the arguments of a search. -/
def searchClass (kind : ClassKind) (name : String) : ClassDecl :=
  { name, kind, bases := []
    members := searchArguments.map fun a => ⟨a.name, .type a.type, some a.default, false⟩
    properties := [], methods := [], columns := [], relationships := [] }

/-- A search for its size and for a title that is missing, in all three shapes. -/
theorem search_binds_alike :
    let w : World :=
      { (default : World) with
        classes := [searchClass .record "Search", searchClass .namedTuple "SearchTuple"] }
    let raw : List (String × Value) := [("size", .int 3), ("title", .none)]
    let found : List (String × Value) :=
      [("title", .none), ("size", .int 3), ("author", .str "Ann")]
    (∃ u, runOn ((Argument.dictionary searchArguments).bind w Registry.standard raw) ⟨0, [], []⟩
        = (.ok (.orderedDict (Value.entriesOf found) 1), u))
      ∧ ∀ c ∈ ["Search", "SearchTuple"], ∃ i u,
          runOn ((ArgShape.fieldsOf c).bind w Registry.standard raw) ⟨0, [], []⟩
              = (.ok (.object i), u)
            ∧ (w.after u).objectFields i = found := by
  intro w raw found
  have sound : Argument.AreSound w searchArguments := by
    constructor
    · decide
    · simp only [searchArguments, List.forall_mem_cons]
      exact ⟨rfl, rfl, rfl, nofun⟩
    · simp only [searchArguments, List.forall_mem_cons]
      exact ⟨rfl, rfl, rfl, nofun⟩
  have members (kind : ClassKind) (c : String)
      (is : w.classes.find? c = some (searchClass kind c)) :
      Argument.AreMembers w searchArguments kind c := by
    refine ⟨_, is, rfl, rfl, ?_⟩
    refine List.forall₂_map_right_iff.2 (List.forall₂_same.2 fun a _ => ?_)
    exact ⟨rfl, rfl, rfl, rfl, nofun⟩
  have alike := shapes_bind_alike w Registry.standard sound
    (members .record "Search" rfl) (members .namedTuple "SearchTuple" rfl) raw ⟨0, [], []⟩
  have read : runOn (Argument.readAll w Registry.standard searchArguments raw) ⟨0, [], []⟩
      = (.ok [("size", .int 3), ("title", .none)], ⟨0, [], []⟩) := by
    rfl
  rw [read] at alike
  obtain ⟨dictionary, instances⟩ := alike
  refine ⟨⟨_, dictionary⟩, fun c hc => ?_⟩
  obtain ⟨i, u, made, _, fields⟩ := instances c hc
  exact ⟨i, u, made, fields⟩

end EntityGraph
