import EntityGraph.Proofs.Request.Steady

/-!
# Requests do not disturb each other

Once a schema is complete, declarations are refused and requests leave all that is declared as it is.
What requests do leave behind is what the functions of the application made and assigned. If these are
pure, a request is answered in the same way whatever was requested and refused before it.
-/

namespace EntityGraph

open Remembering (memory)

instance : Remembering Usage := ⟨fun u => u.trail.memory⟩

/-! ## Requests -/

theorem Document.readValid_becomes {w u : World} {later : Memory → Memory → Prop}
    (hu : w.Becomes later u) (source : String) : readValid u source = readValid w source := by
  obtain ⟨n, hosts, same⟩ := hu.schema
  unfold readValid
  rw [same]

/-- Whether a document asks for a query with a name, in a world that takes it for valid. -/
def Document.Asks (w : World) (source : String) (vars : Variables) (name : String) : Prop :=
  ∃ d o roots, readValid w source = .ok d ∧ query d = .ok o
    ∧ collect (fragments d) vars o.selections = .ok roots
    ∧ ∃ f ∈ roots, f.name = name ∧ name ≠ Schema.typeNameName

section

variable {w : World} {L : Likeness w}

/-- Values of a query with one of these names, which cannot be told apart. -/
def AkinResult (L : Likeness w) (asked : String → Prop) (v : Value) (m : Memory) (v' : Value)
    (m' : Memory) : Prop :=
  ∃ q ∈ w.schema.queries, asked q.name
    ∧ Akin L m m' (!(w.schema.typeOf q.host).isScalar) q.host q.isList v v'

/-- Results under the same names, which cannot be told apart. -/
def AkinResults (L : Likeness w) (asked : String → Prop) (es : List (String × Value)) (m : Memory)
    (es' : List (String × Value)) (m' : Memory) : Prop :=
  Paired (fun _ v v' => v = v' ∨ AkinResult L asked v m v' m') es es'

variable {asked : String → Prop}

theorem AkinResult.lasts {v v' : Value} {m m' n n' : Memory} (h : AkinResult L asked v m v' m')
    (hn : L.later m n) (hn' : L.later m' n') : AkinResult L asked v n v' n' := by
  obtain ⟨q, declared, isAsked, akin⟩ := h
  exact ⟨q, declared, isAsked, akin.lasts hn hn'⟩

theorem lasting_akinResults : Lasting L.later (AkinResults L asked) := by
  intro es m es' m' n n' hn hn' h
  refine h.imp fun e e' paired => ⟨paired.1, ?_⟩
  rcases paired.2 with same | akin
  · exact .inl same
  · exact .inr (akin.lasts hn hn')

variable {context : Value} {u u' : World} {n n' : Memory}

namespace Requesting

theorem steady_making {α β : Type} {Q : α → Memory → β → Memory → Prop} {x : Making α}
    {y : Making β} (h : Steady L.later n n' Q x y) : Steady L.later n n' Q (making x) (making y) := by
  intro t t' ht ht'
  rw [runOn_making, runOn_making]
  exact h t.trail t'.trail ht ht'

theorem steady_useContext :
    Steady L.later n n' (fun _ _ _ _ => True) useContext useContext :=
  steady_of_ok fun _ _ _ _ => ⟨⟨⟩, ⟨⟩, _, _, ⟨rfl, rfl⟩, ⟨rfl, rfl⟩, trivial⟩

theorem steady_ensureCompleted (sealed : Sealed u) (sealed' : Sealed u') :
    Steady L.later n n' (fun _ _ _ _ => True) (ensureCompleted u) (ensureCompleted u') := by
  unfold ensureCompleted
  rw [sealed.completed, sealed'.completed]
  exact steady_pure fun _ _ _ _ => trivial

end Requesting

variable (sealed : Sealed u) (sealed' : Sealed u') (orderly : Orderly u.schema.types)
  (orderly' : Orderly u'.schema.types) (hu : w.Becomes L.later u) (hu' : w.Becomes L.later u')
  (hn : L.later u.memory n) (hn' : L.later u'.memory n') (pure : w.Pure L context asked)

include sealed sealed' orderly orderly' hu hu' hn hn' pure

theorem World.steady_executeQuery {name : String} (isAsked : asked name)
    (args : List (String × Value)) (selections : List Selected) (paging : Paging) :
    Steady L.later n n' (AkinResult L asked) (u.executeQuery context name args selections paging)
      (u'.executeQuery context name args selections paging) := by
  unfold executeQuery
  refine steady_bind (Requesting.steady_ensureCompleted sealed sealed') fun _ _ k k' hk hk' _ => ?_
  refine steady_bind Requesting.steady_useContext fun _ _ l l' hl hl' _ => ?_
  refine Requesting.steady_making ?_
  refine (steady_runQuery sealed sealed' orderly orderly' hu hu'
    (IsTrans.trans _ _ _ hn (IsTrans.trans _ _ _ hk hl))
    (IsTrans.trans _ _ _ hn' (IsTrans.trans _ _ _ hk' hl')) pure isAsked args selections
    paging).mono fun v i v' i' _ _ akin => ?_
  obtain ⟨q, declared, rfl, akin⟩ := akin
  exact ⟨q, declared, isAsked, akin⟩

theorem Document.steady_rootValue (d : Document) (vars : Variables) (f : FieldNode)
    (isAsked : f.name ≠ Schema.typeNameName → asked f.name) :
    Steady L.later n n' (fun v k v' k' => v = v' ∨ AkinResult L asked v k v' k')
      (rootValue u context d vars f) (rootValue u' context d vars f) := by
  unfold rootValue
  refine steady_ite Iff.rfl (fun _ _ => steady_pure fun _ _ _ _ => .inl rfl) fun other _ => ?_
  refine steady_bind (Q := fun a _ b _ => a = b)
    (steady_outcome fun _ _ _ _ => matches_refl _ fun _ _ => rfl) fun nodes _ k k' hk hk' same => ?_
  subst same
  refine steady_bind (Q := fun a _ b _ => a = b)
    (steady_outcome fun _ _ _ _ => matches_refl _ fun _ _ => rfl)
    fun children _ l l' hl hl' same => ?_
  subst same
  have named := isAsked (by simpa using other)
  refine (World.steady_runQuery sealed sealed' orderly orderly' hu hu'
    (IsTrans.trans _ _ _ hn (IsTrans.trans _ _ _ hk hl))
    (IsTrans.trans _ _ _ hn' (IsTrans.trans _ _ _ hk' hl')) pure named _ _ _).mono
    fun v i v' i' _ _ akin => ?_
  obtain ⟨q, declared, is, akin⟩ := akin
  exact .inr ⟨q, declared, is ▸ named, akin⟩

theorem World.steady_executeDocument (source : String) (vars : Document.Variables)
    (isAsked : ∀ name, Document.Asks w source vars name → asked name) :
    Steady L.later n n' (AkinResults L asked) (u.executeDocument context source vars)
      (u'.executeDocument context source vars) := by
  unfold executeDocument
  rw [Document.readValid_becomes hu, Document.readValid_becomes hu']
  refine steady_bind (Requesting.steady_ensureCompleted sealed sealed') fun _ _ j j' hj hj' _ => ?_
  refine steady_bind (Q := fun a _ b _ => a = b ∧ Document.readValid w source = .ok a)
    (steady_outcome fun _ _ _ _ => matches_refl _ fun _ valid => ⟨rfl, valid⟩)
    fun d _ k k' hk hk' same => ?_
  obtain ⟨rfl, valid⟩ := same
  refine steady_bind (Q := fun a _ b _ => a = b ∧ Document.query d = .ok a)
    (steady_outcome fun _ _ _ _ => matches_refl _ fun _ query => ⟨rfl, query⟩)
    fun o _ l l' hl hl' same => ?_
  obtain ⟨rfl, query⟩ := same
  refine steady_bind Requesting.steady_useContext fun _ _ i i' hi hi' _ => ?_
  refine steady_bind (Q := fun a _ b _ =>
      a = b ∧ Document.collect (Document.fragments d) vars o.selections = .ok a)
    (steady_outcome fun _ _ _ _ => matches_refl _ fun _ collected => ⟨rfl, collected⟩)
    fun roots _ g g' hg hg' same => ?_
  obtain ⟨rfl, collected⟩ := same
  have now := IsTrans.trans _ _ _ hn (IsTrans.trans _ _ _ hj (IsTrans.trans _ _ _ hk
    (IsTrans.trans _ _ _ hl (IsTrans.trans _ _ _ hi hg))))
  have now' := IsTrans.trans _ _ _ hn' (IsTrans.trans _ _ _ hj' (IsTrans.trans _ _ _ hk'
    (IsTrans.trans _ _ _ hl' (IsTrans.trans _ _ _ hi' hg'))))
  refine steady_foldlM lasting_akinResults (fun f among found found' r r' hr hr' akin => ?_) .nil
  have known : f.name ≠ Schema.typeNameName → asked f.name := fun other =>
    isAsked _ ⟨d, o, roots, valid, query, collected, f, among, rfl, other⟩
  refine steady_bind (Requesting.steady_making (Document.steady_rootValue sealed sealed' orderly
    orderly' hu hu' (IsTrans.trans _ _ _ now hr) (IsTrans.trans _ _ _ now' hr') pure d vars f known))
    fun v v' c c' hc hc' value => ?_
  have paired : Paired (fun _ v v' => v = v' ∨ AkinResult L asked v c v' c') found found' :=
    lasting_akinResults _ _ _ _ _ _ hc hc' akin
  exact steady_pure fun b b' hb hb' =>
    lasting_akinResults _ _ _ _ _ _ hb hb' (paired.putNamed value)

end

/-! ## Sessions -/

/-- The requests for queries with these names, for a context. -/
inductive Event.Sends (w : World) (context : Value) (asked : String → Prop) : Event → Prop
  | execute {name : String} {args : List (String × Value)} {selections : List Selected}
      {paging : Paging} (isAsked : asked name) :
      Sends w context asked (.execute context name args selections paging)
  | document {source : String} {vars : Document.Variables}
      (isAsked : ∀ name, Document.Asks w source vars name → asked name) :
      Sends w context asked (.document context source vars)

/-- Answers to requests, which cannot be told apart. -/
inductive AkinAnswer {w : World} (L : Likeness w) (m m' : Memory) : Answer → Answer → Prop
  | value {v v' : Value} (akin : AkinResult L (fun _ => True) v m v' m') :
      AkinAnswer L m m' (.value v) (.value v')
  | results {es es' : List (String × Value)} (akin : AkinResults L (fun _ => True) es m es' m') :
      AkinAnswer L m m' (.results es) (.results es')

theorem AkinResult.eq {w : World} {L : Likeness w} (equality : L.IsEquality)
    {asked : String → Prop} {v v' : Value} {m m' : Memory} (h : AkinResult L asked v m v' m') :
    v = v' := by
  obtain ⟨q, _, _, akin⟩ := h
  exact akin.eq equality

theorem AkinAnswer.eq {w : World} {L : Likeness w} (equality : L.IsEquality) {m m' : Memory}
    {a a' : Answer} (h : AkinAnswer L m m' a a') : a = a' := by
  cases h with
  | value akin => rw [akin.eq equality]
  | results akin =>
    have same : ∀ {es es' : List (String × Value)},
        Paired (fun _ v v' => v = v' ∨ AkinResult L (fun _ => True) v m v' m') es es' →
          es = es' := by
      intro es es' paired
      refine List.forall₂_eq_eq_eq ▸ paired.imp fun e e' both => ?_
      obtain ⟨name, same | akin⟩ := both
      · exact Prod.ext name same
      · exact Prod.ext name (akin.eq equality)
    rw [same akin]

theorem Matches.told_eq {α : Type} {Q : α → α → Prop} {x y : Outcome α} (h : Matches Q x y)
    (eq : ∀ a b, Q a b → a = b) : told x = told y := by
  cases x <;> cases y
  · exact congrArg Except.error h
  · cases h
  · cases h
  · exact congrArg Except.ok (eq _ _ h)

namespace Session

variable {w : World} {L : Likeness w} {context : Value} {asked : String → Prop} {s s' : Session}

/-- What becomes of a world by a request is what becomes of its memory. -/
theorem becomes_following (hs : w.Becomes L.later s.world) {t : Trail}
    (ht : L.later s.world.memory t.memory) : w.Becomes L.later (s.world.following t) := by
  refine ⟨IsTrans.trans _ _ _ hs.schema ⟨t.supply, s.world.schema.adHoc, rfl⟩, hs.classes, hs.objects,
    IsTrans.trans _ _ _ hs.memory ht⟩

theorem steady_requesting {α : Type} {Q : α → Memory → α → Memory → Prop}
    {R : Memory → Memory → Answer → Answer → Prop} (hs : w.Becomes L.later s.world)
    (hs' : w.Becomes L.later s'.world) {x : World → Requesting α} {f : α → Answer}
    (steady : Steady L.later s.world.memory s'.world.memory Q (x s.world) (x s'.world))
    (sub : ∀ {a m b m'}, Q a m b m' → R m m' (f a) (f b)) :
    w.Becomes L.later (runOn (f <$> requesting x) s).2.world
      ∧ w.Becomes L.later (runOn (f <$> requesting x) s').2.world
      ∧ Matches (R (runOn (f <$> requesting x) s).2.world.memory
          (runOn (f <$> requesting x) s').2.world.memory)
        (runOn (f <$> requesting x) s).1 (runOn (f <$> requesting x) s').1 := by
  rw [runOn_map, runOn_map, runOn_requesting, runOn_requesting]
  obtain ⟨after, after', both⟩ := steady ⟨s.contexts, s.world.trail⟩ ⟨s'.contexts, s'.world.trail⟩
    (Std.Refl.refl _) (Std.Refl.refl _)
  exact ⟨becomes_following hs after, becomes_following hs' after', both.map fun _ _ => sub⟩

/-- A request to a pure application cannot tell what was done before. -/
theorem steady_act (pure : w.Pure L context asked) (reached : s.world.IsReached)
    (reached' : s'.world.IsReached) (completed : w.schema.completed = true)
    (hs : w.Becomes L.later s.world) (hs' : w.Becomes L.later s'.world) {e : Event}
    (sends : e.Sends w context asked) :
    w.Becomes L.later (runOn e.act s).2.world ∧ w.Becomes L.later (runOn e.act s').2.world
      ∧ Matches (AkinAnswer L (runOn e.act s).2.world.memory (runOn e.act s').2.world.memory)
        (runOn e.act s).1 (runOn e.act s').1 := by
  have sealed := reached.sealed (hs.completed.trans completed)
  have sealed' := reached'.sealed (hs'.completed.trans completed)
  cases sends with
  | execute isAsked =>
    refine steady_requesting hs hs' (World.steady_executeQuery sealed sealed' reached.orderly
      reached'.orderly hs hs' (Std.Refl.refl _) (Std.Refl.refl _) pure isAsked _ _ _)
      fun {v m v' m'} akin => ?_
    obtain ⟨q, declared, _, akin⟩ := akin
    exact .value ⟨q, declared, trivial, akin⟩
  | document isAsked =>
    refine steady_requesting hs hs' (World.steady_executeDocument sealed sealed' reached.orderly
      reached'.orderly hs hs' (Std.Refl.refl _) (Std.Refl.refl _) pure _ _ isAsked)
      fun {es m es' m'} akin => .results (akin.imp fun e e' paired => ⟨paired.1, ?_⟩)
    rcases paired.2 with same | ⟨q, declared, _, akin⟩
    · exact .inl same
    · exact .inr ⟨q, declared, trivial, akin⟩

theorem becomes_refl (s : Session) (L : Likeness s.world) : s.world.Becomes L.later s.world :=
  ⟨Std.Refl.refl _, rfl, rfl, Std.Refl.refl _⟩

/-- What becomes of a complete schema by requests to a pure application and refused declarations. -/
theorem becomes_after (pure : w.Pure L context asked) (completed : w.schema.completed = true)
    (v : World) (parameter : Param) (supply : Nat) (past : List Event)
    (h : w.Becomes L.later ((start v parameter supply).after past).world) {es : List Event}
    (each : ∀ e ∈ es, e.isDeclaration = true ∨ e.Sends w context asked) :
    w.Becomes L.later (((start v parameter supply).after past).after es).world := by
  induction es generalizing past with
  | nil => exact h
  | cons e es ih =>
    have step : ((start v parameter supply).after past).after (e :: es)
        = ((start v parameter supply).after (past ++ [e])).after es := by
      rw [after_append]
      rfl
    rw [step]
    refine ih (past ++ [e]) ?_ fun e' he' => each e' (by simp [he'])
    rw [after_append]
    show w.Becomes L.later (runOn e.act ((start v parameter supply).after past)).2.world
    rcases each e (by simp) with declares | sends
    · obtain ⟨f, refused, _⟩ := declaration_refused (h.completed.trans completed) declares
      rw [refused]
      exact h
    · have reached : ((start v parameter supply).after past).world.IsReached :=
        ⟨v, parameter, supply, past, rfl⟩
      exact (steady_act pure reached reached completed h h sends).1

/-- A complete schema refuses every declaration on types that there are, and these change nothing.
Whatever else happens, its declarations stay as they are. And if the application is pure, a request
is answered in the same way after whatever requests and refused declarations: with values that cannot
be told apart, or with a fault of the same kind. -/
theorem complete_undisturbed (v : World) (parameter : Param) (supply : Nat) (past : List Event) :
    let s := (start v parameter supply).after past
    s.world.schema.completed = true →
      (∀ e : Event, e.isDeclaration = true →
        (∀ host, e.owner? = some host → s.world.schema.findType? host ≠ none) →
          ∃ f, runOn e.act s = (.error f, s) ∧ f.kind = .lifecycle)
        ∧ (∀ es, SameSchema s.world (s.after es).world)
        ∧ ∀ (L : Likeness s.world) (context : Value) (asked : String → Prop),
          s.world.Pure L context asked → ∀ es : List Event,
            (∀ e ∈ es, e.isDeclaration = true ∨ e.Sends s.world context asked) →
              ∀ e : Event, e.Sends s.world context asked →
                Matches (AkinAnswer L (runOn e.act (s.after es)).2.world.memory
                    (runOn e.act s).2.world.memory)
                  (runOn e.act (s.after es)).1 (runOn e.act s).1
                ∧ (L.IsEquality → told (runOn e.act (s.after es)).1 = told (runOn e.act s).1) := by
  intro s completed
  refine ⟨fun e declares known => ?_, fun es => sameSchema_after es completed, ?_⟩
  · obtain ⟨f, refused, lifecycle | ⟨host, owner, unknown⟩⟩ := declaration_refused completed declares
    · exact ⟨f, refused, lifecycle⟩
    · exact absurd unknown (known host owner)
  · intro L context asked pure es each e sends
    have reached : s.world.IsReached := ⟨v, parameter, supply, past, rfl⟩
    have reached' : (s.after es).world.IsReached := by
      refine ⟨v, parameter, supply, past ++ es, ?_⟩
      rw [after_append]
    have after := becomes_after pure completed v parameter supply past (becomes_refl s L) each
    obtain ⟨_, _, both⟩ := steady_act pure reached' reached completed after (becomes_refl s L) sends
    exact ⟨both, fun equality => both.told_eq fun a b akin => akin.eq equality⟩

/-- The host type in the example. -/
def sharedHost : HostType := .declared "User"

/-- A complete schema of users, each of whom is the text that stands for it. -/
def sharing : List Event :=
  let lambda : Value :=
    .ofTree (.lambda [⟨0, "context"⟩, QueryDecl.sampleEntity] (.param QueryDecl.sampleEntity))
  [.addType sharedHost none "",
    .addField sharedHost "value" lambda (some (.builtin .str)) false "",
    .addQuery .unmodified "user" sharedHost
      (.ofTree (.lambda [⟨0, "context"⟩] (.lit (.str "x")))) "",
    .complete]

/-- Whether each field of a type is computed by a fixed lambda without arguments, or gives a text
later, and the fields of users give the users themselves. -/
def handsOn (context : Param) (t : TypeDecl) : Bool :=
  t.host != .builtin .str && t.fields.all fun f =>
    match f.source, f.shape with
    | .post (.function _ [] none (.lit _) []), _ => f.host == .builtin .str && !f.isList
    | .fixed (.lambda [c, entity] body), .none =>
      c == context && (t.host != sharedHost || f.host == .builtin .str && !f.isList
        && match body with
          | .param p => p == entity
          | _ => false)
    | _, _ => false

/-- Whether the queries that are called `user` give a user. -/
def givesUser (context : Param) (q : QueryDecl) : Bool :=
  q.name != "user" || q.host == sharedHost && !q.isList &&
    match q.source, q.shape with
    | .fixed (.lambda [c] (.lit (.str "x"))), .none => c == context
    | _, _ => false

/-- Texts, and the text that stands for a user. -/
def IsShared (host : HostType) (v : Value) : Prop :=
  host = .builtin .str ∨ host = sharedHost ∧ v = .str "x"

/-- Memories stay as they are, and equal values of a sort cannot be told apart. -/
def equalLikeness (w : World) (sort : HostType → Value → Prop) : Likeness w where
  later := Eq
  alike host isList v _ v' _ :=
    v = v' ∧ if isList then ∃ vs, v = .list vs ∧ ∀ x ∈ vs, sort host x else sort host v
  preorder := inferInstance
  lasting _ _ _ _ _ _ _ _ _ _ h := h
  missing h := by rw [h.1]
  elements := by
    rintro host v v' u u' - - ⟨rfl, vs, rfl, all⟩ _
    exact List.forall₂_same.2 fun x hx => ⟨rfl, all x hx⟩
  list := by
    intro host vs vs' m m' all
    obtain rfl : vs = vs' := List.forall₂_eq_eq_eq ▸ all.imp fun _ _ h => h.1
    exact ⟨rfl, vs, rfl, fun x hx => (List.forall₂_same.1 all x hx).2⟩

/-- Equal texts and users cannot be told apart. -/
def sharedLikeness (w : World) : Likeness w := equalLikeness w IsShared

theorem isEquality_equal (w : World) (sort : HostType → Value → Prop) :
    (equalLikeness w sort).IsEquality := ⟨fun h => h.1⟩

theorem isEquality_shared (w : World) : (sharedLikeness w).IsEquality := isEquality_equal w _

theorem steady_bind_none {later : Memory → Memory → Prop} [IsPreorder Memory later]
    {m m' : Memory} (u u' : World) (args : List (String × Value)) :
    Steady later m m' (fun _ _ _ _ => True) (ArgShape.none.bind u u.schema.scalars args)
      (ArgShape.none.bind u' u'.schema.scalars args) :=
  steady_ite Iff.rfl (fun _ _ => steady_pure fun _ _ _ _ => trivial) fun _ _ => steady_throw rfl

theorem givesUser_named {parameter : Param} {q : QueryDecl} (gives : givesUser parameter q = true)
    (named : q.name = "user") :
    q.host = sharedHost ∧ q.isList = false ∧ q.shape = .none
      ∧ q.source = .fixed (.lambda [parameter] (.lit (.str "x"))) := by
  simp only [givesUser, named, bne_self_eq_false, Bool.false_or, Bool.and_eq_true,
    beq_iff_eq, Bool.not_eq_true'] at gives
  obtain ⟨⟨host, isList⟩, source⟩ := gives
  refine ⟨host, isList, ?_⟩
  split at source
  · next c source' shape =>
    rw [source', shape, eq_of_beq source]
    exact ⟨rfl, rfl⟩
  · cases source

/-- What is known of the fields that are computed inside a query. -/
theorem handsOn_pre {parameter : Param} {t : TypeDecl} (hands : handsOn parameter t = true)
    {f : FieldDecl} (member : f ∈ t.fields) (pre : f.isPost = false) :
    f.shape = .none ∧ ∃ entity body, f.source = .fixed (.lambda [parameter, entity] body)
      ∧ ∀ v, IsShared t.host v →
        f.host = .builtin .str ∧ f.isList = false ∧ body = .param entity := by
  rw [handsOn, Bool.and_eq_true, bne_iff_ne] at hands
  obtain ⟨noText, fields⟩ := hands
  have here := List.all_eq_true.1 fields f member
  split at here
  · next source =>
    rw [FieldDecl.isPost, source] at pre
    cases pre
  · next c entity body source shape =>
    rw [Bool.and_eq_true, beq_iff_eq] at here
    obtain ⟨rfl, users⟩ := here
    refine ⟨shape, entity, body, source, fun v shared => ?_⟩
    obtain text | ⟨user, _⟩ := shared
    · exact absurd text noText
    · simp only [user, bne_self_eq_false, Bool.false_or, Bool.and_eq_true, beq_iff_eq,
        Bool.not_eq_true'] at users
      obtain ⟨⟨host, isList⟩, itself⟩ := users
      refine ⟨host, isList, ?_⟩
      split at itself
      · rw [eq_of_beq itself]
      · cases itself
  · cases here

/-- What is known of the fields that are computed after a query. -/
theorem handsOn_post {parameter : Param} {t : TypeDecl} (hands : handsOn parameter t = true)
    {f : FieldDecl} (member : f ∈ t.fields) (post : f.isPost = true) :
    f.host = .builtin .str ∧ f.isList = false
      ∧ ∃ n v, f.source = .post (.function n [] none (.lit v) []) := by
  rw [handsOn, Bool.and_eq_true] at hands
  have here := List.all_eq_true.1 hands.2 f member
  split at here
  · next n v source =>
    rw [Bool.and_eq_true, beq_iff_eq, Bool.not_eq_true'] at here
    exact ⟨here.1, here.2, n, v, source⟩
  · next source _ =>
    rw [FieldDecl.isPost, source] at post
    cases post
  · cases here

theorem computes_entity {u : World} {context v : Value} {entity : Param} {x : Making Value}
    (computes : Computes u context entity (.param entity) v x) : x = pure v := by
  obtain ⟨n, row, s, _, _, _, here, rfl⟩ := computes
  have replaced : (Expr.param entity).substitute (fun p =>
      if p == entity then some (.param row) else none) = (.param row : Expr Value) := by
    simp [Expr.substitute]
  have found : s.lookup row = .ok v := by rw [Scope.lookup, here]
  rw [replaced, Expr.eval, found]
  rfl

/-- Whether a likeness goes by equality, and has room for texts and users alone. -/
structure HasTexts {w : World} (L : Likeness w) : Prop extends L.IsEquality where
  hosts : ∀ {host v m v' m'}, L.alike host false v m v' m' →
    host = .builtin .str ∨ host = sharedHost
  text : ∀ v m m', L.alike (.builtin .str) false v m v m'

/-- Fields that give the users themselves, or texts, are pure. -/
theorem HasTexts.pure {w : World} {L : Likeness w} (texts : HasTexts L) {asked : String → Prop}
    (types : w.schema.types.all (handsOn w.schema.context) = true)
    (query : ∀ q ∈ w.schema.queries, asked q.name → ∀ args {u u'}, w.Becomes L.later u →
      w.Becomes L.later u' → Steady L.later u.memory u'.memory
        (fun body n body' n' => Steady L.later n n' (L.alike q.host q.isList)
          (u.evaluateBody body .none) (u'.evaluateBody body' .none))
        (Compose.queryValue u q args) (Compose.queryValue u' q args)) :
    w.Pure L .none asked where
  query := query
  field := by
    intro t declared f member pre args u u' hu hu'
    obtain ⟨shape, entity, body, source, gives⟩ :=
      handsOn_pre (List.all_eq_true.1 types t declared) member pre
    unfold Compose.lend FieldDecl.expression
    rw [shape, source, hu.context, hu'.context]
    refine steady_bind (steady_bind_none u u' args) fun _ _ _ _ _ _ _ => ?_
    simp only [pure_bind, beq_self_eq_true, if_true]
    refine steady_bind (Q := fun _ _ _ _ => True)
      (steady_outcome fun _ _ _ _ => matches_refl _ fun _ _ => trivial) fun _ _ _ _ _ _ _ => ?_
    refine steady_pure fun _ _ _ _ v v' n n' _ _ alike x x' computes computes' => ?_
    obtain ⟨host, isList, rfl⟩ :=
      gives (.str "x") ((texts.hosts alike).imp_right fun user => ⟨user, rfl⟩)
    obtain rfl := texts.eq alike
    rw [computes_entity computes, computes_entity computes', host, isList]
    exact steady_pure fun _ _ _ _ => texts.text v _ _
  post := by
    intro t declared f member post u u' hu hu'
    obtain ⟨host, isList, n, v, source⟩ :=
      handsOn_post (List.all_eq_true.1 types t declared) member post
    unfold FieldDecl.computePost
    rw [source, host, isList]
    show Steady _ _ _ _ (Pure.pure v) (Pure.pure v)
    exact steady_pure fun _ _ _ _ => texts.text v _ _

theorem pure_of_handsOn {w : World} (types : w.schema.types.all (handsOn w.schema.context) = true)
    (queries : w.schema.queries.all (givesUser w.schema.context) = true) :
    w.Pure (sharedLikeness w) .none (· = "user") := by
  have texts : HasTexts (sharedLikeness w) :=
    { isEquality_shared w with
      hosts := fun alike => alike.2.imp_right And.left
      text := fun v _ _ => ⟨rfl, .inl rfl⟩ }
  refine texts.pure types fun q declared named args u u' hu hu' => ?_
  obtain ⟨host, isList, shape, source⟩ :=
    givesUser_named (List.all_eq_true.1 queries q declared) named
  unfold Compose.queryValue QueryDecl.expression
  rw [shape, source, hu.context, hu'.context, host, isList]
  refine steady_bind (steady_bind_none u u' args) fun _ _ _ _ _ _ _ => ?_
  simp only [pure_bind, beq_self_eq_true, if_true]
  refine steady_pure fun n n' _ _ => ?_
  show Steady _ n n' _ (pure (Value.str "x")) (pure (Value.str "x"))
  exact steady_pure fun _ _ _ _ => ⟨rfl, .inr ⟨rfl, rfl⟩⟩

/-- Whether all that a document asks for is a query with this name. -/
def asksOnly (source name : String) : Bool :=
  match Document.read source with
  | .error _ => true
  | .ok d =>
    match Document.query d with
    | .error _ => true
    | .ok o =>
      match Document.collect (Document.fragments d) [] o.selections with
      | .error _ => true
      | .ok roots => roots.all (·.name == name)

theorem asks_of_asksOnly {source name : String} (only : asksOnly source name = true) (w : World)
    (n : String) (asks : Document.Asks w source [] n) : n = name := by
  obtain ⟨d, o, roots, valid, query, collected, f, among, rfl, _⟩ := asks
  obtain ⟨d', read, valid⟩ := outcome_bind_ok valid
  have same : d' = d := by
    split at valid
    · cases valid
    · split at valid
      · cases valid
      · split at valid
        · cases valid
          rfl
        · cases valid
  subst same
  simp only [asksOnly, read, query, collected] at only
  exact eq_of_beq (List.all_eq_true.1 only f among)

/-- A type too late, and requests one of which fails. -/
def disturbing : List Event :=
  [.addType (.declared "Late") none "",
    .execute .none "user" [] [.field "value" [] []] .all,
    .execute .none "user" [] [.field "name" [] []] .all,
    .document .none "{ user { value } }" []]

theorem sharing_undisturbed :
    let s := (start default ⟨0, "context"⟩ 8).after sharing
    let request : Event := .document .none "{ user { value } }" []
    s.world.schema.completed = true ∧ (runOn request.act s).1.isOk = true
      ∧ (∃ f, runOn (Event.addType (.declared "Late") none "").act s = (.error f, s)
        ∧ f.kind = .lifecycle)
      ∧ told (runOn request.act (s.after disturbing)).1 = told (runOn request.act s).1 := by
  -- the schema itself is large, so only the facts about it that count are given to the proof
  have undisturbed (past es : List Event) (s : Session)
      (h : (start default ⟨0, "context"⟩ 8).after past = s)
      (completed : s.world.schema.completed = true)
      (types : s.world.schema.types.all (handsOn s.world.schema.context) = true)
      (queries : s.world.schema.queries.all (givesUser s.world.schema.context) = true)
      (each : ∀ w, ∀ e ∈ es, e.isDeclaration = true ∨ e.Sends w .none (· = "user"))
      (request : Event) (sends : ∀ w, request.Sends w .none (· = "user")) :
      (∃ f, runOn (Event.addType (.declared "Late") none "").act s = (.error f, s)
        ∧ f.kind = .lifecycle)
        ∧ told (runOn request.act (s.after es)).1 = told (runOn request.act s).1 := by
    subst h
    obtain ⟨refuses, _, requests⟩ :=
      complete_undisturbed default ⟨0, "context"⟩ 8 past completed
    have pure := pure_of_handsOn types queries
    refine ⟨refuses _ rfl nofun, ?_⟩
    exact (requests (sharedLikeness _) .none (· = "user") pure es (each _) request
      (sends _)).2 (isEquality_shared _)
  have asks (w : World) :
      (Event.document .none "{ user { value } }" []).Sends w .none (· = "user") :=
    .document (asks_of_asksOnly (by decide +kernel) w)
  have each (w : World) (e : Event) (he : e ∈ disturbing) :
      e.isDeclaration = true ∨ e.Sends w .none (· = "user") := by
    simp only [disturbing, List.mem_cons, List.not_mem_nil, or_false] at he
    rcases he with rfl | rfl | rfl | rfl
    · exact .inl rfl
    · exact .inr (.execute rfl)
    · exact .inr (.execute rfl)
    · exact .inr (asks w)
  exact ⟨by decide +kernel, by decide +kernel, undisturbed sharing disturbing _ rfl
    (by decide +kernel) (by decide +kernel) (by decide +kernel) each _ asks⟩

end Session

end EntityGraph
