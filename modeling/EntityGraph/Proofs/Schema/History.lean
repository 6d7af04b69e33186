import EntityGraph.Interface.Text
import EntityGraph.Request.Execute
import EntityGraph.Proofs.Schema.Rollback

/-!
# Histories

An application declares a schema, completes it, sends requests and computes values of its own, in any
order and with any outcome. A history is the list of what it does. Every schema that there can be is
the one at the end of a history that starts with an empty schema.

Attempts to complete a schema that fail can be struck from a history: everything else in it comes out
as before, and so does the end.
-/

namespace EntityGraph

/-- What an application does. -/
inductive Event where
  | addType (host : HostType) (name : Option String) (description : String)
  | addQuery (mode : Mode) (name : String) (host : HostType) (function : Value)
    (description : String)
  | addQueryWithArgs (mode : Mode) (name : String) (host : HostType) (shape : ArgShape)
    (factory : Value) (description : String)
  | addScalar (kind : WireKind) (translate : Value) (name : Option String)
    (host : Option HostType) (description : String)
  | addField (owner : HostType) (name : String) (function : Value) (host : Option HostType)
    (isList : Bool) (description : String)
  | addFieldWithArgs (owner : HostType) (name : String) (shape : ArgShape) (factory : Value)
    (host : Option HostType) (isList : Bool) (description : String)
  | addPropertyField (owner : HostType) (selector : Value) (description : String)
  | addAllFields (owner : HostType)
  | addPostField (owner : HostType) (name : String) (function : Value) (hint : Option Hint)
    (host : Option HostType) (description : String)
  | describe (host : HostType)
  | complete
  /-- Asks for the written type system. -/
  | text
  /-- Sends a request for a query by its name. -/
  | execute (context : Value) (name : String) (args : List (String × Value))
    (selections : List Selected) (paging : Paging)
  /-- Sends a document. -/
  | document (context : Value) (source : String) (vars : Document.Variables)
  /-- Computes a value, which may make objects and assign to them. -/
  | compute (x : World → Making Value)

/-- What an application gets back. -/
inductive Answer where
  | done
  | type (t : TypeDecl)
  | query (q : QueryDecl)
  | scalar (e : ScalarEntry)
  | field (f : FieldDecl)
  | fields (fs : List FieldDecl)
  | text (s : String)
  | value (v : Value)
  | results (es : List (String × Value))

/-- A world, and the number of contexts that requests have used. -/
structure Session where
  world : World
  contexts : Nat

namespace Session

variable {α : Type}

/-- What an application does may fail; what it changed before a failure stays. -/
abbrev Acting := ExceptT Fault (StateM Session)

/-- A declaration in the world of a session. -/
def declaring (x : Declaring α) : Acting α := do
  let s ← get
  let (result, world) := runOn x s.world
  set { s with world }
  ExceptT.mk (pure result)

/-- A request to the world of a session. -/
def requesting (x : World → Requesting α) : Acting α := do
  let s ← get
  let (result, used) := runOn (x s.world) ⟨s.contexts, s.world.trail⟩
  set ({ world := s.world.following used.trail, contexts := used.contexts } : Session)
  ExceptT.mk (pure result)

end Session

namespace Event

open Session

/-- What comes of an event, and what it changes. -/
def act : Event → Acting Answer
  | addType host name description => .type <$> declaring (Schema.addType host name description)
  | addQuery mode name host function description =>
    .query <$> declaring (Schema.addQuery mode name host function description)
  | addQueryWithArgs mode name host shape factory description =>
    .query <$> declaring (Schema.addQueryWithArgs mode name host shape factory description)
  | addScalar kind translate name host description =>
    .scalar <$> declaring (Schema.addScalar kind translate name host description)
  | addField owner name function host isList description =>
    .field <$> declaring (Schema.addField owner name function host isList description)
  | addFieldWithArgs owner name shape factory host isList description =>
    .field <$> declaring (Schema.addFieldWithArgs owner name shape factory host isList description)
  | addPropertyField owner selector description =>
    .field <$> declaring (Schema.addPropertyField owner selector description)
  | addAllFields owner => .fields <$> declaring (Schema.addAllFields owner)
  | addPostField owner name function hint host description =>
    .field <$> declaring (Schema.addPostField owner name function hint host description)
  | describe host => .type <$> declaring (Schema.describe host)
  | complete => (fun _ => .done) <$> declaring Schema.complete
  | text => do return .text (← (← get).world.schema.text)
  | execute context name args selections paging =>
    .value <$> requesting fun w => w.executeQuery context name args selections paging
  | document context source vars =>
    .results <$> requesting fun w => w.executeDocument context source vars
  | compute x => .value <$> declaring (Declaring.making x)

/-- Whether an event is an attempt to complete the schema. -/
def isCompletion : Event → Bool
  | complete => true
  | _ => false

end Event

namespace Session

/-- An empty schema in a world. -/
def start (w : World) (context : Param) (supply : Nat) : Session :=
  { world := { w with schema := .empty context supply }, contexts := 0 }

/-- What comes of each event of a history, one after the other. -/
def replies (s : Session) : List Event → List (Outcome Answer)
  | [] => []
  | e :: es => (runOn e.act s).1 :: (runOn e.act s).2.replies es

/-- The session at the end of a history. -/
def after (s : Session) : List Event → Session
  | [] => s
  | e :: es => (runOn e.act s).2.after es

/-- Whether an event is an attempt to complete the schema that fails. -/
def failsToComplete (s : Session) (e : Event) : Bool :=
  e.isCompletion && !(runOn e.act s).1.isOk

/-- A history without the attempts to complete the schema that fail. -/
def strike (s : Session) : List Event → List Event
  | [] => []
  | e :: es =>
    let rest := (runOn e.act s).2.strike es
    if s.failsToComplete e then rest else e :: rest

/-- What comes of the events of a history, except for attempts to complete the schema that fail. -/
def otherReplies (s : Session) : List Event → List (Outcome Answer)
  | [] => []
  | e :: es =>
    let rest := (runOn e.act s).2.otherReplies es
    if s.failsToComplete e then rest else (runOn e.act s).1 :: rest

/-! ## What an event does to the world -/

theorem runOn_declaring {α : Type} (x : Declaring α) (s : Session) :
    runOn (declaring x) s = ((runOn x s.world).1, { s with world := (runOn x s.world).2 }) := rfl

theorem runOn_requesting {α : Type} (x : World → Requesting α) (s : Session) :
    runOn (requesting x) s
      = ((runOn (x s.world) ⟨s.contexts, s.world.trail⟩).1,
          { world := s.world.following (runOn (x s.world) ⟨s.contexts, s.world.trail⟩).2.trail
            contexts := (runOn (x s.world) ⟨s.contexts, s.world.trail⟩).2.contexts }) := rfl

theorem runOn_complete (s : Session) :
    runOn Event.complete.act s
      = ((runOn Schema.complete s.world).1.map fun _ => .done,
          { s with world := (runOn Schema.complete s.world).2 }) := by
  rw [Event.act, runOn_map, runOn_declaring]

/-- Sessions of which the second world comes from the first one by declarations. -/
def Declared (s s' : Session) : Prop := Declares s.world s'.world

theorem keeps_declaring {α β : Type} {x : Declaring α} (f : α → β) (h : Keeps Declares x) :
    Keeps Declared (f <$> declaring x) := by
  intro s
  rw [runOn_map, runOn_declaring]
  exact h s.world

theorem keeps_requesting {α β : Type} (x : World → Requesting α) (f : α → β) :
    Keeps Declared (f <$> requesting x) := by
  intro s
  rw [runOn_map, runOn_requesting]
  exact .single (.left _ _)

end Session

namespace Event

open Session Schema

/-- Every event but an attempt to complete the schema is a chain of steps of declarations. -/
theorem keeps_act {e : Event} (other : e.isCompletion = false) : Keeps Declared e.act := by
  have added {α : Type} {x : Declaring α} (h : Keeps Adds x) : Keeps Declares x :=
    keeps_mono (fun _ _ => Adds.declares) h
  cases e with
  | addType host name description => exact keeps_declaring _ (added (keeps_addType
      (fun w t isOpen host name fields projection scalar _ =>
        .single (.type w t isOpen host name fields projection scalar)) _ _))
  | addQuery mode name host function description => exact keeps_declaring _ (keeps_addQuery _ _ _ _ _)
  | addQueryWithArgs mode name host shape factory description =>
    exact keeps_declaring _ (added (keeps_addQueryWithArgs _ _ _ _ _ _))
  | addScalar kind translate name host description =>
    exact keeps_declaring _ (keeps_addScalar _ _ _ _ _)
  | addField owner name function host isList description =>
    refine keeps_declaring _ ?_
    exact keeps_addField (fun w i f isOpen name ofContext =>
      Adds.declares (adds_field w i f isOpen name ofContext))
      (fun _ => keeps_making _) _ _ _ _ _
  | addFieldWithArgs owner name shape factory host isList description =>
    exact keeps_declaring _ (added (keeps_addFieldWithArgs adds_field _ _ _ _ _ _ _))
  | addPropertyField owner selector description =>
    exact keeps_declaring _ (keeps_addPropertyField _ _ _)
  | addAllFields owner => exact keeps_declaring _ (added (keeps_addAllFields owner))
  | addPostField owner name function hint host description =>
    exact keeps_declaring _ (added (keeps_addPostField adds_field _ _ _ _ _ _))
  | describe host =>
    exact keeps_declaring _ (keeps_describe (fun w host => .single (.addition (.adHoc w host))) host)
  | complete => cases other
  | text =>
    intro s
    unfold act
    rw [runOn_bind_ok (runOn_get s), runOn_bind, runOn_outcome]
    cases s.world.schema.text <;> exact .refl
  | execute context name args selections paging => exact keeps_requesting _ _
  | document context source vars => exact keeps_requesting _ _
  | compute x => exact keeps_declaring _ (keeps_making x)

end Event

/-! ## Open schemas stay idle -/

theorem Declaration.idle {w w' : World} (h : Declaration w w') (idle : Idle w) : Idle w' := by
  cases h with
  | addition h => cases h <;> exact idle
  | left t => exact idle
  | scalar e => exact idle

theorem Declares.idle {w w' : World} (h : Declares w w') (idle : Idle w) : Idle w' := by
  induction h with
  | refl => exact idle
  | tail _ step ih => exact step.idle ih

/-- A world whose schema is declared to be complete. -/
def World.closed (w : World) : World := w.withSchema fun s => { s with completed := true }

/-- A schema that was completed says so. -/
theorem Schema.complete_ok {w v : World} (h : runOn Schema.complete w = (.ok (), v)) :
    w.schema.completed = false ∧ ∃ u, runOn Schema.settle w = (.ok (), u) ∧ v = u.closed := by
  unfold Schema.complete at h
  rw [runOn_bind_ok (Schema.runOn_schema w)] at h
  cases completed : w.schema.completed with
  | true =>
    rw [if_pos completed] at h
    cases h
  | false =>
    refine ⟨rfl, ?_⟩
    rw [if_neg (by simp [completed]), runOn_bind, runOn_tryCatch] at h
    generalize runOn Schema.settle w = out at h ⊢
    obtain ⟨r, u⟩ := out
    cases r with
    | ok _ =>
      cases h
      exact ⟨u, rfl, rfl⟩
    | error e => cases h

namespace Session

/-- What an event leaves behind comes of declarations, or of a completion that succeeded. -/
theorem act_cases (e : Event) (s : Session) (idle : Idle s.world) :
    Declares s.world (runOn e.act s).2.world
      ∨ s.world.schema.completed = false ∧ ∃ u, runOn Schema.settle s.world = (.ok (), u)
        ∧ (runOn e.act s).2.world = u.closed := by
  cases completion : e.isCompletion with
  | false => exact .inl (Event.keeps_act completion s)
  | true =>
    cases e <;> try cases completion
    rw [runOn_complete]
    generalize h : runOn Schema.complete s.world = out
    obtain ⟨r, v⟩ := out
    cases r with
    | error f =>
      rw [Schema.complete_error idle h]
      exact .inl .refl
    | ok _ => exact .inr (Schema.complete_ok h)

theorem idle_act (e : Event) (s : Session) (idle : Idle s.world) :
    Idle (runOn e.act s).2.world := by
  rcases act_cases e s idle with declared | ⟨_, u, _, closed⟩
  · exact Declares.idle declared idle
  · rw [closed]
    exact nofun

theorem idle_after (s : Session) (es : List Event) (idle : Idle s.world) :
    Idle (s.after es).world := by
  induction es generalizing s with
  | nil => exact idle
  | cons e es ih => exact ih _ (idle_act e s idle)

/-! ## Striking failed completions -/

/-- An attempt to complete a schema that fails changes nothing. -/
theorem failed_unchanged {s : Session} {e : Event} (idle : Idle s.world)
    (fails : s.failsToComplete e = true) : (runOn e.act s).2 = s := by
  unfold failsToComplete at fails
  rw [Bool.and_eq_true] at fails
  obtain ⟨completion, failed⟩ := fails
  cases e <;> try cases completion
  rw [runOn_complete] at failed ⊢
  generalize h : runOn Schema.complete s.world = out at failed ⊢
  obtain ⟨r, v⟩ := out
  cases r with
  | error f =>
    rw [Schema.complete_error idle h]
  | ok _ => cases failed

theorem after_strike (s : Session) (es : List Event) (idle : Idle s.world) :
    s.after (s.strike es) = s.after es := by
  induction es generalizing s with
  | nil => rfl
  | cons e es ih =>
    rw [strike, after]
    cases fails : s.failsToComplete e with
    | true =>
      rw [failed_unchanged idle fails]
      exact ih s idle
    | false => exact ih _ (idle_act e s idle)

theorem replies_strike (s : Session) (es : List Event) (idle : Idle s.world) :
    s.replies (s.strike es) = s.otherReplies es := by
  induction es generalizing s with
  | nil => rfl
  | cons e es ih =>
    unfold strike otherReplies
    cases fails : s.failsToComplete e with
    | true =>
      rw [failed_unchanged idle fails]
      exact ih s idle
    | false =>
      simp only [Bool.false_eq_true, if_false, replies]
      rw [ih _ (idle_act e s idle)]

theorem idle_start (w : World) (context : Param) (supply : Nat) :
    Idle (start w context supply).world :=
  fun _ => ⟨rfl, rfl⟩

/-- Completing is all or nothing, at the end of every history of an open schema: if it fails, the
world is the one it was, which offers no type system and forbids reserved names. And it is as if the
attempts that failed had never been made: whatever happens afterwards, all else comes out the same
without them, and so does the end. -/
theorem failed_completion_leaves_no_trace (w : World) (context : Param) (supply : Nat)
    (past future : List Event) :
    let s := (start w context supply).after past
    (s.world.schema.completed = false →
      s.world.schema.system = none ∧ s.world.schema.allowsReserved = false
        ∧ ∀ f, (runOn Schema.complete s.world).1 = .error f →
          (runOn Schema.complete s.world).2 = s.world)
      ∧ s.replies (s.strike future) = s.otherReplies future
      ∧ s.after (s.strike future) = s.after future := by
  intro s
  have idle : Idle s.world := idle_after _ past (idle_start _ _ _)
  refine ⟨fun isOpen => ?_, replies_strike s future idle, after_strike s future idle⟩
  obtain ⟨system, reserved⟩ := idle isOpen
  refine ⟨system, reserved, fun f failed => ?_⟩
  exact Schema.complete_error idle (Prod.ext failed rfl)

/-- A type and a query with an argument that is no scalar. This is found out only after the schema
was made to describe itself. -/
def misdeclared : List Event :=
  [.addType (.declared "User") none "",
    .addPostField (.declared "User") "nick" .none none (some (.builtin .str)) "",
    .addQueryWithArgs .modified "users" (.declared "User") (.defaults [(.str "of", .schema)]) .none ""]

theorem misdeclared_leaves_no_trace :
    let s := (start default ⟨0, "context"⟩ 1).after misdeclared
    s.world.schema.completed = false ∧ s.failsToComplete .complete = true
      ∧ (runOn Schema.complete s.world).2 = s.world := by
  intro s
  have isOpen : s.world.schema.completed = false := by decide +kernel
  have fails : s.failsToComplete .complete = true := by decide +kernel
  have restored :=
    ((failed_completion_leaves_no_trace default ⟨0, "context"⟩ 1 misdeclared []).1 isOpen).2.2
  refine ⟨isOpen, fails, ?_⟩
  cases failed : (runOn Schema.complete s.world).1 with
  | error f => exact restored f failed
  | ok r =>
    rw [failsToComplete, runOn_complete, failed] at fails
    cases fails

end Session

end EntityGraph
