import EntityGraph.Proofs.Interface.Sound
import EntityGraph.Proofs.Request.Accepted
import EntityGraph.Proofs.Request.Given
import EntityGraph.Proofs.Validity.Inlined

/-!
# Requests with spreads written out

A document is executed by collecting and expanding its fields, which is the same for all documents
that are left with the same selections when all spreads are written out. A request is therefore
answered the same if some of its spreads are written out, and fragments that are then no longer used
are dropped: the document is still valid, and whatever a field of the one document gives, the same
field of the other one gives, too, with the same effects and the same faults.
-/

namespace EntityGraph

open Document Validity Interface

section

variable {d d' : Document} {vars : Variables}

/-- Computations that go on alike after outcomes that agree are the same. -/
theorem Document.Agreeing.continues {α β γ σ : Type} {R : α → β → Prop} {x : Outcome α}
    {y : Outcome β} (h : Agreeing R x y) {f : α → ExceptT Fault (StateM σ) γ}
    {g : β → ExceptT Fault (StateM σ) γ} (rest : ∀ a b, y = .ok b → R a b → f a = g b) :
    (liftM x : ExceptT Fault (StateM σ) α) >>= f
      = (liftM y : ExceptT Fault (StateM σ) β) >>= g := by
  cases h with
  | error e => rfl
  | ok related => exact rest _ _ rfl related

theorem refuseLabel_unrolled {fs : List Fragment} {n n' : FieldNode}
    (h : FieldNode.Unrolled fs n n') : refuseLabel n = refuseLabel n' := by
  rw [refuseLabel, refuseLabel, h.output, h.name]

/-- The value of a root field whose spreads are all written out. -/
def rootUnrolled (w : World) (context : Value) (vars : Variables) (n : FieldNode) :
    Making Value := do
  if n.name == Schema.typeNameName then return .str Interface.rootName
  else
    let children ← expandWithin [] vars refuseLabel (nestingAll n.selections)
      (← collect [] vars n.selections)
    w.runQuery context n.name (argumentValues vars n.args) (selectedAll children) .all

theorem rootValue_unrolled (w : World) (context : Value) (founded : Founded (fragments d))
    {n n' : FieldNode} (h : FieldNode.Unrolled (fragments d) n n')
    (small : nestingAll n'.selections ≤ size d) :
    rootValue w context d vars n = rootUnrolled w context vars n' := by
  unfold rootValue rootUnrolled
  rw [h.name, h.args]
  split
  · rfl
  · refine (h.selections.collect founded).continues fun nodes nodes' collected related => ?_
    have nested (n : FieldNode) (hn : n ∈ nodes') := collect_nesting collected hn
    rw [expand_unrolled founded (fun _ _ => refuseLabel_unrolled) related _ nested
      fun n hn => (nested n hn).le.trans small]

/-- The request of an operation whose spreads are all written out. -/
def executeUnrolled (w : World) (context : Value) (tt : List Selection) (vars : Variables) :
    Requesting (List (String × Value)) := do
  Requesting.useContext
  let roots ← collect [] vars tt
  roots.foldlM (fun found f => do
    let v ← Requesting.making (rootUnrolled w context vars f)
    return putNamed found f.output v) []

theorem foldlM_related {α β γ σ : Type} {R : α → β → Prop} {as : List α} {bs : List β}
    {f : γ → α → ExceptT Fault (StateM σ) γ} {g : γ → β → ExceptT Fault (StateM σ) γ}
    (h : List.Forall₂ R as bs) (each : ∀ a, ∀ b ∈ bs, R a b → ∀ c, f c a = g c b) (c : γ) :
    as.foldlM f c = bs.foldlM g c := by
  induction h generalizing c with
  | nil => rfl
  | @cons a b _ _ first _ ih =>
    rw [List.foldlM_cons, List.foldlM_cons, each a b List.mem_cons_self first]
    exact bind_congr fun c => ih (fun a b hb => each a b (List.mem_cons_of_mem _ hb)) c

/-- A document is executed as what its operation is when all spreads are written out. -/
theorem executeRead_unrolled (w : World) (context : Value) (founded : Founded (fragments d))
    {o : Operation} (asked : Document.query d = .ok o) {tt : List Selection}
    (h : Unrolled (fragments d) o.selections tt) :
    w.executeRead context d vars = executeUnrolled w context tt vars := by
  unfold World.executeRead executeUnrolled
  rw [asked, liftM_ok_bind]
  refine bind_congr fun _ => (h.collect founded).continues fun roots roots' collected related => ?_
  refine foldlM_related related (fun n n' hn shown found => ?_) _
  have small := h.nesting_le_size founded (query_ok asked).1
  rw [rootValue_unrolled w context founded shown ((collect_nesting collected hn).le.trans small),
    shown.output]

theorem query_inlined {fs : List Fragment}
    (h : List.Forall₂ (Operation.Inlined fs) (operations d) (operations d')) :
    Agreeing (Operation.Inlined fs) (Document.query d) (Document.query d') := by
  unfold Document.query
  generalize operations d = os, operations d' = os' at h
  cases h with
  | nil => exact .error _
  | @cons o o' _ _ first rest =>
    cases rest with
    | nil =>
      have kind : o'.kind = o.kind := by rw [first.same]
      simp only [kind]
      split
      · exact .ok first
      · exact .error _
    | cons _ rest =>
      simp only [List.length_cons, rest.length_eq]
      exact .error _

theorem executeRead_rewrites (rewrites : Rewrites d d') (w : World) (context : Value) :
    w.executeRead context d' vars = w.executeRead context d vars := by
  have agrees := query_inlined rewrites.operations
  cases asked : Document.query d with
  | error e =>
    rw [asked] at agrees
    generalize asked' : Document.query d' = r at agrees
    cases agrees
    rw [World.executeRead, World.executeRead, asked, asked', liftM_error_bind, liftM_error_bind]
  | ok o =>
    rw [asked] at agrees
    generalize asked' : Document.query d' = r at agrees
    cases agrees with
    | ok inlined =>
      have defined := rewrites.order'.defined _ (query_ok asked').1
      obtain ⟨tt, unrolled, unrolled'⟩ := rewrites.unrolled inlined.selections defined
      rw [executeRead_unrolled w context rewrites.order.founded asked unrolled,
        executeRead_unrolled w context rewrites.order'.founded asked' unrolled']

end

/-- Fragments are opened faithfully. Wherever spreads are all defined and no fragment contains
itself, as the rules for documents demand, collecting the fields of a selection set whose directives
can be read comes to an end with the fields that are reached if each spread and each condition is
replaced by its selections, over and over again; in order and as often as they are reached, but only
those for which all directives on the way leave them in place. So a valid document of which some
spreads are written out, at any depth, without the fragments that are then no longer used, is
executed with the same results, effects and faults. -/
theorem fragments_open_faithfully :
    (∀ (d : Document) (vars : Variables), Flattens d →
      (∀ tt ∈ outermost d, Readable vars tt) → ∀ ss, IsSelectionSet d ss →
        ∃ rs, Reaches (fragments d) ss rs
          ∧ collect (fragments d) vars ss = .ok (staying vars rs))
      ∧ (∀ (sys : TypeSystem) (d : Document), d.isValid sys = true → Flattens d)
      ∧ ∀ (w : World) (sys : TypeSystem) (source : String) (d : Document),
        w.schema.system = some sys → readValid w source = .ok d →
          ∀ (source' : String) (d' : Document), InlinedIn d d' →
            Document.read source' = .ok (dropUnused sys d') → ∀ context vars,
              w.executeDocument context source' vars = w.executeDocument context source vars := by
  refine ⟨fun d vars flattens readable ss h => collect_reaches flattens readable h,
    fun sys d valid => (isValid_inOrder valid).flattens, ?_⟩
  intro w sys source d system valid source' d' inlined read' context vars
  obtain ⟨sys', system', parsed, isValid⟩ := readValid_ok valid
  obtain rfl : sys' = sys := Option.some.inj (system'.symm.trans system)
  have valid' : readValid w source' = .ok (dropUnused sys' d') := by
    rw [readValid_eq system read', if_pos (isValid_inlined isValid inlined), if_pos]
    rw [readValid_eq system (show Document.read source = .ok d by rw [Document.read, parsed])]
      at valid
    by_contra unsound
    rw [if_neg unsound] at valid
    cases valid
  rw [World.executeDocument_eq, World.executeDocument_eq, valid, valid', liftM_ok_bind,
    liftM_ok_bind, executeRead_rewrites ((isValid_inOrder isValid).rewrites inlined)]

/-- A user with a fragment that opens another one. -/
def nestedSource : String :=
  "query($x: Boolean!) { user { ...A @include(if: $x) value } }
  fragment A on User { ...B } fragment B on User { value }"

/-- The same with the outer fragment written out. -/
def writtenSource : String :=
  "query($x: Boolean!) { user { ... on User @include(if: $x) { ...B } value } }
  fragment B on User { value }"

/-- The directive of the examples. -/
def whenGiven : List Document.Directive := [⟨"include", [("if", .var "x")]⟩]

/-- What is selected of the user in the examples, with this at the beginning. -/
def nestedSelections (first : Selection) : List Selection :=
  [first, .field none "value" [] [] []]

/-- The operation of the examples. -/
def nestedOperation (first : Selection) : Operation :=
  { kind := .query, name := none, directives := []
    variableDefs := [⟨"x", .nonNull (.named "Boolean"), none, []⟩]
    selections := [.field none "user" [] [] (nestedSelections first)] }

/-- The documents of the examples. -/
def nestedDocument (first : Selection) (fs : List Fragment) : Document :=
  .operation (nestedOperation first) :: fs.map .fragment

def outerFragment : Fragment := ⟨"A", "User", [], [.spread "B" []]⟩

def innerFragment : Fragment := ⟨"B", "User", [], [.field none "value" [] [] []]⟩

set_option maxRecDepth 100000 in
theorem read_nestedSource : Document.read nestedSource
    = .ok (nestedDocument (.spread "A" whenGiven) [outerFragment, innerFragment]) := by
  rfl

set_option maxRecDepth 100000 in
theorem read_writtenSource : Document.read writtenSource
    = .ok (nestedDocument (.inline (some "User") whenGiven [.spread "B" []]) [innerFragment]) := by
  rfl

/-- The outer fragment is not used any more where it is written out. -/
theorem dropUnused_written (sys : TypeSystem) :
    let first := .inline (some "User") whenGiven [.spread "B" []]
    dropUnused sys (nestedDocument first [outerFragment, innerFragment])
      = nestedDocument first [innerFragment] := by
  intro first
  have closed : Closed [outerFragment, innerFragment] ["B"] := by
    intro a ha b contains
    cases List.mem_singleton.1 ha
    obtain ⟨f, found, opens⟩ := contains
    cases found
    cases opens
  have used : fragmentsOf sys (nestedDocument first [outerFragment, innerFragment])
      (nestedOperation first) = ["B"] := by
    rw [fragmentsOf, inOperation, opened_mentionsAll]
    exact reachWithin_closed_eq (d := nestedDocument first [outerFragment, innerFragment]) closed 2
  have alone : operations (nestedDocument first [outerFragment, innerFragment])
      = [nestedOperation first] := rfl
  rw [dropUnused, alone, List.flatMap_singleton, used]
  rfl

theorem nested_fragments_open_faithfully :
    let w := QueryDecl.sample (.param QueryDecl.sampleEntity)
    let d := nestedDocument (.spread "A" whenGiven) [outerFragment, innerFragment]
    let ss := nestedSelections (.spread "A" whenGiven)
    let vars := [("x", .bool true)]
    readValid w nestedSource = .ok d
      ∧ (∃ rs, Reaches (fragments d) ss rs ∧ collect (fragments d) vars ss = .ok (staying vars rs))
      ∧ ∀ context vars, w.executeDocument context writtenSource vars
        = w.executeDocument context nestedSource vars := by
  intro w d ss vars
  have valid : readValid w nestedSource = .ok d := by
    have isOk : (readValid w nestedSource).isOk = true := by decide +kernel
    cases result : readValid w nestedSource with
    | error e =>
      rw [result] at isOk
      cases isOk
    | ok d' =>
      obtain ⟨_, _, parsed, _⟩ := readValid_ok result
      have read := read_nestedSource
      rw [Document.read, parsed] at read
      exact read
  obtain ⟨sys, system, _, isValid⟩ := readValid_ok valid
  obtain ⟨collects, flattens, same⟩ := fragments_open_faithfully
  have readable : ∀ tt ∈ outermost d, Readable vars tt := by
    have all : ((outermost d).all fun tt =>
        (insideAll tt).all fun s => (isIncluded vars s.directives).isOk) = true := by
      decide +kernel
    intro tt ht s hs
    have known := List.all_eq_true.1 (List.all_eq_true.1 all tt ht) s hs
    cases included : isIncluded vars s.directives with
    | error e =>
      rw [included] at known
      cases known
    | ok b => exact ⟨b, rfl⟩
  have within : IsSelectionSet d ss :=
    ⟨_, List.mem_cons_self, .inr ⟨.field none "user" [] [] ss, List.mem_cons_self, rfl⟩⟩
  let d' := nestedDocument (.inline (some "User") whenGiven [.spread "B" []])
    [outerFragment, innerFragment]
  have inlined : InlinedIn d d' := by
    have selections : Inlined (fragments d) (nestedOperation (.spread "A" whenGiven)).selections
        (nestedOperation (.inline (some "User") whenGiven [.spread "B" []])).selections :=
      .field (.replaced (f := outerFragment) rfl (.spread .nil) (.field .nil .nil)) .nil
    exact .cons (.operation ⟨rfl, selections⟩)
      (.cons (.fragment ⟨rfl, .refl _⟩) (.cons (.fragment ⟨rfl, .refl _⟩) .nil))
  refine ⟨valid, collects d vars (flattens sys d isValid) readable ss within, ?_⟩
  refine same w sys nestedSource d system valid writtenSource _ inlined ?_
  rw [dropUnused_written]
  exact read_writtenSource

end EntityGraph
