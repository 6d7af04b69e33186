import EntityGraph.Proofs.Document.Kept
import EntityGraph.Proofs.Request.Repeated
import EntityGraph.Proofs.Request.Visited

/-!
# Variables count as they are given

An operation declares its variables with types and defaults, and the rules for documents use these
declarations. Executing a document does not. This module rewrites a document into one that says
what is executed: without declarations, and with an argument left out where its variable was not
given, or written as missing where its variable is. Executing the rewritten document comes to the
same.

Directives are another matter. A condition has to be read, so a document that is executed with
success was given a value for the variable of every condition that was met.
-/

set_option linter.unusedSectionVars false

namespace EntityGraph

namespace Document

/-- An argument as it counts, with the values that variables were given. -/
def settledArg (vars : Variables) (a : Argument) : Option Argument :=
  match a.2.value vars with
  | .undefined => none
  | .none => some (a.1, .null)
  | _ => some a

mutual

def Selection.settled (vars : Variables) : Selection → Selection
  | .field label name args ds ss =>
    .field label name (args.filterMap (settledArg vars)) ds (settledAll vars ss)
  | .spread name ds => .spread name ds
  | .inline onType ds ss => .inline onType ds (settledAll vars ss)

def settledAll (vars : Variables) : List Selection → List Selection
  | [] => []
  | s :: ss => s.settled vars :: settledAll vars ss

end

def FieldNode.settled (vars : Variables) (n : FieldNode) : FieldNode :=
  { n with args := n.args.filterMap (settledArg vars), selections := settledAll vars n.selections }

@[simp] theorem FieldNode.settled_name (vars : Variables) (n : FieldNode) :
    (n.settled vars).name = n.name := rfl

@[simp] theorem FieldNode.settled_output (vars : Variables) (n : FieldNode) :
    (n.settled vars).output = n.output := rfl

@[simp] theorem FieldNode.settled_selections (vars : Variables) (n : FieldNode) :
    (n.settled vars).selections = settledAll vars n.selections := rfl

/-- An operation without declarations of variables, with its arguments as they count. -/
def Operation.settled (vars : Variables) (o : Operation) : Operation :=
  { o with variableDefs := [], selections := settledAll vars o.selections }

def Fragment.settled (vars : Variables) (f : Fragment) : Fragment :=
  { f with selections := settledAll vars f.selections }

def Definition.settled (vars : Variables) : Definition → Definition
  | .operation o => .operation (o.settled vars)
  | .fragment f => .fragment (f.settled vars)
  | .types => .types

/-- A document as it counts, with the values that variables were given. -/
def settled (vars : Variables) (d : Document) : Document := d.map (·.settled vars)

section

variable (vars : Variables)

/-! ## What a settled document requests

Rewriting commutes with everything that reads a document, one function after the other: it keeps
names, directives and sizes, and of the arguments only their values are asked for. -/

theorem argumentValues_settled (args : List Argument) :
    argumentValues vars (args.filterMap (settledArg vars)) = argumentValues vars args := by
  unfold argumentValues
  generalize ([] : List (String × Value)) = found
  induction args generalizing found with
  | nil => rfl
  | cons a args ih =>
    obtain ⟨n, l⟩ := a
    rw [List.filterMap_cons, List.foldl_cons, settledArg]
    dsimp only
    split
    · next left =>
      split at left
      · next undefined => rw [undefined, isUndefined, if_pos rfl, ih]
      · cases left
      · cases left
    · next b kept =>
      split at kept
      · cases kept
      · next missing =>
        cases kept
        rw [List.foldl_cons, missing, ih]
        rfl
      · cases kept
        rw [List.foldl_cons, ih]

theorem operations_settled (d : Document) :
    operations (settled vars d) = (operations d).map (·.settled vars) := by
  unfold operations settled
  rw [List.filterMap_map, List.map_filterMap]
  congr 1
  funext x
  cases x <;> rfl

theorem fragments_settled (d : Document) :
    fragments (settled vars d) = (fragments d).map (·.settled vars) := by
  unfold fragments settled
  rw [List.filterMap_map, List.map_filterMap]
  congr 1
  funext x
  cases x <;> rfl

theorem fragment?_settled (fs : List Fragment) (name : String) :
    fragment? (fs.map (·.settled vars)) name = (fragment? fs name).map (·.settled vars) := by
  unfold fragment?
  rw [← List.map_reverse, List.find?_map]
  rfl

mutual

theorem sizeOne_settled (s : Selection) : sizeOne (s.settled vars) = sizeOne s := by
  cases s with
  | field label name args ds ss => rw [Selection.settled, sizeOne, sizeOne, sizeAll_settled ss]
  | spread name ds => rw [Selection.settled]
  | inline onType ds ss => rw [Selection.settled, sizeOne, sizeOne, sizeAll_settled ss]

theorem sizeAll_settled (ss : List Selection) : sizeAll (settledAll vars ss) = sizeAll ss := by
  cases ss with
  | nil => rfl
  | cons s ss => rw [settledAll, sizeAll, sizeAll, sizeOne_settled s, sizeAll_settled ss]

end

theorem size_settled (d : Document) : size (settled vars d) = size d := by
  have total (ss tt : List Selection) : sizeAll (ss ++ tt) = sizeAll ss + sizeAll tt := by
    induction ss with
    | nil => simp [sizeAll]
    | cons s ss ih => simp only [List.cons_append, sizeAll, ih, Nat.add_assoc]
  have same {α : Type} (xs : List α) (inside inside' : α → List Selection)
      (each : ∀ x, inside' x = settledAll vars (inside x)) :
      sizeAll (xs.flatMap inside') = sizeAll (xs.flatMap inside) := by
    induction xs with
    | nil => rfl
    | cons x xs ih =>
      rw [List.flatMap_cons, List.flatMap_cons, total, total, ih, each, sizeAll_settled]
  unfold size
  rw [operations_settled, fragments_settled, List.flatMap_map, List.flatMap_map]
  exact congrArg₂ (· + ·) (same (operations d) (·.selections) _ fun o => rfl)
    (same (fragments d) (·.selections) _ fun f => rfl)

section

variable (fs : List Fragment) {opened opened' : Fragment → Outcome (List FieldNode)}
  (opens : ∀ f, opened' (f.settled vars) = (opened f).map (·.map (·.settled vars)))

include opens

mutual

theorem collectOne_settled (s : Selection) :
    collectOne (fs.map (·.settled vars)) vars opened' (s.settled vars)
      = (collectOne fs vars opened s).map (·.map (·.settled vars)) := by
  cases s with
  | field label name args ds ss =>
    rw [Selection.settled, collectOne, collectOne]
    cases isIncluded vars ds with
    | error e => rfl
    | ok included => cases included <;> rfl
  | inline onType ds ss =>
    rw [Selection.settled, collectOne, collectOne]
    cases isIncluded vars ds with
    | error e => rfl
    | ok included =>
      cases included with
      | false => rfl
      | true => exact collectWith_settled ss
  | spread name ds =>
    rw [Selection.settled, collectOne, collectOne]
    cases isIncluded vars ds with
    | error e => rfl
    | ok included =>
      cases included with
      | false => rfl
      | true =>
        show (match fragment? (fs.map (·.settled vars)) name with
          | some f => opened' f
          | none => _) = Except.map _ (match fragment? fs name with
          | some f => opened f
          | none => _)
        rw [fragment?_settled]
        cases fragment? fs name with
        | none => rfl
        | some f => exact opens f

theorem collectWith_settled (ss : List Selection) :
    collectWith (fs.map (·.settled vars)) vars opened' (settledAll vars ss)
      = (collectWith fs vars opened ss).map (·.map (·.settled vars)) := by
  cases ss with
  | nil => rfl
  | cons s ss =>
    rw [settledAll, collectWith, collectWith, collectOne_settled s, collectWith_settled ss]
    cases collectOne fs vars opened s with
    | error e => rfl
    | ok found =>
      cases collectWith fs vars opened ss with
      | error e => rfl
      | ok others =>
        show Except.ok _ = Except.ok (List.map _ (found ++ others))
        rw [List.map_append]

end

end

theorem collectWithin_settled (fs : List Fragment) (depth : Nat) (ss : List Selection) :
    collectWithin (fs.map (·.settled vars)) vars depth (settledAll vars ss)
      = (collectWithin fs vars depth ss).map (·.map (·.settled vars)) := by
  induction depth generalizing ss with
  | zero => exact collectWith_settled vars fs (fun f => rfl) ss
  | succ depth ih => exact collectWith_settled vars fs (fun f => ih f.selections) ss

theorem collect_settled (d : Document) (ss : List Selection) :
    collect (fragments (settled vars d)) vars (settledAll vars ss)
      = (collect (fragments d) vars ss).map (·.map (·.settled vars)) := by
  unfold collect
  rw [fragments_settled, List.length_map]
  exact collectWithin_settled vars (fragments d) _ ss

theorem expandWithin_settled (d : Document) (depth : Nat) (nodes : List FieldNode) :
    expandWithin (fragments (settled vars d)) vars refuseLabel depth (nodes.map (·.settled vars))
      = expandWithin (fragments d) vars refuseLabel depth nodes := by
  induction depth generalizing nodes with
  | zero => cases nodes <;> rfl
  | succ depth ih =>
    rw [expandWithin, expandWithin, List.mapM_map]
    congr 1
    funext n
    have label : refuseLabel (n.settled vars) = refuseLabel n := rfl
    have args : argumentValues vars (n.settled vars).args = argumentValues vars n.args :=
      argumentValues_settled vars n.args
    rw [Function.comp, label, args, FieldNode.settled_name, FieldNode.settled_output,
      FieldNode.settled_selections, collect_settled]
    cases collect (fragments d) vars n.selections with
    | error e => rfl
    | ok children =>
      refine bind_congr fun _ => ?_
      show (expandWithin _ vars refuseLabel depth (children.map (·.settled vars)) >>= _)
        = expandWithin _ vars refuseLabel depth children >>= _
      rw [ih]

theorem expand_settled (d : Document) (nodes : List FieldNode) :
    expand (settled vars d) vars refuseLabel (nodes.map (·.settled vars))
      = expand d vars refuseLabel nodes := by
  unfold expand
  rw [size_settled, expandWithin_settled]

theorem rootValue_settled (w : World) (context : Value) (d : Document) (n : FieldNode) :
    rootValue w context (settled vars d) vars (n.settled vars) = rootValue w context d vars n := by
  have args : argumentValues vars (n.settled vars).args = argumentValues vars n.args :=
    argumentValues_settled vars n.args
  unfold rootValue
  rw [args, FieldNode.settled_name, FieldNode.settled_selections, collect_settled]
  split
  · rfl
  · cases collect (fragments d) vars n.selections with
    | error e => rw [Except.map, liftM_error_bind, liftM_error_bind]
    | ok nodes => rw [Except.map, liftM_ok_bind, liftM_ok_bind, expand_settled]

end

end Document

/-- Executes the query of a document that was read. -/
def World.executeRead (w : World) (context : Value) (d : Document) (vars : Document.Variables) :
    Requesting (List (String × Value)) := do
  let o ← Document.query d
  Requesting.useContext
  let roots ← Document.collect (Document.fragments d) vars o.selections
  roots.foldlM (fun found f => do
    let v ← Requesting.making (Document.rootValue w context d vars f)
    return Document.putNamed found f.output v) []

theorem World.executeDocument_eq (w : World) (context : Value) (source : String)
    (vars : Document.Variables) : w.executeDocument context source vars = (do
      Requesting.ensureCompleted w
      w.executeRead context (← Document.readValid w source) vars) := rfl

open Document in
/-- A settled document is executed as it was. -/
theorem World.executeRead_settled (w : World) (context : Value) (d : Document)
    (vars : Document.Variables) :
    w.executeRead context (settled vars d) vars = w.executeRead context d vars := by
  have asked : Document.query (settled vars d) = (Document.query d).map (·.settled vars) := by
    unfold Document.query
    rw [operations_settled]
    cases operations d with
    | nil => rfl
    | cons o os =>
      cases os with
      | nil =>
        show (if o.kind == .query then _ else _) = Except.map _ (if o.kind == .query then _ else _)
        split <;> rfl
      | cons o' os =>
        show Except.error (Fault.operationCount ((o :: o' :: os).map (·.settled vars)).length) = _
        rw [List.length_map]
        rfl
  unfold executeRead
  rw [asked]
  cases Document.query d with
  | error e => rw [Except.map, liftM_error_bind, liftM_error_bind]
  | ok o =>
    rw [Except.map, liftM_ok_bind, liftM_ok_bind]
    have same : (o.settled vars).selections = settledAll vars o.selections := rfl
    refine bind_congr fun _ => ?_
    rw [same, collect_settled]
    cases collect (fragments d) vars o.selections with
    | error e => rw [Except.map, liftM_error_bind, liftM_error_bind]
    | ok roots =>
      rw [Except.map, liftM_ok_bind, liftM_ok_bind, List.foldlM_map]
      simp only [rootValue_settled, FieldNode.settled_output]

/-! ## What a document that is executed was given -/

namespace Document

/-- A root field that has a value was expanded, unless it asks for the name of the root type. -/
theorem rootValue_expanded {w : World} {context : Value} {d : Document} {vars : Variables}
    {n : FieldNode} (own : n.name ≠ Schema.typeNameName) {v : Value} {a b : Trail}
    (h : runOn (rootValue w context d vars n) a = (.ok v, b)) :
    ∃ depth rs, Expanded d vars refuseLabel depth n.selections rs := by
  unfold rootValue at h
  rw [if_neg (by simpa using own)] at h
  obtain ⟨nodes, _, collected, h⟩ := bind_eq_ok h
  obtain ⟨rs, _, expanded, _⟩ := bind_eq_ok h
  exact ⟨_, rs, nodes, (outcome_of_run collected).1, (outcome_of_run expanded).1⟩

theorem Expanded.answered {d : Document} {vars : Variables} {check : FieldNode → Outcome Unit}
    {depth : Nat} {ss : List Selection} {rs : List Requested}
    (h : Expanded d vars check depth ss rs) {s : Selection} (met : Met (fragments d) vars ss s) :
    Answered vars s.directives := by
  obtain ⟨nodes, collected, _⟩ := h
  exact (collectWithin_collects _ collected).answered s met

end Document

open Document in
/-- Variables count as they are given. Two documents that differ in the declarations of variables,
or in arguments whose variables were not given, are executed alike, and so are a variable and a
literal for the missing value. Only directives demand something: a document that is executed with
success was given a value for every variable in the conditions that were met. -/
theorem World.variables_count_as_given (w : World) {vars : Variables} {source : String}
    {d : Document} (valid : readValid w source = .ok d) (context : Value) :
    (∀ source' d', readValid w source' = .ok d' → settled vars d' = settled vars d →
        w.executeDocument context source' vars = w.executeDocument context source vars)
      ∧ ∀ o results a b, Document.query d = .ok o →
        runOn (w.executeDocument context source vars) a = (.ok results, b) →
          (∀ s, Met (fragments d) vars o.selections s → Answered vars s.directives)
            ∧ ∀ n, KeptIn (fragments d) vars o.selections n → n.name ≠ Schema.typeNameName →
              ∀ tt, Opens (fragments d) vars n.selections tt →
                ∀ s, Met (fragments d) vars tt s → Answered vars s.directives := by
  constructor
  · intro source' d' valid' same
    rw [executeDocument_eq, executeDocument_eq, valid, valid']
    refine bind_congr fun _ => ?_
    rw [liftM_ok_bind, liftM_ok_bind, ← executeRead_settled w context d', same,
      executeRead_settled]
  · intro o results a b asked run
    rw [executeDocument_eq, valid] at run
    obtain ⟨_, _, _, run⟩ := bind_eq_ok run
    rw [liftM_ok_bind] at run
    unfold executeRead at run
    rw [asked, liftM_ok_bind] at run
    obtain ⟨_, _, _, run⟩ := bind_eq_ok run
    obtain ⟨roots, _, collected, run⟩ := bind_eq_ok run
    have collects := collectWithin_collects _ (outcome_of_run collected).1
    refine ⟨collects.answered, fun n kept own tt opens s met => ?_⟩
    obtain ⟨_, _, _, _, step⟩ := foldlM_each run ((collects.kept n).2 kept)
    obtain ⟨v, _, made, _⟩ := bind_eq_ok step
    obtain ⟨depth, rs, expanded⟩ := rootValue_expanded own (Requesting.run_of_making made)
    obtain ⟨_, _, expanded⟩ := expanded.opens opens
    exact expanded.answered met

/-- A complete schema with one query, which gives its argument; five if there is none. -/
def World.echoing : World :=
  let context : Param := ⟨0, "context"⟩
  let factory : Value :=
    .function 1 ["a"] none (.fn ["c"] none (.item (.var "a") (.lit (.str "n")))) []
  let arguments : ArgShape := .defaults [(.str "n", .int 5)]
  ((Session.start default context 8).after
    [.addQueryWithArgs .unmodified "echo" (.builtin .int) arguments factory "", .complete]).world

open Document in
theorem World.echoing_counts_as_given :
    ∃ d, readValid echoing "query($n: Int = 7) { echo(n: $n) }" = .ok d
      ∧ ∀ source' d', readValid echoing source' = .ok d' → settled [] d' = settled [] d →
        echoing.executeDocument .none source' []
          = echoing.executeDocument .none "query($n: Int = 7) { echo(n: $n) }" [] := by
  have accepted (w : World) (source : String) (valid : (readValid w source).isOk = true) :
      ∃ d, readValid w source = .ok d
        ∧ ∀ source' d', readValid w source' = .ok d' → settled [] d' = settled [] d →
          w.executeDocument .none source' [] = w.executeDocument .none source [] := by
    cases read : readValid w source with
    | error e =>
      rw [read] at valid
      cases valid
    | ok d => exact ⟨d, rfl, (variables_count_as_given w read .none).1⟩
  exact accepted echoing _ (by decide +kernel)

/-- The number that a document is given. -/
def World.echoed (source : String) (vars : Document.Variables) : Option Int :=
  match (runOn (echoing.executeDocument .none source vars) ⟨0, echoing.trail⟩).1 with
  | .ok [(_, v)] => v.asInt?
  | _ => none

/-- A variable that is not given does not get its default, and it may be missing though its type
says that it may not. -/
theorem World.declared_default_unused :
    echoed "query($n: Int = 7) { echo(n: $n) }" [] = some 5
      ∧ echoed "query($n: Int = 7) { echo(n: $n) }" [("n", .int 7)] = some 7
      ∧ echoed "query($n: Int!) { echo(n: $n) }" [] = some 5 := by
  decide +kernel

end EntityGraph
