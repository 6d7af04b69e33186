import EntityGraph.Document.Outline
import EntityGraph.Proofs.Run

/-!
# What directives keep

A selection stays unless its own directives leave it out. Whoever reads a selection set meets its
selections, and those of every fragment in it that stays; a field is kept if it is met and stays.
This is said here by rules, without a bound and without a list. Collecting fields, if it succeeds,
finds the kept ones and no others, and it has then read the conditions of everything that it met.

The rules follow a selection down to the fields, while collecting runs along a list and up to a
bound. `Collects` is what the two have in common: it is shown for each selection, put together along
a list, and then carried from one bound to the next.
-/

set_option linter.unusedSectionVars false

namespace EntityGraph.Document

/-- The condition of a directive, if it is a truth value. -/
def Directive.truth? (vars : Variables) (d : Directive) : Option Bool :=
  match d.args.reverse.lookup "if" with
  | some (.bool b) => some b
  | some (.var n) =>
    match vars.lookup n with
    | some (.bool b) => some b
    | _ => none
  | _ => none

/-- Whether the variable in the condition of a directive was given, with a value that is not
missing. -/
def Directive.IsGiven (vars : Variables) (d : Directive) : Prop :=
  ∀ n, d.args.reverse.lookup "if" = some (.var n) → ∃ v, vars.lookup n = some v ∧ v.isNone = false

/-- Whether directives leave a selection in place: of those with one name the first one counts. -/
structure Stays (vars : Variables) (ds : List Directive) : Prop where
  notSkipped : ∀ d, ds.find? (·.name == "skip") = some d → d.truth? vars ≠ some true
  notExcluded : ∀ d, ds.find? (·.name == "include") = some d → d.truth? vars ≠ some false

/-- Whether the variables that directives ask for were given. What is skipped is not asked whether
it is included. -/
structure Answered (vars : Variables) (ds : List Directive) : Prop where
  skips : ∀ d, ds.find? (·.name == "skip") = some d → d.IsGiven vars
  includes : (∀ d, ds.find? (·.name == "skip") = some d → d.truth? vars ≠ some true) →
    ∀ d, ds.find? (·.name == "include") = some d → d.IsGiven vars

def Selection.directives : Selection → List Directive
  | .field _ _ _ ds _ => ds
  | .spread _ ds => ds
  | .inline _ ds _ => ds

section

variable (fs : List Fragment) (vars : Variables)

/-- Whether a selection is met in selections: it is one of them, or met in a fragment among them
that stays. -/
inductive Met : List Selection → Selection → Prop
  | here {ss : List Selection} {s : Selection} (among : s ∈ ss) : Met ss s
  | inline {ss tt : List Selection} {onType : Option String} {ds : List Directive} {s : Selection}
      (among : .inline onType ds tt ∈ ss) (stays : Stays vars ds) (met : Met tt s) : Met ss s
  | spread {ss : List Selection} {name : String} {ds : List Directive} {f : Fragment}
      {s : Selection} (among : .spread name ds ∈ ss) (stays : Stays vars ds)
      (found : fragment? fs name = some f) (met : Met f.selections s) : Met ss s

/-- Whether a field is kept in selections: it is met there, and stays. -/
def KeptIn (ss : List Selection) (n : FieldNode) : Prop :=
  ∃ ds, Met fs vars ss (.field n.label n.name n.args ds n.selections) ∧ Stays vars ds

/-- Whether selections are opened with others: they are these, or opened with those beneath a field
that is kept in them. -/
inductive Opens : List Selection → List Selection → Prop
  | here {ss : List Selection} : Opens ss ss
  | beneath {ss tt : List Selection} {n : FieldNode} (kept : KeptIn fs vars ss n)
      (opens : Opens n.selections tt) : Opens ss tt

end

/-! ## Directives -/

theorem condition_ok {vars : Variables} {d : Directive} {v : Value}
    (h : condition vars d = .ok v) :
    d.IsGiven vars ∧ ∀ b, v = .bool b ↔ d.truth? vars = some b := by
  unfold condition at h
  split at h
  · next b' given =>
    cases h
    exact ⟨fun n var => (nomatch given.symm.trans var), fun b => by simp [Directive.truth?, given]⟩
  · next n given =>
    split at h
    · next u known =>
      split at h
      · cases h
      · next present =>
        cases h
        refine ⟨fun n' var => ?_, fun b => ?_⟩
        · cases given.symm.trans var
          exact ⟨v, known, by simpa using present⟩
        · cases v <;> simp [Directive.truth?, given, known]
    · cases h
  · cases h

theorem holds_ok {vars : Variables} {ds : List Directive} {name : String} {expected b : Bool}
    (h : holds vars ds name expected = .ok b) :
    (∀ d, ds.find? (·.name == name) = some d → d.IsGiven vars)
      ∧ (b = true ↔ ∃ d, ds.find? (·.name == name) = some d ∧ d.truth? vars = some expected) := by
  unfold holds at h
  split at h
  · next missing =>
    cases h
    simp [missing]
  · next d found =>
    obtain ⟨v, known, h⟩ := outcome_bind_ok h
    obtain ⟨given, truth⟩ := condition_ok known
    simp only [found, Option.some.injEq, exists_eq_left', forall_eq', ← truth expected]
    refine ⟨given, ?_⟩
    split at h
    · cases h
      simp
    · next other =>
      cases h
      simpa using other expected

theorem isIncluded_ok {vars : Variables} {ds : List Directive} {b : Bool}
    (h : isIncluded vars ds = .ok b) : Answered vars ds ∧ (b = true ↔ Stays vars ds) := by
  obtain ⟨skips, skipping, h⟩ := outcome_bind_ok h
  obtain ⟨asked, skipped⟩ := holds_ok skipping
  cases skips with
  | true =>
    cases h
    obtain ⟨d, found, truth⟩ := skipped.1 rfl
    exact ⟨⟨asked, fun stays => absurd truth (stays d found)⟩,
      nofun, fun stays => absurd truth (stays.notSkipped d found)⟩
  | false =>
    -- Only now is the other directive read.
    rw [if_neg (by simp)] at h
    obtain ⟨excludes, excluding, h⟩ := outcome_bind_ok h
    obtain ⟨asked', excluded⟩ := holds_ok excluding
    refine ⟨⟨asked, fun _ => asked'⟩, ?_⟩
    have notSkipped : ∀ d, ds.find? (·.name == "skip") = some d → d.truth? vars ≠ some true :=
      fun d found truth => nomatch skipped.2 ⟨d, found, truth⟩
    cases h
    cases excludes with
    | true =>
      obtain ⟨d, found, truth⟩ := excluded.1 rfl
      exact ⟨nofun, fun stays => absurd truth (stays.notExcluded d found)⟩
    | false =>
      refine ⟨fun _ => ⟨notSkipped, fun d found truth => ?_⟩, fun _ => rfl⟩
      exact nomatch excluded.2 ⟨d, found, truth⟩

/-! ## What is met -/

section

variable {fs : List Fragment} {vars : Variables}

theorem met_nil {x : Selection} : ¬Met fs vars [] x := by
  intro met
  cases met with
  | here among => cases among
  | inline among => cases among
  | spread among => cases among

theorem met_cons {s x : Selection} {ss : List Selection} :
    Met fs vars (s :: ss) x ↔ Met fs vars [s] x ∨ Met fs vars ss x := by
  constructor
  · intro met
    cases met with
    | here among =>
      rcases List.mem_cons.1 among with is | among
      · exact .inl (.here (List.mem_singleton.2 is))
      · exact .inr (.here among)
    | inline among stays met =>
      rcases List.mem_cons.1 among with is | among
      · exact .inl (.inline (List.mem_singleton.2 is) stays met)
      · exact .inr (.inline among stays met)
    | spread among stays found met =>
      rcases List.mem_cons.1 among with is | among
      · exact .inl (.spread (List.mem_singleton.2 is) stays found met)
      · exact .inr (.spread among stays found met)
  · have more {tt : List Selection} (sub : ∀ y ∈ tt, y ∈ s :: ss) (met : Met fs vars tt x) :
        Met fs vars (s :: ss) x := by
      cases met with
      | here among => exact .here (sub _ among)
      | inline among stays met => exact .inline (sub _ among) stays met
      | spread among stays found met => exact .spread (sub _ among) stays found met
    rintro (met | met)
    · exact more (by simp) met
    · exact more (fun y hy => List.mem_cons_of_mem _ hy) met

theorem met_field {label : Option String} {name : String} {args : List Argument}
    {ds : List Directive} {ss : List Selection} {x : Selection} :
    Met fs vars [.field label name args ds ss] x ↔ x = .field label name args ds ss := by
  constructor
  · intro met
    cases met with
    | here among => exact List.mem_singleton.1 among
    | inline among => simp at among
    | spread among => simp at among
  · rintro rfl
    exact .here (List.mem_singleton_self _)

theorem met_inline {onType : Option String} {ds : List Directive} {ss : List Selection}
    {x : Selection} : Met fs vars [.inline onType ds ss] x
      ↔ x = .inline onType ds ss ∨ Stays vars ds ∧ Met fs vars ss x := by
  constructor
  · intro met
    cases met with
    | here among => exact .inl (List.mem_singleton.1 among)
    | inline among stays met =>
      cases List.mem_singleton.1 among
      exact .inr ⟨stays, met⟩
    | spread among => simp at among
  · rintro (rfl | ⟨stays, met⟩)
    · exact .here (List.mem_singleton_self _)
    · exact .inline (List.mem_singleton_self _) stays met

theorem met_spread {name : String} {ds : List Directive} {x : Selection} :
    Met fs vars [.spread name ds] x ↔ x = .spread name ds
      ∨ Stays vars ds ∧ ∃ f, fragment? fs name = some f ∧ Met fs vars f.selections x := by
  constructor
  · intro met
    cases met with
    | here among => exact .inl (List.mem_singleton.1 among)
    | inline among => simp at among
    | spread among stays found met =>
      cases List.mem_singleton.1 among
      exact .inr ⟨stays, _, found, met⟩
  · rintro (rfl | ⟨stays, f, found, met⟩)
    · exact .here (List.mem_singleton_self _)
    · exact .spread (List.mem_singleton_self _) stays found met

end

/-! ## Collecting -/

section

variable {fs : List Fragment} {vars : Variables}

/-- Whether fields are those that selections keep, and the conditions of all that was met on the way
could be read. -/
structure Collects (fs : List Fragment) (vars : Variables) (ss : List Selection)
    (nodes : List FieldNode) : Prop where
  kept : ∀ n, n ∈ nodes ↔ KeptIn fs vars ss n
  answered : ∀ s, Met fs vars ss s → Answered vars s.directives

theorem collects_nil : Collects fs vars [] [] where
  kept _ := ⟨nofun, fun ⟨_, met, _⟩ => absurd met met_nil⟩
  answered _ met := absurd met met_nil

theorem collects_cons {s : Selection} {ss : List Selection} {nodes others : List FieldNode}
    (first : Collects fs vars [s] nodes) (rest : Collects fs vars ss others) :
    Collects fs vars (s :: ss) (nodes ++ others) where
  kept n := by
    rw [List.mem_append, first.kept, rest.kept]
    constructor
    · rintro (⟨ds, met, stays⟩ | ⟨ds, met, stays⟩)
      · exact ⟨ds, met_cons.2 (.inl met), stays⟩
      · exact ⟨ds, met_cons.2 (.inr met), stays⟩
    · rintro ⟨ds, met, stays⟩
      exact (met_cons.1 met).imp (⟨ds, ·, stays⟩) (⟨ds, ·, stays⟩)
  answered x met := (met_cons.1 met).elim (first.answered x) (rest.answered x)

theorem collects_field {label : Option String} {name : String} {args : List Argument}
    {ds : List Directive} {ss : List Selection} {included : Bool}
    (known : isIncluded vars ds = .ok included) :
    Collects fs vars [.field label name args ds ss]
      (if included then [⟨label, name, args, ss⟩] else []) := by
  obtain ⟨answered, stays⟩ := isIncluded_ok known
  refine ⟨fun n => ?_, fun x met => ?_⟩
  · simp only [KeptIn, met_field]
    cases included with
    | true =>
      refine ⟨fun hn => ?_, fun ⟨ds', same, _⟩ => ?_⟩
      · cases List.mem_singleton.1 hn
        exact ⟨ds, rfl, stays.1 rfl⟩
      · injection same with label name args _ ss
        subst label name args ss
        exact List.mem_singleton_self _
    | false =>
      refine ⟨nofun, fun ⟨ds', same, own⟩ => ?_⟩
      injection same with _ _ _ ds _
      subst ds
      exact nomatch stays.2 own
  · rw [met_field.1 met]
    exact answered

/-- Of a selection that does not stay only its own directives are read. -/
theorem collects_none {s : Selection} (answered : Answered vars s.directives)
    (alone : ∀ x, Met fs vars [s] x → x = s)
    (other : ∀ label name args ds ss, s ≠ .field label name args ds ss) :
    Collects fs vars [s] [] where
  kept n := ⟨nofun, fun ⟨_, met, _⟩ => absurd (alone _ met).symm (other _ _ _ _ _)⟩
  answered x met := by
    rw [alone x met]
    exact answered

/-- What is collected from a selection that stays. -/
inductive Staying (fs : List Fragment) (vars : Variables)
    (opened : Fragment → Outcome (List FieldNode)) : Selection → List FieldNode → Prop
  | field {label : Option String} {name : String} {args : List Argument} {ds : List Directive}
      {ss : List Selection} :
      Staying fs vars opened (.field label name args ds ss) [⟨label, name, args, ss⟩]
  | inline {onType : Option String} {ds : List Directive} {ss : List Selection}
      {nodes : List FieldNode} (inside : collectWith fs vars opened ss = .ok nodes) :
      Staying fs vars opened (.inline onType ds ss) nodes
  | spread {name : String} {ds : List Directive} {f : Fragment} {nodes : List FieldNode}
      (found : fragment? fs name = some f) (inside : opened f = .ok nodes) :
      Staying fs vars opened (.spread name ds) nodes

variable {opened : Fragment → Outcome (List FieldNode)}

/-- A selection is left out, or it stays and gives what stands there. -/
theorem collectOne_ok {s : Selection} {nodes : List FieldNode}
    (h : collectOne fs vars opened s = .ok nodes) :
    (isIncluded vars s.directives = .ok false ∧ nodes = [])
      ∨ (isIncluded vars s.directives = .ok true ∧ Staying fs vars opened s nodes) := by
  cases s with
  | field label name args ds ss =>
    obtain ⟨included, known, h⟩ := outcome_bind_ok h
    cases included with
    | false => exact .inl ⟨known, (Except.ok.inj h).symm⟩
    | true =>
      cases h
      exact .inr ⟨known, .field⟩
  | inline onType ds ss =>
    obtain ⟨included, known, h⟩ := outcome_bind_ok h
    cases included with
    | false => exact .inl ⟨known, (Except.ok.inj h).symm⟩
    | true => exact .inr ⟨known, .inline h⟩
  | spread name ds =>
    obtain ⟨included, known, h⟩ := outcome_bind_ok h
    cases included with
    | false => exact .inl ⟨known, (Except.ok.inj h).symm⟩
    | true =>
      rw [if_pos rfl] at h
      split at h
      · next f found => exact .inr ⟨known, .spread found h⟩
      · cases h

variable (opens : ∀ f nodes, opened f = .ok nodes → Collects fs vars f.selections nodes)

include opens

mutual

theorem collectOne_collects (s : Selection) {nodes : List FieldNode}
    (h : collectOne fs vars opened s = .ok nodes) : Collects fs vars [s] nodes := by
  cases s with
  | field label name args ds ss =>
    rcases collectOne_ok h with ⟨known, rfl⟩ | ⟨known, here⟩
    · exact collects_field known
    · cases here
      exact collects_field known
  | inline onType ds ss =>
    rcases collectOne_ok h with ⟨known, rfl⟩ | ⟨known, here⟩
    · obtain ⟨answered, stays⟩ := isIncluded_ok known
      refine collects_none answered (fun x met => ?_) (by simp)
      exact (met_inline.1 met).resolve_right fun ⟨own, _⟩ => nomatch stays.2 own
    · obtain ⟨answered, included⟩ := isIncluded_ok known
      have stays : Stays vars ds := included.1 rfl
      cases here with
      | inline inside =>
        have inside := collectWith_collects ss inside
        refine ⟨fun n => (inside.kept n).trans ?_, fun x met => ?_⟩
        · simp [KeptIn, met_inline, stays]
        · rcases met_inline.1 met with rfl | ⟨_, met⟩
          · exact answered
          · exact inside.answered x met
  | spread name ds =>
    rcases collectOne_ok h with ⟨known, rfl⟩ | ⟨known, here⟩
    · obtain ⟨answered, stays⟩ := isIncluded_ok known
      refine collects_none answered (fun x met => ?_) (by simp)
      exact (met_spread.1 met).resolve_right fun ⟨own, _⟩ => nomatch stays.2 own
    · obtain ⟨answered, included⟩ := isIncluded_ok known
      have stays : Stays vars ds := included.1 rfl
      cases here with
      | spread found inside =>
        have inside := opens _ nodes inside
        refine ⟨fun n => (inside.kept n).trans ?_, fun x met => ?_⟩
        · simp [KeptIn, met_spread, stays, found]
        · rcases met_spread.1 met with rfl | ⟨_, f', found', met⟩
          · exact answered
          · cases found.symm.trans found'
            exact inside.answered x met

theorem collectWith_collects (ss : List Selection) {nodes : List FieldNode}
    (h : collectWith fs vars opened ss = .ok nodes) : Collects fs vars ss nodes := by
  cases ss with
  | nil =>
    cases h
    exact collects_nil
  | cons s ss =>
    obtain ⟨first, found, h⟩ := outcome_bind_ok h
    obtain ⟨others, later, h⟩ := outcome_bind_ok h
    cases h
    exact collects_cons (collectOne_collects s found) (collectWith_collects ss later)

end

end

/-- What is collected from selections, with any bound, is what they keep. -/
theorem collectWithin_collects {fs : List Fragment} {vars : Variables} (depth : Nat)
    {ss : List Selection} {nodes : List FieldNode}
    (h : collectWithin fs vars depth ss = .ok nodes) : Collects fs vars ss nodes := by
  induction depth generalizing ss nodes with
  | zero =>
    refine collectWith_collects (fun f nodes opened => ?_) ss h
    cases opened
  | succ depth ih => exact collectWith_collects (fun _ _ opened => ih opened) ss h

/-! ## Expanding

Every kept field is expanded, with what was expanded beneath it; and nothing else is. -/

section

variable {d : Document} {vars : Variables} {check : FieldNode → Outcome Unit}

/-- Whether the fields of selections were collected and expanded, with a bound on their nesting. -/
def Expanded (d : Document) (vars : Variables) (check : FieldNode → Outcome Unit) (depth : Nat)
    (ss : List Selection) (rs : List Requested) : Prop :=
  ∃ nodes, collect (fragments d) vars ss = .ok nodes
    ∧ expandWithin (fragments d) vars check depth nodes = .ok rs

theorem Expanded.beneath {depth : Nat} {ss : List Selection} {rs : List Requested}
    (h : Expanded d vars check depth ss rs) {n : FieldNode}
    (kept : KeptIn (fragments d) vars ss n) :
    ∃ depth' children, Expanded d vars check depth' n.selections children
      ∧ .field n.output n.name (argumentValues vars n.args) children ∈ rs := by
  obtain ⟨nodes, collected, expanded⟩ := h
  have among := ((collectWithin_collects _ collected).kept n).2 kept
  cases depth with
  | zero =>
    -- With the bound used up, only an empty list of fields is let through.
    unfold expandWithin at expanded
    split at expanded
    · next none =>
      rw [List.isEmpty_iff.1 none] at among
      cases among
    · cases expanded
  | succ depth =>
    obtain ⟨r, made, hr⟩ := outcome_mapM_each expanded among
    obtain ⟨_, _, made⟩ := outcome_bind_ok made
    obtain ⟨children, collected, made⟩ := outcome_bind_ok made
    obtain ⟨rs', expanded, made⟩ := outcome_bind_ok made
    cases made
    exact ⟨depth, rs', ⟨children, collected, expanded⟩, hr⟩

theorem Expanded.origin {depth : Nat} {ss : List Selection} {rs : List Requested}
    (h : Expanded d vars check depth ss rs) {r : Requested} (hr : r ∈ rs) :
    ∃ depth' n children, depth = depth' + 1 ∧ KeptIn (fragments d) vars ss n ∧ check n = .ok ()
      ∧ Expanded d vars check depth' n.selections children
      ∧ r = .field n.output n.name (argumentValues vars n.args) children := by
  obtain ⟨nodes, collected, expanded⟩ := h
  cases depth with
  | zero =>
    unfold expandWithin at expanded
    split at expanded
    · cases expanded
      cases hr
    · cases expanded
  | succ depth =>
    obtain ⟨n, among, made⟩ := outcome_mapM_mem expanded hr
    obtain ⟨_, checked, made⟩ := outcome_bind_ok made
    obtain ⟨nodes', collected', made⟩ := outcome_bind_ok made
    obtain ⟨children, expanded', made⟩ := outcome_bind_ok made
    cases made
    have kept := ((collectWithin_collects _ collected).kept n).1 among
    exact ⟨depth, n, children, rfl, kept, checked, ⟨nodes', collected', expanded'⟩, rfl⟩

theorem Expanded.unique {depth : Nat} {ss : List Selection} {rs rs' : List Requested}
    (h : Expanded d vars check depth ss rs) (h' : Expanded d vars check depth ss rs') :
    rs = rs' := by
  obtain ⟨nodes, collected, expanded⟩ := h
  obtain ⟨nodes', collected', expanded'⟩ := h'
  cases collected.symm.trans collected'
  cases expanded.symm.trans expanded'
  rfl

/-- Whatever is opened with what was expanded was expanded. -/
theorem Expanded.opens {ss tt : List Selection} (opens : Opens (fragments d) vars ss tt)
    {depth : Nat} {rs : List Requested} (h : Expanded d vars check depth ss rs) :
    ∃ depth' rs', Expanded d vars check depth' tt rs' := by
  induction opens generalizing depth rs with
  | here => exact ⟨depth, rs, h⟩
  | beneath kept opens ih =>
    obtain ⟨_, _, expanded, _⟩ := h.beneath kept
    exact ih expanded

end

end EntityGraph.Document
