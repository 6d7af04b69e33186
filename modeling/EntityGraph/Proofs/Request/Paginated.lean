import EntityGraph.Proofs.Request.Undisturbed

/-!
# Pagination is slicing

The bounds of a request are applied inside the composed expression, to the sequence of the query and
before anything is projected. Provided the application is pure, the result is the same as if the
bounds had been applied to the records in the end: what is projected and filled in for an element
does not depend on the others.

Two runs are compared here, of which the second one evaluates some rows of the first one only. So it
retraces the first run: it succeeds where the first one does, with records that cannot be told apart
from those that are wanted, and may succeed where a row that is not wanted fails.
-/

set_option linter.unusedSectionVars false

namespace EntityGraph

open Remembering (memory)

/-! ## Bounds -/

namespace Paging

/-- A bound as a value. -/
def bound (count : Option Nat) : Value := count.elim .none fun n => .int n

/-- Pagination by numbers of elements. -/
def counting (offset limit : Option Nat) : Paging := ⟨bound offset, bound limit⟩

theorem isBound_bound (count : Option Nat) : isBound (bound count) = true := by
  cases count with
  | none => rfl
  | some n => simp [bound, isBound]

theorem exists_bound {v : Value} (h : isBound v = true) : ∃ count, v = bound count := by
  cases v with
  | none => exact ⟨none, rfl⟩
  | int n =>
    obtain ⟨m, rfl⟩ := Int.eq_ofNat_of_zero_le (show 0 ≤ n by simpa [isBound] using h)
    exact ⟨some m, rfl⟩
  | _ => cases h

/-- Queries for sequences can be paginated by all numbers of elements. -/
theorem check_counting {q : QueryDecl} (isList : q.isList = true) (offset limit : Option Nat) :
    (counting offset limit).check q = .ok () := by
  simp [check, counting, isBound_bound, isList]

/-- Nothing else is a pagination. -/
theorem check_refuses {p : Paging} {q : QueryDecl}
    (bad : (∀ offset limit, p ≠ counting offset limit) ∨ q.isList = false ∧ p ≠ all) :
    ∃ f, p.check q = .error f ∧ f.kind = .invalidArgument := by
  cases checked : p.check q with
  | error f =>
    refine ⟨f, rfl, ?_⟩
    unfold check at checked
    split at checked
    · cases checked
      rfl
    · split at checked
      · cases checked
        rfl
      · split at checked
        · cases checked
          rfl
        · cases checked
  | ok =>
    obtain ⟨offset, limit, single⟩ := check_ok checked
    obtain ⟨p₁, p₂⟩ := p
    rcases bad with bad | ⟨isSingle, bad⟩
    · obtain ⟨o, rfl⟩ := exists_bound offset
      obtain ⟨l, rfl⟩ := exists_bound limit
      exact absurd rfl (bad o l)
    · obtain ⟨noOffset, noLimit⟩ := single isSingle
      obtain rfl := Value.eq_none_of_isNone noOffset
      obtain rfl := Value.eq_none_of_isNone noLimit
      exact absurd rfl bad

/-- What is made of the elements of a sequence, which may be missing. -/
def ofElements (w : World) (make : List Value → Making Value) (v : Value) : Making Value :=
  if v.isNone then pure .none
  else do
    let vs ← Value.elements (← Making.now w) v
    make vs

theorem ofElements_of_present (w : World) (make : List Value → Making Value) {v : Value}
    (present : v.isNone = false) :
    ofElements w make v
      = (Making.now w >>= fun now => (liftM (Value.elements now v) : Making (List Value)))
        >>= make := by
  rw [ofElements, if_neg (by simp [present]), bind_assoc]

theorem cutOne_bind (w : World) (cut : Nat → List Value → List Value) (count : Option Nat)
    (v : Value) (make : List Value → Making Value) :
    cutOne w cut (bound count) v >>= ofElements w make
      = ofElements w (fun vs => make (count.elim vs (cut · vs))) v := by
  cases count with
  | none => rfl
  | some n =>
    unfold ofElements
    cases missing : v.isNone with
    | true =>
      obtain rfl := Value.eq_none_of_isNone missing
      rfl
    | false =>
      simp only [bound, cutOne, Option.elim_some, missing, Bool.false_eq_true, if_false, bind_assoc,
        pure_bind, Int.toNat_natCast]
      rfl

/-- Of a sequence that is cut, those elements are used that are wanted. -/
theorem cut_bind (w : World) (offset limit : Option Nat) (v : Value)
    (make : List Value → Making Value) :
    (counting offset limit).cut w v >>= ofElements w make
      = ofElements w (fun vs => make (window (offset.getD 0) limit vs)) v := by
  rw [cut, bind_assoc]
  simp only [counting, cutOne_bind]
  congr 1
  funext vs
  cases offset <;> cases limit <;> rfl

end Paging

/-! ## Evaluating the wanted rows -/

/-- What a run with bounds gives beside one without: the wanted records, or nothing where there is no
sequence. -/
def Windowed {w : World} (L : Likeness w) (offset limit : Option Nat) (host : HostType) (v : Value)
    (m : Memory) (v' : Value) (m' : Memory) : Prop :=
  v = .none ∧ v' = .none ∨ ∃ us us', v = .list us ∧ v' = .list us'
    ∧ List.Forall₂ (Akin L m m' true host false) (window (offset.getD 0) limit us) us'

/-- Whatever holds of a computation beside itself holds also where another one retraces it. -/
theorem Retraces.and_self {σ α β : Type} [Remembering σ] {later : Memory → Memory → Prop}
    {m m' : Memory} {Q : α → Memory → β → Memory → Prop} {P : α → Memory → α → Memory → Prop}
    {x : ExceptT Fault (StateM σ) α} {y : ExceptT Fault (StateM σ) β}
    (h : Retraces later m m' Q x y) (self : Steady later m m P x x) :
    Retraces later m m' (fun a n b n' => Q a n b n' ∧ P a n a n) x y := by
  intro t t' u a ht ht' run
  obtain ⟨after, b, u', run', after', related⟩ := h t t' u a ht ht' run
  obtain ⟨_, _, both⟩ := self.run ht ht run run
  exact ⟨after, b, u', run', after', related, both⟩

section

variable {w : World} {L : Likeness w} {context : Value} {u u' : World} {n n' : Memory}

theorem Requesting.retraces_making {α β : Type} {Q : α → Memory → β → Memory → Prop} {x : Making α}
    {y : Making β} (h : Retraces L.later n n' Q x y) :
    Retraces L.later n n' Q (making x) (making y) := by
  intro t t' u a ht ht' run
  rw [runOn_making] at run
  cases ran : runOn x t.trail with
  | mk r s =>
    rw [ran] at run
    cases run
    obtain ⟨after, b, s', run', after', related⟩ := h t.trail t'.trail s a ht ht' ran
    refine ⟨after, b, { t' with trail := s' }, ?_, after', related⟩
    rw [runOn_making, run']

/-- The results for rows, of which the second run has only those that are wanted. -/
theorem Likeness.retraces_ofElements (hu : w.Becomes L.later u) (hu' : w.Becomes L.later u')
    (hn : L.later u.memory n) (hn' : L.later u'.memory n') {host : HostType} {v v' : Value}
    (alike : L.alike host true v n v' n') (offset limit : Option Nat) {f g : Value → Making Value}
    (rows : ∀ {x x' k k'}, L.later n k → L.later n' k' → L.alike host false x k x' k' →
      Steady L.later k k' (fun v i v' i' => Akin L i i' true host false v v') (f x) (g x')) :
    Retraces L.later n n' (Windowed L offset limit host)
      (Paging.ofElements u (fun vs => do return .list (← vs.mapM f)) v)
      (Paging.ofElements u' (fun vs => do
        return .list (← (window (offset.getD 0) limit vs).mapM g)) v') := by
  have same := L.missing alike
  cases missing : v.isNone with
  | true =>
    rw [missing] at same
    unfold Paging.ofElements
    rw [if_pos missing, if_pos same.symm]
    exact (steady_pure fun _ _ _ _ => .inl ⟨rfl, rfl⟩).retraces
  | false =>
    rw [missing] at same
    rw [Paging.ofElements_of_present u _ missing, Paging.ofElements_of_present u' _ same.symm]
    refine retraces_bind (L.steady_elementsOf hu hu' hn hn' alike missing).retraces
      fun vs vs' k k' hk hk' all => ?_
    have steady : List.Forall₂ (fun x x' => Steady L.later k k'
        (fun v i v' i' => Akin L i i' true host false v v') (f x) (g x')) vs vs' :=
      all.imp fun _ _ alike => rows hk hk' alike
    have keeps : ∀ x ∈ vs, Ages L.later k (f x) :=
      ((List.forall₂_and_left vs vs').1 (steady.imp fun _ _ row =>
        ⟨row.ages ⟨0, k', []⟩ (Std.Refl.refl _), row⟩)).1
    refine retraces_bind (retraces_mapM_window (fun _ _ _ _ _ _ hg hg' akin => akin.lasts hg hg')
      keeps (offset.getD 0) limit
      ((forall₂_window steady (offset.getD 0) limit).imp fun _ _ row => row.retraces))
      fun us us' i i' _ _ akin => ?_
    refine (steady_pure fun j j' hj hj' => .inr ⟨us, us', rfl, rfl, akin.imp fun _ _ akin => ?_⟩).retraces
    exact akin.lasts hj hj'

variable (sealed : Sealed u) (sealed' : Sealed u') (orderly : Orderly u.schema.types)
  (orderly' : Orderly u'.schema.types) (hu : w.Becomes L.later u) (hu' : w.Becomes L.later u')
  (hn : L.later u.memory n) (hn' : L.later u'.memory n')

include sealed sealed' orderly orderly' hu hu' hn hn'

/-- With bounds, a request for entities evaluates the wanted rows of the request without. -/
theorem QueryDecl.retraces_finish {host : HostType}
    (entity : (w.schema.typeOf host).isScalar = false) (offset limit : Option Nat) {q : QueryDecl}
    (isList : q.isList = true) {plan plan' : Plan}
    (alike : PlansAlike L u u' context n n' host true plan plan') (fits : plan.Fits u)
    (fits' : plan'.Fits u') {body body' : Expr Value}
    (evaluates : Steady L.later n n' (L.alike host true) (u.evaluateBody body context)
      (u'.evaluateBody body' context)) (k k' : Nat) :
    Steady L.later n n' (fun e l e' l' => Retraces L.later l l' (Windowed L offset limit host)
        (u.evaluate e context) (u'.evaluate e' context))
      (do
        Making.passOver (max k plan.ceiling)
        return .lambda [u.schema.context] (← plan.assemble (Paging.all.apply body)))
      (do
        Making.passOver (max k' plan'.ceiling)
        return .lambda [u'.schema.context]
          (← plan'.assemble ((Paging.counting offset limit).apply body'))) := by
  refine steady_assembling sealed sealed' orderly orderly' hu hu' hn hn' k k'
    fun a a' b b' e e' ha ha' above above' made made' => ?_
  cases alike with
  | plain scalar =>
    rw [scalar] at entity
    cases entity
  | @records _ _ ms ms' _ members =>
    -- Both select records of all rows; with bounds the rows are cut before they are selected from.
    let row : Param := ⟨a.supply + 1, Schema.entityName (w.schema.typeOf host).name⟩
    let row' : Param := ⟨a'.supply + 1, Schema.entityName (w.schema.typeOf host).name⟩
    obtain ⟨fs, assembled, rfl⟩ := Plan.assemble_records_ok made
    obtain ⟨fs', assembled', rfl⟩ := Plan.assemble_records_ok made'
    obtain ⟨_, steady⟩ := membersSteady_assemble sealed sealed' orderly orderly' hu hu' hn hn' ms
      members fits.2 fits'.2 above above' row row' (Nat.lt_succ_self _) (Nat.lt_succ_self _)
      (Nat.le_succ _) (Nat.le_succ _) assembled assembled'
    show Retraces L.later a.memory a'.memory _
      ((Expr.seq .select (Paging.all.apply body) [.lambda [row] _]).eval u.host
        (.bind u.schema.context context .empty))
      ((Expr.seq .select ((Paging.counting offset limit).apply body') [.lambda [row'] _]).eval u'.host
        (.bind u'.schema.context context .empty))
    rw [eval_select, eval_select,
      Paging.eval_apply u'.host (Paging.check_counting isList offset limit), bind_assoc]
    refine retraces_bind (evaluates.onwards ha ha').retraces fun v v' l l' hl hl' alike => ?_
    refine Eq.mp (congrArg _ (Paging.cut_bind u' offset limit v' _).symm) ?_
    refine L.retraces_ofElements hu hu'
      (IsTrans.trans _ _ _ hn (IsTrans.trans _ _ _ ha hl))
      (IsTrans.trans _ _ _ hn' (IsTrans.trans _ _ _ ha' hl')) alike offset limit ?_
    intro x x' i i' hi hi' alike
    have apart : a.supply < row.id := Nat.lt_succ_self _
    have apart' : a'.supply < row'.id := Nat.lt_succ_self _
    exact steady_row sealed sealed' orderly orderly' hu hu' hn hn' fits fits' apart apart' steady
      (grounds_context u context _)
      (grounds_context u' context _)
      (IsTrans.trans _ _ _ ha (IsTrans.trans _ _ _ hl hi))
      (IsTrans.trans _ _ _ ha' (IsTrans.trans _ _ _ hl' hi')) alike

variable {asked : String → Prop} (pure : w.Pure L context asked)

include pure

/-! ## Requests with bounds -/

/-- Filling in the wanted records of a run without bounds. -/
theorem Materialize.retraces_value {host : HostType}
    (entity : (w.schema.typeOf host).isScalar = false) (offset limit : Option Nat)
    (ss : List Selected) {v v' : Value} (windowed : Windowed L offset limit host v n v' n')
    (self : Akin L n n true host true v v) :
    Retraces L.later n n' (Windowed L offset limit host)
      (value u (w.schema.typeOf host) ss true v) (value u' (w.schema.typeOf host) ss true v') := by
  have missing (u : World) : value u (w.schema.typeOf host) ss true .none = Pure.pure .none := by
    rw [value, entity]
    rfl
  have listed (u : World) (us : List Value) : value u (w.schema.typeOf host) ss true (.list us)
      = (us.mapM (value u (w.schema.typeOf host) ss false) >>= fun vs =>
          Pure.pure (Value.list vs)) := by
    have row : value u (w.schema.typeOf host) ss false
        = records (fun es => do
            return reorder (ss.map (·.name)) (← fields u (w.schema.typeOf host) ss es)) false := by
      funext v
      rw [value, entity]
      rfl
    rw [row, value, entity]
    rfl
  obtain ⟨rfl, rfl⟩ | ⟨us, us', rfl, rfl, wanted⟩ := windowed
  · rw [missing, missing]
    exact (steady_pure fun _ _ _ _ => .inl ⟨rfl, rfl⟩).retraces
  · have row {v : World} {k : Memory} (hv : w.Becomes L.later v) (hk : L.later v.memory k)
        {x x' : Value} (akin : Akin L n k true host false x x') :
        Steady L.later n k (fun v i v' i' => Akin L i i' true host false v v')
          (value u (w.schema.typeOf host) ss false x)
          (value v (w.schema.typeOf host) ss false x') := by
      have akin : Akin L n k (!(w.schema.typeOf host).isScalar) host false x x' := by rwa [entity]
      have steady := steady_value pure ss false hu hv hn hk akin
      rwa [entity] at steady
    have keeps : ∀ x ∈ us, Ages L.later n (value u (w.schema.typeOf host) ss false x) := by
      cases self with
      | records each =>
        exact List.forall₂_same.1 ((akinEach_iff.1 each).imp fun x x' akin =>
          ((row hu hn akin).ages ⟨0, n, []⟩ (Std.Refl.refl _)))
    rw [listed, listed]
    refine retraces_bind (retraces_mapM_window (fun _ _ _ _ _ _ hg hg' akin => akin.lasts hg hg')
      keeps (offset.getD 0) limit (wanted.imp fun _ _ akin => (row hu' hn' akin).retraces))
      fun vs vs' k k' _ _ filled => ?_
    refine (steady_pure fun l l' hl hl' =>
      .inr ⟨vs, vs', rfl, rfl, filled.imp fun _ _ akin => ?_⟩).retraces
    exact akin.lasts hl hl'

/-- With bounds, a query for entities gives the wanted records of the query without. -/
theorem World.retraces_runQuery {q : QueryDecl} (found : w.query q.name = .ok q)
    (isList : q.isList = true) (entity : (w.schema.typeOf q.host).isScalar = false)
    (isAsked : asked q.name) (args : List (String × Value)) (selections : List Selected)
    (offset limit : Option Nat) :
    Retraces L.later n n' (Windowed L offset limit q.host)
      (u.runQuery context q.name args selections .all)
      (u'.runQuery context q.name args selections (.counting offset limit)) := by
  have declared := (mem_of_query found).1
  have all : Paging.all.check q = .ok () := Paging.check_counting isList none none
  have counting := Paging.check_counting isList offset limit
  unfold runQuery
  rw [hu.query, hu'.query, found, liftM_ok_bind, liftM_ok_bind, hu.typeOf, hu'.typeOf, isList]
  have checks : Matches (fun _ _ => Paging.all.check q = .ok ()
      ∧ (Paging.counting offset limit).check q = .ok ())
      (Paging.all.check q) ((Paging.counting offset limit).check q) := by
    rw [all, counting]
    exact ⟨rfl, rfl⟩
  have composed := q.steady_composeWith sealed sealed' orderly orderly' hu hu' hn hn' pure declared
    isAsked args selections checks
    (Q := fun e l e' l' => Retraces L.later l l' (Windowed L offset limit q.host)
      (u.evaluate e context) (u'.evaluate e' context))
    fun _ _ hl hl' alike fits fits' evaluates k k' => by
      rw [isList] at alike evaluates
      exact q.retraces_finish sealed sealed' orderly orderly' hu hu' (IsTrans.trans _ _ _ hn hl)
        (IsTrans.trans _ _ _ hn' hl') entity offset limit isList alike fits fits' evaluates k k'
  have self := q.steady_compose sealed sealed orderly orderly hu hu hn hn pure declared isAsked args
    selections .all
  refine retraces_bind (composed.retraces.and_self self) fun e e' k k' hk hk' evaluates => ?_
  refine retraces_bind (evaluates.1.and_self evaluates.2) fun v v' l l' hl hl' windowed => ?_
  have akin := windowed.2
  rw [entity, isList] at akin
  exact Materialize.retraces_value sealed sealed' orderly orderly' hu hu'
    (IsTrans.trans _ _ _ hn (IsTrans.trans _ _ _ hk hl))
    (IsTrans.trans _ _ _ hn' (IsTrans.trans _ _ _ hk' hl')) pure entity offset limit selections
    windowed.1 akin

theorem World.retraces_executeQuery {q : QueryDecl} (found : w.query q.name = .ok q)
    (isList : q.isList = true) (entity : (w.schema.typeOf q.host).isScalar = false)
    (isAsked : asked q.name) (args : List (String × Value)) (selections : List Selected)
    (offset limit : Option Nat) :
    Retraces L.later n n' (Windowed L offset limit q.host)
      (u.executeQuery context q.name args selections .all)
      (u'.executeQuery context q.name args selections (.counting offset limit)) := by
  unfold executeQuery
  refine retraces_bind (Requesting.steady_ensureCompleted sealed sealed').retraces
    fun _ _ k k' hk hk' _ => ?_
  refine retraces_bind Requesting.steady_useContext.retraces fun _ _ l l' hl hl' _ => ?_
  exact Requesting.retraces_making (retraces_runQuery sealed sealed' orderly orderly' hu hu'
    (IsTrans.trans _ _ _ hn (IsTrans.trans _ _ _ hk hl))
    (IsTrans.trans _ _ _ hn' (IsTrans.trans _ _ _ hk' hl')) pure found isList entity isAsked args
    selections offset limit)

end

/-! ## Sessions -/

/-- A pagination that is refused is refused before anything is composed. -/
theorem World.runQuery_refused {w : World} {q : QueryDecl} (found : w.query q.name = .ok q)
    {paging : Paging} {f : Fault} (refused : paging.check q = .error f) (context : Value)
    (args : List (String × Value)) (selections : List Selected) (t : Trail) :
    runOn (w.runQuery context q.name args selections paging) t = (.error f, t) := by
  rw [runQuery, found, liftM_ok_bind, QueryDecl.compose, refused]
  rfl

theorem World.executeQuery_refused {w : World} (completed : w.schema.completed = true)
    {q : QueryDecl} (found : w.query q.name = .ok q) {paging : Paging} {f : Fault}
    (refused : paging.check q = .error f) (context : Value) (args : List (String × Value))
    (selections : List Selected) (t : Usage) :
    (runOn (w.executeQuery context q.name args selections paging) t).1 = .error f := by
  rw [runOn_executeQuery completed, runQuery_refused found refused]

namespace Session

/-- Pagination refuses everything but numbers of elements, and any bound on a single value. By
numbers of elements, a query for entities gives the wanted records of what it gives without bounds,
provided that the application is pure. Any requests and refused declarations may come before either
of the two requests. -/
theorem pagination_slices (v : World) (parameter : Param) (supply : Nat) (past : List Event) :
    let s := (start v parameter supply).after past
    s.world.schema.completed = true → ∀ q, s.world.query q.name = .ok q →
      ∀ (context : Value) (args : List (String × Value)) (selections : List Selected),
        (∀ paging : Paging,
          (∀ offset limit, paging ≠ .counting offset limit) ∨ q.isList = false ∧ paging ≠ .all →
            ∃ f, (runOn (Event.execute context q.name args selections paging).act s).1 = .error f
              ∧ f.kind = .invalidArgument)
        ∧ (q.isList = true → (s.world.schema.typeOf q.host).isScalar = false →
          ∀ (L : Likeness s.world) (asked : String → Prop), s.world.Pure L context asked →
            asked q.name → ∀ es es' : List Event,
              (∀ e ∈ es ++ es', e.isDeclaration = true ∨ e.Sends s.world context asked) →
                ∀ (offset limit : Option Nat) (t : Session) (R : Value),
                  runOn (Event.execute context q.name args selections .all).act (s.after es)
                    = (.ok (.value R), t) →
                  ∃ t' R', runOn (Event.execute context q.name args selections
                      (.counting offset limit)).act (s.after es') = (.ok (.value R'), t')
                    ∧ Windowed L offset limit q.host R t.world.memory R' t'.world.memory
                    ∧ (L.IsEquality → R = .none ∧ R' = .none ∨ ∃ rows, R = .list rows
                      ∧ R' = .list (window (offset.getD 0) limit rows))) := by
  intro s completed q found context args selections
  constructor
  · intro paging bad
    obtain ⟨f, refused, kind⟩ := Paging.check_refuses bad
    refine ⟨f, ?_, kind⟩
    rw [Event.act, runOn_map, runOn_requesting]
    dsimp only
    rw [World.executeQuery_refused completed found refused]
    rfl
  · intro isList entity L asked pure isAsked es es' each offset limit t R run
    have reached (es : List Event) : (s.after es).world.IsReached := by
      refine ⟨v, parameter, supply, past ++ es, ?_⟩
      rw [after_append]
    have becomes (ds : List Event) (sub : ∀ e ∈ ds, e ∈ es ++ es') :
        s.world.Becomes L.later (s.after ds).world :=
      becomes_after pure completed v parameter supply past (becomes_refl s L)
        fun e he => each e (sub e he)
    have hu := becomes es (by simp +contextual)
    have hu' := becomes es' (by simp +contextual)
    have retraces := World.retraces_executeQuery
      ((reached es).sealed (hu.completed.trans completed))
      ((reached es').sealed (hu'.completed.trans completed)) (reached es).orderly
      (reached es').orderly hu hu' (Std.Refl.refl _) (Std.Refl.refl _) pure found isList entity
      isAsked args selections offset limit
    rw [Event.act, runOn_map, runOn_requesting] at run
    dsimp only at run
    cases ran : runOn ((s.after es).world.executeQuery context q.name args selections .all)
        ⟨(s.after es).contexts, (s.after es).world.trail⟩ with
    | mk r u =>
      rw [ran] at run
      cases r with
      | error e => cases run
      | ok a =>
        cases run
        obtain ⟨_, b, u', run', _, windowed⟩ := retraces _
          ⟨(s.after es').contexts, (s.after es').world.trail⟩ u R (Std.Refl.refl _)
          (Std.Refl.refl _) ran
        refine ⟨⟨(s.after es').world.following u'.trail, u'.contexts⟩, b, ?_, windowed,
          fun equality => ?_⟩
        · rw [Event.act, runOn_map, runOn_requesting]
          dsimp only
          rw [run']
          rfl
        · obtain none | ⟨rows, rows', is, is', akin⟩ := windowed
          · exact .inl none
          · have same : window (offset.getD 0) limit rows = rows' :=
              List.forall₂_eq_eq_eq ▸ akin.imp fun _ _ akin => Akin.eq equality akin
            exact .inr ⟨rows, is, by rw [is', same]⟩

/-! ### Lists of users -/

/-- A complete schema of users, each of whom is the text that stands for it, with a query for them. -/
def listing (query : Event) : List Event :=
  let lambda : Value :=
    .ofTree (.lambda [⟨0, "context"⟩, QueryDecl.sampleEntity] (.param QueryDecl.sampleEntity))
  [.addType sharedHost none "",
    .addField sharedHost "value" lambda (some (.builtin .str)) false "", query, .complete]

/-- A query for three users. -/
def crowd : Event :=
  .addQuery .modified "users" sharedHost
    (.ofTree (.lambda [⟨0, "context"⟩] (.lit (.list [.str "x", .str "y", .str "z"])))) ""

/-- Asks for users. -/
def listUsers (paging : Paging) : Event := .execute .none "users" [] [.field "value" [] []] paging

/-- The text of the one member of a record. -/
def rowText : Value → String
  | .record _ [(_, .str s)] => s
  | _ => ""

/-- The texts of the users that an answer lists. -/
def listed : Outcome Answer → Option (List String)
  | .ok (.value (.list vs)) => some (vs.map rowText)
  | _ => none

theorem eq_of_listed {r : Outcome Answer} {ss : List String} (h : listed r = some ss) :
    ∃ vs, r = .ok (.value (.list vs)) ∧ vs.map rowText = ss := by
  unfold listed at h
  split at h
  · next vs => exact ⟨vs, rfl, Option.some.inj h⟩
  · cases h

/-- Whether the queries that are called `users` give a list. -/
def givesUsers (context : Param) (q : QueryDecl) : Bool :=
  q.name != "users" || q.host == sharedHost && q.isList &&
    match q.source, q.shape with
    | .fixed (.lambda [c] (.lit (.list _))), .none => c == context
    | _, _ => false

/-- Texts, and users. -/
def IsText (host : HostType) (_ : Value) : Prop := host = .builtin .str ∨ host = sharedHost

theorem hasTexts_equal (w : World) : HasTexts (equalLikeness w IsText) :=
  { isEquality_equal w IsText with
    hosts := fun alike => alike.2
    text := fun _ _ _ => ⟨rfl, .inl rfl⟩ }

theorem pure_of_givesUsers {w : World} (types : w.schema.types.all (handsOn w.schema.context) = true)
    (queries : w.schema.queries.all (givesUsers w.schema.context) = true) :
    w.Pure (equalLikeness w IsText) .none (· = "users") := by
  refine (hasTexts_equal w).pure types fun q declared named args u u' hu hu' => ?_
  have gives := List.all_eq_true.1 queries q declared
  simp only [givesUsers, named, bne_self_eq_false, Bool.false_or, Bool.and_eq_true,
    beq_iff_eq] at gives
  obtain ⟨⟨host, isList⟩, source⟩ := gives
  split at source
  · next c vs is shape =>
    obtain rfl := eq_of_beq source
    unfold Compose.queryValue QueryDecl.expression
    rw [shape, is, hu.context, hu'.context, host, isList]
    refine steady_bind (steady_bind_none u u' args) fun _ _ _ _ _ _ _ => ?_
    simp only [pure_bind, beq_self_eq_true, if_true]
    refine steady_pure fun n n' _ _ => ?_
    show Steady _ n n' _ (pure (Value.list vs)) (pure (Value.list vs))
    exact steady_pure fun _ _ _ _ => ⟨rfl, vs, rfl, fun _ _ => .inr rfl⟩
  · cases source

theorem crowd_pages :
    let s := (start default ⟨0, "context"⟩ 8).after (listing crowd)
    listed (runOn (listUsers .all).act s).1 = some ["x", "y", "z"]
      ∧ listed (runOn (listUsers (.counting (some 1) (some 1))).act s).1 = some ["y"]
      ∧ ∃ f, (runOn (listUsers ⟨.int (-1), .none⟩).act s).1 = .error f
        ∧ f.kind = .invalidArgument := by
  -- the schema itself is large, so only the facts about it that count are given to the proof
  have pages (past : List Event) (s : Session) (h : (start default ⟨0, "context"⟩ 8).after past = s)
      (completed : s.world.schema.completed = true)
      (types : s.world.schema.types.all (handsOn s.world.schema.context) = true)
      (queries : s.world.schema.queries.all (givesUsers s.world.schema.context) = true)
      (known : (s.world.query "users").isOk = true)
      (entity : (s.world.schema.typeOf sharedHost).isScalar = false)
      (shown : listed (runOn (listUsers .all).act s).1 = some ["x", "y", "z"]) :
      listed (runOn (listUsers (.counting (some 1) (some 1))).act s).1 = some ["y"]
        ∧ ∃ f, (runOn (listUsers ⟨.int (-1), .none⟩).act s).1 = .error f
          ∧ f.kind = .invalidArgument := by
    subst h
    cases found : ((start default ⟨0, "context"⟩ 8).after past).world.query "users" with
    | error e =>
      rw [found] at known
      cases known
    | ok q =>
      obtain ⟨declared, named⟩ := World.mem_of_query found
      have gives := List.all_eq_true.1 queries q declared
      simp only [givesUsers, named, bne_self_eq_false, Bool.false_or, Bool.and_eq_true,
        beq_iff_eq] at gives
      obtain ⟨⟨host, isList⟩, -⟩ := gives
      obtain ⟨refuses, slices⟩ := pagination_slices default ⟨0, "context"⟩ 8 past completed q
        (by rw [named, found]) .none [] [.field "value" [] []]
      rw [named] at refuses slices
      constructor
      · obtain ⟨rows, answer, texts⟩ := eq_of_listed shown
        obtain ⟨t', R', run, _, same⟩ := slices isList (by rw [host, entity])
          (equalLikeness _ IsText) (· = "users") (pure_of_givesUsers types queries) rfl [] []
          (by simp) (some 1) (some 1) _ (.list rows) (Prod.ext answer rfl)
        obtain ⟨none, _⟩ | ⟨_, is, is'⟩ := same (isEquality_equal _ _)
        · cases none
        · cases is
          have wanted : (window 1 (some 1) rows).map rowText = ["y"] := by
            show ((rows.drop 1).take 1).map rowText = ["y"]
            rw [List.map_take, List.map_drop, texts]
            rfl
          show listed (runOn (listUsers _).act (((start default ⟨0, "context"⟩ 8).after past).after
            [])).1 = _
          rw [listUsers, run, is', ← wanted]
          rfl
      · exact refuses ⟨.int (-1), .none⟩ (.inl fun offset limit same => by
          cases offset <;> cases (Paging.mk.inj same).1)
  have shown : listed (runOn (listUsers .all).act
      ((start default ⟨0, "context"⟩ 8).after (listing crowd))).1 = some ["x", "y", "z"] := by
    decide +kernel
  exact ⟨shown, pages (listing crowd) _ rfl (by decide +kernel) (by decide +kernel)
    (by decide +kernel) (by decide +kernel) (by decide +kernel) shown⟩

/-! ### An application that is not pure -/

/-- A world with a list of two users, kept by an object. -/
def stocked : World :=
  { (default : World) with
    objects := [("store", ⟨.declared "Store", [("users", .list [.str "x", .str "y"])]⟩)] }

/-- A query that is captured anew for each request, and then gives the users of the object and puts
another one in their place. -/
def fickle : Event :=
  let store : Script Value := .lit (.object (.declared "store"))
  let users : Script Value :=
    .list [.attr store "users", .setAttr store "users" (.list [.str "z"])]
  .addQueryWithArgs .modified "users" sharedHost .none
    (.function 1 ["arguments"] none (.fn ["context"] none (.item users (.lit (.int 0)))) []) ""

/-- Where a function of the application changes what is there, the wanted records are not those of an
earlier answer. -/
theorem fickle_strays :
    let s := (start stocked ⟨0, "context"⟩ 8).after (listing fickle)
    s.world.schema.completed = true
      ∧ listed (runOn (listUsers .all).act s).1 = some ["x", "y"]
      ∧ listed (runOn (listUsers (.counting none (some 1))).act (s.after [listUsers .all])).1
        = some ["z"] := by
  decide +kernel

end Session

end EntityGraph
