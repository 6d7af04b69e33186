import EntityGraph.Eval.Evaluate
import EntityGraph.Proofs.Expr.Open
import EntityGraph.Proofs.Run
import EntityGraph.Script.Run
import EntityGraph.Value.Message

/-!
# Missing values along chains

Where a chain of accesses starts with a missing value, nothing of the chain is evaluated: every link
first looks at what stands below it, and passes a missing value on. The step is proved for each kind
of link by itself, since each is evaluated in its own way; a chain of any length is then a fold.

What ends in a single value without a default does not pass a missing sequence on. It refuses it,
and the text of the refusal shows the whole chain. So the refusal is met as it was made only if the
chain can be shown. What stands in the keys and the arguments was never evaluated, but it is shown.
-/

namespace EntityGraph

/-- What an expression can be put into as the source of an access. -/
inductive Link where
  | member (name : String)
  | item (key : Expr Value)
  | method (name : String) (args : List (Expr Value))
  | negation
  | sequence (op : SeqOp) (args : List (Expr Value))

namespace Link

/-- The access with an expression as its source. -/
def on (e : Expr Value) : Link → Expr Value
  | member name => .member e name
  | item key => .item e key
  | method name args => .method e name args
  | negation => .unary .neg e
  | sequence op args => .seq op e args

/-- Whether a link passes a missing value on. -/
def isPassing : Link → Bool
  | sequence op _ => op.passesMissing
  | _ => true

end Link

namespace Expr

/-- The accesses of a chain, one on top of the other, the first on top of its root. -/
def chain (root : Expr Value) (links : List Link) : Expr Value := links.foldl Link.on root

variable {h : Host} {root : Expr Value} {s : Scope Value} {t u : Trail}

/-- An operation on a missing sequence passes it on or refuses it, and evaluates nothing else. -/
theorem eval_seq_missing (missing : runOn (root.eval h s) t = (.ok .none, u)) (op : SeqOp)
    (args : List (Expr Value)) :
    runOn ((seq op root args).eval h s) t
      = (if op.passesMissing then .ok .none else .error (.missingSequence op (.seq op root args)),
          u) := by
  have gone : Value.none.isNone = true := rfl
  rw [eval, runOn_bind_ok missing, if_pos gone]
  split <;> rfl

/-- A link passes a missing value on, and evaluates nothing else. -/
theorem eval_link (missing : runOn (root.eval h s) t = (.ok .none, u)) {l : Link}
    (passing : l.isPassing = true) : runOn ((l.on root).eval h s) t = (.ok .none, u) := by
  cases l with
  | member name =>
    rw [Link.on, eval, runOn_bind_ok missing]
    rfl
  | item key =>
    rw [Link.on, eval, runOn_bind_ok missing]
    rfl
  | method name args =>
    rw [Link.on, eval, runOn_bind_ok missing]
    rfl
  | negation =>
    rw [Link.on, eval, runOn_bind_ok missing]
    rfl
  | sequence op args =>
    have passes : op.passesMissing = true := passing
    rw [Link.on, eval_seq_missing missing, if_pos passes]

/-- A chain passes a missing value on, however many links it has. -/
theorem eval_chain (missing : runOn (root.eval h s) t = (.ok .none, u)) {links : List Link}
    (passing : ∀ l ∈ links, l.isPassing = true) :
    runOn ((root.chain links).eval h s) t = (.ok .none, u) := by
  induction links generalizing root with
  | nil => exact missing
  | cons l links ih =>
    rw [List.forall_mem_cons] at passing
    exact ih (eval_link missing passing.1) passing.2

/-- The refusal of a missing sequence is met as such, unless what is refused cannot be shown. -/
theorem seen_missingSequence (w : World) (op : SeqOp) (e : Expr Value) :
    (Fault.missingSequence op e).seen w
      = ((Value.ofTree e).illegible? w).getD (.missingSequence op e) := by
  rw [Fault.seen, Fault.subjects, List.findSome?_singleton]

/-- A missing value is absorbed along a chain: if its root is missing then the whole chain is, and
all that happens is what evaluating the root does, whatever the keys, the arguments, the counts and
the lambdas of the links are. Neither would any of them be evaluated by what ends the chain. The
first element or a default is missing too; the first element, the number of elements and whether
there is any are refused by an error of evaluation, which is met as such if the expression can be
shown. If it cannot, the error of showing it is met instead. -/
theorem missing_absorbed (missing : runOn (root.eval h s) t = (.ok .none, u)) {links : List Link}
    (passing : ∀ l ∈ links, l.isPassing = true) (args : List (Expr Value)) :
    runOn ((root.chain links).eval h s) t = (.ok .none, u) ∧
      runOn ((seq .firstOrDefault (root.chain links) args).eval h s) t = (.ok .none, u) ∧
      ∀ op ∈ [SeqOp.first, .count, .any], ∃ refusal,
        runOn ((seq op (root.chain links) args).eval h s) t = (.error refusal, u) ∧
          refusal.kind = .evaluation ∧
          ∀ w, refusal.seen w
            = ((Value.ofTree (seq op (root.chain links) args)).illegible? w).getD refusal := by
  have absorbed := eval_chain missing passing
  refine ⟨absorbed, ?_, fun op among => ?_⟩
  · exact eval_link (l := .sequence .firstOrDefault args) absorbed rfl
  · have refuses : op.passesMissing = false := by
      simp only [List.mem_cons, List.not_mem_nil, or_false] at among
      rcases among with rfl | rfl | rfl <;> rfl
    have refused := eval_seq_missing absorbed op args
    rw [refuses, if_neg Bool.false_ne_true] at refused
    exact ⟨_, refused, rfl, fun w => seen_missingSequence w op _⟩

/-- A world with a point that has no coordinate, although its class has a field for one. -/
def pointless : World := { (default : World) with
  classes := [⟨"Point", .record, [], [⟨"x", .missing, none, false⟩], [], [], [], []⟩]
  objects := [("p", ⟨.declared "Point", []⟩)] }

/-- The key, the method's argument, the lambda's body and the count would all fail, since nothing
binds the parameter that they use. -/
theorem unbound_absorbed :
    let s : Scope Value := Scope.empty.bind .x .none
    let links : List Link := [.member "best", .item (param .y), .method "get" [param .y],
      .negation, .sequence .filter [lambda [.z] (param .y)], .sequence .take [param .y]]
    ∀ t : Trail, runOn ((param .x : Expr Value).eval pointless.host s) t = (.ok .none, t) ∧
      (∀ l ∈ links, l.isPassing = true) ∧
      runOn ((chain (param .x) links).eval pointless.host s) t = (.ok .none, t) := by
  intro s links t
  have missing : runOn ((param .x : Expr Value).eval pointless.host s) t = (.ok .none, t) := rfl
  have passing : ∀ l ∈ links, l.isPassing = true := by
    simp [links, Link.isPassing, SeqOp.passesMissing]
  exact ⟨missing, passing, (missing_absorbed missing passing []).1⟩

/-- Counting the elements of an item of a missing value is refused. The key is a point that cannot
be shown, so that the refusal is met as another error. -/
theorem refusal_unseen :
    let counted : Expr Value := seq .count (item (param .x) (lit (.object (.declared "p")))) []
    let refusal : Fault := .missingSequence .count counted
    ∀ t : Trail,
      runOn (counted.eval pointless.host (Scope.empty.bind .x .none)) t = (.error refusal, t) ∧
        (refusal.seen pointless).kind = .missingAttribute := by
  intro counted refusal t
  exact ⟨rfl, rfl⟩

end Expr

end EntityGraph
