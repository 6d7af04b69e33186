import EntityGraph.Expr.Traverse

/-!
# Where parameters are bound

A parameter is bound inside the body of a lambda that declares it, and nowhere else. What an
expression uses outside such bodies is open: a value has to come from the scope it is evaluated in.
This is the lexical notion. It differs from the free parameters of an expression, which leave out
every parameter that any lambda of the expression declares, wherever that lambda stands.

Replacing parameters does not heed lambdas at all. Where a lambda declares neither the parameter
that is replaced nor one that the replacement leaves open, that makes no difference.
-/

namespace EntityGraph.Expr

variable {V : Type}

mutual

/-- The parameters that an expression uses outside the lambdas that declare them. -/
def openParams : Expr V → List Param
  | param p => [p]
  | lit _ | null => []
  | member t _ => t.openParams
  | item t k => t.openParams ++ k.openParams
  | method t _ as => t.openParams ++ openParamsList as
  | func g as => g.openParams ++ openParamsList as
  | unary _ e => e.openParams
  | binary _ l r => l.openParams ++ r.openParams
  | cond p y n => p.openParams ++ y.openParams ++ n.openParams
  | lambda ps b => b.openParams.filter (· ∉ ps)
  | invoke g as => g.openParams ++ openParamsList as
  | seq _ s as => s.openParams ++ openParamsList as
  | record _ fs => openParamsFields fs

/-- The open parameters of several expressions. -/
def openParamsList : List (Expr V) → List Param
  | [] => []
  | e :: es => e.openParams ++ openParamsList es

/-- The open parameters of the members of a record. -/
def openParamsFields : List (V × Expr V) → List Param
  | [] => []
  | (_, e) :: fs => e.openParams ++ openParamsFields fs

end

theorem mem_openParams_lambda {ps : List Param} {b : Expr V} {q : Param} :
    q ∈ (lambda ps b).openParams ↔ q ∈ b.openParams ∧ q ∉ ps := by
  simp [openParams]

mutual

/-- What is open is used. -/
theorem param_mem_nodes {p : Param} (e : Expr V) (h : p ∈ e.openParams) : param p ∈ e.nodes := by
  cases e with
  | param q => simpa [openParams, nodes] using h
  | lit _ | null => cases h
  | member t _ | unary _ t => simp [nodes, param_mem_nodes t h]
  | item t k | binary _ t k =>
    rcases List.mem_append.1 h with h | h
    · simp [nodes, param_mem_nodes t h]
    · simp [nodes, param_mem_nodes k h]
  | method t _ as | func t as | invoke t as | seq _ t as =>
    rcases List.mem_append.1 h with h | h
    · simp [nodes, param_mem_nodes t h]
    · simp [nodes, param_mem_nodesList as h]
  | cond c y n =>
    rcases List.mem_append.1 h with h | h
    · rcases List.mem_append.1 h with h | h
      · simp [nodes, param_mem_nodes c h]
      · simp [nodes, param_mem_nodes y h]
    · simp [nodes, param_mem_nodes n h]
  | lambda ps b => simp [nodes, param_mem_nodes b (mem_openParams_lambda.1 h).1]
  | record _ fs => simp [nodes, param_mem_nodesFields fs h]

theorem param_mem_nodesList {p : Param} (es : List (Expr V)) (h : p ∈ openParamsList es) :
    param p ∈ nodesList es := by
  cases es with
  | nil => cases h
  | cons e es =>
    rcases List.mem_append.1 h with h | h
    · simp [nodesList, param_mem_nodes e h]
    · simp [nodesList, param_mem_nodesList es h]

theorem param_mem_nodesFields {p : Param} (fs : List (V × Expr V)) (h : p ∈ openParamsFields fs) :
    param p ∈ nodesFields fs := by
  cases fs with
  | nil => cases h
  | cons f fs =>
    obtain ⟨n, e⟩ := f
    rcases List.mem_append.1 h with h | h
    · simp [nodesFields, param_mem_nodes e h]
    · simp [nodesFields, param_mem_nodesFields fs h]

end

/-- A parameter is free if it is used and no lambda declares it. -/
theorem mem_freeParams {e : Expr V} {p : Param} :
    p ∈ e.freeParams ↔ param p ∈ e.nodes ∧ p ∉ e.nodes.flatMap declares := by
  have folded : ∀ (declared found used : List Param),
      p ∈ used.foldl (fun found p =>
        if declared.contains p || found.contains p then found else found ++ [p]) found
        ↔ p ∈ found ∨ p ∈ used ∧ p ∉ declared := by
    intro declared found used
    induction used generalizing found with
    | nil => simp
    | cons q used ih =>
      rw [List.foldl_cons, ih]
      by_cases same : p = q <;> grind
  have uses : ∀ n : Expr V, n.used? = some p ↔ n = param p := by
    intro n
    cases n <;> simp [used?]
  rw [freeParams, folded]
  simp [uses]

/-- The parameters that an expression uses outside the lambdas that declare them, although it has a
lambda that does. -/
def strayParams (e : Expr V) : List Param :=
  e.openParams.filter fun p => (e.nodes.flatMap declares).contains p

/-- What is open is free or strays. -/
theorem free_or_stray {e : Expr V} {p : Param} (h : p ∈ e.openParams) :
    p ∈ e.freeParams ∨ p ∈ e.strayParams := by
  rw [mem_freeParams, strayParams, List.mem_filter, List.contains_iff_mem]
  by_cases declared : p ∈ e.nodes.flatMap declares
  · exact .inr ⟨h, declared⟩
  · exact .inl ⟨param_mem_nodes e h, declared⟩

mutual

/-- Whether lambdas are applied only: each is the function of an application or the argument of an
operation on a sequence. The expression itself may be a lambda if it stands in such a place. -/
def isFirstOrder (applied : Bool) : Expr V → Bool
  | param _ | lit _ | null => true
  | member t _ => t.isFirstOrder false
  | item t k => t.isFirstOrder false && k.isFirstOrder false
  | method t _ as => t.isFirstOrder false && areFirstOrder false as
  | func g as => g.isFirstOrder false && areFirstOrder false as
  | unary _ e => e.isFirstOrder false
  | binary _ l r => l.isFirstOrder false && r.isFirstOrder false
  | cond p y n => p.isFirstOrder false && y.isFirstOrder false && n.isFirstOrder false
  | lambda _ b => applied && b.isFirstOrder false
  | invoke g as => g.isFirstOrder true && areFirstOrder false as
  | seq _ s as => s.isFirstOrder false && areFirstOrder true as
  | record _ fs => fieldsFirstOrder fs

/-- Whether the lambdas of several expressions are applied only. -/
def areFirstOrder (applied : Bool) : List (Expr V) → Bool
  | [] => true
  | e :: es => e.isFirstOrder applied && areFirstOrder applied es

/-- Whether the lambdas of the members of a record are applied only. -/
def fieldsFirstOrder : List (V × Expr V) → Bool
  | [] => true
  | (_, e) :: fs => e.isFirstOrder false && fieldsFirstOrder fs

end

/-! ## Replacing parameters -/

/-- The replacement of one parameter by an expression. -/
def single (p : Param) (e : Expr V) (q : Param) : Option (Expr V) := if q = p then some e else none

/-- Whether replacing parameters heeds the lambdas among some nodes: no lambda whose body uses a
parameter that is replaced declares it, or declares what its replacement leaves open. -/
def Uncaught (r : Param → Option (Expr V)) (nodes : List (Expr V)) : Prop :=
  ∀ ps b, lambda ps b ∈ nodes → ∀ p ∈ b.openParams, ∀ e, r p = some e →
    p ∉ ps ∧ ∀ q ∈ e.openParams, q ∉ ps

theorem Uncaught.mono {r : Param → Option (Expr V)} {ns ns' : List (Expr V)} (h : Uncaught r ns)
    (sub : ns' ⊆ ns) : Uncaught r ns' :=
  fun ps b hb => h ps b (sub hb)

mutual

/-- What is open after parameters were replaced was open before, or is open in a replacement. A
lambda that declares a parameter which is replaced inside it loses that use of its own, but opens
nothing beyond what the replacement opens. -/
theorem mem_openParams_substitute {r : Param → Option (Expr V)} {q : Param} (e : Expr V)
    (h : q ∈ (e.substitute r).openParams) :
    (q ∈ e.openParams ∧ r q = none) ∨ ∃ p e', r p = some e' ∧ q ∈ e'.openParams := by
  cases e with
  | param p =>
    rw [substitute] at h
    cases replaced : r p with
    | none =>
      rw [replaced] at h
      obtain rfl : q = p := by simpa [openParams] using h
      exact .inl ⟨h, replaced⟩
    | some e' =>
      rw [replaced] at h
      exact .inr ⟨p, e', replaced, h⟩
  | lit _ | null => cases h
  | member t _ | unary _ t => exact mem_openParams_substitute t h
  | item t k | binary _ t k =>
    rcases List.mem_append.1 h with h | h
    · exact (mem_openParams_substitute t h).imp_left fun h => ⟨List.mem_append_left _ h.1, h.2⟩
    · exact (mem_openParams_substitute k h).imp_left fun h => ⟨List.mem_append_right _ h.1, h.2⟩
  | method t _ as | func t as | invoke t as | seq _ t as =>
    rcases List.mem_append.1 h with h | h
    · exact (mem_openParams_substitute t h).imp_left fun h => ⟨List.mem_append_left _ h.1, h.2⟩
    · exact (mem_openParamsList_substitute as h).imp_left
        fun h => ⟨List.mem_append_right _ h.1, h.2⟩
  | cond c y n =>
    rcases List.mem_append.1 h with h | h
    · rcases List.mem_append.1 h with h | h
      · exact (mem_openParams_substitute c h).imp_left
          fun h => ⟨List.mem_append_left _ (List.mem_append_left _ h.1), h.2⟩
      · exact (mem_openParams_substitute y h).imp_left
          fun h => ⟨List.mem_append_left _ (List.mem_append_right _ h.1), h.2⟩
    · exact (mem_openParams_substitute n h).imp_left fun h => ⟨List.mem_append_right _ h.1, h.2⟩
  | lambda ps b =>
    obtain ⟨inBody, undeclared⟩ := mem_openParams_lambda.1 h
    exact (mem_openParams_substitute b inBody).imp_left
      fun h => ⟨mem_openParams_lambda.2 ⟨h.1, undeclared⟩, h.2⟩
  | record _ fs => exact mem_openParamsFields_substitute fs h

theorem mem_openParamsList_substitute {r : Param → Option (Expr V)} {q : Param}
    (es : List (Expr V)) (h : q ∈ openParamsList (substituteList r es)) :
    (q ∈ openParamsList es ∧ r q = none) ∨ ∃ p e', r p = some e' ∧ q ∈ e'.openParams := by
  cases es with
  | nil => cases h
  | cons e es =>
    rcases List.mem_append.1 h with h | h
    · exact (mem_openParams_substitute e h).imp_left fun h => ⟨List.mem_append_left _ h.1, h.2⟩
    · exact (mem_openParamsList_substitute es h).imp_left
        fun h => ⟨List.mem_append_right _ h.1, h.2⟩

theorem mem_openParamsFields_substitute {r : Param → Option (Expr V)} {q : Param}
    (fs : List (V × Expr V)) (h : q ∈ openParamsFields (substituteFields r fs)) :
    (q ∈ openParamsFields fs ∧ r q = none) ∨ ∃ p e', r p = some e' ∧ q ∈ e'.openParams := by
  cases fs with
  | nil => cases h
  | cons f fs =>
    obtain ⟨n, e⟩ := f
    rcases List.mem_append.1 h with h | h
    · exact (mem_openParams_substitute e h).imp_left fun h => ⟨List.mem_append_left _ h.1, h.2⟩
    · exact (mem_openParamsFields_substitute fs h).imp_left
        fun h => ⟨List.mem_append_right _ h.1, h.2⟩

end

section

variable (r : Param → Option (Expr V))

/-- The visitor that replaces parameters leaves other nodes as they are. -/
theorem replaceParam_of_kind {e : Expr V} (other : e.kind ≠ .param) : replaceParam r e = none := by
  cases e <;> first | rfl | exact absurd rfl other

theorem getD_replaceParam (p : Param) :
    (replaceParam r (param p)).getD (param p) = (r p).getD (param p) := by
  simp only [replaceParam]
  split
  · next q found =>
    rw [found]
    by_cases same : q = p
    · simp [same]
    · simp [same]
  · rfl

/-- What a walk that replaces parameters makes of a node that is none: the node with the parts that
were made anew. -/
theorem getD_offer {self e : Expr V} {rebuilt : Option (Expr V)} (other : self.kind ≠ .param)
    (still : e.kind ≠ .param) (made : rebuilt.getD self = e) :
    (offer (replaceParam r) self rebuilt).getD self = e := by
  cases rebuilt with
  | none => simpa [offer, replaceParam_of_kind r other] using made
  | some e' =>
    obtain rfl : e' = e := made
    simp [offer, replaceParam_of_kind r still]

/-- A node is made anew if one of its parts was. -/
theorem getD_rebuilt {α β γ : Type} (f : α → β → γ) (a : Option α) (b : Option β) (x : α) (y : β) :
    (if a.isSome || b.isSome then some (f (a.getD x) (b.getD y)) else none).getD (f x y)
      = f (a.getD x) (b.getD y) := by
  cases a <;> cases b <;> rfl

/-- What a walk that replaces parameters makes of a node that is checked when it is made anew. -/
theorem offer_checked {self e : Expr V} {again : Except (TreeFault V) (Expr V)} {replaced : Bool}
    (other : self.kind ≠ .param) (still : e.kind ≠ .param) (made : again = .ok e)
    (unreplaced : replaced = false → self = e) :
    ∃ o, (if replaced then do
        let rebuilt ← again
        .ok (offer (replaceParam r) self (some rebuilt))
      else .ok (offer (replaceParam r) self none)) = .ok o ∧ o.getD self = e := by
  cases replaced with
  | true => exact ⟨_, by rw [made]; rfl, getD_offer r other still rfl⟩
  | false => exact ⟨_, rfl, getD_offer r other still (unreplaced rfl)⟩

theorem isLambdaOf_substitute_of_isLambdaOf {n : Nat} {e : Expr V} (h : e.isLambdaOf n) :
    (e.substitute r).isLambdaOf n := by
  cases e with
  | lambda ps b => exact h
  | _ => cases h

theorem substituteList_eq_map (es : List (Expr V)) :
    substituteList r es = es.map (·.substitute r) := by
  induction es with
  | nil => rfl
  | cons e es ih => rw [substituteList, ih, List.map_cons]

theorem substituteFields_eq_map (fs : List (V × Expr V)) :
    substituteFields r fs = fs.map fun f => (f.1, f.2.substitute r) := by
  induction fs with
  | nil => rfl
  | cons f fs ih =>
    obtain ⟨name, e⟩ := f
    rw [substituteFields, ih, List.map_cons]

theorem length_substituteList (es : List (Expr V)) : (substituteList r es).length = es.length := by
  rw [substituteList_eq_map, List.length_map]

theorem find?_substituteList {n : Nat} {es : List (Expr V)} (h : ∀ e ∈ es, e.isLambdaOf n) :
    (substituteList r es).find? (!·.isLambdaOf n) = none := by
  induction es with
  | nil => rfl
  | cons e es ih =>
    rw [List.forall_mem_cons] at h
    have kept := isLambdaOf_substitute_of_isLambdaOf r h.1
    rw [substituteList, List.find?_cons_of_neg (by simp [kept]), ih h.2]

/-- An operation on a sequence takes its arguments after a replacement, as it did before. -/
theorem makeSeq_substitute {op : SeqOp} {s : Expr V} {as : List (Expr V)}
    (formed : (seq op s as).isWellFormed) :
    makeSeq op (s.substitute r) (substituteList r as) = .ok ((seq op s as).substitute r) := by
  simp only [isWellFormed, Bool.and_eq_true, decide_eq_true_eq] at formed
  obtain ⟨⟨⟨⟨least, most⟩, functions⟩, -⟩, -⟩ := formed
  have counts : ¬(as.length < op.minArgs ∨ 1 < as.length) := by omega
  unfold makeSeq
  rw [length_substituteList, if_neg (by simpa using counts)]
  by_cases takes : op.takesFunction = true
  · have each : ∀ e ∈ as, e.isLambdaOf 1 := by simpa [takes] using functions
    rw [if_pos takes, find?_substituteList r each]
    rfl
  · rw [if_neg takes]
    rfl

mutual

/-- Replacing the parameters of a well-formed expression passes every check again. -/
theorem visit_replaceParam (e : Expr V) (formed : e.isWellFormed) :
    ∃ o, e.visit (replaceParam r) = .ok o ∧ o.getD e = e.substitute r := by
  cases e with
  | param p => exact ⟨_, rfl, getD_replaceParam r p⟩
  | lit v => exact ⟨_, rfl, rfl⟩
  | null => exact ⟨_, rfl, rfl⟩
  | member t n =>
    simp only [isWellFormed, Bool.and_eq_true] at formed
    obtain ⟨t', ht, same⟩ := visit_replaceParam t formed.2
    refine ⟨_, by rw [visit, ht]; rfl, getD_offer r nofun nofun ?_⟩
    cases t' <;> exact congrArg (member · n) same
  | item t k =>
    simp only [isWellFormed, Bool.and_eq_true] at formed
    obtain ⟨t', ht, same⟩ := visit_replaceParam t formed.1
    obtain ⟨k', hk, same'⟩ := visit_replaceParam k formed.2
    refine ⟨_, by rw [visit, ht, hk]; rfl, getD_offer r nofun nofun ?_⟩
    rw [getD_rebuilt item, same, same', substitute]
  | method t n as =>
    simp only [isWellFormed, Bool.and_eq_true] at formed
    obtain ⟨t', ht, same⟩ := visit_replaceParam t formed.1.2
    obtain ⟨as', has, same'⟩ := visitList_replaceParam as formed.2
    refine ⟨_, by rw [visit, ht, has]; rfl, getD_offer r nofun nofun ?_⟩
    rw [getD_rebuilt fun t as => method t n as, same, same', substitute]
  | func g as =>
    simp only [isWellFormed, Bool.and_eq_true] at formed
    obtain ⟨g', hg, same⟩ := visit_replaceParam g formed.1
    obtain ⟨as', has, same'⟩ := visitList_replaceParam as formed.2
    refine ⟨_, by rw [visit, hg, has]; rfl, getD_offer r nofun nofun ?_⟩
    rw [getD_rebuilt func, same, same', substitute]
  | unary op e =>
    obtain ⟨e', he, same⟩ := visit_replaceParam e (by simpa only [isWellFormed] using formed)
    refine ⟨_, by rw [visit, he]; rfl, getD_offer r nofun nofun ?_⟩
    cases e' <;> exact congrArg (unary op) same
  | binary op a b =>
    simp only [isWellFormed, Bool.and_eq_true] at formed
    obtain ⟨a', ha, same⟩ := visit_replaceParam a formed.1
    obtain ⟨b', hb, same'⟩ := visit_replaceParam b formed.2
    refine ⟨_, by rw [visit, ha, hb]; rfl, getD_offer r nofun nofun ?_⟩
    rw [getD_rebuilt (binary op), same, same', substitute]
  | cond p y n =>
    simp only [isWellFormed, Bool.and_eq_true] at formed
    obtain ⟨p', hp, same⟩ := visit_replaceParam p formed.1.1
    obtain ⟨y', hy, same'⟩ := visit_replaceParam y formed.1.2
    obtain ⟨n', hn, same''⟩ := visit_replaceParam n formed.2
    refine ⟨_, by rw [visit, hp, hy, hn]; rfl, getD_offer r nofun nofun ?_⟩
    rw [substitute, ← same, ← same', ← same'']
    cases p' <;> cases y' <;> cases n' <;> rfl
  | lambda ps b =>
    simp only [isWellFormed, Bool.and_eq_true] at formed
    obtain ⟨b', hb, same⟩ := visit_replaceParam b formed.2
    refine ⟨_, by rw [visit, hb]; rfl, getD_offer r nofun nofun ?_⟩
    cases b' <;> exact congrArg (lambda ps) same
  | invoke g as =>
    simp only [isWellFormed, Bool.and_eq_true] at formed
    obtain ⟨g', hg, same⟩ := visit_replaceParam g formed.1.2
    obtain ⟨as', has, same'⟩ := visitList_replaceParam as formed.2
    have made : rebuildInvoke (invoke g as) (g.substitute r) (substituteList r as)
        = .ok ((invoke g as).substitute r) := by
      cases g with
      | lambda ps b =>
        have many : ps.length = as.length := by simpa [isLambdaOf, lambdaParams?] using formed.1.1
        simp [rebuildInvoke, makeInvoke, substitute, length_substituteList, many]
      | _ => simp [isLambdaOf, lambdaParams?] at formed
    -- What is rebuilt is checked again, unless all parts stayed as they were.
    rw [visit, hg, has]
    refine offer_checked r nofun nofun (by simpa only [same, same'] using made) fun kept => ?_
    rw [Bool.or_eq_false_iff, Option.isSome_eq_false_iff, Option.isSome_eq_false_iff,
      Option.isNone_iff_eq_none, Option.isNone_iff_eq_none] at kept
    rw [substitute, ← same, ← same', kept.1, kept.2]
    rfl
  | seq op s as =>
    have made := makeSeq_substitute r formed
    simp only [isWellFormed, Bool.and_eq_true] at formed
    obtain ⟨s', hs, same⟩ := visit_replaceParam s formed.1.2
    obtain ⟨as', has, same'⟩ := visitList_replaceParam as formed.2
    rw [visit, hs, has]
    refine offer_checked r nofun nofun (by simpa only [same, same'] using made) fun kept => ?_
    rw [Bool.or_eq_false_iff, Option.isSome_eq_false_iff, Option.isSome_eq_false_iff,
      Option.isNone_iff_eq_none, Option.isNone_iff_eq_none] at kept
    rw [substitute, ← same, ← same', kept.1, kept.2]
    rfl
  | record t fs =>
    obtain ⟨fs', hfs, same⟩ :=
      visitFields_replaceParam fs (by simpa only [isWellFormed] using formed)
    refine ⟨_, by rw [visit, hfs]; rfl, getD_offer r nofun nofun ?_⟩
    cases fs' <;> exact congrArg (record t) same

theorem visitList_replaceParam (es : List (Expr V)) (formed : areWellFormed es) :
    ∃ o, visitList (replaceParam r) es = .ok o ∧ o.getD es = substituteList r es := by
  cases es with
  | nil => exact ⟨_, rfl, rfl⟩
  | cons e es =>
    simp only [areWellFormed, Bool.and_eq_true] at formed
    obtain ⟨e', he, same⟩ := visit_replaceParam e formed.1
    obtain ⟨es', hes, same'⟩ := visitList_replaceParam es formed.2
    refine ⟨_, by rw [visitList, he, hes]; rfl, ?_⟩
    rw [getD_rebuilt List.cons, same, same', substituteList]

theorem visitFields_replaceParam (fs : List (V × Expr V)) (formed : fieldsWellFormed fs) :
    ∃ o, visitFields (replaceParam r) fs = .ok o ∧ o.getD fs = substituteFields r fs := by
  cases fs with
  | nil => exact ⟨_, rfl, rfl⟩
  | cons f fs =>
    obtain ⟨n, e⟩ := f
    simp only [fieldsWellFormed, Bool.and_eq_true] at formed
    obtain ⟨e', he, same⟩ := visit_replaceParam e formed.1
    obtain ⟨fs', hfs, same'⟩ := visitFields_replaceParam fs formed.2
    refine ⟨_, by rw [visitFields, he, hfs]; rfl, ?_⟩
    rw [getD_rebuilt fun e fs => (n, e) :: fs, same, same', substituteFields]

end

/-- Replacing parameters builds the nodes above them again, which gives the expression with the
replacements in their places. -/
theorem replaceParams_eq_substitute {e : Expr V} (formed : e.isWellFormed) :
    e.replaceParams r = .ok (e.substitute r) := by
  obtain ⟨o, visited, made⟩ := visit_replaceParam r e formed
  rw [replaceParams, visited, ← made]
  rfl

end

end EntityGraph.Expr

/-! ## Parameters to give examples with -/

namespace EntityGraph.Param

def x : Param := ⟨1, "x"⟩

def y : Param := ⟨2, "y"⟩

def z : Param := ⟨3, "z"⟩

end EntityGraph.Param

/-!
## Well-scoped expressions

An expression is well scoped where some parameters are known if it uses known parameters only. A
lambda makes its parameters known inside its body, and must not declare one that is known already. On
the way down to a use, the parameter is therefore declared exactly once.

Something more may be asked of each lambda. What is asked may depend on the parameters known around
it, and has to stay true where more of them are known.
-/

namespace EntityGraph.Expr

variable {V : Type}

/-- A condition on a lambda, by the parameters that are known around it, those that it declares, and
its body. -/
abbrev Asked (V : Type) := List Param → List Param → Expr V → Prop

/-- Whether an expression is well scoped where some parameters are known. -/
inductive Scoped (asked : Asked V) : List Param → Expr V → Prop
  | param {known : List Param} {p : Param} (mem : p ∈ known) : Scoped asked known (.param p)
  | lit {known : List Param} (v : V) : Scoped asked known (.lit v)
  | null {known : List Param} : Scoped asked known .null
  | member {known : List Param} {t : Expr V} (target : Scoped asked known t) (name : String) :
      Scoped asked known (.member t name)
  | item {known : List Param} {t k : Expr V} (target : Scoped asked known t)
      (key : Scoped asked known k) : Scoped asked known (.item t k)
  | method {known : List Param} {t : Expr V} {as : List (Expr V)} (target : Scoped asked known t)
      (name : String) (args : ∀ a ∈ as, Scoped asked known a) :
      Scoped asked known (.method t name as)
  | func {known : List Param} {f : Expr V} {as : List (Expr V)} (function : Scoped asked known f)
      (args : ∀ a ∈ as, Scoped asked known a) : Scoped asked known (.func f as)
  | unary {known : List Param} (op : UnaryOp) {e : Expr V} (inner : Scoped asked known e) :
      Scoped asked known (.unary op e)
  | binary {known : List Param} (op : BinaryOp) {l r : Expr V} (left : Scoped asked known l)
      (right : Scoped asked known r) : Scoped asked known (.binary op l r)
  | cond {known : List Param} {p y n : Expr V} (test : Scoped asked known p)
      (yes : Scoped asked known y) (no : Scoped asked known n) : Scoped asked known (.cond p y n)
  | lambda {known ps : List Param} {b : Expr V} (new : ∀ p ∈ ps, p ∉ known)
      (fits : asked known ps b) (body : Scoped asked (ps ++ known) b) :
      Scoped asked known (.lambda ps b)
  | invoke {known : List Param} {f : Expr V} {as : List (Expr V)} (function : Scoped asked known f)
      (args : ∀ a ∈ as, Scoped asked known a) : Scoped asked known (.invoke f as)
  | seq {known : List Param} (op : SeqOp) {s : Expr V} {as : List (Expr V)}
      (source : Scoped asked known s) (args : ∀ a ∈ as, Scoped asked known a) :
      Scoped asked known (.seq op s as)
  | record {known : List Param} (type : V) {fs : List (V × Expr V)}
      (fields : ∀ f ∈ fs, Scoped asked known f.2) : Scoped asked known (.record type fs)

/-- What is well scoped stays so where more parameters are known and other things are asked, as long
as every lambda still fits and none declares a parameter that became known. -/
theorem Scoped.mono {asked asked' : Asked V} {known known' : List Param} {e : Expr V}
    (h : e.Scoped asked known) (more : known ⊆ known')
    (fits : ∀ l l' ps b, l ⊆ l' → asked l ps b → asked' l' ps b)
    (new : ∀ l ps b, asked l ps b → ∀ p ∈ ps, p ∈ known' → p ∈ known) :
    e.Scoped asked' known' := by
  induction h generalizing known' with
  | param mem => exact .param (more mem)
  | lit v => exact .lit v
  | null => exact .null
  | member _ name ih => exact .member (ih more new) name
  | item _ _ ih ih' => exact .item (ih more new) (ih' more new)
  | method _ name _ ih ihs => exact .method (ih more new) name fun a ha => ihs a ha more new
  | func _ _ ih ihs => exact .func (ih more new) fun a ha => ihs a ha more new
  | unary op _ ih => exact .unary op (ih more new)
  | binary op _ _ ih ih' => exact .binary op (ih more new) (ih' more new)
  | cond _ _ _ ih ih' ih'' => exact .cond (ih more new) (ih' more new) (ih'' more new)
  | invoke _ _ ih ihs => exact .invoke (ih more new) fun a ha => ihs a ha more new
  | seq op _ _ ih ihs => exact .seq op (ih more new) fun a ha => ihs a ha more new
  | record type _ ihs => exact .record type fun f hf => ihs f hf more new
  | @lambda known ps b fresh fit _ ih =>
    refine .lambda (fun p hp mem => fresh p hp (new _ _ _ fit p hp mem)) (fits _ _ _ _ more fit) ?_
    refine ih (List.append_subset.2 ⟨by simp, fun p hp => by simp [more hp]⟩) ?_
    intro l qs c asks p hp mem
    rcases List.mem_append.1 mem with mem | mem
    · exact List.mem_append_left _ mem
    · exact List.mem_append_right _ (new l qs c asks p hp mem)

/-! ## Parts of well-scoped expressions -/

theorem mem_nodesList {es : List (Expr V)} {n : Expr V} :
    n ∈ nodesList es ↔ ∃ e ∈ es, n ∈ e.nodes := by
  induction es with
  | nil => simp [nodesList]
  | cons e es ih => simp [nodesList, ih]

theorem mem_nodesFields {fs : List (V × Expr V)} {n : Expr V} :
    n ∈ nodesFields fs ↔ ∃ f ∈ fs, n ∈ f.2.nodes := by
  induction fs with
  | nil => simp [nodesFields]
  | cons f fs ih => simp [nodesFields, ih]

theorem mem_openParamsList {es : List (Expr V)} {p : Param} :
    p ∈ openParamsList es ↔ ∃ e ∈ es, p ∈ e.openParams := by
  induction es with
  | nil => simp [openParamsList]
  | cons e es ih => simp [openParamsList, ih]

theorem mem_openParamsFields {fs : List (V × Expr V)} {p : Param} :
    p ∈ openParamsFields fs ↔ ∃ f ∈ fs, p ∈ f.2.openParams := by
  induction fs with
  | nil => simp [openParamsFields]
  | cons f fs ih => simp [openParamsFields, ih]

variable {asked : Asked V} {known : List Param} {e : Expr V}

/-- What a well-scoped expression leaves open is known. -/
theorem Scoped.openParams_subset (h : e.Scoped asked known) : e.openParams ⊆ known := by
  induction h with
  | param mem => simpa [openParams] using mem
  | lit | null => simp [openParams]
  | member _ _ ih | unary _ _ ih => simpa [openParams] using ih
  | item _ _ ih ih' | binary _ _ _ ih ih' => simpa [openParams] using ⟨ih, ih'⟩
  | cond _ _ _ ih ih' ih'' => simpa [openParams] using ⟨ih, ih', ih''⟩
  | method _ _ _ ih ihs | func _ _ ih ihs | invoke _ _ ih ihs | seq _ _ _ ih ihs =>
    refine List.append_subset.2 ⟨ih, fun p hp => ?_⟩
    obtain ⟨a, ha, hp⟩ := mem_openParamsList.1 hp
    exact ihs a ha hp
  | record _ _ ihs =>
    intro p hp
    obtain ⟨f, hf, hp⟩ := mem_openParamsFields.1 hp
    exact ihs f hf hp
  | lambda _ _ _ ih =>
    intro p hp
    obtain ⟨used, other⟩ := mem_openParams_lambda.1 hp
    exact (List.mem_append.1 (ih used)).resolve_left other

/-- Every node of a well-scoped expression is well scoped where it stands. -/
theorem Scoped.of_mem_nodes (h : e.Scoped asked known) {n : Expr V} (hn : n ∈ e.nodes) :
    ∃ known', known ⊆ known' ∧ n.Scoped asked known' := by
  -- Only a lambda makes more parameters known; all other nodes hand on what their parts give.
  have here {known : List Param} {e : Expr V} (h : e.Scoped asked known) :
      ∃ known', known ⊆ known' ∧ e.Scoped asked known' := ⟨_, List.Subset.refl _, h⟩
  induction h with
  | param | lit | null => exact List.mem_singleton.1 hn ▸ here (by constructor; try assumption)
  | member _ _ ih | unary _ _ ih =>
    rcases List.mem_append.1 hn with hn | hn
    · exact ih hn
    · exact List.mem_singleton.1 hn ▸ here (by constructor; assumption)
  | item _ _ ih ih' | binary _ _ _ ih ih' =>
    simp only [nodes, List.mem_append, List.mem_singleton] at hn
    rcases hn with (hn | hn) | rfl
    · exact ih hn
    · exact ih' hn
    · exact here (by constructor <;> assumption)
  | cond _ _ _ ih ih' ih'' =>
    simp only [nodes, List.mem_append, List.mem_singleton] at hn
    rcases hn with ((hn | hn) | hn) | rfl
    · exact ih hn
    · exact ih' hn
    · exact ih'' hn
    · exact here (by constructor <;> assumption)
  | method _ _ _ ih ihs | func _ _ ih ihs | invoke _ _ ih ihs | seq _ _ _ ih ihs =>
    simp only [nodes, List.mem_append, List.mem_singleton, mem_nodesList] at hn
    rcases hn with (hn | ⟨a, ha, hn⟩) | rfl
    · exact ih hn
    · exact ihs a ha hn
    · exact here (by constructor <;> assumption)
  | record type fields ihs =>
    simp only [nodes, List.mem_append, List.mem_singleton, mem_nodesFields] at hn
    rcases hn with ⟨f, hf, hn⟩ | rfl
    · exact ihs f hf hn
    · exact here (.record type fields)
  | lambda new fits body ih =>
    rcases List.mem_append.1 hn with hn | hn
    · obtain ⟨known', more, inside⟩ := ih hn
      exact ⟨known', (List.append_subset.1 more).2, inside⟩
    · exact List.mem_singleton.1 hn ▸ here (.lambda new fits body)

/-- No lambda of a well-scoped expression stands inside of another one that declares the same. -/
theorem Scoped.disjoint_nested (h : e.Scoped asked known) {ps qs : List Param} {b d : Expr V}
    (outer : .lambda ps b ∈ e.nodes) (inner : .lambda qs d ∈ b.nodes) : ∀ p ∈ qs, p ∉ ps := by
  obtain ⟨_, -, h⟩ := h.of_mem_nodes outer
  cases h with
  | lambda _ _ body =>
    obtain ⟨_, more, h⟩ := body.of_mem_nodes inner
    cases h with
    | lambda new _ _ => exact fun p hq hp => new p hq (more (List.mem_append_left _ hp))

end EntityGraph.Expr

/-!
## Constants

The values that an expression holds stand at its leaves and in its records. What holds of all of them
is said of an expression by its parts.
-/

namespace EntityGraph.Expr

variable {V : Type}

/-- The values that a node holds by itself: that of a literal, and the class and the names of a
record. -/
def ownConstants : Expr V → List V
  | lit v => [v]
  | record t fs => t :: fs.map (·.1)
  | _ => []

/-- The values that an expression holds. -/
def constants (e : Expr V) : List V := e.nodes.flatMap ownConstants

/-- Whether the values that an expression holds are of a certain sort. -/
def HoldsOnly (P : V → Prop) (e : Expr V) : Prop := ∀ v ∈ e.constants, P v

section

variable {P : V → Prop} {e f g : Expr V} {es : List (Expr V)} {fs : List (V × Expr V)}

@[simp] theorem holdsOnly_param (p : Param) : (param p : Expr V).HoldsOnly P := by
  simp [HoldsOnly, constants, nodes, ownConstants]

@[simp] theorem holdsOnly_null : (null : Expr V).HoldsOnly P := by
  simp [HoldsOnly, constants, nodes, ownConstants]

@[simp] theorem holdsOnly_lit {v : V} : (lit v).HoldsOnly P ↔ P v := by
  simp [HoldsOnly, constants, nodes, ownConstants]

@[simp] theorem holdsOnly_member {name : String} :
    (member e name).HoldsOnly P ↔ e.HoldsOnly P := by
  simp [HoldsOnly, constants, nodes, ownConstants]

@[simp] theorem holdsOnly_item : (item e f).HoldsOnly P ↔ e.HoldsOnly P ∧ f.HoldsOnly P := by
  simp [HoldsOnly, constants, nodes, ownConstants, or_imp, forall_and]

@[simp] theorem holdsOnly_unary {op : UnaryOp} :
    (unary op e).HoldsOnly P ↔ e.HoldsOnly P := by
  simp [HoldsOnly, constants, nodes, ownConstants]

@[simp] theorem holdsOnly_binary {op : BinaryOp} :
    (binary op e f).HoldsOnly P ↔ e.HoldsOnly P ∧ f.HoldsOnly P := by
  simp [HoldsOnly, constants, nodes, ownConstants, or_imp, forall_and]

@[simp] theorem holdsOnly_cond :
    (cond e f g).HoldsOnly P ↔ e.HoldsOnly P ∧ f.HoldsOnly P ∧ g.HoldsOnly P := by
  simp [HoldsOnly, constants, nodes, ownConstants, or_imp, forall_and]

@[simp] theorem holdsOnly_lambda {ps : List Param} :
    (lambda ps e).HoldsOnly P ↔ e.HoldsOnly P := by
  simp [HoldsOnly, constants, nodes, ownConstants]

theorem holdsOnly_nodes_list :
    (∀ v ∈ (nodesList es).flatMap ownConstants, P v) ↔ ∀ e ∈ es, e.HoldsOnly P := by
  simp only [HoldsOnly, constants, List.mem_flatMap, mem_nodesList]
  exact ⟨fun h e he v ⟨n, hn, hv⟩ => h v ⟨n, ⟨e, he, hn⟩, hv⟩,
    fun h v ⟨n, ⟨e, he, hn⟩, hv⟩ => h e he v ⟨n, hn, hv⟩⟩

theorem holdsOnly_nodes_fields :
    (∀ v ∈ (nodesFields fs).flatMap ownConstants, P v) ↔ ∀ f ∈ fs, f.2.HoldsOnly P := by
  simp only [HoldsOnly, constants, List.mem_flatMap, mem_nodesFields]
  exact ⟨fun h f hf v ⟨n, hn, hv⟩ => h v ⟨n, ⟨f, hf, hn⟩, hv⟩,
    fun h v ⟨n, ⟨f, hf, hn⟩, hv⟩ => h f hf v ⟨n, hn, hv⟩⟩

@[simp] theorem holdsOnly_method {name : String} :
    (method e name es).HoldsOnly P ↔ e.HoldsOnly P ∧ ∀ a ∈ es, a.HoldsOnly P := by
  rw [← holdsOnly_nodes_list]
  simp [HoldsOnly, constants, nodes, ownConstants, or_imp, forall_and]

@[simp] theorem holdsOnly_func :
    (func e es).HoldsOnly P ↔ e.HoldsOnly P ∧ ∀ a ∈ es, a.HoldsOnly P := by
  rw [← holdsOnly_nodes_list]
  simp [HoldsOnly, constants, nodes, ownConstants, or_imp, forall_and]

@[simp] theorem holdsOnly_invoke :
    (invoke e es).HoldsOnly P ↔ e.HoldsOnly P ∧ ∀ a ∈ es, a.HoldsOnly P := by
  rw [← holdsOnly_nodes_list]
  simp [HoldsOnly, constants, nodes, ownConstants, or_imp, forall_and]

@[simp] theorem holdsOnly_seq {op : SeqOp} :
    (seq op e es).HoldsOnly P ↔ e.HoldsOnly P ∧ ∀ a ∈ es, a.HoldsOnly P := by
  rw [← holdsOnly_nodes_list]
  simp [HoldsOnly, constants, nodes, ownConstants, or_imp, forall_and]

@[simp] theorem holdsOnly_record {t : V} :
    (record t fs).HoldsOnly P ↔ P t ∧ ∀ f ∈ fs, P f.1 ∧ f.2.HoldsOnly P := by
  have split : (record t fs).HoldsOnly P
      ↔ (∀ v ∈ (nodesFields fs).flatMap ownConstants, P v) ∧ P t ∧ ∀ f ∈ fs, P f.1 := by
    simp only [HoldsOnly, constants, nodes, List.flatMap_append, List.forall_mem_append]
    simp [ownConstants]
  rw [split, holdsOnly_nodes_fields]
  exact ⟨fun ⟨inner, type, names⟩ => ⟨type, fun f hf => ⟨names f hf, inner f hf⟩⟩,
    fun ⟨type, each⟩ => ⟨fun f hf => (each f hf).2, type, fun f hf => (each f hf).1⟩⟩

end

end EntityGraph.Expr
