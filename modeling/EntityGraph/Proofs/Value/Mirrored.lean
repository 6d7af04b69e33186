import EntityGraph.Proofs.Run
import EntityGraph.Value.Operator
import Mathlib.Order.Compare

/-!
# Comparisons from the other side

A comparison with a constant on its left and a proxy on its right is recorded from the side of the
proxy. For plain data this makes no difference: whatever such a value is compared with, the comparison
comes out the same when the sides are exchanged, and the relation with them.
-/

namespace EntityGraph

/-! ## Numbers and times -/

/-- Doubles compare the other way round from the other side. -/
theorem floatCompare_swap (x y : Float.Model.UnpackedFloat) :
    y.compare x = (x.compare y).map Ordering.swap := by
  have exponents (m n : Int) : compare n m = (compare m n).swap := Std.OrientedOrd.eq_swap
  have mantissas (m n : Nat) : compare n m = (compare m n).swap := Std.OrientedOrd.eq_swap
  cases x with
  | infinity s => cases y with
    | infinity t => cases s <;> cases t <;> rfl
    | notANumber | zero | finite => cases s <;> rfl
  | notANumber => cases y <;> rfl
  | zero s => cases y with
    | infinity t => cases t <;> rfl
    | notANumber | zero => rfl
    | finite t => cases t <;> rfl
  | finite s m e => cases y with
    | infinity t => cases s <;> cases t <;> rfl
    | notANumber | zero => cases s <;> rfl
    | finite t n f =>
      have sizes : (compare f e).then (compare n m) = ((compare e f).then (compare m n)).swap := by
        rw [exponents e f, mantissas m n, Ordering.swap_then]
      cases s <;> cases t
      · exact congrArg (fun o => some o.swap) sizes
      · rfl
      · rfl
      · exact congrArg some sizes

theorem float_beq_comm (x y : Float) : (x == y) = (y == x) := by
  show (x.toModel.unpack.compare y.toModel.unpack == some .eq)
    = (y.toModel.unpack.compare x.toModel.unpack == some .eq)
  rw [floatCompare_swap x.toModel.unpack]
  rcases x.toModel.unpack.compare y.toModel.unpack with _ | o
  · rfl
  · cases o <;> rfl

namespace Number

theorem compareFloat_swap (x y : Float) :
    compareFloat y x = (compareFloat x y).map Ordering.swap := by
  have sides := floatCompare_swap x.toModel.unpack y.toModel.unpack
  have less (a b : Float) : (a < b) ↔ a.toModel.unpack.compare b.toModel.unpack = some .lt := by
    show decide (a.toModel < b.toModel) = true ↔ _
    rw [decide_eq_true_iff]
    show (a.toModel.unpack.compare b.toModel.unpack == some .lt) = true ↔ _
    exact beq_iff_eq
  have equal (a b : Float) :
      (a == b) = (a.toModel.unpack.compare b.toModel.unpack == some .eq) := rfl
  unfold compareFloat
  simp only [gt_iff_lt, less, equal, sides]
  rcases x.toModel.unpack.compare y.toModel.unpack with _ | o
  · rfl
  · cases o <;> rfl

end Number

namespace DecimalFloat

theorem compare?_swap (x y : DecimalFloat) :
    y.compare? x = (x.compare? y).map Ordering.swap := by
  cases x with
  | nan => cases y <;> rfl
  | infinite s => cases y with
    | nan => rfl
    | infinite t => cases s <;> cases t <;> rfl
    | finite => cases s <;> rfl
  | finite s a d => cases y with
    | nan => rfl
    | infinite t => cases t <;> rfl
    | finite t b e =>
      have wholes (m n : Int) : compare n m = (compare m n).swap := Std.OrientedOrd.eq_swap
      have naturals (m n : Nat) : compare n m = (compare m n).swap := Std.OrientedOrd.eq_swap
      simp only [compare?, Bool.or_comm (b == 0), Int.min_comm e d]
      rw [wholes (signed s a), wholes (leading a d), naturals]
      by_cases zero : (a == 0 || b == 0) = true
      · simp only [if_pos zero, Option.map_some]
      · simp only [if_neg zero]
        by_cases same : leading a d = leading b e
        · cases s <;> cases t <;> simp [same]
        · cases s <;> cases t <;> simp [same, Ne.symm same]

end DecimalFloat

namespace Quantity

theorem decimalEqual_comm (x y : DecimalFloat) : decimalEqual x y = decimalEqual y x := by
  unfold decimalEqual
  rw [Bool.or_comm, x.compare?_swap y]
  rcases x.compare? y with _ | o
  · rfl
  · cases o <;> rfl

theorem equal_comm (x y : Quantity) : x.equal y = y.equal x := by
  cases x <;> cases y <;> try rfl
  case int.int => exact congrArg Except.ok BEq.comm
  case float.float => exact congrArg Except.ok (float_beq_comm _ _)
  case complex.complex x y =>
    show Except.ok (x.re == y.re && x.im == y.im) = .ok (y.re == x.re && y.im == x.im)
    rw [float_beq_comm x.re, float_beq_comm x.im]
  case decimal.decimal => exact decimalEqual_comm _ _
  case int.decimal | float.decimal => exact decimalEqual_comm _ _
  case decimal.int | decimal.float => exact decimalEqual_comm _ _
  case decimal.complex x z | complex.decimal z x =>
    unfold equal
    cases real : z.im == 0.0
    · simp only [toDecimal?, real, Bool.false_eq_true, if_false]
    · simp only [toDecimal?, real, if_true]
      exact decimalEqual_comm _ _

theorem compare?_swap (x y : Quantity) :
    y.compare? x = (x.compare? y).map (Option.map (Option.map Ordering.swap)) := by
  have decimals (d e : DecimalFloat) :
      (decimal e).compare? (decimal d)
        = ((decimal d).compare? (decimal e)).map (Option.map (Option.map Ordering.swap)) := by
    unfold compare?
    simp only [toDecimal?, d.compare?_swap e]
    cases d.compare? e <;> rfl
  cases x <;> cases y <;> try rfl
  case int.int m n =>
    exact congrArg (fun o => Except.ok (some (some o))) (Std.OrientedOrd.eq_swap (a := n) (b := m))
  case float.int x n =>
    show Except.ok (some (Number.compareInt n x))
      = .ok (some (((Number.compareInt n x).map Ordering.swap).map Ordering.swap))
    cases Number.compareInt n x <;> simp
  case float.float x y =>
    exact congrArg (fun o => Except.ok (some o)) (Number.compareFloat_swap x y)
  case decimal.decimal => exact decimals _ _
  case int.decimal n d => exact decimals (.ofInt n) d
  case decimal.int d n => exact decimals d (.ofInt n)
  case float.decimal x d => exact decimals (.ofFloat x) d
  case decimal.float d x => exact decimals d (.ofFloat x)

end Quantity

namespace Value

mutual

/-- Whether a value is plain data: a number, a text, bytes, a time, a class, or the missing value, or
a list or tuple of such. -/
def isData : Value → Bool
  | none | bool _ | int _ | float .. | str _ | bytes _ | decimal .. | complex .. | date _
  | timestamp _ | span _ | zone _ | uuid _ | type _ => true
  | list vs | tuple vs => areData vs
  | _ => false

/-- Whether several values are plain data. -/
def areData : List Value → Bool
  | [] => true
  | v :: vs => v.isData && areData vs

end

/-! ## Equality -/

theorem beq_and_comm {α : Type} [BEq α] [LawfulBEq α] (p : α → Bool) (a b : α) :
    (a == b && p a) = (b == a && p b) := by
  rw [Bool.eq_iff_iff, Bool.and_eq_true, Bool.and_eq_true, beq_iff_eq, beq_iff_eq]
  constructor
  · rintro ⟨rfl, h⟩
    exact ⟨rfl, h⟩
  · rintro ⟨rfl, h⟩
    exact ⟨rfl, h⟩

theorem identical_comm (a b : Value) : identical a b = identical b a := by
  cases a <;> cases b <;> try rfl
  case float.float x m y n =>
    show (x.isNaN && y.isNaN && m == n && m != 0) = (y.isNaN && x.isNaN && n == m && n != 0)
    rw [Bool.and_assoc, beq_and_comm (· != 0) m n, ← Bool.and_assoc, Bool.and_comm x.isNaN]
  case decimal.decimal => exact beq_and_comm (· != 0) _ _
  case complex.complex => exact beq_and_comm (· != 0) _ _
  case orderedDict.orderedDict => exact beq_and_comm (· != 0) _ _
  case proxy.proxy => exact beq_and_comm (· != 0) _ _
  case foreign.foreign s m t n =>
    have both := beq_and_comm (fun q : HostType × Nat => q.2 != 0 || q.1 != .builtin .object)
      (s, m) (t, n)
    exact both
  case object.object => exact BEq.comm
  case closure.closure => exact BEq.comm
  case function.function => exact BEq.comm
  case expr.expr e p f q => exact beq_and_comm (fun p : Position => p.root != 0) p q

theorem allEqual_comm {eq : Value → Value → Outcome Bool} {as : List Value}
    (h : ∀ a ∈ as, ∀ b, eq a b = eq b a) (bs : List Value) :
    allEqual eq as bs = allEqual eq bs as := by
  induction as generalizing bs with
  | nil => cases bs <;> rfl
  | cons a as ih =>
    cases bs with
    | nil => rfl
    | cons b bs =>
      rw [allEqual, allEqual, h a (by simp) b]
      simp only [ih fun a ha => h a (by simp [ha])]

variable (w : World)

theorem areData_iff (vs : List Value) : areData vs = true ↔ ∀ v ∈ vs, v.isData = true := by
  induction vs with
  | nil => simp [areData]
  | cons v vs ih => simp [areData, ih]

/-- A list or a tuple compares with another one like its elements do. -/
theorem elementsEqual_comm {d : Nat} {as bs : List Value}
    (h : ∀ a ∈ as, ∀ b, equalTo w d a b = equalTo w d b a) :
    (if as.length == bs.length then
      allEqual (fun x y => if identical x y then .ok true else equalTo w d x y) as bs
      else .ok false)
    = if bs.length == as.length then
      allEqual (fun x y => if identical x y then .ok true else equalTo w d x y) bs as
      else .ok false := by
  rw [BEq.comm (a := as.length)]
  split
  · refine allEqual_comm (fun a ha b => ?_) bs
    rw [identical_comm a b, h a ha b]
  · rfl

/-- An object is equal to other data only if both are tuples, whichever of them is asked. -/
theorem equalTo_object_comm (d : Nat) {a : Value} (data : a.isData = true) (r : Ref)
    (elements : ∀ as, a = tuple as → ∀ x ∈ as, ∀ y, equalTo w d x y = equalTo w d y x) :
    equalTo w (d + 1) a (.object r) = equalTo w (d + 1) (.object r) a := by
  have view : a.recordView? w = Option.none := by cases a <;> first | rfl | cases data
  cases record : (Value.object r).recordView? w <;>
    cases tuples : (Value.object r).tupleView? w <;> cases a
  all_goals try (cases data; done)
  all_goals simp only [equalTo, quantity?, asInt?, Option.map_none, Option.map_some, entriesView?,
    tuples, record, view, recordsEqual]
  all_goals first | rfl | exact elementsEqual_comm w (elements _ rfl)

theorem equalTo_numbers (d : Nat) {a b : Value} {x y : Quantity} (hx : a.quantity? = some x)
    (hy : b.quantity? = some y) : equalTo w (d + 1) a b = x.equal y := by
  cases a <;> try cases hx
  all_goals cases b <;> cases hy <;> rfl

theorem equalTo_comm (d : Nat) {a b : Value} (data : a.isData = true) :
    equalTo w d a b = equalTo w d b a := by
  induction d generalizing a b with
  | zero => rfl
  | succ d ih =>
    have elements (as : List Value) (data : areData as = true) (x : Value) (hx : x ∈ as)
        (y : Value) : equalTo w d x y = equalTo w d y x := ih ((areData_iff as).1 data x hx)
    cases b with
    | object r => exact equalTo_object_comm w d data r fun as h => elements as (by subst h; exact data)
    | list bs =>
      cases a <;> try rfl
      case list as => exact elementsEqual_comm w (elements as data)
      case object => cases data
    | tuple bs =>
      cases a <;> try rfl
      case tuple as => exact elementsEqual_comm w (elements as data)
      case object => cases data
    | timestamp t =>
      -- Not all times can be compared, but if one can be compared with another, so can the other.
      cases a <;> try rfl
      case timestamp s =>
        show Except.ok (s.comparable t && s.compare t == .eq)
          = .ok (t.comparable s && t.compare s == .eq)
        have swap : t.compare s = (s.compare t).swap := Std.OrientedOrd.eq_swap
        have sides : t.comparable s = s.comparable t := BEq.comm
        rw [swap, sides]
        cases s.compare t <;> rfl
      case object => cases data
    | str | bytes | date | span | zone | uuid | type =>
      cases a <;> try rfl
      case object => cases data
      all_goals exact congrArg Except.ok BEq.comm
    | bool | int | float | decimal | complex =>
      cases a <;> try rfl
      case object => cases data
      all_goals
        rw [equalTo_numbers w d rfl rfl, equalTo_numbers w d rfl rfl]
        exact Quantity.equal_comm _ _
    | _ => cases a <;> first | rfl | cases data

theorem same_comm {a : Value} (data : a.isData = true) (b : Value) : same w a b = same w b a := by
  unfold same equal
  rw [identical_comm a b, equalTo_comm w _ data]

end Value

/-! ## Order -/

/-- The relation from the other side. -/
def Relation.swap : Relation → Relation
  | lt => gt
  | le => ge
  | gt => lt
  | ge => le

theorem Relation.holds_swap (r : Relation) (o : Ordering) : r.swap.holds o.swap = r.holds o := by
  cases r <;> cases o <;> rfl

namespace Value

variable (w : World)

theorem compareTexts?_swap {a : Value} (data : a.isData = true) (b : Value) :
    compareTexts? b a = (compareTexts? a b).map Ordering.swap := by
  cases a <;> try cases data
  all_goals cases b <;> try rfl
  all_goals exact congrArg some Std.OrientedOrd.eq_swap

theorem compareTimes?_swap {a : Value} (data : a.isData = true) {b : Value} {o : Option Ordering}
    (h : compareTimes? a b = .ok o) : compareTimes? b a = .ok (o.map Ordering.swap) := by
  cases a <;> try (cases data; done)
  all_goals cases b <;> try (cases h; rfl)
  case date.date x y =>
    cases h
    have years : compare y.year x.year = (compare x.year y.year).swap := Std.OrientedOrd.eq_swap
    have months : compare y.month x.month = (compare x.month y.month).swap :=
      Std.OrientedOrd.eq_swap
    have days : compare y.day x.day = (compare x.day y.day).swap := Std.OrientedOrd.eq_swap
    show Except.ok (some (y.compare x)) = .ok (some (x.compare y).swap)
    rw [Calendar.Date.compare, Calendar.Date.compare, years, months, days, Ordering.swap_then,
      Ordering.swap_then]
  case timestamp.timestamp s t =>
    simp only [compareTimes?] at h ⊢
    have sides : t.comparable s = s.comparable t := BEq.comm
    rw [sides]
    cases comparable : s.comparable t with
    | false => simp [comparable] at h
    | true =>
      rw [comparable] at h
      cases h
      exact congrArg (fun o => Except.ok (some o)) Std.OrientedOrd.eq_swap
  case span.span =>
    cases h
    exact congrArg (fun o => Except.ok (some o)) Std.OrientedOrd.eq_swap
  all_goals cases h

/-- What is no quantity compares as a text, and else as a time. -/
theorem compareAtoms?_of_none {a b : Value}
    (h : a.quantity? = Option.none ∨ b.quantity? = Option.none) :
    compareAtoms? a b = (compareTexts? a b).elim (do .ok ((← compareTimes? a b).map some))
      fun o => .ok (some (some o)) := by
  unfold compareAtoms?
  rcases h with h | h
  · rw [h]
    cases compareTexts? a b <;> rfl
  · rw [h]
    cases a.quantity? <;> cases compareTexts? a b <;> rfl

theorem compareAtoms?_swap {a : Value} (data : a.isData = true) {b : Value}
    {o : Option (Option Ordering)} (h : compareAtoms? a b = .ok o) :
    compareAtoms? b a = .ok (o.map (Option.map Ordering.swap)) := by
  by_cases other : a.quantity? = Option.none ∨ b.quantity? = Option.none
  · rw [compareAtoms?_of_none other] at h
    rw [compareAtoms?_of_none other.symm, compareTexts?_swap data b]
    cases texts : compareTexts? a b with
    | some o =>
      rw [texts] at h
      cases h
      rfl
    | none =>
      rw [texts] at h
      obtain ⟨t, times, h⟩ := outcome_bind_ok h
      cases h
      simp only [Option.map_none, Option.elim_none, compareTimes?_swap data times]
      cases t <;> rfl
  · rw [not_or] at other
    obtain ⟨x, hx⟩ := Option.ne_none_iff_exists'.1 other.1
    obtain ⟨y, hy⟩ := Option.ne_none_iff_exists'.1 other.2
    unfold compareAtoms? at h ⊢
    rw [hx, hy] at h
    rw [hx, hy]
    simp only [x.compare?_swap y, show x.compare? y = .ok o from h]
    rfl

theorem firstDifference_swap {as : List Value} (data : ∀ a ∈ as, a.isData = true) (bs : List Value)
    {o : Option (Value × Value)} (h : firstDifference w as bs = .ok o) :
    firstDifference w bs as = .ok (o.map Prod.swap) ∧ ∀ p, o = some p → p.1 ∈ as := by
  induction as generalizing bs with
  | nil =>
    cases h
    cases bs <;> exact ⟨rfl, by simp⟩
  | cons a as ih =>
    cases bs with
    | nil =>
      cases h
      exact ⟨rfl, by simp⟩
    | cons b bs =>
      unfold firstDifference at h ⊢
      rw [← same_comm w (data a (by simp)) b]
      obtain ⟨alike, found, h⟩ := outcome_bind_ok h
      rw [found]
      cases alike with
      | true =>
        obtain ⟨others, among⟩ := ih (fun a ha => data a (by simp [ha])) bs h
        exact ⟨others, fun p hp => by simp [among p hp]⟩
      | false =>
        cases h
        exact ⟨rfl, by simp⟩

theorem sequences?_swap {a : Value} (data : a.isData = true) (b : Value) :
    sequences? w b a = (sequences? w a b).map Prod.swap := by
  cases a <;> try cases data
  all_goals cases b <;> try rfl
  all_goals
    simp only [sequences?]
    cases (Value.object _).tupleView? w <;> rfl

theorem sequences?_data {a b : Value} (data : a.isData = true) {xs ys : List Value}
    (h : sequences? w a b = some (xs, ys)) : ∀ x ∈ xs, x.isData = true := by
  have elements (as : List Value) (data : areData as = true) (h : as = xs) :
      ∀ x ∈ xs, x.isData = true := by
    subst h
    exact (areData_iff as).1 data
  unfold sequences? at h
  split at h
  · cases h
    exact elements _ data rfl
  · split at h
    · next view _ =>
      cases h
      cases a <;> try cases data
      all_goals cases view
      exact elements _ data rfl
    · cases h

theorem relatedTo_swap (r : Relation) (d : Nat) {a b : Value} (data : a.isData = true) {v : Bool}
    (h : relatedTo w r d a b = .ok v) : relatedTo w r.swap d b a = .ok v := by
  induction d generalizing a b with
  | zero => cases h
  | succ d ih =>
    unfold relatedTo at h ⊢
    obtain ⟨o, atoms, h⟩ := outcome_bind_ok h
    rw [compareAtoms?_swap data atoms]
    cases o with
    | some o =>
      cases h
      cases o with
      | none => rfl
      | some o => exact congrArg Except.ok (r.holds_swap o)
    | none =>
      dsimp only [Option.map_none, bind, Except.bind] at h ⊢
      split at h
      · cases data
      · split
        · cases data
        · rw [sequences?_swap w data]
          split at h
          · next xs ys both =>
            rw [both]
            obtain ⟨o, found, h⟩ := outcome_bind_ok h
            obtain ⟨others, among⟩ := firstDifference_swap w (sequences?_data w data both) ys found
            show (firstDifference w ys xs >>= _) = _
            rw [others]
            cases o with
            | none =>
              cases h
              have sizes : compare ys.length xs.length = (compare xs.length ys.length).swap :=
                Std.OrientedOrd.eq_swap
              show Except.ok (r.swap.holds (compare ys.length xs.length)) = _
              rw [sizes, r.holds_swap]
            | some p => exact ih (sequences?_data w data both p.1 (among p rfl)) h
          · cases h

theorem related_swap (r : Relation) {a b : Value} (data : a.isData = true) {v : Bool}
    (h : related w r a b = .ok v) : related w r.swap b a = .ok v :=
  relatedTo_swap w r depthLimit data h

end Value

/-! ## Operators -/

namespace Value

theorem operate_eq_compute (w : World) (op : ScriptOp) {a b : Value} (ha : ∀ u m, a ≠ proxy u m)
    (hb : ∀ u m, b ≠ proxy u m) : operate w op a b = compute w op a b := by
  unfold operate
  split
  · exact absurd rfl (ha _ _)
  · exact absurd rfl (hb _ _)
  · rfl

/-- A constant that does not answer by itself lets the proxy on its right record the operator. -/
theorem operate_proxy (w : World) {op : ScriptOp} {a u : Value} {m : Nat}
    (ha : ∀ u m, a ≠ proxy u m) (silent : answersFirst w op a (proxy u m) = Option.none) :
    operate w op a (proxy u m) =
      match op.exchanged? with
      | some other => recordBinary w other.recorded u a.recorded
      | Option.none => recordBinary w op.recorded a.recorded u := by
  unfold operate
  split
  · exact absurd rfl (ha _ _)
  · next same =>
    cases same
    rewrite [silent]
    rfl
  · next other => exact absurd rfl (other _ _)

theorem isData_ne_proxy {a : Value} (data : a.isData = true) (u : Value) (m : Nat) :
    a ≠ proxy u m := by
  rintro rfl
  cases data

theorem compute_exchanged (w : World) {op other : ScriptOp} (exchanged : op.exchanged? = some other)
    {a b v : Value} (data : a.isData = true) (h : compute w op a b = .ok v) :
    compute w other b a = .ok v := by
  cases op <;> cases exchanged
  case eq | ne =>
    simp only [compute, equal, ← equalTo_comm w depthLimit data] at h ⊢
    exact h
  all_goals
    obtain ⟨holds, run, h⟩ := outcome_bind_ok h
    cases h
    simp only [compute]
  case lt => rw [show related w .gt b a = _ from related_swap w .lt data run]; rfl
  case le => rw [show related w .ge b a = _ from related_swap w .le data run]; rfl
  case gt => rw [show related w .lt b a = _ from related_swap w .gt data run]; rfl
  case ge => rw [show related w .le b a = _ from related_swap w .ge data run]; rfl

theorem operate_exchanged (w : World) {op other : ScriptOp} (exchanged : op.exchanged? = some other)
    {a b v : Value} (data : a.isData = true) (h : operate w op a b = .ok v) :
    operate w other b a = .ok v := by
  by_cases proxied : ∃ u m, b = proxy u m
  · obtain ⟨u, m, rfl⟩ := proxied
    have silent : answersFirst w op a (proxy u m) = Option.none := by
      cases op <;> cases exchanged <;> cases a <;> first | rfl | cases data
    rw [operate_proxy w (isData_ne_proxy data) silent, exchanged] at h
    exact h
  · have plain (u : Value) (m : Nat) : b ≠ proxy u m := fun same => proxied ⟨u, m, same⟩
    rw [operate_eq_compute w op (isData_ne_proxy data) plain] at h
    rw [operate_eq_compute w other plain (isData_ne_proxy data)]
    exact compute_exchanged w exchanged data h

end Value

/-- A comparison of plain data with a value comes out the same from the side of the value. -/
theorem BinaryOp.apply_exchanged (w : World) {op other : ScriptOp}
    (exchanged : op.exchanged? = some other) {a b v : Value} (data : a.isData = true)
    (h : op.recorded.apply w a b = .ok v) : other.recorded.apply w b a = .ok v := by
  have present : (if a.isNone || b.isNone then .ok (op.recorded.applyMissing a b)
      else Value.operate w op a b) = .ok v := by
    cases op <;> cases exchanged <;> exact h
  have goal : other.recorded.apply w b a
      = if b.isNone || a.isNone then .ok (other.recorded.applyMissing b a)
        else Value.operate w other b a := by
    cases op <;> cases exchanged <;> rfl
  have missing : other.recorded.applyMissing b a = op.recorded.applyMissing a b := by
    unfold applyMissing
    rw [Bool.and_comm]
    cases op <;> cases exchanged <;> rfl
  rw [goal, Bool.or_comm, missing]
  split at present
  · next h => rw [if_pos h, present]
  · next h =>
    rw [if_neg h]
    exact Value.operate_exchanged w exchanged data present

end EntityGraph
