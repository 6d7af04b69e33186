import Mathlib.Data.List.Forall2
import Mathlib.Data.List.Induction
import EntityGraph.Host.Hint

/-!
# Hints that are the same type

A hint is the set of its members, each of which is a head with arguments. Two hints are the same
type if each member of one is the same type as some member of the other, and two members are if they
have the same head and arguments that are the same types, one by one. This is an equivalence.

What is proved of all hints goes by induction on this structure: a hint may be reasoned about once
the arguments of its members are.
-/

set_option linter.unusedSectionVars false

namespace EntityGraph.Hint

/-- Whether a hint is the member of a union that it makes alone. -/
def isMember : Hint → Bool
  | union _ | bar _ | missing => false
  | _ => true

theorem members_of_isMember {m : Hint} (member : m.isMember) : m.members = [m] := by
  cases m <;> first | rfl | cases member

theorem eq_type_of_head {m : Hint} (member : m.isMember) {t : HostType} (h : m.head = .type t) :
    m = type t := by
  cases m with
  | type t' => rw [Head.type.inj h]
  | missing => cases member
  | _ => cases h

theorem eq_sequence_of_head {m : Hint} {form : String} {generic : Bool}
    (h : m.head = .sequence form generic) : m = sequence form generic m.args := by
  cases m <;> cases h
  rfl

mutual

theorem isMember_of_mem {h m : Hint} (hm : m ∈ h.members) : m.isMember := by
  cases h with
  | union hs => exact isMember_of_memList hm
  | bar hs => exact isMember_of_memList hm
  | _ => rw [List.mem_singleton.1 hm]; rfl

theorem isMember_of_memList {hs : List Hint} {m : Hint} (hm : m ∈ membersList hs) :
    m.isMember := by
  cases hs with
  | nil => cases hm
  | cons h hs => exact (List.mem_append.1 hm).elim isMember_of_mem isMember_of_memList

end

section

variable {P : Hint → Prop} (step : ∀ h : Hint, (∀ m ∈ h.members, ∀ a ∈ m.args, P a) → P h)

include step

mutual

theorem args_of_members (h : Hint) : ∀ m ∈ h.members, ∀ a ∈ m.args, P a := by
  cases h with
  | union hs => exact args_of_membersList hs
  | bar hs => exact args_of_membersList hs
  | type t => simp [members, args]
  | missing => simp [members, args]
  | classVar h =>
    simp only [members, List.mem_singleton, forall_eq, args]
    exact step h (args_of_members h)
  | sequence form generic hs =>
    simp only [members, List.mem_singleton, forall_eq, args]
    exact each_arg hs
  | other form generic hs =>
    simp only [members, List.mem_singleton, forall_eq, args]
    exact each_arg hs

theorem args_of_membersList (hs : List Hint) : ∀ m ∈ membersList hs, ∀ a ∈ m.args, P a := by
  cases hs with
  | nil => simp [membersList]
  | cons h hs =>
    intro m hm
    exact (List.mem_append.1 hm).elim (args_of_members h m) (args_of_membersList hs m)

theorem each_arg (hs : List Hint) : ∀ a ∈ hs, P a := by
  cases hs with
  | nil => simp
  | cons h hs =>
    intro a ha
    rcases List.mem_cons.1 ha with same | ha
    · rw [same]
      exact step h (args_of_members h)
    · exact each_arg hs a ha

end

/-- What holds of a hint once it holds of the arguments of its members holds of every hint. -/
theorem args_induction (h : Hint) : P h := step h (args_of_members step h)

end

/-! ## The same members -/

/-- Whether a form turns a missing argument into its class. -/
def Head.isGeneric : Head → Bool
  | .sequence _ generic | .other _ generic => generic
  | _ => true

def AlikeIn (generic : Bool) (h g : Hint) : Prop :=
  (generic = false → g.isMissing = h.isMissing) ∧ h.alike g

theorem passEach_argTests {generic : Bool} {hs gs : List Hint} :
    passEach (argTests generic hs) gs ↔ List.Forall₂ (AlikeIn generic) hs gs := by
  induction hs generalizing gs with
  | nil => cases gs <;> simp [argTests, passEach]
  | cons h hs ih =>
    cases gs with
    | nil => simp [argTests, passEach]
    | cons g gs =>
      cases generic <;> simp [argTests, passEach, ih, AlikeIn, alike]

/-- A member is the same type as another one with the same head and arguments of the same types. -/
theorem alike_members {m m' : Hint} (member : m.isMember) (member' : m'.isMember) :
    m.alike m' ↔ m'.head = m.head ∧ List.Forall₂ (AlikeIn m.head.isGeneric) m.args m'.args := by
  have forms (head : Head) (tests : List (Hint → Bool)) :
      passAll [isForm head tests] m'.members ↔ m'.head = head ∧ passEach tests m'.args := by
    simp [members_of_isMember member', passAll, isForm]
  cases m with
  | union hs => cases member
  | bar hs => cases member
  | missing => cases member
  | type t =>
    refine (forms _ _).trans (and_congr_right fun _ => ?_)
    cases m'.args <;> simp [passEach, args]
  | sequence form generic hs =>
    exact (forms _ _).trans (and_congr_right fun _ => passEach_argTests)
  | other form generic hs =>
    exact (forms _ _).trans (and_congr_right fun _ => passEach_argTests)
  | classVar h =>
    refine (forms _ _).trans (and_congr_right fun _ => ?_)
    rcases m'.args with _ | ⟨a, _ | ⟨b, gs⟩⟩ <;>
      simp [passEach, args, AlikeIn, head, Head.isGeneric, alike]

mutual

theorem tests_eq (h : Hint) : h.tests = h.members.flatMap tests := by
  cases h with
  | union hs => exact testsList_eq hs
  | bar hs => exact testsList_eq hs
  | _ => simp [members, tests]

theorem testsList_eq (hs : List Hint) : testsList hs = (membersList hs).flatMap tests := by
  cases hs with
  | nil => rfl
  | cons h hs => rw [testsList, membersList, List.flatMap_append, tests_eq h, testsList_eq hs]

end

/-- A member has one test, which another one passes if both are the same type. -/
theorem tests_member {m : Hint} (member : m.isMember) :
    ∃ test, m.tests = [test] ∧ ∀ m' : Hint, m'.isMember → (test m' ↔ m.alike m') := by
  have one (test : Hint → Bool) (alone : m.tests = [test]) :
      ∃ test, m.tests = [test] ∧ ∀ m' : Hint, m'.isMember → (test m' ↔ m.alike m') :=
    ⟨test, alone, fun m' member' => by simp [alike, alone, members_of_isMember member', passAll]⟩
  cases m with
  | union hs => cases member
  | bar hs => cases member
  | missing => cases member
  | _ => exact one _ rfl

/-- Two hints are the same type if each member of one is the same type as one of the other. -/
theorem alike_iff {h g : Hint} :
    h.alike g ↔ (∀ m ∈ h.members, ∃ m' ∈ g.members, m.alike m')
      ∧ ∀ m' ∈ g.members, ∃ m ∈ h.members, m.alike m' := by
  have each (m : Hint) (hm : m ∈ h.members) :
      ∃ test, m.tests = [test] ∧ ∀ m' ∈ g.members, test m' ↔ m.alike m' := by
    obtain ⟨test, only, same⟩ := tests_member (isMember_of_mem hm)
    exact ⟨test, only, fun m' hm' => same m' (isMember_of_mem hm')⟩
  rw [alike, passAll, tests_eq h, Bool.and_eq_true, List.all_eq_true, List.all_eq_true]
  refine and_congr ?_ (forall₂_congr fun m' hm' => ?_)
  · simp only [List.mem_flatMap, List.any_eq_true, forall_exists_index, and_imp]
    constructor
    · intro passed m hm
      obtain ⟨test, only, same⟩ := each m hm
      obtain ⟨m', hm', pass⟩ := passed test m hm (by simp [only])
      exact ⟨m', hm', (same m' hm').1 pass⟩
    · intro found test m hm asked
      obtain ⟨test', only, same⟩ := each m hm
      obtain rfl : test = test' := by simpa [only] using asked
      obtain ⟨m', hm', pass⟩ := found m hm
      exact ⟨m', hm', (same m' hm').2 pass⟩
  · simp only [List.any_eq_true, List.mem_flatMap]
    constructor
    · rintro ⟨test, ⟨m, hm, asked⟩, pass⟩
      obtain ⟨test', only, same⟩ := each m hm
      obtain rfl : test = test' := by simpa [only] using asked
      exact ⟨m, hm, (same m' hm').1 pass⟩
    · rintro ⟨m, hm, pass⟩
      obtain ⟨test, only, same⟩ := each m hm
      exact ⟨test, ⟨m, hm, by simp [only]⟩, (same m' hm').2 pass⟩

/-! ## An equivalence -/

theorem alike_refl (h : Hint) : h.alike h := by
  induction h using args_induction with
  | step h ih =>
    have each (m : Hint) (hm : m ∈ h.members) : m.alike m := by
      have member := isMember_of_mem hm
      exact (alike_members member member).2
        ⟨rfl, List.forall₂_same.2 fun a ha => ⟨fun _ => rfl, ih m hm a ha⟩⟩
    exact alike_iff.2 ⟨fun m hm => ⟨m, hm, each m hm⟩, fun m hm => ⟨m, hm, each m hm⟩⟩

theorem alike_args {generic : Bool} {as bs cs : List Hint}
    (euclid : ∀ a ∈ as, ∀ b c : Hint, a.alike b → a.alike c → b.alike c)
    (left : List.Forall₂ (AlikeIn generic) as bs) (right : List.Forall₂ (AlikeIn generic) as cs) :
    List.Forall₂ (AlikeIn generic) bs cs := by
  induction left generalizing cs with
  | nil =>
    cases right
    exact .nil
  | @cons a b as bs same left ih =>
    obtain ⟨c, cs, same', rest, rfl⟩ := List.forall₂_cons_left_iff.1 right
    refine .cons ⟨fun plain => (same'.1 plain).trans (same.1 plain).symm, ?_⟩ ?_
    · exact euclid a List.mem_cons_self b c same.2 same'.2
    · exact ih (fun a ha => euclid a (List.mem_cons_of_mem _ ha)) rest

/-- Two hints that are the same type as a third one are the same type as each other. -/
theorem alike_euclid {h g k : Hint} (left : h.alike g) (right : h.alike k) : g.alike k := by
  -- The induction is on the third hint: symmetry and transitivity need no induction of their own.
  induction h using args_induction generalizing g k with
  | step h ih =>
    have each (m : Hint) (hm : m ∈ h.members) (x : Hint) (hx : x ∈ g.members) (y : Hint)
        (hy : y ∈ k.members) (left : m.alike x) (right : m.alike y) : x.alike y := by
      have mx := isMember_of_mem hx
      have my := isMember_of_mem hy
      obtain ⟨head, args⟩ := (alike_members (isMember_of_mem hm) mx).1 left
      obtain ⟨head', args'⟩ := (alike_members (isMember_of_mem hm) my).1 right
      refine (alike_members mx my).2 ⟨head'.trans head.symm, ?_⟩
      rw [head]
      exact alike_args (fun a ha b c => ih m hm a ha) args args'
    obtain ⟨there, back⟩ := alike_iff.1 left
    obtain ⟨there', back'⟩ := alike_iff.1 right
    refine alike_iff.2 ⟨fun x hx => ?_, fun y hy => ?_⟩
    · obtain ⟨m, hm, same⟩ := back x hx
      obtain ⟨y, hy, same'⟩ := there' m hm
      exact ⟨y, hy, each m hm x hx y hy same same'⟩
    · obtain ⟨m, hm, same'⟩ := back' y hy
      obtain ⟨x, hx, same⟩ := there m hm
      exact ⟨x, hx, each m hm x hx y hy same same'⟩

theorem alike_symm {h g : Hint} (same : h.alike g) : g.alike h := alike_euclid same (alike_refl h)

theorem alike_trans {h g k : Hint} (left : h.alike g) (right : g.alike k) : h.alike k :=
  alike_euclid (alike_symm left) right

/-! ## The members of a union -/

mutual

/-- Each member of a hint inside a union comes with its own type. -/
theorem parts_eq (h : Hint) : h.parts = h.members.map fun m => (m, m.memberType) := by
  cases h with
  | union hs => exact partsList_eq hs
  | bar hs => exact partsList_eq hs
  | _ => rfl

theorem partsList_eq (hs : List Hint) :
    partsList hs = (membersList hs).map fun m => (m, m.memberType) := by
  cases hs with
  | nil => rfl
  | cons h hs => rw [partsList, membersList, List.map_append, parts_eq h, partsList_eq hs]

end

theorem mem_parts {h : Hint} {p : Hint × MemberType} :
    p ∈ h.parts ↔ p.1 ∈ h.members ∧ p.2 = p.1.memberType := by
  rw [parts_eq, List.mem_map]
  constructor
  · rintro ⟨m, hm, rfl⟩
    exact ⟨hm, rfl⟩
  · rintro ⟨hm, typed⟩
    exact ⟨p.1, hm, Prod.ext rfl typed.symm⟩

theorem distinct_concat (ps : List (Hint × MemberType)) (p : Hint × MemberType) :
    distinct (ps ++ [p])
      = if (distinct ps).any (·.1.alike p.1) then distinct ps else distinct ps ++ [p] := by
  rw [distinct, List.foldl_append]
  rfl

theorem distinct_subset (ps : List (Hint × MemberType)) : distinct ps ⊆ ps := by
  induction ps using List.reverseRecOn with
  | nil => exact fun _ hp => hp
  | append_singleton ps p ih =>
    rw [distinct_concat]
    split
    · exact fun _ hq => List.mem_append_left _ (ih hq)
    · intro q hq
      rcases List.mem_append.1 hq with hq | hq
      · exact List.mem_append_left _ (ih hq)
      · exact List.mem_append_right _ hq

theorem mem_distinct {ps : List (Hint × MemberType)} {p : Hint × MemberType} (hp : p ∈ ps) :
    ∃ q ∈ distinct ps, q.1.alike p.1 := by
  induction ps using List.reverseRecOn with
  | nil => cases hp
  | append_singleton ps r ih =>
    rw [distinct_concat]
    split
    · next known =>
      rcases List.mem_append.1 hp with hp | hp
      · exact ih hp
      · rw [List.mem_singleton.1 hp]
        simpa using known
    · rcases List.mem_append.1 hp with hp | hp
      · obtain ⟨q, hq, same⟩ := ih hp
        exact ⟨q, List.mem_append_left _ hq, same⟩
      · exact ⟨p, List.mem_append_right _ hp, alike_refl p.1⟩

theorem distinct_pairwise (ps : List (Hint × MemberType)) :
    (distinct ps).Pairwise fun p q => ¬p.1.alike q.1 := by
  induction ps using List.reverseRecOn with
  | nil => exact .nil
  | append_singleton ps p ih =>
    rw [distinct_concat]
    split
    · exact ih
    · next unknown =>
      simp only [Bool.not_eq_true, List.any_eq_false] at unknown
      refine List.pairwise_append.2 ⟨ih, List.pairwise_singleton _ _, fun q hq r hr => ?_⟩
      rw [List.mem_singleton.1 hr]
      simpa using unknown q hq

/-- Whether a member of a union is not the missing value. -/
def IsPresent (p : Hint × MemberType) : Prop := ¬p.1.alike (type missingType)

theorem IsPresent.congr {p q : Hint × MemberType} (present : IsPresent p)
    (same : p.1.alike q.1) : IsPresent q :=
  fun absent => present (alike_trans same absent)

section

variable {ps qs : List (Hint × MemberType)} {p q : Hint × MemberType}

/-- The members that a union mentions, apart from the missing value. -/
def kept (ps : List (Hint × MemberType)) : List (Hint × MemberType) :=
  (distinct ps).filter (!·.1.alike (type missingType))

theorem mem_kept : p ∈ kept ps ↔ p ∈ distinct ps ∧ IsPresent p := by
  simp [kept, IsPresent]

theorem exists_kept (hp : p ∈ ps) (present : IsPresent p) : ∃ q ∈ kept ps, q.1.alike p.1 := by
  obtain ⟨q, hq, same⟩ := mem_distinct hp
  exact ⟨q, mem_kept.2 ⟨hq, present.congr (alike_symm same)⟩, same⟩

theorem kept_pairwise (ps : List (Hint × MemberType)) :
    (kept ps).Pairwise fun p q => ¬p.1.alike q.1 :=
  (distinct_pairwise ps).filter _

/-- A union of nothing but the missing value is the class of the missing value. -/
theorem choose_absent (absent : ∀ p ∈ ps, ¬IsPresent p) : choose ps = ⟨missingType, false⟩ := by
  have nothing : kept ps = [] := List.eq_nil_iff_forall_not_mem.2 fun p hp =>
    absent p (distinct_subset ps (mem_kept.1 hp).1) (mem_kept.1 hp).2
  rw [choose, ← kept, nothing]

/-- A union of one type and perhaps the missing value has the type of its first mention. -/
theorem choose_only (hp : p ∈ ps) (present : IsPresent p)
    (only : ∀ q ∈ ps, IsPresent q → q.1.alike p.1) :
    ∃ q ∈ ps, q.1.alike p.1 ∧ choose ps = q.2 := by
  obtain ⟨q, hq, same⟩ := exists_kept hp present
  refine ⟨q, distinct_subset ps (mem_kept.1 hq).1, same, ?_⟩
  have each (r : Hint × MemberType) (hr : r ∈ kept ps) : r.1.alike p.1 :=
    only r (distinct_subset ps (mem_kept.1 hr).1) (mem_kept.1 hr).2
  have apart := kept_pairwise ps
  rw [choose, ← kept]
  generalize kept ps = ks at hq each apart ⊢
  rcases ks with _ | ⟨r, _ | ⟨r', rs⟩⟩
  · cases hq
  · rw [List.mem_singleton.1 hq]
  · have first := each r (by simp)
    have second := each r' (by simp)
    exact absurd (alike_trans first (alike_symm second))
      (List.rel_of_pairwise_cons apart List.mem_cons_self)

/-- A union of several types is the unknown type. -/
theorem choose_several (hp : p ∈ ps) (present : IsPresent p) (hq : q ∈ ps)
    (present' : IsPresent q) (different : ¬p.1.alike q.1) : choose ps = .unknown := by
  obtain ⟨r, hr, same⟩ := exists_kept hp present
  obtain ⟨r', hr', same'⟩ := exists_kept hq present'
  rw [choose, ← kept]
  generalize kept ps = ks at hr hr' ⊢
  rcases ks with _ | ⟨s, _ | ⟨s', rs⟩⟩
  · cases hr
  · rw [List.mem_singleton.1 hr] at same
    rw [List.mem_singleton.1 hr'] at same'
    exact absurd (alike_euclid same same') different
  · rfl

/-- Unions of the same types, apart from the missing value, have the same type. -/
theorem choose_congr (there : ∀ p ∈ ps, IsPresent p → ∃ q ∈ qs, p.1.alike q.1)
    (back : ∀ q ∈ qs, IsPresent q → ∃ p ∈ ps, p.1.alike q.1)
    (typed : ∀ p ∈ ps, ∀ q ∈ qs, p.1.alike q.1 → p.2 = q.2) : choose ps = choose qs := by
  -- Either nothing is present, or all that is present is one type, or there are two types.
  by_cases some : ∃ p ∈ ps, IsPresent p
  · obtain ⟨p, hp, present⟩ := some
    obtain ⟨q, hq, same⟩ := there p hp present
    have present' := present.congr same
    by_cases only : ∀ r ∈ ps, IsPresent r → r.1.alike p.1
    · have only' (r : Hint × MemberType) (hr : r ∈ qs) (left : IsPresent r) : r.1.alike q.1 := by
        obtain ⟨r', hr', same'⟩ := back r hr left
        have first := only r' hr' (left.congr (alike_symm same'))
        exact alike_trans (alike_euclid same' first) same
      obtain ⟨r, hr, first, chosen⟩ := choose_only hp present only
      obtain ⟨r', hr', second, chosen'⟩ := choose_only hq present' only'
      rw [chosen, chosen']
      exact typed r hr r' hr' (alike_trans (alike_trans first same) (alike_symm second))
    · simp only [not_forall] at only
      obtain ⟨r, hr, left, different⟩ := only
      obtain ⟨r', hr', same'⟩ := there r hr left
      rw [choose_several hr left hp present different]
      refine (choose_several hr' (left.congr same') hq present' fun alike => ?_).symm
      exact different (alike_trans same' (alike_trans alike (alike_symm same)))
  · simp only [not_exists, not_and] at some
    rw [choose_absent some, choose_absent fun q hq present => ?_]
    obtain ⟨p, hp, same⟩ := back q hq present
    exact some p hp (present.congr (alike_symm same))

end

end EntityGraph.Hint
