import EntityGraph.Proofs.Host.Alike

/-!
# Optional types count as the types themselves

Nothing changes in the type that is read off a hint if some hint inside it is made optional. A union
takes the missing value in and leaves it out again when it chooses, a sequence reads the type of its
first argument as it would read the argument alone, and any other form is not looked into. The one
place where it matters is inside a member of a union of several types: it may stop, or start, being
the same type as another one.

What is said of the hint at some place in another one is said along the path there, and each step of
the path keeps it.
-/

namespace EntityGraph.Hint

/-! ## Plain hints -/

mutual

/-- Whether a hint is built from classes, unions and forms alone. The missing value stands in it
only where it becomes its class: among the members of a union or the arguments of a generic form. -/
def isPlain : Hint → Bool
  | type _ => true
  | missing | bar _ | classVar _ => false
  | union hs => arePlain true hs
  | sequence _ generic hs | other _ generic hs => arePlain generic hs

/-- Whether hints may stand among the members of a union or the arguments of a form. -/
def arePlain (generic : Bool) : List Hint → Bool
  | [] => true
  | h :: hs => (generic && h.isMissing || h.isPlain) && arePlain generic hs

end

/-- Whether a hint may stand among the arguments of a form. -/
def isPlainIn (generic : Bool) (h : Hint) : Bool := generic && h.isMissing || h.isPlain

theorem isPlainIn_of_isPlain (generic : Bool) {h : Hint} (plain : h.isPlain) :
    h.isPlainIn generic := by
  simp [isPlainIn, plain]

theorem isPlainIn_true {generic : Bool} {h : Hint} (plain : h.isPlainIn generic) :
    h.isPlainIn true := by
  simp only [isPlainIn, Bool.or_eq_true, Bool.and_eq_true] at plain ⊢
  exact plain.imp_left fun absent => ⟨trivial, absent.2⟩

theorem arePlain_iff {generic : Bool} {hs : List Hint} :
    arePlain generic hs ↔ ∀ h ∈ hs, h.isPlainIn generic := by
  induction hs with
  | nil => simp [arePlain]
  | cons h hs ih => simp [arePlain, ih, isPlainIn]

mutual

theorem isPlain_of_mem {h m : Hint} (plain : h.isPlainIn true) (hm : m ∈ h.members) :
    m.isPlain := by
  cases h with
  | union hs => exact isPlain_of_memList (by simpa [isPlainIn, isMissing, isPlain] using plain) hm
  | missing => rw [List.mem_singleton.1 hm]; rfl
  | bar hs => cases plain
  | _ =>
    rw [List.mem_singleton.1 hm]
    simpa [isPlainIn, isMissing] using plain

theorem isPlain_of_memList {hs : List Hint} {m : Hint} (plain : arePlain true hs)
    (hm : m ∈ membersList hs) : m.isPlain := by
  cases hs with
  | nil => cases hm
  | cons h hs =>
    simp only [arePlain, Bool.and_eq_true] at plain
    exact (List.mem_append.1 hm).elim (isPlain_of_mem plain.1) (isPlain_of_memList plain.2)

end

/-! ## The types of plain hints -/

theorem eq_missingType {m : Hint} (member : m.isMember) (same : m.alike (type missingType)) :
    m = type missingType :=
  eq_type_of_head member ((alike_members member rfl).1 same).1.symm

/-- A member has the type of the union that it makes alone. -/
theorem choose_singleton {m : Hint} (member : m.isMember) :
    choose [(m, m.memberType)] = m.memberType := by
  by_cases absent : m.alike (type missingType)
  · rw [eq_missingType member absent, choose_absent]
    · rfl
    · simp [IsPresent, alike_refl]
  · obtain ⟨p, hp, -, chosen⟩ := choose_only (List.mem_singleton_self (m, m.memberType)) absent
      (by simp [alike_refl])
    rw [chosen, List.mem_singleton.1 hp]

/-- A plain hint has the type of the union of its members. -/
theorem memberType_eq_choose {h : Hint} (plain : h.isPlainIn true) :
    h.ofMember.memberType = choose h.parts := by
  cases h with
  | union hs => rfl
  | bar hs => cases plain
  | classVar h => cases plain
  | missing => exact (choose_singleton rfl).symm
  | type t => exact (choose_singleton rfl).symm
  | sequence form generic hs => exact (choose_singleton rfl).symm
  | other form generic hs => exact (choose_singleton rfl).symm

/-- A sequence has elements of the type of its first argument. -/
theorem elementType_cons {generic : Bool} {h : Hint} (plain : h.isPlainIn generic)
    (hs : List Hint) : elementType generic (h :: hs) = h.ofMember.memberType := by
  cases h with
  | missing =>
    obtain rfl : generic = true := by simpa [isPlainIn, isMissing, isPlain] using plain
    rfl
  | _ => rfl

/-- Members that are the same type have the same type read off them once their arguments do. -/
theorem memberType_members {m m' : Hint} (member : m.isMember) (member' : m'.isMember)
    (plain : m.isPlain) (plain' : m'.isPlain)
    (ih : ∀ a ∈ m.args, ∀ g : Hint, a.isPlainIn true → g.isPlainIn true → a.alike g →
      a.ofMember.memberType = g.ofMember.memberType)
    (same : m.alike m') : m.memberType = m'.memberType := by
  obtain ⟨heads, args⟩ := (alike_members member member').1 same
  cases m with
  | type t => rw [eq_type_of_head member' heads]
  | sequence form generic hs =>
    rw [eq_sequence_of_head heads] at plain' args ⊢
    refine congrArg sequenceOf ?_
    generalize m'.args = gs at plain' args ⊢
    cases args with
    | nil => rfl
    | @cons a b as bs same rest =>
      have plainA := arePlain_iff.1 plain a List.mem_cons_self
      have plainB := arePlain_iff.1 plain' b List.mem_cons_self
      rw [elementType_cons plainA, elementType_cons plainB]
      exact ih a List.mem_cons_self b (isPlainIn_true plainA) (isPlainIn_true plainB) same.2
  | other form generic hs =>
    cases m' <;> cases heads
    rfl
  | classVar h => cases plain
  | _ => cases member

def Has (h t : Hint) : Prop := ∃ m ∈ h.members, m.alike t

/-- Whether two hints have members of the same types, apart from the missing value. -/
def Agree (h g : Hint) : Prop := ∀ t : Hint, ¬t.alike (type missingType) → (h.Has t ↔ g.Has t)

theorem Agree.of_alike {h g : Hint} (same : h.alike g) : h.Agree g := by
  obtain ⟨there, back⟩ := alike_iff.1 same
  refine fun t _ => ⟨?_, ?_⟩
  · rintro ⟨m, hm, is⟩
    obtain ⟨m', hm', same⟩ := there m hm
    exact ⟨m', hm', alike_euclid same is⟩
  · rintro ⟨m', hm', is⟩
    obtain ⟨m, hm, same⟩ := back m' hm'
    exact ⟨m, hm, alike_trans same is⟩

/-- Plain hints that agree apart from the missing value have the same type read off them. -/
theorem memberType_agree {h g : Hint} (plain : h.isPlainIn true) (plain' : g.isPlainIn true)
    (agree : h.Agree g) : h.ofMember.memberType = g.ofMember.memberType := by
  induction h using args_induction generalizing g with
  | step h ih =>
    rw [memberType_eq_choose plain, memberType_eq_choose plain']
    refine choose_congr (fun p hp present => ?_) (fun q hq present => ?_) fun p hp q hq alike => ?_
    · obtain ⟨m, hm, same⟩ := (agree p.1 present).1 ⟨p.1, (mem_parts.1 hp).1, alike_refl p.1⟩
      exact ⟨(m, m.memberType), mem_parts.2 ⟨hm, rfl⟩, alike_symm same⟩
    · obtain ⟨m, hm, same⟩ := (agree q.1 present).2 ⟨q.1, (mem_parts.1 hq).1, alike_refl q.1⟩
      exact ⟨(m, m.memberType), mem_parts.2 ⟨hm, rfl⟩, same⟩
    · obtain ⟨hm, typed⟩ := mem_parts.1 hp
      obtain ⟨hm', typed'⟩ := mem_parts.1 hq
      rw [typed, typed']
      refine memberType_members (isMember_of_mem hm) (isMember_of_mem hm') (isPlain_of_mem plain hm)
        (isPlain_of_mem plain' hm') (fun a ha g plain plain' same => ?_) alike
      exact ih p.1 hm a ha plain plain' (.of_alike same)

theorem ofMember_of_isPlain {h : Hint} (plain : h.isPlain) : h.ofMember = h := by
  cases h with
  | missing => cases plain
  | _ => rfl

theorem Agree.memberType {h g : Hint} (agree : h.Agree g) (plain : h.isPlain)
    (plain' : g.isPlain) : h.memberType = g.memberType := by
  have read := memberType_agree (isPlainIn_of_isPlain true plain) (isPlainIn_of_isPlain true plain')
    agree
  rwa [ofMember_of_isPlain plain, ofMember_of_isPlain plain'] at read

/-! ## Hints inside hints -/

/-- The optional type of a type. -/
def optional (h : Hint) : Hint := union [h, missing]

/-- What stands around a hint: the other members of a union, or the other arguments of a form. -/
inductive Frame where
  | union (before after : List Hint)
  | sequence (form : String) (generic : Bool) (before after : List Hint)
  | other (form : String) (generic : Bool) (before after : List Hint)

namespace Frame

/-- The hint that has another one inside a frame. -/
def fill (h : Hint) : Frame → Hint
  | union before after => .union (before ++ h :: after)
  | sequence form generic before after => .sequence form generic (before ++ h :: after)
  | other form generic before after => .other form generic (before ++ h :: after)

def isUnion : Frame → Bool
  | union .. => true
  | _ => false

/-- Whether a frame is that of a union in which nothing stands beside the hint but the missing
value. -/
def isOptional : Frame → Bool
  | union before after => (before ++ after).all (·.alike missing)
  | _ => false

end Frame

/-- The hint that has another one at the end of a path, whose frames are given from the outside. -/
def fill (path : List Frame) (h : Hint) : Hint := path.foldr (fun f h => f.fill h) h

/-- Whether a path does not lead inside a member of a union of several types: where it enters a
union, the hint at its end is itself a member, or the missing value is all that stands beside. -/
def isFree : List Frame → Bool
  | [] => true
  | f :: path => (!f.isUnion || path.all Frame.isUnion || f.isOptional) && isFree path

section

variable {h g t : Hint}

theorem mem_membersList {hs : List Hint} {m : Hint} :
    m ∈ membersList hs ↔ ∃ h ∈ hs, m ∈ h.members := by
  induction hs with
  | nil => simp [membersList]
  | cons h hs ih => simp [membersList, ih]

theorem has_union {hs : List Hint} : (union hs).Has t ↔ ∃ h ∈ hs, h.Has t := by
  simp only [Has, members, mem_membersList]
  constructor
  · rintro ⟨m, ⟨h, hh, hm⟩, is⟩
    exact ⟨h, hh, m, hm, is⟩
  · rintro ⟨h, hh, m, hm, is⟩
    exact ⟨m, ⟨h, hh, hm⟩, is⟩

theorem has_frame {before after : List Hint} :
    (union (before ++ h :: after)).Has t ↔ h.Has t ∨ ∃ g ∈ before ++ after, g.Has t := by
  simp only [has_union, List.mem_append, List.mem_cons]
  constructor
  · rintro ⟨g, hg | rfl | hg, has⟩
    · exact .inr ⟨g, .inl hg, has⟩
    · exact .inl has
    · exact .inr ⟨g, .inr hg, has⟩
  · rintro (has | ⟨g, hg | hg, has⟩)
    · exact ⟨h, .inr (.inl rfl), has⟩
    · exact ⟨g, .inl hg, has⟩
    · exact ⟨g, .inr (.inr hg), has⟩

/-- A hint that is no more than the missing value has nothing else. -/
theorem not_has_of_absent (absent : h.alike missing) (present : ¬t.alike (type missingType)) :
    ¬h.Has t := by
  rintro ⟨m, hm, is⟩
  obtain ⟨m', hm', same⟩ := (alike_iff.1 absent).1 m hm
  rw [List.mem_singleton.1 hm'] at same
  exact present (alike_euclid is same)

theorem agree_optional (h : Hint) : h.optional.Agree h := by
  intro t present
  rw [optional, ← List.nil_append [h, missing], has_frame]
  refine or_iff_left ?_
  rintro ⟨g, hg, has⟩
  rw [List.mem_singleton.1 hg] at has
  exact not_has_of_absent (alike_refl missing) present has

/-- A union agrees with the only one of its members that is not the missing value. -/
theorem agree_of_isOptional {f : Frame} (only : f.isOptional) (h : Hint) : (f.fill h).Agree h := by
  cases f with
  | union before after =>
    intro t present
    rw [Frame.fill, has_frame]
    refine or_iff_left ?_
    rintro ⟨g, hg, has⟩
    exact not_has_of_absent (List.all_eq_true.1 only g hg) present has
  | _ => cases only

/-- Unions agree if they differ in members that do. -/
theorem Agree.fill (agree : h.Agree g) {path : List Frame} (unions : path.all Frame.isUnion) :
    (fill path h).Agree (Hint.fill path g) := by
  induction path with
  | nil => exact agree
  | cons f path ih =>
    simp only [List.all_cons, Bool.and_eq_true] at unions
    cases f with
    | union before after =>
      intro t present
      exact has_frame.trans ((or_congr_left (ih unions.2 t present)).trans has_frame.symm)
    | _ => cases unions.1

/-! ## Plain hints inside plain hints -/

theorem Frame.isPlain_of_isPlainIn {f : Frame} {generic : Bool}
    (plain : (f.fill h).isPlainIn generic) : (f.fill h).isPlain := by
  cases f <;> simpa [isPlainIn, isMissing, Frame.fill] using plain

/-- A frame stays plain around another hint that may stand wherever the first one may. -/
theorem Frame.isPlain_fill {f : Frame} (plain : (f.fill h).isPlain)
    (still : ∀ generic, h.isPlainIn generic → g.isPlainIn generic) : (f.fill g).isPlain := by
  have kept (generic : Bool) (before after : List Hint)
      (plain : arePlain generic (before ++ h :: after)) :
      arePlain generic (before ++ g :: after) := by
    rw [arePlain_iff] at plain ⊢
    intro k hk
    rcases List.mem_append.1 hk with hk | hk
    · exact plain k (List.mem_append_left _ hk)
    · rcases List.mem_cons.1 hk with rfl | hk
      · exact still generic (plain h (List.mem_append_right _ List.mem_cons_self))
      · exact plain k (List.mem_append_right _ (List.mem_cons_of_mem _ hk))
  cases f with
  | union before after => exact kept true before after plain
  | sequence form generic before after => exact kept generic before after plain
  | other form generic before after => exact kept generic before after plain

theorem isPlain_optional (plain : h.isPlainIn true) : h.optional.isPlain := by
  refine arePlain_iff.2 fun g hg => ?_
  rcases List.mem_cons.1 hg with rfl | hg
  · exact plain
  · rw [List.mem_singleton.1 hg]
    rfl

theorem isPlain_fill_optional {path : List Frame} (plain : (fill path h).isPlainIn true) :
    (fill path h.optional).isPlain := by
  induction path with
  | nil => exact isPlain_optional plain
  | cons f path ih =>
    exact Frame.isPlain_fill (Frame.isPlain_of_isPlainIn plain) fun generic plain =>
      isPlainIn_of_isPlain generic (ih (isPlainIn_true plain))

theorem Frame.isPlainIn_of_fill {f : Frame} (plain : (f.fill h).isPlain) : h.isPlainIn true := by
  cases f with
  | union before after => exact arePlain_iff.1 plain h (by simp)
  | sequence form generic before after =>
    exact isPlainIn_true (arePlain_iff.1 plain h (by simp))
  | other form generic before after =>
    exact isPlainIn_true (arePlain_iff.1 plain h (by simp))

/-! ## What making a hint optional leaves as it is -/

/-- A form reads no more of a hint inside it than the type that is read off this. -/
theorem Frame.memberType_fill {f : Frame} (form : f.isUnion = false) (plain : (f.fill h).isPlain)
    (plain' : (f.fill g).isPlain) (same : h.ofMember.memberType = g.ofMember.memberType) :
    (f.fill h).memberType = (f.fill g).memberType := by
  cases f with
  | union before after => cases form
  | other form generic before after => rfl
  | sequence form generic before after =>
    refine congrArg sequenceOf ?_
    cases before with
    | cons first before =>
      have plain := arePlain_iff.1 plain first List.mem_cons_self
      rw [List.cons_append, List.cons_append, elementType_cons plain, elementType_cons plain]
    | nil =>
      have plainH := arePlain_iff.1 plain h List.mem_cons_self
      have plainG := arePlain_iff.1 plain' g List.mem_cons_self
      rw [List.nil_append, List.nil_append, elementType_cons plainH, elementType_cons plainG, same]

/-- The type that is read off a hint stays if a hint inside it, at the end of a free path, is made
optional. -/
theorem memberType_fill_optional {path : List Frame} (plain : (fill path h).isPlainIn true)
    (free : isFree path) :
    (fill path h.optional).ofMember.memberType = (fill path h).ofMember.memberType := by
  -- Where nothing but unions is entered, the two hints agree as a whole.
  have within {path : List Frame} (plain : (fill path h).isPlainIn true)
      (unions : path.all Frame.isUnion) :
      (fill path h.optional).ofMember.memberType = (fill path h).ofMember.memberType :=
    memberType_agree (isPlainIn_of_isPlain true (isPlain_fill_optional plain)) plain
      ((agree_optional h).fill unions)
  induction path with
  | nil => exact within plain rfl
  | cons f path ih =>
    have whole : (f.fill (fill path h)).isPlain := Frame.isPlain_of_isPlainIn plain
    have whole' : (f.fill (fill path h.optional)).isPlain := isPlain_fill_optional plain
    have inner := Frame.isPlainIn_of_fill whole
    simp only [isFree, Bool.and_eq_true] at free
    have step := ih inner free.2
    cases kind : f.isUnion with
    | false =>
      have read := Frame.memberType_fill kind whole' whole step
      rwa [← ofMember_of_isPlain whole, ← ofMember_of_isPlain whole'] at read
    | true =>
      rw [kind] at free
      rcases (Bool.or_eq_true _ _).mp free.1 with unions | only
      · exact within plain (by simpa [kind] using unions)
      · calc (f.fill (fill path h.optional)).ofMember.memberType
          _ = (fill path h.optional).ofMember.memberType :=
            memberType_agree (isPlainIn_of_isPlain true whole') (Frame.isPlainIn_of_fill whole')
              (agree_of_isOptional only _)
          _ = (fill path h).ofMember.memberType := step
          _ = (f.fill (fill path h)).ofMember.memberType :=
            (memberType_agree (isPlainIn_of_isPlain true whole) inner
              (agree_of_isOptional only _)).symm

end

/-! ## Which hints are sequences -/

/-- Whether a hint is a type, or the optional type of it. -/
def IsOptionally (h s : Hint) : Prop := h.alike s ∨ h.alike s.optional

/-- The host type of the elements of a sequence with these arguments. -/
def elementHost : List Hint → HostType
  | [] => .any
  | h :: _ => if h.ofMember.memberType.isList then .builtin .object else h.ofMember.memberType.host

section

variable {h : Hint} {form : String} {generic : Bool} {args : List Hint}

theorem memberType_sequence (plain : (sequence form generic args).isPlain) :
    (sequence form generic args).memberType = ⟨elementHost args, true⟩ := by
  cases args with
  | nil => rfl
  | cons a args =>
    have inner := arePlain_iff.1 plain a List.mem_cons_self
    rw [memberType, elementType_cons inner]
    rfl

/-- A hint that is a type once the missing value is left out agrees with that type. -/
theorem IsOptionally.agree {s : Hint} (is : h.IsOptionally s) : h.Agree s := by
  rcases is with same | same
  · exact .of_alike same
  · exact fun t present => (Agree.of_alike same t present).trans (agree_optional s t present)

/-- A plain hint is a type, or the optional type of it, if all its members are of that type but the
missing value. -/
theorem isOptionally_of_members {s m : Hint} (member : s.isMember) (hm : m ∈ h.members)
    (is : m.alike s) (only : ∀ m ∈ h.members, ¬m.alike (type missingType) → m.alike s) :
    h.IsOptionally s := by
  have alone : s.members = [s] := members_of_isMember member
  by_cases absent : ∃ m ∈ h.members, m.alike (type missingType)
  · obtain ⟨m', hm', none⟩ := absent
    have both : s.optional.members = [s, type missingType] := by
      simp [optional, members, membersList, alone]
    refine .inr (alike_iff.2 ?_)
    rw [both]
    refine ⟨fun k hk => ?_, fun t ht => ?_⟩
    · by_cases none : k.alike (type missingType)
      · exact ⟨_, by simp, none⟩
      · exact ⟨s, by simp, only k hk none⟩
    · rcases List.mem_cons.1 ht with rfl | ht
      · exact ⟨m, hm, is⟩
      · rw [List.mem_singleton.1 ht]
        exact ⟨m', hm', none⟩
  · simp only [not_exists, not_and] at absent
    refine .inl (alike_iff.2 ?_)
    rw [alone]
    refine ⟨fun k hk => ⟨s, by simp, only k hk (absent k hk)⟩, fun t ht => ?_⟩
    rw [List.mem_singleton.1 ht]
    exact ⟨m, hm, is⟩

theorem eq_sequence_of_isList {m : Hint} (member : m.isMember) (list : m.memberType.isList) :
    ∃ form generic args, m = sequence form generic args := by
  cases m with
  | sequence form generic args => exact ⟨form, generic, args, rfl⟩
  | union hs => cases member
  | bar hs => cases member
  | _ => cases list

/-- A hint whose type is a list is a sequence once the missing value is left out. -/
theorem exists_sequence (plain : h.isPlain) (list : h.memberType.isList) :
    ∃ form generic args, (sequence form generic args).isPlain
      ∧ h.IsOptionally (sequence form generic args) := by
  have part := isPlainIn_of_isPlain true plain
  rw [← ofMember_of_isPlain plain, memberType_eq_choose part] at list
  by_cases some : ∃ p ∈ h.parts, IsPresent p
  · obtain ⟨p, hp, present⟩ := some
    by_cases only : ∀ q ∈ h.parts, IsPresent q → q.1.alike p.1
    · obtain ⟨q, hq, same, chosen⟩ := choose_only hp present only
      obtain ⟨hm, typed⟩ := mem_parts.1 hq
      rw [chosen, typed] at list
      have member := isMember_of_mem hm
      obtain ⟨form, generic, args, is⟩ := eq_sequence_of_isList member list
      refine ⟨form, generic, args, is ▸ isPlain_of_mem part hm, ?_⟩
      rw [← is]
      refine isOptionally_of_members member hm (alike_refl q.1) fun m hm present => ?_
      have same' := only (m, m.memberType) (mem_parts.2 ⟨hm, rfl⟩) present
      exact alike_trans same' (alike_symm same)
    · simp only [not_forall] at only
      obtain ⟨q, hq, present', different⟩ := only
      rw [choose_several hq present' hp present different] at list
      cases list
  · simp only [not_exists, not_and] at some
    rw [choose_absent some] at list
    cases list

end

/-! ## Optional types in hints -/

/-- Making a hint optional inside a plain one leaves the type that is read off this as it is, unless
it stands inside a member of a union of several types. The place is one in any way of writing the
whole: where a union mentions a type twice it keeps one of them, and the places inside both are one.

That type is a list if, and only if, the whole is a sequence once the missing value is left out. The
elements are then of the type of its first argument, or of any type without one, and they are
opaque if they are sequences themselves. -/
theorem optional_transparent :
    (∀ (h k : Hint) (path : List Frame), h.isPlain → (fill path k).isPlain → isFree path →
      h.alike (fill path k) → (fill path k.optional).memberType = h.memberType)
    ∧ ∀ h : Hint, h.isPlain →
      (h.memberType.isList ↔ ∃ form generic args, (sequence form generic args).isPlain
        ∧ h.IsOptionally (sequence form generic args))
      ∧ ∀ form generic args, (sequence form generic args).isPlain →
        h.IsOptionally (sequence form generic args) → h.memberType = ⟨elementHost args, true⟩ := by
  have listed (h : Hint) (plain : h.isPlain) (form : String) (generic : Bool) (args : List Hint)
      (plain' : (sequence form generic args).isPlain)
      (is : h.IsOptionally (sequence form generic args)) :
      h.memberType = ⟨elementHost args, true⟩ :=
    (is.agree.memberType plain plain').trans (memberType_sequence plain')
  refine ⟨fun h k path plain plain' free same => ?_, fun h plain => ⟨⟨?_, ?_⟩, ?_⟩⟩
  · have part := isPlainIn_of_isPlain true plain'
    have read := memberType_fill_optional part free
    rw [ofMember_of_isPlain plain', ofMember_of_isPlain (isPlain_fill_optional part)] at read
    exact read.trans ((Agree.of_alike same).memberType plain plain').symm
  · exact exists_sequence plain
  · rintro ⟨form, generic, args, plain', is⟩
    rw [listed h plain form generic args plain' is]
  · exact listed h plain

/-- A sequence of numbers that is mentioned twice beside the missing value is a sequence of numbers,
and so is the sequence of optional numbers in its place. -/
theorem optional_numbers :
    (union [missing, sequence "list" true [(type (.builtin .int)).optional]]).memberType
      = (union [sequence "list" true [type (.builtin .int)], missing,
          sequence "list" true [union [type (.builtin .int)]]]).memberType
    ∧ (union [sequence "list" true [type (.builtin .int)], missing,
          sequence "list" true [union [type (.builtin .int)]]]).memberType
      = ⟨.builtin .int, true⟩ :=
  ⟨optional_transparent.1 _ (type (.builtin .int))
      [.union [missing] [], .sequence "list" true [] []] (by decide) (by decide) (by decide)
      (by decide),
    (optional_transparent.2 _ (by decide)).2 "list" true [type (.builtin .int)] (by decide)
      (.inr (by decide))⟩

end EntityGraph.Hint
