import Telemetry.Proofs.Json.Layout

/-!
# A number in a tree

`Raw.Around` is a tree with one number left out, and `Around.fill` puts a number there. Where the
number stands is said by a path, whose steps lead into objects by name and into arrays by position
(`Around.At`).

Gathering tokens into a tree does not look into a number. So when a number stands among tokens, one
of three things is the case, and it is the same for every number: it has a place in what has been
gathered, or it is among the tokens that are left, or it has been passed over (`Raw.Course`). This
holds of values, items and members alike, by induction on the calls (`Raw.course`). If the path to
the number is known, only the first is possible (`Raw.exists_around`).
-/

namespace Telemetry

/-- A step into a value: into an object by the name of a member, into an array by position. -/
structure Step where
  name : String
  index : Nat
  deriving DecidableEq

namespace Raw

/-- A tree with a number left out. -/
inductive Around where
  /-- There is nothing but the number. -/
  | here
  /-- The number is in an item of an array. -/
  | item (before : List Raw) (inner : Around) (after : List Raw) (ending : Ending)
  /-- The number is in a member of an object. -/
  | member (before : List Member) (key : Except Fault String) (inner : Around)
      (after : List Member) (ending : Ending)

/-- The tree with the number put in. -/
def Around.fill (x : Except Fault Number) : Around → Raw
  | .here => .number x
  | .item before inner after ending => .array (before ++ inner.fill x :: after) ending
  | .member before key inner after ending => .object (before ++ (key, inner.fill x) :: after) ending

/-- The path leads to the number. -/
inductive Around.At : Around → List Step → Prop where
  | here : At .here []
  | item {step : Step} {path : List Step} {inner : Around} {before after : List Raw}
      {ending : Ending} (h : inner.At path) (hindex : before.length = step.index) :
      At (.item before inner after ending) (step :: path)
  | member {step : Step} {path : List Step} {inner : Around} {before after : List Member}
      {ending : Ending} (h : inner.At path) :
      At (.member before (.ok step.name) inner after ending) (step :: path)

/-! ### The value at the end of a path -/

/-- The item of the first member with the name. -/
def named? (name : String) (members : List Member) : Option Raw :=
  members.findSome? fun member => if member.1.toOption = some name then some member.2 else none

/-- The value at the end of the path. -/
def at? : List Step → Raw → Option Raw
  | [], raw => some raw
  | step :: path, .array items _ => items[step.index]?.bind (at? path)
  | step :: path, .object members _ => (named? step.name members).bind (at? path)
  | _ :: _, _ => none

/-- What is the same for every integer is not the integer itself. -/
theorem not_forall_int {found : Option Raw} :
    ¬ ∀ n : Int, found = some (.number (.ok (.int n))) := by
  intro h
  have heq := (h 0).symm.trans (h 1)
  cases heq

/-- If every integer is found at the end of the path, then the path leads to it. -/
theorem Around.at_of_at? {around : Around} {path : List Step}
    (h : ∀ n : Int, (around.fill (.ok (.int n))).at? path = some (.number (.ok (.int n)))) :
    around.At path := by
  -- by induction on the tree around the number, whatever the path is: a step that leads past it
  -- would find the same for every integer
  induction around generalizing path with
  | here =>
    cases path with
    | nil => exact .here
    | cons step path => cases h 0
  | item before inner after ending ih =>
    cases path with
    | nil => cases h 0
    | cons step path =>
      simp only [fill, at?] at h
      rcases Nat.lt_trichotomy step.index before.length with hlt | heq | hgt
      · -- the items before and behind it are the same for every integer
        simp only [List.getElem?_append_left hlt] at h
        exact absurd h not_forall_int
      · -- the index of the step is that of the item with the number
        refine .item (ih fun n => ?_) heq.symm
        have hn := h n
        rwa [heq, List.getElem?_append_right (Nat.le_refl _), Nat.sub_self] at hn
      · -- an item behind it
        obtain ⟨k, hk⟩ : ∃ k, step.index - before.length = k + 1 :=
          ⟨_, (Nat.succ_pred_eq_of_pos (Nat.sub_pos_of_lt hgt)).symm⟩
        simp only [List.getElem?_append_right (Nat.le_of_lt hgt), hk, List.getElem?_cons_succ] at h
        exact absurd h not_forall_int
  | member before key inner after ending ih =>
    cases path with
    | nil => cases h 0
    | cons step path =>
      simp only [fill, at?, named?, List.findSome?_append, List.findSome?_cons] at h
      cases hfirst : before.findSome? fun member =>
          if member.1.toOption = some step.name then some member.2 else none with
      | some found =>
        -- an earlier member of the name hides it, and there is no number in it
        simp only [hfirst, Option.some_or] at h
        exact absurd h not_forall_int
      | none => -- no member before it has the name of the step
        simp only [hfirst, Option.none_or] at h
        by_cases hkey : key.toOption = some step.name
        · have hname : key = .ok step.name := by
            cases key with
            | ok name => exact congrArg _ (Option.some.inj hkey)
            | error fault => cases hkey
          subst hname
          refine .member (ih fun n => ?_)
          have hn := h n
          rwa [if_pos hkey] at hn
        · -- the name is another, so what is found stands behind it
          simp only [hkey, if_false] at h
          exact absurd h not_forall_int

/-! ### Gathering -/

/-- **The course of a number** that stands in front of the tokens `behind`: whatever number it is,
it has a place in what has been read, or is still to be read, or has been passed over. What has been
read and the tokens that are left make up the result by `pack`. -/
def Course (pack : α → List Token → β) (place : (Except Fault Number → α) → Prop)
    (behind : List Token) (read : Except Fault Number → β) : Prop :=
  (∃ f rest, place f ∧ ∀ x, read x = pack (f x) rest) ∨
    (∃ a ts, ∀ x, read x = pack a (ts ++ .number x :: behind)) ∨
    ∃ a rest, ∀ x, read x = pack a rest

theorem Course.map {pack : α → List Token → β} {pack' : α' → List Token → β'}
    {place : (Except Fault Number → α) → Prop} {place' : (Except Fault Number → α') → Prop}
    {behind : List Token} {read : Except Fault Number → β} {read' : Except Fault Number → β'}
    (h : Course pack place behind read) (g : α → α')
    (hplace : ∀ f, place f → place' fun x => g (f x))
    (hread : ∀ x a rest, read x = pack a rest → read' x = pack' (g a) rest) :
    Course pack' place' behind read' := by
  -- the three cases stay what they are
  rcases h with ⟨f, rest, hf, h⟩ | ⟨a, ts, h⟩ | ⟨a, rest, h⟩
  · exact .inl ⟨_, rest, hplace f hf, fun x => hread x _ _ (h x)⟩
  · exact .inr (.inl ⟨g a, ts, fun x => hread x _ _ (h x)⟩)
  · exact .inr (.inr ⟨g a, rest, fun x => hread x _ _ (h x)⟩)

/-- A value, with the number in it. -/
def InValue (f : Except Fault Number → Raw) : Prop :=
  ∃ around : Around, ∀ x, f x = around.fill x

/-- The items of an array, with the number in one of them. -/
def InItems (f : Except Fault Number → List Raw × Ending) : Prop :=
  ∃ (before : List Raw) (around : Around) (after : List Raw) (ending : Ending),
    ∀ x, f x = (before ++ around.fill x :: after, ending)

/-- The members of an object, with the number in one of them. -/
def InMembers (f : Except Fault Number → List Member × Ending) : Prop :=
  ∃ (before : List Member) (key : Except Fault String) (around : Around) (after : List Member)
    (ending : Ending), ∀ x, f x = (before ++ (key, around.fill x) :: after, ending)

/-- What has been read of an array or object, its end, and the tokens that are left. -/
def packed (read : α × Ending) (rest : List Token) : α × Ending × List Token :=
  (read.1, read.2, rest)

theorem inValue_array {f : Except Fault Number → List Raw × Ending} (h : InItems f) :
    InValue fun x => .array (f x).1 (f x).2 := by
  obtain ⟨before, around, after, ending, hf⟩ := h
  exact ⟨.item before around after ending, fun x => by simp only [hf, Around.fill]⟩

theorem inValue_object {f : Except Fault Number → List Member × Ending} (h : InMembers f) :
    InValue fun x => .object (f x).1 (f x).2 := by
  obtain ⟨before, key, around, after, ending, hf⟩ := h
  exact ⟨.member before key around after ending, fun x => by simp only [hf, Around.fill]⟩

theorem inItems_cons {f : Except Fault Number → List Raw × Ending} (h : InItems f) (item : Raw) :
    InItems fun x => (item :: (f x).1, (f x).2) := by
  obtain ⟨before, around, after, ending, hf⟩ := h
  exact ⟨item :: before, around, after, ending, fun x => by simp only [hf, List.cons_append]⟩

theorem inMembers_cons {f : Except Fault Number → List Member × Ending} (h : InMembers f)
    (member : Member) : InMembers fun x => (member :: (f x).1, (f x).2) := by
  obtain ⟨before, key, around, after, ending, hf⟩ := h
  exact ⟨member :: before, key, around, after, ending,
    fun x => by simp only [hf, List.cons_append]⟩

/-! ### Reading on -/

/-- What comes behind an item does not depend on the item. -/
theorem exists_itemsFrom (fuel : Nat) (rest : List Token) :
    ∃ more ending left, ∀ item, itemsFrom fuel item rest = (item :: more, ending, left) := by
  unfold itemsFrom
  -- in each case the item is only put in front
  split <;> exact ⟨_, _, _, fun _ => rfl⟩

/-- What comes behind a member does not depend on the member. -/
theorem exists_membersFrom (fuel : Nat) (rest : List Token) : ∃ more ending left,
    ∀ member, membersFrom fuel member rest = (member :: more, ending, left) := by
  unfold membersFrom
  -- in each case the member is only put in front
  split <;> exact ⟨_, _, _, fun _ => rfl⟩

section Gathering

variable {behind : List Token} {fuel : Nat}
  (hvalue : ∀ ts, Course Prod.mk InValue behind fun x => value fuel (ts ++ .number x :: behind))
  (hitems : ∀ ts, Course packed InItems behind fun x => items fuel (ts ++ .number x :: behind))
  (hmembers : ∀ key ts, Course packed InMembers behind fun x =>
    members fuel key (ts ++ .number x :: behind))

/-- The tokens begin with something else than the bracket that closes an array. -/
def Opens (tokens : List Token) : Prop :=
  ∃ t rest, t ≠ .closeArray ∧ tokens = t :: rest

include hitems in
theorem course_array {ts : List Token} (hopens : ∀ x, Opens (ts ++ .number x :: behind)) :
    Course Prod.mk InValue behind fun x =>
      value (fuel + 1) (.openArray :: (ts ++ .number x :: behind)) := by
  refine (hitems ts).map (fun read => .array read.1 read.2) (fun _ => inValue_array) ?_
  intro x read rest h
  obtain ⟨t, more, ht, heq⟩ := hopens x
  rw [heq] at h ⊢
  rw [Json.value_openArray ht, h]
  rfl

include hmembers in
theorem course_object (key : Except Fault String) (ts : List Token) :
    Course Prod.mk InValue behind fun x =>
      value (fuel + 1) (.openObject :: .text key :: (ts ++ .number x :: behind)) := by
  refine (hmembers key ts).map (fun read => .object read.1 read.2) (fun _ => inValue_object) ?_
  intro x read rest h
  rw [value]
  simp only [h, packed]

include hitems hmembers in
theorem course_value_succ (ts : List Token) :
    Course Prod.mk InValue behind fun x => value (fuel + 1) (ts ++ .number x :: behind) := by
  cases ts with
  -- the number itself is the value
  | nil => exact .inl ⟨_, behind, ⟨.here, fun _ => rfl⟩, fun _ => rfl⟩
  | cons t ts =>
    cases t with
    | openArray =>
      cases ts with
      -- the number is the first token of the first item, and no bracket
      | nil => exact course_array hitems fun x => ⟨.number x, behind, nofun, rfl⟩
      | cons t ts =>
        by_cases ht : t = .closeArray
        · subst ht -- the array is empty, and the number is behind it
          exact .inr (.inl ⟨.array [] .closed, ts, fun _ => rfl⟩)
        · exact course_array hitems fun x => ⟨t, _, ht, rfl⟩
    | openObject =>
      cases ts with
      -- a number where a name should be: the object is given up before it
      | nil => exact .inr (.inl ⟨.object [] (.broken .malformed), [], fun _ => rfl⟩)
      | cons t ts =>
        cases t with
        | text key => exact course_object hmembers key ts
        | closeObject => exact .inr (.inl ⟨.object [] .closed, ts, fun _ => rfl⟩)
        | tornText tear => exact .inr (.inl ⟨.object [] (.broken tear), ts, fun _ => rfl⟩)
        | _ => exact .inr (.inl ⟨.object [] (.broken .malformed), _ :: ts, fun _ => rfl⟩)
    -- a value of one token, or none at all: what follows is left over
    | _ => exact .inr (.inl ⟨_, ts, fun _ => rfl⟩)

include hitems in
/-- The number is behind an item. -/
theorem course_itemsFrom (item : Raw) (ts : List Token) :
    Course packed InItems behind fun x => itemsFrom fuel item (ts ++ .number x :: behind) := by
  -- behind a comma there are items again, if no bracket follows
  have hcomma : ∀ {ts}, (∀ x, Opens (ts ++ .number x :: behind)) →
      Course packed InItems behind fun x =>
        itemsFrom fuel item (.comma :: (ts ++ .number x :: behind)) := by
    intro ts hopens
    refine (hitems ts).map (fun read => (item :: read.1, read.2))
      (fun _ h => inItems_cons h item) ?_
    intro x read rest h
    obtain ⟨t, more, ht, heq⟩ := hopens x
    rw [heq] at h ⊢
    rw [itemsFrom_comma ht, h]
    rfl
  cases ts with
  -- the number stands where a comma should, and is passed over
  | nil => exact .inr (.inr ⟨([item], .broken .malformed), behind, fun _ => rfl⟩)
  | cons t ts =>
    cases t with
    | comma =>
      cases ts with
      | nil => exact hcomma fun x => ⟨.number x, behind, nofun, rfl⟩
      | cons t ts =>
        by_cases ht : t = .closeArray
        · -- the array ends behind the comma, and the number is left over
          subst ht
          exact .inr (.inl ⟨([item], .dangling .malformed), ts, fun _ => rfl⟩)
        · exact hcomma fun x => ⟨t, _, ht, rfl⟩
    | closeArray => exact .inr (.inl ⟨([item], .closed), ts, fun _ => rfl⟩)
    | _ => exact .inr (.inl ⟨([item], .broken .malformed), ts, fun _ => rfl⟩)

include hmembers in
/-- The number is behind a member. -/
theorem course_membersFrom (member : Member) (ts : List Token) :
    Course packed InMembers behind fun x =>
      membersFrom fuel member (ts ++ .number x :: behind) := by
  cases ts with
  -- the number stands where a comma should, and is passed over
  | nil => exact .inr (.inr ⟨([member], .broken .malformed), behind, fun _ => rfl⟩)
  | cons t ts =>
    cases t with
    | comma =>
      cases ts with
      -- the number stands where a name should, and is left over
      | nil => exact .inr (.inl ⟨([member], .dangling .malformed), [], fun _ => rfl⟩)
      | cons t ts =>
        cases t with
        | text next =>
          refine (hmembers next ts).map (fun read => (member :: read.1, read.2))
            (fun _ h => inMembers_cons h member) ?_
          intro x read rest h
          rw [List.cons_append, List.cons_append, membersFrom, h]
          rfl
        | tornText tear => exact .inr (.inl ⟨([member], .dangling tear), ts, fun _ => rfl⟩)
        | _ => exact .inr (.inl ⟨([member], .dangling .malformed), _ :: ts, fun _ => rfl⟩)
    | closeObject => exact .inr (.inl ⟨([member], .closed), ts, fun _ => rfl⟩)
    | _ => exact .inr (.inl ⟨([member], .broken .malformed), ts, fun _ => rfl⟩)

include hvalue hitems in
theorem course_items_succ (ts : List Token) :
    Course packed InItems behind fun x => items (fuel + 1) (ts ++ .number x :: behind) := by
  rcases hvalue ts with ⟨f, rest, ⟨around, hf⟩, h⟩ | ⟨item, left, h⟩ | ⟨item, rest, h⟩
  · -- the number is in the first item
    obtain ⟨more, ending, left, hfrom⟩ := exists_itemsFrom fuel rest
    exact .inl ⟨_, left, ⟨[], around, more, ending, fun _ => rfl⟩,
      fun x => (items_eq (h x)).trans (hf x ▸ hfrom _)⟩
  · -- the number is behind the first item
    have hread : (fun x => items (fuel + 1) (ts ++ .number x :: behind)) =
        fun x => itemsFrom fuel item (left ++ .number x :: behind) := funext fun x => items_eq (h x)
    rw [hread]
    exact course_itemsFrom hitems item left
  · -- the number has been passed over
    obtain ⟨more, ending, left, hfrom⟩ := exists_itemsFrom fuel rest
    exact .inr (.inr ⟨(item :: more, ending), left, fun x => (items_eq (h x)).trans (hfrom _)⟩)

include hvalue hmembers in
theorem course_members_succ (key : Except Fault String) (ts : List Token) :
    Course packed InMembers behind fun x =>
      members (fuel + 1) key (ts ++ .number x :: behind) := by
  cases ts with
  -- the number stands where a colon should, and is passed over
  | nil => exact .inr (.inr ⟨([(key, malformed)], .broken .malformed), behind, fun _ => rfl⟩)
  | cons t ts =>
    cases t with
    | colon =>
      rcases hvalue ts with ⟨f, rest, ⟨around, hf⟩, h⟩ | ⟨item, left, h⟩ | ⟨item, rest, h⟩
      · -- the number is in the first member
        obtain ⟨more, ending, left, hfrom⟩ := exists_membersFrom fuel rest
        exact .inl ⟨_, left, ⟨[], key, around, more, ending, fun _ => rfl⟩,
          fun x => (members_eq (h x)).trans (hf x ▸ hfrom _)⟩
      · -- the number is behind the first member
        have hread : (fun x => members (fuel + 1) key (.colon :: ts ++ .number x :: behind)) =
            fun x => membersFrom fuel (key, item) (left ++ .number x :: behind) :=
          funext fun x => members_eq (h x)
        rw [hread]
        exact course_membersFrom hmembers (key, item) left
      · -- the number has been passed over
        obtain ⟨more, ending, left, hfrom⟩ := exists_membersFrom fuel rest
        exact .inr (.inr ⟨((key, item) :: more, ending), left,
          fun x => (members_eq (h x)).trans (hfrom _)⟩)
    | _ => exact .inr (.inl ⟨([(key, malformed)], .broken .malformed), ts, fun _ => rfl⟩)

end Gathering

/-- **Gathering takes the same course for every number.** -/
theorem course (behind : List Token) (fuel : Nat) :
    (∀ ts, Course Prod.mk InValue behind fun x => value fuel (ts ++ .number x :: behind)) ∧
    (∀ ts, Course packed InItems behind fun x => items fuel (ts ++ .number x :: behind)) ∧
    ∀ key ts, Course packed InMembers behind fun x =>
      members fuel key (ts ++ .number x :: behind) := by
  -- the three functions call each other with one call less to spend, so they go together
  induction fuel with
  | zero =>
    exact ⟨fun ts => .inr (.inl ⟨malformed, ts, fun _ => rfl⟩),
      fun ts => .inr (.inl ⟨([], .broken .malformed), ts, fun _ => rfl⟩),
      fun key ts => .inr (.inl ⟨([], .broken .malformed), ts, fun _ => rfl⟩)⟩
  | succ fuel ih =>
    obtain ⟨hvalue, hitems, hmembers⟩ := ih
    exact ⟨course_value_succ hitems hmembers, course_items_succ hvalue hitems,
      course_members_succ hvalue hmembers⟩

/-- **A number with a path stands in a tree** that is the same for every number. To know the path it
is enough to look at integers. -/
theorem exists_around {ts behind : List Token} {path : List Step}
    (h : ∀ n : Int, (ofTokens (ts ++ .number (.ok (.int n)) :: behind)).1.at? path =
      some (.number (.ok (.int n)))) :
    ∃ (around : Around) (rest : List Token), around.At path ∧
      ∀ x, ofTokens (ts ++ .number x :: behind) = (around.fill x, rest) := by
  -- the calls that are allowed for are counted by the tokens, so they are as many for every number
  have hfuel : ∀ x, ofTokens (ts ++ .number x :: behind) =
      value (2 * (ts.length + (behind.length + 1)) + 2) (ts ++ .number x :: behind) :=
    fun x => by rw [ofTokens, List.length_append, List.length_cons]
  -- the path finds each integer, so the tree cannot be the same for all of them
  have hconstant : ∀ raw, ¬ ∀ x,
      (value (2 * (ts.length + (behind.length + 1)) + 2) (ts ++ .number x :: behind)).1 = raw := by
    intro raw hraw
    have hfound : ∀ n : Int, raw.at? path = some (.number (.ok (.int n))) :=
      fun n => by rw [← h n, hfuel, hraw]
    exact not_forall_int hfound
  rcases (course behind (2 * (ts.length + (behind.length + 1)) + 2)).1 ts with
    ⟨f, rest, ⟨around, hf⟩, hread⟩ | ⟨raw, left, hread⟩ | ⟨raw, rest, hread⟩
  · have hfill : ∀ x, ofTokens (ts ++ .number x :: behind) = (around.fill x, rest) :=
      fun x => (hfuel x).trans ((hread x).trans (hf x ▸ rfl))
    exact ⟨around, rest, Around.at_of_at? fun n => by rw [← h n, hfill], hfill⟩
  -- a number that is left over or passed over does not show in the tree
  · exact (hconstant raw fun x => congrArg Prod.fst (hread x)).elim
  · exact (hconstant raw fun x => congrArg Prod.fst (hread x)).elim

end Raw

end Telemetry
