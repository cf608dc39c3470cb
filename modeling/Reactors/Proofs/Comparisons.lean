import Mathlib.Data.List.Perm.Subperm
import Reactors.Elaboration.Triggers
import Reactors.Proofs.Expansion
import Reactors.Proofs.OrderedMaps

/-!
# Comparison by meaning

Programs, values and trees are compared by what they mean: times by their length, floating point
numbers as numbers, maps without regard to the order of their names.  These comparisons are put
together from the comparisons of the parts, along lists, fields that may be missing, and maps.
What is found in two maps that are equal in this way is equal too, and so are the values of two
equal expressions.

Two outcomes agree if both are results that are related, or both are errors that are.  Steps
that agree can be chained, one by one or along two lists.

## Main definitions

* `Agree` — two outcomes are related results or related errors.
* `OrderedMap.Matches` — two maps have related values under the same names.
* `Value.Same`, `Expr.Same` — the ways in which two values or expressions can be equal.
* `Scope.Equal` — two scopes have equal parameters.

## Main results

* `sameList_iff`, `sameOption_iff`, `OrderedMap.same_iff` — the comparisons as relations.
* `Agree.bind`, `Agree.mapM` — chains of steps.
* `Expr.evaluate_agree` — equal expressions have equal values, or none.
-/

namespace Reactors

/-! ### Lists, missing fields and maps -/

variable {α β : Type}

/-- Lists agree under a comparison when they do so item by item. -/
theorem sameList_iff {eq : α → α → Bool} {as bs : List α} :
    sameList eq as bs = true ↔ List.Forall₂ (eq · · = true) as bs := by
  induction as generalizing bs with
  | nil => cases bs <;> simp [sameList]
  | cons a as ih => cases bs <;> simp [sameList, ih]

/-- Fields agree under a comparison when both are missing, or both are there and agree. -/
theorem sameOption_iff {eq : α → α → Bool} {a? b? : Option α} :
    sameOption eq a? b? = true ↔ Option.Rel (eq · · = true) a? b? := by
  cases a? <;> cases b? <;> simp [sameOption, Option.rel_some_some]

/-- What equal items have in common is the same along two lists of them. -/
theorem map_eq_of_forall₂ {γ : Type} {R : α → β → Prop} {f : α → γ} {g : β → γ} {as : List α}
    {bs : List β} (h : List.Forall₂ R as bs) (hfg : ∀ a b, R a b → f a = g b) :
    as.map f = bs.map g := by
  induction h with
  | nil => rfl
  | cons hab _ ih => rw [List.map_cons, List.map_cons, hfg _ _ hab, ih]

namespace OrderedMap

/-- Two maps have values for the same names, and the values of a name are related. -/
def Matches (R : α → β → Prop) (m : OrderedMap α) (n : OrderedMap β) : Prop :=
  ∀ key, Option.Rel R (m.get? key) (n.get? key)

namespace Matches

variable {R : α → β → Prop} {m : OrderedMap α} {n : OrderedMap β}

theorem empty : Matches R .empty .empty := fun _ => .none

theorem mem_keys_iff (h : m.Matches R n) (key : String) : key ∈ m.keys ↔ key ∈ n.keys := by
  have hkey := h key
  rw [OrderedMap.mem_keys_iff, OrderedMap.mem_keys_iff]
  generalize m.get? key = a?, n.get? key = b? at hkey ⊢
  cases hkey with
  | none => exact iff_of_false (by simp) (by simp)
  | some _ => exact iff_of_true ⟨_, rfl⟩ ⟨_, rfl⟩

/-- Related values can be set under one name. -/
theorem set (h : m.Matches R n) (key : String) {a : α} {b : β} (hab : R a b) :
    (m.set key a).Matches R (n.set key b) := by
  intro k
  by_cases hk : k = key
  · subst hk
    rw [get?_set_self, get?_set_self]
    exact .some hab
  · rw [get?_set_ne m hk, get?_set_ne n hk]
    exact h k

/-- Maps with the same names are of one size. -/
theorem size_eq (h : m.Matches R n) : m.size = n.size := by
  have hperm : m.keys.Perm n.keys :=
    (List.perm_ext_iff_of_nodup m.distinct n.distinct).2 h.mem_keys_iff
  have hlength := hperm.length_eq
  rwa [length_keys, length_keys] at hlength

end Matches

variable {eq : α → α → Bool} {m n : OrderedMap α}

/-- Maps are equal under a comparison of values when their values match under it. -/
theorem same_iff : m.same eq n = true ↔ m.Matches (eq · · = true) n := by
  rw [same, Bool.and_eq_true, beq_iff_eq, List.all_eq_true]
  constructor
  · rintro ⟨hsize, hentries⟩ key
    have hall : ∀ e ∈ m.entries, ∃ v, n.get? e.1 = some v ∧ eq e.2 v = true := by
      intro e he
      have hentry := hentries e he
      split at hentry
      · next v hv => exact ⟨v, hv, hentry⟩
      · cases hentry
    -- no name of `n` is left over, for there are as many names in `m`
    have hsub : m.keys ⊆ n.keys := by
      intro k hk
      obtain ⟨e, he, rfl⟩ := List.mem_map.1 hk
      obtain ⟨v, hv, -⟩ := hall e he
      exact mem_keys_iff.2 ⟨v, hv⟩
    have hperm : m.keys.Perm n.keys := by
      have hlength : m.keys.length = n.keys.length := by rw [length_keys, length_keys, hsize]
      exact (List.Nodup.subperm m.distinct hsub).perm_of_length_le (Nat.le_of_eq hlength.symm)
    cases hm : m.get? key with
    | none =>
      have hnone : n.get? key = none := by
        rw [get?_eq_none_iff] at hm ⊢
        exact fun hmem => hm (hperm.mem_iff.2 hmem)
      rw [hnone]
      exact .none
    | some v =>
      obtain ⟨w, hw, heq⟩ := hall _ (get?_eq_some_iff.1 hm)
      rw [hw]
      exact .some heq
  · intro h
    refine ⟨h.size_eq, fun e he => ?_⟩
    have hget : m.get? e.1 = some e.2 := get?_eq_some_iff.2 he
    have hrel := h e.1
    rw [hget] at hrel
    cases hn : n.get? e.1 with
    | none =>
      rw [hn] at hrel
      cases hrel
    | some v =>
      rw [hn] at hrel
      cases hrel with
      | some heq => exact heq

end OrderedMap

/-! ### Declarations and parameters -/

theorem ParameterDecl.same_iff {a b : ParameterDecl} :
    a.same b = true ↔ a.name = b.name ∧ a.type = b.type ∧ a.default.same b.default = true := by
  simp [same, and_assoc]

theorem Site.same_iff {a b : Site} : a.same b = true ↔ a.name = b.name ∧ a.reactor = b.reactor ∧
    a.overrides.Matches (Expr.same · · = true) b.overrides := by
  simp [same, OrderedMap.same_iff, and_assoc]

theorem TimerDecl.same_iff {a b : TimerDecl} : a.same b = true ↔ a.name = b.name ∧
    Option.Rel (Expr.same · · = true) a.offset b.offset ∧
      Option.Rel (Expr.same · · = true) a.period b.period := by
  simp [same, sameOption_iff, and_assoc]

theorem ActionDecl.same_iff {a b : ActionDecl} : a.same b = true ↔ a.name = b.name ∧
    a.origin = b.origin ∧ Option.Rel (Expr.same · · = true) a.minDelay b.minDelay ∧
      Option.Rel (Expr.same · · = true) a.minSpacing b.minSpacing ∧
      a.type = b.type := by
  simp [same, sameOption_iff, and_assoc]

theorem PortDecl.same_iff {a b : PortDecl} : a.same b = true ↔ a.name = b.name ∧
    a.type = b.type ∧ Option.Rel (Expr.same · · = true) a.width b.width := by
  simp [same, sameOption_iff, and_assoc]

theorem ReactorDecl.same_iff {a b : ReactorDecl} : a.same b = true ↔ a.name = b.name ∧
    List.Forall₂ (ParameterDecl.same · · = true) a.parameters b.parameters ∧
    List.Forall₂ (PortDecl.same · · = true) a.inputs b.inputs ∧
    List.Forall₂ (PortDecl.same · · = true) a.outputs b.outputs ∧
    List.Forall₂ (TimerDecl.same · · = true) a.timers b.timers ∧
    List.Forall₂ (ActionDecl.same · · = true) a.actions b.actions ∧
    List.Forall₂ (Site.same · · = true) a.sites b.sites := by
  simp [same, sameList_iff, and_assoc]

theorem Program.same_iff {p q : Program} : p.same q = true ↔ p.main = q.main ∧
    List.Forall₂ (ReactorDecl.same · · = true) p.reactors q.reactors := by
  simp [same, sameList_iff]

theorem Parameter.same_iff {a b : Parameter} : a.same b = true ↔
    a.name = b.name ∧ a.value.same b.value = true ∧ a.provenance = b.provenance := by
  simp [same, and_assoc]

/-! ### Outcomes -/

/-- Two outcomes agree: they are results that are related, or errors that are. -/
inductive Agree {ε ε' : Type} (E : ε → ε' → Prop) (R : α → β → Prop) :
    Except ε α → Except ε' β → Prop where
  | ok {a : α} {b : β} : R a b → Agree E R (.ok a) (.ok b)
  | error {x : ε} {y : ε'} : E x y → Agree E R (.error x) (.error y)

namespace Agree

variable {γ δ ε ε' : Type} {E : ε → ε' → Prop} {R : α → β → Prop} {S : γ → δ → Prop}

/-- An outcome agrees with itself if its result is related to itself. -/
theorem of_self {R : α → α → Prop} {E : ε → ε → Prop} (hE : ∀ cause, E cause cause)
    {x : Except ε α} (h : ∀ a, x = .ok a → R a a) : Agree E R x x := by
  cases x with
  | error cause => exact .error (hE cause)
  | ok a => exact .ok (h a rfl)

/-- Steps that agree can be chained. -/
theorem bind {x : Except ε α} {y : Except ε' β} {f : α → Except ε γ} {g : β → Except ε' δ}
    (h : Agree E R x y) (hstep : ∀ a b, R a b → Agree E S (f a) (g b)) :
    Agree E S (x >>= f) (y >>= g) := by
  cases h with
  | ok hab => exact hstep _ _ hab
  | error hxy => exact .error hxy

/-- Results that are related can be put to use alike. -/
theorem map {x : Except ε α} {y : Except ε' β} {f : α → γ} {g : β → δ} (h : Agree E R x y)
    (hstep : ∀ a b, R a b → S (f a) (g b)) : Agree E S (x.map f) (y.map g) := by
  cases h with
  | ok hab => exact .ok (hstep _ _ hab)
  | error hxy => exact .error hxy

/-- Outcomes are equal if they agree in being equal. -/
theorem eq {x y : Except ε α} (h : Agree (· = ·) (· = ·) x y) : x = y := by
  cases h with
  | ok hab => rw [hab]
  | error hxy => rw [hxy]

/-- What agrees with a result is a result. -/
theorem exists_of_ok {a : α} {y : Except ε' β} (h : Agree E R (.ok a) y) :
    ∃ b, y = .ok b ∧ R a b := by
  cases h with
  | ok hab => exact ⟨_, rfl, hab⟩

theorem imp {x : Except ε α} {y : Except ε' β} {S : α → β → Prop} (h : Agree E R x y)
    (hRS : ∀ a b, R a b → S a b) : Agree E S x y := by
  cases h with
  | ok hab => exact .ok (hRS _ _ hab)
  | error hxy => exact .error hxy

/-- Steps that agree item by item can be chained along two lists. -/
theorem mapM {f : α → Except ε γ} {g : β → Except ε' δ} {as : List α} {bs : List β}
    (h : List.Forall₂ R as bs) (hstep : ∀ a b, R a b → Agree E S (f a) (g b)) :
    Agree E (List.Forall₂ S) (as.mapM f) (bs.mapM g) := by
  induction h with
  | nil => exact .ok .nil
  | cons hab _ ih =>
    rw [List.mapM_cons, List.mapM_cons]
    refine (hstep _ _ hab).bind fun c d hcd => ih.bind fun cs ds hcds => ?_
    exact .ok (.cons hcd hcds)

/-- Two steps that agree at every item of a list agree along it. -/
theorem mapM_self {f : α → Except ε γ} {g : α → Except ε' δ} {as : List α}
    (h : ∀ a ∈ as, Agree E S (f a) (g a)) :
    Agree E (List.Forall₂ S) (as.mapM f) (as.mapM g) := by
  have hself : List.Forall₂ (fun a b => a = b ∧ a ∈ as) as as :=
    List.forall₂_same.2 fun a ha => ⟨rfl, ha⟩
  refine mapM hself ?_
  rintro a _ ⟨rfl, ha⟩
  exact h a ha

end Agree

/-! ### Values -/

theorem TimeValue.same_refl (t : TimeValue) : t.same t = true := beq_self_eq_true t.toNanos

namespace Value

/-- The ways in which two values can be equal. -/
inductive Same : Value → Value → Prop where
  | int (n : Int64) : Same (.int n) (.int n)
  | float {x y : Binary64} : x.equal y = true → Same (.float x) (.float y)
  | bool (b : Bool) : Same (.bool b) (.bool b)
  | str (s : String) : Same (.str s) (.str s)
  | time {s t : TimeValue} : s.same t = true → Same (.time s) (.time t)
  | array {vs ws : List Value} : sameItems vs ws = true → Same (.array vs) (.array ws)
  | code (c : String) : Same (.code c) (.code c)

variable {v w : Value}

theorem Same.of_same : v.same w = true → v.Same w := by
  fun_cases Value.same v w with
  | case1 a b => exact fun h => beq_iff_eq.1 h ▸ .int a
  | case2 x y => exact .float
  | case3 a b => exact fun h => beq_iff_eq.1 h ▸ .bool a
  | case4 a b => exact fun h => beq_iff_eq.1 h ▸ .str a
  | case5 s t => exact .time
  | case6 vs ws => exact .array
  | case7 a b => exact fun h => beq_iff_eq.1 h ▸ .code a
  | case8 => exact fun h => nomatch h

/-- Equal values are equal durations, or neither is one. -/
theorem asTime?_rel (h : v.same w = true) :
    Option.Rel (TimeValue.same · · = true) v.asTime? w.asTime? := by
  cases Same.of_same h with
  | time hst => exact .some hst
  | int n =>
    rw [asTime?]
    split
    · exact .some (TimeValue.same_refl _)
    · exact .none
  | _ => exact .none

theorem asInt?_eq (h : v.same w = true) : v.asInt? = w.asInt? := by
  cases Same.of_same h with
  | _ => rfl

/-- Equal arrays have equal first elements. -/
theorem initial_same (h : v.same w = true) : v.initial.same w.initial = true := by
  cases Same.of_same h with
  | @array vs ws hitems =>
    cases vs with
    | nil =>
      cases ws with
      | nil => rfl
      | cons b bs => cases hitems
    | cons a as =>
      cases ws with
      | nil => cases hitems
      | cons b bs =>
        rw [sameItems, Bool.and_eq_true] at hitems
        exact hitems.1
  | _ => exact h

end Value

/-! ### Expressions -/

/-- Scopes whose parameters are equal. -/
abbrev Scope.Equal (scope scope' : Scope) : Prop :=
  scope.Matches (Parameter.same · · = true) scope'

namespace Expr

/-- The ways in which two expressions can be equal. -/
inductive Same : Expr → Expr → Prop where
  | int (n : Int64) : Same (.int n) (.int n)
  | float {x y : Binary64} : x.equal y = true → Same (.float x) (.float y)
  | bool (b : Bool) : Same (.bool b) (.bool b)
  | str (s : String) : Same (.str s) (.str s)
  | time {s t : TimeValue} : s.same t = true → Same (.time s) (.time t)
  | paramRef (name : String) : Same (.paramRef name) (.paramRef name)
  | list {xs ys : List Expr} : sameItems xs ys = true → Same (.list xs) (.list ys)
  | code (c : String) : Same (.code c) (.code c)

theorem Same.of_same {x y : Expr} : x.same y = true → x.Same y := by
  fun_cases Expr.same x y with
  | case1 a b => exact fun h => beq_iff_eq.1 h ▸ .int a
  | case2 x y => exact .float
  | case3 a b => exact fun h => beq_iff_eq.1 h ▸ .bool a
  | case4 a b => exact fun h => beq_iff_eq.1 h ▸ .str a
  | case5 s t => exact .time
  | case6 a b => exact fun h => beq_iff_eq.1 h ▸ .paramRef a
  | case7 xs ys => exact .list
  | case8 a b => exact fun h => beq_iff_eq.1 h ▸ .code a
  | case9 => exact fun h => nomatch h

variable {scope scope' : Scope}

mutual

/-- **Equal expressions have equal values** among equal parameters, or neither has one. -/
theorem evaluate_agree (hscope : Scope.Equal scope scope') : ∀ x y : Expr, x.same y = true →
    Agree (fun _ _ => True) (Value.same · · = true) (x.evaluate scope) (y.evaluate scope')
  | .paramRef name, y => fun h => by
    cases Same.of_same h
    have hname := hscope name
    rw [evaluate, evaluate]
    generalize scope.get? name = p?, scope'.get? name = q? at hname ⊢
    cases hname with
    | none => exact .error trivial
    | some hpq => exact .ok (Value.initial_same (Parameter.same_iff.1 hpq).2.1)
  | .list items, y => fun h => by
    cases Same.of_same h with
    | @list _ items' hitems =>
      rw [evaluate, evaluate]
      exact (evaluateItems_agree hscope items items' hitems).map fun _ _ h => h
  -- literals stand for themselves
  | .int _, y | .float _, y | .bool _, y | .str _, y | .time _, y | .code _, y => fun h => by
    cases Same.of_same h with
    | _ => exact .ok h

theorem evaluateItems_agree (hscope : Scope.Equal scope scope') : ∀ xs ys : List Expr,
    sameItems xs ys = true →
    Agree (fun _ _ => True) (Value.sameItems · · = true) (evaluateItems scope xs)
      (evaluateItems scope' ys)
  | [], ys => fun h => by
    cases ys with
    | nil => exact .ok rfl
    | cons y ys => cases h
  | x :: xs, ys => fun h => by
    cases ys with
    | nil => cases h
    | cons y ys =>
      rw [sameItems, Bool.and_eq_true] at h
      have hfirst := evaluate_agree hscope x y h.1
      have hrest := evaluateItems_agree hscope xs ys h.2
      rw [evaluateItems, evaluateItems]
      generalize x.evaluate scope = v, y.evaluate scope' = w at hfirst ⊢
      cases hfirst with
      | error _ => exact .error trivial
      | ok hvw =>
        refine hrest.map fun vs ws hvws => ?_
        rw [Value.sameItems, hvw, hvws]
        rfl

end

end Expr
end Reactors
