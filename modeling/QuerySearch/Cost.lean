import QuerySearch.Component.Chains

/-! Costs: how far a component is from the input query.  What the model holds is free.  Beyond it a
chain or the name of an aggregate function costs one however often it is used, and nothing if the
template has it at all; everything else costs as many as there are too many. -/

namespace QuerySearch

def Kind.isChargedOnce (k : Kind) : Bool := k.isChain || k == .aggFunc

/-- The input query with the terminals, and the counts that are free, which grow with allowances. -/
structure Estimator where
  template : Counter
  model : Counter

namespace Estimator

def ofQuery (query : Component) : Estimator :=
  let template := (terminals.map (·.counter)).foldl Counter.plus query.counter
  ⟨template, template⟩

def allow (e : Estimator) (allowance : Counter) : Estimator := { e with model := e.model.plus allowance }

def charge (e : Estimator) (f : Fingerprint) (excess : Nat) : Nat :=
  if excess = 0 then 0
  else if f.kind.isChargedOnce then if e.template.contains f then 0 else 1
  else excess

def chargeEntries (e : Estimator) : (used model : List (Fingerprint × Nat)) → Nat
  | [], _ => 0
  | (f, n) :: es, [] => e.charge f n + e.chargeEntries es []
  | (f, n) :: es, (g, m) :: ds =>
    if g < f then e.chargeEntries ((f, n) :: es) ds
    else if f < g then e.charge f n + e.chargeEntries es ((g, m) :: ds)
    else e.charge f (n - m) + e.chargeEntries es ds
  termination_by used model => used.length + model.length

def costUnder (e : Estimator) (model : Counter) (c : Component) : Nat :=
  e.chargeEntries c.counter.entries model.entries

def cost (e : Estimator) (c : Component) : Nat := e.costUnder e.model c

def chargeEach (e : Estimator) (free : Fingerprint → Nat) : List (Fingerprint × Nat) → Nat
  | [] => 0
  | (f, n) :: es => e.charge f (n - free f) + e.chargeEach free es

theorem chargeEach_congr (e : Estimator) {free free' : Fingerprint → Nat}
    {es : List (Fingerprint × Nat)} (h : ∀ x ∈ es, free x.1 = free' x.1) :
    e.chargeEach free es = e.chargeEach free' es := by
  induction es with
  | nil => rfl
  | cons x es ih =>
    simp only [chargeEach, h x (.head _), ih fun y hy => h y (.tail _ hy)]

theorem chargeEntries_eq (e : Estimator) {used model : List (Fingerprint × Nat)}
    (hu : used.Pairwise fun a b => a.1 < b.1) (hm : model.Pairwise fun a b => a.1 < b.1) :
    e.chargeEntries used model = e.chargeEach (fun f => Counter.countIn f model) used := by
  fun_induction chargeEntries e used model with
  | case1 => rfl
  | case2 f n es ih => simp only [ih (List.pairwise_cons.1 hu).2 hm, chargeEach, Counter.countIn, Nat.sub_zero]
  | case3 f n es g m ds hlt ih =>
    obtain ⟨hg, hm⟩ := List.pairwise_cons.1 hm
    rw [ih hu hm]
    refine e.chargeEach_congr fun x hx => ?_
    have hgx : g < x.1 := Counter.Behind.cons hlt (List.pairwise_cons.1 hu).1 x hx
    have hne : x.1 ≠ g := fun heq => Fingerprint.lt_irrefl g (heq ▸ hgx)
    rw [Counter.countIn_cons hg, if_neg hne]
  | case4 f n es g m ds hgt hlt ih =>
    simp only [ih (List.pairwise_cons.1 hu).2 hm, chargeEach,
      Counter.countIn_of_behind (.cons hlt (List.pairwise_cons.1 hm).1), Nat.sub_zero]
  | case5 f n es g m ds hgt hlt ih =>
    obtain rfl := Fingerprint.eq_of_not_lt hlt hgt
    obtain ⟨hf, hu⟩ := List.pairwise_cons.1 hu
    obtain ⟨hg, hm⟩ := List.pairwise_cons.1 hm
    rw [ih hu hm]
    simp only [chargeEach, Counter.countIn_cons hg, if_true]
    refine congrArg _ (e.chargeEach_congr fun x hx => ?_)
    have hne : x.1 ≠ f := fun heq => Fingerprint.lt_irrefl f (heq ▸ hf x hx)
    rw [if_neg hne]

/-- The cost of a component is what each of its parts costs beyond its count in the model. -/
theorem costUnder_eq (e : Estimator) (model : Counter) (c : Component) :
    e.costUnder model c = e.chargeEach model.get c.counter.entries :=
  e.chargeEntries_eq c.counter.sorted model.sorted

end Estimator

end QuerySearch
