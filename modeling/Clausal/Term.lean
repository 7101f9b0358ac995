/-!
# Terms

Terms are built from variables and function symbols. There is no signature: a symbol is known by
its name, and takes as many arguments as stand at each of its occurrences. A function symbol
without arguments is a constant, and differs from the variable of the same name.

* `Term.variableNames` lists the occurrences of variables from left to right.
* `Term.subst` replaces all variables at once.
* `Term.render` is the written form, in which a constant looks like a variable.
-/

namespace Clausal

/-- `assign f x a` sends `x` to `a` and agrees with `f` elsewhere. It serves for substitutions and
for assignments of values to variables. -/
def assign {α : Type u} (f : String → α) (x : String) (a : α) : String → α :=
  fun y => if y = x then a else f y

@[simp] theorem assign_self {α : Type u} (f : String → α) (x : String) (a : α) :
    assign f x a x = a := by
  simp [assign]

@[simp] theorem assign_of_ne {α : Type u} {f : String → α} {x y : String} {a : α}
    (different : y ≠ x) : assign f x a y = f y := by
  simp [assign, different]

/-- Of two values for one variable the later counts. -/
theorem assign_assign {α : Type u} (f : String → α) (x : String) (a b : α) :
    assign (assign f x a) x b = assign f x b := by
  funext y
  by_cases same : y = x <;> simp [assign, same]

/-- The order of values for different variables makes no difference. -/
theorem assign_comm {α : Type u} {f : String → α} {x y : String} {a b : α} (different : y ≠ x) :
    assign (assign f x a) y b = assign (assign f y b) x a := by
  funext z
  by_cases same : z = y
  · simp [assign, same, different]
  · simp [assign, same]

/-- Giving a variable the value that it has changes nothing. -/
theorem assign_eq_self {α : Type u} {f : String → α} {x : String} {a : α} (same : f x = a) :
    assign f x a = f := by
  funext y
  by_cases equal : y = x <;> simp [assign, equal, same]

/-- A name followed by its arguments in parentheses; without arguments only the name. -/
def callText (name : String) (arguments : List String) : String :=
  if arguments.isEmpty then name else name ++ "(" ++ ", ".intercalate arguments ++ ")"

/-- A variable, or a function symbol applied to terms. -/
inductive Term where
  | var (name : String)
  | app (symbol : String) (args : List Term)
  deriving Repr

namespace Term

instance : Inhabited Term := ⟨.var ""⟩

mutual
/-- Terms are equal if they are built in the same way. -/
def decEq : (s t : Term) → Decidable (s = t)
  | .var x, .var y =>
      if same : x = y then isTrue (by rw [same]) else isFalse (by simpa using same)
  | .app f ss, .app g ts =>
      if same : f = g then
        match decEqList ss ts with
        | isTrue sameArgs => isTrue (by rw [same, sameArgs])
        | isFalse differ => isFalse (by simp [differ])
      else isFalse (by simp [same])
  | .var _, .app _ _ => isFalse (by simp)
  | .app _ _, .var _ => isFalse (by simp)

/-- Argument lists are equal if they agree at each place. -/
def decEqList : (ss ts : List Term) → Decidable (ss = ts)
  | [], [] => isTrue rfl
  | s :: ss, t :: ts =>
      match decEq s t, decEqList ss ts with
      | isTrue sameHead, isTrue sameTail => isTrue (by rw [sameHead, sameTail])
      | isFalse differ, _ => isFalse (by simp [differ])
      | _, isFalse differ => isFalse (by simp [differ])
  | [], _ :: _ => isFalse (by simp)
  | _ :: _, [] => isFalse (by simp)
end

instance : DecidableEq Term := decEq

/-- The name of the variable or of the outermost function symbol. -/
def name : Term → String
  | .var x => x
  | .app f _ => f

/-- The arguments of the outermost function symbol; a variable has none. -/
def args : Term → List Term
  | .var _ => []
  | .app _ ts => ts

/-- A constant is a function symbol without arguments. -/
def isConstant : Term → Bool
  | .app _ [] => true
  | _ => false

/-- All occurrences of variables, from left to right. -/
def variableNames : Term → List String
  | .var x => [x]
  | .app _ ts => ts.flatMap variableNames

/-- Replaces every variable `x` by `σ x`, all at once. -/
def subst (σ : String → Term) : Term → Term
  | .var x => σ x
  | .app f ts => .app f (ts.map (subst σ))

/-- The written form: `x`, `c`, `f(x, c)`. -/
def render : Term → String
  | .var x => x
  | .app f ts => callText f (ts.map render)

end Term

/-! ## Substitutions -/

/-- A substitution gives a term for each variable; those it leaves alone stand for themselves. -/
abbrev Substitution := String → Term

namespace Substitution

/-- The substitution that changes nothing. -/
def identity : Substitution := Term.var

/-- Replaces `x` by `t` and nothing else. -/
def single (x : String) (t : Term) : Substitution :=
  assign identity x t

/-- Leaves `x` alone, as below a quantifier that binds `x`. -/
def hide (σ : Substitution) (x : String) : Substitution :=
  assign σ x (.var x)

/-- The substitution given by a list of pairs; of two pairs for one variable the later counts. -/
def ofPairs (pairs : List (String × Term)) : Substitution :=
  pairs.foldl (fun σ pair => assign σ pair.1 pair.2) identity

end Substitution

/-! ## Laws of substitution in terms -/

namespace TermLemmas

theorem map_subst_identity {ts : List Term} (each : ∀ t ∈ ts, t.subst Substitution.identity = t) :
    ts.map (Term.subst Substitution.identity) = ts := by
  simpa using List.map_congr_left each

/-- The identity substitution changes no term. -/
theorem subst_identity (t : Term) : t.subst Substitution.identity = t := by
  induction t using Term.subst.induct with
  | case1 x => simp [Term.subst, Substitution.identity]
  | case2 f ts ih => rw [Term.subst, map_subst_identity ih]

/-- Substitutions that agree on the variables of a term have the same result. -/
theorem subst_congr {σ τ : Substitution} {t : Term}
    (agree : ∀ x ∈ t.variableNames, σ x = τ x) : t.subst σ = t.subst τ := by
  induction t using Term.variableNames.induct with
  | case1 x => simpa [Term.subst, Term.variableNames] using agree
  | case2 f ts ih =>
      simp only [Term.variableNames, List.mem_flatMap] at agree
      simp only [Term.subst, Term.app.injEq, true_and]
      exact List.map_congr_left fun t member => ih t member fun x inside => agree x ⟨t, member, inside⟩

end TermLemmas

end Clausal
