import Mathlib.Algebra.BigOperators.Ring.List
import Mathlib.Logic.Function.Basic
import ShadeGraph.Shader.Call

/-!
# The meaning of statements

A statement of generated code declares a variable and computes it: by an expression, by a call of a function, as an
array of values, or as the sum of the products of two arrays. It can be written for each language, and it can be run.
What expressions and functions stand for is left open, apart from two laws: a variable stands for what it holds, and an
expression depends on nothing but the variables that it reads.
-/

namespace ShadeGraph

/-- A statement that declares a variable and computes it. -/
inductive Statement where
  | define (type : DataType) (name : String) (value : Code)
  | call (output : Output) (function : String) (arguments : List Code)
  | array (type : DataType) (name : String) (elements : List Code)
  /-- The sum of the products of the first elements of two arrays. -/
  | products (type : DataType) (name first second : String) (count : Nat)

namespace Statement

def product (first second : String) (i : Nat) : Code :=
  [.reads first, .text (bracketed i ++ " * "), .reads second, .text (bracketed i)]

def emit (e : Surroundings) : Statement → Emit Unit
  | define type name value => do
    let declaration ← e.language.declare type name none
    Emit.statement (declaration.assign value)
  | call output function arguments => e.invoke function arguments [output]
  | array type name elements => do
    let declaration ← e.language.declareArray type name elements
    Emit.statement declaration
  | products type name first second count => do
    let declaration ← e.language.declare type name none
    Emit.statement (declaration.assign (Code.join " + " ((List.range count).map (product first second))))

end Statement

/-- What variables hold: one value, or those of an array. -/
abbrev Store (V : Type) := String → List V

/-- What expressions and functions stand for. -/
structure Code.Meaning (V : Type) where
  expression : Code → (String → V) → V
  function : String → List V → V
  expression_reads : ∀ x values, expression [.reads x] values = values x
  expression_congr : ∀ code values values', (∀ x, .reads x ∈ code → values x = values' x) →
    expression code values = expression code values'

theorem Code.Meaning.expression_plain {V : Type} (m : Code.Meaning V) (text : String) (values values' : String → V) :
    m.expression (Code.plain text) values = m.expression (Code.plain text) values' :=
  m.expression_congr _ _ _ fun x hx => by simp [Code.plain] at hx

variable {V : Type} [Semiring V]

def Store.value (σ : Store V) (x : String) : V := (σ x).headD 0

theorem Store.value_update (σ : Store V) (x : String) (v : V) :
    Store.value (Function.update σ x [v]) = Function.update σ.value x v := by
  funext y
  by_cases h : y = x
  · simp [Store.value, h]
  · simp [Store.value, Function.update_of_ne h]

theorem sum_range_getD_mul (xs ys : List V) (h : xs.length = ys.length) :
    ((List.range xs.length).map fun i => xs.getD i 0 * ys.getD i 0).sum = (List.zipWith (· * ·) xs ys).sum := by
  congr 1
  apply List.ext_getElem
  · simp [h]
  · intro i hi hi'
    have hx : i < xs.length := by simpa using hi
    simp [hx, h ▸ hx]

namespace Code.Meaning

variable (m : Code.Meaning V) (σ : Store V)

def step : Statement → Store V
  | .define _ name value => Function.update σ name [m.expression value σ.value]
  | .call output function arguments =>
    Function.update σ output.variableName [m.function function (arguments.map fun a => m.expression a σ.value)]
  | .array _ name elements => Function.update σ name (elements.map fun a => m.expression a σ.value)
  | .products _ name first second count =>
    Function.update σ name [((List.range count).map fun i => (σ first).getD i 0 * (σ second).getD i 0).sum]

def run (program : List Statement) : Store V := program.foldl m.step σ

@[simp] theorem run_nil : m.run σ [] = σ := rfl

@[simp] theorem run_cons (statement : Statement) (program : List Statement) :
    m.run σ (statement :: program) = m.run (m.step σ statement) program := rfl

@[simp] theorem run_append (program program' : List Statement) :
    m.run σ (program ++ program') = m.run (m.run σ program) program' := List.foldl_append

theorem run_sum (type : DataType) (name : String) {first second : String} (hnames : first ≠ second)
    {elements numbers : List Code} (hlength : elements.length = numbers.length) {values : String → V}
    (hnumbers : ∀ a ∈ numbers, ∀ values', m.expression a values' = m.expression a values) :
    (m.run σ [.array type first elements, .array .float second numbers,
      .products type name first second elements.length]).value name =
      (List.zipWith (· * ·) (elements.map fun a => m.expression a σ.value)
        (numbers.map fun a => m.expression a values)).sum := by
  rw [← sum_range_getD_mul _ _ (by rw [List.length_map, List.length_map, hlength]), List.length_map]
  simp only [run_cons, run_nil, step, Store.value, Function.update_self, List.headD_cons, Function.update_of_ne hnames]
  rw [List.map_congr_left fun a ha => hnumbers a ha _]

end Code.Meaning
end ShadeGraph
