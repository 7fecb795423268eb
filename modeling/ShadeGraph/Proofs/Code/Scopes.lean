import Mathlib.Data.List.Perm.Basic
import ShadeGraph.Proofs.Code.Layered
import ShadeGraph.Proofs.Code.WellScoped

/-!
# The scopes of code

A reader that collects the variables that are declared in each scope: outside of all functions, in a function, where
the parameters and the variables directly in the body are one scope, and in each block inside of a body. It reads the
braces, the names of defined functions and the declarations, and loses none of the latter.
-/

namespace ShadeGraph

def Token.plainText : Token → String
  | text s => s
  | _ => ""

/-- What has been read of code. -/
structure ScopeReader where
  /-- The scopes that have ended. -/
  ended : List (List Declaration) := []
  /-- The scopes that are open, the innermost one first. -/
  stack : List (List Declaration) := [[]]
  /-- Whether this is between the name of a function and its body, which are one scope. -/
  header : Bool := false
  /-- The text of the last token. -/
  before : String := ""

namespace ScopeReader

def enter (r : ScopeReader) (header : Bool) : ScopeReader := { r with stack := [] :: r.stack, header }

def leave (r : ScopeReader) : ScopeReader :=
  match r.stack with
  | [] => r
  | top :: rest => { r with ended := r.ended ++ [top], stack := rest }

def declare (r : ScopeReader) (d : Declaration) : ScopeReader :=
  match r.stack with
  | [] => { r with stack := [[d]] }
  | top :: rest => { r with stack := (top ++ [d]) :: rest }

/-- What a token does, in front of some code. -/
def step (r : ScopeReader) (t : Token) (rest : Code) : ScopeReader :=
  match t with
  | .declares x => r.declare ⟨x, declaredLength r.before ((rest.head?.map Token.plainText).getD "")⟩
  | .defines _ => r.enter true
  | .opens => if r.header then { r with header := false } else r.enter false
  | .closes => r.leave
  | _ => r

def read (r : ScopeReader) : Code → ScopeReader
  | [] => r
  | t :: rest => read { r.step t rest with before := t.plainText } rest

def scopes (r : ScopeReader) : List (List Declaration) := r.ended ++ r.stack

end ScopeReader

/-- What code declares in each of its scopes. The outermost scope is the last one. -/
def Code.scopes (code : Code) : List (List Declaration) := (ScopeReader.read {} code).scopes

namespace ScopeReader

open Code

variable {ok : List Declaration → Prop} {code : Code} {new : List Declaration} {ended stack : List (List Declaration)}
  {top : List Declaration}

/-! ## No declaration is lost -/

def names (r : ScopeReader) : List String := r.scopes.flatten.map Declaration.name

theorem names_declare (r : ScopeReader) (d : Declaration) : (r.declare d).names.Perm (r.names ++ [d.name]) := by
  obtain ⟨ended, stack, header, before⟩ := r
  cases stack with
  | nil => simp [names, scopes, declare]
  | cons top stack =>
    simp only [names, scopes, declare, List.flatten_append, List.flatten_cons, List.map_append, List.map_cons,
      List.append_assoc, List.singleton_append]
    exact (List.perm_append_singleton d.name _).symm.append_left _ |>.append_left _

theorem names_enter (r : ScopeReader) (header : Bool) : (r.enter header).names = r.names := by
  simp [names, scopes, enter]

theorem names_leave (r : ScopeReader) : r.leave.names = r.names := by
  obtain ⟨ended, stack, header, before⟩ := r
  cases stack <;> simp [names, scopes, leave]

theorem names_step (r : ScopeReader) (t : Token) (rest : Code) :
    (r.step t rest).names.Perm (r.names ++ t.declared?.toList) := by
  cases t with
  | declares x => exact r.names_declare _
  | opens =>
    cases hheader : r.header with
    | true => simp [step, hheader, names, scopes, Token.declared?]
    | false => simp [step, hheader, names_enter, Token.declared?]
  | closes => simp [step, names_leave, Token.declared?]
  | defines f => simp [step, names_enter, Token.declared?]
  | _ => simp [step, Token.declared?]

theorem names_read (code : Code) : ∀ r : ScopeReader, (r.read code).names.Perm (r.names ++ code.declared) := by
  induction code with
  | nil => intro r; simp [read, declared]
  | cons t code ih =>
    intro r
    have hdeclared : declared (t :: code) = t.declared?.toList ++ declared code := by
      simp [declared, List.filterMap_cons]
      cases t.declared? <;> rfl
    rw [read, hdeclared, ← List.append_assoc]
    exact (ih _).trans ((r.names_step t code).append_right _)

end ScopeReader

/-- The scopes of code hold all variables that it declares. -/
theorem Code.names_scopes (code : Code) : (code.scopes.flatten.map Declaration.name).Perm code.declared :=
  ScopeReader.names_read code {}

namespace ScopeReader

open Code

/-! ## Reading layers -/

theorem read_inert {t : Token} (ht : t.IsInert) (r : ScopeReader) (rest : Code) :
    r.read (t :: rest) = { r with before := t.plainText }.read rest := by
  rw [read]
  cases t <;> first | rfl | exact ht.elim

theorem read_listed (h : Layered (fun _ => False) code new) : ∀ ended top stack header before, ∃ before', ∀ rest,
    read ⟨ended, top :: stack, header, before⟩ (code ++ rest) =
      read ⟨ended, (top ++ new) :: stack, header, before'⟩ rest := by
  induction h with
  | nil => exact fun ended top stack header before => ⟨before, fun rest => by simp⟩
  | @inert t code new ht _ ih =>
    intro ended top stack header before
    obtain ⟨before', hread⟩ := ih ended top stack header t.plainText
    exact ⟨before', fun rest => by rw [List.cons_append, read_inert ht, hread]⟩
  | @declares front x behind code new _ ih =>
    intro ended top stack header before
    obtain ⟨before', hread⟩ := ih ended (top ++ [⟨x, declaredLength front behind⟩]) stack header behind
    refine ⟨before', fun rest => ?_⟩
    rw [List.append_assoc, List.singleton_append] at hread
    exact hread rest
  | block _ hok => exact hok.elim

theorem read_layered (h : Layered ok code new) : ∀ ended top stack before, ∃ inner before',
    (∀ scope ∈ inner, ok scope) ∧ ∀ rest, read ⟨ended, top :: stack, false, before⟩ (code ++ rest) =
      read ⟨ended ++ inner, (top ++ new) :: stack, false, before'⟩ rest := by
  induction h with
  | nil => exact fun ended top stack before => ⟨[], before, by simp, fun rest => by simp⟩
  | @inert t code new ht _ ih =>
    intro ended top stack before
    obtain ⟨inner, before', hinner, hread⟩ := ih ended top stack t.plainText
    exact ⟨inner, before', hinner, fun rest => by rw [List.cons_append, read_inert ht, hread]⟩
  | @declares front x behind code new _ ih =>
    intro ended top stack before
    obtain ⟨inner, before', hinner, hread⟩ := ih ended (top ++ [⟨x, declaredLength front behind⟩]) stack behind
    rw [List.append_assoc, List.singleton_append] at hread
    exact ⟨inner, before', hinner, hread⟩
  | @block body code block new _ hok _ ihbody ih =>
    intro ended top stack before
    obtain ⟨inner, before₁, hinner, hbody⟩ := ihbody ended [] (top :: stack) ""
    obtain ⟨inner', before₂, hinner', hread⟩ := ih (ended ++ inner ++ [block]) top stack ""
    refine ⟨inner ++ block :: inner', before₂, ?_, fun rest => ?_⟩
    · intro scope hscope
      rcases List.mem_append.mp hscope with hscope | hscope
      · exact hinner scope hscope
      rcases List.mem_cons.mp hscope with rfl | hscope
      · exact hok
      · exact hinner' scope hscope
    · change read ⟨ended, [] :: top :: stack, false, ""⟩ ((body ++ .closes :: code) ++ rest) = _
      rw [List.append_assoc, hbody]
      change read ⟨ended ++ inner ++ [block], top :: stack, false, ""⟩ (code ++ rest) = _
      rw [hread]
      simp

end ScopeReader

/-! ## Functions -/

namespace Code

variable {ok : List Declaration → Prop} {code code₁ code₂ : Code} {given new new₁ new₂ : List Declaration}

/-- A block of code with something around it that declares nothing. -/
structure HasBody (ok : List Declaration → Prop) (code : Code) (new : List Declaration) : Prop where
  split : ∃ front body back, code = front ++ .opens :: (body ++ .closes :: back) ∧ Every Token.IsInert front ∧
    Every Token.IsInert back ∧ Layered ok body new

/-- The definition of a function with some parameters and some variables directly in its body. -/
structure HasFunction (ok : List Declaration → Prop) (code : Code) (given new : List Declaration) : Prop where
  split : ∃ lead name parameters body, code = lead ++ .defines name :: (parameters ++ body) ∧
    Every Token.IsInert lead ∧ Layered (fun _ => False) parameters given ∧ HasBody ok body new

/-- Code outside of functions that declares some variables, and functions in between of which all scopes have a
property. -/
inductive Program (ok : List Declaration → Prop) : Code → List Declaration → Prop
  | nil : Program ok [] []
  | outside {code₁ code₂ : Code} {new₁ new₂ : List Declaration} (h₁ : Layered (fun _ => False) code₁ new₁)
      (h₂ : Program ok code₂ new₂) : Program ok (code₁ ++ code₂) (new₁ ++ new₂)
  | function {code₁ code₂ : Code} {given inner new : List Declaration} (h₁ : HasFunction ok code₁ given inner)
      (hok : ok (given ++ inner)) (h₂ : Program ok code₂ new) : Program ok (code₁ ++ code₂) new

theorem Program.append (h₁ : Program ok code₁ new₁) (h₂ : Program ok code₂ new₂) :
    Program ok (code₁ ++ code₂) (new₁ ++ new₂) := by
  induction h₁ with
  | nil => exact h₂
  | outside h _ ih =>
    rw [List.append_assoc, List.append_assoc]
    exact .outside h ih
  | function h hok _ ih =>
    rw [List.append_assoc]
    exact .function h hok ih

end Code

namespace ScopeReader

open Code

variable {ok : List Declaration → Prop} {code : Code} {given new : List Declaration}

theorem read_function (h : HasFunction ok code given new) : ∀ ended top before, ∃ inner before',
    (∀ scope ∈ inner, ok scope) ∧ ∀ rest, read ⟨ended, [top], false, before⟩ (code ++ rest) =
      read ⟨ended ++ inner ++ [given ++ new], [top], false, before'⟩ rest := by
  intro ended top before
  obtain ⟨lead, name, parameters, _, rfl, hlead, hparameters, front, body, back, rfl, hfront, hback, hbody⟩ := h
  obtain ⟨before₁, hread₁⟩ := read_listed (.of_inert hlead) ended top [] false before
  obtain ⟨before₂, hread₂⟩ := read_listed (hparameters.andInert hfront) ended [] [top] true ""
  obtain ⟨inner, before₃, hinner, hread₃⟩ := read_layered hbody ended given [top] ""
  obtain ⟨before₄, hread₄⟩ := read_listed (.of_inert hback) (ended ++ inner ++ [given ++ new]) top [] false ""
  refine ⟨inner, before₄, hinner, fun rest => ?_⟩
  have hcode : lead ++ .defines name :: (parameters ++ (front ++ .opens :: (body ++ .closes :: back))) ++ rest =
      lead ++ .defines name :: ((parameters ++ front) ++ .opens :: (body ++ .closes :: (back ++ rest))) := by simp
  rw [hcode, hread₁, List.append_nil]
  change read ⟨ended, [[], top], true, ""⟩ ((parameters ++ front) ++ .opens :: (body ++ .closes :: (back ++ rest))) = _
  rw [hread₂, List.nil_append]
  change read ⟨ended, [given, top], false, ""⟩ (body ++ .closes :: (back ++ rest)) = _
  rw [hread₃]
  change read ⟨ended ++ inner ++ [given ++ new], [top], false, ""⟩ (back ++ rest) = _
  rw [hread₄, List.append_nil]

/-- The scopes of a program are those of its functions and what is declared outside of them. -/
theorem read_program (h : Program ok code new) : ∀ ended top before, ∃ inner before', (∀ scope ∈ inner, ok scope) ∧
    ∀ rest, read ⟨ended, [top], false, before⟩ (code ++ rest) =
      read ⟨ended ++ inner, [top ++ new], false, before'⟩ rest := by
  induction h with
  | nil => exact fun ended top before => ⟨[], before, by simp, fun rest => by simp⟩
  | @outside code₁ code₂ new₁ new₂ h₁ _ ih =>
    intro ended top before
    obtain ⟨before₁, hread₁⟩ := read_listed h₁ ended top [] false before
    obtain ⟨inner, before₂, hinner, hread₂⟩ := ih ended (top ++ new₁) before₁
    refine ⟨inner, before₂, hinner, fun rest => ?_⟩
    rw [List.append_assoc, hread₁, hread₂, List.append_assoc]
  | @function code₁ code₂ given inside new h₁ hok _ ih =>
    intro ended top before
    obtain ⟨inner, before₁, hinner, hread₁⟩ := read_function h₁ ended top before
    obtain ⟨inner', before₂, hinner', hread₂⟩ := ih (ended ++ inner ++ [given ++ inside]) top before₁
    refine ⟨inner ++ (given ++ inside) :: inner', before₂, ?_, fun rest => ?_⟩
    · intro scope hscope
      rcases List.mem_append.mp hscope with hscope | hscope
      · exact hinner scope hscope
      rcases List.mem_cons.mp hscope with rfl | hscope
      · exact hok
      · exact hinner' scope hscope
    · rw [List.append_assoc, hread₁, hread₂]
      simp

end ScopeReader

namespace Code

variable {ok : List Declaration → Prop} {code code₁ code₂ : Code} {given new new₂ : List Declaration}

theorem Program.scopes (h : Program ok code new) :
    ∃ inner, code.scopes = inner ++ [new] ∧ ∀ scope ∈ inner, ok scope := by
  obtain ⟨inner, before, hinner, hread⟩ := ScopeReader.read_program h [] [] ""
  refine ⟨inner, ?_, hinner⟩
  have hall := hread []
  rw [List.append_nil] at hall
  change ScopeReader.scopes (ScopeReader.read ⟨[], [[]], false, ""⟩ code) = _
  rw [hall]
  rfl

theorem HasFunction.mem_scopes (h₁ : Program ok code₁ new) (h₂ : HasFunction ok code₂ given new₂) :
    given ++ new₂ ∈ (code₁ ++ code₂).scopes := by
  obtain ⟨inner, before, -, hread⟩ := ScopeReader.read_program h₁ [] [] ""
  obtain ⟨inner', before', -, hread'⟩ := ScopeReader.read_function h₂ ([] ++ inner) ([] ++ new) before
  have hall := (hread code₂).trans ((congrArg _ (List.append_nil code₂).symm).trans (hread' []))
  change _ ∈ ScopeReader.scopes (ScopeReader.read ⟨[], [[]], false, ""⟩ (code₁ ++ code₂))
  rw [hall]
  simp [ScopeReader.scopes, ScopeReader.read]

end Code
end ShadeGraph
