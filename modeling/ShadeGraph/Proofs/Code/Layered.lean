import ShadeGraph.Proofs.Number.Text
import ShadeGraph.Proofs.Shader.Expression

/-!
# Code in layers

What code declares directly, apart from what stands in blocks inside of it, with a property of what each of these
blocks declares directly. The property is left open: if it always holds, code in layers is code with balanced braces,
and if it never holds, the code has no blocks.

A variable is declared with the length that its declaration shows in brackets: between the type and the name (`T[n] x`)
or behind the name (`T x[n]`).
-/

namespace ShadeGraph

/-! ## Lengths -/

/-- The number in a text of the form `[n]`. -/
def readLength? (cs : List Char) : Option Nat :=
  match cs with
  | '[' :: rest => if rest.getLast? = some ']' then Number.readDigits? rest.dropLast else none
  | _ => none

/-- The length that the texts around the name of a variable show. -/
def declaredLength (before behind : String) : Option Nat :=
  (readLength? (before.toList.dropLast.dropWhile (· != '['))).or (readLength? behind.toList)

theorem readLength?_bracketed (n : Nat) : readLength? (bracketed n).toList = some n := by
  have hchars : (bracketed n).toList = '[' :: (Nat.toDigits 10 n ++ [']']) := by simp [bracketed]
  simp [hchars, readLength?, Number.readDigits?_toDigits]

theorem declaredLength_plain {typeName behind : String} (htype : '[' ∉ typeName.toList) :
    declaredLength (typeName ++ " ") behind = readLength? behind.toList := by
  have hdrop : typeName.toList.dropWhile (· != '[') = [] :=
    List.dropWhile_eq_nil_iff.mpr fun c hc => by simpa using ne_of_mem_of_not_mem hc htype
  simp [declaredLength, hdrop, readLength?]

theorem declaredLength_inside {typeName : String} (htype : '[' ∉ typeName.toList) (n : Nat) (behind : String) :
    declaredLength (typeName ++ bracketed n ++ " ") behind = some n := by
  have hchars : (bracketed n).toList = '[' :: (Nat.toDigits 10 n ++ [']']) := by simp [bracketed]
  have hdrop : (typeName.toList ++ (bracketed n).toList).dropWhile (· != '[') = (bracketed n).toList := by
    rw [List.dropWhile_append_of_pos fun c hc => by simpa using ne_of_mem_of_not_mem hc htype, hchars]
    rfl
  simp [declaredLength, hdrop, readLength?_bracketed]

theorem Dialect.mem_of_form {d : Dialect} {type : DataType} {form : TypeForm} (h : d.form type = .ok form) :
    (type, form) ∈ d.forms := by
  have hlookup : d.forms.lookup type = some form := by
    unfold Dialect.form Dialect.form? at h
    split at h
    · rwa [← Except.ok.inj h]
    · cases h
  obtain ⟨front, back, heq, -⟩ := List.lookup_eq_some_iff.mp hlookup
  simp [heq]

theorem Language.bracket_notMem_typeName {l : Language} {type : DataType} {typeName : String}
    (h : l.dialect.typeName type = .ok typeName) : '[' ∉ typeName.toList := by
  have hforms : ∀ form ∈ l.dialect.forms, '[' ∉ form.2.name.toList := by cases l <;> decide
  obtain ⟨form, hform, rfl⟩ := except_map_eq_ok.mp h
  exact hforms (type, form) (Dialect.mem_of_form hform)

/-! ## Layers -/

/-- A variable that is declared, and the length of an array. -/
structure Declaration where
  name : String
  length : Option Nat := none
  deriving DecidableEq, Inhabited

/-- A token that declares nothing and is neither a brace nor the name of a defined function. -/
def Token.IsInert : Token → Prop
  | .declares _ | .opens | .closes | .defines _ => False
  | _ => True

instance : Token.Textual Token.IsInert := ⟨fun _ => trivial⟩

namespace Code

variable {ok : List Declaration → Prop} {code code₁ code₂ : Code} {new new₁ new₂ : List Declaration}

/-- Code without definitions of functions that declares some variables directly. What each block inside of it declares
directly has a property. -/
inductive Layered (ok : List Declaration → Prop) : Code → List Declaration → Prop
  | nil : Layered ok [] []
  | inert {t : Token} {code : Code} {new : List Declaration} (ht : t.IsInert) (h : Layered ok code new) :
      Layered ok (t :: code) new
  | declares (before x behind : String) {code : Code} {new : List Declaration} (h : Layered ok code new) :
      Layered ok (.text before :: .declares x :: .text behind :: code) (⟨x, declaredLength before behind⟩ :: new)
  | block {body code : Code} {inner new : List Declaration} (hbody : Layered ok body inner) (hok : ok inner)
      (h : Layered ok code new) : Layered ok (.opens :: (body ++ .closes :: code)) new

namespace Layered

theorem append (h₁ : Layered ok code₁ new₁) (h₂ : Layered ok code₂ new₂) :
    Layered ok (code₁ ++ code₂) (new₁ ++ new₂) := by
  induction h₁ with
  | nil => exact h₂
  | inert ht _ ih => exact ih.inert ht
  | declares before x behind _ ih => exact ih.declares before x behind
  | block hbody hok _ _ ih =>
    rw [List.cons_append, List.append_assoc, List.cons_append]
    exact .block hbody hok ih

theorem of_inert (h : Every Token.IsInert code) : Layered ok code [] := by
  induction code with
  | nil => exact .nil
  | cons t code ih =>
    have hcons := List.forall_mem_cons.mp h
    exact (ih hcons.2).inert hcons.1

theorem mono {ok' : List Declaration → Prop} (h : Layered ok code new) (hok : ∀ inner, ok inner → ok' inner) :
    Layered ok' code new := by
  induction h with
  | nil => exact .nil
  | inert ht _ ih => exact ih.inert ht
  | declares before x behind _ ih => exact ih.declares before x behind
  | block _ hinner _ ihbody ih => exact .block ihbody (hok _ hinner) ih

theorem declared_eq (h : Layered (fun _ => False) code new) : code.declared = new.map Declaration.name := by
  induction h with
  | nil => rfl
  | @inert t code new ht _ ih =>
    rw [← ih]
    cases t with
    | declares x => exact ht.elim
    | _ => rfl
  | declares before x behind _ ih => exact congrArg (x :: ·) ih
  | block _ hok => exact hok.elim

theorem text (s : String) (h : Layered ok code new) : Layered ok (.text s :: code) new := h.inert trivial

theorem andInert (h : Layered ok code₁ new) (h₂ : Every Token.IsInert code₂) : Layered ok (code₁ ++ code₂) new := by
  have happend := h.append (of_inert h₂ : Layered ok code₂ [])
  rwa [List.append_nil] at happend

theorem braced (before behind : String) (h : Layered ok code new) (hok : ok new) :
    Layered ok (braced before behind code) [] := by
  have hbody : Layered ok (.text "\n" :: (code ++ [.text behind])) new := (h.andInert (every_plain behind)).text "\n"
  have hblock := (hbody.block hok (of_inert (every_plain "\n"))).text before
  simpa [Code.braced, plain] using hblock

end Layered

/-! ## Declarations -/

/-- Code that declares a variable with some length, once it is followed by a text that gives no length. -/
def Announces (part : Code) (d : Declaration) : Prop :=
  ∀ ok behind code new, readLength? behind.toList = none → Layered ok code new →
    Layered ok (part ++ .text behind :: code) (d :: new)

namespace Announces

variable {part value : Code} {d : Declaration}

theorem assign (h : Announces part d) (hvalue : Every Token.IsInert value) : Announces (part.assign value) d := by
  intro ok behind code new _ hcode
  rw [Code.assign, List.append_assoc]
  exact h ok _ _ _ rfl ((Layered.of_inert hvalue).append (hcode.text behind))

theorem qualified (h : Announces part d) (qualifier : String) : Announces (Language.qualified qualifier part) d :=
  fun ok behind code new hbehind hcode => (h ok behind code new hbehind hcode).text _

theorem layered (h : Announces part d) (hvalue : Every Token.IsInert value) : Layered ok (part.assign value) [d] :=
  h ok " = " value [] rfl (.of_inert hvalue)

theorem join {parts : List Code} {ds : List Declaration} (h : List.Forall₂ Announces parts ds)
    {separator behind : String} (hseparator : readLength? separator.toList = none)
    (hbehind : readLength? behind.toList = none) : Layered ok (Code.join separator parts ++ [.text behind]) ds := by
  induction h with
  | nil => exact Layered.nil.text behind
  | @cons part d parts ds hpart hparts ih =>
    cases hparts with
    | nil => exact hpart ok behind [] [] hbehind .nil
    | cons =>
      rw [Code.join, List.append_assoc]
      · exact hpart ok separator _ _ hseparator ih
      · simp

end Announces
end Code

namespace Language

open Code

variable {l : Language} {type : DataType} {name : String} {length : Option Nat} {ok : List Declaration → Prop}
  {code : Code}

theorem announces_declare (h : l.declare type name length = .ok code) : Announces code ⟨name, length⟩ := by
  obtain ⟨typeName, htype, h⟩ := except_bind_eq_ok.mp h
  obtain rfl := Except.ok.inj h
  have hbracket := bracket_notMem_typeName htype
  intro ok behind code new hbehind hcode
  cases length with
  | none =>
    have hlayered := hcode.declares (typeName ++ " ") name behind
    rwa [declaredLength_plain hbracket, hbehind] at hlayered
  | some n =>
    have harray := (hcode.text behind).declares (typeName ++ " ") name (bracketed n)
    rw [declaredLength_plain hbracket, readLength?_bracketed] at harray
    cases l with
    | mdl =>
      have hlayered := hcode.declares (typeName ++ bracketed n ++ " ") name behind
      rwa [declaredLength_inside hbracket] at hlayered
    | osl => exact harray
    | glsl => exact harray

theorem announces_parameter {value : Option Value} {uniform : Bool} {f : FloatFormat}
    (h : l.parameter type name value uniform f = .ok code) : Announces code ⟨name, value.bind Value.arrayLength?⟩ := by
  obtain ⟨default, hdefault, h⟩ := except_bind_eq_ok.mp h
  obtain ⟨declaration, hdeclaration, h⟩ := except_bind_eq_ok.mp h
  obtain rfl := Except.ok.inj h
  refine (announces_declare hdeclaration).assign ?_
  unfold parameterDefault at hdefault
  split at hdefault
  · exact every_of_map_plain hdefault
  · exact every_of_map_plain hdefault

end Language
end ShadeGraph
