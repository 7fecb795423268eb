import ShadeGraph.Proofs.Code.WellScoped
import ShadeGraph.Proofs.Outcome
import ShadeGraph.Shader.Declaration

/-!
# What expressions read

The code of an input reads the variable of the output it is connected to, or the uniform that is published for it, and
no other variable; so does the code of everything that is put together from inputs. Declarations read nothing. This is
stated for any property of tokens that text and written names have, so that it also says which functions are called.
-/

namespace ShadeGraph

open Code

/-- A property of tokens that plain text has. -/
class Token.Textual (P : Token → Prop) : Prop where
  text : ∀ s, P (.text s)

/-- A property of tokens that plain text and the names of variables that are written have. -/
class Token.Neutral (P : Token → Prop) : Prop where
  text : ∀ s, P (.text s)
  writes : ∀ x, P (.writes x)
  declares : ∀ x, P (.declares x)

instance (P : Token → Prop) [Token.Neutral P] : Token.Textual P := ⟨Token.Neutral.text⟩

instance (V : String → Prop) : Token.Neutral (Token.IsFlat V) := ⟨fun _ => trivial, fun _ => trivial, fun _ => trivial⟩

variable {V : String → Prop} {P : Token → Prop} {code code₁ code₂ : Code}

/-! ## Putting code together -/

namespace Code

theorem every_nil : Every P [] := by simp [Every]

theorem Every.append (h₁ : Every P code₁) (h₂ : Every P code₂) : Every P (code₁ ++ code₂) := by
  intro t ht
  rcases List.mem_append.mp ht with ht | ht
  · exact h₁ t ht
  · exact h₂ t ht

theorem Every.cons {t : Token} (ht : P t) (h : Every P code) : Every P (t :: code) :=
  List.forall_mem_cons.mpr ⟨ht, h⟩

theorem every_declares [Token.Neutral P] (x : String) : Every P [.declares x] := every_nil.cons (Token.Neutral.declares x)

section
variable [Token.Textual P]

theorem Every.text (s : String) (h : Every P code) : Every P (.text s :: code) := h.cons (Token.Textual.text s)

theorem every_plain (s : String) : Every P (plain s) := every_nil.text s

theorem every_of_map_plain {text : Except Error String} (h : text.map plain = .ok code) : Every P code := by
  obtain ⟨s, -, rfl⟩ := except_map_eq_ok.mp h
  exact every_plain s

theorem every_join (separator : String) (parts : List Code) (h : ∀ part ∈ parts, Every P part) :
    Every P (join separator parts) := by
  induction parts with
  | nil => exact every_nil
  | cons part rest ih =>
    cases rest with
    | nil => exact h part List.mem_cons_self
    | cons next rest =>
      exact (h part List.mem_cons_self).append ((ih fun p hp => h p (List.mem_cons_of_mem _ hp)).text separator)

theorem every_apply {function : Token} {arguments : List Code} (hfunction : P function)
    (h : ∀ a ∈ arguments, Every P a) : Every P (apply function arguments) :=
  (((every_join ", " arguments h).append (every_nil.text ")")).text "(").cons hfunction

theorem every_assign (h₁ : Every P code₁) (h₂ : Every P code₂) : Every P (code₁.assign code₂) := h₁.append (h₂.text " = ")

end

end Code

/-! ## Values of the target language -/

section
variable [Token.Textual P]

namespace TypeForm

variable {t : TypeForm} {parts : List Code}

theorem every_group (braces : Bool) (h : ∀ p ∈ parts, Every P p) : Every P (t.group braces parts) := by
  unfold group
  split
  · exact ((every_join ", " parts h).append (every_nil.text "\x7d")).text "\x7b"
  · exact every_apply (Token.Textual.text _) h

omit [Token.Textual P] in
theorem every_padRows {zero one : Code} (hzero : Every P zero) (hone : Every P one) (h : ∀ p ∈ parts, Every P p) :
    ∀ p ∈ padRows zero one parts, Every P p := by
  unfold padRows
  split
  · intro p hp
    simp only [List.mem_cons, List.not_mem_nil, or_false] at hp h
    grind
  · exact h

theorem every_padded {zero one : Code} (hzero : Every P zero) (hone : Every P one) (h : ∀ p ∈ parts, Every P p)
    (hcode : t.padded zero one parts = .ok code) : Every P code := by
  unfold padded at hcode
  split at hcode
  · simp at hcode
  · obtain rfl := Except.ok.inj hcode
    exact every_apply (Token.Textual.text _) (every_padRows hzero hone fun p hp => h p (List.mem_of_mem_take hp))

theorem every_compose {uniform : Bool} (h : ∀ p ∈ parts, Every P p) (hcode : t.compose parts uniform = .ok code) :
    Every P code := by
  unfold compose at hcode
  split at hcode
  · simp at hcode
  · rename_i first rest
    split at hcode
    · exact Except.ok.inj hcode ▸ h first List.mem_cons_self
    · exact Except.ok.inj hcode ▸ h first List.mem_cons_self
    · exact Except.ok.inj hcode ▸ every_group _ h
    · exact Except.ok.inj hcode ▸ every_group _ h
    · split at hcode
      · rename_i r g b a more heq
        obtain rfl := Except.ok.inj hcode
        have hparts : ∀ p ∈ [r, g, b, a], Every P p := by
          intro p hp
          apply h
          rw [heq]
          simp only [List.mem_cons, List.not_mem_nil, or_false] at hp ⊢
          grind
        refine every_group _ ?_
        intro p hp
        simp only [List.mem_cons, List.not_mem_nil, or_false] at hp
        rcases hp with rfl | rfl
        · exact every_apply (Token.Textual.text _) fun p hp => hparts p (by
            simp only [List.mem_cons, List.not_mem_nil, or_false] at hp ⊢
            grind)
        · exact hparts p (by simp)
      · simp at hcode
    · exact every_padded (every_plain _) (every_plain _) h hcode
    · obtain rfl := Except.ok.inj hcode
      exact ((every_join ", " _ h).append (every_nil.text _)).text _

end TypeForm

namespace Dialect

variable {d : Dialect} {source target : DataType} {channels : String} {value : Code}

theorem every_fill (h : Every P value) (pieces : List (List Char)) : Every P (fill value pieces) := by
  fun_induction fill value pieces with
  | case1 => exact every_nil
  | case2 piece => exact every_plain _
  | case3 piece rest _ ih => exact (h.append ih).text _

theorem every_access (h : Every P value) (member : String) : Every P (access member value) := by
  unfold access
  split
  · exact h.append (every_nil.text member)
  · exact every_fill h _

theorem every_channel {t : TypeForm} {c : Char} (h : Every P value) (hcode : channel t source value c = .ok code) :
    Every P code := by
  unfold channel at hcode
  split at hcode
  · simp at hcode
  · split at hcode
    · exact Except.ok.inj hcode ▸ h
    · split at hcode
      · simp at hcode
      · exact Except.ok.inj hcode ▸ every_access h _

theorem every_swizzle (h : Every P value) (hcode : d.swizzle value source channels target = .ok code) : Every P code := by
  obtain ⟨t, -, hcode⟩ := except_bind_eq_ok.mp hcode
  obtain ⟨parts, hparts, hcode⟩ := except_bind_eq_ok.mp hcode
  have hflat : ∀ p ∈ parts, Every P p := by
    intro p hp
    obtain ⟨c, -, hc⟩ := except_mapM_mem hparts p hp
    exact every_channel h hc
  by_cases hlength : parts.length ≠ target.size
  · rw [if_pos hlength] at hcode
    obtain ⟨-, hcode, -⟩ := except_bind_eq_ok.mp hcode
    exact absurd hcode except_throw_ne_ok
  · rw [if_neg hlength] at hcode
    split at hcode
    · exact Except.ok.inj hcode ▸ hflat _ List.mem_cons_self
    · obtain ⟨t, -, hcode⟩ := except_bind_eq_ok.mp hcode
      exact TypeForm.every_compose hflat hcode

end Dialect

end

/-! ## Declarations -/

namespace Language

variable [Token.Neutral P] {l : Language} {type : DataType} {name : String} {length : Option Nat}

theorem every_declare (h : l.declare type name length = .ok code) : Every P code := by
  obtain ⟨typeName, -, h⟩ := except_bind_eq_ok.mp h
  obtain rfl := Except.ok.inj h
  split
  · exact (every_declares name).text _
  · exact (every_declares name).text _
  · exact ((every_declares name).append (every_plain _)).text _

theorem every_parameter {value : Option Value} {uniform : Bool} {f : FloatFormat}
    (h : l.parameter type name value uniform f = .ok code) : Every P code := by
  obtain ⟨default, hdefault, h⟩ := except_bind_eq_ok.mp h
  obtain ⟨declaration, hdeclaration, h⟩ := except_bind_eq_ok.mp h
  obtain rfl := Except.ok.inj h
  refine every_assign (every_declare hdeclaration) ?_
  unfold parameterDefault at hdefault
  split at hdefault
  · exact every_of_map_plain hdefault
  · exact every_of_map_plain hdefault

theorem every_qualified (qualifier : String) (h : Every P code) : Every P (qualified qualifier code) := h.text _

end Language

/-! ## Inputs -/

/-- The variables that the code of an input reads are among the given ones: the one of the output it is connected to,
and the one that is published for it. -/
structure Readable (V : String → Prop) (g : Graph) (i : Input) : Prop where
  source : ∀ source output, i.source = some source → g.output? source = some output → V output.variableName
  published : i.variableName ≠ "" → V i.variableName

namespace Surroundings

variable [Token.Textual P] {e : Surroundings} {i : Input} {n : Node} {name : String}

theorem every_literal (h : e.literal i = .ok code) : Every P code := by
  unfold literal at h
  split at h
  · exact every_of_map_plain h
  · exact every_of_map_plain h

theorem every_unpublished (hsource : ∀ source output, i.source = some source → e.graph.output? source = some output →
    P (.reads output.variableName)) (h : e.unpublished i = .ok code) : Every P code := by
  unfold unpublished at h
  split at h
  · exact every_literal h
  · rename_i source heq
    split at h
    · simp at h
    · rename_i output houtput
      have hread : Every P [.reads output.variableName] := every_nil.cons (hsource source output heq houtput)
      split at h
      · exact Except.ok.inj h ▸ hread
      · exact Dialect.every_swizzle hread h

theorem every_value (hi : Readable (fun x => P (.reads x)) e.graph i) (h : e.value i = .ok code) : Every P code := by
  unfold value at h
  split at h
  · exact every_unpublished hi.source h
  · rename_i hname
    obtain rfl := Except.ok.inj h
    exact every_nil.cons (hi.published fun h => hname (by simp [h]))

theorem every_values {values : List Code} (hn : ∀ i ∈ n.inputs, Readable (fun x => P (.reads x)) e.graph i)
    (h : e.values n = .ok values) : ∀ v ∈ values, Every P v := by
  intro v hv
  obtain ⟨i, hi, hvalue⟩ := except_mapM_mem h v hv
  exact every_value (hn i hi) hvalue

theorem needInput_eq_ok_iff : n.needInput name = .ok i ↔ n.input? name = some i := by
  unfold Node.needInput
  cases n.input? name with
  | none => simp
  | some j => simp

theorem mem_of_needInput (h : n.needInput name = .ok i) : i ∈ n.inputs ∧ i.name = name := by
  have hfind := needInput_eq_ok_iff.mp h
  exact ⟨List.mem_of_find?_eq_some hfind, by simpa using List.find?_some hfind⟩

theorem valueOf_eq_ok_iff : e.valueOf n name = .ok code ↔ ∃ i, n.input? name = some i ∧ e.value i = .ok code := by
  rw [valueOf, except_bind_eq_ok]
  simp only [needInput_eq_ok_iff]

theorem every_valueOf (hn : ∀ i ∈ n.inputs, i.name = name → Readable (fun x => P (.reads x)) e.graph i)
    (h : e.valueOf n name = .ok code) : Every P code := by
  obtain ⟨i, hi, h⟩ := except_bind_eq_ok.mp h
  obtain ⟨hmem, hname⟩ := mem_of_needInput hi
  exact every_value (hn i hmem hname) h

theorem every_fillPieces (hn : ∀ i ∈ n.inputs, Readable (fun x => P (.reads x)) e.graph i)
    (pieces : List Template.Piece) : ∀ code, e.fillPieces n pieces = .ok code → Every P code := by
  induction pieces with
  | nil => intro code h; exact Except.ok.inj h ▸ every_nil
  | cons piece rest ih =>
    intro code h
    cases piece with
    | plain text =>
      obtain ⟨more, hmore, h⟩ := except_bind_eq_ok.mp h
      exact Except.ok.inj h ▸ (ih more hmore).text _
    | name text =>
      obtain ⟨i, hi, h⟩ := except_bind_eq_ok.mp h
      obtain ⟨value, hvalue, h⟩ := except_bind_eq_ok.mp h
      obtain ⟨more, hmore, h⟩ := except_bind_eq_ok.mp h
      exact Except.ok.inj h ▸ (every_value (hn i (mem_of_needInput hi).1) hvalue).append (ih more hmore)

theorem every_fillTemplate {template : String} (hn : ∀ i ∈ n.inputs, Readable (fun x => P (.reads x)) e.graph i)
    (h : e.fillTemplate n template = .ok code) : Every P code := by
  obtain ⟨filled, hfilled, h⟩ := except_bind_eq_ok.mp h
  split at h
  · obtain ⟨-, h, -⟩ := except_bind_eq_ok.mp h
    exact absurd h except_throw_ne_ok
  · exact Except.ok.inj h ▸ every_fillPieces hn _ filled hfilled

end Surroundings
end ShadeGraph
