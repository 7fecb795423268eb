import ShadeGraph.Proofs.Dialect.Swizzle
import ShadeGraph.Proofs.Shader.Expression
import ShadeGraph.Proofs.Text.Replace

/-!
# Filling templates

A template is plain text with marked names in between: a mark opens at the first pair of braces and closes at the first
pair behind it, whatever stands in between, and the next mark is looked for behind that. Filling a template puts the
values of the named inputs in place of the marks. It goes well exactly if every opened mark is closed, names an input
and has a value; otherwise the leftmost mark for which this is not so decides about the error. The cut is one of the
template alone, so the text of a value is never searched for marks.
-/

namespace ShadeGraph

namespace Template

def opening : List Char := ['\x7b', '\x7b']

def closing : List Char := ['\x7d', '\x7d']

/-- A mark with the plain text in front of it. -/
structure Mark where
  before : List Char
  name : List Char

def Mark.input (m : Mark) : String := String.ofList (Text.trimChars m.name)

/-- A text starts with marks, each of them opened and closed as early as possible, and goes on with what is left. -/
inductive Marked : List Mark → List Char → List Char → Prop where
  | nil {rest : List Char} : Marked [] rest rest
  | cons {before after name behind rest cs : List Char} {marks : List Mark} : Text.FirstAt opening before after cs →
      Text.FirstAt closing name behind after → Marked marks rest behind → Marked (⟨before, name⟩ :: marks) rest cs

/-- The text of a template with values in place of the marks: `s₀ e₁ s₁ … eₖ sₖ`. -/
def filled (marks : List Mark) (values : List Code) (last : List Char) : String :=
  String.join (List.zipWith (fun m v => String.ofList m.before ++ v.render) marks values) ++ String.ofList last

theorem filled_cons (m : Mark) (marks : List Mark) (v : Code) (values : List Code) (last : List Char) :
    filled (m :: marks) (v :: values) last = String.ofList m.before ++ (v.render ++ filled marks values last) := by
  simp [filled, String.append_assoc]

theorem cut_of_length_le : ∀ (count count' : Nat) {cs : List Char}, cs.length ≤ count → cs.length ≤ count' →
    cut count cs = cut count' cs := by
  intro count
  induction count with
  | zero =>
    intro count' cs h _
    obtain rfl := List.eq_nil_of_length_eq_zero (Nat.le_zero.mp h)
    cases count' <;> rfl
  | succ count ih =>
    intro count' cs h h'
    cases count' with
    | zero =>
      obtain rfl := List.eq_nil_of_length_eq_zero (Nat.le_zero.mp h')
      rfl
    | succ count' =>
      rw [cut, cut]
      cases hopen : Text.cut? ['\x7b', '\x7b'] cs with
      | none => rfl
      | some parts =>
        obtain ⟨before, after⟩ := parts
        cases hclose : Text.cut? ['\x7d', '\x7d'] after with
        | none => simp only [hclose]
        | some parts =>
          obtain ⟨name, behind⟩ := parts
          have hafter := (Text.cut?_eq_some_iff.mp hopen).length_lt (by simp)
          have hbehind := (Text.cut?_eq_some_iff.mp hclose).length_lt (by simp)
          have hcut : cut count behind = cut count' behind := ih count' (by omega) (by omega)
          simp only [hclose, hcut]

end Template

open Template

namespace Surroundings

variable {e : Surroundings} {n : Node}

/-- The mark names an input that has the given value. -/
def Gives (e : Surroundings) (n : Node) (m : Mark) (value : Code) : Prop :=
  ∃ i, n.input? m.input = some i ∧ e.value i = .ok value

/-- What is wrong with the first mark of a text. -/
inductive Fault (e : Surroundings) (n : Node) : List Char → Error → Prop where
  | unterminated {before after cs : List Char} : Text.FirstAt opening before after cs → ¬ closing <:+: after →
      Fault e n cs (.unterminatedToken n.implementation.name)
  | unknown {before after name behind cs : List Char} : Text.FirstAt opening before after cs →
      Text.FirstAt closing name behind after → n.input? (Mark.input ⟨before, name⟩) = none →
      Fault e n cs (.pinNotFound n.name (Mark.input ⟨before, name⟩))
  | value {before after name behind cs : List Char} {i : Input} {error : Error} : Text.FirstAt opening before after cs →
      Text.FirstAt closing name behind after → n.input? (Mark.input ⟨before, name⟩) = some i →
      e.value i = .error error → Fault e n cs error

/-! ## One mark -/

theorem fillTemplate_of_no_mark {cs : List Char} (h : ¬ opening <:+: cs) :
    e.fillTemplate n (String.ofList cs) = .ok [.text (String.ofList cs)] := by
  have hopen : Text.cut? ['\x7b', '\x7b'] cs = none := Text.cut?_eq_none_iff.mpr h
  have hcut : Template.cut cs.length cs = ([.plain cs], false) := by
    cases cs with
    | nil => rfl
    | cons c cs => rw [List.length_cons, Template.cut, hopen]
  rw [fillTemplate, String.toList_ofList, hcut]
  rfl

theorem fillTemplate_unterminated {before after cs : List Char} (hopen : Text.FirstAt opening before after cs)
    (hclose : ¬ closing <:+: after) :
    e.fillTemplate n (String.ofList cs) = .error (.unterminatedToken n.implementation.name) := by
  have hopen' : Text.cut? ['\x7b', '\x7b'] cs = some (before, after) := Text.cut?_eq_some_iff.mpr hopen
  have hclose' : Text.cut? ['\x7d', '\x7d'] after = none := Text.cut?_eq_none_iff.mpr hclose
  have hcut : Template.cut cs.length cs = ([], true) := by
    cases cs with
    | nil => simp [Text.cut?] at hopen'
    | cons c cs =>
      rw [List.length_cons, Template.cut, hopen']
      simp only [hclose']
  rw [fillTemplate, String.toList_ofList, hcut]
  rfl

theorem fillTemplate_of_firstAt {before after name behind cs : List Char} (hopen : Text.FirstAt opening before after cs)
    (hclose : Text.FirstAt closing name behind after) :
    e.fillTemplate n (String.ofList cs) = (do
      let value ← e.valueOf n (Mark.input ⟨before, name⟩)
      let code ← e.fillTemplate n (String.ofList behind)
      pure (.text (String.ofList before) :: (value ++ code))) := by
  have hopen' : Text.cut? ['\x7b', '\x7b'] cs = some (before, after) := Text.cut?_eq_some_iff.mpr hopen
  have hclose' : Text.cut? ['\x7d', '\x7d'] after = some (name, behind) := Text.cut?_eq_some_iff.mpr hclose
  have hafter := hopen.length_lt (by simp [opening])
  have hbehind := hclose.length_lt (by simp [closing])
  have hcut : Template.cut cs.length cs = (.plain before :: .name name :: (Template.cut behind.length behind).1,
      (Template.cut behind.length behind).2) := by
    cases cs with
    | nil => simp at hafter
    | cons c cs =>
      rw [List.length_cons, Template.cut, hopen']
      simp only [hclose']
      rw [cut_of_length_le cs.length behind.length (by simp only [List.length_cons] at hafter; omega) (Nat.le_refl _)]
  rw [fillTemplate, fillTemplate, String.toList_ofList, String.toList_ofList, hcut]
  simp only [fillPieces, valueOf, Mark.input]
  cases n.needInput (String.ofList (Text.trimChars name)) with
  | error error => rfl
  | ok i =>
    cases hvalue : e.value i with
    | error error => simp only [bind, Except.bind, hvalue]
    | ok value =>
      cases e.fillPieces n (Template.cut behind.length behind).1 with
      | error error => simp only [bind, Except.bind, hvalue]
      | ok code =>
        simp only [bind, Except.bind, hvalue, pure, Except.pure]
        split
        · rfl
        · rfl

theorem Fault.fillTemplate {cs : List Char} {error : Error} (h : e.Fault n cs error) :
    e.fillTemplate n (String.ofList cs) = .error error := by
  cases h with
  | unterminated hopen hclose => exact fillTemplate_unterminated hopen hclose
  | unknown hopen hclose hinput =>
    rw [fillTemplate_of_firstAt hopen hclose, valueOf, Node.needInput, hinput]
    rfl
  | value hopen hclose hinput hvalue =>
    rw [fillTemplate_of_firstAt hopen hclose, valueOf, Node.needInput, hinput]
    simp only [bind, Except.bind, hvalue]

/-! ## All marks -/

theorem fillTemplate_eq_ok {marks : List Mark} {last cs : List Char} (hmarked : Marked marks last cs)
    (hlast : ¬ opening <:+: last) : ∀ values, List.Forall₂ (e.Gives n) marks values →
      (e.fillTemplate n (String.ofList cs)).map Code.render = .ok (filled marks values last) := by
  induction hmarked with
  | nil =>
    intro values hvalues
    cases hvalues
    rw [fillTemplate_of_no_mark hlast]
    simp [Except.map, Code.render, Token.render, filled, String.join]
  | cons hopen hclose _ ih =>
    intro values hvalues
    cases hvalues with
    | cons hvalue hvalues =>
      obtain ⟨code, hcode, htext⟩ := except_map_eq_ok.mp (ih hlast _ hvalues)
      rw [fillTemplate_of_firstAt hopen hclose, valueOf_eq_ok_iff.mpr hvalue, hcode, filled_cons, ← htext,
        ← Code.render_append]
      exact congrArg Except.ok (Code.render_cons _ _)

theorem fillTemplate_eq_error {marks : List Mark} {rest cs : List Char} {error : Error} (hmarked : Marked marks rest cs)
    (hfault : e.Fault n rest error) : ∀ values, List.Forall₂ (e.Gives n) marks values →
      e.fillTemplate n (String.ofList cs) = .error error := by
  induction hmarked with
  | nil => exact fun _ _ => hfault.fillTemplate
  | cons hopen hclose _ ih =>
    intro values hvalues
    cases hvalues with
    | cons hvalue hvalues =>
      rw [fillTemplate_of_firstAt hopen hclose, valueOf_eq_ok_iff.mpr hvalue, ih hfault _ hvalues]
      rfl

/-- From the left, marks have values up to the end of the template or up to the first one that has none. -/
theorem exists_marked (e : Surroundings) (n : Node) (cs : List Char) : ∃ marks values rest, Marked marks rest cs ∧
    List.Forall₂ (e.Gives n) marks values ∧ (¬ opening <:+: rest ∨ ∃ error, e.Fault n rest error) := by
  induction hlength : cs.length using Nat.strongRecOn generalizing cs with
  | _ length ih =>
    subst hlength
    cases hopen : Text.cut? opening cs with
    | none => exact ⟨[], [], cs, .nil, .nil, Or.inl (Text.cut?_eq_none_iff.mp hopen)⟩
    | some parts =>
      obtain ⟨before, after⟩ := parts
      replace hopen := Text.cut?_eq_some_iff.mp hopen
      cases hclose : Text.cut? closing after with
      | none =>
        have hfault : e.Fault n cs _ := .unterminated hopen (Text.cut?_eq_none_iff.mp hclose)
        exact ⟨[], [], cs, .nil, .nil, Or.inr ⟨_, hfault⟩⟩
      | some parts =>
        obtain ⟨name, behind⟩ := parts
        replace hclose := Text.cut?_eq_some_iff.mp hclose
        cases hinput : n.input? (Mark.input ⟨before, name⟩) with
        | none => exact ⟨[], [], cs, .nil, .nil, Or.inr ⟨_, .unknown hopen hclose hinput⟩⟩
        | some i =>
          cases hvalue : e.value i with
          | error error => exact ⟨[], [], cs, .nil, .nil, Or.inr ⟨error, .value hopen hclose hinput hvalue⟩⟩
          | ok value =>
            have hafter := hopen.length_lt (by simp [opening])
            have hbehind := hclose.length_lt (by simp [closing])
            obtain ⟨marks, values, rest, hmarked, hvalues, hrest⟩ := ih behind.length (by omega) behind rfl
            exact ⟨_, _, rest, .cons hopen hclose hmarked, .cons ⟨i, hinput, hvalue⟩ hvalues, hrest⟩

/-- **Filling a template is exact and takes one pass.** It gives a text exactly if the template is plain text and closed
marks in turn, each of which names an input that has a value; the text has these values in place of the marks. And it
fails with an error exactly if this is the error of the leftmost mark that is open, unknown or without a value. -/
theorem fillTemplate_exact (e : Surroundings) (n : Node) (template : String) :
    (∀ text, (e.fillTemplate n template).map Code.render = .ok text ↔
      ∃ marks values last, Marked marks last template.toList ∧ ¬ opening <:+: last ∧
        List.Forall₂ (e.Gives n) marks values ∧ text = filled marks values last) ∧
    ∀ error, e.fillTemplate n template = .error error ↔
      ∃ marks values rest, Marked marks rest template.toList ∧ List.Forall₂ (e.Gives n) marks values ∧
        e.Fault n rest error := by
  obtain ⟨cs, rfl⟩ : ∃ cs, template = String.ofList cs := ⟨template.toList, String.ofList_toList.symm⟩
  rw [String.toList_ofList]
  obtain ⟨marks, values, rest, hmarked, hvalues, hrest⟩ := exists_marked e n cs
  refine ⟨fun text => ⟨fun h => ?_, ?_⟩, fun error => ⟨fun h => ?_, ?_⟩⟩
  · rcases hrest with hlast | ⟨error, hfault⟩
    · rw [fillTemplate_eq_ok hmarked hlast values hvalues] at h
      exact ⟨marks, values, rest, hmarked, hlast, hvalues, (Except.ok.inj h).symm⟩
    · rw [fillTemplate_eq_error hmarked hfault values hvalues] at h
      cases h
  · rintro ⟨marks, values, last, hmarked, hlast, hvalues, rfl⟩
    exact fillTemplate_eq_ok hmarked hlast values hvalues
  · rcases hrest with hlast | ⟨error', hfault⟩
    · have hok := fillTemplate_eq_ok hmarked hlast values hvalues
      rw [h] at hok
      cases hok
    · rw [fillTemplate_eq_error hmarked hfault values hvalues] at h
      exact ⟨marks, values, rest, hmarked, hvalues, Except.error.inj h ▸ hfault⟩
  · rintro ⟨marks, values, rest, hmarked, hvalues, hfault⟩
    exact fillTemplate_eq_error hmarked hfault values hvalues

end Surroundings
end ShadeGraph
