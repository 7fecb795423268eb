import ShadeGraph.Language
import ShadeGraph.Proofs.Outcome

/-!
# Texts as literals

Strings and file names are written between double quotes as they are. The languages read such a literal from its opening
quote up to the next quote that no backslash stands in front of, and not beyond the end of the line. So the text comes
back, and the code behind it stays as it is, exactly if no character of it has a meaning of its own in a literal.
-/

namespace ShadeGraph

namespace Text

/-- Reads a literal behind its opening quote: its content, and the code behind its closing quote. A backslash makes the
next character stand for another one, and no line ends inside of a literal. The flag says whether there is a backslash
in front. -/
def readLiteral? (unescape : Char → Char) : Bool → List Char → Option (List Char × List Char)
  | _, [] => none
  | escaped, c :: rest =>
    if c = '\n' then none
    else if escaped then (readLiteral? unescape false rest).map fun (content, behind) => (unescape c :: content, behind)
    else if c = '"' then some ([], rest)
    else if c = '\\' then readLiteral? unescape true rest
    else (readLiteral? unescape false rest).map fun (content, behind) => (c :: content, behind)

/-- A text is one literal with some content, whatever code stands behind it. -/
def IsLiteral (unescape : Char → Char) (text content : String) : Prop :=
  ∃ body, text.toList = '"' :: body ∧
    ∀ behind, readLiteral? unescape false (body ++ behind) = some (content.toList, behind)

/-- No character of a text has a meaning of its own in a literal. -/
def NeedsNoEscape (s : String) : Prop := ∀ c ∈ s.toList, c ≠ '"' ∧ c ≠ '\\' ∧ c ≠ '\n'

instance (s : String) : Decidable (NeedsNoEscape s) := inferInstanceAs (Decidable (∀ c ∈ s.toList, _))

variable {unescape : Char → Char}

theorem readLiteral?_of_forall {cs : List Char} (h : ∀ c ∈ cs, c ≠ '"' ∧ c ≠ '\\' ∧ c ≠ '\n') (behind : List Char) :
    readLiteral? unescape false (cs ++ '"' :: behind) = some (cs, behind) := by
  induction cs with
  | nil => simp [readLiteral?]
  | cons c cs ih =>
    have hrest := ih fun c hc => h c (List.mem_cons_of_mem _ hc)
    obtain ⟨hquote, hbackslash, hnewline⟩ := h c List.mem_cons_self
    simp [readLiteral?, hquote, hbackslash, hnewline, hrest]

theorem length_lt_of_readLiteral? {escaped : Bool} {cs content behind : List Char}
    (h : readLiteral? unescape escaped cs = some (content, behind)) :
    content.length + behind.length < cs.length := by
  fun_induction readLiteral? unescape escaped cs generalizing content with
  | case1 => simp at h
  | case2 => simp at h
  | case3 c rest _ ih =>
    obtain ⟨⟨content', behind'⟩, hrest, heq⟩ := Option.map_eq_some_iff.mp h
    obtain ⟨rfl, rfl⟩ := Prod.mk.inj heq
    have hlt := ih hrest
    simp only [List.length_cons]
    omega
  | case4 =>
    obtain ⟨rfl, rfl⟩ := Prod.mk.inj (Option.some.inj h)
    simp
  | case5 _ rest _ _ _ ih =>
    have hlt := ih h
    simp only [List.length_cons]
    omega
  | case6 _ c rest _ _ _ _ ih =>
    obtain ⟨⟨content', behind'⟩, hrest, heq⟩ := Option.map_eq_some_iff.mp h
    obtain ⟨rfl, rfl⟩ := Prod.mk.inj heq
    have hlt := ih hrest
    simp only [List.length_cons]
    omega

/-- A text that comes back has no quote, which would end the literal, and no backslash, since what an escape stands for
is shorter than the escape. -/
theorem forall_of_readLiteral? {cs : List Char} (h : readLiteral? unescape false (cs ++ ['"']) = some (cs, [])) :
    ∀ c ∈ cs, c ≠ '"' ∧ c ≠ '\\' ∧ c ≠ '\n' := by
  induction cs with
  | nil => simp
  | cons c cs ih =>
    rw [List.cons_append, readLiteral?] at h
    by_cases hnewline : c = '\n'
    · simp [hnewline] at h
    · by_cases hquote : c = '"'
      · simp [hquote] at h
      · by_cases hbackslash : c = '\\'
        · rw [if_neg hnewline, if_neg (by simp), if_neg hquote, if_pos hbackslash] at h
          have hlt := length_lt_of_readLiteral? h
          simp at hlt
        · rw [if_neg hnewline, if_neg (by simp), if_neg hquote, if_neg hbackslash] at h
          obtain ⟨⟨content, behind⟩, hread, heq⟩ := Option.map_eq_some_iff.mp h
          obtain ⟨hcontent, rfl⟩ := Prod.mk.inj heq
          obtain rfl := (List.cons.inj hcontent).2
          exact List.forall_mem_cons.mpr ⟨⟨hquote, hbackslash, hnewline⟩, ih hread⟩

theorem isLiteral_quoted_iff (s : String) : IsLiteral unescape ("\"" ++ s ++ "\"") s ↔ NeedsNoEscape s := by
  have hquoted : ("\"" ++ s ++ "\"").toList = '"' :: (s.toList ++ ['"']) := by simp
  constructor
  · rintro ⟨body, hbody, hread⟩
    rw [hquoted] at hbody
    obtain rfl := (List.cons.inj hbody).2
    have hread' := hread []
    rw [List.append_nil] at hread'
    exact forall_of_readLiteral? hread'
  · intro h
    refine ⟨s.toList ++ ['"'], hquoted, fun behind => ?_⟩
    rw [List.append_assoc]
    exact readLiteral?_of_forall h behind

end Text

/-- The code of a text of some type holds the text in one literal. In MDL a file name stands inside of a texture, and
the texture of no file is written without a literal. -/
def Language.Holds (l : Language) (type : DataType) (unescape : Char → Char) (s code : String) : Prop :=
  match l, type with
  | .mdl, .filename =>
    if s = "" then code = "texture_2d()"
    else ∃ literal, code = "texture_2d(" ++ literal ++ ")" ∧ Text.IsLiteral unescape literal s
  | _, _ => Text.IsLiteral unescape code s

theorem Value.eq_of_asText {v : Value} {s : String} (h : v.asText = .ok s) : v = .string s ∨ v = .filename s := by
  cases v <;> simp_all [Value.asText]

theorem DataType.eq_of_base_string {type : DataType} (h : type.base = .string) : type = .string ∨ type = .filename := by
  cases type <;> simp_all [DataType.base]

namespace Dialect

theorem literal_quoted {d : Dialect} {type : DataType} {t : TypeForm} {v : Value} {s : String}
    (hform : d.form type = .ok t) (ht : t.form = .quoted) (hv : v.asText = .ok s) (uniform : Bool) (f : FloatFormat) :
    d.literal type v uniform f = .ok ("\"" ++ s ++ "\"") := by
  rw [literal, hform]
  change t.literal v uniform f = _
  rcases Value.eq_of_asText hv with rfl | rfl
  · rw [TypeForm.literal, ht]; rfl
  · rw [TypeForm.literal, ht]; rfl

theorem mdl_literal_filename {v : Value} {s : String} (hv : v.asText = .ok s) (uniform : Bool) (f : FloatFormat) :
    mdl.literal .filename v uniform f =
      .ok (if s = "" then "texture_2d()" else "texture_2d(" ++ ("\"" ++ s ++ "\"") ++ ")") := by
  have hwrapper : "texture_2d" ++ "(\"" ++ s ++ "\")" = "texture_2d(" ++ ("\"" ++ s ++ "\"") ++ ")" := by
    simp [← String.toList_inj]
  rw [← hwrapper]
  rcases Value.eq_of_asText hv with rfl | rfl
  · cases uniform <;> rfl
  · cases uniform <;> rfl

end Dialect

/-- **Which texts stay inside of their literal.** The code of a string or a file name in OSL and MDL holds it in one
literal, behind which the code goes on unchanged, exactly if the text has no quote, no backslash and no line feed. -/
theorem Language.holds_literal_iff {l : Language} (hl : l = .osl ∨ l = .mdl) {type : DataType}
    (htype : type.base = .string) {v : Value} {s : String} (hv : v.asText = .ok s) (uniform : Bool) (f : FloatFormat)
    (unescape : Char → Char) :
    ∃ code, l.dialect.literal type v uniform f = .ok code ∧ (l.Holds type unescape s code ↔ Text.NeedsNoEscape s) := by
  rcases hl with rfl | rfl
  · rcases DataType.eq_of_base_string htype with rfl | rfl
    · exact ⟨_, Dialect.literal_quoted rfl rfl hv uniform f, Text.isLiteral_quoted_iff s⟩
    · exact ⟨_, Dialect.literal_quoted rfl rfl hv uniform f, Text.isLiteral_quoted_iff s⟩
  · rcases DataType.eq_of_base_string htype with rfl | rfl
    · exact ⟨_, Dialect.literal_quoted rfl rfl hv uniform f, Text.isLiteral_quoted_iff s⟩
    · refine ⟨_, Dialect.mdl_literal_filename hv uniform f, ?_⟩
      unfold Holds
      by_cases hs : s = ""
      · simp [hs, Text.NeedsNoEscape]
      · have hquoted : Text.IsLiteral unescape ("\"" ++ s ++ "\"") s ↔ _ := Text.isLiteral_quoted_iff s
        simp only [if_neg hs, ← hquoted]
        constructor
        · rintro ⟨literal, hcode, hliteral⟩
          obtain rfl := (String.append_right_inj _).mp ((String.append_left_inj _).mp hcode)
          exact hliteral
        · exact fun h => ⟨_, rfl, h⟩

theorem Language.wall_file_held : ∃ code,
    Language.mdl.dialect.literal .filename (.filename "wall's.png") true {} = .ok code ∧
      Language.mdl.Holds .filename id "wall's.png" code := by
  have htype : DataType.base .filename = .string := rfl
  have hvalue : (Value.filename "wall's.png").asText = .ok "wall's.png" := rfl
  obtain ⟨code, hcode, hholds⟩ := holds_literal_iff (Or.inr rfl) htype hvalue true {} id
  exact ⟨code, hcode, hholds.mpr (by simp [Text.NeedsNoEscape])⟩

/-- Any code can get behind a literal by way of a value: a quote in front of it closes the literal. -/
theorem Language.literal_admits_code {l : Language} (hl : l = .osl ∨ l = .mdl) (code : String) (uniform : Bool)
    (f : FloatFormat) (unescape : Char → Char) : ∃ s body,
    l.dialect.literal .string (.string s) uniform f = .ok ("\"" ++ body) ∧
      Text.readLiteral? unescape false body.toList = some ([], code.toList ++ ['"']) := by
  have hliteral : l.dialect.literal .string (.string ("\"" ++ code)) uniform f =
      .ok ("\"" ++ ("\"" ++ code ++ "\"")) := by
    rw [← String.append_assoc]
    rcases hl with rfl | rfl
    · exact Dialect.literal_quoted rfl rfl rfl uniform f
    · exact Dialect.literal_quoted rfl rfl rfl uniform f
  exact ⟨_, _, hliteral, by simp [Text.readLiteral?]⟩

end ShadeGraph
