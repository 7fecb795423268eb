import ShadeGraph.Proofs.Number.Text
import ShadeGraph.Text.Basic
import ShadeGraph.Value.Text

/-!
# Values and their text

The text of a value reads back as the value. Cutting at commas and trimming give the components back, because the text
of a number holds neither commas nor white space and is never empty; each component then reads back by itself.
-/

namespace ShadeGraph

/-! ## Cutting and trimming -/

namespace Text

theorem trimChars_of_not_blank {cs : List Char} (h : ∀ c ∈ cs, isBlank c = false) : trimChars cs = cs := by
  have hkeep (ds : List Char) (hds : ∀ c ∈ ds, isBlank c = false) : ds.dropWhile isBlank = ds := by
    cases ds with
    | nil => rfl
    | cons d ds => exact List.dropWhile_cons_of_neg (by simp [hds d List.mem_cons_self])
  have hback : cs.reverse.dropWhile isBlank = cs.reverse := hkeep _ fun c hc => h c (List.mem_reverse.mp hc)
  rw [trimChars, hkeep cs h, trimRight, hback, List.reverse_reverse]

theorem trimChars_cons_blank {b : Char} (cs : List Char) (h : isBlank b = true) : trimChars (b :: cs) = trimChars cs := by
  rw [trimChars, trimChars, List.dropWhile_cons_of_pos h]

theorem splitAt_cons (sep c : Char) (cs : List Char) : ∃ piece rest, splitAt sep cs = piece :: rest ∧
    splitAt sep (c :: cs) = if c = sep then [] :: piece :: rest else (c :: piece) :: rest := by
  induction cs generalizing c with
  | nil => exact ⟨[], [], rfl, rfl⟩
  | cons d cs ih =>
    obtain ⟨piece, rest, -, h⟩ := ih d
    have hpieces : ∃ piece rest, splitAt sep (d :: cs) = piece :: rest := by
      rw [h]
      split
      · exact ⟨_, _, rfl⟩
      · exact ⟨_, _, rfl⟩
    obtain ⟨piece, rest, hpieces⟩ := hpieces
    refine ⟨piece, rest, hpieces, ?_⟩
    rw [splitAt, hpieces]

theorem splitAt_cons_of_ne {sep c : Char} {cs piece : List Char} {rest : List (List Char)} (hc : c ≠ sep)
    (h : splitAt sep cs = piece :: rest) : splitAt sep (c :: cs) = (c :: piece) :: rest := by
  obtain ⟨piece', rest', h', hcons⟩ := splitAt_cons sep c cs
  obtain ⟨rfl, rfl⟩ := List.cons.inj (h.symm.trans h')
  rw [hcons, if_neg hc]

theorem splitAt_cons_sep (sep : Char) (cs : List Char) : splitAt sep (sep :: cs) = [] :: splitAt sep cs := by
  obtain ⟨piece, rest, h, hcons⟩ := splitAt_cons sep sep cs
  rw [hcons, if_pos rfl, h]

theorem splitAt_append_sep {sep : Char} {piece : List Char} (h : sep ∉ piece) (cs : List Char) :
    splitAt sep (piece ++ sep :: cs) = piece :: splitAt sep cs := by
  induction piece with
  | nil => exact splitAt_cons_sep sep cs
  | cons c piece ih =>
    have hc : c ≠ sep := fun he => h (he ▸ List.mem_cons_self)
    exact splitAt_cons_of_ne hc (ih fun hmem => h (List.mem_cons_of_mem c hmem))

theorem splitAt_of_not_mem {sep : Char} {piece : List Char} (h : sep ∉ piece) : splitAt sep piece = [piece] := by
  induction piece with
  | nil => rfl
  | cons c piece ih =>
    have hc : c ≠ sep := fun he => h (he ▸ List.mem_cons_self)
    exact splitAt_cons_of_ne hc (ih fun hmem => h (List.mem_cons_of_mem c hmem))

theorem map_trim_splitAt_cons_blank {sep b : Char} (hb : isBlank b = true) (hsep : b ≠ sep) (cs : List Char) :
    (splitAt sep (b :: cs)).map trimChars = (splitAt sep cs).map trimChars := by
  obtain ⟨piece, rest, h, hcons⟩ := splitAt_cons sep b cs
  rw [hcons, if_neg hsep, h, List.map_cons, List.map_cons, trimChars_cons_blank piece hb]

end Text

/-! ## Components -/

namespace Value
open Number

/-- Whether a text is a part between commas as it stands: it has no comma and no white space. -/
def IsPart (cs : List Char) : Prop := ∀ c ∈ cs, c ≠ ',' ∧ Text.isBlank c = false

theorem isPart_of_isNumeric {cs : List Char} (h : FloatFormat.IsNumeric cs) : IsPart cs := by
  have hmarks : ∀ c ∈ FloatFormat.marks, c ≠ ',' ∧ Text.isBlank c = false := by
    simp [FloatFormat.marks, Text.isBlank]
  intro c hc
  rcases h c hc with hdigit | hmark
  · rw [Char.isDigit_iff_toNat] at hdigit
    have hlow : 48 ≤ c.toNat := hdigit.1
    have hhigh : c.toNat ≤ 57 := hdigit.2
    refine ⟨fun he => by subst he; simp at hlow, ?_⟩
    simp only [Text.isBlank, Bool.or_eq_false_iff, Bool.and_eq_false_iff, beq_eq_false_iff_ne, decide_eq_false_iff_not]
    omega
  · exact hmarks c hmark

theorem map_trim_splitAt_intercalate {ts : List (List Char)} (hne : ts ≠ []) (h : ∀ t ∈ ts, IsPart t) :
    (Text.splitAt ',' ([',', ' '].intercalate ts)).map Text.trimChars = ts := by
  have hcomma (t : List Char) (ht : IsPart t) : ',' ∉ t := fun hmem => (ht ',' hmem).1 rfl
  have htrim (t : List Char) (ht : IsPart t) : Text.trimChars t = t :=
    Text.trimChars_of_not_blank fun c hc => (ht c hc).2
  induction ts with
  | nil => exact absurd rfl hne
  | cons t ts ih =>
    have ht : IsPart t := h t List.mem_cons_self
    cases ts with
    | nil => simp [List.intercalate, Text.splitAt_of_not_mem (hcomma t ht), htrim t ht]
    | cons u us =>
      have hrest := ih (List.cons_ne_nil u us) fun v hv => h v (List.mem_cons_of_mem t hv)
      rw [List.intercalate_cons_cons, List.append_assoc, List.cons_append, Text.splitAt_append_sep (hcomma t ht),
        List.map_cons, htrim t ht, List.cons_append, List.nil_append,
        Text.map_trim_splitAt_cons_blank (by decide) (by decide), hrest]

theorem parts_join {texts : List String} (hne : ∀ t ∈ texts, t.toList ≠ []) (h : ∀ t ∈ texts, IsPart t.toList) :
    parts (Text.join ", " texts) = texts.map String.toList := by
  cases texts with
  | nil => rfl
  | cons t texts =>
    have hparts : ∀ cs ∈ (t :: texts).map String.toList, IsPart cs := by
      intro cs hcs
      obtain ⟨u, hu, rfl⟩ := List.mem_map.mp hcs
      exact h u hu
    have hsplit := map_trim_splitAt_intercalate (by simp) hparts
    rw [parts, Text.join, String.toList_intercalate, show (", " : String).toList = [',', ' '] from rfl, hsplit]
    refine List.filter_eq_self.mpr fun cs hcs => ?_
    obtain ⟨u, hu, rfl⟩ := List.mem_map.mp hcs
    simpa using hne u hu

theorem mapM_parts_join_map {α β : Type} {read : List Char → Option β} {write : α → String} {f : α → β}
    {elements : List α} (hread : ∀ a ∈ elements, read (write a).toList = some (f a)) (hnone : read [] = none)
    (hpart : ∀ a ∈ elements, IsPart (write a).toList) :
    (parts (Text.join ", " (elements.map write))).mapM read = some (elements.map f) := by
  have hne : ∀ t ∈ elements.map write, t.toList ≠ [] := by
    intro t ht hempty
    obtain ⟨a, ha, rfl⟩ := List.mem_map.mp ht
    simpa [hempty, hnone] using hread a ha
  have hall : ∀ t ∈ elements.map write, IsPart t.toList := by
    intro t ht
    obtain ⟨a, ha, rfl⟩ := List.mem_map.mp ht
    exact hpart a ha
  rw [parts_join hne hall]
  clear hne hall hpart
  induction elements with
  | nil => rfl
  | cons a elements ih =>
    have hrest := ih fun b hb => hread b (List.mem_cons_of_mem a hb)
    rw [List.map_cons, List.map_cons, List.mapM_cons, hread a List.mem_cons_self, hrest]
    rfl

theorem mapM_parts_join {α : Type} {read : List Char → Option α} {write : α → String} {elements : List α}
    (hread : ∀ a ∈ elements, read (write a).toList = some a) (hnone : read [] = none)
    (hpart : ∀ a ∈ elements, IsPart (write a).toList) :
    (parts (Text.join ", " (elements.map write))).mapM read = some elements := by
  have hmap := mapM_parts_join_map (f := id) hread hnone hpart
  rwa [List.map_id] at hmap

/-! ## Values -/

/-- Whether no component of a value is a pattern that is not a number. -/
def HasNumbers (v : Value) : Prop := ∀ x ∈ v.components?.getD [], x.isNaN = false

instance (v : Value) : Decidable v.HasNumbers := inferInstanceAs (Decidable (∀ x ∈ v.components?.getD [], _))

theorem isPart_toString (n : Int) : IsPart (toString n).toList := by
  refine isPart_of_isNumeric ?_
  rw [toList_toString]
  split
  · exact FloatFormat.isNumeric_toDigits _
  · exact .cons (by decide) (FloatFormat.isNumeric_toDigits _)

theorem readSingle?_format {x : Single} (hx : x.isNaN = false) :
    readSingle? (FloatFormat.format {} x).toList = some x := by
  rw [FloatFormat.format, String.toList_ofList]
  exact FloatFormat.readSingle?_chars hx

theorem isPart_format (f : FloatFormat) (x : Single) : IsPart (f.format x).toList := by
  rw [FloatFormat.format, String.toList_ofList]
  exact isPart_of_isNumeric (FloatFormat.isNumeric_chars f x)

theorem mapM_readSingle?_join {xs : List Single} (h : ∀ x ∈ xs, x.isNaN = false) :
    (parts (Text.join ", " (xs.map (FloatFormat.format {})))).mapM readSingle? = some xs :=
  mapM_parts_join (fun x hx => readSingle?_format (h x hx)) rfl fun x _ => isPart_format {} x

theorem ofComponents?_toList {shape : TupleShape} (components : Vector Single shape.size) :
    ofComponents? (.tuple shape) components.toList = some (.tuple shape components) := by
  obtain ⟨components, hsize⟩ := components
  simp [ofComponents?, hsize]

theorem trim_of_isPart {cs : List Char} (h : IsPart cs) : Text.trimChars cs = cs :=
  Text.trimChars_of_not_blank fun c hc => (h c hc).2

/-- **The text of a value reads back as the value, bit for bit.** -/
theorem read_display (v : Value) (h : v.HasNumbers) : read v.type v.display = .ok v := by
  suffices hread : read? v.type v.display = some v by rw [read, hread]
  cases v with
  | boolean b => cases b <;> rfl
  | integer n =>
    simp only [type, display, text, read?]
    rw [trim_of_isPart (isPart_toString n.toInt), readInt32?_toString, Option.map_some]
  | float x =>
    simp only [type, display, text, read?]
    rw [trim_of_isPart (isPart_format {} x), readSingle?_format (h x List.mem_cons_self), Option.map_some]
  | tuple shape components =>
    have hnumbers : ∀ x ∈ components.toList, x.isNaN = false := h
    simp only [type, display, text, read?]
    rw [mapM_readSingle?_join hnumbers, Option.bind_some, ofComponents?_toList]
  | string s => rfl
  | filename s => rfl
  | integerArray elements =>
    simp only [type, display, text, read?]
    rw [mapM_parts_join (fun n _ => readInt32?_toString n) rfl fun n _ => isPart_toString n.toInt, Option.map_some]
  | floatArray elements =>
    have hnumbers : ∀ x ∈ elements, x.isNaN = false := h
    simp only [type, display, text, read?]
    rw [mapM_readSingle?_join hnumbers, Option.map_some]

/-- Negative zero, the smallest number, the largest finite one and an infinity. -/
def extremes : Value :=
  .tuple .color4 ⟨#[.ofBits 0x80000000, .ofBits 1, .ofBits 0x7f7fffff, .infinity true], rfl⟩

theorem read_display_extremes : extremes.HasNumbers ∧ read (.tuple .color4) extremes.display = .ok extremes :=
  ⟨by decide, read_display extremes (by decide)⟩

end Value
end ShadeGraph
