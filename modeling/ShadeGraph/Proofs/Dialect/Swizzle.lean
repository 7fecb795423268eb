import ShadeGraph.Language
import ShadeGraph.Proofs.Graph.Channels
import ShadeGraph.Proofs.Text.Replace

/-!
# Swizzles in source code

A connection through channels is accepted by counting letters, and written by looking up members and composing them.
In every language the two agree: the tables of all dialects name as many members as a type has components that channels
can reach, and no rule of composition asks for more parts than its type has components.
-/

namespace ShadeGraph

/-! ## Members -/

/-- The text of a member of a variable: the variable in place of each mark of a template, or else in front of it. -/
def memberText (member value : String) : String :=
  if Text.contains "\x7b\x7d" member then Text.replace "\x7b\x7d" value member else value ++ member

theorem Code.render_append (a b : Code) : (a ++ b).render = a.render ++ b.render := by
  simp [render, String.join_append]

theorem Code.render_cons (token : Token) (code : Code) : Code.render (token :: code) = token.render ++ code.render := by
  simp [render, String.join_cons]

namespace Dialect

theorem render_fill (value : Code) (pieces : List (List Char)) :
    (fill value pieces).render = String.ofList (value.render.toList.intercalate pieces) := by
  induction pieces with
  | nil => rfl
  | cons piece rest ih =>
    cases rest with
    | nil => simp [fill, Code.render, Token.render, List.intercalate, String.join]
    | cons next rest =>
      rw [fill, Code.render_cons, Code.render_append, ih, Token.render]
      · simp [List.intercalate, String.ofList_append]
      · simp

theorem render_access (member : String) (value : Code) :
    (access member value).render = memberText member value.render := by
  have hmark : "\x7b\x7d".toList = ['\x7b', '\x7d'] := rfl
  have hone : (Text.pieces ['\x7b', '\x7d'] member.toList).length = 1 ↔ _ := Text.length_pieces_eq_one_iff (by simp)
  unfold access memberText
  rw [Text.contains, hmark]
  split
  · rename_i piece hpieces
    rw [hone.mp (by rw [hpieces]; rfl), Code.render_append]
    simp [Code.render, Token.render, String.join]
  · rename_i hpieces
    have hcut : (Text.cut? ['\x7b', '\x7d'] member.toList).isSome = true := by
      rw [Option.isSome_iff_ne_none]
      intro hnone
      obtain ⟨piece, heq⟩ := List.length_eq_one_iff.mp (hone.mpr hnone)
      exact hpieces piece heq
    rw [if_pos hcut, render_fill, Text.intercalate_pieces (by simp), Text.replace, hmark]

/-- What a channel of a value of some type selects, as text: the value itself if it is a single component, otherwise
the member at the position of the channel. -/
def Selects (t : TypeForm) (source : DataType) (value : String) (c : Char) (part : String) : Prop :=
  ∃ index, source.channelIndex? c = some index ∧
    if source.size = 1 then part = value
    else ∃ member, t.members[index]? = some member ∧ part = memberText member value

theorem selects_of_channel {t : TypeForm} {source : DataType} {value part : Code} {c : Char}
    (h : channel t source value c = .ok part) : Selects t source value.render c part.render := by
  unfold channel at h
  split at h
  · cases h
  · rename_i index hindex
    refine ⟨index, hindex, ?_⟩
    split at h
    · rename_i hsize
      obtain rfl := Except.ok.inj h
      rw [if_pos hsize]
    · rename_i hsize
      rw [if_neg hsize]
      split at h
      · cases h
      · rename_i member hmember
        obtain rfl := Except.ok.inj h
        exact ⟨member, hmember, render_access member value⟩

end Dialect

/-! ## Composition -/

/-- The number of parts that a rule of composition needs. -/
def ValueForm.least : ValueForm → Nat
  | .opacity _ _ => 4
  | .paddedMatrix => 9
  | _ => 1

theorem TypeForm.exists_compose {t : TypeForm} {parts : List Code} (hlength : t.form.least ≤ parts.length)
    (uniform : Bool) : ∃ code, t.compose parts uniform = .ok code := by
  unfold compose
  cases parts with
  | nil =>
    exfalso
    cases hform : t.form <;> simp [hform, ValueForm.least] at hlength
  | cons first rest =>
    cases hform : t.form with
    | opacity color braces =>
      rw [hform] at hlength
      rcases rest with _ | ⟨second, _ | ⟨third, _ | ⟨fourth, rest⟩⟩⟩
      · simp [ValueForm.least] at hlength
      · simp [ValueForm.least] at hlength
      · simp [ValueForm.least] at hlength
      · exact ⟨_, rfl⟩
    | paddedMatrix =>
      rw [hform] at hlength
      exact ⟨_, if_neg (Nat.not_lt.mpr hlength)⟩
    | _ => exact ⟨_, rfl⟩

/-! ## Tables -/

/-- A form suits a type: it has a member for each component that a channel can name, and composes values of as many
components as the type has. -/
def TypeForm.Suits (t : TypeForm) (type : DataType) : Prop :=
  (type.semantic = .color ∨ type.semantic = .vector → t.members.length = type.size) ∧
    (0 < type.size → t.form.least ≤ type.size)

instance (t : TypeForm) (type : DataType) : Decidable (t.Suits type) :=
  inferInstanceAs (Decidable ((_ → _) ∧ (_ → _)))

theorem Language.suits (l : Language) {type : DataType} {t : TypeForm} (h : l.dialect.form? type = some t) :
    t.Suits type := by
  have hall : ∀ p ∈ l.dialect.forms, p.2.Suits p.1 := by cases l <;> decide
  obtain ⟨before, after, heq, -⟩ := List.lookup_eq_some_iff.mp h
  exact hall (type, t) (by simp [heq])

theorem DataType.semantic_of_channelIndex? {type : DataType} {c : Char} {index : Nat}
    (h : type.channelIndex? c = some index) (hsize : type.size ≠ 1) :
    type.semantic = .color ∨ type.semantic = .vector := by
  have hlt := DataType.lt_size_of_channelIndex? h
  cases type with
  | tuple shape =>
    cases shape with
    | matrix33 => simp [channelIndex?, letterIndex?, semantic, TupleShape.semantic, size, TupleShape.size] at h
    | matrix44 => simp [channelIndex?, letterIndex?, semantic, TupleShape.semantic, size, TupleShape.size] at h
    | _ => simp [semantic, TupleShape.semantic]
  | integerArray => exact absurd hlt (Nat.not_lt_zero index)
  | floatArray => exact absurd hlt (Nat.not_lt_zero index)
  | _ => exact absurd rfl hsize

theorem Language.exists_channel (l : Language) {source : DataType} {t : TypeForm} (h : l.dialect.form? source = some t)
    {c : Char} (hc : ∃ index, source.channelIndex? c = some index) (value : Code) :
    ∃ part, Dialect.channel t source value c = .ok part := by
  obtain ⟨index, hindex⟩ := hc
  unfold Dialect.channel
  rw [hindex]
  by_cases hsize : source.size = 1
  · exact ⟨value, if_pos hsize⟩
  · have hlength := (l.suits h).1 (DataType.semantic_of_channelIndex? hindex hsize)
    have hlt : index < t.members.length := hlength ▸ DataType.lt_size_of_channelIndex? hindex
    simp only [if_neg hsize, List.getElem?_eq_getElem hlt]
    exact ⟨_, rfl⟩

/-! ## Swizzles -/

section
variable {d : Dialect} {source target : DataType} {channels : String} {value : Code} {s t : TypeForm}
  {parts : List Code}

theorem Dialect.form_of_form? (h : d.form? target = some t) : d.form target = .ok t := by rw [form, h]

theorem Dialect.swizzle_eq_part (hs : d.form? source = some s) {part : Code}
    (hparts : channels.toList.mapM (channel s source value) = .ok [part]) (hlength : target.size = 1) :
    d.swizzle value source channels target = .ok part := by
  simp only [swizzle, form_of_form? hs, hparts, bind, Except.bind, List.length_singleton, hlength, ne_eq,
    not_true_eq_false, if_false]
  rfl

theorem Dialect.swizzle_eq_compose (hs : d.form? source = some s) (ht : d.form? target = some t)
    (hparts : channels.toList.mapM (channel s source value) = .ok parts) (hlength : parts.length = target.size)
    (hsize : target.size ≠ 1) : d.swizzle value source channels target = t.compose parts false := by
  simp only [swizzle, form_of_form? hs, form_of_form? ht, hparts, bind, Except.bind, hlength, ne_eq, not_true_eq_false,
    if_false]
  split
  · exact absurd hlength.symm hsize
  · rfl

theorem Dialect.compatible_of_swizzle {code : Code} (h : d.swizzle value source channels target = .ok code) :
    compatible source (some channels) target := by
  obtain ⟨s, -, h⟩ := except_bind_eq_ok.mp h
  obtain ⟨parts, hparts, h⟩ := except_bind_eq_ok.mp h
  rw [except_mapM_eq_ok_iff] at hparts
  refine compatible_some.mpr ⟨fun c hc => ?_, ?_⟩
  · obtain ⟨part, -, hpart⟩ := exists_right_of_forall₂ hparts hc
    obtain ⟨index, hindex, -⟩ := selects_of_channel hpart
    exact ⟨index, hindex⟩
  · rw [hparts.length_eq]
    by_contra hlength
    rw [if_pos hlength] at h
    obtain ⟨-, h, -⟩ := except_bind_eq_ok.mp h
    exact except_throw_ne_ok h

theorem Language.exists_parts (l : Language) (hs : l.dialect.form? source = some s)
    (hfits : compatible source (some channels) target) (value : Code) : ∃ parts,
      channels.toList.mapM (Dialect.channel s source value) = .ok parts ∧ parts.length = target.size := by
  obtain ⟨hvalid, hlength⟩ := compatible_some.mp hfits
  obtain ⟨parts, hparts⟩ := exists_forall₂ fun c hc => l.exists_channel hs (hvalid c hc) value
  exact ⟨parts, except_mapM_eq_ok_iff.mpr hparts, hparts.length_eq.symm.trans hlength⟩

end

/-- **The check of a connection and its code agree.** In every language, for types that it has and a target that has
components, a swizzle can be written exactly if the connection through these channels is accepted. If the target has
several components, the code is composed by the rule of its type from the members that the channels select, in their
order. -/
theorem swizzle_written_iff_accepted (l : Language) (source target : DataType) (value : Code) (channels : String)
    (hsource : l.dialect.supports source) (htarget : l.dialect.supports target) (hsize : 0 < target.size) :
    ((∃ code, l.dialect.swizzle value source channels target = .ok code) ↔
      compatible source (some channels) target) ∧
    (1 < target.size → compatible source (some channels) target → ∃ s t parts,
      l.dialect.form? source = some s ∧ l.dialect.form? target = some t ∧
      List.Forall₂ (Dialect.Selects s source value.render) channels.toList (parts.map Code.render) ∧
      l.dialect.swizzle value source channels target = t.compose parts false) := by
  obtain ⟨s, hs⟩ := Option.isSome_iff_exists.mp hsource
  obtain ⟨t, ht⟩ := Option.isSome_iff_exists.mp htarget
  refine ⟨⟨fun ⟨code, hcode⟩ => Dialect.compatible_of_swizzle hcode, fun hfits => ?_⟩, fun hmany hfits => ?_⟩
  · obtain ⟨parts, hparts, hlength⟩ := l.exists_parts hs hfits value
    by_cases hone : target.size = 1
    · obtain ⟨part, rfl⟩ := List.length_eq_one_iff.mp (hlength.trans hone)
      exact ⟨part, Dialect.swizzle_eq_part hs hparts hone⟩
    · rw [Dialect.swizzle_eq_compose hs ht hparts hlength hone]
      exact TypeForm.exists_compose (hlength ▸ (l.suits ht).2 hsize) false
  · obtain ⟨parts, hparts, hlength⟩ := l.exists_parts hs hfits value
    refine ⟨s, t, parts, hs, ht, ?_, Dialect.swizzle_eq_compose hs ht hparts hlength (by omega)⟩
    rw [List.forall₂_map_right_iff]
    exact (except_mapM_eq_ok_iff.mp hparts).imp fun c part => Dialect.selects_of_channel

/-- A colour with opacity in reverse, in a language in which it is a structure with a colour inside. -/
theorem color4_swizzle_written : Dialect.mdl.supports (.tuple .color4) ∧ 0 < (DataType.tuple .color4).size ∧
    (∃ code, Dialect.mdl.swizzle [.reads "c"] (.tuple .color4) "abgr" (.tuple .color4) = .ok code) ∧
    ∃ s t parts, Dialect.mdl.form? (.tuple .color4) = some s ∧ Dialect.mdl.form? (.tuple .color4) = some t ∧
      List.Forall₂ (Dialect.Selects s (.tuple .color4) "c") ['a', 'b', 'g', 'r'] (parts.map Code.render) ∧
      Dialect.mdl.swizzle [.reads "c"] (.tuple .color4) "abgr" (.tuple .color4) = t.compose parts false := by
  have hsupports : Dialect.mdl.supports (.tuple .color4) := by decide
  obtain ⟨hiff, hcode⟩ := swizzle_written_iff_accepted .mdl (.tuple .color4) (.tuple .color4) [.reads "c"] "abgr"
    hsupports hsupports (by decide)
  exact ⟨hsupports, by decide, hiff.mpr (by decide), hcode (by decide) (by decide)⟩

end ShadeGraph
