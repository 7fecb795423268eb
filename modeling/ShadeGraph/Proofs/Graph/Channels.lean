import ShadeGraph.Graph.Flatten
import ShadeGraph.Proofs.Outcome

/-!
# Channels

A channel names a position among the components of its type. Two pieces of code look up what stands there: swizzling a
literal takes a component of a value, and composing channels takes a letter of a text. Both agree: swizzling a value
twice is swizzling it once through the composed channels, where one of them fails the other one does, and composing
does not depend on the order in which it is done.
-/

namespace ShadeGraph

variable {source between target : DataType} {first second channels : Option String}

/-! ## Positions -/

section
variable {α : Type} {type : DataType} {l : List α} {c : Char} {x y : α}

theorem DataType.lt_size_of_channelIndex? {index : Nat} (h : type.channelIndex? c = some index) : index < type.size :=
  of_decide_eq_true (Option.filter_eq_some_iff.mp h).2

/-- A channel of a type names an element of a list that is laid out like the components of that type. -/
def Names (type : DataType) (l : List α) (c : Char) (x : α) : Prop :=
  ∃ index, type.channelIndex? c = some index ∧ l[index]? = some x

theorem names_iff : Names type l c x ↔ (type.channelIndex? c).bind (fun index => l[index]?) = some x :=
  Option.bind_eq_some_iff.symm

theorem Names.unique (hx : Names type l c x) (hy : Names type l c y) : x = y :=
  Option.some.inj ((names_iff.mp hx).symm.trans (names_iff.mp hy))

theorem exists_names (hlength : type.size ≤ l.length) (hc : ∃ index, type.channelIndex? c = some index) :
    ∃ x, Names type l c x := by
  obtain ⟨index, hindex⟩ := hc
  have hlt : index < l.length := Nat.lt_of_lt_of_le (DataType.lt_size_of_channelIndex? hindex) hlength
  exact ⟨l[index], index, hindex, List.getElem?_eq_getElem hlt⟩

theorem forall₂_getElem? {β : Type} {R : α → β → Prop} {l' : List β} (h : List.Forall₂ R l l') (index : Nat) :
    (l[index]? = none ∧ l'[index]? = none) ∨ ∃ a b, l[index]? = some a ∧ l'[index]? = some b ∧ R a b := by
  by_cases hlt : index < l.length
  · have hlt' : index < l'.length := h.length_eq ▸ hlt
    exact .inr ⟨l[index], l'[index], List.getElem?_eq_getElem hlt, List.getElem?_eq_getElem hlt', h.get hlt hlt'⟩
  · have hge : l.length ≤ index := Nat.le_of_not_lt hlt
    exact .inl ⟨List.getElem?_eq_none hge, List.getElem?_eq_none (h.length_eq ▸ hge)⟩

theorem names_names {letters : List Char} {picked : List α} (h : List.Forall₂ (Names source l) letters picked) :
    Names between picked c x ↔ ∃ letter, Names between letters c letter ∧ Names source l letter x := by
  constructor
  · rintro ⟨index, hindex, hx⟩
    rcases forall₂_getElem? h index with ⟨-, hnone⟩ | ⟨letter, y, hletter, hy, hnames⟩
    · rw [hnone] at hx
      cases hx
    · obtain rfl := Option.some.inj (hy.symm.trans hx)
      exact ⟨letter, ⟨index, hindex, hletter⟩, hnames⟩
  · rintro ⟨letter, ⟨index, hindex, hletter⟩, hx⟩
    rcases forall₂_getElem? h index with ⟨hnone, -⟩ | ⟨letter', y, hletter', hy, hnames⟩
    · rw [hnone] at hletter
      cases hletter
    · obtain rfl := Option.some.inj (hletter'.symm.trans hletter)
      obtain rfl := hnames.unique hx
      exact ⟨index, hindex, hy⟩

theorem forall₂_names {letters cs : List Char} {picked xs : List α}
    (h : List.Forall₂ (Names source l) letters picked) :
    List.Forall₂ (Names between picked) cs xs ↔
      ∃ composed, List.Forall₂ (Names between letters) cs composed ∧ List.Forall₂ (Names source l) composed xs := by
  rw [← forall₂_comp]
  exact forall₂_congr fun c x => names_names h

end

/-! ## Compatible channels -/

theorem compatible_some {channels : String} : compatible source (some channels) target ↔
    (∀ c ∈ channels.toList, ∃ index, source.channelIndex? c = some index) ∧ channels.toList.length = target.size := by
  simp [compatible, Option.isSome_iff_exists]

theorem compatible_none : compatible source none target ↔ source = target := by simp [compatible]

/-! ## Composed channels -/

/-- Composed channels: each one is the channel of the first ones that the second one names. -/
theorem composeChannels_some_iff {first second : String} :
    composeChannels (some first) (some second) between = .ok channels ↔
      ∃ chars, channels = some (String.ofList chars) ∧
        List.Forall₂ (Names between first.toList) second.toList chars := by
  rw [composeChannels, except_bind_eq_ok]
  refine exists_congr fun chars => ?_
  rw [and_comm]
  refine and_congr ⟨fun h => (Except.ok.inj h).symm, fun h => h ▸ rfl⟩ ?_
  refine except_mapM_eq_ok_iff.trans (forall₂_congr fun c channel => ?_)
  rw [names_iff]
  cases (between.channelIndex? c).bind fun index => first.toList[index]? with
  | none => simp [except_throw_ne_ok]
  | some found => simp [pure, Except.pure]

theorem exists_composeChannels (hfirst : compatible source first between) (hsecond : compatible between second target) :
    ∃ channels, composeChannels first second between = .ok channels := by
  cases first with
  | none => exact ⟨second, by cases second <;> rfl⟩
  | some first =>
    cases second with
    | none => exact ⟨some first, rfl⟩
    | some second =>
      obtain ⟨-, hlength⟩ := compatible_some.mp hfirst
      obtain ⟨hvalid, -⟩ := compatible_some.mp hsecond
      obtain ⟨chars, hchars⟩ := exists_forall₂ fun c hc => exists_names (Nat.le_of_eq hlength.symm) (hvalid c hc)
      exact ⟨_, composeChannels_some_iff.mpr ⟨chars, rfl, hchars⟩⟩

theorem compatible_composeChannels (hfirst : compatible source first between)
    (hsecond : compatible between second target) (h : composeChannels first second between = .ok channels) :
    compatible source channels target := by
  cases first with
  | none =>
    obtain rfl := compatible_none.mp hfirst
    cases second <;> obtain rfl := Except.ok.inj h <;> exact hsecond
  | some first =>
    cases second with
    | none =>
      obtain rfl := Except.ok.inj h
      obtain rfl := compatible_none.mp hsecond
      exact hfirst
    | some second =>
      obtain ⟨chars, rfl, hchars⟩ := composeChannels_some_iff.mp h
      obtain ⟨hvalid, -⟩ := compatible_some.mp hfirst
      obtain ⟨-, hlength⟩ := compatible_some.mp hsecond
      refine compatible_some.mpr ⟨?_, by rw [String.toList_ofList, ← hlength, hchars.length_eq]⟩
      intro channel hchannel
      rw [String.toList_ofList] at hchannel
      obtain ⟨c, -, index, -, hfound⟩ := exists_of_forall₂ hchars hchannel
      exact hvalid _ (List.mem_of_getElem? hfound)

/-- Reading through composed channels and then through others is reading through the first ones, and then through what
the others compose to. -/
theorem composeChannels_assoc {third composed : Option String} {next : DataType}
    (hnext : second = none → between = next) (h : composeChannels first second between = .ok composed) :
    composeChannels composed third next = .ok channels ↔
      ∃ rest, composeChannels second third next = .ok rest ∧ composeChannels first rest between = .ok channels := by
  cases first with
  | none =>
    have hleft : ∀ rest, composeChannels none rest between = .ok rest := fun rest => by cases rest <;> rfl
    obtain rfl := Except.ok.inj ((hleft second).symm.trans h)
    simp [hleft]
  | some first =>
    cases third with
    | none =>
      have hright : ∀ a type, composeChannels a none type = .ok a := fun a _ => by cases a <;> rfl
      simp [hright, h]
    | some third =>
      cases second with
      | none =>
        obtain rfl := hnext rfl
        obtain rfl := Except.ok.inj h
        simp [composeChannels]
      | some second =>
        obtain ⟨chars, rfl, hchars⟩ := composeChannels_some_iff.mp h
        simp only [composeChannels_some_iff, String.toList_ofList, forall₂_names hchars]
        constructor
        · rintro ⟨picked, rfl, rest, hrest, hpicked⟩
          refine ⟨_, ⟨rest, rfl, hrest⟩, composeChannels_some_iff.mpr ⟨picked, rfl, ?_⟩⟩
          rwa [String.toList_ofList]
        · rintro ⟨_, ⟨rest, rfl, hrest⟩, hcompose⟩
          obtain ⟨picked, rfl, hpicked⟩ := composeChannels_some_iff.mp hcompose
          rw [String.toList_ofList] at hpicked
          exact ⟨picked, rfl, rest, hrest, hpicked⟩

/-! ## Swizzled values -/

section
variable {v w : Value}

theorem Value.pick_eq_ok {type : DataType} {components : List Single} {c : Char} {x : Single} :
    Value.pick type components c = .ok x ↔ Names type components c x := by
  rw [names_iff, Value.pick]
  cases (type.channelIndex? c).bind fun index => components[index]? with
  | none => simp
  | some found => simp

theorem Value.mapM_pick_eq_ok {type : DataType} {channels : List Char} {components picked : List Single} :
    channels.mapM (Value.pick type components) = .ok picked ↔ List.Forall₂ (Names type components) channels picked :=
  except_mapM_eq_ok_iff.trans (forall₂_congr fun _ _ => Value.pick_eq_ok)

theorem Value.swizzle_eq_ok_iff {channels : String} : v.swizzle channels target = .ok w ↔
    ∃ components picked, v.components? = some components ∧
      List.Forall₂ (Names v.type components) channels.toList picked ∧ Value.assemble? target picked = some w := by
  unfold Value.swizzle
  cases v.components? with
  | none => simp [except_throw_ne_ok]
  | some components =>
    simp only [except_bind_eq_ok, Value.mapM_pick_eq_ok, Option.some.injEq, exists_and_left, exists_eq_left']
    refine exists_congr fun picked => and_congr_right fun _ => ?_
    cases Value.assemble? target picked with
    | none => simp [except_throw_ne_ok]
    | some value => simp [pure, Except.pure]

theorem Value.of_assemble? {type : DataType} {components : List Single} {v : Value}
    (h : Value.assemble? type components = some v) : v.components? = some components ∧ v.type = type := by
  have hof : Value.ofComponents? type components = some v → v.components? = some components ∧ v.type = type := by
    intro h
    unfold Value.ofComponents? at h
    split at h
    · split at h
      · cases h
        exact ⟨by simp [Value.components?, Vector.toList], rfl⟩
      · cases h
    · cases h
  unfold Value.assemble? at h
  split at h
  · cases h
    exact ⟨rfl, rfl⟩
  · exact hof h

theorem Value.swizzle_eq_ok {channels : String} (h : v.swizzle channels target = .ok w) :
    w.type = target ∧ ∃ components picked, v.components? = some components ∧ w.components? = some picked ∧
      List.Forall₂ (Names v.type components) channels.toList picked := by
  obtain ⟨components, picked, hcomponents, hpicked, hassemble⟩ := Value.swizzle_eq_ok_iff.mp h
  obtain ⟨hw, htype⟩ := Value.of_assemble? hassemble
  exact ⟨htype, components, picked, hcomponents, hw, hpicked⟩

theorem Value.eq_of_components {components : List Single} (htype : v.type = w.type)
    (hv : v.components? = some components) (hw : w.components? = some components) : v = w := by
  have heq := hv.trans hw.symm
  cases v with
  | float x =>
    cases w with
    | float y => simpa [Value.components?] using heq
    | _ => cases htype
  | tuple shape xs =>
    cases w with
    | tuple shape' ys =>
      obtain rfl : shape = shape' := DataType.tuple.inj htype
      rw [Vector.toList_inj.mp (Option.some.inj heq)]
    | _ => cases htype
  | floatArray xs =>
    cases w with
    | floatArray ys => simpa [Value.components?] using heq
    | _ => cases htype
  | _ => cases hv

theorem Value.swizzle_swizzle {a b : String} {u : Value} (h : v.swizzle a between = .ok w) :
    w.swizzle b target = .ok u ↔
      ∃ c, composeChannels (some a) (some b) between = .ok (some c) ∧ v.swizzle c target = .ok u := by
  obtain ⟨rfl, components, picked, hv, hw, hpicked⟩ := Value.swizzle_eq_ok h
  simp only [Value.swizzle_eq_ok_iff, composeChannels_some_iff, hv, hw, Option.some.injEq, exists_and_left,
    exists_eq_left', forall₂_names hpicked]
  constructor
  · rintro ⟨xs, ⟨composed, hcomposed, hxs⟩, hu⟩
    exact ⟨String.ofList composed, ⟨composed, rfl, hcomposed⟩, xs, by rwa [String.toList_ofList], hu⟩
  · rintro ⟨_, ⟨composed, rfl, hcomposed⟩, xs, hxs, hu⟩
    rw [String.toList_ofList] at hxs
    exact ⟨xs, ⟨composed, hcomposed, hxs⟩, hu⟩

variable {value received : Option Value}

theorem type_of_literalFor (h : literalFor value channels target = .ok received) {v : Value} (hv : received = some v) :
    v.type = target := by
  subst hv
  cases value with
  | none => cases h
  | some w =>
    cases channels with
    | none =>
      simp only [literalFor] at h
      split at h
      · cases h
        assumption
      · cases h
    | some channels =>
      obtain ⟨x, hx, heq⟩ := except_map_eq_ok.mp h
      obtain rfl := Option.some.inj heq
      exact (Value.swizzle_eq_ok hx).1

end

/-- **Channels compose.** Swizzling a value twice succeeds exactly if the channels compose and swizzling once through
the composed ones succeeds, with the same result. For channels from type to type, absent ones included, composing
succeeds and is associative, and what it gives are channels from the first type to the last one. -/
theorem channels_compose :
    (∀ (v w : Value) (first second : String) (between target : DataType), v.swizzle first between = .ok w →
      ∀ u, w.swizzle second target = .ok u ↔
        ∃ composed, composeChannels (some first) (some second) between = .ok (some composed) ∧
          v.swizzle composed target = .ok u) ∧
    ∀ (source between next target : DataType) (first second third : Option String),
      compatible source first between → compatible between second next → compatible next third target →
      ∃ front back all, composeChannels first second between = .ok front ∧
        composeChannels second third next = .ok back ∧
        composeChannels front third next = .ok all ∧ composeChannels first back between = .ok all ∧
        compatible source all target := by
  refine ⟨fun v w first second between target h u => Value.swizzle_swizzle h, ?_⟩
  intro source between next target first second third hfirst hsecond hthird
  obtain ⟨front, hfront⟩ := exists_composeChannels hfirst hsecond
  have hfits := compatible_composeChannels hfirst hsecond hfront
  obtain ⟨all, hall⟩ := exists_composeChannels hfits hthird
  have hnext : second = none → between = next := fun hnone => compatible_none.mp (hnone ▸ hsecond)
  obtain ⟨back, hback, hall'⟩ := (composeChannels_assoc hnext hfront).mp hall
  exact ⟨front, back, all, hfront, hback, hall, hall', compatible_composeChannels hfits hthird hall⟩

/-- Two components of a vector as a colour, the second one of which answers to two letters. -/
theorem channels_compose_color2 : ∃ w u,
    Value.swizzle (.tuple .vector4 #v[Value.one, Value.one, .zero false, .zero true]) "yw" (.tuple .color2) = .ok w ∧
    w.swizzle "gra" (.tuple .vector3) = .ok u ∧
    (∃ composed, composeChannels (some "yw") (some "gra") (.tuple .color2) = .ok (some composed) ∧
      Value.swizzle (.tuple .vector4 #v[Value.one, Value.one, .zero false, .zero true]) composed (.tuple .vector3)
        = .ok u) ∧
    ∃ front back all, composeChannels (some "yw") (some "gra") (.tuple .color2) = .ok front ∧
      composeChannels (some "gra") (some "zx") (.tuple .vector3) = .ok back ∧
      composeChannels front (some "zx") (.tuple .vector3) = .ok all ∧
      composeChannels (some "yw") back (.tuple .color2) = .ok all ∧
      compatible (.tuple .vector4) all (.tuple .color2) := by
  have hw : Value.swizzle (.tuple .vector4 #v[Value.one, Value.one, .zero false, .zero true]) "yw" (.tuple .color2) =
      .ok (.tuple .color2 #v[Value.one, .zero true]) := by rfl
  have hu : Value.swizzle (.tuple .color2 #v[Value.one, .zero true]) "gra" (.tuple .vector3) =
      .ok (.tuple .vector3 #v[.zero true, Value.one, .zero true]) := by rfl
  refine ⟨_, _, hw, hu, (channels_compose.1 _ _ _ _ _ _ hw _).mp hu, ?_⟩
  exact channels_compose.2 _ _ _ _ _ _ _ (by decide) (by decide) (by decide)

end ShadeGraph
