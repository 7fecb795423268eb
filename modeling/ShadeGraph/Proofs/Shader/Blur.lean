import Mathlib.Algebra.BigOperators.Ring.List
import Mathlib.Algebra.Field.Rat
import Mathlib.Algebra.Ring.Prod
import Mathlib.Tactic.NormNum
import ShadeGraph.Proofs.Shader.Call
import ShadeGraph.Proofs.Shader.Statement
import ShadeGraph.Proofs.Text.Fresh

/-!
# What a blur computes

The code of a blur is read as statements and run. Without a texture to sample, its output is the value of its input.
Otherwise the call of the texture is repeated at nine coordinates, and the output is the weighted sum of the results.
The samples are those of the texture itself: unlike the value of any other input, they do not pass through the channels
of the input, so that a blur of a texture with reversed channels has the colours of the texture.
-/

namespace ShadeGraph

open Code

/-! ## Parts -/

namespace Output

theorem sampleName_injective (o : Output) : Function.Injective o.sampleName := fun _ _ h =>
  Text.toString_injective ((String.append_right_inj _).mp h)

theorem coordinateName_ne_sampleName (o : Output) (k : Nat) : o.coordinateName ≠ o.sampleName k := by
  intro h
  rw [coordinateName, sampleName, String.append_assoc] at h
  have htail := congrArg String.toList ((String.append_right_inj _).mp h)
  simp at htail

theorem samplesName_ne_weightsName (o : Output) : o.samplesName ≠ o.weightsName := by
  intro h
  have htail := (String.append_right_inj _).mp h
  simp at htail

end Output

/-- A token that reads no other variables than these. -/
def Token.ReadsAmong (R : String → Prop) : Token → Prop
  | .reads x => R x
  | _ => True

instance (R : String → Prop) : Token.Neutral (Token.ReadsAmong R) :=
  ⟨fun _ => trivial, fun _ => trivial, fun _ => trivial⟩

theorem every_readsAmong_iff {R : String → Prop} {code : Code} :
    Every (Token.ReadsAmong R) code ↔ ∀ x, .reads x ∈ code → R x := by
  constructor
  · exact fun h x hx => h _ hx
  · intro h t ht
    cases t with
    | reads x => exact h x ht
    | _ => trivial

/-- The coordinate of a sample, given the components of the coordinate around which a blur samples. -/
def Surroundings.coordinateAt (e : Surroundings) (form : TypeForm) (size u v : Code) (offset : Single × Single) :
    Except Error Code :=
  form.compose [u ++ .text (" + " ++ e.format.format offset.1 ++ " * ") :: size,
    v ++ .text (" + " ++ e.format.format offset.2 ++ " * ") :: size] false

/-- A blur that samples the texture that feeds it, with what its code is made of. -/
structure Sampling (e : Surroundings) (n : Node) (input : Input) (output : Output) where
  texture : Node
  function : String
  /-- The position of the coordinate among the arguments. -/
  index : Nat
  /-- The output of the texture. -/
  source : Output
  arguments : List Code
  filter : Input
  size : Code
  /-- The components of the coordinate around which the texture is sampled. -/
  u : Code
  v : Code
  form : TypeForm
  coordinates : List Code
  sampled : e.sampled? input output.type = some (texture, function, index)
  outputs : texture.outputs = [source]
  arguments_eq : e.values texture = .ok arguments
  filter_eq : n.input? "filtertype" = some filter
  size_eq : e.valueOf n "size" = .ok size
  u_eq : e.dialect.swizzle [.reads output.coordinateName] (.tuple .vector2) "x" .float = .ok u
  v_eq : e.dialect.swizzle [.reads output.coordinateName] (.tuple .vector2) "y" .float = .ok v
  form_eq : e.dialect.form (.tuple .vector2) = .ok form
  coordinates_eq : Surroundings.blurOffsets.mapM (e.coordinateAt form size u v) = .ok coordinates

/-- The calls that sample a texture at coordinates. -/
def sampleCalls (output : Output) (function : String) (arguments : List Code) (index : Nat) :
    Nat → List Code → List Statement
  | _, [] => []
  | k, c :: rest => .call { output with variableName := output.sampleName k } function (arguments.set index c) ::
      sampleCalls output function arguments index (k + 1) rest

namespace Sampling

variable {e : Surroundings} {n : Node} {input : Input} {output : Output}

def weights (b : Sampling e n input output) : List Code :=
  (Surroundings.blurWeights (b.filter.value.bind fun v => v.asText.toOption)).map fun w => plain (e.format.format w)

theorem length_coordinates (b : Sampling e n input output) : b.coordinates.length = b.weights.length := by
  rw [← (except_mapM_eq_ok_iff.mp b.coordinates_eq).length_eq, weights, List.length_map, Surroundings.blurWeights]
  split <;> simp [Surroundings.blurOffsets]

theorem coordinates_read (b : Sampling e n input output) :
    ∀ c ∈ b.coordinates, ∀ x, .reads x ∈ c → x = output.coordinateName ∨ .reads x ∈ b.size := by
  intro c hc
  rw [← every_readsAmong_iff]
  have hread : Every (Token.ReadsAmong fun x => x = output.coordinateName ∨ .reads x ∈ b.size)
      [.reads output.coordinateName] := every_nil.cons (Or.inl rfl)
  have hsize : Every (Token.ReadsAmong fun x => x = output.coordinateName ∨ .reads x ∈ b.size) b.size :=
    every_readsAmong_iff.mpr fun _ hx => Or.inr hx
  obtain ⟨offset, -, hcoordinate⟩ := except_mapM_mem b.coordinates_eq c hc
  refine TypeForm.every_compose ?_ hcoordinate
  intro p hp
  simp only [List.mem_cons, List.not_mem_nil, or_false] at hp
  rcases hp with rfl | rfl
  · exact (Dialect.every_swizzle hread b.u_eq).append (hsize.text _)
  · exact (Dialect.every_swizzle hread b.v_eq).append (hsize.text _)

def program (b : Sampling e n input output) : List Statement :=
  .define (.tuple .vector2) output.coordinateName ((b.arguments[b.index]?).getD []) ::
    (sampleCalls output b.function b.arguments b.index 0 b.coordinates ++
      [.array output.type output.samplesName
          ((List.range b.coordinates.length).map fun k => [.reads (output.sampleName k)]),
        .array .float output.weightsName b.weights,
        .products output.type output.variableName output.samplesName output.weightsName b.coordinates.length])

end Sampling

/-! ## The code of a blur -/

namespace Surroundings

variable {e : Surroundings} {n : Node} {input : Input} {output : Output} {s s' : Stage}

theorem blurSamples_eq_ok {function : String} {arguments : List Code} {index : Nat} {size u v : Code} {form : TypeForm}
    (offsets : List (Single × Single)) : ∀ k s names s',
    e.blurSamples output function arguments index size u v form k offsets s = .ok names s' → ∃ coordinates,
      offsets.mapM (e.coordinateAt form size u v) = .ok coordinates ∧
      names = (List.range' k coordinates.length).map output.sampleName ∧
      (sampleCalls output function arguments index k coordinates).forM (Statement.emit e) s = .ok () s' := by
  -- The induction is on the offsets, with the number of the first sample growing.
  induction offsets with
  | nil =>
    intro k s names s' h
    obtain ⟨rfl, rfl⟩ := state_pure_eq_ok.mp h
    exact ⟨[], rfl, rfl, rfl⟩
  | cons offset rest ih =>
    intro k s names s' h
    obtain ⟨coordinate, hcoordinate, h⟩ := state_lift_bind_eq_ok.mp h
    obtain ⟨_, s₁, hinvoke, h⟩ := state_bind_eq_ok.mp h
    obtain ⟨more, s₂, hrest, hpure⟩ := state_bind_eq_ok.mp h
    obtain ⟨rfl, rfl⟩ := state_pure_eq_ok.mp hpure
    obtain ⟨coordinates, hcoordinates, rfl, hcalls⟩ := ih (k + 1) s₁ more _ hrest
    refine ⟨coordinate :: coordinates, ?_, ?_, state_bind_eq_ok.mpr ⟨(), s₁, hinvoke, hcalls⟩⟩
    · exact except_mapM_eq_ok_cons.mpr ⟨coordinate, coordinates, rfl, hcoordinate, hcoordinates⟩
    · rw [List.length_cons, List.range'_succ, List.map_cons]
      rfl

theorem sampler?_eq_some {texture : Node} {type : DataType} {function : String} {index : Nat}
    (h : sampler? texture type = some (function, index)) : ∃ code source,
      texture.implementation = .source code ∧ code.isInline = false ∧ code.function = function ∧
      texture.outputs = [source] ∧ source.type = type := by
  unfold sampler? at h
  split at h
  · rename_i code _ source himplementation _ houtputs
    obtain ⟨hcondition, heq⟩ := Option.ite_none_right_eq_some.mp h
    simp only [Bool.and_eq_true, Bool.not_eq_true', beq_iff_eq] at hcondition
    exact ⟨code, source, himplementation, hcondition.1.1.2, (Prod.mk.inj (Option.some.inj heq)).1, houtputs,
      hcondition.1.2⟩
  · cases h

theorem sampled?_eq_some {texture : Node} {type : DataType} {function : String} {index : Nat}
    (h : e.sampled? input type = some (texture, function, index)) : ∃ id,
      input.sourceNode? = some id ∧ e.graph.node? id = some texture ∧
      sampler? texture type = some (function, index) := by
  obtain ⟨id, hid, h⟩ := Option.bind_eq_some_iff.mp h
  obtain ⟨m, hm, h⟩ := Option.bind_eq_some_iff.mp h
  obtain ⟨⟨f, k⟩, hsampler, heq⟩ := Option.bind_eq_some_iff.mp h
  obtain ⟨rfl, rfl, rfl⟩ : m = texture ∧ f = function ∧ k = index := by simpa using heq
  exact ⟨id, hid, hm, hsampler⟩

/-- What the code of a blur is: the input as it is, or the statements of a sampling. -/
theorem callBlur_eq_ok (h : e.callBlur n s = .ok () s') : ∃ output input,
    n.outputs = [output] ∧ n.input? "in" = some input ∧
      ((e.sampled? input output.type = none ∧ ∃ value, e.value input = .ok value ∧
          Statement.emit e (.define output.type output.variableName value) s = .ok () s') ∨
        ∃ b : Sampling e n input output, b.program.forM (Statement.emit e) s = .ok () s') := by
  obtain ⟨output, houtput, h⟩ := state_lift_bind_eq_ok.mp h
  obtain ⟨input, hinput, h⟩ := state_lift_bind_eq_ok.mp h
  refine ⟨output, input, outputs_of_onlyOutput houtput, needInput_eq_ok_iff.mp hinput, ?_⟩
  cases hsampled : e.sampled? input output.type with
  | none =>
    simp only [hsampled] at h
    obtain ⟨value, hvalue, h⟩ := state_lift_bind_eq_ok.mp h
    exact Or.inl ⟨rfl, value, hvalue, h⟩
  | some sampler =>
    obtain ⟨texture, function, index⟩ := sampler
    simp only [hsampled] at h
    obtain ⟨_, -, -, hsampler⟩ := sampled?_eq_some hsampled
    obtain ⟨_, source, -, -, -, hsource, -⟩ := sampler?_eq_some hsampler
    obtain ⟨filter, hfilter, h⟩ := state_lift_bind_eq_ok.mp h
    obtain ⟨size, hsize, h⟩ := state_lift_bind_eq_ok.mp h
    obtain ⟨arguments, harguments, h⟩ := state_lift_bind_eq_ok.mp h
    obtain ⟨_, s₁, hdefine, h⟩ := state_bind_assoc_eq_ok.mp h
    obtain ⟨u, hu, h⟩ := state_lift_bind_eq_ok.mp h
    obtain ⟨v, hv, h⟩ := state_lift_bind_eq_ok.mp h
    obtain ⟨form, hform, h⟩ := state_lift_bind_eq_ok.mp h
    obtain ⟨names, s₂, hsamples, h⟩ := state_bind_eq_ok.mp h
    obtain ⟨coordinates, hcoordinates, rfl, hcalls⟩ := blurSamples_eq_ok _ _ _ _ _ hsamples
    rw [← List.range_eq_range', List.map_map, List.length_map, List.length_range] at h
    obtain ⟨_, s₃, hsamplesArray, h⟩ := state_bind_assoc_eq_ok.mp h
    obtain ⟨_, s₄, hweightsArray, hsum⟩ := state_bind_assoc_eq_ok.mp h
    let b : Sampling e n input output :=
      { texture, function, index, source, arguments, filter, size, u, v, form, coordinates
        sampled := hsampled
        outputs := hsource
        arguments_eq := harguments
        filter_eq := needInput_eq_ok_iff.mp hfilter
        size_eq := hsize
        u_eq := hu
        v_eq := hv
        form_eq := hform
        coordinates_eq := hcoordinates }
    refine Or.inr ⟨b, state_bind_eq_ok.mpr ⟨(), s₁, hdefine, state_forM_append hcalls ?_⟩⟩
    refine state_bind_eq_ok.mpr ⟨(), s₃, hsamplesArray, state_bind_eq_ok.mpr ⟨(), s₄, hweightsArray, ?_⟩⟩
    exact state_bind_eq_ok.mpr ⟨(), s', hsum, rfl⟩

end Surroundings

namespace Sampling

variable {e : Surroundings} {n : Node} {input : Input} {output : Output}

theorem call_texture (b : Sampling e n input output) :
    e.call b.texture = Statement.emit e (.call b.source b.function b.arguments) := by
  obtain ⟨_, -, -, hsampler⟩ := Surroundings.sampled?_eq_some b.sampled
  obtain ⟨code, _, himplementation, hinline, hfunction, -, -⟩ := Surroundings.sampler?_eq_some hsampler
  rw [Surroundings.call, Surroundings.emitNode, Surroundings.callNode, himplementation]
  simp only [Surroundings.callSource, hinline, Bool.false_eq_true, if_false, b.arguments_eq, hfunction, b.outputs]
  rfl

theorem value_eq (b : Sampling e n input output) {value : Code} (hvalue : e.value input = .ok value)
    (hchannels : input.channels = none) : value = [.reads b.source.variableName] := by
  obtain ⟨id, hid, hnode, -⟩ := Surroundings.sampled?_eq_some b.sampled
  obtain ⟨index, hsource⟩ := Graph.sourceNode?_eq_some.mp hid
  rw [Surroundings.value, Input.isConnected, hsource, Option.isSome_some, Bool.true_or, if_pos rfl,
    Surroundings.unpublished, hsource] at hvalue
  simp only [Graph.output?, PinRef.ofNode, hnode, Option.bind_some, b.outputs, hchannels] at hvalue
  split at hvalue
  · cases hvalue
  · rename_i o ho
    obtain rfl := List.mem_singleton.mp (List.mem_of_getElem? ho)
    exact (Except.ok.inj hvalue).symm

end Sampling

/-! ## What the statements compute -/

variable {V : Type} [Semiring V] {e : Surroundings} {n : Node} {input : Input} {output : Output}

theorem run_sampleCalls (m : Code.Meaning V) (function : String) {arguments : List Code} (index : Nat)
    {values : String → V} (harguments : ∀ a ∈ arguments, ∀ x, .reads x ∈ a → ∀ k, x ≠ output.sampleName k)
    (coordinates : List Code) (hcoordinates : ∀ c ∈ coordinates, ∀ x, .reads x ∈ c → ∀ k, x ≠ output.sampleName k) :
    ∀ (k : Nat) (σ : Store V), (∀ x, (∀ k, x ≠ output.sampleName k) → σ.value x = values x) →
      ((List.range' k coordinates.length).map fun j =>
          (m.run σ (sampleCalls output function arguments index k coordinates)).value (output.sampleName j)) =
        (coordinates.map fun c => m.function function
          ((arguments.map fun a => m.expression a values).set index (m.expression c values))) ∧
      ∀ j < k, m.run σ (sampleCalls output function arguments index k coordinates) (output.sampleName j) =
        σ (output.sampleName j) := by
  -- The induction is on the coordinates. The variables of the samples are new, so that what the calls read is the same
  -- at each of them, and that no sample is written over by a later one.
  induction coordinates with
  | nil => exact fun k σ _ => ⟨rfl, fun _ _ => rfl⟩
  | cons c rest ih =>
    intro k σ hσ
    have hexpression (code : Code) (hcode : ∀ x, .reads x ∈ code → ∀ k, x ≠ output.sampleName k) :
        m.expression code σ.value = m.expression code values :=
      m.expression_congr _ _ _ fun x hx => hσ x (hcode x hx)
    have hvalue : m.function function ((arguments.set index c).map fun a => m.expression a σ.value) =
        m.function function ((arguments.map fun a => m.expression a values).set index (m.expression c values)) := by
      rw [List.map_set, hexpression c (hcoordinates c List.mem_cons_self),
        List.map_congr_left fun a ha => hexpression a (harguments a ha)]
    rw [sampleCalls, Code.Meaning.run_cons, Code.Meaning.step, hvalue]
    obtain ⟨hsamples, hframe⟩ := ih (fun c hc => hcoordinates c (List.mem_cons_of_mem _ hc)) (k + 1)
      (Function.update σ (output.sampleName k) [m.function function
        ((arguments.map fun a => m.expression a values).set index (m.expression c values))]) (by
        intro x hx
        rw [Store.value_update, Function.update_of_ne (hx k)]
        exact hσ x hx)
    refine ⟨?_, fun j hj => ?_⟩
    · rw [List.length_cons, List.range'_succ, List.map_cons, List.map_cons, hsamples]
      congr 1
      rw [Store.value, hframe k (Nat.lt_succ_self k)]
      simp
    · rw [hframe j (Nat.lt_succ_of_lt hj)]
      exact Function.update_of_ne (fun h => (Nat.ne_of_lt hj) (output.sampleName_injective h)) _ _

namespace Sampling

/-- Neither the texture nor the size reads a variable that the blur declares for its samples. -/
def Fresh (b : Sampling e n input output) : Prop :=
  ∀ code ∈ b.size :: b.arguments, ∀ x, .reads x ∈ code → x ≠ output.coordinateName ∧ ∀ k, x ≠ output.sampleName k

/-- What the texture computes from given values of its arguments with another coordinate. -/
def sample (b : Sampling e n input output) (m : Code.Meaning V) (σ : Store V) (coordinate : V) : V :=
  m.function b.function ((b.arguments.map fun a => m.expression a σ.value).set b.index coordinate)

/-- The coordinates at which a texture is sampled. -/
def places (b : Sampling e n input output) (m : Code.Meaning V) (σ : Store V) : List V :=
  b.coordinates.map fun c => m.expression c
    (Function.update σ.value output.coordinateName (m.expression ((b.arguments[b.index]?).getD []) σ.value))

def factors (b : Sampling e n input output) (m : Code.Meaning V) (σ : Store V) : List V :=
  b.weights.map fun w => m.expression w σ.value

theorem run_samples (b : Sampling e n input output) (hfresh : b.Fresh) (m : Code.Meaning V) (σ : Store V) :
    ((List.range b.coordinates.length).map fun k =>
      (m.run (m.step σ (.define (.tuple .vector2) output.coordinateName ((b.arguments[b.index]?).getD [])))
        (sampleCalls output b.function b.arguments b.index 0 b.coordinates)).value (output.sampleName k)) =
      (b.places m σ).map (b.sample m σ) := by
  rw [Code.Meaning.step]
  let σ₁ : Store V :=
    Function.update σ output.coordinateName [m.expression ((b.arguments[b.index]?).getD []) σ.value]
  have hvalues : σ₁.value = Function.update σ.value output.coordinateName
      (m.expression ((b.arguments[b.index]?).getD []) σ.value) := Store.value_update _ _ _
  have hargument : ∀ a ∈ b.arguments, m.expression a σ₁.value = m.expression a σ.value := by
    intro a ha
    refine m.expression_congr _ _ _ fun x hx => ?_
    rw [hvalues, Function.update_of_ne (hfresh a (List.mem_cons_of_mem _ ha) x hx).1]
  have hcoordinates : ∀ c ∈ b.coordinates, ∀ x, .reads x ∈ c → ∀ k, x ≠ output.sampleName k := by
    intro c hc x hx k
    rcases b.coordinates_read c hc x hx with rfl | hsize
    · exact output.coordinateName_ne_sampleName k
    · exact (hfresh b.size List.mem_cons_self x hsize).2 k
  obtain ⟨hsamples, -⟩ := run_sampleCalls m b.function b.index
    (fun a ha x hx => (hfresh a (List.mem_cons_of_mem _ ha) x hx).2) b.coordinates hcoordinates 0 σ₁ fun x _ => rfl
  rw [← List.range_eq_range', List.map_congr_left hargument, hvalues] at hsamples
  rw [places, List.map_map]
  exact hsamples

omit [Semiring V] in
theorem expression_weight (b : Sampling e n input output) (m : Code.Meaning V) (values values' : String → V) :
    ∀ w ∈ b.weights, m.expression w values = m.expression w values' := by
  intro w hw
  obtain ⟨weight, -, rfl⟩ := List.mem_map.mp hw
  exact m.expression_plain _ _ _

theorem run_program (b : Sampling e n input output) (hfresh : b.Fresh) (m : Code.Meaning V) (σ : Store V) :
    (m.run σ b.program).value output.variableName =
      (List.zipWith (· * ·) ((b.places m σ).map (b.sample m σ)) (b.factors m σ)).sum := by
  have hlength : ((List.range b.coordinates.length).map fun k => [Token.reads (output.sampleName k)]).length =
      b.weights.length := by
    rw [List.length_map, List.length_range, b.length_coordinates]
  have hsum := m.run_sum (m.run (m.step σ (.define (.tuple .vector2) output.coordinateName
    ((b.arguments[b.index]?).getD []))) (sampleCalls output b.function b.arguments b.index 0 b.coordinates))
    output.type output.variableName output.samplesName_ne_weightsName hlength
    fun w hw values => b.expression_weight m values σ.value w hw
  rw [List.length_map, List.length_range, List.map_map] at hsum
  simp only [Function.comp_def, m.expression_reads] at hsum
  rw [b.run_samples hfresh] at hsum
  rw [program, Code.Meaning.run_cons, Code.Meaning.run_append]
  exact hsum

/-- The texture computes the same at every coordinate. -/
def Constant (b : Sampling e n input output) (m : Code.Meaning V) : Prop :=
  ∀ arguments coordinate, m.function b.function (arguments.set b.index coordinate) = m.function b.function arguments

/-- The output of the texture holds what its code computes. -/
def Computed (b : Sampling e n input output) (m : Code.Meaning V) (σ : Store V) : Prop :=
  σ.value b.source.variableName = m.function b.function (b.arguments.map fun a => m.expression a σ.value)

theorem run_constant (b : Sampling e n input output) (hfresh : b.Fresh) {m : Code.Meaning V} {σ : Store V}
    (hconstant : b.Constant m) (hcomputed : b.Computed m σ) (hsum : (b.factors m σ).sum = 1) :
    (m.run σ b.program).value output.variableName = σ.value b.source.variableName := by
  have hsample : ∀ c ∈ b.places m σ, b.sample m σ c = σ.value b.source.variableName := fun c _ =>
    (hconstant _ c).trans hcomputed.symm
  have hlength : (b.places m σ).length = (b.factors m σ).length := by
    rw [places, factors, List.length_map, List.length_map, b.length_coordinates]
  rw [b.run_program hfresh, List.map_congr_left hsample, List.map_const', hlength, ← List.map_const',
    List.zipWith_map_left, List.zipWith_self, List.sum_map_mul_left, List.map_id', hsum, mul_one]

end Sampling

namespace Surroundings

/-- **A blur sums samples of the texture itself.** Where no texture can be sampled, the output is the value of the
input. Elsewhere it is the weighted sum of what the call of the texture computes at other coordinates, whatever the
channels of the input are. So the blur of a constant texture is the output of the texture, and this is the value of the
input if that has no channels. -/
theorem blur_sums_samples {e : Surroundings} {n : Node} {s s' : Stage} (hn : n.implementation = .procedural .blur)
    (h : e.call n s = .ok () s') : ∃ output input program,
      n.outputs = [output] ∧ n.input? "in" = some input ∧ program.forM (Statement.emit e) s = .ok () s' ∧
      ((e.sampled? input output.type = none ∧ ∃ value, e.value input = .ok value ∧
          ∀ (V : Type) [Semiring V] (m : Code.Meaning V) (σ : Store V),
            (m.run σ program).value output.variableName = m.expression value σ.value) ∨
        ∃ b : Sampling e n input output,
          e.call b.texture = Statement.emit e (.call b.source b.function b.arguments) ∧
          (∀ value, e.value input = .ok value → input.channels = none → value = [.reads b.source.variableName]) ∧
          (b.Fresh → ∀ (V : Type) [Semiring V] (m : Code.Meaning V) (σ : Store V),
            (m.run σ program).value output.variableName =
              (List.zipWith (· * ·) ((b.places m σ).map (b.sample m σ)) (b.factors m σ)).sum ∧
            (b.Constant m → b.Computed m σ → (b.factors m σ).sum = 1 →
              (m.run σ program).value output.variableName = σ.value b.source.variableName ∧
              (input.channels = none → ∀ value, e.value input = .ok value →
                (m.run σ program).value output.variableName = m.expression value σ.value)))) := by
  rw [call, emitNode, callNode, hn] at h
  obtain ⟨output, input, houtput, hinput, hcode⟩ := callBlur_eq_ok h
  rcases hcode with ⟨hsampled, value, hvalue, hemit⟩ | ⟨b, hemit⟩
  · refine ⟨output, input, [.define output.type output.variableName value], houtput, hinput, ?_,
      Or.inl ⟨hsampled, value, hvalue, fun V _ m σ => ?_⟩⟩
    · exact state_bind_eq_ok.mpr ⟨(), s', hemit, rfl⟩
    · simp [Code.Meaning.step, Store.value_update]
  · refine ⟨output, input, b.program, houtput, hinput, hemit, Or.inr ⟨b, b.call_texture, fun _ => b.value_eq, ?_⟩⟩
    refine fun hfresh V _ m σ => ⟨b.run_program hfresh m σ, fun hconstant hcomputed hsum => ?_⟩
    have hrun := b.run_constant hfresh hconstant hcomputed hsum
    refine ⟨hrun, fun hchannels value hvalue => ?_⟩
    rw [hrun, b.value_eq hvalue hchannels, m.expression_reads]

def wall : Node :=
  { Node.make ⟨1⟩ "wall" "image" "ND_image_color3"
      (.source { name := "IM_image_color3", function := "image_color3", text := "", isInline := false })
      .fileTexture with
    inputs := [{ name := "file", type := .filename, value := some (.filename "wall.png") },
      { name := "texcoord", type := .tuple .vector2 }]
    outputs := [{ name := "out", type := .tuple .color3, variableName := "wall_out" }] }

/-- The texture with its channels in reverse order, as a blur reads it. -/
def reversed : Input :=
  { name := "in", type := .tuple .color3, source := some (.ofNode ⟨1⟩ 0), channels := some "bgr" }

def soft : Node :=
  { Node.make ⟨2⟩ "soft" "blur" "ND_blur_color3" (.procedural .blur) .texture with
    inputs := [reversed, { name := "size", type := .float },
      { name := "filtertype", type := .string, value := some (.string "gaussian") }]
    outputs := [{ name := "out", type := .tuple .color3, variableName := "soft_out" }] }

def softWall : Surroundings :=
  { language := .osl
    format := {}
    graph := { name := "g", nodedef := none, traits := .texture, nodes := [wall, soft], inputSockets := [],
               outputSockets := [] } }

/-- Colours by their components, where numbers are greys. Every texture is red. -/
def redTextures : Code.Meaning (ℚ × ℚ × ℚ) where
  expression code values :=
    match code with
    | [.reads x] => values x
    | [.text "0.0625"] => (1 / 16, 1 / 16, 1 / 16)
    | [.text "0.125"] => (1 / 8, 1 / 8, 1 / 8)
    | [.text "0.25"] => (1 / 4, 1 / 4, 1 / 4)
    | [.text "color", .text "(", .reads x, .text "[2]", .text ", ", .reads y, .text "[1]", .text ", ", .reads z,
        .text "[0]", .text ")"] => ((values x).2.2, (values y).2.1, (values z).1)
    | _ => 0
  function _ _ := (1, 0, 0)
  expression_reads _ _ := rfl
  expression_congr code values values' h := by
    split <;> simp_all

/-- A red texture that is read with its channels in reverse order is blue, and its blur is red. -/
theorem blur_of_reversed_red : soft.implementation = .procedural .blur ∧ ∃ s' program,
    softWall.call soft {} = .ok () s' ∧ program.forM (Statement.emit softWall) {} = .ok () s' ∧
    ∃ value, softWall.value reversed = .ok value ∧
      ∀ σ : Store (ℚ × ℚ × ℚ), σ.value "wall_out" = (1, 0, 0) →
        redTextures.expression value σ.value = (0, 0, 1) ∧
        (redTextures.run σ program).value "soft_out" = (1, 0, 0) := by
  obtain ⟨s', hcall⟩ : ∃ s', softWall.call soft {} = .ok () s' := by decide +kernel
  refine ⟨rfl, ?_⟩
  obtain ⟨output, input, program, houtput, hinput, hemit, hcases⟩ := blur_sums_samples (n := soft) rfl hcall
  obtain rfl : reversed = input := Option.some.inj hinput
  obtain rfl := (List.cons.inj houtput).1
  refine ⟨s', program, hcall, hemit, _, rfl, fun σ hσ => ?_⟩
  have hsampled : softWall.sampled? reversed (.tuple .color3) = some (wall, "image_color3", 1) := rfl
  rcases hcases with ⟨hnone, -⟩ | ⟨b, -, -, hsamples⟩
  · cases hsampled.symm.trans hnone
  · obtain ⟨htexture, -, -⟩ : b.texture = wall ∧ b.function = "image_color3" ∧ b.index = 1 := by
      simpa using b.sampled.symm.trans hsampled
    have hsource : b.source.variableName = "wall_out" := congrArg Output.variableName
      (List.cons.inj (b.outputs.symm.trans (congrArg Node.outputs htexture))).1
    have hsize : b.size = Code.plain "0.0" := Except.ok.inj (b.size_eq.symm.trans rfl)
    have harguments : b.arguments = [Code.plain "\"wall.png\"", Code.plain "vector2(0.0, 0.0)"] :=
      Except.ok.inj (b.arguments_eq.symm.trans (by rw [htexture]; rfl))
    have hfresh : b.Fresh := by
      intro code hcode x hx
      simp only [hsize, harguments, List.mem_cons, List.not_mem_nil, or_false] at hcode
      rcases hcode with rfl | rfl | rfl <;> simp [Code.plain] at hx
    have hsum : (b.factors redTextures σ).sum = 1 := by
      have hgaussian : b.weights = ["0.0625", "0.125", "0.0625", "0.125", "0.25", "0.125", "0.0625", "0.125",
          "0.0625"].map Code.plain := by
        rw [Sampling.weights, ← Option.some.inj b.filter_eq]
        decide +kernel
      rw [Sampling.factors, hgaussian]
      simp only [List.map_cons, List.map_nil, Code.plain, redTextures]
      norm_num
    refine ⟨?_, ?_⟩
    · change ((σ.value "wall_out").2.2, (σ.value "wall_out").2.1, (σ.value "wall_out").1) = _
      rw [hσ]
    · rw [← hsource] at hσ
      exact ((hsamples hfresh _ redTextures σ).2 (fun _ _ => rfl) hσ hsum).1.trans hσ

end Surroundings

/-! ## Channels -/

namespace Node

/-- The node with other channels at its inputs of some name. -/
def rechannel (n : Node) (name : String) (channels : Option String) : Node :=
  { n with inputs := n.inputs.map fun i => if i.name = name then { i with channels } else i }

theorem input?_rechannel (n : Node) (name : String) (channels : Option String) (other : String) :
    (n.rechannel name channels).input? other =
      (n.input? other).map fun i => if i.name = name then { i with channels } else i := by
  rw [input?, rechannel, List.find?_map]
  congr 2
  funext i
  dsimp only [Function.comp]
  split <;> rfl

theorem needInput_rechannel (n : Node) (name : String) (channels : Option String) :
    (n.rechannel name channels).needInput name = (n.needInput name).map fun i => { i with channels } := by
  rw [needInput, needInput, input?_rechannel]
  cases hi : n.input? name with
  | none => rfl
  | some i =>
    have hname : i.name = name := by simpa using List.find?_some hi
    rw [Option.map_some, if_pos hname]
    rfl

theorem needInput_rechannel_of_ne (n : Node) {name other : String} (channels : Option String) (hne : other ≠ name) :
    (n.rechannel name channels).needInput other = n.needInput other := by
  rw [needInput, needInput, input?_rechannel]
  cases hi : n.input? other with
  | none => rfl
  | some i =>
    have hname : i.name = other := by simpa using List.find?_some hi
    rw [Option.map_some, if_neg (hname ▸ hne)]

end Node

/-- The channels of the input have no part in the code of a blur that samples a texture. -/
theorem Surroundings.callBlur_rechannel {e : Surroundings} {n : Node} (channels : Option String)
    (h : ∀ output ∈ n.outputs, ∀ input ∈ n.input? "in", (e.sampled? input output.type).isSome) :
    e.callBlur (n.rechannel "in" channels) = e.callBlur n := by
  have houtput : (n.rechannel "in" channels).onlyOutput = n.onlyOutput := rfl
  rw [callBlur, callBlur, valueOf, valueOf, houtput, n.needInput_rechannel,
    n.needInput_rechannel_of_ne channels (by simp), n.needInput_rechannel_of_ne channels (by simp)]
  cases hout : n.onlyOutput e.language with
  | error x => rfl
  | ok output =>
    cases hin : n.needInput "in" with
    | error x => rfl
    | ok input =>
      have hmem : output ∈ n.outputs := by
        rw [outputs_of_onlyOutput hout]
        exact List.mem_singleton_self _
      obtain ⟨sampler, hsampled⟩ := Option.isSome_iff_exists.mp (h output hmem input (needInput_eq_ok_iff.mp hin))
      have hsampled' : e.sampled? { input with channels } output.type = some sampler := hsampled
      simp only [Except.map, state_lift_ok_bind, hsampled, hsampled']

end ShadeGraph
