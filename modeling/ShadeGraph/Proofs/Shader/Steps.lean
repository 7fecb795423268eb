import ShadeGraph.Proofs.Code.Layered
import ShadeGraph.Proofs.Graph.Scoping
import ShadeGraph.Shader.Generate

/-!
# What the code of a graph is made of

The code of a node is made of lines and of blocks in braces, one after the other. Each line reads some variables, calls
some functions and declares some variables. A property of steps that keeps track of these and that putting steps
together keeps is a property of the code of all nodes, with the variables of its outputs declared; a blur that samples a
texture also declares variables of its own, named after its output. So it is one of the code of whole graphs, too.
-/

namespace ShadeGraph

open Code

/-! ## What nodes declare -/

namespace Output

def declaration (o : Output) : Declaration := ⟨o.variableName, none⟩

def coordinateName (o : Output) : String := o.variableName ++ "_texcoord"

def sampleName (o : Output) (k : Nat) : String := o.variableName ++ "_sample" ++ toString k

/-- The variables for the arrays of all samples and of their weights. -/
def samplesName (o : Output) : String := o.variableName ++ "_samples"

def weightsName (o : Output) : String := o.variableName ++ "_weights"

/-- The variables of its own that a blur with some output declares when it samples a texture. -/
def helpers (o : Output) : List Declaration :=
  ⟨o.coordinateName, none⟩ :: ((List.range 9).map (fun k => ⟨o.sampleName k, none⟩) ++
    [⟨o.samplesName, some 9⟩, ⟨o.weightsName, some 9⟩])

end Output

namespace Node

/-- The input that a node passes on as it is. -/
def copied? (n : Node) : Option Input :=
  match n.implementation with
  | .procedural .constant => n.input? "value"
  | .procedural .dot => n.input? "in"
  | _ => none

/-- The declaration of an output. An array that is passed on has the length of the literal value, or none. -/
def declaration (n : Node) (o : Output) : Declaration :=
  match n.copied? with
  | some i => ⟨o.variableName, if o.type.isArray then some ((i.value.bind Value.arrayLength?).getD 0) else none⟩
  | none => o.declaration

theorem declaration_of_copied? {n : Node} (h : n.copied? = none) : n.declaration = Output.declaration := by
  funext o
  simp [declaration, h]

end Node

namespace Surroundings

/-- The variables of its own that a node declares: those of a blur that samples a texture. -/
def helpers (e : Surroundings) (n : Node) : List Declaration :=
  match n.implementation, n.outputs, n.input? "in" with
  | .procedural .blur, [output], some input => if (e.sampled? input output.type).isSome then output.helpers else []
  | _, _, _ => []

/-- The variables that a node declares: its own, and those of its outputs. -/
def declarations (e : Surroundings) (n : Node) : List Declaration := e.helpers n ++ n.outputs.map n.declaration

variable {e : Surroundings} {n : Node}

theorem helpers_of_not_blur (hn : n.implementation ≠ .procedural .blur) : e.helpers n = [] := by
  unfold helpers
  split
  · rename_i h _ _
    exact absurd h hn
  · rfl

theorem outputs_of_onlyOutput {l : Language} {o : Output} (h : n.onlyOutput l = .ok o) : n.outputs = [o] := by
  unfold Node.onlyOutput at h
  split at h
  · rename_i output heq
    rw [heq, Except.ok.inj h]
  · simp at h
  · simp at h

end Surroundings

/-- The nodes whose code stands directly in the body of a function: those that an output needs and that no branch of a
conditional is for. -/
def Graph.body (g : Graph) : List Node :=
  match g.reachable with
  | .ok ids => g.nodes.filter fun n => ids.contains n.id && n.scope.isTopLevel
  | .error _ => []

def Surroundings.bodyDeclarations (e : Surroundings) : List Declaration := e.graph.body.flatMap e.declarations

/-- The function that an implementation stands for in the code, unless it is an expression. -/
def Implementation.function? : Implementation → Option String
  | .source code => if code.isInline then none else some code.function
  | .compound _ function _ => some function
  | .procedural (.template t) => t.function
  | .procedural _ => none

/-! ## Tokens -/

/-- A token of an expression that reads only some variables and calls only some functions. -/
def Token.Within (V F : String → Prop) : Token → Prop
  | .reads x => V x
  | .calls f => F f
  | .text _ | .writes _ => True
  | _ => False

/-- A token of an expression or of a declaration. -/
def Token.InLine (V F : String → Prop) : Token → Prop
  | .declares _ => True
  | t => t.Within V F

instance (V F : String → Prop) : Token.Textual (Token.Within V F) := ⟨fun _ => trivial⟩

instance (V F : String → Prop) : Token.Neutral (Token.InLine V F) :=
  ⟨fun _ => trivial, fun _ => trivial, fun _ => trivial⟩

namespace Code

variable {V W F : String → Prop} {code : Code}

theorem Every.mono {P Q : Token → Prop} (h : Every P code) (hPQ : ∀ t, P t → Q t) : Every Q code :=
  fun t ht => hPQ t (h t ht)

theorem Every.inLine (h : Every (Token.Within V F) code) : Every (Token.InLine V F) code :=
  h.mono fun t ht => by cases t <;> trivial

theorem Every.inert (h : Every (Token.Within V F) code) : Every Token.IsInert code :=
  h.mono fun t ht => by cases t <;> trivial

theorem Every.within (h : Every (Token.Within V F) code) (hV : ∀ x, V x → W x) : Every (Token.Within W F) code :=
  h.mono fun t ht => by
    cases t with
    | reads x => exact hV x ht
    | _ => exact ht

end Code

/-! ## Steps -/

/-- A property of steps that keeps track of variables: of those that a step may read and of those that it declares.
Lines may call some functions, and what a block declares has some property. -/
structure Emit.Tracks (F : String → Prop) (ok : List Declaration → Prop)
    (Φ : (String → Prop) → Emit Unit → List Declaration → Prop) : Prop where
  pure : ∀ {V}, Φ V (pure ()) []
  throw : ∀ {V new} (e : Error), Φ V (throw e) new
  /-- What a step declares can be read in the next one. -/
  seq : ∀ {V m m' new new'}, Φ V m new → Φ (fun x => V x ∨ x ∈ new.map Declaration.name) m' new' →
    Φ V (m >>= fun _ => m') (new ++ new')
  /-- A step that computes and does not append. -/
  lift : ∀ {V new} {α : Type} {x : Except Error α} {f : α → Emit Unit}, (∀ a, x = .ok a → Φ V (f a) new) →
    Φ V (liftM x >>= f) new
  line : ∀ {V code new}, Every (Token.InLine V F) code → Layered (fun _ => False) code new → Φ V (Emit.line code) new
  braces : ∀ {V m new}, Φ V m new → ok new → Φ V (Emit.braces m) []
  mono : ∀ {V W m new}, (∀ x, V x → W x) → Φ V m new → Φ W m new

/-- What the code of a node may rely on: the inputs that are no branches can be read, and so can those that are
branches, behind the code of the branch; the textures that feed a blur can be sampled. -/
structure Surroundings.CanCall (F : String → Prop) (ok : List Declaration → Prop)
    (Φ : (String → Prop) → Emit Unit → List Declaration → Prop) (V : String → Prop) (e : Surroundings)
    (branch : NodeId → Nat → Emit Unit) (n : Node) : Prop where
  calls : ∀ f, n.implementation.function? = some f → F f
  inputs : ¬ n.implementation.IsConditional → ∀ i ∈ n.inputs, Readable V e.graph i
  named : ∀ i ∈ n.inputs, Node.isBranchName i.name = false → Readable V e.graph i
  branch : ∀ k i, n.inputs[k]? = some i → ∃ new, Φ V (branch n.id k) new ∧ ok new ∧
    Readable (fun x => V x ∨ x ∈ new.map Declaration.name) e.graph i
  sampled : ¬ n.implementation.IsConditional → ∀ i ∈ n.inputs, ∀ type texture function index,
    e.sampled? i type = some (texture, function, index) → F function ∧ ∀ j ∈ texture.inputs, Readable V e.graph j

namespace Emit.Tracks

variable {F V : String → Prop} {ok : List Declaration → Prop}
  {Φ : (String → Prop) → Emit Unit → List Declaration → Prop} {m m' : Emit Unit} {new : List Declaration} {α : Type}
  {e : Surroundings} {n : Node} {branch : NodeId → Nat → Emit Unit} (h : Emit.Tracks F ok Φ)
include h

theorem seq_nil (hm : Φ V m new) (hm' : Φ (fun x => V x ∨ x ∈ new.map Declaration.name) m' []) :
    Φ V (m >>= fun _ => m') new := by
  have hseq := h.seq hm hm'
  rwa [List.append_nil] at hseq

theorem andThen (hm : Φ V m []) (hm' : Φ V m' new) : Φ V (m >>= fun _ => m') new :=
  h.seq hm (h.mono (fun _ hx => Or.inl hx) hm')

/-- A loop: each step may read what the steps before have declared. -/
theorem forM {f : α → Emit Unit} {outs : α → List Declaration} (l : List α) : ∀ V,
    (∀ before a after, l = before ++ a :: after →
      Φ (fun x => V x ∨ ∃ b ∈ before, x ∈ (outs b).map Declaration.name) (f a) (outs a)) →
    Φ V (l.forM f) (l.flatMap outs) := by
  induction l with
  | nil => exact fun V _ => h.pure
  | cons a l ih =>
    intro V hl
    rw [List.flatMap_cons]
    refine h.seq (h.mono (fun x hx => by simpa using hx) (hl [] a l rfl)) (ih _ fun before b after heq => ?_)
    refine h.mono (fun x hx => ?_) (hl (a :: before) b after (by rw [heq]; rfl))
    simpa [or_assoc] using hx

theorem forM_nil {f : α → Emit Unit} {l : List α} (hl : ∀ a ∈ l, Φ V (f a) []) : Φ V (l.forM f) [] := by
  have hloop : Φ V (l.forM f) (l.flatMap fun _ => []) := h.forM l V fun before a after heq =>
    h.mono (fun _ hx => Or.inl hx) (hl a (by rw [heq]; simp))
  rwa [List.flatMap_eq_nil_iff.mpr fun _ _ => rfl] at hloop

theorem expression {code : Code} (hcode : Every (Token.Within V F) code) : Φ V (Emit.line code) [] :=
  h.line hcode.inLine (.of_inert hcode.inert)

theorem statement {code : Code} (hcode : Every (Token.Within V F) code) : Φ V (Emit.statement code) [] :=
  h.expression (hcode.append (every_plain ";"))

section
variable {l : Language} {type : DataType} {name : String} {length : Option Nat} {declaration : Code}

theorem declare (hdeclare : l.declare type name length = .ok declaration) :
    Φ V (Emit.statement declaration) [⟨name, length⟩] :=
  h.line ((Language.every_declare hdeclare).append (every_plain ";"))
    (Language.announces_declare hdeclare _ ";" [] [] rfl .nil)

theorem define (hdeclare : l.declare type name length = .ok declaration) {value : Code}
    (hvalue : Every (Token.Within V F) value) : Φ V (Emit.statement (declaration.assign value)) [⟨name, length⟩] :=
  h.line ((every_assign (Language.every_declare hdeclare) hvalue.inLine).append (every_plain ";"))
    (((Language.announces_declare hdeclare).layered hvalue.inert).andInert (every_plain ";"))

theorem defineDefault {o : Output} (hdeclare : l.declareDefault o = .ok declaration) :
    Φ V (Emit.statement declaration) [o.declaration] := by
  obtain ⟨_, hdeclare, hdefault⟩ := except_bind_eq_ok.mp hdeclare
  obtain ⟨value, -, hdefault⟩ := except_bind_eq_ok.mp hdefault
  exact Except.ok.inj hdefault ▸ h.define hdeclare (every_plain _)

theorem defineArray {elements : List Code} (hdeclare : l.declareArray type name elements = .ok declaration)
    (helements : ∀ c ∈ elements, Every (Token.Within V F) c) :
    Φ V (Emit.statement declaration) [⟨name, some elements.length⟩] := by
  obtain ⟨typeName, -, harray⟩ := except_bind_eq_ok.mp hdeclare
  obtain ⟨_, hname, harray⟩ := except_bind_eq_ok.mp harray
  obtain rfl := Except.ok.inj harray
  refine h.define hname ?_
  split
  · exact ((every_join ", " elements helements).append (every_nil.text _)).text _
  · exact every_apply (Token.Textual.text _) helements
  · exact every_apply (Token.Textual.text _) helements

end

/-! ## Nodes without branches -/

theorem invoke {function : String} (hcalls : F function) {arguments : List Code}
    (harguments : ∀ a ∈ arguments, Every (Token.Within V F) a) (outputs : List Output) :
    Φ V (e.invoke function arguments outputs) (outputs.map Output.declaration) := by
  unfold Surroundings.invoke
  split
  · split
    · exact h.lift fun declaration hdeclaration => h.define hdeclaration (every_apply hcalls harguments)
    · exact h.throw _
  · refine h.seq_nil ?_ (h.statement (every_apply hcalls fun a ha => ?_))
    · rw [List.map_eq_flatMap]
      exact h.forM outputs V fun before o after _ => h.lift fun declaration hdeclaration => h.declare hdeclaration
    · rcases List.mem_append.mp ha with ha | ha
      · exact (harguments a ha).within fun _ hx => Or.inl hx
      · obtain ⟨o, -, rfl⟩ := List.mem_map.mp ha
        exact every_nil.cons trivial

section
variable (hinputs : ∀ i ∈ n.inputs, Readable V e.graph i)
include hinputs

theorem callSource {code : SourceCode} (hcalls : code.isInline = false → F code.function) :
    Φ V (e.callSource n code) (n.outputs.map Output.declaration) := by
  unfold Surroundings.callSource
  split
  · refine h.lift fun output houtput => h.lift fun value hvalue => h.lift fun declaration hdeclaration => ?_
    rw [Surroundings.outputs_of_onlyOutput houtput]
    exact h.define hdeclaration (Surroundings.every_fillTemplate hinputs hvalue)
  · rename_i hinline
    exact h.lift fun arguments harguments =>
      h.invoke (hcalls (by simpa using hinline)) (Surroundings.every_values hinputs harguments) _

theorem callCompound {function : String} (hcalls : F function) :
    Φ V (e.callCompound n function) (n.outputs.map Output.declaration) :=
  h.lift fun _ harguments => h.invoke hcalls (Surroundings.every_values hinputs harguments) _

theorem callCopy {name : String} (hn : n.copied? = n.input? name) :
    Φ V (e.callCopy n name) (n.outputs.map n.declaration) := by
  refine h.lift fun output houtput => h.lift fun input hinput => h.lift fun value hvalue =>
    h.lift fun declaration hdeclaration => ?_
  rw [Surroundings.outputs_of_onlyOutput houtput, List.map_singleton, Node.declaration, hn,
    Surroundings.needInput_eq_ok_iff.mp hinput]
  exact h.define hdeclaration (Surroundings.every_value (hinputs input (Surroundings.mem_of_needInput hinput).1) hvalue)

theorem callTemplate (t : Template) : Φ V (e.callTemplate n t) (n.outputs.map Output.declaration) := by
  refine h.lift fun value hvalue => ?_
  have hvalue : Every (Token.Within V F) value := Surroundings.every_fillTemplate hinputs hvalue
  rw [List.map_eq_flatMap]
  exact h.forM n.outputs V fun before o after _ => h.lift fun declaration hdeclaration =>
    h.define hdeclaration (hvalue.within fun _ hx => Or.inl hx)

end

/-! ## Blur -/

theorem blurSamples {function : String} (hcalls : F function) (output : Output) (index : Nat) (form : TypeForm)
    {arguments : List Code} {size u v : Code} (harguments : ∀ a ∈ arguments, Every (Token.Within V F) a)
    (hsize : Every (Token.Within V F) size) (hu : Every (Token.Within V F) u) (hv : Every (Token.Within V F) v)
    (offsets : List (Single × Single)) : ∀ W k {rest : List String → Emit Unit}, (∀ x, V x → W x) →
    Φ (fun x => W x ∨ x ∈ (List.range' k offsets.length).map output.sampleName)
      (rest ((List.range' k offsets.length).map output.sampleName)) new →
    Φ W (e.blurSamples output function arguments index size u v form k offsets >>= rest)
      ((List.range' k offsets.length).map (fun k => ⟨output.sampleName k, none⟩) ++ new) := by
  -- The induction is on the offsets, with the number of the first sample growing.
  induction offsets with
  | nil => exact fun W k rest _ hrest => h.mono (by simp) hrest
  | cons offset offsets ih =>
    intro W k rest hV hrest
    obtain ⟨du, dv⟩ := offset
    simp only [Surroundings.blurSamples, bind_assoc, pure_bind]
    refine h.lift fun coordinate hcoordinate => ?_
    have hcoordinate : Every (Token.Within V F) coordinate := by
      refine TypeForm.every_compose ?_ hcoordinate
      intro p hp
      simp only [List.mem_cons, List.not_mem_nil, or_false] at hp
      rcases hp with rfl | rfl
      · exact hu.append (hsize.text _)
      · exact hv.append (hsize.text _)
    have hset : ∀ a ∈ arguments.set index coordinate, Every (Token.Within W F) a := by
      intro a ha
      rcases List.mem_or_eq_of_mem_set ha with ha | rfl
      · exact (harguments a ha).within hV
      · exact hcoordinate.within hV
    rw [List.length_cons, List.range'_succ] at hrest ⊢
    change Φ W _ ([Output.declaration { output with variableName := output.sampleName k }] ++ (_ ++ new))
    refine h.seq (h.invoke hcalls hset [_]) (ih _ (k + 1) (fun x hx => Or.inl (hV x hx)) (h.mono ?_ hrest))
    intro x hx
    simpa [or_assoc, Output.declaration] using hx

theorem callBlur (hn : n.implementation = .procedural .blur) (hinputs : ∀ i ∈ n.inputs, Readable V e.graph i)
    (hsampled : ∀ i ∈ n.inputs, ∀ type texture function index, e.sampled? i type = some (texture, function, index) →
      F function ∧ ∀ j ∈ texture.inputs, Readable V e.graph j) : Φ V (e.callBlur n) (e.declarations n) := by
  refine h.lift fun output houtput => h.lift fun input hinput => ?_
  have houtputs := Surroundings.outputs_of_onlyOutput houtput
  have hmem := (Surroundings.mem_of_needInput hinput).1
  have hdeclarations : e.declarations n =
      (if (e.sampled? input output.type).isSome then output.helpers else []) ++ [output.declaration] := by
    have hcopied : n.copied? = none := by simp [Node.copied?, hn]
    simp [Surroundings.declarations, Surroundings.helpers, Node.declaration_of_copied? hcopied, hn, houtputs,
      Surroundings.needInput_eq_ok_iff.mp hinput]
  rw [hdeclarations]
  cases hcase : e.sampled? input output.type with
  | none =>
    exact h.lift fun value hvalue => h.lift fun declaration hdeclaration =>
      h.define hdeclaration (Surroundings.every_value (hinputs input hmem) hvalue)
  | some sampler =>
    obtain ⟨texture, function, index⟩ := sampler
    obtain ⟨hcalls, htexture⟩ := hsampled input hmem _ _ _ _ hcase
    refine h.lift fun filter _ => h.lift fun size hsize => h.lift fun arguments harguments =>
      h.lift fun declaration hdeclaration => ?_
    have hsize : Every (Token.Within V F) size := Surroundings.every_valueOf (fun i hi _ => hinputs i hi) hsize
    have harguments : ∀ a ∈ arguments, Every (Token.Within V F) a := Surroundings.every_values htexture harguments
    have hcoordinate : Every (Token.Within V F) ((arguments[index]?).getD []) := by
      cases hindex : arguments[index]? with
      | none => exact every_nil
      | some a => exact harguments a (List.mem_of_getElem? hindex)
    have hhelpers : output.helpers ++ [output.declaration] = [⟨output.coordinateName, none⟩] ++
        ((List.range' 0 9).map (fun k => ⟨output.sampleName k, none⟩) ++
          ([⟨output.samplesName, some 9⟩] ++ ([⟨output.weightsName, some 9⟩] ++ [output.declaration]))) := by
      simp [Output.helpers, List.range_eq_range']
    rw [Option.isSome_some, if_pos rfl, hhelpers]
    refine h.seq (h.define hdeclaration hcoordinate) ?_
    refine h.lift fun u hu => h.lift fun v hv => h.lift fun form _ => ?_
    have hread : Every (Token.Within (fun x => V x ∨ x ∈ [output.coordinateName]) F) [.reads output.coordinateName] :=
      every_nil.cons (Or.inr (List.mem_singleton_self _))
    refine h.blurSamples hcalls output index form (fun a ha => (harguments a ha).within fun _ hx => Or.inl hx)
      (hsize.within fun _ hx => Or.inl hx) (Dialect.every_swizzle hread hu) (Dialect.every_swizzle hread hv)
      Surroundings.blurOffsets _ 0 (fun _ hx => hx) ?_
    refine h.lift fun samplesArray hsamples => h.seq (h.defineArray hsamples fun c hc => ?_) ?_
    · obtain ⟨x, hx, rfl⟩ := List.mem_map.mp hc
      exact every_nil.cons (Or.inr hx)
    refine h.lift fun weightsArray hweights => h.seq ?_ ?_
    · have hlength : (Surroundings.blurWeights (filter.value.bind fun v => v.asText.toOption)).length = 9 := by
        unfold Surroundings.blurWeights
        split <;> rfl
      rw [← hlength, ← List.length_map fun w => plain (e.format.format w)]
      refine h.defineArray hweights fun c hc => ?_
      obtain ⟨w, -, rfl⟩ := List.mem_map.mp hc
      exact every_plain _
    refine h.lift fun declaration hdeclaration => h.define hdeclaration (every_join " + " _ fun c hc => ?_)
    obtain ⟨k, -, rfl⟩ := List.mem_map.mp hc
    have hmem (x : String) : x ∈ [x] := List.mem_singleton_self x
    exact (((every_nil.text _).cons (Or.inr (hmem _))).text _).cons (Or.inl (Or.inr (hmem _)))

/-! ## Conditionals -/

section
variable (hn : e.CanCall F ok Φ V branch n)
include hn

theorem branchBlock (output : Output) (index : Nat) : Φ V (e.branchBlock branch n output index) [] := by
  unfold Surroundings.branchBlock
  split
  · exact h.throw _
  · rename_i input hinput
    obtain ⟨new, hbranch, hok, hread⟩ := hn.branch index input hinput
    refine h.braces (h.seq_nil hbranch (h.lift fun value hvalue => h.statement ?_)) hok
    exact every_assign (every_nil.cons trivial) (Surroundings.every_value hread hvalue)

omit h in
theorem within_valueOf {name : String} (hname : Node.isBranchName name = false) {value : Code}
    (hvalue : e.valueOf n name = .ok value) : Every (Token.Within V F) value :=
  Surroundings.every_valueOf (fun i hi heq => hn.named i hi (heq ▸ hname)) hvalue

theorem callCompare (c : Comparison) : Φ V (e.callCompare branch n c) (n.outputs.map Output.declaration) := by
  refine h.lift fun output houtput => h.lift fun value1 hvalue1 => h.lift fun value2 hvalue2 =>
    h.lift fun in1 _ => h.lift fun in2 _ => h.lift fun declaration hdeclaration => ?_
  rw [Surroundings.outputs_of_onlyOutput houtput]
  have hvalue1 := within_valueOf hn (by decide) hvalue1
  have hvalue2 := within_valueOf hn (by decide) hvalue2
  refine h.seq_nil (h.defineDefault hdeclaration) (h.mono (fun _ hx => Or.inl hx) ?_)
  refine h.andThen (h.expression ((hvalue1.append ((hvalue2.append (every_plain _)).text _)).text _)) ?_
  refine h.andThen (h.branchBlock hn output in1) (h.andThen (h.expression (every_plain _)) ?_)
  exact h.branchBlock hn output in2

omit h hn in
theorem every_switchHead {P : Token → Prop} [Token.Textual P] {f : FloatFormat} {which head : Code}
    {count position : Nat} (hwhich : Every P which) (hhead : Surroundings.switchHead f which count position = some head) :
    Every P head := by
  unfold Surroundings.switchHead at hhead
  dsimp only at hhead
  split at hhead
  · split at hhead
    · exact Option.some.inj hhead ▸ every_plain _
    · simp at hhead
  · split at hhead
    · exact Option.some.inj hhead ▸ (hwhich.append (every_plain _)).text _
    · exact Option.some.inj hhead ▸ (hwhich.append (every_plain _)).text _

theorem callSwitch : Φ V (e.callSwitch branch n) (n.outputs.map Output.declaration) := by
  refine h.lift fun output houtput => h.lift fun which hwhich => h.lift fun declaration hdeclaration => ?_
  rw [Surroundings.outputs_of_onlyOutput houtput]
  refine h.seq_nil (h.defineDefault hdeclaration) (h.mono (fun _ hx => Or.inl hx) (h.forM_nil ?_))
  rintro ⟨index, position⟩ _
  dsimp only
  split
  · rename_i head hhead
    exact h.andThen (h.expression (every_switchHead (within_valueOf hn (by decide) hwhich) hhead))
      (h.branchBlock hn output index)
  · exact h.branchBlock hn output index

/-! ## Nodes -/

/-- **The code of a node**, with what it declares. -/
theorem callNode : Φ V (e.callNode branch n) (e.declarations n) := by
  have hcopy (hblur : n.implementation ≠ .procedural .blur) {m : Emit Unit}
      (hm : Φ V m (n.outputs.map n.declaration)) : Φ V m (e.declarations n) := by
    rwa [Surroundings.declarations, Surroundings.helpers_of_not_blur hblur]
  have hplain (hblur : n.implementation ≠ .procedural .blur) (hcopied : n.copied? = none) {m : Emit Unit}
      (hm : Φ V m (n.outputs.map Output.declaration)) : Φ V m (e.declarations n) :=
    hcopy hblur (by rwa [Node.declaration_of_copied? hcopied])
  unfold Surroundings.callNode
  split
  · rename_i code heq
    refine hplain (by simp [heq]) (by simp [Node.copied?, heq]) (h.callSource ?_ fun hinline => hn.calls _ ?_)
    · exact hn.inputs (by simp [heq, Implementation.IsConditional])
    · simp [heq, Implementation.function?, hinline]
  · rename_i name function graph heq
    refine hplain (by simp [heq]) (by simp [Node.copied?, heq]) (h.callCompound ?_ (hn.calls _ ?_))
    · exact hn.inputs (by simp [heq, Implementation.IsConditional])
    · simp [heq, Implementation.function?]
  · rename_i heq
    refine hcopy (by simp [heq]) (h.callCopy ?_ (by simp [Node.copied?, heq]))
    exact hn.inputs (by simp [heq, Implementation.IsConditional])
  · rename_i heq
    refine hcopy (by simp [heq]) (h.callCopy ?_ (by simp [Node.copied?, heq]))
    exact hn.inputs (by simp [heq, Implementation.IsConditional])
  · rename_i c heq
    exact hplain (by simp [heq]) (by simp [Node.copied?, heq]) (h.callCompare hn c)
  · rename_i heq
    exact hplain (by simp [heq]) (by simp [Node.copied?, heq]) (h.callSwitch hn)
  · rename_i heq
    exact h.callBlur heq (hn.inputs (by simp [heq, Implementation.IsConditional]))
      (hn.sampled (by simp [heq, Implementation.IsConditional]))
  · rename_i t heq
    refine hplain (by simp [heq]) (by simp [Node.copied?, heq]) (h.callTemplate ?_ t)
    exact hn.inputs (by simp [heq, Implementation.IsConditional])

end
end Emit.Tracks

namespace Surroundings

variable {F : String → Prop} {ok : List Declaration → Prop}
  {Φ : (String → Prop) → Emit Unit → List Declaration → Prop} {e : Surroundings} {n : Node}
  {branch : NodeId → Nat → Emit Unit}

theorem readable_of_forall {V : String → Prop} (hV : ∀ x, V x) (g : Graph) (i : Input) : Readable V g i :=
  ⟨fun _ _ _ _ => hV _, fun _ => hV _⟩

theorem CanCall.of_branches (hbranch : ∀ k, ∃ new, Φ (fun _ => True) (branch n.id k) new ∧ ok new)
    (hcalls : ∀ f, n.implementation.function? = some f → F f)
    (hsampled : ∀ i ∈ n.inputs, ∀ type texture function index,
      e.sampled? i type = some (texture, function, index) → F function) :
    e.CanCall F ok Φ (fun _ => True) branch n := by
  have hreadable := readable_of_forall (V := fun _ => True) (fun _ => trivial) e.graph
  refine ⟨hcalls, fun _ i _ => hreadable i, fun i _ _ => hreadable i, ?_, ?_⟩
  · intro k i _
    obtain ⟨new, hnew, hok⟩ := hbranch k
    exact ⟨new, hnew, hok, readable_of_forall (fun _ => Or.inl trivial) e.graph i⟩
  · intro _ i hi type texture function index heq
    exact ⟨hsampled i hi type texture function index heq, fun j _ => hreadable j⟩

end Surroundings

namespace Emit.Tracks

variable {F V : String → Prop} {ok : List Declaration → Prop}
  {Φ : (String → Prop) → Emit Unit → List Declaration → Prop} {new : List Declaration} {e : Surroundings}
  (h : Emit.Tracks F ok Φ)
include h

/-! ## Graphs where all variables may be read -/

section
variable {U : Node → Prop} (hok : ∀ c k, ok ((Surroundings.branchNodes e.graph c k).flatMap e.declarations))
  (hinside : ∀ n, U n → ∀ k, ∀ m ∈ Surroundings.branchNodes e.graph n.id k, U m)
  (hcalls : ∀ n, U n → ∀ f, n.implementation.function? = some f → F f)
  (hsampled : ∀ n, U n → ∀ i ∈ n.inputs, ∀ type texture function index,
    e.sampled? i type = some (texture, function, index) → F function)
include hok hinside hcalls hsampled

 /-- The code of a node whose functions may be called, and so may those of the nodes in its branches. -/
theorem emitNode (depth : Nat) : ∀ n, U n → Φ (fun _ => True) (e.emitNode depth n) (e.declarations n) := by
  -- The induction is on how many conditionals may stand inside of each other.
  induction depth with
  | zero => exact fun _ _ => h.throw _
  | succ depth ih =>
    intro n hn
    refine h.callNode (.of_branches (fun k => ⟨_, h.forM _ _ fun before m after heq => ?_, hok n.id k⟩) (hcalls n hn)
      (hsampled n hn))
    refine h.mono (fun _ _ => Or.inl trivial) (ih m (hinside n hn k m ?_))
    rw [heq]
    simp

theorem callAll (hbody : ∀ n ∈ e.graph.body, U n) : Φ (fun _ => True) e.callAll e.bodyDeclarations := by
  refine h.lift fun ids hids => ?_
  rw [Surroundings.bodyDeclarations, Graph.body, hids]
  refine h.forM _ _ fun before n after heq => ?_
  refine h.mono (fun _ _ => Or.inl trivial) (h.emitNode hok hinside hcalls hsampled _ n (hbody n ?_))
  rw [Graph.body, hids]
  dsimp only
  rw [heq]
  simp

end

/-! ## Bodies -/

section
variable (hcalls : Φ V e.callAll new)
include hcalls

theorem assigned (hroots : ∀ s ∈ e.graph.outputSockets, ∀ source output, s.source = some source →
      e.graph.output? source = some output → V output.variableName ∨ output.variableName ∈ new.map Declaration.name) :
    Φ V (do e.callAll; e.graph.outputSockets.forM (assignSocket e)) new := by
  refine h.seq_nil hcalls (h.forM_nil fun s hs => h.lift fun value hvalue => h.statement ?_)
  exact every_assign (every_nil.cons trivial) (Surroundings.every_unpublished (hroots s hs) hvalue)

theorem returned {result : Input} (hroot : ∀ source output, result.source = some source →
      e.graph.output? source = some output → V output.variableName ∨ output.variableName ∈ new.map Declaration.name) :
    Φ V (do e.callAll; let value ← e.unpublished result; Emit.statement (.text "return " :: value)) new :=
  h.seq_nil hcalls (h.lift fun _ hvalue => h.statement ((Surroundings.every_unpublished hroot hvalue).text _))

end
end Emit.Tracks
end ShadeGraph
