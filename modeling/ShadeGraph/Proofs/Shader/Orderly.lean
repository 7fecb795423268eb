import ShadeGraph.Proofs.Code.Writing
import ShadeGraph.Proofs.Shader.Layout

/-!
# Writing is orderly

Every step that writes code of a graph only extends the stage, be it that it fails half way. A step that ends well has
closed the blocks that it opened and no others, so that the depth of indentation is the same as before and has never been
less. This holds for nodes with conditionals inside of each other, for bodies, functions and whole shaders.
-/

namespace ShadeGraph

open Code

instance : Token.Neutral Token.IsPlain := ⟨fun _ => trivial, fun _ => trivial, fun _ => trivial⟩

namespace Emit

/-- A step is made of actions, which are balanced if the step ends well. -/
def Orderly {α : Type} (m : Emit α) : Prop :=
  ∀ s : Stage, match m s with
    | .ok _ s' => ∃ actions, Balanced actions ∧ s.run actions = s'
    | .error _ s' => ∃ actions, s.run actions = s'

namespace Orderly

variable {α β : Type}

theorem pure (a : α) : Orderly (pure a : Emit α) := fun _ => ⟨[], .nil, rfl⟩

theorem throw (e : Error) : Orderly (throw e : Emit α) := fun _ => ⟨[], rfl⟩

theorem bind {m : Emit α} {f : α → Emit β} (hm : Orderly m) (hf : ∀ a, Orderly (f a)) : Orderly (m >>= f) := by
  intro s
  change match EStateM.bind m f s with | .ok _ s' => _ | .error _ s' => _
  have hfirst := hm s
  unfold EStateM.bind
  cases hms : m s with
  | error e s₁ =>
    rw [hms] at hfirst
    exact hfirst
  | ok a s₁ =>
    rw [hms] at hfirst
    obtain ⟨actions, hbalanced, rfl⟩ := hfirst
    have hsecond := hf a (s.run actions)
    dsimp only
    cases hfs : f a (s.run actions) with
    | error e s' =>
      rw [hfs] at hsecond
      obtain ⟨rest, hrest⟩ := hsecond
      exact ⟨actions ++ rest, by rw [Stage.run_append, hrest]⟩
    | ok b s' =>
      rw [hfs] at hsecond
      obtain ⟨rest, hbalanced', hrest⟩ := hsecond
      exact ⟨actions ++ rest, hbalanced.append hbalanced', by rw [Stage.run_append, hrest]⟩

theorem lift {x : Except Error α} {f : α → Emit β} (hf : ∀ a, x = .ok a → Orderly (f a)) :
    Orderly (liftM x >>= f) := by
  cases x with
  | error e => exact fun _ => ⟨[], rfl⟩
  | ok a => exact hf a rfl

theorem modify {f : Stage → Stage} (hf : ∀ s : Stage, ∃ actions, (∀ a ∈ actions, a.IsFlat) ∧ s.run actions = f s) :
    Orderly (modify f) := by
  intro s
  obtain ⟨actions, hflat, hrun⟩ := hf s
  exact ⟨actions, .of_flat hflat, hrun⟩

theorem get : Orderly (get : Emit Stage) := fun _ => ⟨[], .nil, rfl⟩

theorem line {code : Code} (h : Every Token.IsPlain code) : Orderly (line code) :=
  modify fun _ => ⟨[.line code], by simpa [Action.IsFlat] using h, rfl⟩

theorem emptyLine : Orderly emptyLine := modify fun _ => ⟨[.emptyLine], by simp [Action.IsFlat], rfl⟩

theorem block {mark : String → Token} (hmark : ∀ l, (mark l).IsPlain) (text : String) : Orderly (block mark text) := by
  refine modify fun s =>
    ⟨(Text.lines text).map fun l => if (Text.trim l).isEmpty then .emptyLine else .line [mark l], ?_, ?_⟩
  · intro a ha
    obtain ⟨l, -, rfl⟩ := List.mem_map.mp ha
    split
    · trivial
    · simpa [Action.IsFlat, Every] using hmark l
  · rw [Stage.run, List.foldl_map, Stage.block]
    congr 1
    funext s l
    split <;> rfl

theorem braces {m : Emit Unit} (hm : Orderly m) : Orderly (braces m) := by
  intro s
  have hbody := hm s.openBlock
  have hbraces : Emit.braces m s =
      EStateM.bind m (fun _ => MonadState.modifyGet fun s => ((), s.closeBlock false)) s.openBlock := rfl
  rw [hbraces, EStateM.bind]
  cases hms : m s.openBlock with
  | error e s₁ =>
    rw [hms] at hbody
    obtain ⟨actions, hrun⟩ := hbody
    exact ⟨.opens :: actions, hrun⟩
  | ok a s₁ =>
    rw [hms] at hbody
    obtain ⟨actions, hbalanced, rfl⟩ := hbody
    exact ⟨.opens :: (actions ++ [.closes false]), .block hbalanced .nil, Stage.run_append _ _ _⟩

theorem statement {code : Code} (h : Every Token.IsPlain code) : Orderly (statement code) :=
  line (h.append (every_plain ";"))

theorem tracks : Tracks (fun _ => True) (fun _ => True) fun _ m _ => Orderly m where
  pure := pure ()
  throw := throw
  seq hm hm' := bind hm fun _ => hm'
  lift := lift
  line hcode _ := line (hcode.mono fun t ht => by cases t <;> trivial)
  braces hm _ := braces hm
  mono _ hm := hm

theorem forM {f : α → Emit Unit} {l : List α} (h : ∀ a ∈ l, Orderly (f a)) : Orderly (l.forM f) :=
  tracks.forM_nil (V := fun _ => True) h

end Orderly

/-! ## Functions -/

section
variable (e : Surroundings)

theorem orderly_emitNode (depth : Nat) (n : Node) : Orderly (e.emitNode depth n) :=
  Orderly.tracks.emitNode (U := fun _ => True) (fun _ _ => trivial) (fun _ _ _ _ _ => trivial) (fun _ _ _ _ => trivial)
    (fun _ _ _ _ _ _ _ _ _ => trivial) depth n trivial

theorem orderly_callAll : Orderly e.callAll := .lift fun _ _ => .forM fun n _ => orderly_emitNode e _ n

theorem plain_unpublished {e : Surroundings} {i : Input} {value : Code} (h : e.unpublished i = .ok value) :
    Every Token.IsPlain value := Surroundings.every_unpublished (fun _ _ _ _ => trivial) h

theorem orderly_assigningBody : Orderly (assigningBody e) := by
  refine .braces (.bind (orderly_callAll e) fun _ => .forM fun s _ => .lift fun value hvalue => .statement ?_)
  exact every_assign (every_nil.cons trivial) (plain_unpublished hvalue)

theorem orderly_returningBody (result : Input) (wrap : Bool) : Orderly (returningBody e result wrap) := by
  unfold returningBody
  split
  · refine .bind (.line (every_plain _)) fun _ => .bind (.braces (orderly_callAll e)) fun _ => ?_
    refine .lift fun value hvalue => .statement (Every.text _ ?_)
    split
    · exact every_materialOf (plain_unpublished hvalue)
    · exact plain_unpublished hvalue
  · refine .braces (.bind (orderly_callAll e) fun _ => ?_)
    exact .lift fun value hvalue => .statement ((plain_unpublished hvalue).text _)

section
variable {parameters : List Code} {ds : List Declaration} (h : List.Forall₂ IsParameter parameters ds)
include h

theorem orderly_signature (start name : String) :
    Orderly (line (.text start :: Code.apply (.defines name) parameters)) :=
  .line (Every.text _ (every_apply trivial fun p hp => (IsParameter.neutral_of_mem h p hp).of_neutral))

theorem orderly_parameterLines : Orderly (parameterLines parameters) := by
  refine .bind (.line (every_plain "(")) fun _ => .bind (.forM fun x hx => ?_) fun _ => .line (every_plain ")")
  have hparameter := IsParameter.neutral_of_mem h x.1 (List.mem_of_getElem? (List.mk_mem_zipIdx_iff_getElem?.mp hx))
  exact .line ((hparameter.of_neutral.append (every_plain _)).text _)

end

theorem orderly_voidFunction (function : String) : Orderly (voidFunction e function) := by
  refine .lift fun inputs hinputs => .lift fun outputs houtputs => ?_
  have hparameters := List.rel_append (IsParameter.mapM (fun (s : Output) c hc => .of_declare hc) hinputs)
    (isParameter_outputs e.dialect.outputQualifier houtputs)
  exact .bind (orderly_signature hparameters _ _) fun _ => .bind (orderly_assigningBody e) fun _ => .emptyLine

theorem orderly_returningFunction (function : String) (result : Input) :
    Orderly (returningFunction e function result) := by
  refine .lift fun parameters hparameters => .lift fun typeName _ => ?_
  have hparameters := IsParameter.mapM (fun (s : Output) c hc => .of_returningParameter hc) hparameters
  exact .bind (.line (Every.text _ (every_nil.cons trivial))) fun _ => .bind (orderly_parameterLines hparameters) fun _ =>
    .bind (orderly_returningBody e result false) fun _ => .emptyLine

end

theorem orderly_isNewFunction (name : String) : Orderly (isNewFunction name) :=
  fun _ => ⟨[.function name], .flat trivial .nil, rfl⟩

theorem orderly_sourceFunction (name text : String) : Orderly (do
    if ← isNewFunction name then
      block (.sourceLine name) text
      emptyLine) := by
  refine .bind (orderly_isNewFunction name) fun isNew => ?_
  split
  · have hmark (l : String) : (Token.sourceLine name l).IsPlain := trivial
    exact .bind (.block hmark text) fun _ => .emptyLine
  · exact .pure ()

mutual

theorem orderly_defineFunctions (l : Language) (f : FloatFormat) : ∀ g : Graph, Orderly (defineFunctions l f g)
  | ⟨_, _, _, nodes, _, _⟩ => by
    rw [defineFunctions]
    exact .lift fun ids _ => orderly_defineFunctionsOf l f ids nodes

theorem orderly_defineFunctionsOf (l : Language) (f : FloatFormat) (ids : List NodeId) :
    ∀ nodes : List Node, Orderly (defineFunctionsOf l f ids nodes)
  | [] => by
    rw [defineFunctionsOf]
    exact .pure ()
  | ⟨_, _, _, _, _, _, _, implementation, _⟩ :: rest => by
    rw [defineFunctionsOf]
    split
    · exact .bind (orderly_defineFunction l f implementation) fun _ => orderly_defineFunctionsOf l f ids rest
    · exact orderly_defineFunctionsOf l f ids rest

theorem orderly_defineFunction (l : Language) (f : FloatFormat) :
    ∀ implementation : Implementation, Orderly (defineFunction l f implementation)
  | .source code => by
    rw [defineFunction]
    split
    · exact orderly_sourceFunction code.function code.text
    · exact .pure ()
  | .compound _ function graph => by
    unfold defineFunction
    refine .bind (orderly_isNewFunction function) fun isNew => ?_
    split
    · split
      · exact .lift fun result _ => .bind (orderly_defineFunctions _ f graph) fun _ =>
          orderly_returningFunction _ function result
      · exact .bind (orderly_defineFunctions l f graph) fun _ => orderly_voidFunction _ function
    · exact .pure ()
  | .procedural p => by
    unfold defineFunction
    split
    · exact orderly_sourceFunction _ _
    · exact .pure ()

end

/-! ## Layouts -/

section
variable (e : Surroundings) (o : Options) (name : String)

theorem orderly_publish (g : Graph) : Orderly (publish g) := by
  refine .lift fun ids _ => .modify fun s =>
    ⟨.ensure publicUniforms :: (published g ids).map (.uniform publicUniforms), ?_, List.foldl_map⟩
  intro a ha
  rcases List.mem_cons.mp ha with rfl | ha
  · trivial
  · obtain ⟨u, -, rfl⟩ := List.mem_map.mp ha
    trivial

theorem orderly_publicParameters : Orderly publicParameters := .bind .get fun _ => .pure _

theorem orderly_defineTypes (d : Dialect) (g : Graph) : Orderly (defineTypes d o g) := by
  unfold defineTypes
  split
  · have hmark (l : String) : (Token.text l).IsPlain := trivial
    refine .bind (.forM fun text _ => .block hmark text) fun _ => ?_
    split
    · exact .emptyLine
    · exact .pure ()
  · exact .pure ()

theorem orderly_title (d : Dialect) : Orderly (title d name) :=
  fun s => ⟨[.identifier (d.validName s.identifiers name)], .flat trivial .nil, rfl⟩

theorem orderly_declareUniforms : Orderly (declareUniforms e) := by
  refine .bind .get fun s => .lift fun lines hlines => .forM fun code hcode => .line ?_
  obtain ⟨group, hgroup, hcode⟩ := List.mem_flatten.mp hcode
  obtain ⟨b, -, hb⟩ := except_mapM_mem hlines group hgroup
  obtain ⟨⟨dss, hlisted, -⟩, -⟩ := uniformLines_cases hb
  obtain ⟨ds, -, hcode⟩ := exists_right_of_forall₂ hlisted hcode
  exact hcode.neutral.of_neutral

theorem orderly_oslShader : Orderly (oslShader e o name) := by
  refine .bind (orderly_publish e.graph) fun _ => .bind (orderly_defineTypes o e.dialect e.graph) fun _ =>
    .bind (orderly_defineFunctions e.language e.format e.graph) fun _ => .bind orderly_publicParameters fun us =>
    .lift fun inputs hinputs => .lift fun outputs houtputs => .bind (orderly_title name e.dialect) fun name => ?_
  have hparameters := List.rel_append (IsParameter.mapM (fun (u : Uniform) c hc => .of_parameter hc) hinputs)
    (isParameter_results houtputs)
  exact .bind (.line (Every.text _ (every_nil.cons trivial))) fun _ => .bind (orderly_parameterLines hparameters) fun _ =>
    orderly_assigningBody e

theorem orderly_mdlShader : Orderly (mdlShader e o name) := by
  refine .lift fun result _ => .bind (.statement (every_plain _)) fun _ => .bind .emptyLine fun _ =>
    .bind (.forM fun i _ => .statement (every_plain _)) fun _ => .bind .emptyLine fun _ => ?_
  refine .bind (orderly_publish e.graph) fun _ => .bind (orderly_defineTypes o e.dialect e.graph) fun _ =>
    .bind (orderly_defineFunctions e.language e.format e.graph) fun _ => .bind orderly_publicParameters fun us =>
    .lift fun parameters hparameters => ?_
  have hrest (typeName : String) : Orderly (do
      let name ← title e.dialect name
      line [.text ("export " ++ typeName ++ " "), .defines name]
      parameterLines parameters
      returningBody e result true) := by
    have hparameters := IsParameter.mapM (fun (u : Uniform) c hc => .of_returningParameter hc) hparameters
    exact .bind (orderly_title name e.dialect) fun name => .bind (.line (Every.text _ (every_nil.cons trivial))) fun _ =>
      .bind (orderly_parameterLines hparameters) fun _ => orderly_returningBody e result true
  split
  · exact .bind (.pure "material") hrest
  · exact .lift fun typeName _ => hrest typeName

theorem orderly_glslShader : Orderly (glslShader e o name) := by
  unfold glslShader
  split
  · exact .throw _
  · refine .bind (orderly_publish e.graph) fun _ =>
      .bind (.modify fun s => ⟨[.uniform lightData lightCount], ?_, rfl⟩) fun _ =>
      .bind (orderly_defineTypes o e.dialect e.graph) fun _ => .bind (orderly_declareUniforms e) fun _ =>
      .bind (orderly_defineFunctions e.language e.format e.graph) fun _ => .lift fun outputs houtputs => ?_
    · simp [Action.IsFlat]
    exact .bind (orderly_signature (isParameter_outputs _ houtputs) _ name) fun _ => orderly_assigningBody e

theorem orderly_shader (l : Language) (g : Graph) : Orderly (shader l o name g) := by
  unfold shader
  cases l with
  | osl => exact orderly_oslShader _ o name
  | mdl => exact orderly_mdlShader _ o name
  | glsl => exact orderly_glslShader _ o name

end

/-! ## Stages before and after -/

/-- However the step ends, the stage is extended. If it ends well, the depth is what it was, the new code has nested
blocks, and the step consists of balanced actions that never go below the depth where they start. -/
def Tidy (m : Emit Unit) : Prop :=
  ∀ s : Stage, match m s with
    | .error _ s' => s.Extends s'
    | .ok _ s' => s.Extends s' ∧ s'.depth = s.depth ∧ (∃ added, s'.code = s.code ++ added ∧ added.Nested) ∧
      ∃ actions, Balanced actions ∧ s.run actions = s' ∧ ∀ front, front <+: actions → s.depth ≤ (s.run front).depth

theorem Orderly.tidy {m : Emit Unit} (h : Orderly m) : Tidy m := by
  intro s
  have hs := h s
  cases hms : m s with
  | error e s' =>
    rw [hms] at hs
    obtain ⟨actions, rfl⟩ := hs
    exact s.extends_run actions
  | ok a s' =>
    rw [hms] at hs
    obtain ⟨actions, hbalanced, rfl⟩ := hs
    exact ⟨s.extends_run actions, hbalanced.depth_run s, hbalanced.nested_run s, actions, hbalanced, rfl,
      fun _ hfront => hbalanced.le_depth_run s hfront⟩

/-- **Writing only appends, and closes the blocks that it opens**: the code of a node, of a branch of a conditional, of
all nodes, the definitions of functions, bodies, and whole shaders. -/
theorem tidy_writing (e : Surroundings) (n : Node) (depth : Nat) (conditional : NodeId) (index : Nat) (result : Input)
    (wrap : Bool) (o : Options) (name : String) :
    Tidy (e.emitNode depth n) ∧
    Tidy (e.emitBranch (e.emitNode depth) conditional index) ∧
    Tidy e.callAll ∧
    Tidy (defineFunctions e.language e.format e.graph) ∧
    Tidy (assigningBody e) ∧
    Tidy (returningBody e result wrap) ∧
    Tidy (shader e.language o name e.graph) :=
  ⟨(orderly_emitNode e depth n).tidy, (Orderly.forM fun m _ => orderly_emitNode e depth m).tidy,
    (orderly_callAll e).tidy, (orderly_defineFunctions e.language e.format e.graph).tidy,
    (orderly_assigningBody e).tidy, (orderly_returningBody e result wrap).tidy,
    (orderly_shader o name e.language e.graph).tidy⟩

end Emit
end ShadeGraph
