import ShadeGraph.Proofs.Shader.Definitions

/-!
# The parts of a shader

The three layouts of a shader have the same parts. First come declarations, which mention no function, then the
functions of the graph, and last the function of the graph itself, under the name of the shader. In OSL and MDL the
parameters of the graph are those of the last function. In GLSL they are uniforms, declared in front of all functions.
-/

namespace ShadeGraph

open Code

/-! ## The block of public uniforms -/

namespace UniformBlock

theorem uniforms_add (b : UniformBlock) (u : Uniform) :
    (b.add u).name = b.name ∧ (b.add u).uniforms.Sublist (b.uniforms ++ [u]) ∧
      ((b.uniforms.map Uniform.variableName).Nodup → ((b.add u).uniforms.map Uniform.variableName).Nodup) ∧
      (b.uniforms ++ [u]).map Uniform.variableName ⊆ (b.add u).uniforms.map Uniform.variableName := by
  unfold add
  split
  · rename_i haccepts
    refine ⟨rfl, List.Sublist.refl _, fun hnodup => ?_, List.Subset.refl _⟩
    rw [List.map_append, List.nodup_append]
    refine ⟨hnodup, List.nodup_singleton _, fun x hx y hy heq => ?_⟩
    obtain ⟨v, hv, rfl⟩ := List.mem_map.mp hx
    have hnone := List.find?_eq_none.mp (Option.isNone_iff_eq_none.mp haccepts) v hv
    rw [List.map_singleton, List.mem_singleton] at hy
    simp [heq, hy] at hnone
  · rename_i hknown
    refine ⟨rfl, List.sublist_append_left _ _, id, ?_⟩
    rw [accepts, Option.isNone_iff_eq_none] at hknown
    obtain ⟨v, hv⟩ := Option.ne_none_iff_exists'.mp hknown
    have hname : v.variableName = u.variableName := by simpa using List.find?_some hv
    have hmem : u.variableName ∈ b.uniforms.map Uniform.variableName :=
      hname ▸ List.mem_map_of_mem (List.mem_of_find?_eq_some hv)
    simpa using hmem

theorem uniforms_foldl (us : List Uniform) : ∀ b : UniformBlock,
    (us.foldl add b).name = b.name ∧ (us.foldl add b).uniforms.Sublist (b.uniforms ++ us) ∧
      ((b.uniforms.map Uniform.variableName).Nodup → ((us.foldl add b).uniforms.map Uniform.variableName).Nodup) ∧
      (b.uniforms ++ us).map Uniform.variableName ⊆ (us.foldl add b).uniforms.map Uniform.variableName := by
  induction us with
  | nil => exact fun b => ⟨rfl, by simp, id, by simp⟩
  | cons u us ih =>
    intro b
    obtain ⟨hname, hsub, hnodup, hnames⟩ := b.uniforms_add u
    obtain ⟨hname', hsub', hnodup', hnames'⟩ := ih (b.add u)
    rw [List.foldl_cons]
    refine ⟨hname'.trans hname, hsub'.trans ?_, fun h => hnodup' (hnodup h), List.Subset.trans ?_ hnames'⟩
    · rw [List.append_cons]
      exact hsub.append_right us
    · intro x hx
      rw [List.append_cons, List.map_append, List.mem_append] at hx
      rw [List.map_append, List.mem_append]
      exact hx.imp (fun h => hnames h) id

end UniformBlock

/-- A variable that the last function for a graph reads without having declared it in its body. -/
def Graph.IsPublic (g : Graph) (x : String) : Prop :=
  (∃ s ∈ g.inputSockets, s.variableName = x) ∨
    ∃ n ∈ g.nodes, g.Feeds n.id ∧ ∃ i ∈ n.inputs, i.variableName ≠ "" ∧ i.variableName = x

/-- The declaration of a parameter: an array has the length of its default value. -/
def Uniform.declaration (u : Uniform) : Declaration := ⟨u.variableName, u.value.bind Value.arrayLength?⟩

namespace Emit

variable {g : Graph} {ids : List NodeId} {s s' : Stage} {a : Unit} {l : Language} {f : FloatFormat} {o : Options}

/-- The parameters of a graph as a block. -/
def publicBlock (g : Graph) (ids : List NodeId) : UniformBlock :=
  (published g ids).foldl UniformBlock.add { name := publicUniforms }

theorem name_publicBlock (g : Graph) (ids : List NodeId) : (publicBlock g ids).name = publicUniforms :=
  (UniformBlock.uniforms_foldl _ _).1

theorem mem_publicBlock (hids : g.reachable = .ok ids) {x : String} (h : g.IsPublic x) :
    ∃ u ∈ (publicBlock g ids).uniforms, u.variableName = x := by
  have hpublished : x ∈ (published g ids).map Uniform.variableName := by
    rcases h with ⟨socket, hsocket, rfl⟩ | ⟨n, hn, hfeeds, i, hi, hname, rfl⟩
    · exact List.mem_map.mpr ⟨ofSocket socket, List.mem_append_left _ (List.mem_map_of_mem hsocket), rfl⟩
    · refine List.mem_map.mpr ⟨ofInput i, List.mem_append_right _ (List.mem_flatMap.mpr ⟨n, ?_, ?_⟩), rfl⟩
      · exact List.mem_filter.mpr ⟨hn, List.contains_iff_mem.mpr ((Graph.mem_reachable_iff hids).mpr hfeeds)⟩
      · exact List.mem_map_of_mem (List.mem_filter.mpr ⟨hi, by simpa using hname⟩)
  exact List.mem_map.mp ((UniformBlock.uniforms_foldl _ _).2.2.2 (by simpa using hpublished))

theorem publish_eq (hs : s.blocks = []) (h : publish g s = .ok a s') :
    ∃ ids, g.reachable = .ok ids ∧ s' = { s with blocks := [publicBlock g ids] } := by
  obtain ⟨ids, s₁, hlift, hmodify⟩ := state_bind_eq_ok.mp h
  obtain ⟨hids, rfl⟩ := state_lift_eq_ok.mp hlift
  obtain rfl := state_modify_eq_ok.mp hmodify
  refine ⟨ids, hids, ?_⟩
  have hstart : s₁.ensureBlock publicUniforms = { s₁ with blocks := [{ name := publicUniforms }] } := by
    simp [Stage.ensureBlock, Stage.block?, hs]
  -- the block grows by one variable at a time, under its own name
  have hloop : ∀ (us : List Uniform) (b : UniformBlock), b.name = publicUniforms →
      us.foldl (fun s u => s.addUniform publicUniforms u) { s₁ with blocks := [b] } =
        { s₁ with blocks := [us.foldl UniformBlock.add b] } := by
    intro us
    induction us with
    | nil => exact fun b _ => rfl
    | cons u us ih =>
      intro b hname
      have hadd : Stage.addUniform { s₁ with blocks := [b] } publicUniforms u = { s₁ with blocks := [b.add u] } := by
        simp [Stage.addUniform, Stage.ensureBlock, Stage.block?, hname]
      rw [List.foldl_cons, hadd]
      exact ih _ ((b.uniforms_add u).1.trans hname)
  rw [hstart]
  exact hloop (published g ids) _ rfl

def lights : Language → List UniformBlock
  | .glsl => [{ name := lightData, uniforms := [lightCount] }]
  | .osl | .mdl => []

theorem addUniform_lights {b : UniformBlock} (hname : b.name = publicUniforms) :
    Stage.addUniform { s with blocks := [b] } lightData lightCount = { s with blocks := b :: lights .glsl } := by
  have hother : (publicUniforms == lightData) = false := by decide
  have hother' : publicUniforms ≠ lightData := by decide
  simp [Stage.addUniform, Stage.ensureBlock, Stage.block?, hname, hother, hother', UniformBlock.add,
    UniformBlock.accepts, UniformBlock.find?, lights]

/-! ## Before the functions -/

theorem listed_of_within {code : Code} (h : Every (Token.Within (fun _ => False) fun _ => False) code) :
    Listed code [] :=
  ⟨h.mono fun t ht => by cases t <;> first | exact ht.elim | trivial, .of_inert h.inert⟩

theorem emits_listed_nil_forM {α : Type} {f : α → Emit Unit} (l : List α)
    (h : ∀ a ∈ l, Emits (f a) fun _ c => Listed c []) : Emits (l.forM f) fun _ c => Listed c [] :=
  Emits.forM_of .nil (fun hc hd => hc.append hd) l h

theorem emits_defineTypes (d : Dialect) (o : Options) (g : Graph) :
    Emits (defineTypes d o g) fun _ c => Listed c [] := by
  unfold defineTypes
  split
  · refine Emits.bind (emits_listed_nil_forM _ fun text _ =>
      (emits_block Token.Textual.text text).mono fun _ _ => listed_of_within) fun _ c₁ hc₁ => ?_
    split
    · exact Emits.mono emits_emptyLine fun _ c₂ hc₂ => hc₂ ▸ hc₁.andPlain "\n"
    · exact Emits.pure (by rwa [List.append_nil])
  · exact Emits.pure .nil

theorem uniformLine_cases {e : Surroundings} {u : Uniform} {code : Code} (h : uniformLine e u = .ok code) :
    Listed code [u.declaration] ∧ u.declaration.length ≠ some 0 := by
  unfold uniformLine at h
  dsimp only at h
  split at h
  · obtain ⟨_, -, h₁⟩ := except_bind_eq_ok.mp h
    obtain ⟨_, h₂, -⟩ := except_bind_eq_ok.mp h₁
    exact absurd h₂ except_throw_ne_ok
  · rename_i hlength
    obtain ⟨declaration, hdeclaration, h₁⟩ := except_bind_eq_ok.mp h
    obtain rfl := Except.ok.inj h₁
    obtain ⟨hneutral, hannounces⟩ := IsParameter.of_declare hdeclaration
    exact ⟨⟨(hneutral.append (every_plain ";")).text _, (hannounces _ ";" [] [] rfl .nil).text _⟩, hlength⟩

theorem uniformLines_cases {e : Surroundings} {b : UniformBlock} {lines : List Code} (h : uniformLines e b = .ok lines) :
    (∃ dss, List.Forall₂ Listed lines dss ∧ dss.flatten = b.uniforms.map Uniform.declaration) ∧
      ∀ u ∈ b.uniforms, u.declaration.length ≠ some 0 := by
  unfold uniformLines at h
  split at h
  · rename_i hempty
    obtain rfl := Except.ok.inj h
    rw [List.isEmpty_iff.mp hempty]
    exact ⟨⟨[], .nil, rfl⟩, by simp⟩
  · obtain ⟨declarations, hdeclarations, h₁⟩ := except_bind_eq_ok.mp h
    obtain rfl := Except.ok.inj h₁
    have hlines : List.Forall₂ Listed declarations (b.uniforms.map fun u => [u.declaration]) := by
      rw [List.forall₂_map_right_iff]
      exact (except_mapM_eq_ok_iff.mp hdeclarations).flip.imp fun c u hc => (uniformLine_cases hc).1
    refine ⟨⟨[] :: (b.uniforms.map (fun u => [u.declaration]) ++ [[]]), ?_, ?_⟩, fun u hu => ?_⟩
    · exact .cons (.plain _) (List.rel_append hlines (.cons .nil .nil))
    · rw [List.flatten_cons, List.flatten_append, ← List.flatMap_def, ← List.map_eq_flatMap]
      simp
    · obtain ⟨c, -, hc⟩ := except_mapM_exists hdeclarations u hu
      exact (uniformLine_cases hc).2

theorem declareUniforms_cases {e : Surroundings} (h : declareUniforms e s = .ok a s') :
    ∃ c, s' = s.append c ∧ Listed c ((s.blocks.flatMap UniformBlock.uniforms).map Uniform.declaration) ∧
      ∀ b ∈ s.blocks, ∀ u ∈ b.uniforms, u.declaration.length ≠ some 0 := by
  obtain ⟨stage, s₁, hget, h₁⟩ := state_bind_eq_ok.mp h
  obtain ⟨rfl, rfl⟩ := state_get_eq_ok.mp hget
  obtain ⟨lines, s₂, hlift, h₂⟩ := state_bind_eq_ok.mp h₁
  obtain ⟨hlines, rfl⟩ := state_lift_eq_ok.mp hlift
  have hall : ∀ {blocks : List UniformBlock} {lines : List (List Code)},
      List.Forall₂ (fun b group => uniformLines e b = .ok group) blocks lines → ∃ dss,
        List.Forall₂ Listed lines.flatten dss ∧
          dss.flatten = (blocks.flatMap UniformBlock.uniforms).map Uniform.declaration := by
    intro blocks lines hlines
    induction hlines with
    | nil => exact ⟨[], .nil, rfl⟩
    | cons hgroup _ ih =>
      obtain ⟨⟨dss, hdss, heq⟩, -⟩ := uniformLines_cases hgroup
      obtain ⟨dss', hdss', heq'⟩ := ih
      exact ⟨dss ++ dss', by simpa using List.rel_append hdss hdss', by simp [heq, heq']⟩
  obtain ⟨dss, hdss, heq⟩ := hall (except_mapM_eq_ok_iff.mp hlines)
  obtain ⟨code, rfl, hcode, -⟩ := emits_listed_forM (hdss.imp fun c ds hc => emits_listed hc) _ _ _ h₂
  refine ⟨code, rfl, heq ▸ hcode, fun b hb => ?_⟩
  obtain ⟨group, -, hgroup⟩ := except_mapM_exists hlines b hb
  exact (uniformLines_cases hgroup).2

/-! ## The functions -/

theorem emits_body_any (e : Surroundings) (wrap : Bool) : Emits (body e wrap) fun _ _ => True := by
  have hnodes : Lays (fun _ => True) e.callAll e.bodyDeclarations := Surroundings.lays_callAll fun _ _ => trivial
  exact (emits_body_of_callAll Lays.tracks hnodes wrap).mono fun _ _ _ => trivial

theorem blocks_defineFunctions (h : defineFunctions l f g s = .ok a s') : s'.blocks = s.blocks := by
  obtain ⟨code, functions, rfl, -⟩ := grown_defineFunctions (Q := fun _ => True) (U := fun _ => True) trivial
    (fun _ _ => trivial) (fun _ _ _ _ => trivial)
    (fun name text => (emits_sourceText (P := Token.IsInert) name text fun _ => trivial).mono fun _ _ _ => trivial)
    (fun name own g _ => (emits_define (emits_body_any ⟨l, f, g⟩ false) name own).mono fun _ _ _ => trivial)
    g.weight g rfl (fun _ _ _ => trivial) s a s' h
  rfl

/-! ## The parts of a shader -/

/-- The name under which a shader is defined, unlike some identifiers. -/
def titleOf (l : Language) (identifiers : List String) (name : String) : String :=
  match l with
  | .glsl => name
  | _ => l.dialect.validName identifiers name

/-- What is declared outside of all functions: in GLSL, the uniforms of all blocks. -/
def outside (l : Language) (blocks : List UniformBlock) : List Declaration :=
  match l with
  | .glsl => (blocks.flatMap UniformBlock.uniforms).map Uniform.declaration
  | .osl | .mdl => []

def given (e : Surroundings) (ids : List NodeId) : List Declaration :=
  match e.language with
  | .osl => (publicBlock e.graph ids).uniforms.map Uniform.declaration ++ e.graph.outputSockets.map socketDeclaration
  | .mdl => (publicBlock e.graph ids).uniforms.map Uniform.declaration
  | .glsl => e.graph.outputSockets.map socketDeclaration

/-- What a shader is made of: code that declares the uniforms of GLSL, the functions of the graph, and a last function
that has whatever its body has. -/
structure Parts (e : Surroundings) (name : String) (s s' : Stage) where
  /-- The nodes that an output needs. -/
  ids : List NodeId
  front : Code
  /-- The stage behind the functions. -/
  middle : Stage
  reachable : e.graph.reachable = .ok ids
  listed : Listed front (outside e.language (publicBlock e.graph ids :: lights e.language))
  functions : defineFunctions e.language e.format e.graph
    { s with code := s.code ++ front, blocks := publicBlock e.graph ids :: lights e.language } = .ok () middle
  main : ∀ {Q : Code → Prop}, Emits (body e true) (fun _ c => Q c) → ∃ code identifiers,
    s' = { middle with code := middle.code ++ code, identifiers } ∧
      HasDefinition (titleOf e.language middle.identifiers name) (given e ids) Q code
  filled : ∀ u ∈ (publicBlock e.graph ids).uniforms, u.type.isArray = true → u.declaration.length ≠ some 0

theorem title_bind_cases {d : Dialect} {name : String} {rest : String → Emit Unit}
    (h : (Emit.title d name >>= rest) s = .ok a s') :
    ∃ identifiers, rest (d.validName s.identifiers name) { s with identifiers } = .ok a s' := by
  obtain ⟨title, s₁, htitle, h⟩ := state_bind_eq_ok.mp h
  cases htitle
  exact ⟨_, h⟩

theorem preamble_cases {rest : List Uniform → Emit Unit} {d : Dialect} (hs : s.blocks = [])
    (h : (do
      publish g
      defineTypes d o g
      defineFunctions l f g
      rest (← publicParameters)) s = .ok a s') :
    ∃ ids front middle, g.reachable = .ok ids ∧ Listed front [] ∧
      defineFunctions l f g { s with code := s.code ++ front, blocks := [publicBlock g ids] } = .ok () middle ∧
      rest (publicBlock g ids).uniforms middle = .ok a s' := by
  obtain ⟨_, s₁, hpublish, h₁⟩ := state_bind_eq_ok.mp h
  obtain ⟨_, s₂, htypes, h₂⟩ := state_bind_eq_ok.mp h₁
  obtain ⟨_, s₃, hfunctions, h₃⟩ := state_bind_eq_ok.mp h₂
  obtain ⟨us, s₄, hus, h₄⟩ := state_bind_eq_ok.mp h₃
  obtain ⟨ids, hids, rfl⟩ := publish_eq hs hpublish
  obtain ⟨front, rfl, hfront, -⟩ := emits_defineTypes _ _ _ _ _ _ htypes
  have hblocks : s₃.blocks = [publicBlock g ids] := blocks_defineFunctions hfunctions
  change EStateM.Result.ok (((s₃.block? publicUniforms).map UniformBlock.uniforms).getD []) s₃ = _ at hus
  obtain ⟨rfl, rfl⟩ := EStateM.Result.ok.inj hus
  refine ⟨ids, front, s₃, hids, hfront, hfunctions, ?_⟩
  simpa [Stage.block?, hblocks, name_publicBlock] using h₄

theorem form_of_isArray {type : DataType} {form : TypeForm} (htype : type.isArray = true)
    (h : l.dialect.form type = .ok form) : ∃ opening closing, form.form = .array opening closing := by
  have hforms : ∀ entry ∈ l.dialect.forms, entry.1.isArray = true →
      (match entry.2.form with | .array _ _ => true | _ => false) = true := by cases l <;> decide
  have hform := hforms (type, form) (Dialect.mem_of_form h) htype
  split at hform
  · exact ⟨_, _, ‹_›⟩
  · cases hform

/-- An array without elements cannot be the default value of a parameter. -/
theorem filled_of_parameter {u : Uniform} {parameter : Code}
    (h : l.parameter u.type u.variableName u.value true f = .ok parameter) (htype : u.type.isArray = true) :
    u.declaration.length ≠ some 0 := by
  obtain ⟨default, hdefault, -⟩ := except_bind_eq_ok.mp h
  intro hlength
  obtain ⟨value, hvalue, hzero⟩ := Option.bind_eq_some_iff.mp hlength
  rw [hvalue] at hdefault
  obtain ⟨text, hliteral, -⟩ := except_map_eq_ok.mp hdefault
  obtain ⟨form, hform, hliteral⟩ := except_bind_eq_ok.mp hliteral
  obtain ⟨opening, closing, harray⟩ := form_of_isArray htype hform
  simp [TypeForm.literal, harray, TypeForm.arrayLiteral, hzero] at hliteral

section
variable {name : String}

theorem isParameter_results {e : Surroundings} {sockets : List Input} {outputs : List Code}
    (h : sockets.mapM (fun s => do
      let declaration ← e.language.declare s.type s.variableName none
      let value ← e.dialect.default s.type true
      pure (Language.qualified "output" (declaration.assign (Code.plain value)))) = .ok outputs) :
    List.Forall₂ IsParameter outputs (sockets.map socketDeclaration) := by
  refine IsParameter.mapM (fun s c hc => ?_) h
  obtain ⟨declaration, hdeclaration, hc⟩ := except_bind_eq_ok.mp hc
  obtain ⟨value, -, hc⟩ := except_bind_eq_ok.mp hc
  obtain rfl := Except.ok.inj hc
  exact ((IsParameter.of_declare hdeclaration).assign value).qualified _

theorem parts_oslShader (hs : s.blocks = []) (h : oslShader ⟨.osl, f, g⟩ o name s = .ok a s') :
    Nonempty (Parts ⟨.osl, f, g⟩ name s s') := by
  obtain ⟨ids, front, middle, hids, hfront, hfunctions, h₁⟩ := preamble_cases hs h
  obtain ⟨inputs, middle, hlift, h₂⟩ := state_bind_eq_ok.mp h₁
  obtain ⟨hinputs, rfl⟩ := state_lift_eq_ok.mp hlift
  obtain ⟨outputs, middle, hlift, h₃⟩ := state_bind_eq_ok.mp h₂
  obtain ⟨houtputs, rfl⟩ := state_lift_eq_ok.mp hlift
  obtain ⟨identifiers, h₄⟩ := title_bind_cases h₃
  have hparameters := List.rel_append (IsParameter.mapM (fun (u : Uniform) c hc => .of_parameter hc) hinputs)
    (isParameter_results houtputs)
  refine ⟨⟨ids, front, middle, hids, hfront, hfunctions, fun {Q} hbody => ?_, fun u hu => ?_⟩⟩
  · obtain ⟨code, rfl, hdefinition, -⟩ := emits_listing hparameters hbody _ _ _ _ _ h₄
    exact ⟨code, identifiers, rfl, hdefinition⟩
  · obtain ⟨parameter, -, hparameter⟩ := except_mapM_exists hinputs u hu
    exact filled_of_parameter hparameter

theorem parts_mdlShader (hs : s.blocks = []) (h : mdlShader ⟨.mdl, f, g⟩ o name s = .ok a s') :
    Nonempty (Parts ⟨.mdl, f, g⟩ name s s') := by
  obtain ⟨result, _, hlift, h₀⟩ := state_bind_eq_ok.mp h
  obtain ⟨hresult, rfl⟩ := state_lift_eq_ok.mp hlift
  obtain ⟨_, s₁, hversion, h₁⟩ := state_bind_eq_ok.mp h₀
  obtain ⟨_, s₂, hempty, h₂⟩ := state_bind_eq_ok.mp h₁
  obtain ⟨_, s₃, himports, h₃⟩ := state_bind_eq_ok.mp h₂
  obtain ⟨_, s₄, hempty', h₄⟩ := state_bind_eq_ok.mp h₃
  have hstatement (text : String) : Emits (statement [.text text]) fun _ c => Listed c [] :=
    emits_listed ((Listed.plain text).andPlain ";")
  obtain ⟨c₁, rfl, hc₁, -⟩ := hstatement "mdl 1.6" _ _ _ hversion
  obtain ⟨_, rfl, rfl, -⟩ := emits_emptyLine _ _ _ hempty
  obtain ⟨c₃, rfl, hc₃, -⟩ := emits_listed_nil_forM mdlImports (fun i _ => hstatement ("import " ++ i)) _ _ _ himports
  obtain ⟨_, rfl, rfl, -⟩ := emits_emptyLine _ _ _ hempty'
  obtain ⟨ids, front, middle, hids, hfront, hfunctions, h₅⟩ := preamble_cases (by exact hs) h₄
  obtain ⟨parameters, middle, hlift, h₆⟩ := state_bind_eq_ok.mp h₅
  obtain ⟨hinputs, rfl⟩ := state_lift_eq_ok.mp hlift
  have hparameters := IsParameter.mapM (fun (u : Uniform) c hc => .of_returningParameter hc) hinputs
  have hreturning : body ⟨.mdl, f, g⟩ true = returningBody ⟨.mdl, f, g⟩ result true := by
    simp only [body, hresult]
    rfl
  -- the type of the result is computed in either branch, and then the title is given
  have htitled : ∃ text identifiers, (do
      line [.text text, .defines (Language.mdl.dialect.validName middle.identifiers name)]
      parameterLines parameters
      returningBody ⟨.mdl, f, g⟩ result true) { middle with identifiers } = .ok a s' := by
    split at h₆
    · obtain ⟨typeName, _, htype, h₇⟩ := state_bind_eq_ok.mp h₆
      obtain ⟨-, rfl⟩ := state_pure_eq_ok.mp htype
      exact ⟨_, title_bind_cases h₇⟩
    · obtain ⟨typeName, _, htype, h₇⟩ := state_bind_eq_ok.mp h₆
      obtain ⟨-, rfl⟩ := state_lift_eq_ok.mp htype
      exact ⟨_, title_bind_cases h₇⟩
  obtain ⟨text, identifiers, hmain⟩ := htitled
  refine ⟨⟨ids, c₁ ++ ([.text "\n"] ++ (c₃ ++ ([.text "\n"] ++ front))), middle, hids, ?_, ?_, fun {Q} hbody => ?_,
    fun u hu => ?_⟩⟩
  · exact hc₁.append ((Listed.plain "\n").append (hc₃.append ((Listed.plain "\n").append hfront)))
  · simpa [Stage.append, lights] using hfunctions
  · rw [hreturning] at hbody
    obtain ⟨code, rfl, hdefinition, -⟩ := emits_listing hparameters hbody _ _ _ _ _ hmain
    exact ⟨code, identifiers, rfl, hdefinition⟩
  · obtain ⟨parameter, -, hparameter⟩ := except_mapM_exists hinputs u hu
    obtain ⟨parameter, hparameter, -⟩ := except_bind_eq_ok.mp hparameter
    exact filled_of_parameter hparameter

theorem parts_glslShader (hs : s.blocks = []) (h : glslShader ⟨.glsl, f, g⟩ o name s = .ok a s') :
    Nonempty (Parts ⟨.glsl, f, g⟩ name s s') := by
  unfold glslShader at h
  dsimp only at h
  split at h
  · obtain ⟨_, _, hthrow, -⟩ := state_bind_eq_ok.mp h
    exact absurd hthrow state_throw_ne_ok
  · obtain ⟨_, s₁, hpublish, h₁⟩ := state_bind_eq_ok.mp h
    obtain ⟨_, s₂, hlights, h₂⟩ := state_bind_eq_ok.mp h₁
    obtain ⟨_, s₃, htypes, h₃⟩ := state_bind_eq_ok.mp h₂
    obtain ⟨_, s₄, huniforms, h₄⟩ := state_bind_eq_ok.mp h₃
    obtain ⟨_, s₅, hfunctions, h₅⟩ := state_bind_eq_ok.mp h₄
    obtain ⟨outputs, middle, hlift, h₆⟩ := state_bind_eq_ok.mp h₅
    obtain ⟨houtputs, rfl⟩ := state_lift_eq_ok.mp hlift
    obtain ⟨ids, hids, rfl⟩ := publish_eq hs hpublish
    obtain rfl := state_modify_eq_ok.mp hlights
    rw [addUniform_lights (name_publicBlock g ids)] at htypes
    obtain ⟨types, rfl, htypes', -⟩ := emits_defineTypes _ _ _ _ _ _ htypes
    obtain ⟨uniforms, rfl, hlisted, hfilled⟩ := declareUniforms_cases huniforms
    refine ⟨⟨ids, types ++ uniforms, middle, hids, htypes'.append hlisted, ?_, fun {Q} hbody => ?_, fun u hu _ => ?_⟩⟩
    · simpa [Stage.append] using hfunctions
    · obtain ⟨code, rfl, hdefinition, -⟩ :=
        emits_signature (isParameter_outputs _ houtputs) hbody "void " name _ _ _ h₆
      exact ⟨code, _, rfl, hdefinition⟩
    · exact hfilled _ List.mem_cons_self u hu

/-- **Every layout has the same parts.** -/
theorem parts_shader (hs : s.blocks = []) (h : shader l o name g s = .ok a s') :
    Nonempty (Parts ⟨l, o.floatFormat, g⟩ name s s') := by
  cases l with
  | osl => exact parts_oslShader hs h
  | mdl => exact parts_mdlShader hs h
  | glsl => exact parts_glslShader hs h

end
end Emit

end ShadeGraph
