import ShadeGraph.Proofs.Graph.Closed
import ShadeGraph.Proofs.Shader.Generate
import ShadeGraph.Proofs.Shader.Provenance

/-!
# Calls find their own functions

A function is found by its name. So a call finds the function of its node if functions of the same name are written from
the same text, or from the graph of the same definition, and if none is called like the shader. Then the code has
exactly one definition of each function that is called, at any depth: the node's own one, before all calls.
-/

namespace ShadeGraph

open Code Function

/-! ## Functions of the same origin -/

/-- What a function is written from: a text, or the graph that implements a definition. -/
inductive Origin where
  | text (text : String)
  | graph (nodedef : Option String)
  deriving DecidableEq

namespace Implementation

def origin : Implementation → Origin
  | .source code => .text code.text
  | .compound _ _ graph => .graph graph.nodedef
  | .procedural (.template t) => .text (t.body.getD "")
  | .procedural _ => .text ""

variable {f : NodeId → NodeId} {how : Implementation} {l : Language} {format : FloatFormat}

theorem function?_rename (how : Implementation) : (how.rename f).function? = how.function? := by
  cases how with
  | compound name function g => rw [rename_compound, function?, function?]
  | source code => rw [rename_source]
  | procedural p => rw [rename_procedural]

theorem calls_rename (hf : Injective f) {name : String} : (how.rename f).Calls name ↔ how.Calls name := by
  cases how with
  | compound graph function g =>
    rw [rename_compound]
    constructor
    · rintro ⟨_, _, _, heq, n, hn, hfeeds, hname⟩
      cases heq
      rw [Graph.nodes_rename] at hn
      obtain ⟨m, hm, rfl⟩ := List.mem_map.mp hn
      rw [Node.implementation_rename, function?_rename] at hname
      exact ⟨_, _, _, rfl, m, hm, (Graph.feeds_rename hf).mp hfeeds, hname⟩
    · rintro ⟨_, _, _, heq, n, hn, hfeeds, hname⟩
      cases heq
      refine ⟨_, _, _, rfl, n.rename f, ?_, (Graph.feeds_rename hf).mpr hfeeds, ?_⟩
      · rw [Graph.nodes_rename]
        exact List.mem_map_of_mem hn
      · rw [Node.implementation_rename, function?_rename, hname]
  | source code => rw [rename_source]
  | procedural p => rw [rename_procedural]

theorem definition_rename (hf : Injective f) (indent : Nat) :
    (how.rename f).definition l format indent = how.definition l format indent := by
  have hdefine : Emit.define l format (how.rename f) = Emit.define l format how := by
    cases how with
    | compound name function g =>
      have hvoid := Emit.voidFunction_rename (e := ⟨l, format, g⟩) hf function
      have hreturning := fun result => Emit.returningFunction_rename (e := ⟨l, format, g⟩) hf function result
      simp only [Surroundings.rename] at hvoid hreturning
      rw [rename_compound]
      cases l with
      | mdl => simp only [Emit.define, Emit.onlySocket_rename, lift_map_bind, hreturning]
      | osl => exact hvoid
      | glsl => exact hvoid
    | source code => rw [rename_source]
    | procedural p => rw [rename_procedural]
  rw [definition, hdefine, definition]

theorem define_of_text {name text : String} (hname : how.function? = some name) (htext : how.origin = .text text) :
    (∀ l format, Emit.define l format how = (do Emit.block (.sourceLine name) text; Emit.emptyLine)) ∧
      how.weight = 0 ∧ ∀ other, ¬ how.Calls other := by
  have hcalls (hplain : ∀ graph function g, how ≠ .compound graph function g) (other : String) : ¬ how.Calls other := by
    rintro ⟨graph, function, g, heq, -⟩
    exact hplain graph function g heq
  cases how with
  | compound graph function g => cases htext
  | source code =>
    rw [function?] at hname
    split at hname
    · cases hname
    · obtain rfl := Option.some.inj hname
      obtain rfl := Origin.text.inj htext
      exact ⟨fun _ _ => rfl, rfl, hcalls (by simp)⟩
  | procedural p =>
    cases p with
    | template t =>
      obtain ⟨category, call, function, body⟩ := t
      obtain rfl : function = some name := hname
      obtain rfl := Origin.text.inj htext
      exact ⟨fun _ _ => rfl, rfl, hcalls (by simp)⟩
    | _ => cases hname

end Implementation

namespace Build

variable {r : Request} {texts : String → Except Error String} {a b : Implementation} {name : String}

/-- **Functions of the same name and origin are alike.** Those of compounds are written from graphs that differ only in
the identities of their nodes. -/
theorem alike_of_origin (hflatten : r.options.flatten = false) (ha : Stems r texts a) (hb : Stems r texts b)
    (hname : a.function? = some name) (hname' : b.function? = some name) (horigin : a.origin = b.origin) :
    a.Alike b := by
  have htext {text : String} (hta : a.origin = .text text) (htb : b.origin = .text text) : a.Alike b := by
    obtain ⟨hdefine, hweight, hcalls⟩ := Implementation.define_of_text hname hta
    obtain ⟨hdefine', hweight', hcalls'⟩ := Implementation.define_of_text hname' htb
    refine ⟨hweight.trans hweight'.symm, fun l format indent => ?_, fun other => ?_⟩
    · rw [Implementation.definition, hdefine, Implementation.definition, hdefine']
    · exact iff_of_false (hcalls other) (hcalls' other)
  cases a with
  | source code => exact htext rfl horigin.symm
  | procedural p =>
    cases p with
    | template t => exact htext rfl horigin.symm
    | _ => cases hname
  | compound graph function g =>
    cases b with
    | source code => cases horigin
    | procedural p =>
      cases p with
      | template t => cases horigin
      | _ => cases hname'
    | compound graph' function' g' =>
      obtain ⟨d, inner, depth, s, s', hinner, heq, hg, hstack, hpick, hview⟩ := ha graph function g rfl
      obtain ⟨d', inner', depth', t, t', hinner', heq', hg', hstack', hpick', hview'⟩ := hb graph' function' g' rfl
      have hnodedef := (sound_of_nestedGraph hflatten hpick hg).2.2
      have hnodedef' := (sound_of_nestedGraph hflatten hpick' hg').2.2
      have hd : inner.nodedef = some d := by simpa using List.find?_some hinner
      have hd' : inner'.nodedef = some d' := by simpa using List.find?_some hinner'
      have hsame : d = d' := by
        have := Origin.graph.inj horigin
        rw [hnodedef, hnodedef', hd, hd'] at this
        exact Option.some.inj this
      subst hsame
      obtain rfl := Option.some.inj (hinner.symm.trans hinner')
      obtain ⟨k, f, f', hf, hf', rfl, rfl⟩ := nestedGraph_unique hpick hpick' (hview.trans hview'.symm)
        (hstack.trans hstack'.symm) hg hg'
      rw [heq, heq', ← Implementation.rename_compound, ← Implementation.rename_compound]
      refine ⟨?_, fun l format indent => ?_, fun other => ?_⟩
      · rw [Implementation.weight_rename, Implementation.weight_rename]
      · rw [Implementation.definition_rename hf, Implementation.definition_rename hf']
      · rw [Implementation.calls_rename hf, Implementation.calls_rename hf']

end Build

/-! ## The functions of a graph -/

/-- The implementations of the nodes that an output needs, those inside of compounds included. -/
inductive Graph.Uses (g : Graph) : Implementation → Prop
  | own {n : Node} (mem : n ∈ g.nodes) (feeds : g.Feeds n.id) : g.Uses n.implementation
  | inner {name function : String} {h : Graph} {n : Node} (outer : g.Uses (.compound name function h))
      (mem : n ∈ h.nodes) (feeds : h.Feeds n.id) : g.Uses n.implementation

/-- Names tell functions apart: those of the same name are written from the same, and none is called like the shader. -/
structure Graph.Unmixed (g : Graph) (title : String) : Prop where
  origin : ∀ {a b name}, g.Uses a → g.Uses b → a.function? = some name → b.function? = some name → a.origin = b.origin
  title : ∀ {how}, g.Uses how → how.function? ≠ some title

mutual

/-- The implementations of all nodes, those inside of compounds included. -/
def Graph.implementations : Graph → List Implementation
  | ⟨_, _, _, nodes, _, _⟩ => Graph.implementationsOf nodes

def Graph.implementationsOf : List Node → List Implementation
  | [] => []
  | ⟨_, _, _, _, _, _, _, implementation, _⟩ :: rest =>
    implementation :: (implementation.inside ++ Graph.implementationsOf rest)

def Implementation.inside : Implementation → List Implementation
  | .compound _ _ graph => graph.implementations
  | .source _ => []
  | .procedural _ => []

end

theorem Graph.mem_implementationsOf {n : Node} {nodes : List Node} (hn : n ∈ nodes) {how : Implementation}
    (h : how = n.implementation ∨ how ∈ n.implementation.inside) : how ∈ implementationsOf nodes := by
  induction nodes with
  | nil => cases hn
  | cons m nodes ih =>
    have hcons : implementationsOf (m :: nodes)
        = m.implementation :: (m.implementation.inside ++ implementationsOf nodes) := by
      cases m
      rw [implementationsOf]
    rw [hcons]
    rcases List.mem_cons.mp hn with rfl | hn
    · rcases h with rfl | h
      · exact List.mem_cons_self
      · exact List.mem_cons_of_mem _ (List.mem_append_left _ h)
    · exact List.mem_cons_of_mem _ (List.mem_append_right _ (ih hn))

theorem Graph.mem_implementations {g : Graph} {how : Implementation} (h : g.Uses how) :
    how ∈ g.implementations ∧ ∀ inner ∈ how.inside, inner ∈ g.implementations := by
  have hnode {g : Graph} {n : Node} (hn : n ∈ g.nodes) {inner : Implementation}
      (h : inner = n.implementation ∨ inner ∈ n.implementation.inside) : inner ∈ g.implementations := by
    cases g
    rw [implementations]
    exact mem_implementationsOf hn h
  induction h with
  | own hn _ => exact ⟨hnode hn (.inl rfl), fun inner hinner => hnode hn (.inr hinner)⟩
  | inner _ hn _ ih =>
    rw [Implementation.inside] at ih
    exact ⟨ih.2 _ (hnode hn (.inl rfl)), fun inner hinner => ih.2 _ (hnode hn (.inr hinner))⟩

/-- Whether an output of a graph needs a node. -/
def Node.isNeeded (n : Node) (g : Graph) : Bool :=
  match g.reachable with
  | .ok ids => ids.contains n.id
  | .error _ => false

theorem Node.feeds_of_isNeeded {g : Graph} {n : Node} (h : n.isNeeded g = true) : g.Feeds n.id := by
  unfold isNeeded at h
  split at h
  · rename_i ids hids
    exact (Graph.mem_reachable_iff hids).mp (by simpa using h)
  · cases h

/-- A check that names tell the functions of a graph apart. -/
def Graph.areUnmixed (g : Graph) (title : String) : Bool :=
  g.implementations.all fun a => a.function? != some title &&
    g.implementations.all fun b => a.function?.isNone || a.function? != b.function? || a.origin == b.origin

theorem Graph.unmixed_of_check {g : Graph} {title : String} (h : g.areUnmixed title = true) : g.Unmixed title := by
  rw [areUnmixed, List.all_eq_true] at h
  refine ⟨fun {a b name} ha hb hname hname' => ?_, fun {how} hhow => ?_⟩
  · have hcheck := (Bool.and_eq_true_iff.mp (h a (mem_implementations ha).1)).2
    simpa [hname, hname'] using List.all_eq_true.mp hcheck b (mem_implementations hb).1
  · simpa using (Bool.and_eq_true_iff.mp (h how (mem_implementations hhow).1)).1

namespace Build

variable {r : Request} {texts : String → Except Error String} {s : BuildState} {g : Graph} {how : Implementation}

theorem stems_of_uses (hflatten : r.options.flatten = false) (hg : Sound r texts s g) (h : g.Uses how) :
    Stems r texts how := by
  induction h with
  | own hn _ => exact hg.stems _ hn
  | inner _ hn _ ih =>
    obtain ⟨d, inner, depth, t, t', -, -, hbuild, -, hpick, rfl⟩ := ih _ _ _ rfl
    exact (sound_of_nestedGraph hflatten hpick hbuild).2.1.stems _ hn

theorem coherent_uses (hflatten : r.options.flatten = false) (hg : Sound r texts s g) {title : String}
    (hunmixed : g.Unmixed title) : Emit.Coherent g.Uses where
  inside := fun houter n hn hfeeds => .inner houter hn hfeeds
  inPlace := by
    intro name function h hused
    obtain ⟨d, inner, depth, t, t', -, -, hbuild, -, hpick, -⟩ := stems_of_uses hflatten hg hused _ _ _ rfl
    exact (sound_of_nestedGraph hflatten hpick hbuild).1
  alike := by
    intro a b name ha hb hname hname'
    exact alike_of_origin hflatten (stems_of_uses hflatten hg ha) (stems_of_uses hflatten hg hb) hname hname'
      (hunmixed.origin ha hb hname hname')

end Build

/-! ## The main result -/

/-- The code has one definition of a function: nothing before its end calls the function, and nothing else defines
it. -/
def Code.DefinesOnce (code : Code) (function : String) (definition : Code) : Prop :=
  ∃ front rest, code = front ++ definition ++ rest ∧
    Every (Token.Mentions (· ≠ function) (· ≠ function)) front ∧
    Every (Token.Mentions (· = function) (· ≠ function)) definition ∧
    Every (Token.Mentions (· ≠ function) fun _ => True) rest

/-- The functions of the implementations that a graph uses. -/
def Graph.HasFunction (g : Graph) (function : String) : Prop := ∃ how, g.Uses how ∧ how.function? = some function

namespace Emit

variable {g : Graph} {l : Language} {f : FloatFormat} {indent : Nat} {defs : List Definition}

 /-- All functions of a graph are defined if those of its own nodes are. -/
theorem mem_names_of_uses (hU : Coherent g.Uses) (hdefs : Arranged g.Uses l f indent defs)
    (hown : ∀ n ∈ g.nodes, g.Feeds n.id → ∀ name, n.implementation.function? = some name → name ∈ Definition.names defs)
    {how : Implementation} (hused : g.Uses how) :
    ∀ name, how.function? = some name → name ∈ Definition.names defs := by
  -- The induction is on the depth of the use: what is inside of a compound is called by whatever defines its function.
  induction hused with
  | own hn hfeeds => exact hown _ hn hfeeds
  | @inner _ function _ n houter hn hfeeds ih =>
    intro name hname
    obtain ⟨_, _, _, how', -, hused', hfunction', -, hcalls, -⟩ := hdefs.split (ih function rfl)
    exact hcalls name (((hU.alike houter hused' rfl hfunction').calls name).mp ⟨_, _, _, rfl, n, hn, hfeeds, hname⟩)

end Emit

namespace Shader

theorem graph_of_write {r : Request} {name : String} {g : Graph} {s s' : BuildState} {shader : Shader}
    (h : write r name g s = .ok shader s') : shader.graph = g := by
  rw [write_eq] at h
  split at h
  · cases h
    rfl
  · cases h

/-- **Calls find their own functions.** Whatever element of whatever document a shader is generated from without
flattening, and in whatever language: each function of a node that an output needs, at any depth, has exactly one
definition in the code, before all calls, and it is the definition of the node's own implementation. Nothing else is
called. This holds if names tell functions apart, and node identities differ. -/
theorem calls_find_definitions (r : Request) (name : String) (element : Element) (s : BuildState)
    (hflatten : r.options.flatten = false) (hpick : Injective s.ids.pick) (shader : Shader) (s' : BuildState)
    (h : generate r name element s = .ok shader s')
    (hunmixed : shader.graph.Unmixed (Emit.titleOf r.generator.language [] name)) :
    (∀ how function, shader.graph.Uses how → how.function? = some function →
      ∃ definition, how.definition r.generator.language r.options.floatFormat r.options.indent = .ok definition ∧
        shader.stage.code.DefinesOnce function definition) ∧
    Every (Token.Mentions (fun f => f = Emit.titleOf r.generator.language [] name ∨ shader.graph.HasFunction f)
      shader.graph.HasFunction) shader.stage.code := by
  obtain ⟨g, s₁, hbuild, hwrite⟩ := state_bind_eq_ok.mp h
  obtain rfl := graph_of_write hwrite
  obtain ⟨hplaced, hsound⟩ := Build.sound_of_build hflatten hpick hbuild
  have hU := Build.coherent_uses hflatten hsound hunmixed
  obtain ⟨⟨ids, front, middle, -, hlisted, hfunctions, hlast, -⟩⟩ := Emit.parts_shader rfl (write_spec hwrite)
  have hfront {D F : String → Prop} : Every (Token.Mentions D F) front := hlisted.neutral.of_neutral
  obtain ⟨defs, functions, hdefs, rfl, hown⟩ :=
    Emit.arranged_defineFunctions hU (fun n hn hfeeds => .own hn hfeeds) rfl rfl hfunctions
  obtain ⟨main, identifiers, hstage, hmain⟩ :=
    hlast (Emit.body_mentions (D := (· = Emit.titleOf r.generator.language [] name)) hplaced hown true)
  have hcode : shader.stage.code = front ++ defs.flatMap Definition.code ++ main := by simp [hstage]
  have hmain := hmain.mentions rfl
  have hused (function : String) (hmem : function ∈ Definition.names defs) : shader.graph.HasFunction function := by
    obtain ⟨_, _, _, how, -, hhow, hfunction, -⟩ := hdefs.split hmem
    exact ⟨how, hhow, hfunction⟩
  refine ⟨fun how function hhow hfunction => ?_, ?_⟩
  · have hmem := Emit.mem_names_of_uses hU hdefs hown hhow function hfunction
    obtain ⟨before, d, after, how', rfl, hhow', hfunction', hdefinition, -, hbefore, hself, hafter⟩ := hdefs.split hmem
    refine ⟨d.code, ?_, front ++ before.flatMap Definition.code, after.flatMap Definition.code ++ main, ?_, ?_, hself,
      ?_⟩
    · rw [(hU.alike hhow hhow' hfunction hfunction').definition]
      exact hdefinition
    · rw [hcode]
      simp
    · exact hfront.append hbefore
    · refine hafter.append (hmain.mono (Token.Mentions.mono ?_ fun _ _ => trivial))
      rintro _ rfl rfl
      exact hunmixed.title hhow hfunction
  · rw [hcode]
    refine (hfront.append (hdefs.mentions.mono (Token.Mentions.mono (fun f h => .inr (hused f h)) hused))).append ?_
    exact hmain.mono (Token.Mentions.mono (fun f h => .inl h) hused)

def unaryDef (category : String) : NodeDef :=
  { name := "ND_" ++ category, category, inputs := [numberPin "in"], outputs := [numberPin "out"] }

/-- The graph of a definition: nodes in a row, of which the first one reads the input. -/
def rowGraph (name nodedef first : String) (rest : List (String × String × String)) (last : String) : NodeGraph :=
  { name, nodedef := some nodedef
    nodes := { name := "start", category := first, typeName := "float"
               inputs := [{ name := "in", typeName := "float", interfaceName := some "in" }] } ::
      rest.map fun (name, category, source) => numberNode name category [("in", source)]
    outputs := [{ name := "out", typeName := "float", nodeName := last }] }

/-- Source code of a function, and two compounds of which the second one contains the first one. -/
def holding : Document :=
  { nodedefs := ["hold", "echo", "wrap"].map unaryDef
    sources := [{ name := "IM_hold", nodedef := "ND_hold", language := "osl", function := some "hold"
                  source := some "void hold(float x, output float y) \x7b y = x; \x7d" }]
    nodegraphs := [rowGraph "NG_echo" "ND_echo" "hold" [] "start",
      rowGraph "NG_wrap" "ND_wrap" "echo" [("end", "hold", "start")] "end"] }

def series : NodeGraph :=
  { name := "series"
    nodes := [numberNode "first" "wrap" [], numberNode "second" "echo" [("in", "first")],
      numberNode "third" "hold" [("in", "second")]]
    outputs := [{ name := "out", typeName := "float", nodeName := "third" }] }

/-- A request that keeps compounds as functions. -/
def unflattened (document : Document) : Request :=
  { document, generator := { language := .osl }, options := { flatten := false } }

/-- The compound inside of the first compound is called and defined like the second one. -/
theorem series_finds_definitions : (unflattened holding).options.flatten = false ∧
    Injective ({} : BuildState).ids.pick ∧
    ∃ shader s', generate (unflattened holding) "series" (.graph series) {} = .ok shader s' ∧
      shader.graph.Unmixed (Emit.titleOf .osl [] "series") ∧
      ∃ outer inner, shader.graph.Uses outer ∧ outer.function? = some "NG_wrap" ∧ outer.Calls "NG_echo" ∧
        shader.graph.Uses inner ∧ inner.function? = some "NG_echo" ∧
        ∃ definition, inner.definition .osl (unflattened holding).options.floatFormat 4 = .ok definition ∧
          shader.stage.code.DefinesOnce "NG_echo" definition := by
  have hpick : Injective ({} : BuildState).ids.pick := fun _ _ h => congrArg NodeId.index h
  obtain ⟨shader, s', hshader, hcheck, n, hn, hfeeds, h, hgraph, m, hm, hfeeds', hname, hname'⟩ :=
    Build.exists_ok_of_check (generate (unflattened holding) "series" (.graph series)) {}
      (fun shader _ => shader.graph.areUnmixed (Emit.titleOf .osl [] "series") = true ∧
        ∃ n ∈ shader.graph.nodes, n.isNeeded shader.graph = true ∧ ∃ h ∈ n.graph?, ∃ m ∈ h.nodes,
          m.isNeeded h = true ∧ n.implementation.function? = some "NG_wrap" ∧
          m.implementation.function? = some "NG_echo")
      (by decide +kernel)
  obtain ⟨graph, function, hcompound⟩ : ∃ graph function, n.implementation = .compound graph function h := by
    unfold Node.graph? at hgraph
    split at hgraph
    · rename_i graph function h' heq
      cases hgraph
      exact ⟨graph, function, heq⟩
    · cases hgraph
  have houter : shader.graph.Uses n.implementation := .own hn (Node.feeds_of_isNeeded hfeeds)
  have hinner : shader.graph.Uses m.implementation := .inner (hcompound ▸ houter) hm (Node.feeds_of_isNeeded hfeeds')
  have hunmixed := Graph.unmixed_of_check hcheck
  refine ⟨rfl, hpick, shader, s', hshader, hunmixed, n.implementation, m.implementation, houter, hname, ?_, hinner,
    hname', ?_⟩
  · exact ⟨graph, function, h, hcompound, m, hm, Node.feeds_of_isNeeded hfeeds', hname'⟩
  · exact (calls_find_definitions (unflattened holding) "series" (.graph series) {} rfl hpick shader s' hshader
      hunmixed).1 m.implementation "NG_echo" hinner hname'

/-- Two compounds whose names differ only in a character that no name may have. -/
def lookalikes : Document :=
  { nodedefs := ["half", "twice", "low", "high"].map unaryDef
    sources := [("half", "0.5 * \x7b\x7bin\x7d\x7d"), ("twice", "2.0 * \x7b\x7bin\x7d\x7d")].map fun (name, source) =>
      { name := "IM_" ++ name, nodedef := "ND_" ++ name, language := "osl", file := some (name ++ ".inline")
        source := some source }
    nodegraphs := [rowGraph "NG scale" "ND_low" "half" [] "start", rowGraph "NG_scale" "ND_high" "twice" [] "start"] }

def pair : NodeGraph :=
  { name := "pair"
    nodes := [numberNode "first" "low" [], numberNode "second" "high" [("in", "first")]]
    outputs := [{ name := "out", typeName := "float", nodeName := "second" }] }

/-- The condition on names cannot be left out: of two compounds whose functions have the same name, only one is
defined. -/
theorem lookalikes_share_definition :
    ∃ shader s', generate (unflattened lookalikes) "pair" (.graph pair) {} = .ok shader s' ∧
      ∃ how, shader.graph.Uses how ∧ how.function? = some "NG_scale" ∧
        ∃ definition, how.definition .osl (unflattened lookalikes).options.floatFormat 4 = .ok definition ∧
          ¬ shader.stage.code.DefinesOnce "NG_scale" definition := by
  obtain ⟨shader, s', hshader, n, hn, hfeeds, hname, definition, hdefinition, hmissing⟩ :=
    Build.exists_ok_of_check (generate (unflattened lookalikes) "pair" (.graph pair)) {}
      (fun shader _ => ∃ n ∈ shader.graph.nodes, n.isNeeded shader.graph = true ∧
        n.implementation.function? = some "NG_scale" ∧
        ∃ definition ∈ (n.implementation.definition .osl (unflattened lookalikes).options.floatFormat 4).toOption,
          ¬ definition <:+: shader.stage.code)
      (by decide +kernel)
  refine ⟨shader, s', hshader, n.implementation, .own hn (Node.feeds_of_isNeeded hfeeds), hname, definition, ?_, ?_⟩
  · cases hresult : n.implementation.definition .osl (unflattened lookalikes).options.floatFormat 4 with
    | ok code =>
      rw [hresult] at hdefinition
      exact congrArg Except.ok (Option.some.inj hdefinition)
    | error e =>
      rw [hresult] at hdefinition
      cases hdefinition
  · rintro ⟨front, rest, hcode, -⟩
    exact hmissing ⟨front, rest, hcode.symm⟩

end Shader

end ShadeGraph
