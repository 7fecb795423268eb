import ShadeGraph.Fragment.Basic
import ShadeGraph.Proofs.Graph.Correspondence
import ShadeGraph.Proofs.Shader.Renaming

/-!
# Generated output does not depend on node identities

Whatever supply the identities of nodes come from, as long as it does not pick one twice, a request has the same
outcome: the same error, or the same source text, uniforms and, for a fragment, the same name, description and path map.
Each supply is compared with the one that counts from zero, of which it is a renaming. An error that showed an identity
would not be the same for all supplies, so there is none.
-/

namespace ShadeGraph

open Function

/-! ## Supplies -/

namespace IdSupply

/-- The identities that are picked from here on. -/
def draw (a : IdSupply) (k : Nat) : NodeId := a.pick (a.next + k)

/-- No identity is picked twice from here on. -/
def Distinct (a : IdSupply) : Prop := Injective a.draw

/-- The identity that a supply picks where counting from zero gives the other one. -/
def numbering (a : IdSupply) (id : NodeId) : NodeId := a.draw id.index

theorem draw_fresh (a : IdSupply) (k : Nat) : a.fresh.2.draw k = a.draw (k + 1) := by
  simp only [draw, fresh]
  congr 1
  omega

theorem Distinct.numbering {a : IdSupply} (ha : a.Distinct) : Injective a.numbering := by
  rintro ⟨i⟩ ⟨j⟩ h
  exact congrArg NodeId.mk (ha h)

end IdSupply

/-! ## Requests -/

inductive Job where
  | shader (document : Document) (generator : Generator) (options : Options) (name : String) (element : Shader.Element)
  | fragment (document : Document) (options : Options) (cross : Option CrossCompiler) (base : String)
    (element : Shader.Element)

inductive Answer where
  | shader (s : Shader)
  | fragment (x : Fragment)

/-- Answers a request, with source files below a search path. -/
def Job.run (path : SearchPath) (files : FileTree) : Job → Build Answer
  | shader document generator options name element => do
    let s ← Shader.generate { document, generator, options, searchPath := path, files } name element
    pure (.shader s)
  | fragment document options cross base element => do
    let x ← Fragment.generate { document, generator := { language := .glsl }, options, searchPath := path, files } cross
      base element
    pure (.fragment x)

/-- What an answer shows: the name and the stage with its text and uniforms, and for a fragment its name, its
description and the path map. -/
def Answer.report : Answer → String × Stage × Option (String × String × List (String × String))
  | shader s => (s.name, s.stage, none)
  | fragment x => (x.shader.name, x.shader.stage, some (x.name, x.text, x.paths))

def Shader.rename (f : NodeId → NodeId) (s : Shader) : Shader := { s with graph := s.graph.rename f }

def Fragment.rename (f : NodeId → NodeId) (x : Fragment) : Fragment := { x with shader := x.shader.rename f }

def Answer.rename (f : NodeId → NodeId) : Answer → Answer
  | shader s => shader (s.rename f)
  | fragment x => fragment (x.rename f)

theorem Answer.report_rename (f : NodeId → NodeId) (x : Answer) : (x.rename f).report = x.report := by
  cases x with
  | shader s => rfl
  | fragment x => rfl

theorem Answer.report_map_rename (f : NodeId → NodeId) (x : Except Error Answer) :
    (x.map (rename f)).map report = x.map report := by
  cases x with
  | error e => rfl
  | ok answer => exact congrArg Except.ok (answer.report_rename f)

/-! ## Counting from zero -/

section
variable {path : SearchPath} {files : FileTree} {texts : String → Except Error String} {f : NodeId → NodeId}
  {stack : List String}

/-- The first state counts identities, the second one picks those that correspond to them, and both see the same texts
of source files. -/
structure Numbered (path : SearchPath) (files : FileTree) (texts : String → Except Error String) (f : NodeId → NodeId)
    (s t : BuildState) : Prop where
  counts : s.ids.pick = NodeId.mk
  draws : ∀ k, t.ids.draw k = f (s.ids.draw k)
  first : Build.view path files s.cache = texts
  second : Build.view path files t.cache = texts

theorem numbered_fresh {ids : IdSupply} (s : BuildState) :
    Numbered path files (Build.view path files s.cache) ids.numbering { s with ids := {} } { s with ids } where
  counts := rfl
  draws := fun k => by
    change ids.draw k = ids.draw (0 + k)
    rw [Nat.zero_add]
  first := rfl
  second := rfl

theorem Numbered.distinct {s t : BuildState} (h : Numbered path files texts f s t) (hf : Injective f) :
    t.ids.Distinct := by
  intro j k hjk
  rw [h.draws, h.draws] at hjk
  have hdraw := hf hjk
  rw [IdSupply.draw, IdSupply.draw, h.counts, NodeId.mk.injEq] at hdraw
  omega

theorem tracks_numbered {r : Request} (hf : Injective f) :
    Build.Tracks r f (Numbered r.searchPath r.files texts f) where
  injective := hf
  fresh := by
    intro s t h
    refine ⟨h.draws 0, h.counts, fun k => ?_, h.first, h.second⟩
    rw [IdSupply.draw_fresh, IdSupply.draw_fresh]
    exact h.draws (k + 1)
  source := by
    rintro file stack s t ⟨hs, ht, h⟩
    have hview := h.first.trans h.second.symm
    rcases Build.source_cases r file s with ⟨text, cache, htext, hcache, hsource⟩ | ⟨e, herror, hsource⟩
    · rcases Build.source_cases r file t with ⟨text', cache', htext', hcache', hsource'⟩ | ⟨e', herror', -⟩
      · obtain rfl : text = text' := by
          rw [hview, htext'] at htext
          exact (Except.ok.inj htext).symm
        rw [hsource, hsource']
        exact .ok ⟨hs, ht, h.counts, h.draws, hcache.trans h.first, hcache'.trans h.second⟩
      · rw [hview, herror'] at htext
        cases htext
    · rcases Build.source_cases r file t with ⟨text', cache', htext', -, -⟩ | ⟨e', herror', hsource'⟩
      · rw [hview, htext'] at herror
        cases herror
      · obtain rfl : e = e' := by
          rw [hview, herror'] at herror
          exact (Except.error.inj herror).symm
        rw [hsource, hsource']
        exact .error ⟨hs, ht, h⟩
  stack := fun _ h => ⟨h.counts, h.draws, h.first, h.second⟩

namespace Shader

theorem simulates_build {r : Request} (hf : Injective f) (element : Element) :
    Simulates (Build.At (Numbered r.searchPath r.files texts f) stack) (Graph.rename f) (element.build r)
      (element.build r) := by
  cases element with
  | graph g => exact (tracks_numbered hf).nodeGraph g
  | node n => exact (tracks_numbered hf).singleNode n

/-- **No error of building shows an identity**: it is the same one with every supply. -/
theorem Element.error_build {a b : IdSupply} (ha : a.Distinct) (hb : b.Distinct) (r : Request) (element : Element)
    (s : BuildState) (e : Error) : outcome (element.build r { s with ids := a }) = .error e ↔
      outcome (element.build r { s with ids := b }) = .error e := by
  have hcounted {ids : IdSupply} (hids : ids.Distinct) : outcome (element.build r { s with ids }) = .error e ↔
      outcome (element.build r { s with ids := {} }) = .error e := by
    have hmatch := simulates_build (r := r) hids.numbering element { s with ids := {} } { s with ids }
      ⟨rfl, rfl, numbered_fresh s⟩
    rw [hmatch.outcome_eq]
    cases outcome (element.build r { s with ids := {} }) with
    | ok g => exact ⟨fun h => (by cases h), fun h => (by cases h)⟩
    | error e' => rfl
  exact (hcounted ha).trans (hcounted hb).symm

theorem write_eq (r : Request) (name : String) (g : Graph) (s : BuildState) : write r name g s =
    match Emit.shader r.generator.language r.options name g { indent := r.options.indent } with
    | .ok _ stage => .ok { name, graph := g, stage } { s with identifiers := stage.identifiers }
    | .error e stage => .error e { s with identifiers := stage.identifiers } :=
  rfl

theorem simulates_write {r : Request} (hf : Injective f) (name : String) (g : Graph) :
    Simulates (Build.At (Numbered r.searchPath r.files texts f) stack) (rename f) (write r name g)
      (write r name (g.rename f)) := by
  rintro s t ⟨hs, ht, h⟩
  rw [write_eq, write_eq, Emit.shader_rename hf]
  cases Emit.shader r.generator.language r.options name g { indent := r.options.indent } with
  | ok _ stage => exact .ok ⟨hs, ht, h.counts, h.draws, h.first, h.second⟩
  | error e stage => exact .error ⟨hs, ht, h.counts, h.draws, h.first, h.second⟩

theorem simulates_generate {r : Request} (hf : Injective f) (name : String) (element : Element) :
    Simulates (Build.At (Numbered r.searchPath r.files texts f) stack) (rename f) (generate r name element)
      (generate r name element) :=
  Simulates.bind (simulates_build hf element) fun g => simulates_write hf name g

end Shader

theorem Fragment.wrap_rename (o : Options) (cross : Option CrossCompiler) (base : String) (s : Shader) :
    wrap o cross base (s.rename f) = (wrap o cross base s).rename f := by
  have hsockets : (s.rename f).graph.outputSockets.map outputLine = s.graph.outputSockets.map outputLine := by
    rw [Shader.rename, Graph.outputSockets_rename, List.map_map]
    rfl
  have hdescribe : describe o cross (s.rename f) = describe o cross s := by
    unfold describe
    rw [hsockets, Shader.rename, Graph.name_rename]
    rfl
  unfold wrap
  rw [hdescribe]
  rfl

/-- A request takes the same steps with counted identities and with those of another supply. -/
theorem Job.simulates_run (hf : Injective f) (job : Job) :
    Simulates (Build.At (Numbered path files texts f) stack) (Answer.rename f) (job.run path files)
      (job.run path files) := by
  cases job with
  | shader document generator options name element =>
    exact Simulates.bind (Shader.simulates_generate (r := ⟨document, generator, options, path, files⟩) hf name element)
      fun s => Simulates.pure rfl
  | fragment document options cross base element =>
    refine Simulates.bind (φ := Fragment.rename f) ?_ fun x => Simulates.pure rfl
    refine Simulates.bind (Shader.simulates_generate (r := ⟨document, { language := .glsl }, options, path, files⟩) hf
      fragmentMark element) fun s => Simulates.pure ?_
    exact Fragment.wrap_rename options cross base s

theorem Job.outcome_numbering {ids : IdSupply} (hids : ids.Distinct) (job : Job) (s : BuildState) :
    outcome (job.run path files { s with ids })
      = (outcome (job.run path files { s with ids := {} })).map (Answer.rename ids.numbering) :=
  (job.simulates_run hids.numbering { s with ids := {} } { s with ids } ⟨rfl, rfl, numbered_fresh s⟩).outcome_eq

end

/-! ## The main result -/

/-- The steps behind the building of a graph commute with a renaming of node identities. -/
structure Commutes (f : NodeId → NodeId) : Prop where
  flattening : ∀ (g : Graph) (s : BuildState) (a b : IdSupply), (∀ k, b.draw k = f (a.draw k)) →
    outcome (Build.flatten (g.rename f) { s with ids := b })
      = (outcome (Build.flatten g { s with ids := a })).map (Graph.rename f)
  scheduling : ∀ g : Graph, (g.rename f).sort = g.sort.map (Graph.rename f)
  scoping : ∀ g : Graph, (g.rename f).assignScopes = g.assignScopes.rename f
  naming : ∀ (g : Graph) (l : Language) (publish : Bool),
    (g.rename f).assignVariables l publish = (g.assignVariables l publish).rename f
  emission : ∀ (g : Graph) (l : Language) (o : Options) (name : String),
    Emit.shader l o name (g.rename f) = Emit.shader l o name g

theorem picks_draws (f : NodeId → NodeId) : Picks f fun a b => ∀ k, b.draw k = f (a.draw k) := by
  intro a b hab
  refine ⟨hab 0, fun k => ?_⟩
  rw [IdSupply.draw_fresh, IdSupply.draw_fresh]
  exact hab (k + 1)

theorem commutes_of_injective {f : NodeId → NodeId} (hf : Injective f) : Commutes f where
  flattening := by
    intro g s a b hab
    have hmatch := Graph.Rewiring.simulates_flatten hf (picks_draws f) (g, a) (g.rename f, b) ⟨rfl, hab⟩
    unfold Build.flatten
    generalize Graph.Rewiring.flatten (g, a) = x, Graph.Rewiring.flatten (g.rename f, b) = y at hmatch ⊢
    cases hmatch with
    | ok states => exact congrArg Except.ok states.1
    | error states => rfl
  scheduling := Graph.sort_rename hf
  scoping := Graph.assignScopes_rename hf
  naming := Graph.assignVariables_rename
  emission := fun g l o name => Emit.shader_rename hf l o name g

/-- **Generated output does not depend on the identities of nodes.** For every request and every state it starts from,
two supplies that pick no identity twice give the same outcome: the same error, or answers that show the same. And every
step on the way commutes with each injective renaming of identities. -/
theorem run_ignores_identities (path : SearchPath) (files : FileTree) (job : Job) (s : BuildState) (a b : IdSupply)
    (ha : a.Distinct) (hb : b.Distinct) :
    (outcome (job.run path files { s with ids := a })).map Answer.report
      = (outcome (job.run path files { s with ids := b })).map Answer.report ∧
    ∀ f : NodeId → NodeId, Injective f → Commutes f := by
  refine ⟨?_, fun f hf => commutes_of_injective hf⟩
  rw [Job.outcome_numbering ha, Job.outcome_numbering hb, Answer.report_map_rename, Answer.report_map_rename]

/-- A document with a compound that passes a number on. -/
def relay : Document :=
  { nodedefs := [{ name := "ND_echo", category := "echo"
                   inputs := [{ name := "in", typeName := "float" }]
                   outputs := [{ name := "out", typeName := "float" }] },
                 { name := "ND_hold", category := "hold"
                   inputs := [{ name := "in", typeName := "float" }]
                   outputs := [{ name := "out", typeName := "float" }] }]
    sources := [{ name := "IM_hold", nodedef := "ND_hold", language := "osl", file := some "hold.inline"
                  source := some "\x7b\x7bin\x7d\x7d" }]
    nodegraphs := [{ name := "NG_echo", nodedef := some "ND_echo"
                     nodes := [{ name := "hold", category := "hold", typeName := "float"
                                 inputs := [{ name := "in", typeName := "float", interfaceName := some "in" }] }]
                     outputs := [{ name := "out", typeName := "float", nodeName := "hold" }] }] }

def chain : NodeGraph :=
  { name := "chain"
    nodes := [{ name := "second", category := "echo", typeName := "float"
                inputs := [{ name := "in", typeName := "float", nodeName := some "first" }] },
      { name := "first", category := "echo", typeName := "float"
        inputs := [{ name := "in", typeName := "float", value := some "0.5" }] }]
    outputs := [{ name := "out", typeName := "float", nodeName := "second" }] }

/-- A supply that has picked three identities before, and skips some. -/
def skipping : IdSupply := { pick := fun k => ⟨2 * k + 7⟩, next := 3 }

theorem counting_distinct : ({} : IdSupply).Distinct := fun j k h => by simpa [IdSupply.draw] using h

theorem skipping_distinct : skipping.Distinct := fun j k h => by
  simp [IdSupply.draw, skipping] at h
  omega

theorem chain_ignores_identities : ({} : IdSupply).Distinct ∧ skipping.Distinct ∧
    (outcome ((Job.shader relay { language := .osl } {} "chain" (.graph chain)).run {} {} {})).isOk = true ∧
    (outcome ((Job.shader relay { language := .osl } {} "chain" (.graph chain)).run {} {} {})).map Answer.report
      = (outcome ((Job.shader relay { language := .osl } {} "chain" (.graph chain)).run {} {} { ids := skipping })).map
        Answer.report := by
  exact ⟨counting_distinct, skipping_distinct, by decide +kernel,
    (run_ignores_identities {} {} _ {} {} skipping counting_distinct skipping_distinct).1⟩

end ShadeGraph
